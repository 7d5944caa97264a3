import Statechart.Number.Shortest
import Statechart.Text.Numeral
import Statechart.Text.Quote

/-!
# Values

Values of the kind that data files hold: they come with events, are the answers of guards, and
carry the replies of a layout service. The fields of a record keep their order. A value that holds
an integer with too many digits cannot be shown.
-/

namespace Statechart

/-- A piece of data. -/
inductive Value
  | null
  | bool (b : Bool)
  | int (n : Int)
  | real (x : Binary64)
  | text (s : String)
  | list (items : List Value)
  | record (fields : List (String × Value))
  deriving Repr, Inhabited

namespace Value

/-- Whether the value counts as true: it is neither null, false, zero nor empty. -/
def truthy : Value → Bool
  | null => false
  | bool b => b
  | int n => n != 0
  | real x => !x.isZero
  | text s => !s.isEmpty
  | list items => !items.isEmpty
  | record fields => !fields.isEmpty

/-- The name of the value's kind. -/
def kind : Value → String
  | null => "NoneType"
  | bool _ => "bool"
  | int _ => "int"
  | real _ => "float"
  | text _ => "str"
  | list _ => "list"
  | record _ => "dict"

mutual

/-- The value inside another one, with texts quoted. -/
def inner : Value → Except Text.NumeralError String
  | null => .ok "None"
  | bool b => .ok (if b then "True" else "False")
  | int n => Text.showInt n
  | real x => .ok x.text
  | text s => .ok (Text.quote s)
  | list items => do return "[" ++ ", ".intercalate (← innerList items) ++ "]"
  | record fields => do return "\x7b" ++ ", ".intercalate (← innerFields fields) ++ "\x7d"

/-- The values inside a list. -/
def innerList : List Value → Except Text.NumeralError (List String)
  | [] => .ok []
  | v :: vs => do return (← v.inner) :: (← innerList vs)

/-- The fields inside a record. -/
def innerFields : List (String × Value) → Except Text.NumeralError (List String)
  | [] => .ok []
  | (k, v) :: fs => do return (Text.quote k ++ ": " ++ (← v.inner)) :: (← innerFields fs)

end

/-- The value as it stands on its own. -/
def shown : Value → Except Text.NumeralError String
  | text s => .ok s
  | v => v.inner

/-- The field of a name, in a record. -/
def field? (name : String) : List (String × Value) → Option Value
  | [] => none
  | (k, v) :: fs => if k = name then some v else field? name fs

end Value

end Statechart
