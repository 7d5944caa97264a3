import Statechart.Model.Definition
import Statechart.Text.Quote

/-!
# Subjects

What a caller may hand over where a definition is due. Anything else is refused, and the
refusal names the kind of thing that was handed over, or the part that it lacks. A declaration
has some of the parts of a definition and is refused only for the others.
-/

namespace Statechart

/-- Things that are no definition. -/
inductive Foreign
  | nothing
  | text
  | number
  | list
  | record
  /-- A declaration with nothing in it. -/
  | declaration
  | verdict
  deriving DecidableEq, Repr

/-- The name of the thing's kind. -/
def Foreign.kind : Foreign → String
  | nothing => "NoneType"
  | text => "str"
  | number => "int"
  | list => "list"
  | record => "dict"
  | declaration => "MachineDecl"
  | verdict => "ValidationResult"

/-- A definition, or something else in its place. -/
inductive Subject
  | definition (m : Definition)
  | foreign (f : Foreign)
  deriving DecidableEq, Repr

/-- Something was asked for a part that things of its kind do not have. -/
structure MissingPart where
  kind : String
  part : String
  deriving DecidableEq, Repr

/-- The refusal in words. -/
def MissingPart.message (e : MissingPart) : String :=
  "'" ++ e.kind ++ "' object has no attribute '" ++ e.part ++ "'"

/-- Why a choice of what was handed over is not found. -/
inductive ChoiceError
  /-- There are no choices at all. -/
  | missing (e : MissingPart)
  /-- The choices are in a list and have no names in it. -/
  | listed
  /-- No choice has the name. -/
  | unknown (id : String)
  deriving DecidableEq, Repr

/-- The refusal in words. -/
def ChoiceError.message : ChoiceError → String
  | missing e => e.message
  | listed => "list indices must be integers or slices, not str"
  | unknown id => Text.quote id

namespace Subject

/-- The definition that was handed over, for a reader of its part `part`, which declarations lack
as well. -/
def require (part : String) : Subject → Except MissingPart Definition
  | definition m => .ok m
  | foreign f => .error ⟨f.kind, part⟩

/-- The definition that was handed over, for a reader of all its parts, if anything was handed
over. A declaration has a name, but its states are in a list. -/
def requireAll : Subject → Except MissingPart (Option Definition)
  | definition m => .ok (some m)
  | foreign .nothing => .ok none
  | foreign .declaration => .error ⟨Foreign.list.kind, "items"⟩
  | foreign f => .error ⟨f.kind, "name"⟩

/-- The transitions of what was handed over. -/
def transitions : Subject → Except MissingPart (List Transition)
  | definition m => .ok m.transitions
  | foreign .declaration => .ok []
  | foreign f => .error ⟨f.kind, "transitions"⟩

/-- The choice of a name in what was handed over. -/
def choice (id : String) : Subject → Except ChoiceError Choice
  | definition m =>
    match m.choice? id with
    | some c => .ok c
    | none => .error (.unknown id)
  | foreign .declaration => .error .listed
  | foreign f => .error (.missing ⟨f.kind, "choices"⟩)

end Subject

end Statechart
