import Statechart.Model.Definition

/-!
# Member names

States and events become members of enumerations in a generated module. An identifier that is
reserved there, or that begins with an underscore, is written without its leading underscores
and with `X_` in front. So different identifiers may be given the same member name, which is an
error (`Clash`).
-/

namespace Statechart.Codegen

/-- The keywords of the generated code. -/
def keywords : List String := [
  "False", "None", "True", "and", "as", "assert", "async", "await", "break", "class", "continue",
  "def", "del", "elif", "else", "except", "finally", "for", "from", "global", "if", "import",
  "in", "is", "lambda", "nonlocal", "not", "or", "pass", "raise", "return", "try", "while",
  "with", "yield"]

/-- The names that the members of an enumeration have already. -/
def memberAttributes : List String := ["name", "value", "mro"]

/-- Whether an identifier cannot be the name of a member as it is. -/
def needsMark (identifier : String) : Bool :=
  keywords.contains identifier || identifier.toList.head? == some '_' ||
    memberAttributes.contains identifier

/-- The name of the member for an identifier. -/
def memberName (identifier : String) : String :=
  if needsMark identifier then
    "X_" ++ String.ofList (identifier.toList.dropWhile (· == '_'))
  else identifier

/-- Two identifiers of one kind that are given the same member name. -/
structure Clash where
  first : String
  second : String
  deriving DecidableEq, Repr

/-- The first identifier that is given the member name of an earlier one, with that one; the
identifiers `seen` come earlier. -/
def findClash (seen : List String) : List String → Option Clash
  | [] => none
  | id :: ids =>
    match seen.find? fun s => memberName s == memberName id with
    | some s => some ⟨s, id⟩
    | none => findClash (seen ++ [id]) ids

/-- The events of a generated module: those of transitions, then those of timers. -/
def moduleEvents (m : Definition) : List String :=
  m.events ++ m.timerEvents.filter fun e => !m.events.contains e

end Statechart.Codegen
