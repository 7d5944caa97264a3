import Statechart.Codegen.Dispatcher
import Statechart.Codegen.Header
import Statechart.Codegen.Member
import Statechart.Codegen.Tables
import Statechart.Model.Subject
import Statechart.Text.Numeral
import Statechart.Text.Quote

/-!
# Generated modules

The text of a module that runs one definition: a header, enumerations of the states and events,
the dispatch tables and a dispatcher class. There is one target, named `standard`; it is
chosen if no target is asked for, and never in place of another.

A module is refused (`CodegenError`) before anything of it is written. Writing it can still fail,
as the duration of a timer may have too many digits; so may an integer that is asked for as target.
-/

namespace Statechart.Codegen

open Text (quote quote? quoteTuple)

/-- What the identifiers of an enumeration are. -/
inductive MemberKind
  | state
  | event
  deriving DecidableEq, Repr

/-- The word for the kind. -/
def MemberKind.word : MemberKind → String
  | state => "state"
  | event => "event"

/-- Why no module is generated. -/
inductive CodegenError
  /-- There is no such target; it is shown in the words given. -/
  | unknownTarget (target : Value) (shown : String)
  /-- What was handed over is no definition. -/
  | notDefinition (kind : String)
  /-- Two identifiers are given the same member name. -/
  | clash (kind : MemberKind) (clash : Clash)
  /-- The directory of templates that was asked for holds none. -/
  | missingTemplate (directory : String)

/-- The name of the only target. -/
def standard : String := "standard"

/-- The file name of the target's template. -/
def templateName : String := "standard.jinja2"

namespace CodegenError

/-- The error in words. -/
def message : CodegenError → String
  | unknownTarget _ shown =>
    "Unknown code generation target '" ++ shown ++ "' (available: " ++ standard ++ ")"
  | notDefinition kind => "Code generation needs a validated FsmDefinition, got " ++ kind
  | clash kind c =>
    kind.word ++ " identifiers '" ++ c.first ++ "' and '" ++ c.second ++ "' both render as '" ++
      memberName c.first ++ "'"
  | missingTemplate directory =>
    "Template " ++ templateName ++ " failed: " ++ quote templateName ++
      " not found in search path: " ++ quote directory

/-- The target the error is about, if it is about one. -/
def target? : CodegenError → Option Value
  | unknownTarget v _ => some v
  | notDefinition _ => some (.text standard)
  | _ => none

end CodegenError

/-- Why there is no module: it is refused, or an integer cannot be written. -/
inductive GenerationError
  | refused (error : CodegenError)
  | numeral (error : Text.NumeralError)

/-! ## The parts of a module -/

/-- The documentation of the module. -/
def documentation (machine : String) : List String := [
  "\"\"\"" ++ machine ++ " state machine.",
  "",
  "Generated from an FSM DSL description; the header names the source file.",
  "Guard and action texts are host code: guards are resolved by the ``guard``",
  "callable given to the machine, actions are reported to ``on_action``.",
  "\"\"\"",
  "",
  "import enum",
  "",
  ""]

/-- The member of an enumeration for an identifier. -/
def memberLine (id : String) : String := "    " ++ memberName id ++ " = " ++ quote id

/-- The enumerations of states and events. -/
def enumerations (m : Definition) : List String :=
  let events := moduleEvents m
  ["class State(enum.Enum):"] ++ m.states.map (memberLine ·.id) ++
  ["", "", "class Event(enum.Enum):"] ++
  (if events.isEmpty then ["    pass"] else events.map memberLine) ++ ["", ""]

/-- The lines of a table and the blank line after it. -/
def tableOf (name : String) (entries : List String) : List String :=
  (name ++ " = \x7b") :: entries ++ ["\x7d", ""]

/-- The line of a table with one value for a key. -/
def entryLine (key value : String) : String := "    " ++ quote key ++ ": " ++ value ++ ","

/-- The lines of a table with several rows for a key. -/
def groupLines {α : Type} (row : α → List String) (g : String × List α) : List String :=
  ["    " ++ quote g.1 ++ ": ("] ++
  (g.2.map fun r => "        (" ++ ", ".intercalate (row r) ++ "),") ++ ["    ),"]

/-- The cells of a row. -/
def Row.cells (r : Row) : List String := [quote? r.condition, quoteTuple r.actions, quote r.target]

/-- The cells of a row for an event. -/
def EventRow.cells (r : EventRow) : List String := quote r.event :: r.row.cells

/-- The cells of a row of a choice, or of the gap in place of one. -/
def gapCells : Option Row → List String
  | some r => r.cells
  | none => ["Undefined", "Undefined", "Undefined"]

/-- The table of the actions of states. -/
def actionTable (name : String) (actions : State → List String) (m : Definition) : List String :=
  tableOf name <| (m.states.filter fun s => !(actions s).isEmpty).map fun s =>
    entryLine s.id (quoteTuple (actions s))

/-- The cells of a timer. -/
def timerCells (t : Timer) : Except Text.NumeralError String := do
  let duration ← Text.showInt t.duration
  return "(" ++ duration ++ ", " ++ quote t.event ++ ", " ++
    (if t.periodic then "True" else "False") ++ ")"

/-- The line of a timer. -/
def timerLine (t : Timer) : Except Text.NumeralError String := do
  return entryLine t.id (← timerCells t)

/-- The cells of a timer command. -/
def commandCells (c : TimerCommand) : String := quoteTuple [c.verb, c.timer]

/-- The lines of the dispatch tables. -/
def tableLines (t : Tables) : Except Text.NumeralError (List String) := do
  let timers ← t.timers.mapM timerLine
  return List.flatten [
    ["# source -> ((event, guard, actions, target), ...) in declaration order"],
    tableOf "TRANSITIONS" (t.transitions.flatMap (groupLines EventRow.cells)),
    ["# source -> ((guard, actions, target), ...) for event-less transitions"],
    tableOf "COMPLETIONS" (t.completions.flatMap (groupLines Row.cells)),
    ["# choice -> ((condition, actions, target), ...); the else branch is last with" ++
      " condition None"],
    tableOf "CHOICES" (t.choices.flatMap (groupLines gapCells)),
    ["# timer -> (duration, event, periodic)"],
    tableOf "TIMERS" timers,
    ["# action text -> ('start' | 'stop', timer)"],
    tableOf "TIMER_COMMANDS" (t.commands.map fun c => entryLine c.1 (commandCells c.2))]

/-- The lines of a module after its header. -/
def moduleLines (m : Definition) : Except Text.NumeralError (List String) := do
  let dispatch ← tableLines (tables m)
  return [""] ++ documentation m.name ++ enumerations m ++
  ["INITIAL = " ++ quote m.initial, ""] ++
  actionTable "ENTRY_ACTIONS" State.entry m ++ actionTable "EXIT_ACTIONS" State.exit m ++
  dispatch ++ [""] ++ dispatcher (m.name ++ "Machine") m.name

/-! ## Generation -/

/-- Refuses identifiers that are given the same member name. -/
def checkMembers (kind : MemberKind) (ids : List String) : Except CodegenError Unit :=
  match findClash [] ids with
  | some c => .error (.clash kind c)
  | none => .ok ()

/-- Refuses targets other than the only one. -/
def checkTarget : Option Value → Except GenerationError Unit
  | none => .ok ()
  | some (.text s) =>
    if s = standard then .ok () else .error (.refused (.unknownTarget (.text s) s))
  | some v => do
    let shown ← v.shown.mapError .numeral
    .error (.refused (.unknownTarget v shown))

/-- Refuses a definition whose states or events are given the same member name. -/
def checkNames (m : Definition) : Except CodegenError Unit := do
  checkMembers .state (m.states.map (·.id))
  checkMembers .event (moduleEvents m)

/-- The text of the module for a definition; the source is named in its header. -/
def render (m : Definition) (source : Option String) : Except Text.NumeralError String := do
  return joinLines (headerLines m.name source ++ (← moduleLines m))

/-- The module for a definition. -/
def generate (m : Definition) (source : Option String) : Except GenerationError String := do
  (checkNames m).mapError .refused
  (render m source).mapError .numeral

/-- The module for what was handed over as a definition. Templates are built in; a directory in
their place holds none. -/
def generateFor (subject : Subject) (target : Option Value) (source : Option String)
    (directory : Option String) : Except GenerationError String := do
  checkTarget target
  match subject, directory with
  | .foreign f, _ => .error (.refused (.notDefinition f.kind))
  | .definition m, none => generate m source
  | .definition m, some d =>
    (checkNames m).mapError .refused
    .error (.refused (.missingTemplate d))

end Statechart.Codegen
