import Statechart.CommandLine.Arguments
import Statechart.Text.Numeral

/-!
# Invocations

What a command line asks for. The first word names the command, and all that follows is the
command's. Options that stand before it and are not known, and what the command leaves over, are
refused together in the end.
-/

namespace Statechart.CommandLine

/-- The forms in which a machine is exported. -/
inductive ExportFormat
  | graph
  | scxml
  deriving DecidableEq, Repr

/-- What a command line asks for. -/
inductive Invocation
  /-- Check a machine. -/
  | validate (file : String)
  /-- Write the module of a machine for a target, to a file or else to the output. -/
  | generate (file : String) (target output : Option (Setting String))
  /-- Write a machine in another form. -/
  | exportAs (file : String) (format : ExportFormat)
  /-- Run a machine on events and passing time, with fixed guards. -/
  | simulate (file : String) (items : List String) (guards : List (Setting (String × Bool)))
      (traceLimit : Option (Setting Int))
  deriving DecidableEq, Repr

/-- The file that an invocation is about. -/
def Invocation.file : Invocation → String
  | validate file => file
  | generate file _ _ => file
  | exportAs file _ => file
  | simulate file _ _ _ => file

/-! ## Options -/

/-- The name of the program. -/
def programName : String := "fsmdsl"

/-- The name of a command in messages. -/
def commandName (word : String) : String := programName ++ " " ++ word

/-- An option with a value: what it does, given its names and what it is set to. -/
def valueOption {α : Type} (short long : String)
    (apply : String → Setting String → α → Except UsageProblem α) : OptionSpec α :=
  let names := [short, long]
  ⟨names, some (apply ("/".intercalate names))⟩

/-- The command that checks a machine. -/
def validateCommand : Command Unit where
  program := commandName "validate"
  options := [.help]
  settings := ()
  takesWords := false

/-- Where a module goes, and for which target it is. -/
structure ModuleSettings where
  target : Option (Setting String)
  output : Option (Setting String)
  deriving DecidableEq, Repr

/-- The command that writes modules. -/
def generateCommand : Command ModuleSettings where
  program := commandName "generate"
  options := [.help,
    valueOption "-t" "--target" fun _ v s => .ok { s with target := some v },
    valueOption "-o" "--output" fun _ v s => .ok { s with output := some v }]
  settings := ⟨none, none⟩
  takesWords := false

/-- The form that a word names. -/
def ExportFormat.ofWord? : String → Option ExportFormat
  | "graph" => some graph
  | "scxml" => some scxml
  | _ => none

/-- The form that a setting of an option asks for; it is the graph if the option is blank. -/
def formatOfSetting (title : String) : Setting String → Except UsageProblem ExportFormat
  | .blank => .ok .graph
  | .value v =>
    match ExportFormat.ofWord? v with
    | some f => .ok f
    | none => .error (.invalidChoice title v ["graph", "scxml"])

/-- The command that exports machines. -/
def exportCommand : Command ExportFormat where
  program := commandName "export"
  options := [.help, valueOption "-f" "--format" fun title v _ => formatOfSetting title v]
  settings := .graph
  takesWords := false

/-- Guards with their answers, and the trace limit if one is given. -/
structure SimulationSettings where
  guards : List (Setting (String × Bool))
  traceLimit : Option (Setting Int)
  deriving DecidableEq, Repr

/-- A truth value, in letters of either case. -/
def truthOfWord? (word : List Char) : Option Bool :=
  let lower := String.ofList (word.map Char.toLower)
  if lower = "true" then some true else if lower = "false" then some false else none

/-- The guard that a text fixes: what stands before its last equals sign, and the answer after
it. -/
def fixedGuard? (s : String) : Option (String × Bool) :=
  let after := (s.toList.reverse.takeWhile (· != '=')).reverse
  let front := s.toList.take (s.toList.length - after.length)
  match front.getLast?, truthOfWord? after with
  | some _, some b => some (String.ofList front.dropLast, b)
  | _, _ => none

/-- The guard that the value of an option fixes. -/
def readGuard (title v : String) : Except UsageProblem (String × Bool) :=
  match fixedGuard? v with
  | some g => .ok g
  | none => .error (.badGuard title v)

/-- The integer that is the value of an option. -/
def readInteger (title v : String) : Except UsageProblem Int :=
  (Text.readInt v).mapError fun _ => .badInteger title v

/-- The command that runs machines. -/
def simulateCommand : Command SimulationSettings where
  program := commandName "simulate"
  options := [.help,
    valueOption "-g" "--guard" fun title v s => do
      let g ← v.read (readGuard title)
      return { s with guards := s.guards ++ [g] },
    ⟨["--trace-limit"], some fun v s => do
      let n ← v.read (readInteger "--trace-limit")
      return { s with traceLimit := some n }⟩]
  settings := ⟨[], none⟩
  takesWords := true

/-- The program before its command. -/
def program : Command Unit where
  program := programName
  options := [.help]
  settings := ()
  takesWords := false

/-! ## Reading -/

/-- The words that name commands. -/
def commandWords : List String := ["validate", "generate", "export", "simulate"]

/-- The invocation of the command of a name, and what it leaves over. -/
def readCommand (word : String) (arguments : List String) :
    Except Refusal (Invocation × List String) :=
  match word with
  | "validate" => do
    let (file, g) ← validateCommand.read arguments
    return (.validate file, g.extras)
  | "generate" => do
    let (file, g) ← generateCommand.read arguments
    return (.generate file g.settings.target g.settings.output, g.extras)
  | "export" => do
    let (file, g) ← exportCommand.read arguments
    return (.exportAs file g.settings, g.extras)
  | "simulate" => do
    let (file, g) ← simulateCommand.read arguments
    return (.simulate file g.words g.settings.guards g.settings.traceLimit, g.extras)
  | word => .error (.usage programName (.invalidChoice "command" word commandWords))

/-- Reads arguments, the given ones being left over from before: the invocation, and all that is
left over. A mark does not stand before the command. -/
def readArguments (extras : List String) :
    List String → Except Refusal (Invocation × List String)
  | [] | ["--"] => .error (.usage programName (.missing ["command"]))
  | "--" :: _ => readCommand "--" []
  | s :: ss =>
    match classify program.options s with
    | .error p => .error (.usage programName p)
    | .ok (.unknown s) => readArguments (extras ++ [s]) ss
    | .ok (.option use) => .error (program.helpRefusal use [])
    | .ok _ => do
      let (invocation, more) ← readCommand s ss
      return (invocation, extras ++ more)

/-- What the arguments ask for. -/
def Invocation.read (arguments : List String) : Except Refusal Invocation :=
  match readArguments [] arguments with
  | .error r => .error r
  | .ok (invocation, []) => .ok invocation
  | .ok (_, extras) => .error (.usage programName (.unrecognized extras))

end Statechart.CommandLine
