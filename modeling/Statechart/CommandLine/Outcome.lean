import Statechart.Codegen.Module
import Statechart.CommandLine.FileTree
import Statechart.CommandLine.Invocation
import Statechart.CommandLine.Simulation
import Statechart.Export.GraphText
import Statechart.Export.Scxml
import Statechart.Model.Reading
import Statechart.Text.Utf8
import Statechart.Validation.Checks

/-!
# Outcomes

What comes of an invocation: the text for the output and for the error stream, the files to be
written, and the exit code, unless the program breaks down. Every command first reads and checks
the machine in its file. A file that is missing, text that is no machine description and errors
found in the machine are told on the error stream, and the exit code is 1. The names of characters,
which descriptions may use, come from outside.
-/

namespace Statechart.CommandLine

/-- Why the program breaks down. -/
inductive Breakdown
  /-- A file cannot be read or written. -/
  | file (error : FileError)
  /-- A file holds no text. -/
  | bytes (error : Text.Utf8Error)
  /-- A description or a duration cannot be read. -/
  | reading (error : ReadError)
  /-- A flaw of a machine cannot be put into words. -/
  | issue (error : Text.NumeralError)
  /-- A machine has no document. -/
  | document (error : Export.ScxmlError)
  /-- A module cannot be written. -/
  | module (error : Text.NumeralError)
  /-- A trace limit is not positive. -/
  | traceLimit (error : Engine.TraceLimitError)
  /-- The output of a module is left blank. -/
  | blankOutput
  /-- A guard is left blank. -/
  | blankGuard
  /-- The trace limit is left blank. -/
  | blankTraceLimit
  deriving DecidableEq, Repr

/-- The reason in words. -/
def Breakdown.message : Breakdown → String
  | file e => e.message
  | bytes e => e.message
  | reading e => e.message
  | issue e => e.message
  | document e => e.message
  | module e => e.message
  | traceLimit e => e.message
  | blankOutput => "expected str, bytes or os.PathLike object, not list"
  | blankGuard => "not enough values to unpack (expected 2, got 0)"
  | blankTraceLimit => "'<' not supported between instances of 'list' and 'int'"

/-- What comes of an invocation. -/
structure Outcome where
  out : String
  err : String
  written : List (Path × String)
  ending : Except Breakdown Nat

namespace Outcome

/-- The program ends well. -/
def success (out : String) : Outcome := ⟨out, "", [], .ok 0⟩

/-- The program ends with a complaint. -/
def failure (err : String) : Outcome := ⟨"", err, [], .ok 1⟩

/-- The program breaks down. -/
def breakdown (b : Breakdown) : Outcome := ⟨"", "", [], .error b⟩

/-- The outcome after a text on the error stream. -/
def after (o : Outcome) (err : String) : Outcome := { o with err := err ++ o.err }

end Outcome

/-! ## Reading and checking -/

/-- The line about an issue of a file. -/
def issueLine (file : String) (i : Validation.Issue) : String :=
  file ++ (if i.span.isSome then ":" else ": ") ++ i.text ++ "\n"

/-- The lines about text that is no machine description. -/
def syntaxLines (file : String) (e : Grammar.SyntaxError) : String :=
  file ++ ":" ++ toString e.place.line ++ ":" ++ toString e.place.column ++ ": error[syntax]: " ++
    e.detail ++ "\n" ++
    if e.expected.isEmpty then ""
    else "  expected one of: " ++ ", ".intercalate e.expected ++ "\n"

/-- Reads and checks the machine of a file: the text for the error stream, and the machine with
the number of its warnings if it has no errors. -/
def inspect (names : Text.CharacterNames) (files : FileTree) (file : String) :
    Except Breakdown (String × Option (Definition × Nat)) :=
  let path := Path.ofText file
  match files.find path with
  | .error .tooLong => .error (.file ⟨.tooLong, path⟩)
  | .error _ => .ok ("Error: FSM file not found: " ++ file ++ "\n", none)
  | .ok (.folder _) => .error (.file ⟨.isFolder, path⟩)
  | .ok (.file bytes) => do
    let text ← (Text.ofBytes bytes).mapError .bytes
    match Declaration.read names text with
    | .error (.grammar e) => .ok (syntaxLines file e, none)
    | .error e => .error (.reading e)
    | .ok d =>
      let r ← (Validation.validate d).mapError .issue
      .ok (String.join (r.issues.map (issueLine file)),
        r.definition.map fun m => (m, r.warnings.length))

/-! ## Commands -/

/-- The line about a machine without errors. -/
def validLine (file : String) (m : Definition) (warnings : Nat) : String :=
  "✓ " ++ file ++ ": " ++ m.name ++ " is valid (" ++ toString m.states.length ++ " states, " ++
    toString m.choices.length ++ " choices, " ++ toString m.transitions.length ++
    " transitions, " ++ toString warnings ++ " warning(s))\n"

/-- The target that an option asks for; it is an empty list if the option is blank. -/
def targetOfSetting : Setting String → Value
  | .value s => .text s
  | .blank => .list []

/-- Writes a module to a file. -/
def saveModule (files : FileTree) (path : Path) (code : String) : Outcome :=
  match files.write path code.toUTF8.toList with
  | .error e => .breakdown (.file e)
  | .ok _ =>
    { Outcome.success ("  ✓ Generated: " ++ path.text ++ "\n") with written := [(path, code)] }

/-- Writes the module of a machine. -/
def generateOutcome (files : FileTree) (m : Definition) (file : String)
    (target output : Option (Setting String)) : Outcome :=
  match Codegen.generateFor (.definition m) (target.map targetOfSetting)
      (some (Path.ofText file).name) none with
  | .error (.refused e) => .failure ("Error generating code: " ++ e.message ++ "\n")
  | .error (.numeral e) => .breakdown (.module e)
  | .ok code =>
    match output with
    | none => .success code
    | some .blank => .breakdown .blankOutput
    | some (.value s) => saveModule files (Path.ofText s) code

/-- Writes a machine in another form. -/
def exportOutcome (m : Definition) : ExportFormat → Outcome
  | .graph => .success ((Export.graph m).text ++ "\n")
  | .scxml =>
    match Export.scxml m with
    | .ok x => .success x
    | .error e => .breakdown (.document e)

/-- The guards that options fix. -/
def guardsOfSettings (guards : List (Setting (String × Bool))) :
    Except Breakdown (List (String × Bool)) :=
  match guards.mapM Setting.value? with
  | some gs => .ok gs
  | none => .error .blankGuard

/-- The engine whose trace limit an option sets. -/
def engineOfSetting (traceLimit : Option (Setting Int)) : Except Breakdown (Engine Empty) :=
  match traceLimit with
  | some .blank => .error .blankTraceLimit
  | some (.value limit) => (Engine.create limit).mapError .traceLimit
  | none => (Engine.create Engine.defaultTraceLimit).mapError .traceLimit

/-- Runs a machine in an engine. -/
def runOutcome (engine : Engine Empty) (m : Definition) (guards : List (String × Bool))
    (items : List String) : Outcome :=
  let (told, error) := simulation engine m guards items
  let out := String.join (told.map (· ++ "\n"))
  match error with
  | none => .success out
  | some e => { Outcome.failure ("Error during simulation: " ++ e.message ++ "\n") with out }

/-- Runs a machine as options ask for; the guards are looked at before the trace limit. -/
def simulateOutcome (m : Definition) (items : List String)
    (guards : List (Setting (String × Bool))) (traceLimit : Option (Setting Int)) : Outcome :=
  match guardsOfSettings guards with
  | .error b => .breakdown b
  | .ok guards =>
    match engineOfSetting traceLimit with
    | .error b => .breakdown b
    | .ok engine => runOutcome engine m guards items

namespace Invocation

/-- What comes of an invocation for a machine without errors. -/
def perform (files : FileTree) (m : Definition) (warnings : Nat) : Invocation → Outcome
  | validate file => .success (validLine file m warnings)
  | generate file target output => generateOutcome files m file target output
  | exportAs _ format => exportOutcome m format
  | simulate _ items guards traceLimit => simulateOutcome m items guards traceLimit

/-- What comes of an invocation. -/
def outcome (names : Text.CharacterNames) (files : FileTree) (i : Invocation) : Outcome :=
  match inspect names files i.file with
  | .error b => .breakdown b
  | .ok (err, none) => .failure err
  | .ok (err, some (m, warnings)) => (i.perform files m warnings).after err

/-- The paths that the outcome of an invocation may depend on. -/
def paths (i : Invocation) : List Path :=
  Path.ofText i.file ::
    match i with
    | generate _ _ (some (.value output)) => [Path.ofText output]
    | _ => []

end Invocation

/-- What comes of the arguments of the program. Wrong arguments are told on the error stream, and
the exit code is 2. -/
def outcome (names : Text.CharacterNames) (files : FileTree) (arguments : List String) : Outcome :=
  match Invocation.read arguments with
  | .ok i => i.outcome names files
  | .error .help => .success usage
  | .error (.usage program problem) =>
    ⟨"", program ++ ": error: " ++ problem.message ++ "\n", [], .ok 2⟩

end Statechart.CommandLine
