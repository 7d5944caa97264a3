import Statechart.Text.Quote

/-!
# Wrong arguments

What a command line can have wrong, and the words for it.
-/

namespace Statechart.CommandLine

open Text (quote)

/-- What is wrong with the arguments. -/
inductive UsageProblem
  /-- Arguments are missing. -/
  | missing (names : List String)
  /-- Arguments are left over. -/
  | unrecognized (arguments : List String)
  /-- A value is none of those to choose from. -/
  | invalidChoice (argument value : String) (choices : List String)
  /-- An option has no value. -/
  | noValue (option : String)
  /-- An option that takes no value has one. -/
  | unusedValue (option value : String)
  /-- A shortened option stands for more than one. -/
  | ambiguous (argument : String) (options : List String)
  /-- A guard option fixes no guard. -/
  | badGuard (option value : String)
  /-- The value of an option is no integer. -/
  | badInteger (option value : String)
  deriving DecidableEq, Repr

/-- The problem in words. -/
def UsageProblem.message : UsageProblem → String
  | missing names => "the following arguments are required: " ++ ", ".intercalate names
  | unrecognized arguments => "unrecognized arguments: " ++ " ".intercalate arguments
  | invalidChoice argument value choices =>
    "argument " ++ argument ++ ": invalid choice: " ++ quote value ++ " (choose from " ++
      ", ".intercalate (choices.map quote) ++ ")"
  | noValue option => "argument " ++ option ++ ": expected one argument"
  | unusedValue option value =>
    "argument " ++ option ++ ": ignored explicit argument " ++ quote value
  | ambiguous argument options =>
    "ambiguous option: " ++ argument ++ " could match " ++ ", ".intercalate options
  | badGuard option value =>
    "argument " ++ option ++ ": expected GUARD=true|false, got '" ++ value ++ "'"
  | badInteger option value => "argument " ++ option ++ ": invalid int value: " ++ quote value

/-- Why arguments are not carried out. -/
inductive Refusal
  /-- They are wrong, as the command of the given name says. -/
  | usage (program : String) (problem : UsageProblem)
  /-- They ask for help. -/
  | help
  deriving DecidableEq, Repr

/-- How the program is used. -/
def usage : String :=
  "usage: fsmdsl validate FILE\n" ++
  "       fsmdsl generate [-t TARGET] [-o OUTPUT] FILE\n" ++
  "       fsmdsl export [-f graph|scxml] FILE\n" ++
  "       fsmdsl simulate [-g GUARD=true|false] [--trace-limit N] FILE [EVENT|@N ...]\n"

end Statechart.CommandLine
