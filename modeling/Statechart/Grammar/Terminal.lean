/-!
# Terminals

The words of the machine language: seven keywords, ten marks, and six classes of words with a
pattern of their own. A reader's message calls a keyword or mark by its text and a class by a
short name.
-/

namespace Statechart.Grammar

/-- The kinds of words a machine description is made of. -/
inductive Terminal
  /-- The keyword `fsm`, which opens a machine. -/
  | fsm
  /-- The keyword `state`. -/
  | state
  /-- The keyword `timer`. -/
  | timer
  /-- The keyword `choice`. -/
  | choice
  /-- The keyword `entry`, before the actions of entering a state. -/
  | entry
  /-- The keyword `exit`, before the actions of leaving a state. -/
  | exit
  /-- The keyword `periodic`, after a timer that starts itself again. -/
  | periodic
  /-- The mark `[*]`, the source of the initial arrow. -/
  | initialMark
  /-- The mark `-->`, between the ends of a transition. -/
  | longArrow
  /-- The mark `->`, before the target of a branch and the event of a timer. -/
  | arrow
  /-- An opening brace. -/
  | openBrace
  /-- A closing brace. -/
  | closeBrace
  /-- A colon, before a trigger or a description. -/
  | colon
  /-- A slash, before actions. -/
  | slash
  /-- An equals sign, before a duration. -/
  | equals
  /-- A semicolon, between actions. -/
  | semicolon
  /-- A comma, between actions. -/
  | comma
  /-- An identifier. -/
  | name
  /-- A description between double quotes. -/
  | string
  /-- A duration in decimal digits. -/
  | int
  /-- A condition in square brackets. -/
  | guard
  /-- The mark of the default branch, `else` in square brackets. -/
  | elseMark
  /-- An action, written as a call. -/
  | action
  deriving DecidableEq, Repr

namespace Terminal

/-- The keywords, each with its spelling. -/
def keywords : List (Terminal × String) :=
  [(fsm, "fsm"), (state, "state"), (timer, "timer"), (choice, "choice"), (entry, "entry"),
    (exit, "exit"), (periodic, "periodic")]

/-- The marks, each with its spelling. -/
def marks : List (Terminal × String) :=
  [(initialMark, "[*]"), (longArrow, "-->"), (arrow, "->"), (openBrace, "\x7b"),
    (closeBrace, "\x7d"), (colon, ":"), (slash, "/"), (equals, "="), (semicolon, ";"),
    (comma, ",")]

/-- The spelling of a terminal that has only one. -/
def spelling? (t : Terminal) : Option String :=
  (keywords ++ marks).lookup t

/-- Whether the terminal is a keyword, and so also looks like an identifier. -/
def isKeyword (t : Terminal) : Bool :=
  (keywords.lookup t).isSome

/-- How a message names the terminal. -/
def description : Terminal → String
  | name => "identifier"
  | string => "quoted description"
  | int => "integer"
  | guard => "[guard]"
  | elseMark => "[else]"
  | action => "action()"
  | t => "'" ++ t.spelling?.getD "" ++ "'"

/-- All terminals. -/
def all : List Terminal :=
  (keywords ++ marks).map (·.1) ++ [name, string, int, guard, elseMark, action]

theorem mem_all (t : Terminal) : t ∈ all := by
  cases t <;> decide

end Terminal

end Statechart.Grammar
