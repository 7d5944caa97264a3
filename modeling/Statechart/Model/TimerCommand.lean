import Statechart.Grammar.Lexeme
import Statechart.Text.Blank

/-!
# Timer commands

Two action texts are more than host code: `start_timer(t)` and `stop_timer(t)` arm and disarm
the timer `t`. Blanks may stand around the name, the brackets and the argument.
-/

namespace Statechart

/-- What an action does to a timer. -/
inductive TimerCommand
  | start (timer : String)
  | stop (timer : String)
  deriving DecidableEq, Repr

namespace TimerCommand

/-- The timer the command is about. -/
def timer : TimerCommand → String
  | start t => t
  | stop t => t

/-- The word for the command. -/
def verb : TimerCommand → String
  | start _ => "start"
  | stop _ => "stop"

/-- The single identifier in round brackets that a text consists of, blanks aside. -/
def argument? (cs : List Char) : Option String := do
  let opened ← Grammar.cutText? ['('] (cs.dropWhile Text.isBlank)
  let name ← Grammar.cutName? (opened.2.dropWhile Text.isBlank)
  let closed ← Grammar.cutText? [')'] (name.2.dropWhile Text.isBlank)
  if closed.2.all Text.isBlank then some (String.ofList name.1) else none

/-- The command that an action text gives, if it gives one. -/
def ofAction? (action : String) : Option TimerCommand :=
  let cs := action.toList.dropWhile Text.isBlank
  match Grammar.cutText? "start_timer".toList cs with
  | some k => (argument? k.2).map start
  | none =>
    match Grammar.cutText? "stop_timer".toList cs with
    | some k => (argument? k.2).map stop
    | none => none

end TimerCommand

end Statechart
