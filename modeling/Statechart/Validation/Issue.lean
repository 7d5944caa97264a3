import Statechart.Model.Declaration
import Statechart.Text.Numeral

/-!
# Issues

What can be wrong with a declaration (`Flaw`) and what is merely doubtful (`Caution`). Each
cause has a code, the identifier it is about and a message; an `Issue` is a cause ready to be
shown, with the place it was found at. A flaw has no message if it tells of a duration that has too
many digits to be written.
-/

namespace Statechart.Validation

/-- The kinds of parts that need identifiers of their own. -/
inductive PartKind
  | state
  | choice
  | timer
  deriving DecidableEq, Repr

/-- The word for the kind. -/
def PartKind.word : PartKind → String
  | state => "state"
  | choice => "choice"
  | timer => "timer"

/-- A part of a declaration that lists actions. -/
inductive ActionOwner
  | state (id : String)
  | transition (source target : String)
  | choice (id : String)
  deriving DecidableEq, Repr

/-- The part in words. -/
def ActionOwner.text : ActionOwner → String
  | state id => "state '" ++ id ++ "'"
  | transition a b => "transition '" ++ a ++ " --> " ++ b ++ "'"
  | choice id => "choice '" ++ id ++ "'"

/-- What keeps a declaration from being a definition. -/
inductive Flaw
  /-- An identifier is declared again in its kind. -/
  | duplicate (kind : PartKind) (id : String)
  /-- An identifier names a state and a choice. -/
  | nameCollision (id : String)
  /-- There is no initial marker. -/
  | missingInitial (machine : String)
  /-- There is more than one initial marker. -/
  | multipleInitial (target : String)
  /-- The initial marker points at a choice. -/
  | initialChoice (target : String)
  /-- The initial marker points at nothing that is declared. -/
  | unknownInitial (target : String)
  /-- A transition leaves a node that is not declared. -/
  | unknownSource (source target : String)
  /-- A transition enters a node that is not declared. -/
  | unknownTarget (source target : String)
  /-- A transition has a guard without text. -/
  | emptyGuard (source target : String)
  /-- A choice has no default branch. -/
  | missingElse (choice : String)
  /-- A choice has one more default branch. -/
  | multipleElse (choice : String)
  /-- A choice has no branch with a condition. -/
  | noBranches (choice : String)
  /-- A branch enters a node that is not declared. -/
  | unknownBranchTarget (choice target : String)
  /-- A branch has a condition without text. -/
  | emptyCondition (choice : String)
  /-- Branches lead around a circle of choices. -/
  | choiceCycle (nodes : List String)
  /-- Branches and completion transitions lead around a circle. -/
  | completionCycle (nodes : List String)
  /-- A timer lasts no time. -/
  | timerDuration (timer : String) (duration : Int)
  /-- An action starts or stops a timer that is not declared. -/
  | unknownTimer (owner : ActionOwner) (action timer : String)
  deriving DecidableEq, Repr

/-- What is doubtful about a declaration. -/
inductive Caution
  /-- No transition waits for the event of a timer. -/
  | timerEventUnused (timer event : String)
  /-- An earlier transition is always taken in place of this one. -/
  | shadowedTransition (source target : String) (event : Option String)
  /-- No arrow leads to a state. -/
  | unreachableState (state : String)
  deriving DecidableEq, Repr

namespace Flaw

/-- The code of the flaw. -/
def code : Flaw → String
  | duplicate kind _ => "duplicate-" ++ kind.word
  | nameCollision _ => "name-collision"
  | missingInitial _ => "missing-initial"
  | multipleInitial _ => "multiple-initial"
  | initialChoice _ | unknownInitial _ => "unknown-initial"
  | unknownSource .. => "unknown-source"
  | unknownTarget .. | unknownBranchTarget .. => "unknown-target"
  | emptyGuard .. | emptyCondition _ => "empty-guard"
  | missingElse _ => "choice-missing-else"
  | multipleElse _ => "choice-multiple-else"
  | noBranches _ => "choice-no-branches"
  | choiceCycle _ => "choice-cycle"
  | completionCycle _ => "completion-cycle"
  | timerDuration .. => "timer-duration"
  | unknownTimer .. => "unknown-timer"

/-- The identifier the flaw is about. -/
def identifier : Flaw → String
  | duplicate _ id | nameCollision id | missingInitial id | multipleInitial id
  | initialChoice id | unknownInitial id | unknownSource id _ | emptyGuard id _
  | missingElse id | multipleElse id | noBranches id | emptyCondition id
  | timerDuration id _ => id
  | unknownTarget _ id | unknownBranchTarget _ id | unknownTimer _ _ id => id
  | choiceCycle nodes | completionCycle nodes => nodes.headD ""

/-- The flaw in words. -/
def message : Flaw → Except Text.NumeralError String
  | duplicate kind id => .ok (kind.word ++ " '" ++ id ++ "' is declared more than once")
  | nameCollision id => .ok ("'" ++ id ++ "' is declared both as a state and as a choice")
  | missingInitial m => .ok ("machine '" ++ m ++ "' has no initial state ([*] --> X)")
  | multipleInitial t =>
    .ok ("second initial marker '[*] --> " ++ t ++ "'; only one is allowed")
  | initialChoice t => .ok ("initial target '" ++ t ++ "' is a choice, not a state")
  | unknownInitial t => .ok ("initial target '" ++ t ++ "' is not a declared state")
  | unknownSource a b =>
    .ok ("transition '" ++ a ++ " --> " ++ b ++ "': source '" ++ a ++
      "' is not a declared state or choice")
  | unknownTarget a b =>
    .ok ("transition '" ++ a ++ " --> " ++ b ++ "': target '" ++ b ++
      "' is not a declared state or choice")
  | emptyGuard a b => .ok ("transition '" ++ a ++ " --> " ++ b ++ "' has an empty guard")
  | missingElse c => .ok ("choice '" ++ c ++ "' has no [else] branch")
  | multipleElse c => .ok ("choice '" ++ c ++ "' has more than one [else] branch")
  | noBranches c => .ok ("choice '" ++ c ++ "' has no conditioned branch")
  | unknownBranchTarget c t =>
    .ok ("choice '" ++ c ++ "': branch target '" ++ t ++ "' is not a declared state or choice")
  | emptyCondition c => .ok ("choice '" ++ c ++ "' has a branch with an empty condition")
  | choiceCycle nodes => .ok ("choice cycle " ++ " -> ".intercalate nodes)
  | completionCycle nodes =>
    .ok ("cycle through completion transitions/choices " ++ " -> ".intercalate nodes)
  | timerDuration t n => do
    return "timer '" ++ t ++ "' needs a positive duration, got " ++ (← Text.showInt n)
  | unknownTimer owner action t =>
    .ok (owner.text ++ ": '" ++ action ++ "' refers to undeclared timer '" ++ t ++ "'")

end Flaw

namespace Caution

/-- The code of the caution. -/
def code : Caution → String
  | timerEventUnused .. => "timer-event-unused"
  | shadowedTransition .. => "shadowed-transition"
  | unreachableState _ => "unreachable-state"

/-- The identifier the caution is about. -/
def identifier : Caution → String
  | timerEventUnused t _ => t
  | shadowedTransition a _ _ => a
  | unreachableState s => s

/-- The caution in words. -/
def message : Caution → String
  | timerEventUnused t e =>
    "timer '" ++ t ++ "' raises '" ++ e ++ "' but no transition handles it"
  | shadowedTransition a b e =>
    "transition '" ++ a ++ " --> " ++ b ++ "' on " ++ e.getD "(completion)" ++
      " can never fire; an earlier transition always takes precedence"
  | unreachableState s => "state '" ++ s ++ "' has no incoming transition"

end Caution

/-- A cause with the place it was found at. -/
structure Located (α : Type) where
  cause : α
  span : Option Span
  deriving DecidableEq, Repr

/-- Whether an issue stands in the way of a definition. -/
inductive Severity
  | error
  | warning
  deriving DecidableEq, Repr

/-- The word for the severity. -/
def Severity.word : Severity → String
  | error => "error"
  | warning => "warning"

/-- A cause ready to be shown. -/
structure Issue where
  severity : Severity
  code : String
  message : String
  identifier : String
  span : Option Span
  deriving DecidableEq, Repr

namespace Issue

/-- Severity, code and message. -/
def summary (i : Issue) : String := i.severity.word ++ "[" ++ i.code ++ "]: " ++ i.message

/-- The whole issue in words, after its place. -/
def text (i : Issue) : String :=
  match i.span with
  | some s => s.text ++ ": " ++ i.summary
  | none => i.summary

end Issue

/-- The issue of a flaw. -/
def Located.error (f : Located Flaw) : Except Text.NumeralError Issue := do
  return ⟨.error, f.cause.code, ← f.cause.message, f.cause.identifier, f.span⟩

/-- The issue of a caution. -/
def Located.warning (c : Located Caution) : Issue :=
  ⟨.warning, c.cause.code, c.cause.message, c.cause.identifier, c.span⟩

end Statechart.Validation
