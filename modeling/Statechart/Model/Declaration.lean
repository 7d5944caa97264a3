import Statechart.Text.CodePoint
import Statechart.Text.Place

/-!
# Declarations

A declaration is a machine as it was written: its initial markers, states, choices, transitions
and timers in the order of the text, with duplicates and dangling references kept. Guards and
actions are host code, which this library carries but does not interpret. A description may hold
surrogates, which can be written in it by their numbers.

Spans say where a part was written. Two declarations say the same when they are equal but for
their spans (`Declaration.Same`).
-/

namespace Statechart

/-- A state with the actions run on entering and leaving it. -/
structure State where
  id : String
  description : Option Text.CodePoints
  entry : List String
  exit : List String
  span : Option Span
  deriving DecidableEq, Repr

/-- A transition. Without an event it is a completion transition, which is tried as soon as its
source has been entered. -/
structure Transition where
  source : String
  target : String
  event : Option String
  guard : Option String
  actions : List String
  span : Option Span
  deriving DecidableEq, Repr

/-- A timer, which posts its event when its duration has passed. -/
structure Timer where
  id : String
  duration : Int
  event : String
  periodic : Bool
  span : Option Span
  deriving DecidableEq, Repr

/-- A branch of a choice; the one without a condition is the default. -/
structure Branch where
  condition : Option String
  target : String
  actions : List String
  span : Option Span
  deriving DecidableEq, Repr

/-- A choice: a node that is left at once, by its first branch whose condition holds. -/
structure Choice where
  id : String
  branches : List Branch
  span : Option Span
  deriving DecidableEq, Repr

/-- The arrow to the state a machine starts in. -/
structure InitialMarker where
  target : String
  span : Option Span
  deriving DecidableEq, Repr

/-- A machine as it was written. -/
structure Declaration where
  name : String
  initial : List InitialMarker
  states : List State
  choices : List Choice
  transitions : List Transition
  timers : List Timer
  span : Option Span
  deriving DecidableEq, Repr

/-! ## Parts of a machine -/

namespace Transition

/-- Whether the transition needs no event. -/
def isCompletion (t : Transition) : Bool := t.event.isNone

/-- The parts of a label: trigger, guard in brackets, and actions. -/
def labelParts (t : Transition) : List String :=
  (match t.event with | some e => if e.isEmpty then [] else [e] | none => []) ++
  (match t.guard with | some g => ["[" ++ g ++ "]"] | none => []) ++
  (if t.actions.isEmpty then [] else ["/ " ++ "; ".intercalate t.actions])

/-- The transition as a diagram shows it: `event [guard] / a(); b()`. -/
def label (t : Transition) : String := " ".intercalate t.labelParts

end Transition

/-- Whether the branch is taken when no condition holds. -/
def Branch.isDefault (b : Branch) : Bool := b.condition.isNone

namespace Choice

/-- The branches with a condition, in the order in which they are tried. -/
def conditioned (c : Choice) : List Branch := c.branches.filter (!·.isDefault)

/-- The first branch without a condition. -/
def default? (c : Choice) : Option Branch := c.branches.find? (·.isDefault)

end Choice

/-! ## Equality but for spans -/

/-- The state without its span. -/
def State.bare (s : State) : State := { s with span := none }

/-- The transition without its span. -/
def Transition.bare (t : Transition) : Transition := { t with span := none }

/-- The timer without its span. -/
def Timer.bare (t : Timer) : Timer := { t with span := none }

/-- The branch without its span. -/
def Branch.bare (b : Branch) : Branch := { b with span := none }

/-- The choice without its spans. -/
def Choice.bare (c : Choice) : Choice :=
  { c with branches := c.branches.map Branch.bare, span := none }

/-- The marker without its span. -/
def InitialMarker.bare (m : InitialMarker) : InitialMarker := { m with span := none }

namespace Declaration

/-- The declaration without its spans. -/
def bare (d : Declaration) : Declaration :=
  { name := d.name
    initial := d.initial.map InitialMarker.bare
    states := d.states.map State.bare
    choices := d.choices.map Choice.bare
    transitions := d.transitions.map Transition.bare
    timers := d.timers.map Timer.bare
    span := none }

/-- Two declarations say the same. -/
def Same (d d' : Declaration) : Prop := d.bare = d'.bare

instance (d d' : Declaration) : Decidable (d.Same d') :=
  inferInstanceAs (Decidable (d.bare = d'.bare))

end Declaration

end Statechart
