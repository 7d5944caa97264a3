import Statechart.Model.Definition
import Statechart.Text.Numeral
import Statechart.Text.Quote

/-!
# Engines

An engine runs one definition. Its state is the machine, the current state of the machine, the
events that wait, the timers that are armed, a logical clock, and a trace of the latest steps,
of which it keeps at most `traceLimit`. A machine has no current state between leaving one state
and entering the next.

The changes that make up an operation are functions on engines: `post`, `arm`, `disarm`,
`disarmOwned`, `claim`, `record`, `rollBack`, `reset`.
-/

namespace Statechart

/-- What an engine is doing. -/
inductive Status
  /-- No machine is loaded. -/
  | idle
  /-- The machine waits for its next step. -/
  | ready
  /-- A step is under way. -/
  | running
  deriving DecidableEq, Repr

/-- The word for the status. -/
def Status.word : Status → String
  | idle => "idle"
  | ready => "ready"
  | running => "running"

/-- An event that waits, with the timer that posted it if one did. -/
structure PendingEvent (π : Type) where
  name : String
  payload : Option π
  timer : Option String
  deriving DecidableEq, Repr

/-- Whether a step found a transition for its event. -/
inductive StepOutcome
  | transition
  | unmatched
  deriving DecidableEq, Repr

/-- The word for the outcome. -/
def StepOutcome.word : StepOutcome → String
  | transition => "transition"
  | unmatched => "unmatched"

/-- What one step did: where it began and ended, the nodes on its way, the actions it ran. -/
structure TraceEntry where
  sequence : Nat
  source : Option String
  target : Option String
  event : String
  actions : List String
  outcome : StepOutcome
  path : List (Option String)
  deriving DecidableEq, Repr

/-- A timer that runs: when it is due, its number in the order of arming, and the state whose
leaving disarms it. A timer that is armed between two states has no owner yet. -/
structure ArmedTimer where
  timer : Timer
  due : Int
  sequence : Nat
  owner : Option String
  deriving DecidableEq, Repr

/-- The identifier of the timer. -/
def ArmedTimer.id (a : ArmedTimer) : String := a.timer.id

/-- An engine. Timers stand in the order in which they were first armed. -/
structure Engine (π : Type) where
  machine : Option Definition
  status : Status
  current : Option String
  queue : List (PendingEvent π)
  timers : List ArmedTimer
  timerSequence : Nat
  clock : Int
  trace : List TraceEntry
  traceLimit : Nat
  sequence : Nat
  dropped : Nat
  traceLimit_pos : 0 < traceLimit

/-- Why an engine refuses or breaks off an operation. -/
inductive Fault (ε : Type)
  /-- The operation needs a machine, and none is loaded. -/
  | notLoaded (operation : String)
  /-- What is to be loaded is no definition. -/
  | notDefinition (kind : String)
  /-- A step comes back to a node it has passed. -/
  | cycle (nodes : List String)
  /-- A step enters or leaves a state that is not declared. -/
  | unknownState (id : String)
  /-- No branch of a choice can be taken. -/
  | missingDefault (choice : String)
  /-- The clock cannot go back. -/
  | negativeElapsed (elapsed : Int)
  /-- Operations within operations are nested too deep. -/
  | tooDeep
  /-- The host failed while it carried out an action. -/
  | host (error : ε)
  deriving DecidableEq, Repr

namespace Engine

variable {π : Type}

/-! ## New engines -/

/-- The trace limit of an engine for which none is given. -/
def defaultTraceLimit : Int := 1000

/-- The largest trace limit. -/
def maxTraceLimit : Int := 9223372036854775807

/-- Why an engine cannot keep the number of trace entries that was asked for. -/
inductive TraceLimitError
  /-- The limit is not positive. -/
  | notPositive (limit : Int)
  /-- The limit is more than can be kept. -/
  | tooLarge
  deriving DecidableEq, Repr

/-- The integer after the text about it; of one that cannot be written, it is told why. -/
def withInt (text : String) (n : Int) : String :=
  match Text.showInt n with
  | .ok s => text ++ s
  | .error e => e.message

/-- The error in words. -/
def TraceLimitError.message : TraceLimitError → String
  | notPositive limit => withInt "trace_limit must be positive, got " limit
  | tooLarge => "Python int too large to convert to C ssize_t"

/-- An engine without a machine. -/
def fresh (limit : Nat) (h : 0 < limit) : Engine π where
  machine := none
  status := .idle
  current := none
  queue := []
  timers := []
  timerSequence := 0
  clock := 0
  trace := []
  traceLimit := limit
  sequence := 0
  dropped := 0
  traceLimit_pos := h

/-- An engine without a machine that keeps the given number of trace entries. -/
def create (limit : Int) : Except TraceLimitError (Engine π) :=
  if h : 0 < limit then
    if limit ≤ maxTraceLimit then .ok (fresh limit.toNat (by omega)) else .error .tooLarge
  else .error (.notPositive limit)

/-- The engine at the beginning of loading a machine: only the trace limit is kept. -/
def reset (e : Engine π) (m : Definition) : Engine π :=
  { fresh e.traceLimit e.traceLimit_pos with machine := some m, status := .running }

/-! ## Events and timers -/

/-- Adds an event to those that wait. -/
def post (e : Engine π) (ev : PendingEvent π) : Engine π := { e with queue := e.queue ++ [ev] }

/-- Arms a timer, or arms it anew. -/
def arm (e : Engine π) (t : Timer) : Engine π :=
  let armed : ArmedTimer := ⟨t, e.clock + t.duration, e.timerSequence + 1, e.current⟩
  { e with timerSequence := e.timerSequence + 1
           timers := putByKey ArmedTimer.id armed e.timers }

/-- Disarms a timer. -/
def disarm (e : Engine π) (id : String) : Engine π :=
  { e with timers := e.timers.filter (·.id != id) }

/-- Disarms the timers of a state. -/
def disarmOwned (e : Engine π) (state : String) : Engine π :=
  { e with timers := e.timers.filter (·.owner != some state) }

/-- Gives the timers that were armed between two states to the current one. -/
def claim (e : Engine π) : Engine π :=
  { e with timers := e.timers.map fun a =>
      if a.owner = none then { a with owner := e.current } else a }

/-- The armed timers, the first due first and of equally due ones the first armed first. -/
def armedTimers (e : Engine π) : List ArmedTimer :=
  e.timers.mergeSort fun a b => a.due < b.due || (a.due == b.due && a.sequence ≤ b.sequence)

/-! ## The end of a step -/

/-- Adds an entry to the trace; the oldest one makes room if the trace is full. -/
def record (e : Engine π) (entry : TraceEntry) : Engine π :=
  if e.trace.length < e.traceLimit then { e with trace := e.trace ++ [entry] }
  else { e with trace := e.trace.drop 1 ++ [entry], dropped := e.dropped + 1 }

/-- The engine after a failed step, given how it was before: the machine is where it was, and
the event waits again, before those posted in the meantime. -/
def rollBack (e before : Engine π) (ev : PendingEvent π) : Engine π :=
  { e with
    status := .ready
    current := before.current
    timers := before.timers
    timerSequence := before.timerSequence
    sequence := before.sequence
    queue := ev :: e.queue }

end Engine

namespace Fault

/-- The fault in words, given the words for the host's own errors. -/
def message {ε : Type} (describe : ε → String) : Fault ε → String
  | notLoaded operation => operation ++ "() called before load()"
  | notDefinition kind => "load() needs a validated FsmDefinition, got " ++ kind
  | cycle nodes => "Cycle while resolving one step: " ++ " -> ".intercalate nodes
  | unknownState id => Text.quote id
  | missingDefault _ => "'NoneType' object has no attribute 'actions'"
  | negativeElapsed n => Engine.withInt "elapsed must not be negative, got " n
  | tooDeep => "maximum recursion depth exceeded"
  | host e => describe e

end Fault

end Statechart
