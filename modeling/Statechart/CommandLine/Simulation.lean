import Statechart.Engine.Host
import Statechart.Text.Numeral

/-!
# Simulations

A simulation runs a machine on items, one after the other, and tells what happens. An item that
begins with `@` lets time pass, any other one is an event; after each the machine runs until no
event waits. Guards are fixed before, those that are not count as *false*, and nothing is done
on actions. A simulation that fails has told what happened before.
-/

namespace Statechart.CommandLine

open Text (quoteListing)

/-- Why a simulation fails. -/
inductive SimulationError
  /-- The engine refuses or breaks off. -/
  | fault (fault : Fault Empty)
  /-- A time is no integer, or the clock has become too large to be shown. -/
  | numeral (error : Text.NumeralError)
  deriving DecidableEq, Repr

/-- The error in words. -/
def SimulationError.message : SimulationError → String
  | fault f => f.message Empty.elim
  | numeral e => e.message

/-- A simulation under way: the engine, and the lines told. -/
structure Session where
  world : World Unit Empty
  told : List String

/-- A part of a simulation. -/
abbrev Play (α : Type) := EStateM SimulationError Session α

namespace Play

/-- Tells a line. -/
def tell (line : String) : Play Unit := modify fun s => { s with told := s.told ++ [line] }

/-- Operates the engine. -/
def operate {α : Type} (run : Run Unit Empty Empty α) : Play α := fun s =>
  match run s.world with
  | .ok a w => .ok a { s with world := w }
  | .error f w => .error (.fault f) { s with world := w }

end Play

/-- The environment of fixed guards. -/
def fixedGuards (guards : List (String × Bool)) : Environment Unit Empty Empty :=
  let registry : GuardRegistry Unit Empty Empty :=
    guards.foldl (fun r g => r.set g.1 (.bool g.2)) (.empty (some false))
  (Host.ofGuard registry.guard).environment 0

/-- The name of a state, or `None` where there is none. -/
def stateName (state : Option String) : String := state.getD "None"

/-- The line about a step. -/
def entryLine (e : TraceEntry) : String :=
  let front := "#" ++ toString e.sequence ++ " " ++ stateName e.source
  match e.outcome with
  | .transition =>
    front ++ " --" ++ e.event ++ "--> " ++ stateName e.target ++ " " ++ quoteListing e.actions
  | .unmatched => front ++ ": unmatched '" ++ e.event ++ "'"

/-- Runs the machine until no event waits. As nothing is done on actions, no event is added on
the way. -/
def runWaiting (env : Environment Unit Empty Empty) : Play Unit := do
  let waiting := (← get).world.engine.queue.length
  let entries ← Play.operate (Engine.runUntilIdle env waiting)
  entries.forM fun e => Play.tell (entryLine e)

/-- Lets the time pass that a text writes. -/
def passTime (text : String) : Play Unit := do
  match Text.readInt text with
  | .error e => throw (.numeral e)
  | .ok elapsed =>
    let events ← Play.operate (Engine.tick (some elapsed))
    match Text.showInt (← get).world.engine.clock with
    | .error e => throw (.numeral e)
    | .ok clock =>
      Play.tell ("tick " ++ text ++ " (clock " ++ clock ++ ") -> " ++
        quoteListing (events.map (·.name)))

/-- Takes up one item. -/
def playItem (env : Environment Unit Empty Empty) (item : String) : Play Unit := do
  match item.toList with
  | '@' :: time => passTime (String.ofList time)
  | _ => Play.operate (Engine.postEvent item none)
  runWaiting env

/-- Loads a machine and takes up the items in turn. -/
def play (env : Environment Unit Empty Empty) (m : Definition) (items : List String) :
    Play Unit := do
  let actions ← Play.operate (Engine.enterMachine env m)
  Play.tell ("load -> " ++ stateName (← get).world.engine.current ++ " " ++ quoteListing actions)
  items.forM (playItem env)
  Play.tell ("final state: " ++ stateName (← get).world.engine.current)

/-- A simulation in an engine: the lines told, and the error if it failed. -/
def simulation (e : Engine Empty) (m : Definition) (guards : List (String × Bool))
    (items : List String) : List String × Option SimulationError :=
  match play (fixedGuards guards) m items ⟨⟨e, ()⟩, []⟩ with
  | .ok _ s => (s.told, none)
  | .error e s => (s.told, some e)

end Statechart.CommandLine
