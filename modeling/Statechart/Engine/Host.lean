import Statechart.Engine.Step

/-!
# Hosts

A host decides the guards of an engine and carries out its actions. What it does on an action is
a `Script`: it may change its own state, look at the engine, call the engine that is just
running, go on as the reply says, and fail.

A call within an action may lead to further actions. `Host.environment` follows calls within
calls up to a given depth; steps and loads beyond it fail. Two things a host cannot do here: load
another machine than the one that is running, and call the engine from a guard.
-/

namespace Statechart

/-- What a host may ask of the engine that runs it, on an action. No call loads another machine. -/
inductive Call (π : Type)
  /-- Queue an event. -/
  | post (name : String) (payload : Option π)
  /-- Let time pass. -/
  | tick (elapsed : Option Int)
  /-- Process an event. -/
  | step
  /-- Load the machine again that is loaded. -/
  | reload
  deriving DecidableEq, Repr

/-- What comes back from a call. -/
inductive Reply (π : Type)
  | posted
  | ticked (events : List (PendingEvent π))
  | stepped (entry : Option TraceEntry)
  | reloaded (actions : List String)
  deriving DecidableEq, Repr

/-- What a host does on an action. -/
inductive Script (σ π ε : Type)
  /-- The action is done, and the host is left in this state. -/
  | done (host : σ)
  /-- The action fails, and the host is left in this state. -/
  | fail (fault : Fault ε) (host : σ)
  /-- Look at the engine and go on. -/
  | look (next : Engine π → Script σ π ε)
  /-- Call the engine, the host being in this state, and go on with the state and the reply. -/
  | call (host : σ) (call : Call π) (next : σ → Except (Fault ε) (Reply π) → Script σ π ε)

/-- A host: how it decides guards and what it does on actions. -/
structure Host (σ π ε : Type) where
  guard : Guard σ π
  act : String → σ → Script σ π ε

namespace Call

variable {σ π ε : Type}

/-- Carries out a call; without an environment there are neither steps nor loads. -/
def run (env : Option (Environment σ π ε)) : Call π → Run σ π ε (Reply π)
  | post name payload => do
    Engine.postEvent name payload
    return .posted
  | tick elapsed => .ticked <$> Engine.tick elapsed
  | step =>
    match env with
    | some env => .stepped <$> Engine.step env
    | none => throw .tooDeep
  | reload =>
    match env with
    | some env => do
      let m ← Engine.loaded "load"
      .reloaded <$> Engine.enterMachine env m
    | none => throw .tooDeep

end Call

namespace Script

variable {σ π ε : Type}

/-- Carries out a script, given how its calls are carried out. -/
def run (call : Call π → Run σ π ε (Reply π)) : Script σ π ε → Run σ π ε Unit
  | done host => modify fun w => { w with host := host }
  | fail fault host => do
    modify fun w => { w with host := host }
    throw fault
  | look next => fun w => run call (next w.engine) w
  | .call host c next => fun w =>
    match call c { w with host := host } with
    | .ok reply w => run call (next w.host (.ok reply)) w
    | .error fault w => run call (next w.host (.error fault)) w

end Script

namespace Host

variable {σ π ε : Type}

/-- What a host does on an action, given how its calls are carried out. -/
def react (h : Host σ π ε) (call : Call π → Run σ π ε (Reply π)) (action : String) :
    Run σ π ε Unit := fun w =>
  Script.run call (h.act action w.host) w

/-- The environment that a host makes for an engine, with calls within calls up to a depth. -/
def environment (h : Host σ π ε) : Nat → Environment σ π ε
  | 0 => ⟨h.guard, h.react (Call.run none)⟩
  | depth + 1 => ⟨h.guard, h.react (Call.run (some (h.environment depth)))⟩

/-- A host that decides guards and does nothing on actions. -/
def ofGuard (guard : Guard σ π) : Host σ π ε := ⟨guard, fun _ s => .done s⟩

end Host

end Statechart
