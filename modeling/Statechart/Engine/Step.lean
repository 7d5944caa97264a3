import Statechart.Engine.Clock
import Statechart.Guard
import Statechart.Model.Subject
import Statechart.Model.TimerCommand

/-!
# Steps

A step takes one event to completion. Of the transitions that leave the current state on the
event, the first that has no guard or whose guard holds is taken: the exit actions of the state
are run, then those of the transition. A target that is a choice is left at once by its first
branch whose condition holds, or else by its default. The state arrived at is entered and its
entry actions are run; as long as one of its completion transitions is enabled, it is taken in
the same way. If no transition is enabled for the event, nothing changes.

An action is first shown to the environment, which may fail; then the engine arms or disarms the
timer that it names, if it is a timer command. If anything fails in a step, the step is undone
(`Engine.rollBack`).

A step that would come back to a node it has passed breaks off. So the walk through the machine
(`walk`) ends: every choice and state on its way is new, and the machine has only so many.
-/

namespace Statechart

/-- An engine together with the state of its host. -/
structure World (σ π : Type) where
  engine : Engine π
  host : σ

/-- An operation on a world: it gives a result or breaks off with a fault, and leaves the world
changed in either case. -/
abbrev Run (σ π ε α : Type) := EStateM (Fault ε) (World σ π) α

/-- What surrounds an engine: the guard it asks, and what is done on an action. -/
structure Environment (σ π ε : Type) where
  guard : Guard σ π
  react : String → Run σ π ε Unit

/-- A stage of the walk through a machine in one step. -/
inductive Phase
  /-- Leave the state by the transition. -/
  | take (state : String) (transition : Transition)
  /-- Go on to the node, which may be a choice. -/
  | resolve (target : String)
  /-- Enter the state. -/
  | enter (state : String)
  /-- Look for a completion transition. -/
  | settle
  deriving DecidableEq, Repr

/-- Stages that follow each other without passing a node. -/
def Phase.rank : Phase → Nat
  | enter _ => 0
  | resolve _ => 1
  | take .. => 2
  | settle => 3

/-- What a step has done: the state it set out from, if there is one, the nodes passed since,
and the actions run. -/
structure Progress where
  origin : List String
  visited : List String
  executed : List String
  deriving DecidableEq, Repr

namespace Progress

/-- Nothing done yet. -/
def start (origin : List String) : Progress := ⟨origin, [], []⟩

/-- The nodes on the way, with the one the step set out from. -/
def path (p : Progress) : List String := p.origin ++ p.visited

/-- One more node passed. -/
def visit (p : Progress) (node : String) : Progress := { p with visited := p.visited ++ [node] }

/-- More actions run. -/
def run (p : Progress) (actions : List String) : Progress :=
  { p with executed := p.executed ++ actions }

end Progress

/-- The number of states and choices that have not been passed. -/
def unvisited (m : Definition) (visited : List String) : Nat :=
  ((m.states.map State.id ++ m.choices.map Choice.id).filter fun id => !visited.contains id).length

theorem length_filter_notMem_lt {ids visited : List String} {id : String} (hid : id ∈ ids)
    (hv : id ∉ visited) :
    (ids.filter fun i => !(visited ++ [id]).contains i).length <
      (ids.filter fun i => !visited.contains i).length := by
  induction ids with
  | nil => simp at hid
  | cons i is ih =>
    have hle : (is.filter fun i => !(visited ++ [id]).contains i).length ≤
        (is.filter fun i => !visited.contains i).length := by
      rw [← List.countP_eq_length_filter, ← List.countP_eq_length_filter]
      apply List.countP_mono_left
      intro x _ hx
      simp only [List.contains_eq_mem, List.mem_append, Bool.not_eq_true',
        decide_eq_false_iff_not, not_or] at hx ⊢
      exact hx.1
    by_cases hi : i = id
    · subst hi
      simp only [List.filter_cons, List.contains_eq_mem, List.mem_append, List.mem_singleton,
        or_true, decide_true, Bool.not_true, Bool.false_eq_true, if_false, hv, decide_false,
        Bool.not_false, if_true, List.length_cons] at hle ⊢
      omega
    · have hlt := ih ((List.mem_cons.1 hid).resolve_left (Ne.symm hi))
      by_cases hvi : i ∈ visited
      · simpa [List.filter_cons, hvi] using hlt
      · simpa [List.filter_cons, hvi, hi] using hlt

theorem unvisited_visit_lt_of_choice {m : Definition} {id : String} {c : Choice}
    {p : Progress} (h : m.choice? id = some c) (hv : id ∉ p.visited) :
    unvisited m (p.visit id).visited < unvisited m p.visited := by
  refine length_filter_notMem_lt (List.mem_append_right _ (List.mem_map.2 ⟨c, ?_, ?_⟩)) hv
  · exact List.mem_of_find?_eq_some h
  · simpa using List.find?_some h

theorem unvisited_visit_lt_of_state {m : Definition} {id : String} {s : State}
    {p : Progress} (h : m.state? id = some s) (hv : id ∉ p.visited) :
    unvisited m (p.visit id).visited < unvisited m p.visited := by
  refine length_filter_notMem_lt (List.mem_append_left _ (List.mem_map.2 ⟨s, ?_, ?_⟩)) hv
  · exact List.mem_of_find?_eq_some h
  · simpa using List.find?_some h

namespace Engine

variable {σ π ε : Type}

/-! ## Parts of a step -/

/-- Changes the engine. -/
def update (f : Engine π → Engine π) : Run σ π ε Unit :=
  modify fun w => { w with engine := f w.engine }

/-- Changes the engine after an operation, whether it gave a result or broke off. -/
def finish {α : Type} (f : Engine π → Engine π) (run : Run σ π ε α) : Run σ π ε α := fun w =>
  match run w with
  | .ok a w => .ok a { w with engine := f w.engine }
  | .error e w => .error e { w with engine := f w.engine }

/-- Chooses the first arrow that is enabled. -/
def choose {α : Type} (env : Environment σ π ε) (condition : α → Option String)
    (event : Option String) (payload : Option π) (arrows : List α) : Run σ π ε (Option α) :=
  fun w =>
    let r := firstEnabled env.guard condition event payload arrows w.host
    .ok r.1 { w with host := r.2 }

/-- Does what an action says about timers. -/
def command (m : Definition) (action : String) (e : Engine π) : Engine π :=
  match TimerCommand.ofAction? action with
  | some (.start id) =>
    match m.timer? id with
    | some t => e.arm t
    | none => e
  | some (.stop id) => e.disarm id
  | none => e

/-- Runs actions. -/
def perform (env : Environment σ π ε) (m : Definition) : List String → Run σ π ε Unit
  | [] => pure ()
  | a :: as => do
    env.react a
    update (command m a)
    perform env m as

/-- Leaves a state: its exit actions are run and its timers disarmed. -/
def leave (env : Environment σ π ε) (m : Definition) (id : String) :
    Run σ π ε (List String) := do
  update fun e => { e with current := none }
  match m.state? id with
  | none => throw (.unknownState id)
  | some s =>
    perform env m s.exit
    update (·.disarmOwned id)
    return s.exit

/-- Walks through the machine from one stage until no completion transition is enabled. -/
def walk (env : Environment σ π ε) (m : Definition) (event : Option String)
    (payload : Option π) (phase : Phase) (p : Progress) : Run σ π ε Progress :=
  match phase with
  | .take state t => do
    let exits ← leave env m state
    perform env m t.actions
    walk env m event payload (.resolve t.target) (p.run (exits ++ t.actions))
  | .resolve target =>
    match h : m.choice? target with
    | none => walk env m event payload (.enter target) p
    | some c =>
      if hv : target ∈ p.visited then throw (.cycle (p.path ++ [target]))
      else do
        let chosen ← choose env Branch.condition event payload c.conditioned
        match chosen.or c.default? with
        | none => throw (.missingDefault target)
        | some b =>
          perform env m b.actions
          have := unvisited_visit_lt_of_choice h hv
          walk env m event payload (.resolve b.target) ((p.visit target).run b.actions)
  | .enter state =>
    if hv : state ∈ p.visited then throw (.cycle (p.path ++ [state]))
    else do
      update fun e => { e with current := some state }
      match h : m.state? state with
      | none => throw (.unknownState state)
      | some s =>
        perform env m s.entry
        have := unvisited_visit_lt_of_state h hv
        walk env m event payload .settle ((p.visit state).run s.entry)
  | .settle => do
    match (← get).engine.current with
    | none => return p
    | some state =>
      match ← choose env Transition.guard event payload (m.completionsFrom state) with
      | none => return p
      | some t => walk env m event payload (.take state t) p
termination_by (unvisited m p.visited, phase.rank)
decreasing_by
  · exact Prod.Lex.right _ (by simp [Phase.rank])
  · exact Prod.Lex.right _ (by simp [Phase.rank])
  · exact Prod.Lex.left _ _ this
  · exact Prod.Lex.left _ _ this
  · exact Prod.Lex.right _ (by simp [Phase.rank])

/-! ## Operations -/

/-- Takes an event to completion. -/
def dispatch (env : Environment σ π ε) (m : Definition) (ev : PendingEvent π) :
    Run σ π ε TraceEntry := do
  update fun e => { e with sequence := e.sequence + 1 }
  let e := (← get).engine
  let unmatched : TraceEntry :=
    ⟨e.sequence, e.current, e.current, ev.name, [], .unmatched, [e.current]⟩
  match e.current with
  | none => return unmatched
  | some state =>
    match ← choose env Transition.guard (some ev.name) ev.payload
        (m.transitionsFrom state (some ev.name)) with
    | none => return unmatched
    | some t =>
      let p ← walk env m (some ev.name) ev.payload (.take state t) (.start [state])
      update claim
      let e := (← get).engine
      return ⟨e.sequence, some state, e.current, ev.name, p.executed, .transition,
        p.path.map some⟩

/-- The machine that is loaded. -/
def loaded (operation : String) : Run σ π ε Definition := do
  match (← get).engine.machine with
  | some m => return m
  | none => throw (.notLoaded operation)

/-- Loads a machine and enters its initial state: the actions that were run. -/
def enterMachine (env : Environment σ π ε) (m : Definition) : Run σ π ε (List String) := do
  update (·.reset m)
  finish (fun e => { e with status := .ready }) do
    let p ← walk env m none none (.enter m.initial) (.start [])
    update claim
    return p.executed

/-- Loads what was handed over as a definition. -/
def load (env : Environment σ π ε) : Subject → Run σ π ε (List String)
  | .definition m => enterMachine env m
  | .foreign f => throw (.notDefinition f.kind)

/-- Queues an event. -/
def postEvent (name : String) (payload : Option π) : Run σ π ε Unit := do
  let _ ← loaded "post_event"
  update (·.post ⟨name, payload, none⟩)

/-- Processes the event that waits longest, if one waits: the entry of the step. -/
def step (env : Environment σ π ε) : Run σ π ε (Option TraceEntry) := do
  let m ← loaded "step"
  let before := (← get).engine
  match before.queue with
  | [] => return none
  | ev :: rest =>
    update fun e => { e with queue := rest, status := .running }
    fun w =>
      match dispatch env m ev w with
      | .ok entry w =>
        .ok (some entry) { w with engine := { w.engine with status := .ready }.record entry }
      | .error f w => .error f { w with engine := w.engine.rollBack before ev }

/-- Takes steps while events wait, but no more than the given number: the entries of the
steps. -/
def steps (env : Environment σ π ε) : Nat → Run σ π ε (List TraceEntry)
  | 0 => return []
  | n + 1 => do
    if (← get).engine.queue.isEmpty then return []
    else
      let entry ← step env
      return entry.toList ++ (← steps env n)

/-- Takes steps while events wait, but no more than the given number, in an engine with a
machine. -/
def runUntilIdle (env : Environment σ π ε) (most : Nat) : Run σ π ε (List TraceEntry) := do
  let _ ← loaded "run_until_idle"
  steps env most

/-- Lets time pass: the events that timers posted. -/
def tick (elapsed : Option Int) : Run σ π ε (List (PendingEvent π)) := do
  let _ ← loaded "tick"
  let elapsed := elapsed.getD defaultTick
  if elapsed < 0 then throw (.negativeElapsed elapsed)
  else
    let r := (← get).engine.pass elapsed
    update fun _ => r.1
    return r.2

end Engine

end Statechart
