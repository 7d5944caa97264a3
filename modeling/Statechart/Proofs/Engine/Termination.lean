import Mathlib
import Statechart.Proofs.Engine.Reentry

/-!
# Circles are faults, not hangs

A definition need not have come from a check: choices and completion transitions may lead around in
circles, arrows may lead nowhere, choices may have no default. A load or a step ends all the same,
whatever surrounds the engine.

`Engine.walk` is defined together with the reason that it ends. Here its loop is taken apart:
`Engine.stage` is what one turn of the loop does, which says nothing of other turns, and `Passage`
is the loop as it runs, turn after turn, with the nodes that it passes. There is no `Passage` where
the loop does not end. `LoadPassage` and `StepPassage` are a load and a step with this loop in the
place of the walk.

The measure is shared by the two ways to go in circles. A turn that passes a choice or enters a
state leaves fewer of them to be passed (`ends_stage`), and there are at most three turns between
two nodes (`Phase.rank`). A node that is not declared is the last of the way. So a walk passes no
node twice, and at most one more than there are states and choices (`ends_walk_passage`).

Main statement: `circles_are_faults`.
-/

namespace Statechart

variable {σ π ε : Type}

/-! ## Turns of the loop -/

/-- The nodes that a turn of the loop passes: one, if it comes to a node that has not been
passed. -/
def Phase.passes (m : Definition) (visited : List String) : Phase → List String
  | .take .. | .settle => []
  | .resolve target => if m.isChoice target ∧ target ∉ visited then [target] else []
  | .enter state => if state ∈ visited then [] else [state]

theorem Phase.passes_cases (m : Definition) (visited : List String) (phase : Phase) :
    phase.passes m visited = [] ∨ ∃ node ∉ visited, phase.passes m visited = [node] := by
  cases phase with
  | take | settle => exact .inl rfl
  | resolve target =>
    by_cases h : m.isChoice target ∧ target ∉ visited
    · exact .inr ⟨target, h.2, if_pos h⟩
    · exact .inl (if_neg h)
  | enter state =>
    by_cases h : state ∈ visited
    · exact .inl (if_pos h)
    · exact .inr ⟨state, h, if_neg h⟩

namespace Engine

section Loop

variable (env : Environment σ π ε) (m : Definition) (event : Option String) (payload : Option π)

/-- One turn of the loop of a walk: the stage that follows, or none where the walk is over, and what
has been done so far. -/
def stage : Phase → Progress → Run σ π ε (Option Phase × Progress)
  | .take state t, p => do
    let exits ← leave env m state
    perform env m t.actions
    return (some (.resolve t.target), p.run (exits ++ t.actions))
  | .resolve target, p =>
    match m.choice? target with
    | none => return (some (.enter target), p)
    | some c =>
      if target ∈ p.visited then throw (.cycle (p.path ++ [target]))
      else do
        let chosen ← choose env Branch.condition event payload c.conditioned
        match chosen.or c.default? with
        | none => throw (.missingDefault target)
        | some b =>
          perform env m b.actions
          return (some (.resolve b.target), (p.visit target).run b.actions)
  | .enter state, p =>
    if state ∈ p.visited then throw (.cycle (p.path ++ [state]))
    else do
      update fun e => { e with current := some state }
      match m.state? state with
      | none => throw (.unknownState state)
      | some s =>
        perform env m s.entry
        return (some .settle, (p.visit state).run s.entry)
  | .settle, p => do
    match (← get).engine.current with
    | none => return (none, p)
    | some state =>
      match ← choose env Transition.guard event payload (m.completionsFrom state) with
      | none => return (none, p)
      | some t => return (some (.take state t), p)

/-- A walk is its first turn, and the walk from the stage that follows. -/
theorem walk_eq_stage (phase : Phase) (p : Progress) :
    walk env m event payload phase p = (do
      let turn ← stage env m event payload phase p
      match turn.1 with
      | none => return turn.2
      | some next => walk env m event payload next turn.2) := by
  cases phase with
  | take state t =>
    rw [walk]
    simp only [stage, bind_assoc, pure_bind]
  | resolve target =>
    cases hc : m.choice? target with
    | none => simp only [walk_resolve_of_none env event payload hc, stage, hc, pure_bind]
    | some c =>
      by_cases hv : target ∈ p.visited
      · simp only [walk_resolve_of_mem env event payload hc hv, stage, hc, if_pos hv]
        rfl
      · simp only [walk_resolve_of_notMem env event payload hc hv, stage, hc, if_neg hv, bind_assoc]
        congr 1
        funext chosen
        cases chosen.or c.default? with
        | none => rfl
        | some b => simp only [bind_assoc, pure_bind]
  | enter state =>
    by_cases hv : state ∈ p.visited
    · simp only [walk_enter_of_mem env event payload hv, stage, if_pos hv]
      rfl
    · simp only [walk_enter_of_notMem env event payload hv, stage, if_neg hv, bind_assoc]
      congr 1
      funext _
      cases m.state? state with
      | none => rfl
      | some s => simp only [bind_assoc, pure_bind]
  | settle =>
    rw [walk]
    simp only [stage, bind_assoc]
    congr 1
    funext w
    cases w.engine.current with
    | none => rfl
    | some state =>
      simp only [bind_assoc]
      congr 1
      funext chosen
      cases chosen <;> rfl

end Loop

/-! ## The measure -/

/-- What is left of a walk: the nodes that have not been passed, and the turns up to the next. -/
def remaining (m : Definition) (phase : Phase) (p : Progress) : Nat :=
  4 * unvisited m p.visited + phase.rank

section Measure

variable {env : Environment σ π ε} {m : Definition} {event : Option String} {payload : Option π}

/-- A turn that comes to no new node leads to a stage that is nearer to one. -/
theorem remaining_lt_of_rank {phase next : Phase} {p q : Progress} (hv : q.visited = p.visited)
    (hrank : next.rank < phase.rank) : remaining m next q < remaining m phase p := by
  simp only [remaining, hv]
  omega

/-- A turn that passes a declared node leaves one less. -/
theorem remaining_lt_of_unvisited {phase next : Phase} {p q : Progress}
    (hlt : unvisited m q.visited < unvisited m p.visited) :
    remaining m next q < remaining m phase p := by
  have hrank : next.rank ≤ 3 := by cases next <;> simp [Phase.rank]
  simp only [remaining]
  omega

/-- **What a turn of the loop does**: it adds the node that it passes to those passed before, and if
another turn follows, the node was declared and less is left. -/
theorem ends_stage (phase : Phase) (p : Progress) (w : World σ π) :
    Ends (stage env m event payload phase p) w
      (fun turn _ => turn.2.origin = p.origin ∧
        turn.2.visited = p.visited ++ phase.passes m p.visited ∧
        ∀ next ∈ turn.1, remaining m next turn.2 < remaining m phase p ∧
          (phase.passes m p.visited).length + unvisited m turn.2.visited ≤ unvisited m p.visited)
      fun _ _ => True := by
  cases phase with
  | take state t =>
    simp only [stage, ends_bind, ends_pure]
    refine .of_forall (fun exits v => .of_forall (fun _ u => ?_) fun _ _ => trivial)
      fun _ _ => trivial
    refine ⟨rfl, (List.append_nil _).symm, fun next hnext => ?_⟩
    obtain rfl : Phase.resolve t.target = next := Option.some_inj.1 hnext
    exact ⟨remaining_lt_of_rank rfl (by simp [Phase.rank]), by simp [Phase.passes, Progress.run]⟩
  | resolve target =>
    cases hc : m.choice? target with
    | none =>
      have hpasses : (Phase.resolve target).passes m p.visited = [] := by
        simp [Phase.passes, Definition.isChoice, hc]
      simp only [stage, hc, ends_pure, hpasses, List.append_nil, true_and]
      intro next hnext
      obtain rfl : Phase.enter target = next := Option.some_inj.1 hnext
      exact ⟨remaining_lt_of_rank rfl (by simp [Phase.rank]), by simp⟩
    | some c =>
      by_cases hv : target ∈ p.visited
      · simp only [stage, hc, if_pos hv, ends_throw]
      · have hpasses : (Phase.resolve target).passes m p.visited = [target] := by
          simp [Phase.passes, Definition.isChoice, hc, hv]
        have hlt := unvisited_visit_lt_of_choice hc hv
        simp only [stage, hc, if_neg hv, ends_bind, hpasses]
        refine .of_forall (fun chosen v => ?_) fun _ _ => trivial
        cases chosen.or c.default? with
        | none => trivial
        | some b =>
          simp only [ends_bind, ends_pure]
          refine .of_forall (fun _ u => ⟨rfl, rfl, fun next hnext => ?_⟩) fun _ _ => trivial
          obtain rfl : Phase.resolve b.target = next := Option.some_inj.1 hnext
          exact ⟨remaining_lt_of_unvisited hlt, (Nat.add_comm 1 _).trans_le hlt⟩
  | enter state =>
    by_cases hv : state ∈ p.visited
    · simp only [stage, if_pos hv, ends_throw]
    · have hpasses : (Phase.enter state).passes m p.visited = [state] := by
        simp [Phase.passes, hv]
      simp only [stage, if_neg hv, ends_bind, ends_update, hpasses]
      cases hs : m.state? state with
      | none => trivial
      | some s =>
        have hlt := unvisited_visit_lt_of_state hs hv
        simp only [ends_bind, ends_pure]
        refine .of_forall (fun _ u => ⟨rfl, rfl, fun next hnext => ?_⟩) fun _ _ => trivial
        obtain rfl : Phase.settle = next := Option.some_inj.1 hnext
        exact ⟨remaining_lt_of_unvisited hlt, (Nat.add_comm 1 _).trans_le hlt⟩
  | settle =>
    simp only [stage, ends_bind, ends_get, Phase.passes, List.append_nil]
    cases w.engine.current with
    | none => exact ⟨rfl, rfl, by simp⟩
    | some state =>
      simp only [ends_bind]
      refine .of_forall (fun chosen v => ?_) fun _ _ => trivial
      cases chosen with
      | none => exact ⟨rfl, rfl, by simp⟩
      | some t =>
        refine ⟨rfl, rfl, fun next hnext => ?_⟩
        obtain rfl : Phase.take state t = next := Option.some_inj.1 hnext
        exact ⟨remaining_lt_of_rank rfl (by simp [Phase.rank]), by simp⟩

end Measure

end Engine

/-! ## The loop -/

/-- The loop of a walk ends: from the given stage, progress and world it passes the nodes, one after
the other, and gives the result or breaks off. -/
inductive Passage (env : Environment σ π ε) (m : Definition) (event : Option String)
    (payload : Option π) : Phase → Progress → World σ π → List String →
    EStateM.Result (Fault ε) (World σ π) Progress → Prop
  /-- After this turn the walk is over. -/
  | over {phase : Phase} {p p' : Progress} {w v : World σ π}
    (hturn : Engine.stage env m event payload phase p w = .ok (none, p') v) :
    Passage env m event payload phase p w (phase.passes m p.visited) (.ok p' v)
  /-- The walk breaks off in this turn. -/
  | broken {phase : Phase} {p : Progress} {w v : World σ π} {f : Fault ε}
    (hturn : Engine.stage env m event payload phase p w = .error f v) :
    Passage env m event payload phase p w (phase.passes m p.visited) (.error f v)
  /-- Another turn follows. -/
  | next {phase phase' : Phase} {p p' : Progress} {w v : World σ π} {nodes : List String}
    {result : EStateM.Result (Fault ε) (World σ π) Progress}
    (hturn : Engine.stage env m event payload phase p w = .ok (some phase', p') v)
    (hrest : Passage env m event payload phase' p' v nodes result) :
    Passage env m event payload phase p w (phase.passes m p.visited ++ nodes) result

namespace Engine

section Walk

variable {env : Environment σ π ε} {m : Definition} {event : Option String} {payload : Option π}

theorem walk_of_stage {phase : Phase} {p : Progress} {w v : World σ π}
    {turn : Option Phase × Progress} (hturn : stage env m event payload phase p w = .ok turn v) :
    walk env m event payload phase p w =
      match turn.1 with
      | none => .ok turn.2 v
      | some next => walk env m event payload next turn.2 v := by
  rw [walk_eq_stage]
  simp only [bind, EStateM.bind, hturn]
  cases turn.1 <;> rfl

theorem walk_of_stage_broken {phase : Phase} {p : Progress} {w v : World σ π} {f : Fault ε}
    (hturn : stage env m event payload phase p w = .error f v) :
    walk env m event payload phase p w = .error f v := by
  rw [walk_eq_stage]
  simp only [bind, EStateM.bind, hturn]

variable (env m event payload) in
/-- **The loop ends with what the walk gives.** No node is passed twice, and of those that have not
been passed before, at most one is not declared. -/
theorem exists_passage (phase : Phase) (p : Progress) (hnodup : p.visited.Nodup) (w : World σ π) :
    ∃ nodes, Passage env m event payload phase p w nodes (walk env m event payload phase p w) ∧
      (p.visited ++ nodes).Nodup ∧ nodes.length ≤ unvisited m p.visited + 1 ∧
      ∀ p' v, walk env m event payload phase p w = .ok p' v →
        p'.origin = p.origin ∧ p'.visited = p.visited ++ nodes := by
  -- by induction on what is left; a turn that is not the last leaves less
  induction hn : remaining m phase p using Nat.strong_induction_on generalizing phase p w with
  | _ n ih =>
    have hone : (phase.passes m p.visited).length ≤ unvisited m p.visited + 1 := by
      rcases phase.passes_cases m p.visited with h | ⟨node, -, h⟩ <;> simp [h]
    have hfresh : (p.visited ++ phase.passes m p.visited).Nodup := by
      rcases phase.passes_cases m p.visited with h | ⟨node, hnode, h⟩
      · rwa [h, List.append_nil]
      · rw [h, ← List.concat_eq_append]
        exact hnodup.concat hnode
    have hstage : Ends (stage env m event payload phase p) w _ _ := ends_stage phase p w
    cases hturn : stage env m event payload phase p w with
    | error f v =>
      rw [walk_of_stage_broken hturn]
      exact ⟨_, .broken hturn, hfresh, hone, by simp⟩
    | ok turn v =>
      obtain ⟨next, p'⟩ := turn
      obtain ⟨horigin, hvisited, hless⟩ := hstage.of_ok hturn
      rw [walk_of_stage hturn]
      cases next with
      | none =>
        refine ⟨_, .over hturn, hfresh, hone, fun q u hq => ?_⟩
        obtain ⟨rfl, -⟩ : p' = q ∧ v = u := by simpa using hq
        exact ⟨horigin, hvisited⟩
      | some phase' =>
        obtain ⟨hlt, hcount⟩ := hless phase' rfl
        obtain ⟨nodes, hpassage, hdistinct, hfew, hpath⟩ :=
          ih _ (hn ▸ hlt) phase' p' (hvisited ▸ hfresh) v rfl
        rw [hvisited, List.append_assoc] at hdistinct
        refine ⟨_, .next hturn hpassage, hdistinct, ?_, fun q u hq => ?_⟩
        · rw [List.length_append]
          dsimp only at hcount
          omega
        · obtain ⟨horigin', hvisited'⟩ := hpath q u hq
          exact ⟨horigin'.trans horigin, by rw [hvisited', hvisited, List.append_assoc]⟩

end Walk

end Engine

/-! ## Loads and steps with this loop -/

/-- No node is passed twice, and at most one more than the machine has states and choices. -/
structure Definition.Bounds (m : Definition) (nodes : List String) : Prop where
  nodup : nodes.Nodup
  length_le : nodes.length ≤ m.states.length + m.choices.length + 1

theorem Definition.bounds_nil (m : Definition) : m.Bounds [] := ⟨List.nodup_nil, Nat.zero_le _⟩

/-- A load of the machine ends, with the loop in the place of the walk: it passes the nodes, one
after the other, and gives the result or breaks off. -/
inductive LoadPassage (env : Environment σ π ε) (m : Definition) (w : World σ π) :
    List String → EStateM.Result (Fault ε) (World σ π) (List String) → Prop
  | done {nodes : List String} {p : Progress} {v : World σ π}
    (hwalk : Passage env m none none (.enter m.initial) (.start [])
      { w with engine := w.engine.reset m } nodes (.ok p v)) :
    LoadPassage env m w nodes
      (.ok p.executed { v with engine := { v.engine.claim with status := .ready } })
  | broken {nodes : List String} {f : Fault ε} {v : World σ π}
    (hwalk : Passage env m none none (.enter m.initial) (.start [])
      { w with engine := w.engine.reset m } nodes (.error f v)) :
    LoadPassage env m w nodes (.error f { v with engine := { v.engine with status := .ready } })

/-- An event is taken to its end, with the loop in the place of the walk. -/
inductive DispatchPassage (env : Environment σ π ε) (m : Definition) (ev : PendingEvent π)
    (w : World σ π) : List String → EStateM.Result (Fault ε) (World σ π) TraceEntry → Prop
  /-- The machine is between two states. -/
  | stranded (hcurrent : w.engine.current = none) :
    DispatchPassage env m ev w [] (.ok
      ⟨w.engine.sequence + 1, w.engine.current, w.engine.current, ev.name, [], .unmatched,
        [w.engine.current]⟩
      { w with engine := { w.engine with sequence := w.engine.sequence + 1 } })
  /-- No transition is enabled. -/
  | unmatched {state : String} {v : World σ π} (hcurrent : w.engine.current = some state)
    (hchoose : Engine.choose env Transition.guard (some ev.name) ev.payload
      (m.transitionsFrom state (some ev.name))
      { w with engine := { w.engine with sequence := w.engine.sequence + 1 } } = .ok none v) :
    DispatchPassage env m ev w [] (.ok
      ⟨w.engine.sequence + 1, some state, some state, ev.name, [], .unmatched, [some state]⟩ v)
  | taken {state : String} {t : Transition} {v u : World σ π} {nodes : List String} {p : Progress}
    (hcurrent : w.engine.current = some state)
    (hchoose : Engine.choose env Transition.guard (some ev.name) ev.payload
      (m.transitionsFrom state (some ev.name))
      { w with engine := { w.engine with sequence := w.engine.sequence + 1 } } = .ok (some t) v)
    (hwalk : Passage env m (some ev.name) ev.payload (.take state t) (.start [state]) v nodes
      (.ok p u)) :
    DispatchPassage env m ev w nodes (.ok
      ⟨u.engine.sequence, some state, u.engine.current, ev.name, p.executed, .transition,
        p.path.map some⟩ { u with engine := u.engine.claim })
  | broken {state : String} {t : Transition} {v u : World σ π} {nodes : List String} {f : Fault ε}
    (hcurrent : w.engine.current = some state)
    (hchoose : Engine.choose env Transition.guard (some ev.name) ev.payload
      (m.transitionsFrom state (some ev.name))
      { w with engine := { w.engine with sequence := w.engine.sequence + 1 } } = .ok (some t) v)
    (hwalk : Passage env m (some ev.name) ev.payload (.take state t) (.start [state]) v nodes
      (.error f u)) :
    DispatchPassage env m ev w nodes (.error f u)

/-- A step ends, with the loop in the place of the walk. -/
inductive StepPassage (env : Environment σ π ε) (w : World σ π) :
    List String → EStateM.Result (Fault ε) (World σ π) (Option TraceEntry) → Prop
  /-- No machine is loaded. -/
  | refused (hmachine : w.engine.machine = none) :
    StepPassage env w [] (.error (.notLoaded "step") w)
  /-- No event waits. -/
  | idle {m : Definition} (hmachine : w.engine.machine = some m) (hqueue : w.engine.queue = []) :
    StepPassage env w [] (.ok none w)
  | done {m : Definition} {ev : PendingEvent π} {rest : List (PendingEvent π)}
    {nodes : List String} {entry : TraceEntry} {v : World σ π}
    (hmachine : w.engine.machine = some m) (hqueue : w.engine.queue = ev :: rest)
    (hdispatch : DispatchPassage env m ev
      { w with engine := { w.engine with queue := rest, status := .running } } nodes
      (.ok entry v)) :
    StepPassage env w nodes (.ok (some entry)
      { v with engine := { v.engine with status := .ready }.record entry })
  | undone {m : Definition} {ev : PendingEvent π} {rest : List (PendingEvent π)}
    {nodes : List String} {f : Fault ε} {v : World σ π}
    (hmachine : w.engine.machine = some m) (hqueue : w.engine.queue = ev :: rest)
    (hdispatch : DispatchPassage env m ev
      { w with engine := { w.engine with queue := rest, status := .running } } nodes
      (.error f v)) :
    StepPassage env w nodes (.error f { v with engine := v.engine.rollBack w.engine ev })

namespace Engine

section Steps

variable (env : Environment σ π ε) (m : Definition)

/-- A walk passes no node twice, and goes along the nodes that it passes. -/
theorem ends_walk_passage (event : Option String) (payload : Option π) (phase : Phase)
    (origin : List String) (w : World σ π) :
    Ends (walk env m event payload phase (.start origin)) w
      (fun p v => ∃ nodes, Passage env m event payload phase (.start origin) w nodes (.ok p v) ∧
        m.Bounds nodes ∧ p.path = origin ++ nodes)
      fun f v => ∃ nodes, Passage env m event payload phase (.start origin) w nodes (.error f v) ∧
        m.Bounds nodes := by
  obtain ⟨nodes, hpassage, hnodup, hlength, hpath⟩ :=
    exists_passage env m event payload phase (.start origin) List.nodup_nil w
  have hall : unvisited m (Progress.start origin).visited = m.states.length + m.choices.length := by
    simp [unvisited, Progress.start]
  have hbounds : m.Bounds nodes := ⟨hnodup, hall ▸ hlength⟩
  refine (ends_self _ _).mono (fun p v hr => ?_) fun f v hr => ?_
  · obtain ⟨horigin, hvisited⟩ := hpath p v hr
    refine ⟨nodes, hr ▸ hpassage, hbounds, ?_⟩
    simp [Progress.path, horigin, hvisited, Progress.start]
  · exact ⟨nodes, hr ▸ hpassage, hbounds⟩

theorem ends_enterMachine_passage (w : World σ π) :
    Ends (enterMachine env m) w
      (fun actions v => ∃ nodes, LoadPassage env m w nodes (.ok actions v) ∧ m.Bounds nodes)
      fun f v => ∃ nodes, LoadPassage env m w nodes (.error f v) ∧ m.Bounds nodes := by
  rw [ends_enterMachine]
  refine (ends_walk_passage env m none none (.enter m.initial) [] _).mono (fun p v hv => ?_)
    fun f v hv => ?_
  · obtain ⟨nodes, hwalk, hbounds, -⟩ := hv
    exact ⟨nodes, .done hwalk, hbounds⟩
  · obtain ⟨nodes, hwalk, hbounds⟩ := hv
    exact ⟨nodes, .broken hwalk, hbounds⟩

theorem ends_dispatch_passage (ev : PendingEvent π) (w : World σ π) :
    Ends (dispatch env m ev) w
      (fun entry v => ∃ nodes, DispatchPassage env m ev w nodes (.ok entry v) ∧ m.Bounds nodes ∧
        entry.path = w.engine.current :: nodes.map some)
      fun f v => ∃ nodes, DispatchPassage env m ev w nodes (.error f v) ∧ m.Bounds nodes := by
  rcases Option.eq_none_or_eq_some w.engine.current with hcurrent | ⟨state, hcurrent⟩
  · simp only [dispatch, ends_bind, ends_update, ends_get]
    split
    · exact ⟨[], .stranded hcurrent, m.bounds_nil, rfl⟩
    · simp_all
  · rw [ends_dispatch_of_current hcurrent]
    refine (ends_self _ _).mono (fun chosen v hchoose => ?_) fun f v hchoose => by cases hchoose
    cases chosen with
    | none => exact ⟨[], .unmatched hcurrent hchoose, m.bounds_nil, by simp [hcurrent]⟩
    | some t =>
      refine (ends_walk_passage env m (some ev.name) ev.payload (.take state t) [state] v).mono
        (fun p u hu => ?_) fun f u hu => ?_
      · obtain ⟨nodes, hwalk, hbounds, hpath⟩ := hu
        exact ⟨nodes, .taken hcurrent hchoose hwalk, hbounds, by simp [hpath, hcurrent]⟩
      · obtain ⟨nodes, hwalk, hbounds⟩ := hu
        exact ⟨nodes, .broken hcurrent hchoose hwalk, hbounds⟩

theorem ends_step_passage (w : World σ π) :
    Ends (step env) w
      (fun entry v => ∃ nodes, StepPassage env w nodes (.ok entry v) ∧
        (∀ m ∈ w.engine.machine, m.Bounds nodes) ∧
        ∀ x ∈ entry, x.path = w.engine.current :: nodes.map some)
      fun f v => ∃ nodes, StepPassage env w nodes (.error f v) ∧
        ∀ m ∈ w.engine.machine, m.Bounds nodes := by
  cases hmachine : w.engine.machine with
  | none =>
    rw [ends_step, hmachine]
    exact ⟨[], .refused hmachine, by simp⟩
  | some m =>
    refine ends_step_of_loaded hmachine (fun hqueue => ?_) fun ev rest hqueue => ?_
    · exact ⟨[], .idle hmachine hqueue, by simp [m.bounds_nil], by simp⟩
    · refine (ends_dispatch_passage env m ev _).mono (fun entry v hv => ?_) fun f v hv => ?_
      · obtain ⟨nodes, hdispatch, hbounds, hpath⟩ := hv
        exact ⟨nodes, .done hmachine hqueue hdispatch, by simpa using hbounds, by simpa using hpath⟩
      · obtain ⟨nodes, hdispatch, hbounds⟩ := hv
        exact ⟨nodes, .undone hmachine hqueue hdispatch, by simpa using hbounds⟩

end Steps

end Engine

/-! ## Entries of the trace -/

/-- The nodes on the way of the step are distinct, but for the one that it set out from. -/
def TraceEntry.Distinct (x : TraceEntry) : Prop := x.path.tail.Nodup

theorem TraceEntry.Distinct.of_path {m : Definition} {nodes : List String} {x : TraceEntry}
    {origin : Option String} (hbounds : m.Bounds nodes)
    (hpath : x.path = origin :: nodes.map some) : x.Distinct := by
  rw [TraceEntry.Distinct, hpath]
  exact hbounds.nodup.map (Option.some_injective _)

theorem Engine.ends_step_distinct (env : Environment σ π ε) (w : World σ π) :
    Ends (step env) w (fun entry _ => ∀ x ∈ entry, x.Distinct) fun _ _ => True := by
  refine (ends_step_passage env w).mono (fun entry v hv x hx => ?_) fun _ _ _ => trivial
  obtain ⟨nodes, hpassage, hbounds, hpath⟩ := hv
  have hloaded : ∃ m, w.engine.machine = some m := by
    cases hpassage with
    | idle hmachine => exact ⟨_, hmachine⟩
    | done hmachine => exact ⟨_, hmachine⟩
  obtain ⟨m, hm⟩ := hloaded
  exact .of_path (hbounds m hm) (hpath x hx)

/-- What the trace holds afterwards it has held before, or it has distinct nodes on its way. -/
def Retraces (w v : World σ π) : Prop :=
  ∀ x ∈ v.engine.trace, x ∈ w.engine.trace ∨ x.Distinct

theorem Engine.mem_trace_record {e : Engine π} {entry x : TraceEntry}
    (hx : x ∈ (e.record entry).trace) : x ∈ e.trace ∨ x = entry := by
  unfold Engine.record at hx
  split at hx
  · simpa using hx
  · rcases List.mem_append.1 hx with hx | hx
    · exact .inl (List.mem_of_mem_drop hx)
    · exact .inr (List.mem_singleton.1 hx)

theorem Retraces.of_eq {w v : World σ π} (h : v.engine.trace = w.engine.trace) : Retraces w v :=
  fun _ hx => .inl (h ▸ hx)

theorem Retraces.trans {u v w : World σ π} (huv : Retraces u v) (hvw : Retraces v w) :
    Retraces u w := fun x hx => (hvw x hx).elim (huv x) .inr

namespace Engine

section Traces

variable {env : Environment σ π ε} (henv : env.Keeps Retraces)
include henv

theorem respects_retraces : Respects env Retraces where
  refl _ := .of_eq rfl
  trans := .trans
  react := henv
  guard _ _ _ _ := .of_eq rfl
  progress _ _ _ _ _ := .of_eq rfl

theorem ends_step_retraces (w : World σ π) :
    Ends (step env) w (fun _ v => Retraces w v) fun _ v => Retraces w v := by
  cases hmachine : w.engine.machine with
  | none =>
    rw [ends_step, hmachine]
    exact .of_eq rfl
  | some m =>
    refine ends_step_of_loaded hmachine (fun _ => .of_eq rfl) fun ev rest _ => ?_
    refine ((ends_dispatch_passage env m ev _).and
      ((respects_retraces henv).dispatch m ev _)).mono (fun entry v hv x hx => ?_)
        fun _ _ hv => hv.2
    obtain ⟨⟨nodes, -, hbounds, hpath⟩, hsame⟩ := hv
    rcases mem_trace_record hx with hx | rfl
    · exact hsame x hx
    · exact .inr (.of_path hbounds hpath)

theorem ends_enterMachine_retraces (m : Definition) (w : World σ π) :
    Ends (enterMachine env m) w (fun _ v => Retraces w v) fun _ v => Retraces w v := by
  have hreset : Retraces w { w with engine := w.engine.reset m } := by simp [Retraces, reset, fresh]
  rw [ends_enterMachine]
  exact ((respects_retraces henv).walk m none none _ _ _).mono
    (fun _ _ hv => hreset.trans hv) fun _ _ hv => hreset.trans hv

theorem ends_operation_retraces (op : Operation π) (w : World σ π) :
    Ends (op.perform env) w (fun _ v => Retraces w v) fun _ v => Retraces w v := by
  cases op with
  | load subject =>
    refine ends_map.2 ?_
    cases subject with
    | definition m => exact ends_enterMachine_retraces henv m w
    | foreign f => exact .of_eq rfl
  | post name payload =>
    refine ends_bind.2 (ends_postEvent.2 ?_)
    split <;> exact .of_eq rfl
  | step => exact ends_map.2 (ends_step_retraces henv w)
  | run most =>
    refine ends_map.2 (ends_runUntilIdle.2 ?_)
    split
    · have hstep : ∀ v, Retraces w v → Ends (step env) v
          (fun entry u => Retraces w u ∧ ∀ x ∈ entry, True) fun _ u => Retraces w u := fun v hv =>
        (ends_step_retraces henv v).mono (fun _ _ hu => ⟨hv.trans hu, fun _ _ => trivial⟩)
          fun _ _ hu => hv.trans hu
      exact (ends_steps hstep most (.of_eq rfl)).mono (fun _ _ hv => hv.1) fun _ _ hv => hv
    · exact .of_eq rfl
  | tick elapsed =>
    refine ends_map.2 (ends_tick.2 ?_)
    split
    · exact .of_eq rfl
    · split <;> exact .of_eq rfl

end Traces

end Engine

theorem Script.only_all (s : Script σ π ε) : s.Only fun _ => True := by
  induction s with
  | done s => trivial
  | fail f s => trivial
  | look next ih => exact ih
  | call s c next ih => exact ⟨trivial, ih⟩

/-- Whatever a host does on an action, also steps and loads, it leaves only such entries. -/
theorem Host.keeps_retraces (h : Host σ π ε) (depth : Nat) :
    (h.environment depth).Keeps Retraces := by
  have hh : h.Only fun _ => True := fun a s => (h.act a s).only_all
  refine hh.keeps (fun _ _ => .of_eq rfl) .trans (fun env henv c w _ => ?_) depth
  cases c with
  | post name payload =>
    refine ends_bind.2 (Engine.ends_postEvent.2 ?_)
    split <;> exact .of_eq rfl
  | tick elapsed =>
    refine ends_map.2 (Engine.ends_tick.2 ?_)
    split
    · exact .of_eq rfl
    · split <;> exact .of_eq rfl
  | step =>
    cases env with
    | none => exact .of_eq rfl
    | some env => exact ends_map.2 (Engine.ends_step_retraces (henv env rfl) w)
  | reload =>
    cases env with
    | none => exact .of_eq rfl
    | some env =>
      refine ends_bind.2 (Engine.ends_loaded.2 ?_)
      split
      · exact ends_map.2 (Engine.ends_enterMachine_retraces (henv env rfl) _ w)
      · exact .of_eq rfl

/-- **Circles are faults, not hangs**: take any definition, which need not have come from a check,
and any host. The loop of a load and that of a step end from any world, with what the load or the
step gives or breaks off with, and they pass no node twice and at most one more than the machine
has states and choices. A step that gives an entry tells in its path the state that it set out from
and then these nodes. So in each entry that operations produce, whatever they load and however they
end, also in those of steps within steps, the nodes of the path after the first are distinct. -/
theorem circles_are_faults (h : Host σ π ε) (depth : Nat) :
    let env := h.environment depth
    (∀ (m : Definition) (w : World σ π),
      ∃ nodes, LoadPassage env m w nodes (Engine.load env (.definition m) w) ∧ m.Bounds nodes) ∧
    (∀ w : World σ π, ∃ nodes, StepPassage env w nodes (Engine.step env w) ∧
      (∀ m ∈ w.engine.machine, m.Bounds nodes) ∧
      ∀ x v, Engine.step env w = .ok (some x) v → x.path = w.engine.current :: nodes.map some) ∧
    ∀ (w : World σ π) (ops : List (Operation π)),
      (∀ x ∈ entriesAfter env w ops, x.path.tail.Nodup) ∧
      ∀ x ∈ (worldAfter env w ops).engine.trace, x ∈ w.engine.trace ∨ x.path.tail.Nodup := by
  intro env
  have henv : env.Keeps Retraces := h.keeps_retraces depth
  refine ⟨fun m w => ?_, fun w => ?_, fun w ops => ⟨?_, ?_⟩⟩
  · exact Ends.result (P := fun r => ∃ nodes, LoadPassage env m w nodes r ∧ m.Bounds nodes)
      (Engine.ends_enterMachine_passage env m w)
  · refine Ends.result (P := fun r => ∃ nodes, StepPassage env w nodes r ∧
      (∀ m ∈ w.engine.machine, m.Bounds nodes) ∧
      ∀ x v, r = .ok (some x) v → x.path = w.engine.current :: nodes.map some)
      ((Engine.ends_step_passage env w).mono (fun entry v hv => ?_) fun f v hv => ?_)
    · obtain ⟨nodes, hpassage, hbounds, hpath⟩ := hv
      refine ⟨nodes, hpassage, hbounds, fun x u hx => hpath x ?_⟩
      obtain ⟨rfl, -⟩ : entry = some x ∧ v = u := by simpa using hx
      rfl
    · obtain ⟨nodes, hpassage, hbounds⟩ := hv
      exact ⟨nodes, hpassage, hbounds, by simp⟩
  · have hstep : ∀ v : World σ π, True → Ends (Engine.step env) v
        (fun entry _ => True ∧ ∀ x ∈ entry, x.Distinct) fun _ _ => True := fun v _ =>
      (Engine.ends_step_distinct env v).mono (fun _ _ hx => ⟨trivial, hx⟩) fun _ _ _ => trivial
    exact forall_mem_entriesAfter hstep (fun _ _ _ _ => trivial) trivial
  · exact worldAfter_keeps (P := Retraces w)
      (fun op _ v hv => ((Engine.ends_operation_retraces henv op v).mono
        (fun _ _ hu => hv.trans hu) fun _ _ hu => hv.trans hu).after) (.of_eq rfl)

/-! ## A maze -/

namespace Maze

/-- A maze in which two corners lead to each other, and to an exit that is not there. -/
def machine : Definition where
  name := "maze"
  initial := "door"
  states := [⟨"door", none, [], ["light"], none⟩]
  choices := [⟨"left", [⟨some "breeze", "exit", [], none⟩, ⟨none, "right", [], none⟩], none⟩,
    ⟨"right", [⟨none, "left", ["turn"], none⟩], none⟩]
  transitions := [⟨"door", "left", some "enter", none, [], none⟩]
  timers := []
  states_nodup := by decide
  choices_nodup := by decide

/-- A host that does not feel a breeze. -/
def host : Host Unit Unit String := .ofGuard fun _ _ _ s => (some false, s)

/-- Somebody is about to enter the maze. -/
def entrance : World Unit Unit :=
  ⟨⟨some machine, .ready, some "door", [⟨"enter", none, none⟩], [], 0, 0, [], 1, 0, 0,
    Nat.one_pos⟩, ()⟩

/-- Whoever enters the maze comes to both corners, and then is back at the entrance. -/
theorem maze_faults :
    ∃ nodes, StepPassage (host.environment 0) entrance nodes
        (.error (.cycle ["door", "left", "right", "left"]) entrance) ∧ machine.Bounds nodes := by
  obtain ⟨nodes, hpassage, hbounds, -⟩ := (circles_are_faults host 0).2.1 entrance
  have hstep : Engine.step (host.environment 0) entrance =
      .error (.cycle ["door", "left", "right", "left"]) entrance := by cbv
  exact ⟨nodes, hstep ▸ hpassage, hbounds machine rfl⟩

end Maze

end Statechart
