import Statechart.Proofs.Engine.Rollback

/-!
# No event is lost

A `Chronicle` follows an engine from a load on. Beside the world it holds every event posted
since, in the order of posting, and the trace entries of all steps that gave one. Events are
posted by the host, which records them, by ticks, and from outside.

The invariant is `Accounted`: the events posted are, by their names, those of the entries and
after them those that wait. `Accounted.moves` carries it over what happens within a step,
`accounted_step` over a step that gives an entry or is undone, and `accounted_next` over any
operation.

Main statement: `posted_eq_processed_append_queue`.
-/

namespace Statechart

variable {σ π ε : Type}

/-! ## What operations add -/

/-- The entries of the steps that are taken while events wait, but no more than the given
number; the entries of steps before one that breaks off count as well. -/
def Engine.entriesTaken (env : Environment σ π ε) : Nat → World σ π → List TraceEntry
  | 0, _ => []
  | n + 1, w =>
    if w.engine.queue.isEmpty then []
    else
      match Engine.step env w with
      | .ok entry v => entry.toList ++ Engine.entriesTaken env n v
      | .error _ _ => []

namespace Operation

/-- The entries of the steps that an operation takes. -/
def entriesTaken (env : Environment σ π ε) (w : World σ π) : Operation π → List TraceEntry
  | step =>
    match Engine.step env w with
    | .ok entry _ => entry.toList
    | .error _ _ => []
  | run most => Engine.entriesTaken env most w
  | load _ | post .. | tick _ => []

/-- The events that an operation has posted itself, given how it ended. -/
def posted : Operation π → EStateM.Result (Fault ε) (World σ π) (Answer π) →
    List (PendingEvent π)
  | post name payload, .ok _ _ => [⟨name, payload, none⟩]
  | tick _, .ok (.ticked events) _ => events
  | _, _ => []

end Operation

section Entries

variable {env : Environment σ π ε} {inv : World σ π → Prop} {good : TraceEntry → Prop}
  (hstep : ∀ w, inv w → Ends (Engine.step env) w (fun entry v => inv v ∧ ∀ e ∈ entry, good e)
    fun _ _ => True)
include hstep

/-- What the entry of a step meets, the entries of steps taken one after the other meet. -/
theorem Engine.forall_mem_entriesTaken (n : Nat) {w : World σ π} (hw : inv w) :
    ∀ e ∈ Engine.entriesTaken env n w, good e := by
  induction n generalizing w with
  | zero => simp [Engine.entriesTaken]
  | succ n ih =>
    rw [Engine.entriesTaken]
    split
    · simp
    · split
      · rename_i entry v hr
        obtain ⟨hv, hgood⟩ := (hstep w hw).of_ok hr
        exact List.forall_mem_append.2 ⟨fun e he => hgood e (Option.mem_toList.1 he), ih hv⟩
      · simp

theorem Operation.forall_mem_entriesTaken (op : Operation π) {w : World σ π} (hw : inv w) :
    ∀ e ∈ op.entriesTaken env w, good e := by
  cases op with
  | step =>
    rw [Operation.entriesTaken]
    split
    · rename_i entry v hr
      exact fun e he => ((hstep w hw).of_ok hr).2 e (Option.mem_toList.1 he)
    · simp
  | run most => exact Engine.forall_mem_entriesTaken hstep most hw
  | _ => simp [Operation.entriesTaken]

end Entries

/-- What a step keeps of a world and the entries so far, steps keep with the entries they take,
whichever way they end. -/
theorem Engine.ends_steps_taken {env : Environment σ π ε}
    {inv : World σ π → List TraceEntry → Prop}
    (hstep : ∀ w entries, inv w entries →
      Ends (step env) w (fun entry v => inv v (entries ++ entry.toList)) fun _ v => inv v entries)
    (n : Nat) {w : World σ π} {entries : List TraceEntry} (hw : inv w entries) :
    Ends (steps env n) w (fun _ v => inv v (entries ++ entriesTaken env n w))
      fun _ v => inv v (entries ++ entriesTaken env n w) := by
  induction n generalizing w entries with
  | zero =>
    rw [entriesTaken, List.append_nil]
    exact hw
  | succ n ih =>
    rw [ends_steps_succ, entriesTaken]
    split
    · rwa [List.append_nil]
    · refine ((hstep w entries hw).and (ends_self (step env) w)).mono (fun entry v hv => ?_)
        fun f v hv => ?_
      · simp only [hv.2, ← List.append_assoc]
        exact ih hv.1
      · simpa only [hv.2, List.append_nil] using hv.1

/-! ## Chronicles -/

/-- What has become of an engine since a load: the world, with the record of all events that
were posted, and the entries of all steps that gave one. -/
structure Chronicle (σ π : Type) where
  world : World (σ × List (PendingEvent π)) π
  entries : List TraceEntry

namespace Chronicle

/-- The events that were posted. -/
def posted (c : Chronicle σ π) : List (PendingEvent π) := c.world.host.2

variable (env : Environment (σ × List (PendingEvent π)) π ε)

/-- The chronicle that begins with loading a machine. -/
def ofLoad (m : Definition) (w : World σ π) : Chronicle σ π :=
  ⟨(Engine.load env (.definition m)).after ⟨w.engine, (w.host, [])⟩, []⟩

/-- The chronicle continued by an operation. -/
def next (c : Chronicle σ π) (op : Operation π) : Chronicle σ π :=
  let w := (op.perform env).after c.world
  ⟨w.withRecord (w.host.2 ++ op.posted (op.perform env c.world)),
    c.entries ++ op.entriesTaken env c.world⟩

/-- The chronicle of loading a machine and of operations after that. -/
def ofOperations (m : Definition) (w : World σ π) (ops : List (Operation π)) : Chronicle σ π :=
  ops.foldl (next env) (ofLoad env m w)

end Chronicle

/-- The world of a chronicle is the one that the operations lead to. -/
theorem Chronicle.forget_foldl_next {env' : Environment (σ × List (PendingEvent π)) π ε}
    {env : Environment σ π ε} (h : env'.Shadows env) (ops : List (Operation π))
    (c : Chronicle σ π) :
    (ops.foldl (next env') c).world.forget = worldAfter env c.world.forget ops := by
  induction ops generalizing c with
  | nil => rfl
  | cons op ops ih =>
    rw [List.foldl_cons, ih]
    have hop := (Forgets.operation h op).after c.world
    show worldAfter env ((op.perform env').after c.world).forget ops = _
    rw [hop]
    rfl

/-! ## The invariant -/

/-- A trace that holds the latest of all entries does so with one entry more. -/
theorem exists_append_trace_record {e : Engine π} {entries : List TraceEntry}
    (h : ∃ old, entries = old ++ e.trace ∧ old.length = e.dropped) (entry : TraceEntry) :
    ∃ old, entries ++ [entry] = old ++ (e.record entry).trace ∧
      old.length = (e.record entry).dropped := by
  obtain ⟨old, rfl, hdropped⟩ := h
  unfold Engine.record
  split
  · exact ⟨old, List.append_assoc .., hdropped⟩
  · rename_i hfull
    -- the limit is positive, so a full trace has an oldest entry
    cases ht : e.trace with
    | nil =>
      have hpos := e.traceLimit_pos
      simp only [ht, List.length_nil] at hfull
      omega
    | cons oldest trace => exact ⟨old ++ [oldest], by simp, by simp [hdropped]⟩

/-- In an engine with a machine, the events posted are, by their names, those of the entries and
after them those that wait; the trace holds the latest of the entries. -/
structure Accounted (w : World (σ × List (PendingEvent π)) π) (entries : List TraceEntry) :
    Prop where
  loaded : w.engine.machine.isSome
  posted : w.host.2.map PendingEvent.name =
    entries.map TraceEntry.event ++ w.engine.queue.map PendingEvent.name
  traced : ∃ old, entries = old ++ w.engine.trace ∧ old.length = w.engine.dropped

namespace Accounted

variable {w v : World (σ × List (PendingEvent π)) π} {entries : List TraceEntry}

/-- What is posted while the engine moves on joins the queue. -/
theorem moves (hw : Accounted w entries) (h : Moves w v) : Accounted v entries := by
  obtain ⟨posted, _, _, _, _, _, hv, hrecord⟩ := h
  refine ⟨?_, ?_, ?_⟩
  · rw [hv]
    exact hw.loaded
  · simp only [hrecord, hv, List.map_append, hw.posted, List.append_assoc]
  · rw [hv]
    exact hw.traced

/-- The entry of a step takes the place of its event. -/
theorem record {ev : PendingEvent π} {rest : List (PendingEvent π)}
    (hw : Accounted w entries) (hqueue : w.engine.queue = ev :: rest)
    (hmoves : Moves { w with engine := { w.engine with queue := rest, status := .running } } v)
    {entry : TraceEntry} (hevent : entry.event = ev.name) :
    Accounted { v with engine := { v.engine with status := .ready }.record entry }
      (entries ++ [entry]) := by
  obtain ⟨posted, _, _, _, _, _, hv, hrecord⟩ := hmoves
  obtain ⟨_, _, he⟩ := Engine.exists_record_eq { v.engine with status := .ready } entry
  refine ⟨?_, ?_, ?_⟩
  · rw [he, hv]
    exact hw.loaded
  · rw [he, hv]
    simp only [hrecord, hw.posted, hqueue, hevent, List.map_append, List.map_cons, List.map_nil,
      List.append_assoc, List.cons_append, List.nil_append]
  · refine exists_append_trace_record ?_ entry
    rw [hv]
    exact hw.traced

/-- An event whose step is undone waits where it waited. -/
theorem rollBack {ev : PendingEvent π} {rest : List (PendingEvent π)}
    (hw : Accounted w entries) (hqueue : w.engine.queue = ev :: rest)
    (hmoves : Moves { w with engine := { w.engine with queue := rest, status := .running } } v) :
    Accounted { v with engine := v.engine.rollBack w.engine ev } entries := by
  obtain ⟨posted, _, _, _, _, _, hv, hrecord⟩ := hmoves
  refine ⟨?_, ?_, ?_⟩
  · rw [hv]
    exact hw.loaded
  · rw [hv]
    simp only [Engine.rollBack, hrecord, hw.posted, hqueue, List.map_append, List.map_cons,
      List.append_assoc, List.cons_append]
  · rw [hv]
    exact hw.traced

/-- An operation's own posts join the queue. -/
theorem post (hw : Accounted w entries) (posted : List (PendingEvent π)) :
    Accounted ⟨{ w.engine with queue := w.engine.queue ++ posted },
      (w.host.1, w.host.2 ++ posted)⟩ entries :=
  hw.moves ⟨posted, _, _, _, _, _, rfl, rfl⟩

end Accounted

/-! ## Steps and operations -/

/-- An entry carries the name of its event. -/
theorem event_of_dispatch (env : Environment σ π ε) (m : Definition) (ev : PendingEvent π)
    (w : World σ π) :
    Ends (Engine.dispatch env m ev) w (fun entry _ => entry.event = ev.name)
      fun _ _ => True := by
  simp only [Engine.dispatch, ends_bind, Engine.ends_update, ends_get]
  split
  · rfl
  · rw [ends_bind]
    refine (ends_self _ _).mono (fun chosen v _ => ?_) fun _ _ _ => trivial
    cases chosen with
    | none => rfl
    | some t =>
      simp only [ends_bind, Engine.ends_update, ends_get, ends_pure]
      exact (ends_self _ _).mono (fun _ _ _ => trivial) fun _ _ _ => trivial

section Operations

variable {env : Environment (σ × List (PendingEvent π)) π ε} (henv : Engine.Respects env Moves)
  {w : World (σ × List (PendingEvent π)) π} {entries : List TraceEntry}
include henv

/-- A step either gives an entry for its event or is undone. -/
theorem accounted_step (hw : Accounted w entries) :
    Ends (Engine.step env) w (fun entry v => Accounted v (entries ++ entry.toList))
      fun _ v => Accounted v entries := by
  obtain ⟨m, hm⟩ := Option.isSome_iff_exists.1 hw.loaded
  refine Engine.ends_step_of_loaded hm (fun _ => ?_) fun ev rest hq => ?_
  · rwa [Option.toList_none, List.append_nil]
  · refine ((henv.dispatch m ev _).and (event_of_dispatch env m ev _)).mono
      (fun entry v hv => ?_) fun _ v hv => ?_
    · exact hw.record hq hv.1 hv.2
    · exact hw.rollBack hq hv.1

/-- What a chronicle shows stays true over every operation but a load. -/
theorem accounted_next {c : Chronicle σ π} (hc : Accounted c.world c.entries) {op : Operation π}
    (hop : ¬ op.IsLoad) : Accounted (c.next env op).world (c.next env op).entries := by
  obtain ⟨m, hm⟩ := Option.isSome_iff_exists.1 hc.loaded
  suffices hends : Ends (op.perform env) c.world
      (fun a v => Accounted (v.withRecord (v.host.2 ++ op.posted (.ok a v)))
        (c.entries ++ op.entriesTaken env c.world))
      fun f v => Accounted (v.withRecord (v.host.2 ++ op.posted (.error f v)))
        (c.entries ++ op.entriesTaken env c.world) by
    unfold Ends at hends
    simp only [Chronicle.next, Run.after]
    cases hr : op.perform env c.world <;> simpa only [hr] using hends
  have hnone : ∀ {v : World (σ × List (PendingEvent π)) π} {entries}, Accounted v entries →
      Accounted (v.withRecord (v.host.2 ++ [])) entries := by
    intro v entries hv
    rwa [List.append_nil]
  cases op with
  | load subject => exact absurd trivial hop
  | post name payload =>
    refine ends_bind.2 (Engine.ends_postEvent_of_loaded hm ?_)
    rw [Operation.entriesTaken, List.append_nil]
    exact hc.post [⟨name, payload, none⟩]
  | step =>
    refine ends_map.2 (((accounted_step henv hc).and (ends_self _ _)).mono (fun entry v hv => ?_)
      fun f v hv => ?_)
    · simp only [Operation.entriesTaken, hv.2]
      exact hnone hv.1
    · simp only [Operation.entriesTaken, hv.2, List.append_nil]
      exact hnone hv.1
  | run most =>
    refine ends_map.2 (Engine.ends_runUntilIdle_of_loaded hm ?_)
    exact (Engine.ends_steps_taken (fun _ _ => accounted_step henv) most hc).mono
      (fun _ _ hv => hnone hv) fun _ _ hv => hnone hv
  | tick elapsed =>
    rw [Operation.entriesTaken, List.append_nil]
    refine ends_map.2 (Engine.ends_tick_of_loaded hm (fun _ => hnone hc) fun _ => ?_)
    exact hc.moves ⟨_, _, _, _, _, _, rfl, rfl⟩

theorem accounted_foldl_next {ops : List (Operation π)} (hops : ∀ op ∈ ops, ¬ op.IsLoad)
    {c : Chronicle σ π} (hc : Accounted c.world c.entries) :
    Accounted (ops.foldl (Chronicle.next env) c).world
      (ops.foldl (Chronicle.next env) c).entries := by
  induction ops generalizing c with
  | nil => exact hc
  | cons op ops ih =>
    exact ih (fun op' h => hops op' (List.mem_cons_of_mem _ h))
      (accounted_next henv hc (hops op (by simp)))

/-- What was posted during a load that succeeds waits after it. -/
theorem accounted_ofLoad {m : Definition} {w : World σ π} {actions : List String}
    {v : World (σ × List (PendingEvent π)) π}
    (hload : Engine.load env (.definition m) ⟨w.engine, (w.host, [])⟩ = .ok actions v) :
    Accounted v [] := by
  have hstart : Accounted (⟨w.engine.reset m, (w.host, [])⟩ : World _ π) [] :=
    ⟨rfl, rfl, [], rfl, rfl⟩
  have hends : Ends (Engine.enterMachine env m) ⟨w.engine, (w.host, [])⟩
      (fun _ v => Accounted v []) fun _ _ => True := by
    refine Engine.ends_enterMachine.2 ?_
    refine (henv.walk m none none _ _ _).mono (fun _ v hv => ?_) fun _ _ _ => trivial
    exact ⟨(hstart.moves hv).loaded, (hstart.moves hv).posted, (hstart.moves hv).traced⟩
  exact hends.of_ok hload

end Operations

/-- **No event is lost, duplicated or reordered**: after a load that succeeds, and any operations
but loads however they end, the events posted since the load began are, by their names, those of
the entries of all steps since and after them those that wait. The trace holds the latest of
these entries, and the world is the one that the operations lead to. -/
theorem posted_eq_processed_append_queue {h : Host σ π ε} (hh : h.Only Call.IsPostOrTick)
    (depth : Nat) (m : Definition) {w₀ w₁ : World σ π} {actions : List String}
    (hload : Engine.load (h.environment depth) (.definition m) w₀ = .ok actions w₁)
    {ops : List (Operation π)} (hops : ∀ op ∈ ops, ¬ op.IsLoad) :
    let c := Chronicle.ofOperations (h.recorded.environment depth) m w₀ ops
    c.posted.map PendingEvent.name =
        c.entries.map TraceEntry.event ++ c.world.engine.queue.map PendingEvent.name ∧
      c.entries.drop c.world.engine.dropped = c.world.engine.trace ∧
      c.world.forget = worldAfter (h.environment depth) w₁ ops := by
  have hshadows := h.shadows_recorded depth
  have henv := hh.respects_moves depth
  -- the load with the record succeeds as well, and leaves the same world
  obtain ⟨v, hv, hforget⟩ := (Forgets.load hshadows (.definition m)).exists_ok
    (w := ⟨w₀.engine, (w₀.host, [])⟩) hload
  intro c
  have hc : c = ops.foldl (Chronicle.next (h.recorded.environment depth)) ⟨v, []⟩ := by
    simp only [c, Chronicle.ofOperations, Chronicle.ofLoad, Run.after, hv]
  have haccounted : Accounted c.world c.entries := by
    rw [hc]
    exact accounted_foldl_next henv hops (accounted_ofLoad henv hv)
  refine ⟨haccounted.posted, ?_, ?_⟩
  · obtain ⟨old, hentries, hdropped⟩ := haccounted.traced
    rw [hentries, ← hdropped, List.drop_left]
  · rw [hc, Chronicle.forget_foldl_next hshadows, hforget]

/-! ## A host that jams once -/

namespace Toaster

/-- A toaster that pops a while after it was pushed. -/
def machine : Definition where
  name := "toaster"
  initial := "idle"
  states := [⟨"idle", none, [], [], none⟩, ⟨"hot", none, ["start_timer(t)", "warm"], [], none⟩]
  choices := []
  transitions := [⟨"idle", "hot", some "push", none, [], none⟩,
    ⟨"hot", "idle", some "pop", none, [], none⟩]
  timers := [⟨"t", 2, "pop", false, none⟩]
  states_nodup := by decide
  choices_nodup := List.nodup_nil

/-- A host that posts a smell and lets time pass while the toaster gets warm, and then fails
unless it has failed before. -/
def host : Host Bool Unit String where
  guard _ _ _ s := (none, s)
  act a s :=
    if a = "warm" then
      .call s (.post "smell" none) fun s _ => .call s (.tick (some 1)) fun s _ =>
        if s then .done s else .fail (.host "jammed") true
    else .done s

/-- The toaster as it is loaded. -/
def idle : World Bool Unit :=
  ⟨⟨some machine, .ready, some "idle", [], [], 0, 0, [], 1, 0, 0, Nat.one_pos⟩, false⟩

/-- The toaster is pushed, jams, is warmed, and pops. -/
def toasting : Chronicle Bool Unit :=
  Chronicle.ofOperations (host.recorded.environment 0) machine (.blank false)
    [.post "push" none, .step, .step, .tick none, .run 2]

theorem host_only_posts_or_ticks : host.Only Call.IsPostOrTick := by
  intro a s
  simp only [host]
  split
  · refine ⟨trivial, fun s _ => ⟨trivial, fun s _ => ?_⟩⟩
    dsimp only
    split <;> trivial
  · trivial

/-- The toaster's events are in its entries and its queue. -/
theorem toasting_accounted :
    toasting.posted.map PendingEvent.name =
        toasting.entries.map TraceEntry.event ++
          toasting.world.engine.queue.map PendingEvent.name ∧
      toasting.entries.drop toasting.world.engine.dropped = toasting.world.engine.trace ∧
      toasting.world.forget = worldAfter (host.environment 0) idle
        [.post "push" none, .step, .step, .tick none, .run 2] :=
  posted_eq_processed_append_queue host_only_posts_or_ticks 0 machine
    (by cbv : Engine.load (host.environment 0) (.definition machine) (.blank false) = .ok [] idle)
    (by simp [Operation.IsLoad])

example : toasting.posted.map PendingEvent.name = ["push", "smell", "smell", "pop"] := by cbv

end Toaster

end Statechart
