import Mathlib
import Statechart.Proofs.Engine.Posting

/-!
# Failed steps

A step that breaks off has left its state, armed and disarmed timers and counted before it did.
With a host that only posts, all of this is undone, and what the host has posted in the meantime
waits behind what waited before.

* `step_undone` says so of a single step, in an engine with a machine;
* `isSome_machine_worldAfter`: an engine with a machine has one after any operations;
* `failed_step_undone` puts the two together, for every world that operations lead to.
-/

namespace Statechart

variable {σ π ε : Type}

/-! ## A single step -/

/-- An engine that has moved on from its step is, rolled back, the engine before the step. -/
theorem rollBack_of_moves {w v : World (σ × List (PendingEvent π)) π} {ev : PendingEvent π}
    {rest : List (PendingEvent π)} (hqueue : w.engine.queue = ev :: rest)
    (hmoves : Moves { w with engine := { w.engine with queue := rest, status := .running } } v)
    (hclock : v.engine.clock = w.engine.clock) :
    ∃ posted, v.engine.rollBack w.engine ev =
        { w.engine with status := .ready, queue := w.engine.queue ++ posted } ∧
      v.host.2 = w.host.2 ++ posted := by
  obtain ⟨posted, _, _, _, _, clock, hv, hrecord⟩ := hmoves
  have hnow : clock = w.engine.clock := by rw [← hclock, hv]
  refine ⟨posted, ?_, hrecord⟩
  rw [hv, hqueue, hnow]
  rfl

/-- A step that breaks off leaves the engine as it was, but for what the host has posted. -/
theorem step_undone {h : Host σ π ε} (hh : h.Only Call.IsPost) (depth : Nat)
    {w : World (σ × List (PendingEvent π)) π} (hloaded : w.engine.machine.isSome) :
    Ends (Engine.step (h.recorded.environment depth)) w (fun _ _ => True) fun _ v =>
      ∃ posted, v.engine = { w.engine with
          status := .ready, queue := w.engine.queue ++ posted } ∧
        v.host.2 = w.host.2 ++ posted := by
  obtain ⟨m, hm⟩ := Option.isSome_iff_exists.1 hloaded
  refine Engine.ends_step_of_loaded hm (fun _ => trivial) fun ev rest hq => ?_
  have hmoves := (hh.mono fun _ => Call.IsPost.isPostOrTick).respects_moves depth
  have hdispatch := (hmoves.dispatch m ev _).and ((hh.respects_clock depth).dispatch m ev
    { w with engine := { w.engine with queue := rest, status := .running } })
  exact hdispatch.mono (fun _ _ _ => trivial) fun _ v hv => rollBack_of_moves hq hv.1 hv.2

/-! ## Over operations -/

/-- Over a step, a host that posts and ticks leaves the machine loaded that was loaded. -/
theorem Host.Only.respects_machine {h : Host σ π ε} (hh : h.Only Call.IsPostOrTick)
    (depth : Nat) :
    Engine.Respects (h.environment depth) fun w v => v.engine.machine = w.engine.machine where
  refl _ := rfl
  trans huv hvw := hvw.trans huv
  react a w := by
    have hmachine : ∀ v, Moves ⟨w.engine, (w.host, [])⟩ v →
        v.forget.engine.machine = w.engine.machine := by
      rintro v ⟨_, _, _, _, _, _, hv, -⟩
      rw [World.forget_engine, hv]
    have hreact := keeps_moves.react hh depth a ⟨w.engine, (w.host, [])⟩
    exact ((h.shadows_recorded depth).react a).ends
      (hreact.mono (fun _ v hv => hmachine v hv) fun _ v hv => hmachine v hv)
  guard _ _ _ _ := rfl
  progress _ _ _ _ _ := rfl

section Loaded

variable {env : Environment σ π ε}
  (henv : Engine.Respects env fun w v => v.engine.machine = w.engine.machine)
include henv

/-- However a load ends, it leaves a machine loaded. -/
theorem isSome_machine_enterMachine (m : Definition) (w : World σ π) :
    Ends (Engine.enterMachine env m) w (fun _ v => v.engine.machine.isSome)
      fun _ v => v.engine.machine.isSome := by
  refine Engine.ends_enterMachine.2 ?_
  refine (henv.walk m none none _ _ _).mono (fun _ v hv => ?_) fun _ v hv => ?_
  · simp [Engine.claim, hv, Engine.reset]
  · simp [hv, Engine.reset]

/-- An engine with a machine has one after any operation. -/
theorem keeps_loaded :
    Operation.Keeps env (fun _ => True) (fun w => w.engine.machine.isSome) (fun _ => True)
      fun _ w => w.engine.machine.isSome where
  loaded _ hw := hw
  load subject w _ hw := by
    cases subject with
    | foreign f => exact hw
    | definition m =>
      exact (isSome_machine_enterMachine henv m w).mono (fun _ _ hv => ⟨hv, trivial⟩)
        fun _ _ hv => hv
  post _ _ hw := hw
  step w hw := by
    obtain ⟨m, hm⟩ := Option.isSome_iff_exists.1 hw
    refine Engine.ends_step_of_loaded hm (fun _ => ⟨hw, by simp⟩) fun ev rest _ => ?_
    refine (henv.dispatch m ev _).mono (fun entry v hv => ?_) fun _ v hv => ?_
    · obtain ⟨_, _, he⟩ := Engine.exists_record_eq { v.engine with status := .ready } entry
      rw [he]
      simp [hv, hm]
    · simp [Engine.rollBack, hv, hm]
  tick elapsed w _ hw := by
    obtain ⟨m, hm⟩ := Option.isSome_iff_exists.1 hw
    exact Engine.ends_tick_of_loaded hm (fun _ => hw) fun _ => by simp [Engine.pass, hm]

theorem isSome_machine_worldAfter (ops : List (Operation π)) {w : World σ π}
    (hw : w.engine.machine.isSome) :
    (worldAfter env w ops).engine.machine.isSome :=
  worldAfter_keeps (P := fun w => w.engine.machine.isSome)
    (fun _ _ _ hw => (((keeps_loaded henv).ends trivial hw).mono (fun _ _ hv => hv.1)
      fun _ _ hv => hv).after) hw

end Loaded

/-- **A failed step is undone**: after a load that succeeds, and any operations however they end,
a step that breaks off leaves the engine as it was before, with the status of an engine that
waits; only the events that the host has posted during the step, here recorded, have joined the
queue, behind the event that failed and all that waited with it. -/
theorem failed_step_undone {h : Host σ π ε} (hh : h.Only Call.IsPost) (depth : Nat)
    (m : Definition) {w₀ w₁ : World σ π} {actions : List String}
    (hload : Engine.load (h.environment depth) (.definition m) w₀ = .ok actions w₁)
    (ops : List (Operation π)) {w w' : World σ π}
    (hw : w = worldAfter (h.environment depth) w₁ ops) {f : Fault ε}
    (hstep : Engine.step (h.environment depth) w = .error f w') :
    ∃ posted,
      Engine.step (h.recorded.environment depth) ⟨w.engine, (w.host, [])⟩ =
        .error f ⟨w'.engine, (w'.host, posted)⟩ ∧
      w'.engine = { w.engine with status := .ready, queue := w.engine.queue ++ posted } := by
  have hmachine := (hh.mono fun _ => Call.IsPost.isPostOrTick).respects_machine depth
  have hloaded : w.engine.machine.isSome := by
    rw [hw]
    exact isSome_machine_worldAfter hmachine ops
      ((isSome_machine_enterMachine hmachine m w₀).of_ok hload)
  have hundone := step_undone (w := ⟨w.engine, (w.host, [])⟩) hh depth hloaded
  obtain ⟨v, hv, rfl⟩ := (Forgets.step (h.shadows_recorded depth)).exists_error
    (w := ⟨w.engine, (w.host, [])⟩) hstep
  obtain ⟨posted, hengine, hrecord⟩ := hundone.of_error hv
  refine ⟨posted, ?_, hengine⟩
  rw [hv, show posted = v.host.2 from hrecord.symm]
  rfl

/-! ## A host that fails -/

namespace Kettle

/-- A kettle that shows its host when it is heated. -/
def machine : Definition where
  name := "kettle"
  initial := "cold"
  states := [⟨"cold", none, [], ["light"], none⟩, ⟨"hot", none, [], [], none⟩]
  choices := []
  transitions := [⟨"cold", "hot", some "heat", none, ["burn"], none⟩]
  timers := []
  states_nodup := by decide
  choices_nodup := List.nodup_nil

/-- A host that posts an alarm on every action, and fails when the kettle is heated. -/
def host : Host Unit Unit String where
  guard _ _ _ s := (none, s)
  act a s := .call s (.post "alarm" none) fun s _ =>
    if a = "burn" then .fail (.host "too hot") s else .done s

/-- The cold kettle, with the given events before it. -/
def cold (queue : List (PendingEvent Unit)) : World Unit Unit :=
  ⟨⟨some machine, .ready, some "cold", queue, [], 0, 0, [], 1, 0, 0, Nat.one_pos⟩, ()⟩

theorem host_only_posts : host.Only Call.IsPost := by
  intro a s
  refine ⟨trivial, fun s _ => ?_⟩
  dsimp only
  split <;> trivial

/-- The kettle is cold again when its heating fails, and the alarms wait behind the event. -/
theorem failed_heating_undone :
    ∃ posted,
      Engine.step (host.recorded.environment 0) ⟨(cold [⟨"heat", none, none⟩]).engine, ((), [])⟩ =
        .error (.host "too hot")
          ⟨(cold [⟨"heat", none, none⟩, ⟨"alarm", none, none⟩, ⟨"alarm", none, none⟩]).engine,
            ((), posted)⟩ ∧
      (cold [⟨"heat", none, none⟩, ⟨"alarm", none, none⟩, ⟨"alarm", none, none⟩]).engine =
        { (cold [⟨"heat", none, none⟩]).engine with
          status := .ready, queue := (cold [⟨"heat", none, none⟩]).engine.queue ++ posted } :=
  failed_step_undone host_only_posts 0 machine
    (by cbv : Engine.load (host.environment 0) (.definition machine) (.blank ()) = .ok [] (cold []))
    [.post "heat" none] (w := cold [⟨"heat", none, none⟩]) (by cbv) (by cbv)

end Kettle

end Statechart
