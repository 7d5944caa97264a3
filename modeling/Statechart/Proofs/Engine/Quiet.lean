import Mathlib
import Statechart.Proofs.Engine.Completion
import Statechart.Proofs.Engine.Reentry

/-!
# Quiet hosts

A host is quiet if on every action it at most looks at the engine and changes its own state. With a
quiet host no action changes the engine, and none fails (`Environment.Quiet`). Then the events that
wait are all that will be processed: a step takes the event that waits longest, and adds none
(`ends_step_quiet`), and as many steps as events wait leave none waiting (`ends_steps_quiet`).
-/

namespace Statechart

variable {σ π ε : Type}

/-- Actions leave the engine as it is, and none fails in an engine with a machine. -/
def Environment.Quiet (env : Environment σ π ε) : Prop :=
  ∀ a w, Ends (env.react a) w (fun _ v => v.engine = w.engine)
    fun _ v => v.engine = w.engine ∧ w.engine.machine = none

/-- A host that makes no calls, and does not fail, is quiet. -/
theorem Host.Returns.quiet {h : Host σ π ε} (hreturns : h.Returns)
    (hsilent : h.Only fun _ => False) (depth : Nat) : (h.environment depth).Quiet := by
  intro a w
  have hsame : (h.environment depth).Keeps fun w v => v.engine = w.engine :=
    hsilent.keeps (fun _ _ => rfl) (fun huv hvw => hvw.trans huv) (fun _ _ _ _ hc => hc.elim) depth
  cases hm : w.engine.machine with
  | none => exact (hsame a w).mono (fun _ _ hv => hv) fun _ _ hv => ⟨hv, rfl⟩
  | some m =>
    have hposts : h.Only Call.IsPost := hsilent.mono fun _ hc => hc.elim
    exact ((hsame a w).and (hreturns.obliging hposts depth a w (by rw [hm]; rfl))).mono
      (fun _ _ hv => hv.1) fun _ _ hv => hv.2.elim

namespace Environment.Quiet

variable {env : Environment σ π ε} (henv : env.Quiet)
include henv

/-- In an engine with a machine, an action changes the state of the host only. -/
theorem exists_ok (a : String) {w : World σ π} (hm : w.engine.machine.isSome) :
    ∃ s, env.react a w = .ok () { w with host := s } := by
  have hends : Ends (env.react a) w (fun _ v => v.engine = w.engine) fun _ _ => False :=
    (henv a w).mono (fun _ _ hv => hv) fun _ _ hv => by simp [hv.2] at hm
  obtain ⟨_, ⟨e, s⟩, hr, rfl⟩ := hends.exists_ok
  exact ⟨s, hr⟩

theorem steady (m : Definition) : env.Steady m := by
  intro a w hw
  obtain ⟨s, hr⟩ := henv.exists_ok a (w := w) (by rw [hw.machine]; rfl)
  unfold Ends
  rw [hr]
  exact ⟨hw, rfl⟩

/-- Over a step, no event is posted and no time passes. -/
theorem respects : Engine.Respects env fun w v =>
    v.engine.queue = w.engine.queue ∧ v.engine.clock = w.engine.clock where
  refl _ := ⟨rfl, rfl⟩
  trans huv hvw := ⟨hvw.1.trans huv.1, hvw.2.trans huv.2⟩
  react a w := (henv a w).mono (fun _ _ hv => ⟨congrArg Engine.queue hv, congrArg Engine.clock hv⟩)
    fun _ _ hv => ⟨congrArg Engine.queue hv.1, congrArg Engine.clock hv.1⟩
  guard _ _ _ _ := ⟨rfl, rfl⟩
  progress _ _ _ _ _ := ⟨rfl, rfl⟩

end Environment.Quiet

namespace Engine

/-- With nothing done on actions, the host is quiet. -/
theorem quiet_ofGuard (guard : Guard σ π) (depth : Nat) :
    ((Host.ofGuard guard).environment depth : Environment σ π ε).Quiet :=
  Host.Returns.quiet (h := Host.ofGuard guard) (fun _ _ => trivial) (fun _ _ => trivial) depth

section Steps

variable {env : Environment σ π ε} {m : Definition} (hm : m.declaration.WellFormed)
  (henv : env.Quiet) {w : World σ π}
include hm henv

/-- A step takes the event that waits longest, and that is all. -/
theorem ends_step_quiet (hw : w.engine.AtRest m) {ev : PendingEvent π}
    {rest : List (PendingEvent π)} (hqueue : w.engine.queue = ev :: rest) :
    Ends (step env) w (fun _ v => v.engine.AtRest m ∧ v.engine.queue = rest ∧
      v.engine.clock = w.engine.clock) fun _ _ => False := by
  have hstart : AtRest m { w.engine with queue := rest, status := .running } :=
    hw.of_subset rfl rfl (List.Subset.refl _)
  refine ends_step_of_queue hw.fits.machine hqueue
    (((ends_dispatch (henv.steady m) hm ev (w := ⟨_, w.host⟩) hstart).and
      (henv.respects.dispatch m ev _)).mono (fun entry v hv => ?_) fun _ _ hb => hb.1)
  obtain ⟨_, _, he⟩ := exists_record_eq { v.engine with status := .ready } entry
  rw [he]
  exact ⟨hv.1.1.of_subset rfl rfl (List.Subset.refl _), hv.2.1, hv.2.2⟩

/-- As many steps as events wait leave none waiting. -/
theorem ends_steps_quiet (hw : w.engine.AtRest m) :
    Ends (steps env w.engine.queue.length) w (fun _ v => v.engine.AtRest m ∧
      v.engine.queue = [] ∧ v.engine.clock = w.engine.clock) fun _ _ => False := by
  generalize hqueue : w.engine.queue = queue
  induction queue generalizing w with
  | nil => exact ⟨hw, hqueue, rfl⟩
  | cons ev rest ih =>
    rw [List.length_cons, ends_steps_succ, hqueue]
    refine (ends_step_quiet hm henv hw hqueue).mono (fun _ v hv => ?_) fun _ _ hb => hb
    obtain ⟨hrest, hnext, hclock⟩ := hv
    exact (ih hrest hnext).mono (fun _ u hu => ⟨hu.1, hu.2.1, hu.2.2.trans hclock⟩)
      fun _ _ hb => hb

/-- After a load, the machine is at rest, with no event waiting and no time passed. -/
theorem ends_enterMachine_quiet (w : World σ π) :
    Ends (enterMachine env m) w (fun _ v => v.engine.AtRest m ∧ v.engine.queue = [] ∧
      v.engine.clock = 0) fun _ _ => False := by
  have hsame : Ends (enterMachine env m) w
      (fun _ v => v.engine.queue = [] ∧ v.engine.clock = 0) fun _ _ => True :=
    ends_enterMachine.2 ((henv.respects.walk m none none _ _ _).mono (fun _ _ hv => hv)
      fun _ _ _ => trivial)
  exact ((ends_enterMachine_of_wellFormed (henv.steady m) hm w).and hsame).mono
    (fun _ v hv => ⟨hv.1.1, hv.2⟩) fun _ _ hb => hb.1

end Steps

end Engine

end Statechart
