import Mathlib
import Statechart.Proofs.Engine.Reentry

/-!
# Failed loads

A load that breaks off is not undone as a step is: the engine waits for events with the machine
where the load has left it. What becomes of it from there depends on where this is.

* Between two states the machine is stranded. No event finds a transition, whatever follows, until
  a machine is loaded again.
* In a state, it goes on as if it had been loaded, but that timers armed before the state was
  entered have no owner until a step takes a transition.

So a machine is whole after all loads, also those that fail, if no completion transition leaves its
initial state: then a load runs the entry actions of this state only, and is in it while it does
(`ends_enterMachine_whole`).

Main statement: `stranded_or_settled_after_load`.
-/

namespace Statechart

open Engine

variable {σ π ε : Type}

/-! ## Loads that stay in the initial state -/

section Stays

variable {h : Host σ π ε} (hh : h.Only Call.IsPostOrTick) (depth : Nat)
include hh

/-- On an action, a host that posts and ticks leaves the machine where it is. -/
theorem Host.Only.stays :
    (h.environment depth).Keeps fun w v =>
      v.engine.machine = w.engine.machine ∧ w.engine.Stays v.engine := by
  have hsame : ∀ w : World σ π, w.engine.Stays w.engine :=
    fun _ => .of_subset rfl (List.Subset.refl _)
  refine Host.Only.keeps (fun w _ => ⟨rfl, hsame w⟩)
    (fun huv hvw => ⟨hvw.1.trans huv.1, huv.2.trans hvw.2⟩) (fun env _ c w hc => ?_) hh depth
  cases c with
  | post name payload =>
    rw [Call.run, ends_bind, ends_postEvent]
    split
    · exact ⟨rfl, .of_subset rfl (List.Subset.refl _)⟩
    · exact ⟨rfl, hsame w⟩
  | tick elapsed =>
    rw [Call.run, ends_map, ends_tick]
    split
    · exact ⟨rfl, hsame w⟩
    · split
      · exact ⟨rfl, hsame w⟩
      · exact ⟨rfl, stays_pass w.engine _⟩
  | _ => exact hc.elim

theorem ends_perform_stays (m : Definition) (actions : List String) (w : World σ π) :
    Ends (perform (h.environment depth) m actions) w
      (fun _ v => v.engine.machine = w.engine.machine ∧ w.engine.Stays v.engine)
      fun _ v => v.engine.machine = w.engine.machine ∧ w.engine.Stays v.engine := by
  induction actions generalizing w with
  | nil => exact ⟨rfl, .of_subset rfl (List.Subset.refl _)⟩
  | cons a as ih =>
    simp only [perform, ends_bind, ends_update]
    refine (hh.stays depth a w).mono (fun _ v hv => ?_) fun _ _ hv => hv
    have hcommand := hv.2.trans (stays_command m a v.engine)
    obtain ⟨_, _, hc⟩ := exists_command_eq m a v.engine
    have hmachine : (command m a v.engine).machine = w.engine.machine := by rw [hc, hv.1]
    exact (ih ⟨command m a v.engine, v.host⟩).mono
      (fun _ _ hu => ⟨hu.1.trans hmachine, hcommand.trans hu.2⟩)
      fun _ _ hu => ⟨hu.1.trans hmachine, hcommand.trans hu.2⟩

/-- Where no completion transition leaves the initial state, the machine is whole after a load,
however this ends. -/
theorem ends_enterMachine_whole {m : Definition} (hm : m.declaration.WellFormed)
    (hrest : m.completionsFrom m.initial = []) (w : World σ π) :
    Ends (enterMachine (h.environment depth) m) w (fun _ v => v.engine.Whole m)
      fun _ v => v.engine.Whole m := by
  obtain ⟨marker, hmarker, hinitial⟩ := hm.initial
  obtain rfl : (⟨m.initial, none⟩ : InitialMarker) = marker := by
    simpa [Definition.declaration] using hmarker
  obtain ⟨s, -, hstate⟩ := m.exists_state?_of_mem hinitial
  have hin : Whole m { w.engine.reset m with current := some m.initial } :=
    ⟨⟨m.initial, hinitial, rfl⟩, by simp [reset, fresh]⟩
  rw [ends_enterMachine, walk_enter_of_notMem _ none none (by simp [Progress.start])]
  simp only [ends_bind, ends_update, hstate]
  refine (ends_perform_stays hh depth m s.entry ⟨_, w.host⟩).mono (fun _ v hv => ?_)
    fun _ _ hv => (hv.2.whole hin).of_eq rfl rfl
  have hcurrent : v.engine.current = some m.initial := hv.2.current
  have hwhole := hv.2.whole hin
  have hclaim : v.engine.claim.timers = v.engine.timers := by
    refine List.map_congr_left (fun a ha => ?_) |>.trans (List.map_id _)
    simp [hwhole.owner a ha, hcurrent]
  rw [walk]
  simp only [ends_bind, ends_get, hcurrent]
  refine ends_choose (fun s => ?_) fun t ht => ?_
  · exact hwhole.of_eq rfl hclaim
  · simp [hrest] at ht

end Stays

/-! ## Operations after a load -/

/-- **After a load the machine is in a state or stranded**: however a load of an accepted machine
ends, with a host that loads no machine, and whatever operations but loads follow, the engine waits
with the machine. If the load succeeds, the machine stays in its states and the current one owns all
armed timers. If the load breaks off in a state, the machine stays in its states, and what the
current one does not own has no owner; in both cases each step leads from a state to one. If it
breaks off between two states, the machine stays there, and each step is stranded. The first case is
also that of a load that breaks off where the host does not step and no completion transition leaves
the initial state. -/
theorem stranded_or_settled_after_load {m : Definition} (hm : m.Accepted) {h : Host σ π ε}
    (hh : h.Only Call.NoLoad) (depth : Nat) {w₀ w₁ : World σ π}
    (hload : w₁ = (Engine.load (h.environment depth) (.definition m)).after w₀)
    {ops : List (Operation π)} (hops : ∀ op ∈ ops, ¬ op.IsLoad) :
    let w := worldAfter (h.environment depth) w₁ ops
    let entries := entriesAfter (h.environment depth) w₁ ops
    w.engine.machine = some m ∧ w.engine.status = .ready ∧
      ((∃ actions, Engine.load (h.environment depth) (.definition m) w₀ = .ok actions w₁) →
        w.engine.Whole m) ∧
      (h.Only Call.IsPostOrTick → m.completionsFrom m.initial = [] → w.engine.Whole m) ∧
      (w₁.engine.current.isSome → w.engine.Settled m ∧ ∀ entry ∈ entries, entry.Placed m) ∧
      (w₁.engine.current = none → w.engine.current = none ∧
        ∀ entry ∈ entries, entry.Stranded) := by
  intro w entries
  have hwf := hm.wellFormed
  have henv := Host.Only.carries hwf hh depth
  have hends := ends_enterMachine_handed henv hwf w₀
  have hfair : w₁.engine.Fair m := by
    rw [hload]
    exact (hends.mono (fun _ _ hv => hv.2) fun _ _ hv => hv).after
  have hready : w₁.engine.status = .ready := by
    rw [hload]
    exact (ends_enterMachine_ready _ m w₀).after
  have hwhole : w₁.engine.Whole m → w.engine.Whole m := fun hw₁ =>
    ((lasts_whole henv hwf).worldAfter hops ⟨hfair, hready, hw₁⟩).1.2.2
  have hkept := ((lasts_of_carried henv hwf (P := fun _ => True) (Q := fun _ => True)
    (fun _ _ _ _ => trivial) fun _ _ _ _ => trivial).worldAfter hops
      ⟨hfair, hready, trivial⟩).1
  refine ⟨hkept.1.machine, hkept.2.1, ?_, ?_, fun hsome => ?_, fun hnone => ?_⟩
  · rintro ⟨actions, hok⟩
    exact hwhole (hends.of_ok hok).1
  · intro honly hrest
    refine hwhole ?_
    rw [hload]
    exact (ends_enterMachine_whole honly depth hwf hrest w₀).after
  · have hlast := (lasts_settled henv hwf).worldAfter hops ⟨hfair, hready, hfair.settled hsome⟩
    exact ⟨hlast.1.2.2, hlast.2⟩
  · have hlast := (lasts_stranded henv hwf).worldAfter hops ⟨hfair, hready, hnone⟩
    exact ⟨hlast.1.2.2, hlast.2⟩

/-! ## A latch that sticks -/

namespace Latch

/-- A latch that is lifted, and then falls by itself. -/
def machine : Definition where
  name := "latch"
  initial := "lifted"
  states := [⟨"lifted", none, ["click()"], [], none⟩, ⟨"down", none, ["click()"], [], none⟩]
  choices := []
  transitions := [⟨"lifted", "down", none, none, ["start_timer(t)", "fall()"], none⟩,
    ⟨"down", "lifted", some "lift", none, [], none⟩]
  timers := [⟨"t", 3, "lift", false, none⟩]
  states_nodup := by decide
  choices_nodup := List.nodup_nil

/-- A host that fails when the latch falls. -/
def host : Host Unit Unit String where
  guard _ _ _ s := (none, s)
  act a s := if a = "fall()" then .fail (.host "stuck") s else .done s

theorem host_only {allowed : Call Unit → Prop} : host.Only allowed := by
  intro a s
  simp only [host]
  split <;> trivial

theorem accepted : machine.Accepted :=
  .of_wellFormed ((Validation.errors_eq_nil_iff _).1 (by cbv))

/-- The latch that has stuck in its fall. -/
def stuck : World Unit Unit :=
  ⟨⟨some machine, .ready, none, [], [⟨⟨"t", 3, "lift", false, none⟩, 3, 1, none⟩], 1, 0, [], 1, 0,
    0, Nat.one_pos⟩, ()⟩

/-- A latch that has stuck in its fall is in no state, and will never be lifted. -/
theorem latch_stranded :
    (worldAfter (host.environment 0) stuck [.tick (some 3), .step]).engine.current = none ∧
      ∀ entry ∈ entriesAfter (host.environment 0) stuck [.tick (some 3), .step],
        entry.Stranded :=
  (stranded_or_settled_after_load accepted host_only 0
    (by cbv : stuck =
      (Engine.load (host.environment 0) (.definition machine)).after (.blank ()))
    (by simp [Operation.IsLoad])).2.2.2.2.2 rfl

/-- A load that fails can leave an engine that waits with a machine in no state. Then the entry of a
step leads from no state to none. -/
theorem load_fails_between_states :
    ∃ f v, Engine.load (host.environment 0) (.definition machine) (.blank ()) =
        .error f v ∧ v.engine.status = .ready ∧ v.engine.current = none ∧
      ∃ entry ∈ entriesAfter (host.environment 0) v [.tick (some 3), .step],
        entry.source = none ∧ entry.target = none := by
  have hentries : entriesAfter (host.environment 0) stuck [.tick (some 3), .step] =
      [⟨1, none, none, "lift", [], .unmatched, [none]⟩] := by cbv
  exact ⟨.host "stuck", stuck, by cbv, rfl, rfl, _, hentries ▸ List.mem_singleton_self _, rfl, rfl⟩

end Latch

end Statechart
