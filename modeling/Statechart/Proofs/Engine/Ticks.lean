import Mathlib
import Statechart.Proofs.Engine.Schedule

/-!
# Ticks add up

Two ticks one after the other are one tick over the whole time. The loop of the long tick first
takes the turns of the loop of the first short one: as long as a timer is due at the time between
the two, the timer that expires first of those due at the end is the one that expires first of those
due then (`nextDue_mono`). This does not need that armed timers are due after the clock. That they
are makes a tick over no time do nothing.

The invariant between operations is `Engine.Punctual`. Unlike `Engine.Owned` it holds also after
loads that break off, so it holds after operations of any kind.

Main statement: `ticks_add_up`.
-/

namespace Statechart

variable {σ π ε : Type}

/-! ## Time in parts -/

/-- What expires first of the timers due at one time expires first of those due later. -/
theorem nextDue_mono {clock clock' : Int} (hle : clock ≤ clock') {as : List ArmedTimer}
    {a : ArmedTimer} (h : nextDue clock as = some a) : nextDue clock' as = some a := by
  induction as generalizing a with
  | nil => simp [nextDue] at h
  | cons b bs ih =>
    by_cases hb : b.due ≤ clock
    · simp only [nextDue, if_pos hb] at h
      simp only [nextDue, if_pos (hb.trans hle)]
      cases hrest : nextDue clock bs with
      | some c => rwa [ih hrest, ← hrest]
      | none =>
        obtain rfl : b = a := by simpa [hrest] using h
        cases hrest' : nextDue clock' bs with
        | none => rfl
        | some c =>
          -- what has become due since is due later than what was due before
          have hc := lt_due_of_nextDue_eq_none hrest c (mem_of_nextDue hrest')
          have hlater : c.before b = false := ArmedTimer.not_before_iff.2 (.inl (by omega))
          simp [hlater]
    · simp only [nextDue, if_neg hb] at h
      have hdue := due_le_of_nextDue h
      have hfirst : a.before b = true := ArmedTimer.before_iff.2 (.inl (by omega))
      simp only [nextDue, ih h, hfirst, if_true, ite_self]

/-- The loop up to one time is the first part of the loop up to a later one. -/
theorem expire_expire {clock clock' : Int} (hle : clock ≤ clock') (as : List ArmedTimer) :
    expire clock' as = ((expire clock' (expire clock as).1).1,
      (expire clock as).2 ++ (expire clock' (expire clock as).1).2) := by
  induction as using expire.induct clock with
  | case1 as hnone => simp [expire_of_nextDue_eq_none hnone]
  | case2 as a hdue _ ih =>
    rw [expire_of_nextDue_eq_some hdue, expire_of_nextDue_eq_some (nextDue_mono hle hdue), ih]
    rfl

namespace Engine

theorem pass_add (e : Engine π) (a : Int) {b : Int} (hb : 0 ≤ b) :
    e.pass (a + b) = (((e.pass a).1.pass b).1, (e.pass a).2 ++ ((e.pass a).1.pass b).2) := by
  have hsplit := expire_expire (Int.le_add_of_nonneg_right hb : e.clock + a ≤ e.clock + a + b)
    e.timers
  simp only [pass, ← Int.add_assoc, hsplit, List.map_append, List.append_assoc]

/-- Over no time, no timer expires that is due after the clock. -/
theorem Punctual.pass_zero {m : Definition} {e : Engine π} (h : e.Punctual m) :
    e.pass 0 = (e, []) := by
  have hnothing := expire_of_forall_lt_due fun a ha => (h.due a ha).1
  simp only [Engine.pass, Int.add_zero, hnothing, List.map_nil, List.append_nil]

/-! ## Deadlines after all operations -/

section Operations

variable {env : Environment σ π ε} (henv : env.Queues) {m : Definition}
  (hm : m.declaration.WellFormed)
include henv hm

theorem upholds_punctual : Upholds env m fun w => w.engine.Punctual m where
  act a w hw := by
    refine (henv a w).mono (fun _ v hv => ?_) fun _ v hv => ?_
    · obtain ⟨posted, hv⟩ := hv
      have hv : v.engine.Punctual m := hv ▸ hw.of_sublist rfl rfl rfl (List.Sublist.refl _)
      exact hv.command hm a
    · obtain ⟨posted, hv⟩ := hv
      exact hv ▸ hw.of_sublist rfl rfl rfl (List.Sublist.refl _)
  guard _ _ _ _ hw := hw
  current _ _ hw := hw.of_sublist rfl rfl rfl (List.Sublist.refl _)
  disarm _ _ hw := hw.of_sublist rfl rfl rfl List.filter_sublist

/-- A step keeps armed timers due after the clock, also when it is undone: no time passes in it. -/
theorem ends_step_punctual {w : World σ π} (hw : w.engine.Punctual m) :
    Ends (step env) w (fun _ v => v.engine.Punctual m) fun _ v => v.engine.Punctual m := by
  refine ends_step_of_loaded hw.fits.machine (fun _ => hw) fun ev rest _ => ?_
  have hstart : Punctual m { w.engine with queue := rest, status := .running } :=
    hw.of_sublist rfl rfl rfl (List.Sublist.refl _)
  have hdispatch := (upholds_punctual henv hm).dispatch
    (fun _ _ hv => hv.of_sublist rfl rfl rfl (List.Sublist.refl _)) (fun _ hv => hv.claim) ev
    (w := ⟨_, w.host⟩) hstart
  refine (hdispatch.and (henv.respects.dispatch m ev _)).mono (fun entry v hv => ?_)
    fun _ v hv => ?_
  · obtain ⟨_, _, he⟩ := exists_record_eq { v.engine with status := .ready } entry
    rw [he]
    exact hv.1.of_sublist rfl rfl rfl (List.Sublist.refl _)
  · exact hw.of_sublist hv.2.1 hv.2.2 rfl (List.Sublist.refl _)

/-- However a load ends, the timers that it has armed are due after the clock. -/
theorem ends_enterMachine_punctual (w : World σ π) :
    Ends (enterMachine env m) w (fun _ v => v.engine.Punctual m)
      fun _ v => v.engine.Punctual m := by
  have hempty : (w.engine.reset m).Punctual m :=
    ⟨⟨rfl, by simp [reset, fresh]⟩, by simp [reset, fresh], by simp [reset, fresh],
      by simp [reset, fresh]⟩
  rw [ends_enterMachine]
  refine ((upholds_punctual henv hm).walk none none _ _ (w := ⟨_, w.host⟩) hempty).mono
    (fun _ v hv => ?_) fun _ v hv => ?_
  · exact hv.claim.of_sublist rfl rfl rfl (List.Sublist.refl _)
  · exact hv.of_sublist rfl rfl rfl (List.Sublist.refl _)

end Operations

/-- Every operation but a load keeps armed timers due after the clock, however it ends. -/
theorem keeps_punctual {env : Environment σ π ε} (henv : env.Queues) {m : Definition}
    (hm : m.declaration.WellFormed) :
    Operation.Keeps env (fun op => ¬ op.IsLoad) (fun w => w.engine.Punctual m) (fun _ => True)
      fun _ w => w.engine.Punctual m where
  loaded _ hw := by rw [hw.fits.machine]; rfl
  load _ _ hload _ := absurd trivial hload
  post _ _ hw := hw.of_sublist rfl rfl rfl (List.Sublist.refl _)
  step _ hw := (ends_step_punctual henv hm hw).mono (fun _ _ hv => ⟨hv, fun _ _ => trivial⟩)
    fun _ _ hv => hv
  tick _ _ _ hw := ends_tick_of_loaded hw.fits.machine (fun _ => hw) fun helapsed =>
    hw.pass helapsed

end Engine

/-- **Ticks add up**: after a load of an accepted machine and any operations, among them loads of
accepted machines, however they all end, with a host that only posts, let two times pass that are
not negative. One after the other they give the events and leave the world that the whole time does
at once, and over no time nothing expires and nothing changes. -/
theorem ticks_add_up {m : Definition} (hm : m.Accepted) {h : Host σ π ε} (hh : h.Only Call.IsPost)
    (depth : Nat) {ops : List (Operation π)}
    (hops : ∀ m', .load (.definition m') ∈ ops → m'.Accepted) {w₀ w : World σ π}
    (hw : w = worldAfter (h.environment depth) w₀ (.load (.definition m) :: ops)) {a b : Int}
    (ha : 0 ≤ a) (hb : 0 ≤ b) :
    (∃ events events' v v',
      (Engine.tick (some a) : Run σ π ε _) w = .ok events v ∧
        (Engine.tick (some b) : Run σ π ε _) v = .ok events' v' ∧
        (Engine.tick (some (a + b)) : Run σ π ε _) w = .ok (events ++ events') v') ∧
      (Engine.tick (some 0) : Run σ π ε _) w = .ok [] w := by
  have henv := hh.queues depth
  obtain ⟨m', -, hpunctual⟩ : ∃ m' : Definition, m'.Accepted ∧ w.engine.Punctual m' :=
    hw ▸ exists_worldAfter_of_loads
      (fun _ v hm => Engine.ends_enterMachine_punctual henv hm.wellFormed v)
      (fun _ hm => Engine.keeps_punctual henv hm.wellFormed) hm hops w₀
  have hloaded := hpunctual.fits.machine
  have hsum := Engine.pass_add w.engine a hb
  refine ⟨⟨(w.engine.pass a).2, ((w.engine.pass a).1.pass b).2, ⟨(w.engine.pass a).1, w.host⟩,
    ⟨((w.engine.pass a).1.pass b).1, w.host⟩, ?_, ?_, ?_⟩, ?_⟩
  · rw [Engine.tick_of_loaded hloaded, if_neg (Int.not_lt.2 ha)]
  · rw [Engine.tick_of_loaded (w := ⟨(w.engine.pass a).1, w.host⟩) hloaded,
      if_neg (Int.not_lt.2 hb)]
  · rw [Engine.tick_of_loaded hloaded, if_neg (Int.not_lt.2 (Int.add_nonneg ha hb)), hsum]
  · rw [Engine.tick_of_loaded hloaded, if_neg (Int.lt_irrefl 0), hpunctual.pass_zero]

/-! ## A lighthouse -/

namespace Lighthouse

/-- A lighthouse that flashes again and again, and sounds its horn once in fog. -/
def machine : Definition where
  name := "lighthouse"
  initial := "clear"
  states := [⟨"clear", none, [], [], none⟩,
    ⟨"fog", none, ["start_timer(flash)", "report", "start_timer(horn)"], [], none⟩]
  choices := []
  transitions := [⟨"clear", "fog", some "mist", none, [], none⟩]
  timers := [⟨"flash", 3, "light", true, none⟩, ⟨"horn", 6, "sound", false, none⟩]
  states_nodup := by decide
  choices_nodup := List.nodup_nil

/-- A host that reports to the harbour, which calls back. -/
def host : Host Unit Unit String where
  guard _ _ _ s := (none, s)
  act a s := if a = "report" then .call s (.post "call" none) fun s _ => .done s else .done s

theorem host_only_posts : host.Only Call.IsPost := by
  intro a s
  simp only [host]
  split
  · exact ⟨trivial, fun _ _ => trivial⟩
  · trivial

theorem accepted : machine.Accepted :=
  .of_wellFormed ((Validation.errors_eq_nil_iff _).1 (by cbv))

/-- The lighthouse in the fog, with its timers, the time, and the events that wait. -/
def foggy (queue : List (PendingEvent Unit)) (timers : List ArmedTimer) (clock : Int) :
    World Unit Unit :=
  ⟨⟨some machine, .ready, some "fog", queue, timers, 2, clock,
    [⟨1, some "clear", some "fog", "mist", ["start_timer(flash)", "report", "start_timer(horn)"],
      .transition, [some "clear", some "fog"]⟩], 1, 1, 0, Nat.one_pos⟩, ()⟩

/-- The flash, due at the given time. -/
def flash (due : Int) : ArmedTimer := ⟨⟨"flash", 3, "light", true, none⟩, due, 1, some "fog"⟩

/-- The event of the flash. -/
def light : PendingEvent Unit := ⟨"light", none, some "flash"⟩

/-- The event of the horn. -/
def sound : PendingEvent Unit := ⟨"sound", none, some "horn"⟩

/-- The lighthouse when the fog has come. -/
def start : World Unit Unit :=
  foggy [⟨"call", none, none⟩]
    [flash 3, ⟨⟨"horn", 6, "sound", false, none⟩, 6, 2, some "fog"⟩] 0

/-- At the sixth unit the lighthouse flashes for the second time and sounds its horn, whether the
tick ends there or not. -/
theorem lighthouse_keeps_time :
    (Engine.tick (some (6 + 1)) : Run Unit Unit String _) start =
        .ok [light, light, sound]
          (foggy [⟨"call", none, none⟩, light, light, sound] [flash 9] 7) ∧
      (Engine.tick (some 0) : Run Unit Unit String _) start = .ok [] start := by
  obtain ⟨⟨events, events', v, v', hfirst, hsecond, hboth⟩, hzero⟩ :=
    ticks_add_up accepted host_only_posts 0 (by simp)
      (by cbv : start = worldAfter (host.environment 0) (.blank ())
        [.load (.definition machine), .post "mist" none, .load (.foreign .nothing), .step])
      (by decide : (0 : Int) ≤ 6) (by decide : (0 : Int) ≤ 1)
  have hsix : (Engine.tick (some 6) : Run Unit Unit String _) start = .ok [light, light, sound]
      (foggy [⟨"call", none, none⟩, light, light, sound] [flash 9] 6) := by cbv
  obtain ⟨rfl, rfl⟩ : events = _ ∧ v = _ := by simpa using hfirst.symm.trans hsix
  have hseven : (Engine.tick (some 1) : Run Unit Unit String _)
      (foggy [⟨"call", none, none⟩, light, light, sound] [flash 9] 6) =
        .ok [] (foggy [⟨"call", none, none⟩, light, light, sound] [flash 9] 7) := by cbv
  obtain ⟨rfl, rfl⟩ : events' = _ ∧ v' = _ := by simpa using hsecond.symm.trans hseven
  exact ⟨hboth, hzero⟩

end Lighthouse

end Statechart
