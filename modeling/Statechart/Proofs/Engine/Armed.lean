import Mathlib
import Statechart.Proofs.Engine.Completion
import Statechart.Proofs.Engine.Rollback

/-!
# Armed timers

Between operations, the armed timers of an accepted machine all belong to its current state, and
each is due after the clock but no later than its duration from now (`Engine.Owned`). This needs
a host that only posts, and bears steps that are undone.

Within a step a timer belongs to what is the current state when it is armed: to the state entered
last, or to none between two states. Leaving a state disarms its timers after its exit actions
have run. So once a state has been left, all that is armed was armed by the step itself
(`ArmedTimer.By`), and at most the state it has entered last or no state owns it. `Midway` says
so stage by stage, and `stages_midway` carries it through a walk.

Main statement: `armed_timers_owned`.
-/

namespace Statechart

variable {σ π ε : Type}

/-! ## Hosts that post or fail -/

/-- On an action, however it ends, the engine only gets more events. -/
def Environment.Queues (env : Environment σ π ε) : Prop :=
  ∀ a w, Ends (env.react a) w
    (fun _ v => ∃ posted, v.engine = { w.engine with queue := w.engine.queue ++ posted })
    fun _ v => ∃ posted, v.engine = { w.engine with queue := w.engine.queue ++ posted }

theorem Host.Only.queues {h : Host σ π ε} (hh : h.Only Call.IsPost) (depth : Nat) :
    (h.environment depth).Queues := by
  intro a w
  have hposts := hh.posts depth a ⟨w.engine, (w.host, [])⟩
  refine ((h.shadows_recorded depth).react a).ends (w := ⟨w.engine, (w.host, [])⟩)
    (hposts.mono (fun _ v hv => ?_) fun _ v hv => ?_)
  · obtain ⟨posted, hv, -⟩ := hv
    exact ⟨posted, hv⟩
  · obtain ⟨posted, hv, -⟩ := hv
    exact ⟨posted, hv⟩

/-- Over a step, the machine stays loaded and no time passes. -/
theorem Environment.Queues.respects {env : Environment σ π ε} (henv : env.Queues) :
    Engine.Respects env fun w v =>
      v.engine.machine = w.engine.machine ∧ v.engine.clock = w.engine.clock where
  refl _ := ⟨rfl, rfl⟩
  trans huv hvw := ⟨hvw.1.trans huv.1, hvw.2.trans huv.2⟩
  react a w := by
    refine (henv a w).mono (fun _ v hv => ?_) fun _ v hv => ?_
    · obtain ⟨posted, hv⟩ := hv
      simp [hv]
    · obtain ⟨posted, hv⟩ := hv
      simp [hv]
  guard _ _ _ _ := ⟨rfl, rfl⟩
  progress _ _ _ _ _ := ⟨rfl, rfl⟩

/-! ## Timers that expire -/

theorem lt_due_of_nextDue_eq_none {clock : Int} {as : List ArmedTimer}
    (h : nextDue clock as = none) : ∀ a ∈ as, clock < a.due := by
  induction as with
  | nil => simp
  | cons b bs ih =>
    by_cases hb : b.due ≤ clock
    · simp only [nextDue, hb, if_true] at h
      split at h
      · split at h <;> simp at h
      · simp at h
    · simp only [nextDue, hb, if_false] at h
      rintro a (_ | ⟨_, ha⟩)
      · exact Int.not_le.1 hb
      · exact ih h a ha

theorem lt_due_expire (clock : Int) (as : List ArmedTimer) :
    ∀ a ∈ (expire clock as).1, clock < a.due := by
  induction as using expire.induct clock with
  | case1 as hnone =>
    rw [expire_of_nextDue_eq_none hnone]
    exact lt_due_of_nextDue_eq_none hnone
  | case2 as a hdue _ ih =>
    rw [expire_of_nextDue_eq_some hdue]
    exact ih

theorem expire_of_forall_lt_due {clock : Int} {as : List ArmedTimer}
    (has : ∀ a ∈ as, clock < a.due) : expire clock as = (as, []) := by
  refine expire_of_nextDue_eq_none ?_
  cases hdue : nextDue clock as with
  | none => rfl
  | some a =>
    have hlt := has a (mem_of_nextDue hdue)
    have hle := due_le_of_nextDue hdue
    omega

/-- The timer is due within its duration. -/
def ArmedTimer.Within (clock : Int) (a : ArmedTimer) : Prop := a.due ≤ clock + a.timer.duration

theorem within_afterExpiry {clock : Int} {a : ArmedTimer} {as : List ArmedTimer}
    (hdue : a.due ≤ clock) (has : ∀ b ∈ as, b.Within clock) :
    ∀ b ∈ afterExpiry a as, b.Within clock := by
  intro b hb
  obtain ⟨c, hc, hsome⟩ := List.mem_filterMap.1 hb
  split at hsome
  · unfold ArmedTimer.renewed at hsome
    split at hsome
    · obtain rfl := Option.some_inj.1 hsome
      simpa [ArmedTimer.Within] using hdue
    · simp at hsome
  · obtain rfl := Option.some_inj.1 hsome
    exact has c hc

theorem within_expire {clock : Int} {as : List ArmedTimer} (has : ∀ a ∈ as, a.Within clock) :
    ∀ a ∈ (expire clock as).1, a.Within clock := by
  induction as using expire.induct clock with
  | case1 as hnone =>
    rw [expire_of_nextDue_eq_none hnone]
    exact has
  | case2 as a hdue _ ih =>
    rw [expire_of_nextDue_eq_some hdue]
    exact ih (within_afterExpiry (due_le_of_nextDue hdue) has)

/-- What is armed after a tick is due later, and within its duration. -/
theorem due_expire {clock : Int} {as : List ArmedTimer} (has : ∀ a ∈ as, a.Within clock) :
    ∀ a ∈ (expire clock as).1, clock < a.due ∧ a.Within clock :=
  fun a ha => ⟨lt_due_expire clock as a ha, within_expire has a ha⟩

namespace Engine

/-! ## Deadlines -/

/-- The armed timers are timers of the machine, due after the clock and within their durations.
No two have the same number in the order of arming, and none a number that is still to come. -/
structure Punctual (m : Definition) (e : Engine π) : Prop where
  fits : e.Fits m
  due : ∀ a ∈ e.timers, e.clock < a.due ∧ a.Within e.clock
  nodup : (e.timers.map ArmedTimer.sequence).Nodup
  counted : ∀ a ∈ e.timers, a.sequence ≤ e.timerSequence

theorem Punctual.of_sublist {m : Definition} {e e' : Engine π} (h : e.Punctual m)
    (hmachine : e'.machine = e.machine) (hclock : e'.clock = e.clock)
    (hcount : e'.timerSequence = e.timerSequence) (htimers : e'.timers.Sublist e.timers) :
    e'.Punctual m where
  fits := h.fits.of_subset hmachine htimers.subset
  due a ha := hclock ▸ h.due a (htimers.subset ha)
  nodup := h.nodup.sublist (htimers.map _)
  counted a ha := hcount ▸ h.counted a (htimers.subset ha)

theorem nodup_sequence_putByKey {armed : ArmedTimer} {as : List ArmedTimer}
    (has : (as.map ArmedTimer.sequence).Nodup) (hnew : ∀ a ∈ as, a.sequence < armed.sequence) :
    ((putByKey ArmedTimer.id armed as).map ArmedTimer.sequence).Nodup := by
  induction as with
  | nil => simp [putByKey]
  | cons b bs ih =>
    rw [List.map_cons, List.nodup_cons] at has
    have hbs := ih has.2 fun a ha => hnew a (List.mem_cons_of_mem _ ha)
    simp only [putByKey]
    split
    · refine List.nodup_cons.2 ⟨fun hmem => ?_, has.2⟩
      obtain ⟨a, ha, hseq⟩ := List.mem_map.1 hmem
      exact absurd hseq (Nat.ne_of_lt (hnew a (List.mem_cons_of_mem _ ha)))
    · refine List.nodup_cons.2 ⟨fun hmem => ?_, hbs⟩
      obtain ⟨a, ha, hseq⟩ := List.mem_map.1 hmem
      rcases mem_putByKey ha with rfl | ha
      · exact absurd hseq.symm (Nat.ne_of_lt (hnew b (List.mem_cons_self ..)))
      · exact has.1 (hseq ▸ List.mem_map_of_mem ha)

theorem Punctual.arm {m : Definition} {e : Engine π} (h : e.Punctual m) {t : Timer}
    (hfits : (e.arm t).Fits m) (ht : 0 < t.duration) : (e.arm t).Punctual m where
  fits := hfits
  due a ha := by
    rcases mem_putByKey ha with rfl | ha
    · exact ⟨Int.lt_add_of_pos_right _ ht, Int.le_refl _⟩
    · exact h.due a ha
  nodup := nodup_sequence_putByKey h.nodup fun a ha => Nat.lt_succ_of_le (h.counted a ha)
  counted a ha := by
    rcases mem_putByKey ha with rfl | ha
    · exact Nat.le_refl _
    · exact Nat.le_succ_of_le (h.counted a ha)

theorem Punctual.command {m : Definition} (hm : m.declaration.WellFormed) {e : Engine π}
    (h : e.Punctual m) (a : String) : (command m a e).Punctual m := by
  have hfits := h.fits.command hm a
  unfold Engine.command at hfits ⊢
  split at hfits
  · split at hfits
    · rename_i ht
      exact h.arm hfits (hm.duration_pos _ (List.mem_of_find?_eq_some ht))
    · exact h
  · exact h.of_sublist rfl rfl rfl List.filter_sublist
  · exact h

theorem Punctual.claim {m : Definition} {e : Engine π} (h : e.Punctual m) :
    e.claim.Punctual m where
  fits := h.fits.claim
  due a ha := by
    obtain ⟨b, hb, rfl⟩ := List.mem_map.1 ha
    have hdue := h.due b hb
    split <;> exact hdue
  nodup := by
    have hsame : e.claim.timers.map ArmedTimer.sequence = e.timers.map ArmedTimer.sequence := by
      simp only [Engine.claim, List.map_map]
      refine List.map_congr_left fun a _ => ?_
      simp only [Function.comp_apply]
      split <;> rfl
    rw [hsame]
    exact h.nodup
  counted a ha := by
    obtain ⟨b, hb, rfl⟩ := List.mem_map.1 ha
    have hcounted := h.counted b hb
    split <;> exact hcounted

theorem Punctual.pass {m : Definition} {e : Engine π} (h : e.Punctual m) {elapsed : Int}
    (helapsed : 0 ≤ elapsed) : (e.pass elapsed).1.Punctual m where
  fits := ⟨h.fits.machine, (expiry_expire _ h.fits.timers).2⟩
  due := due_expire fun a ha => by
    have hwithin := (h.due a ha).2
    unfold ArmedTimer.Within at hwithin ⊢
    omega
  nodup := by
    have hsub := (sublist_expire (e.clock + elapsed) e.timers).map fun i => i.2.1
    simp only [List.map_map] at hsub
    exact h.nodup.sublist hsub
  counted a ha := by
    obtain ⟨b, hb, hsame⟩ :=
      List.mem_map.1 ((sublist_expire _ _).subset (List.mem_map_of_mem ha))
    have hseq : b.sequence = a.sequence := congrArg (fun i => i.2.1) hsame
    exact hseq ▸ h.counted b hb

/-! ## Within a step -/

end Engine

/-- The timer was armed by one of the actions, at the given time, and with more timers armed
before it than the given number. -/
structure ArmedTimer.By (actions : List String) (clock : Int) (count : Nat) (a : ArmedTimer) :
    Prop where
  action : ∃ x ∈ actions, TimerCommand.ofAction? x = some (.start a.id)
  due : a.due = clock + a.timer.duration
  later : count < a.sequence

theorem ArmedTimer.By.mono {actions actions' : List String} {clock : Int} {count : Nat}
    {a : ArmedTimer} (h : a.By actions clock count) (hsub : actions ⊆ actions') :
    a.By actions' clock count := by
  obtain ⟨x, hx, hstart⟩ := h.action
  exact ⟨⟨x, hsub hx, hstart⟩, h.due, h.later⟩

namespace Engine

/-- A step is under way that began at the given time and with the given number of timers armed
before it. -/
structure Stepping (m : Definition) (clock : Int) (count : Nat) (e : Engine π) : Prop where
  punctual : e.Punctual m
  clock_eq : e.clock = clock
  count_le : count ≤ e.timerSequence

variable {m : Definition} {clock : Int} {count : Nat}

theorem Stepping.of_sublist {e e' : Engine π} (h : e.Stepping m clock count)
    (hmachine : e'.machine = e.machine) (hclock : e'.clock = e.clock)
    (hcount : e'.timerSequence = e.timerSequence) (htimers : e'.timers.Sublist e.timers) :
    e'.Stepping m clock count :=
  ⟨h.punctual.of_sublist hmachine hclock hcount htimers, hclock.trans h.clock_eq,
    hcount ▸ h.count_le⟩

/-- A timer command arms for the current state, and otherwise leaves armed what was armed. -/
theorem Stepping.command (hm : m.declaration.WellFormed) {e : Engine π}
    (h : e.Stepping m clock count) (x : String) :
    (command m x e).Stepping m clock count ∧ ∀ a ∈ (Engine.command m x e).timers,
      a ∈ e.timers ∨ a.owner = e.current ∧ a.By [x] clock count := by
  have hpunctual := h.punctual.command hm x
  unfold Engine.command at hpunctual ⊢
  split at hpunctual
  · rename_i id hx
    split at hpunctual
    · rename_i t ht
      have hid : t.id = id := by simpa using List.find?_some ht
      refine ⟨⟨hpunctual, h.clock_eq, Nat.le_succ_of_le h.count_le⟩, fun a ha => ?_⟩
      rcases mem_putByKey ha with rfl | ha
      · refine .inr ⟨rfl, ⟨x, by simp, ?_⟩, ?_, Nat.lt_succ_of_le h.count_le⟩
        · rw [hx, ← hid]
          rfl
        · rw [← h.clock_eq]
      · exact .inl ha
    · exact ⟨h, fun a ha => .inl ha⟩
  · exact ⟨⟨hpunctual, h.clock_eq, h.count_le⟩, fun a ha => .inl (List.mem_of_mem_filter ha)⟩
  · exact ⟨h, fun a ha => .inl ha⟩

section Walk

variable {env : Environment σ π ε} (henv : env.Queues) (hm : m.declaration.WellFormed)
include henv hm

/-- What actions arm belongs to the state in which they are run. -/
theorem ends_perform_armed (actions : List String) {P : ArmedTimer → Prop} {w : World σ π}
    (hw : w.engine.Stepping m clock count) (hP : ∀ a ∈ w.engine.timers, P a) :
    Ends (perform env m actions) w
      (fun _ v => v.engine.Stepping m clock count ∧ v.engine.current = w.engine.current ∧
        ∀ a ∈ v.engine.timers, P a ∨ a.owner = w.engine.current ∧ a.By actions clock count)
      fun _ _ => True := by
  induction actions generalizing P w with
  | nil => exact ⟨hw, rfl, fun a ha => .inl (hP a ha)⟩
  | cons x xs ih =>
    simp only [perform, ends_bind, ends_update]
    refine (henv x w).mono (fun _ v hv => ?_) fun _ _ _ => trivial
    obtain ⟨posted, hv⟩ := hv
    have hshown : v.engine.Stepping m clock count := by
      refine hw.of_sublist ?_ ?_ ?_ ?_
      all_goals rw [hv]
    obtain ⟨hstep, harmed⟩ := hshown.command hm x
    have hcurrent : (command m x v.engine).current = w.engine.current := by
      rw [current_command, hv]
    -- what the first action has armed counts as armed before the others
    have hfirst : ∀ a ∈ (command m x v.engine).timers,
        P a ∨ a.owner = w.engine.current ∧ a.By [x] clock count := by
      intro a ha
      refine (harmed a ha).imp (fun ha => hP a ?_) fun ha => ?_
      · rwa [hv] at ha
      · rwa [hv] at ha
    refine (ih (w := ⟨command m x v.engine, v.host⟩) hstep hfirst).mono
      (fun _ u hu => ⟨hu.1, hu.2.1.trans hcurrent, fun a ha => ?_⟩) fun _ _ _ => trivial
    rcases hu.2.2 a ha with (hold | ⟨howner, hby⟩) | ⟨howner, hby⟩
    · exact .inl hold
    · exact .inr ⟨howner, hby.mono (by simp)⟩
    · exact .inr ⟨howner.trans hcurrent, hby.mono (List.subset_cons_self ..)⟩

/-- After a state has been left, no state owns what is armed, and the step has armed it. -/
theorem ends_leave_armed {state : String} {ran : List String} {w : World σ π}
    (hw : w.engine.Stepping m clock count)
    (howned : ∀ a ∈ w.engine.timers,
      a.owner = some state ∨ a.owner = none ∧ a.By ran clock count) :
    Ends (leave env m state) w
      (fun exits v => v.engine.Stepping m clock count ∧ v.engine.current = none ∧
        ∀ a ∈ v.engine.timers, a.owner = none ∧ a.By (ran ++ exits) clock count)
      fun _ _ => True := by
  simp only [leave, ends_bind, ends_update]
  split
  · trivial
  · rename_i s _
    simp only [ends_bind, ends_update, ends_pure]
    refine (ends_perform_armed henv hm s.exit (w := ⟨{ w.engine with current := none }, w.host⟩)
      (hw.of_sublist rfl rfl rfl (List.Sublist.refl _)) howned).mono
      (fun _ v hv => ⟨hv.1.of_sublist rfl rfl rfl List.filter_sublist, hv.2.1, ?_⟩)
      fun _ _ _ => trivial
    intro a ha
    obtain ⟨ha, hother⟩ := List.mem_filter.1 ha
    rcases hv.2.2 a ha with (howner | ⟨howner, hby⟩) | ⟨howner, hby⟩
    · simp [howner] at hother
    · exact ⟨howner, hby.mono (List.subset_append_left ..)⟩
    · exact ⟨howner, hby.mono (List.subset_append_right ..)⟩

end Walk

/-- What a stage of a step is met with. Before a state is left, what it does not own was armed by
the step; after that, the step has armed all there is, for no state or for the one entered last. -/
structure Midway (m : Definition) (clock : Int) (count : Nat) (phase : Phase) (p : Progress)
    (w : World σ π) : Prop where
  stepping : w.engine.Stepping m clock count
  owners :
    match phase with
    | .take state _ => ∀ a ∈ w.engine.timers,
      a.owner = some state ∨ a.owner = none ∧ a.By p.executed clock count
    | .resolve _ | .enter _ => w.engine.current = none ∧ ∀ a ∈ w.engine.timers,
      a.owner = none ∧ a.By p.executed clock count
    | .settle => (∃ state ∈ m.declaration.stateIds, w.engine.current = some state) ∧
      ∀ a ∈ w.engine.timers,
        (a.owner = none ∨ a.owner = w.engine.current) ∧ a.By p.executed clock count

/-- Actions that are run between two states arm for no state. -/
theorem ends_perform_midway {env : Environment σ π ε} (henv : env.Queues)
    (hm : m.declaration.WellFormed) (actions : List String) {ran : List String} {w : World σ π}
    (hw : w.engine.Stepping m clock count) (hcurrent : w.engine.current = none)
    (howned : ∀ a ∈ w.engine.timers, a.owner = none ∧ a.By ran clock count) :
    Ends (perform env m actions) w
      (fun _ v => v.engine.Stepping m clock count ∧ v.engine.current = none ∧
        ∀ a ∈ v.engine.timers, a.owner = none ∧ a.By (ran ++ actions) clock count)
      fun _ _ => True := by
  refine (ends_perform_armed henv hm actions hw howned).mono
    (fun _ v hv => ⟨hv.1, hv.2.1.trans hcurrent, fun a ha => ?_⟩) fun _ _ _ => trivial
  rcases hv.2.2 a ha with ⟨howner, hby⟩ | ⟨howner, hby⟩
  · exact ⟨howner, hby.mono (List.subset_append_left ..)⟩
  · exact ⟨howner.trans hcurrent, hby.mono (List.subset_append_right ..)⟩

/-- **A walk hands the timers on**: where it ends, the machine is in a declared state, and what
is armed was armed on the way, for that state or between two states. -/
theorem stages_midway {env : Environment σ π ε} (henv : env.Queues)
    (hm : m.declaration.WellFormed) (event : Option String) (payload : Option π) :
    Stages env m event payload (Midway m clock count) (Midway m clock count .settle)
      fun _ _ => True := by
  constructor
  case take =>
    rintro state t p w ⟨hstep, howned⟩
    refine (ends_leave_armed henv hm hstep howned).mono (fun exits v hv => ?_) fun _ _ _ => trivial
    refine (ends_perform_midway henv hm t.actions hv.1 hv.2.1 hv.2.2).mono
      (fun _ u hu => ⟨hu.1, hu.2.1, fun a ha => ?_⟩) fun _ _ _ => trivial
    simpa [Progress.run] using hu.2.2 a ha
  case arrive => exact fun _ _ _ _ hw => ⟨hw.stepping, hw.owners⟩
  case rechoose => exact fun _ _ _ _ _ _ => trivial
  case choose =>
    rintro target p w c - - ⟨hstep, hcurrent, howned⟩
    have hbranch : ∀ (b : Branch) (s : σ), Ends (perform env m b.actions) { w with host := s }
        (fun _ v => Midway m clock count (.resolve b.target) ((p.visit target).run b.actions) v)
        fun _ _ => True := fun b s =>
      (ends_perform_midway henv hm b.actions (w := { w with host := s }) hstep hcurrent
        howned).mono (fun _ v hv => ⟨hv.1, hv.2⟩) fun _ _ _ => trivial
    refine ends_choose (fun s => ?_) fun b _ s => hbranch b s
    rw [Option.none_or]
    cases c.default? with
    | none => trivial
    | some b => exact hbranch b s
  case reenter => exact fun _ _ _ _ _ => trivial
  case enter =>
    rintro state p w - ⟨hstep, -, howned⟩
    cases hs : m.state? state with
    | none => trivial
    | some s =>
      have hid : s.id = state := by simpa using List.find?_some hs
      have hmem : state ∈ m.declaration.stateIds :=
        List.mem_map.2 ⟨s, List.mem_of_find?_eq_some hs, hid⟩
      refine (ends_perform_armed henv hm s.entry
        (w := ⟨{ w.engine with current := some state }, w.host⟩)
        (hstep.of_sublist rfl rfl rfl (List.Sublist.refl _)) howned).mono
        (fun _ v hv => ⟨hv.1, ⟨state, hmem, hv.2.1⟩, fun a ha => ?_⟩) fun _ _ _ => trivial
      rcases hv.2.2 a ha with ⟨howner, hby⟩ | ⟨howner, hby⟩
      · exact ⟨.inl howner, hby.mono (List.subset_append_left ..)⟩
      · exact ⟨.inr (howner.trans hv.2.1.symm), hby.mono (List.subset_append_right ..)⟩
  case settle =>
    rintro p w ⟨hstep, ⟨state, hmem, hcurrent⟩, howned⟩
    rw [hcurrent]
    refine ends_choose (fun s => ⟨hstep, ⟨state, hmem, hcurrent⟩, howned⟩) fun t _ s =>
      ⟨hstep, fun a ha => ?_⟩
    obtain ⟨howner, hby⟩ := howned a ha
    rw [hcurrent] at howner
    exact howner.symm.imp_right fun howner => ⟨howner, hby⟩

/-! ## Operations -/

/-- Between operations, the machine is in one of its states, which owns all armed timers; these
are timers of the machine, due after the clock and within their durations, and their numbers in
the order of arming are distinct and counted. -/
structure Owned (m : Definition) (e : Engine π) : Prop where
  punctual : e.Punctual m
  current : ∃ state ∈ m.declaration.stateIds, e.current = some state
  owner : ∀ a ∈ e.timers, a.owner = e.current

theorem Owned.of_eq {e e' : Engine π} (h : e.Owned m) (hmachine : e'.machine = e.machine)
    (hcurrent : e'.current = e.current) (hclock : e'.clock = e.clock)
    (hcount : e'.timerSequence = e.timerSequence) (htimers : e'.timers = e.timers) :
    e'.Owned m where
  punctual := h.punctual.of_sublist hmachine hclock hcount (htimers ▸ List.Sublist.refl _)
  current := hcurrent ▸ h.current
  owner a ha := hcurrent ▸ h.owner a (htimers ▸ ha)

/-- Where a walk has ended, its timers are claimed by the state it has ended in. -/
theorem Midway.claim {p : Progress} {w : World σ π} (h : Midway m clock count .settle p w) :
    w.engine.claim.Owned m ∧ ∀ a ∈ w.engine.claim.timers, a.By p.executed clock count := by
  obtain ⟨hstep, hcurrent, howned⟩ := h
  refine ⟨⟨hstep.punctual.claim, hcurrent, fun a ha => ?_⟩, fun a ha => ?_⟩
  · obtain ⟨b, hb, rfl⟩ := List.mem_map.1 ha
    split
    · rfl
    · rename_i hsome
      exact (howned b hb).1.resolve_left hsome
  · obtain ⟨b, hb, rfl⟩ := List.mem_map.1 ha
    obtain ⟨haction, hdue, hlater⟩ := (howned b hb).2
    split <;> exact ⟨haction, hdue, hlater⟩

section Operations

variable {env : Environment σ π ε} (henv : env.Queues) (hm : m.declaration.WellFormed)
include henv hm

theorem ends_dispatch_owned (ev : PendingEvent π) {w : World σ π} (hw : w.engine.Owned m) :
    Ends (dispatch env m ev) w
      (fun entry v => v.engine.Owned m ∧ (entry.outcome = .transition → ∀ a ∈ v.engine.timers,
        a.By entry.actions w.engine.clock w.engine.timerSequence))
      fun _ _ => True := by
  have hrest : Owned m { w.engine with sequence := w.engine.sequence + 1 } :=
    hw.of_eq rfl rfl rfl rfl rfl
  simp only [dispatch, ends_bind, ends_update, ends_get]
  split
  · exact ⟨hrest, by simp⟩
  · rename_i state hcurrent
    rw [ends_bind]
    refine ends_choose (fun s => ⟨hrest, by simp⟩) fun t _ s => ?_
    simp only [ends_bind, ends_update, ends_get, ends_pure]
    have hstart : Midway m w.engine.clock w.engine.timerSequence (.take state t) (.start [state])
        (⟨{ w.engine with sequence := w.engine.sequence + 1 }, s⟩ : World σ π) :=
      ⟨⟨hrest.punctual, rfl, Nat.le_refl _⟩, fun a ha => .inl ((hrest.owner a ha).trans hcurrent)⟩
    exact ((stages_midway henv hm (some ev.name) ev.payload).ends _ _ hstart).mono
      (fun p v hv => ⟨hv.claim.1, fun _ => hv.claim.2⟩) fun _ _ _ => trivial

/-- A step keeps the timers owned, also when it is undone, and arms all there is if it takes a
transition. -/
theorem ends_step_owned {w : World σ π} (hw : w.engine.Owned m) :
    Ends (step env) w
      (fun entry v => v.engine.Owned m ∧ ∀ x ∈ entry, x.outcome = .transition →
        ∀ a ∈ v.engine.timers, a.By x.actions w.engine.clock w.engine.timerSequence)
      fun _ v => v.engine.Owned m := by
  refine ends_step_of_loaded hw.punctual.fits.machine (fun _ => ⟨hw, by simp⟩) fun ev rest _ => ?_
  have hstart : Owned m { w.engine with queue := rest, status := .running } :=
    hw.of_eq rfl rfl rfl rfl rfl
  refine ((ends_dispatch_owned henv hm ev (w := ⟨_, w.host⟩) hstart).and
    (henv.respects.dispatch m ev _)).mono (fun entry v hv => ?_) fun _ v hv => ?_
  · obtain ⟨_, _, he⟩ := exists_record_eq { v.engine with status := .ready } entry
    rw [he]
    exact ⟨hv.1.1.of_eq rfl rfl rfl rfl rfl, by simpa using hv.1.2⟩
  · exact hw.of_eq hv.2.1 rfl hv.2.2 rfl rfl

/-- A load that succeeds leaves the timers owned. -/
theorem ends_enterMachine_owned (w : World σ π) :
    Ends (enterMachine env m) w (fun _ v => v.engine.Owned m) fun _ _ => True := by
  have hempty : Punctual m (w.engine.reset m) :=
    ⟨⟨rfl, by simp [reset, fresh]⟩, by simp [reset, fresh], by simp [reset, fresh],
      by simp [reset, fresh]⟩
  have hstart : Midway m 0 0 (.enter m.initial) (.start [])
      ({ w with engine := w.engine.reset m } : World σ π) :=
    ⟨⟨hempty, rfl, Nat.zero_le _⟩, rfl, by simp [reset, fresh]⟩
  rw [ends_enterMachine]
  exact ((stages_midway henv hm none none).ends _ _ hstart).mono
    (fun p v hv => hv.claim.1.of_eq rfl rfl rfl rfl rfl) fun _ _ _ => trivial

/-- Every operation but a load keeps the timers owned, however it ends. -/
theorem keeps_owned :
    Operation.Keeps env (fun op => ¬ op.IsLoad) (fun w => w.engine.Owned m) (fun _ => True)
      fun _ w => w.engine.Owned m where
  loaded _ hw := by rw [hw.punctual.fits.machine]; rfl
  load _ _ hload _ := absurd trivial hload
  post _ _ hw := hw.of_eq rfl rfl rfl rfl rfl
  step _ hw := (ends_step_owned henv hm hw).mono (fun _ _ hv => ⟨hv.1, fun _ _ => trivial⟩)
    fun _ _ hv => hv
  tick elapsed w _ hw := by
    refine ends_tick_of_loaded hw.punctual.fits.machine (fun _ => hw) fun helapsed => ?_
    refine ⟨hw.punctual.pass helapsed, hw.current, fun a ha => ?_⟩
    obtain ⟨b, hb, hsame⟩ :=
      List.mem_map.1 ((sublist_expire _ _).subset (List.mem_map_of_mem ha))
    have howner : b.owner = a.owner := congrArg (fun i => i.2.2) hsame
    exact howner ▸ hw.owner b hb

end Operations

end Engine

/-- **Armed timers belong to the current state**: after a load of an accepted machine that
succeeds, and any operations but loads however they end, with a host that only posts, the machine
is in one of its states, which owns all armed timers, and these are its own, due after the clock
and within their durations, with distinct numbers in the order of arming. If a step from there
takes a transition, every timer that is armed after it was started by an action of that step. -/
theorem armed_timers_owned {m : Definition} (hm : m.Accepted) {h : Host σ π ε}
    (hh : h.Only Call.IsPost) (depth : Nat) {w₀ w₁ : World σ π} {actions : List String}
    (hload : Engine.load (h.environment depth) (.definition m) w₀ = .ok actions w₁)
    (ops : List (Operation π)) (hops : ∀ op ∈ ops, ¬ op.IsLoad) {w : World σ π}
    (hw : w = worldAfter (h.environment depth) w₁ ops) :
    w.engine.Owned m ∧
      ∀ entry w', Engine.step (h.environment depth) w = .ok (some entry) w' →
        entry.outcome = .transition → ∀ a ∈ w'.engine.timers,
          a.By entry.actions w.engine.clock w.engine.timerSequence := by
  have hwf := hm.wellFormed
  have henv := hh.queues depth
  have hloaded : w₁.engine.Owned m := (Engine.ends_enterMachine_owned henv hwf w₀).of_ok hload
  have howned : w.engine.Owned m := by
    rw [hw]
    exact worldAfter_keeps (P := fun w => w.engine.Owned m)
      (fun op hop w hw => (((Engine.keeps_owned henv hwf).ends (hops op hop) hw).mono
        (fun _ _ hv => hv.1) fun _ _ hv => hv).after) hloaded
  exact ⟨howned, fun entry w' hstep => by
    simpa using ((Engine.ends_step_owned henv hwf howned).of_ok hstep).2⟩

/-! ## A kiln -/

namespace Kiln

/-- A kiln that smokes from the moment it is lit, and is looked after while it fires. -/
def machine : Definition where
  name := "kiln"
  initial := "cold"
  states := [⟨"cold", none, [], [], none⟩,
    ⟨"firing", none, ["start_timer(care)", "bell"], ["stop_timer(smoke)"], none⟩]
  choices := []
  transitions := [⟨"cold", "firing", some "light", none, ["start_timer(smoke)"], none⟩,
    ⟨"firing", "firing", some "feed", some "full", [], none⟩]
  timers := [⟨"smoke", 9, "clear", false, none⟩, ⟨"care", 2, "feed", true, none⟩]
  states_nodup := by decide
  choices_nodup := List.nodup_nil

/-- A host whose bell calls for fuel and jams the first time it is rung. -/
def host : Host Bool Unit String where
  guard _ _ _ s := (some s, s)
  act a s :=
    if a = "bell" then
      .call s (.post "feed" none) fun s _ => if s then .done s else .fail (.host "jammed") true
    else .done s

theorem host_only_posts : host.Only Call.IsPost := by
  intro a s
  simp only [host]
  split
  · refine ⟨trivial, fun s _ => ?_⟩
    dsimp only
    split <;> trivial
  · trivial

theorem accepted : machine.Accepted :=
  .of_wellFormed ((Validation.errors_eq_nil_iff _).1 (by cbv))

/-- The kiln, cold or firing, with its timers, those armed so far, the time, and the entries. -/
def kiln (state : String) (queue : List (PendingEvent Unit)) (timers : List ArmedTimer)
    (count : Nat) (clock : Int) (trace : List TraceEntry) (jammed : Bool) : World Bool Unit :=
  ⟨⟨some machine, .ready, some state, queue, timers, count, clock, trace, 1, trace.length, 0,
    Nat.one_pos⟩, jammed⟩

/-- The entry of lighting the kiln. -/
def lighting : TraceEntry :=
  ⟨1, some "cold", some "firing", "light", ["start_timer(smoke)", "start_timer(care)", "bell"],
    .transition, [some "cold", some "firing"]⟩

/-- The kiln does not catch at first. Lit again four units later, it has both timers armed. -/
theorem kiln_owns_timers :
    (kiln "cold" [⟨"light", none, none⟩, ⟨"feed", none, none⟩] [] 0 4 [] true).engine.Owned
        machine ∧
      ∀ a ∈ [(⟨⟨"smoke", 9, "clear", false, none⟩, 13, 1, some "firing"⟩ : ArmedTimer),
        ⟨⟨"care", 2, "feed", true, none⟩, 6, 2, some "firing"⟩],
        a.By lighting.actions 4 0 := by
  have howned := armed_timers_owned accepted host_only_posts 0
    (by cbv : Engine.load (host.environment 0) (.definition machine) (.blank false) =
      .ok [] (kiln "cold" [] [] 0 0 [] false))
    [.post "light" none, .step, .tick (some 4)] (by simp [Operation.IsLoad])
    (w := kiln "cold" [⟨"light", none, none⟩, ⟨"feed", none, none⟩] [] 0 4 [] true) (by cbv)
  exact ⟨howned.1, howned.2 lighting
    (kiln "firing" [⟨"feed", none, none⟩, ⟨"feed", none, none⟩]
      [⟨⟨"smoke", 9, "clear", false, none⟩, 13, 1, some "firing"⟩,
        ⟨⟨"care", 2, "feed", true, none⟩, 6, 2, some "firing"⟩] 2 4 [lighting] true)
    (by cbv) rfl⟩

end Kiln

end Statechart
