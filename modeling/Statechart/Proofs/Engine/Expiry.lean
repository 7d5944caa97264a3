import Statechart.Engine.Clock

/-!
# The loop of a tick

`Expiry` is the loop in which timers expire, as it runs without the care that `expire` takes: the
timer that is due first is looked up in the machine, and is due again one period later whatever
this period is. There is no result where the loop comes upon a timer that the machine does not
know, and none where it does not end.

Main statement: `expiry_expire`, as long as the armed timers are timers of the machine and last
some time, the loop ends with what `expire` gives.
-/

namespace Statechart

/-! ## What expires, one timer after the other -/

theorem expire_of_nextDue_eq_none {clock : Int} {as : List ArmedTimer}
    (h : nextDue clock as = none) : expire clock as = (as, []) := by
  rw [expire]
  split
  · rfl
  · simp_all

theorem expire_of_nextDue_eq_some {clock : Int} {as : List ArmedTimer} {a : ArmedTimer}
    (h : nextDue clock as = some a) :
    expire clock as = ((expire clock (afterExpiry a as)).1,
      a :: (expire clock (afterExpiry a as)).2) := by
  rw [expire]
  split
  · simp_all
  · rename_i a' ha'
    obtain rfl : a = a' := by simpa [h] using ha'
    rfl

/-- What stays the same of a timer while it is armed. -/
def ArmedTimer.identity (a : ArmedTimer) : Timer × Nat × Option String :=
  (a.timer, a.sequence, a.owner)

theorem sublist_afterExpiry (a : ArmedTimer) (as : List ArmedTimer) :
    ((afterExpiry a as).map ArmedTimer.identity).Sublist (as.map ArmedTimer.identity) := by
  induction as with
  | nil => exact List.Sublist.refl _
  | cons b bs ih =>
    rw [afterExpiry_cons, List.map_append, List.map_cons]
    by_cases hb : b = a
    · subst hb
      have hrenewed : (b.renewed.toList.map ArmedTimer.identity).Sublist [b.identity] := by
        unfold ArmedTimer.renewed
        split
        · exact List.Sublist.refl _
        · exact List.nil_sublist _
      simpa using hrenewed.append ih
    · simpa [hb] using ih.cons_cons b.identity

theorem sublist_expire (clock : Int) (as : List ArmedTimer) :
    ((expire clock as).1.map ArmedTimer.identity).Sublist (as.map ArmedTimer.identity) := by
  induction as using expire.induct clock with
  | case1 as hnone =>
    simp [expire_of_nextDue_eq_none hnone]
  | case2 as a hdue _ ih =>
    rw [expire_of_nextDue_eq_some hdue]
    exact ih.trans (sublist_afterExpiry a as)

/-! ## The loop without care -/

/-- The armed timers after one of them has expired, given the timer it is in the machine. -/
def rearm (t : Timer) (a : ArmedTimer) (as : List ArmedTimer) : List ArmedTimer :=
  as.filterMap fun b =>
    if b = a then if t.periodic then some { a with due := a.due + t.duration } else none
    else some b

/-- The loop ends, with the timers that are armed afterwards and those that expired. -/
inductive Expiry (m : Definition) (clock : Int) :
    List ArmedTimer → List ArmedTimer → List ArmedTimer → Prop
  | idle {as : List ArmedTimer} (hnone : nextDue clock as = none) : Expiry m clock as as []
  | fire {as as' fired : List ArmedTimer} {a : ArmedTimer} {t : Timer}
    (hdue : nextDue clock as = some a) (htimer : m.timer? a.id = some t)
    (hrest : Expiry m clock (rearm t a as) as' fired) : Expiry m clock as as' (a :: fired)

/-- The armed timer is the machine's timer of its identifier, and lasts some time. -/
def ArmedTimer.Of (m : Definition) (a : ArmedTimer) : Prop :=
  m.timer? a.id = some a.timer ∧ 0 < a.timer.duration

theorem rearm_eq_afterExpiry {a : ArmedTimer} (h : 0 < a.timer.duration) (as : List ArmedTimer) :
    rearm a.timer a as = afterExpiry a as := by
  simp [rearm, afterExpiry, ArmedTimer.renewed, h]

/-- Timers of the machine are armed anew as timers of the machine. -/
theorem ArmedTimer.Of.afterExpiry {m : Definition} {a : ArmedTimer} {as : List ArmedTimer}
    (ha : a ∈ as) (has : ∀ b ∈ as, b.Of m) : ∀ b ∈ afterExpiry a as, b.Of m := by
  intro b hb
  obtain ⟨b', hb', hsome⟩ := List.mem_filterMap.1 hb
  split at hsome
  · unfold ArmedTimer.renewed at hsome
    split at hsome
    · obtain rfl := Option.some_inj.1 hsome
      exact has a ha
    · simp at hsome
  · obtain rfl := Option.some_inj.1 hsome
    exact has b' hb'

/-- **The loop of a tick ends**, and with what `expire` gives. -/
theorem expiry_expire {m : Definition} (clock : Int) {as : List ArmedTimer}
    (has : ∀ a ∈ as, a.Of m) :
    Expiry m clock as (expire clock as).1 (expire clock as).2 ∧
      ∀ a ∈ (expire clock as).1, a.Of m := by
  induction as using expire.induct clock with
  | case1 as hnone =>
    rw [expire_of_nextDue_eq_none hnone]
    exact ⟨.idle hnone, has⟩
  | case2 as a hdue _ ih =>
    have ih' := ih (ArmedTimer.Of.afterExpiry (mem_of_nextDue hdue) has)
    have ha := has a (mem_of_nextDue hdue)
    rw [expire_of_nextDue_eq_some hdue]
    refine ⟨.fire hdue ha.1 ?_, ih'.2⟩
    rw [rearm_eq_afterExpiry ha.2]
    exact ih'.1

end Statechart
