import Statechart.Engine.Basic

/-!
# Time

Time passes only by ticks. A tick advances the clock and lets every timer that falls due expire,
the earliest first and of equally due ones the first armed first. A periodic timer is then due
again one duration later, and may expire more than once in a tick; any other timer is disarmed.

Main statement: `due_le_of_nextDue`, only timers that are due expire.
-/

namespace Statechart

/-- Whether one timer expires before another. -/
def ArmedTimer.before (a b : ArmedTimer) : Bool :=
  a.due < b.due || (a.due == b.due && a.sequence < b.sequence)

/-- The timer that expires first of those due at the given time. -/
def nextDue (clock : Int) : List ArmedTimer → Option ArmedTimer
  | [] => none
  | a :: as =>
    if a.due ≤ clock then
      match nextDue clock as with
      | some b => if b.before a then some b else some a
      | none => some a
    else nextDue clock as

theorem mem_of_nextDue {clock : Int} {as : List ArmedTimer} {a : ArmedTimer}
    (h : nextDue clock as = some a) : a ∈ as := by
  induction as with
  | nil => simp [nextDue] at h
  | cons b bs ih =>
    simp only [nextDue] at h
    split at h
    · split at h
      · split at h
        · rename_i c hc _
          exact List.mem_cons_of_mem _ (ih (hc ▸ h))
        · simp_all
      · simp_all
    · exact List.mem_cons_of_mem _ (ih h)

theorem due_le_of_nextDue {clock : Int} {as : List ArmedTimer} {a : ArmedTimer}
    (h : nextDue clock as = some a) : a.due ≤ clock := by
  induction as with
  | nil => simp [nextDue] at h
  | cons b bs ih =>
    simp only [nextDue] at h
    split at h
    · split at h
      · split at h
        · rename_i c hc _
          exact ih (hc ▸ h)
        · simp_all
      · simp_all
    · exact ih h

/-- The timer as it is armed after it has expired. A period that is no positive time would not
let the clock pass, so such a timer is disarmed like one that is not periodic. -/
def ArmedTimer.renewed (a : ArmedTimer) : Option ArmedTimer :=
  if a.timer.periodic && 0 < a.timer.duration then some { a with due := a.due + a.timer.duration }
  else none

/-- The armed timers after one of them has expired. -/
def afterExpiry (a : ArmedTimer) (as : List ArmedTimer) : List ArmedTimer :=
  as.filterMap fun b => if b = a then a.renewed else some b

/-- The time up to the clock that timers still have before them. -/
def backlog (clock : Int) : List ArmedTimer → Nat
  | [] => 0
  | a :: as => (clock + 1 - a.due).toNat + backlog clock as

theorem backlog_append (clock : Int) (as bs : List ArmedTimer) :
    backlog clock (as ++ bs) = backlog clock as + backlog clock bs := by
  induction as with
  | nil => simp [backlog]
  | cons a as ih => simp [backlog, ih, Nat.add_assoc]

theorem backlog_renewed_lt {clock : Int} {a : ArmedTimer} (h : a.due ≤ clock) :
    backlog clock a.renewed.toList < backlog clock [a] := by
  unfold ArmedTimer.renewed
  split
  · rename_i hr
    simp only [Bool.and_eq_true, decide_eq_true_eq] at hr
    simp [backlog]
    omega
  · simp [backlog]
    omega

theorem afterExpiry_cons (a b : ArmedTimer) (as : List ArmedTimer) :
    afterExpiry a (b :: as) =
      (if b = a then a.renewed.toList else [b]) ++ afterExpiry a as := by
  simp only [afterExpiry, List.filterMap_cons]
  by_cases h : b = a
  · cases a.renewed <;> simp [h]
  · simp [h]

theorem backlog_afterExpiry_le {clock : Int} {a : ArmedTimer} (h : a.due ≤ clock)
    (as : List ArmedTimer) : backlog clock (afterExpiry a as) ≤ backlog clock as := by
  induction as with
  | nil => simp [afterExpiry]
  | cons b bs ih =>
    have hlt := backlog_renewed_lt h
    rw [afterExpiry_cons, backlog_append, show b :: bs = [b] ++ bs from rfl, backlog_append]
    by_cases hb : b = a
    · subst hb
      simp only [if_true]
      omega
    · simp only [hb, if_false]
      omega

theorem backlog_afterExpiry_lt {clock : Int} {a : ArmedTimer} {as : List ArmedTimer}
    (ha : a ∈ as) (h : a.due ≤ clock) : backlog clock (afterExpiry a as) < backlog clock as := by
  induction as with
  | nil => simp at ha
  | cons b bs ih =>
    have hlt := backlog_renewed_lt h
    have hle := backlog_afterExpiry_le h bs
    rw [afterExpiry_cons, backlog_append, show b :: bs = [b] ++ bs from rfl, backlog_append]
    by_cases hb : b = a
    · subst hb
      simp only [if_true]
      omega
    · have := ih ((List.mem_cons.1 ha).resolve_left (Ne.symm hb))
      simp only [hb, if_false]
      omega

/-- Lets all timers expire that are due at the given time: the timers that are armed afterwards,
and those that expired, one after the other. -/
def expire (clock : Int) (as : List ArmedTimer) : List ArmedTimer × List ArmedTimer :=
  match h : nextDue clock as with
  | none => (as, [])
  | some a =>
    have := backlog_afterExpiry_lt (mem_of_nextDue h) (due_le_of_nextDue h)
    let r := expire clock (afterExpiry a as)
    (r.1, a :: r.2)
termination_by backlog clock as

/-- The event that a timer posts when it expires. -/
def ArmedTimer.event {π : Type} (a : ArmedTimer) : PendingEvent π :=
  ⟨a.timer.event, none, some a.id⟩

namespace Engine

variable {π : Type}

/-- The time that passes in a tick for which none is given. -/
def defaultTick : Int := 1

/-- The engine after the given time has passed, and the events that its timers posted. -/
def pass (e : Engine π) (elapsed : Int) : Engine π × List (PendingEvent π) :=
  let clock := e.clock + elapsed
  let r := expire clock e.timers
  let events := r.2.map ArmedTimer.event
  ({ e with clock := clock, timers := r.1, queue := e.queue ++ events }, events)

end Engine

end Statechart
