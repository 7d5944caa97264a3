import Mathlib
import Statechart.Proofs.Engine.Armed

/-!
# The schedule of a tick

`expire` looks for the timer that is due first again and again, while periodic timers come back
into the list. What it gives can be written down without the loop. A timer that is not periodic
expires once, when it is due; a periodic one at the times `due`, `due + duration` and so on as far
as the clock has got (`ArmedTimer.turn`, `ArmedTimer.turns`). The `schedule` has all expirations of
all timers, sorted by the time and then by the order of arming, and a timer is left armed for its
first turn after the clock (`ArmedTimer.remainder`).

One pass of the loop takes the first expiration off the schedule and changes nothing of the rest
(`perm_expirations`, `before_of_mem_expirations`); `expire_eq_schedule` follows by induction on the
loop.

Main statement: `tick_follows_schedule`.
-/

namespace Statechart

variable {σ π ε : Type} {clock : Int} {a b : ArmedTimer} {as : List ArmedTimer}

namespace ArmedTimer

/-! ## The turns of a timer -/

/-- The timer as it is armed after the given number of periods. -/
def turn (a : ArmedTimer) (n : Nat) : ArmedTimer := { a with due := a.due + n * a.timer.duration }

/-- How often the timer expires as the clock gets to the given time. -/
def turns (clock : Int) (a : ArmedTimer) : Nat :=
  if clock < a.due then 0
  else if a.timer.periodic then ((clock - a.due) / a.timer.duration).toNat + 1
  else 1

/-- The expirations of the timer as the clock gets to the given time, each as it was armed then. -/
def expirations (clock : Int) (a : ArmedTimer) : List ArmedTimer :=
  (List.range (a.turns clock)).map a.turn

/-- The timer as it is armed when the clock has got to the given time. -/
def remainder (clock : Int) (a : ArmedTimer) : Option ArmedTimer :=
  if clock < a.due ∨ a.timer.periodic then some (a.turn (a.turns clock)) else none

@[simp] theorem turn_zero (a : ArmedTimer) : a.turn 0 = a := by simp [turn]

theorem turn_turn (a : ArmedTimer) (i j : Nat) : (a.turn i).turn j = a.turn (i + j) := by
  simp only [turn, ArmedTimer.mk.injEq, Nat.cast_add, and_true, true_and]
  ring

theorem due_le_due_turn (h : 0 < a.timer.duration) (n : Nat) : a.due ≤ (a.turn n).due :=
  Int.le_add_of_nonneg_right (Int.mul_nonneg (Int.natCast_nonneg n) (Int.le_of_lt h))

theorem renewed_of_lasting (h : 0 < a.timer.duration) :
    a.renewed = if a.timer.periodic then some (a.turn 1) else none := by
  simp [renewed, turn, h]

theorem turns_of_lt (h : clock < a.due) : a.turns clock = 0 := if_pos h

/-- A periodic timer expires on those of its turns that the clock gets to. -/
theorem lt_turns_iff (h : 0 < a.timer.duration) (hperiodic : a.timer.periodic) (n : Nat) :
    n < a.turns clock ↔ (a.turn n).due ≤ clock := by
  by_cases hlt : clock < a.due
  · have hturn := due_le_due_turn h n
    rw [turns_of_lt hlt]
    omega
  · have hspan : 0 ≤ (clock - a.due) / a.timer.duration := Int.ediv_nonneg (by omega) (by omega)
    have hfit : (n : Int) ≤ (clock - a.due) / a.timer.duration ↔
        n * a.timer.duration ≤ clock - a.due := Int.le_ediv_iff_mul_le h
    simp only [turns, turn, if_neg hlt, hperiodic, if_true]
    omega

/-- Once it has expired, a periodic timer has one turn less before it. -/
theorem turns_of_due (h : 0 < a.timer.duration) (hperiodic : a.timer.periodic)
    (hdue : a.due ≤ clock) : a.turns clock = (a.turn 1).turns clock + 1 := by
  have hnext : ∀ n, n < (a.turn 1).turns clock ↔ n + 1 < a.turns clock := fun n => by
    rw [lt_turns_iff h hperiodic, lt_turns_iff (a := a.turn 1) h hperiodic, turn_turn,
      Nat.add_comm]
  have hfirst : 0 < a.turns clock := (lt_turns_iff h hperiodic 0).2 (by simpa using hdue)
  have hlower := hnext ((a.turn 1).turns clock)
  have hupper := hnext (a.turns clock - 1)
  omega

/-- A timer that is due expires, and what it is renewed to has the rest of its expirations. -/
theorem expirations_of_due (h : 0 < a.timer.duration) (hdue : a.due ≤ clock) :
    a.expirations clock = a :: a.renewed.toList.flatMap (expirations clock) := by
  rw [renewed_of_lasting h, expirations]
  by_cases hperiodic : a.timer.periodic
  · rw [turns_of_due h hperiodic hdue, List.range_succ_eq_map]
    simp [hperiodic, expirations, turn_turn, Function.comp_def, Nat.add_comm]
  · simp [turns, hperiodic, Int.not_lt.2 hdue]

theorem remainder_of_due (h : 0 < a.timer.duration) (hdue : a.due ≤ clock) :
    a.remainder clock = a.renewed.bind (remainder clock) := by
  rw [renewed_of_lasting h]
  by_cases hperiodic : a.timer.periodic
  · have hsame : (a.turn 1).timer.periodic = true := hperiodic
    simp only [remainder, hperiodic, hsame, or_true, if_true, Option.bind_some,
      turns_of_due h hperiodic hdue, turn_turn, Nat.add_comm]
  · simp [remainder, hperiodic, Int.not_lt.2 hdue]

/-! ## The order of expirations -/

theorem before_iff : a.before b ↔ a.due < b.due ∨ a.due = b.due ∧ a.sequence < b.sequence := by
  simp [before]

theorem not_before_iff :
    a.before b = false ↔ b.due < a.due ∨ b.due = a.due ∧ b.sequence ≤ a.sequence := by
  rw [← Bool.not_eq_true, before_iff]
  omega

end ArmedTimer

/-- No timer that is due comes before the one that expires first. -/
theorem not_before_of_nextDue (h : nextDue clock as = some a) :
    ∀ b ∈ as, b.due ≤ clock → b.before a = false := by
  induction as generalizing a with
  | nil => simp
  | cons c cs ih =>
    simp only [nextDue] at h
    by_cases hc : c.due ≤ clock
    · rw [if_pos hc] at h
      cases hrest : nextDue clock cs with
      | none =>
        obtain rfl : c = a := by simpa [hrest] using h
        rintro b (_ | ⟨_, hb⟩) hdue
        · exact ArmedTimer.not_before_iff.2 (by omega)
        · exact absurd hdue (Int.not_le.2 (lt_due_of_nextDue_eq_none hrest b hb))
      | some first =>
        have hleast := ih hrest
        simp only [hrest] at h
        cases hfirst : first.before c with
        | true =>
          obtain rfl : first = a := by simpa [hfirst] using h
          rintro b (_ | ⟨_, hb⟩) hdue
          · have := ArmedTimer.before_iff.1 hfirst
            exact ArmedTimer.not_before_iff.2 (by omega)
          · exact hleast b hb hdue
        | false =>
          obtain rfl : c = a := by simpa [hfirst] using h
          rintro b (_ | ⟨_, hb⟩) hdue
          · exact ArmedTimer.not_before_iff.2 (by omega)
          · have hb := ArmedTimer.not_before_iff.1 (hleast b hb hdue)
            have hc := ArmedTimer.not_before_iff.1 hfirst
            exact ArmedTimer.not_before_iff.2 (by omega)
    · rw [if_neg hc] at h
      rintro b (_ | ⟨_, hb⟩) hdue
      · exact absurd hdue hc
      · exact ih h b hb hdue

/-! ## One expiration -/

/-- What a tick can rely on: timers differ in their numbers, and last some time. -/
structure Scheduled (as : List ArmedTimer) : Prop where
  distinct : (as.map ArmedTimer.sequence).Nodup
  lasting : ∀ a ∈ as, 0 < a.timer.duration

theorem Scheduled.renew (h : Scheduled as) : Scheduled (afterExpiry a as) := by
  have hsub := sublist_afterExpiry a as
  refine ⟨?_, fun b hb => ?_⟩
  · have hsequences := hsub.map fun i => i.2.1
    simp only [List.map_map] at hsequences
    exact h.distinct.sublist hsequences
  · obtain ⟨c, hc, hsame⟩ := List.mem_map.1 (hsub.subset (List.mem_map_of_mem hb))
    have htimer : c.timer = b.timer := congrArg Prod.fst hsame
    exact htimer ▸ h.lasting c hc

theorem afterExpiry_of_notMem (h : a ∉ as) : afterExpiry a as = as := by
  have hkeep : ∀ b ∈ as, (if b = a then a.renewed else some b) = some b := fun b hb =>
    if_neg fun heq : b = a => h (heq ▸ hb)
  rw [afterExpiry, List.filterMap_congr hkeep, List.filterMap_some]

/-- The timer that has expired is replaced by what it is renewed to. -/
theorem Scheduled.exists_split (h : Scheduled as) (ha : a ∈ as) :
    ∃ earlier later, as = earlier ++ a :: later ∧
      afterExpiry a as = earlier ++ (a.renewed.toList ++ later) := by
  obtain ⟨earlier, later, rfl⟩ := List.append_of_mem ha
  obtain ⟨-, hlater, hapart⟩ := List.nodup_append.1 h.distinct.of_map
  have hearlier : a ∉ earlier := fun hmem => hapart a hmem a (List.mem_cons_self ..) rfl
  refine ⟨earlier, later, rfl, ?_⟩
  have hsplit : afterExpiry a (earlier ++ a :: later) =
      afterExpiry a earlier ++ afterExpiry a (a :: later) := List.filterMap_append
  rw [hsplit, afterExpiry_cons, if_pos rfl, afterExpiry_of_notMem hearlier,
    afterExpiry_of_notMem (List.nodup_cons.1 hlater).1]

/-- All expirations of the timers, timer by timer. -/
def expirations (clock : Int) (as : List ArmedTimer) : List ArmedTimer :=
  as.flatMap (·.expirations clock)

/-- One expiration is taken off, and the others stay. -/
theorem perm_expirations (h : Scheduled as) (ha : a ∈ as) (hdue : a.due ≤ clock) :
    (a :: expirations clock (afterExpiry a as)).Perm (expirations clock as) := by
  have hexpirations := ArmedTimer.expirations_of_due (h.lasting a ha) hdue
  obtain ⟨earlier, later, rfl, hafter⟩ := h.exists_split ha
  rw [hafter]
  simp only [expirations, List.flatMap_append, List.flatMap_cons, hexpirations, List.cons_append]
  exact List.perm_middle.symm

/-- An expiration changes nothing of what a timer is armed for in the end. -/
theorem filterMap_remainder_afterExpiry (h : Scheduled as) (ha : a ∈ as) (hdue : a.due ≤ clock) :
    (afterExpiry a as).filterMap (·.remainder clock) = as.filterMap (·.remainder clock) := by
  rw [afterExpiry, List.filterMap_filterMap]
  refine List.filterMap_congr fun b _ => ?_
  by_cases hb : b = a
  · rw [if_pos hb, hb, ArmedTimer.remainder_of_due (h.lasting a ha) hdue]
  · rw [if_neg hb, Option.bind_some]

/-- The timer that expires first comes before all expirations that are left. -/
theorem before_of_mem_expirations (h : Scheduled as) (hnext : nextDue clock as = some a) :
    ∀ b ∈ expirations clock (afterExpiry a as), a.before b := by
  have ha := mem_of_nextDue hnext
  intro b hb
  obtain ⟨c, hc, hb⟩ := List.mem_flatMap.1 hb
  obtain ⟨n, hn, rfl⟩ := List.mem_map.1 hb
  have hlasting := h.renew.lasting c hc
  have hlater := ArmedTimer.due_le_due_turn hlasting n
  have hdue : c.due ≤ clock := by
    by_contra hlt
    rw [List.mem_range, ArmedTimer.turns_of_lt (Int.not_le.1 hlt)] at hn
    exact absurd hn (Nat.not_lt_zero n)
  rw [ArmedTimer.before_iff]
  obtain ⟨d, hd, hsome⟩ := List.mem_filterMap.1 hc
  by_cases hda : d = a
  · -- It is the timer itself, renewed: it is due one period later.
    rw [if_pos hda, ArmedTimer.renewed_of_lasting (h.lasting a ha)] at hsome
    obtain ⟨-, rfl⟩ : _ ∧ a.turn 1 = c := by simpa using hsome
    have hpositive : 0 < a.timer.duration := hlasting
    have hturn : (a.turn 1).due = a.due + a.timer.duration := by simp [ArmedTimer.turn]
    omega
  · -- It is another timer, with another number, and was not to expire first.
    rw [if_neg hda] at hsome
    obtain rfl : d = c := Option.some_inj.1 hsome
    have hfirst := ArmedTimer.not_before_iff.1 (not_before_of_nextDue hnext d hd hdue)
    have hsequence : d.sequence ≠ a.sequence := fun heq =>
      hda (List.inj_on_of_nodup_map h.distinct hd ha heq)
    have hsame : (d.turn n).sequence = d.sequence := rfl
    omega

/-! ## All expirations -/

/-- All expirations of the timers, the earliest first and of those at one time the one of the
timer that was armed first. -/
def schedule (clock : Int) (as : List ArmedTimer) : List ArmedTimer :=
  (expirations clock as).mergeSort fun a b => !b.before a

/-- The loop leaves armed what it is to leave armed, and lets expire what is to expire, in order. -/
theorem expire_spec (h : Scheduled as) (clock : Int) :
    (expire clock as).1 = as.filterMap (·.remainder clock) ∧
      (expire clock as).2.Perm (expirations clock as) ∧
      (expire clock as).2.Pairwise fun a b => a.before b := by
  induction as using expire.induct clock with
  | case1 as hnone =>
    have hlate := lt_due_of_nextDue_eq_none hnone
    have hkeep : ∀ a ∈ as, a.remainder clock = some a := fun a ha => by
      simp [ArmedTimer.remainder, ArmedTimer.turns, hlate a ha]
    have hnothing : expirations clock as = [] := List.flatMap_eq_nil_iff.2 fun a ha => by
      simp [ArmedTimer.expirations, ArmedTimer.turns, hlate a ha]
    rw [expire_of_nextDue_eq_none hnone, List.filterMap_congr hkeep, List.filterMap_some, hnothing]
    exact ⟨rfl, List.Perm.refl _, List.Pairwise.nil⟩
  | case2 as a hnext _ ih =>
    obtain ⟨hleft, hperm, hsorted⟩ := ih h.renew
    have ha := mem_of_nextDue hnext
    have hdue := due_le_of_nextDue hnext
    rw [expire_of_nextDue_eq_some hnext]
    refine ⟨hleft.trans (filterMap_remainder_afterExpiry h ha hdue), ?_, ?_⟩
    · exact (hperm.cons a).trans (perm_expirations h ha hdue)
    · exact List.pairwise_cons.2
        ⟨fun b hb => before_of_mem_expirations h hnext b (hperm.subset hb), hsorted⟩

/-- Of two expirations, one comes before the other. -/
theorem Scheduled.before_or_before (h : Scheduled as) {a b : ArmedTimer}
    (ha : a ∈ (expire clock as).2) (hb : b ∈ (expire clock as).2)
    (hne : a ≠ b) : a.before b ∨ b.before a := by
  have hsymm : Std.Symm fun a b : ArmedTimer => (a.before b : Prop) ∨ b.before a :=
    ⟨fun _ _ => Or.symm⟩
  have hsorted : (expire clock as).2.Pairwise fun a b => a.before b ∨ b.before a :=
    (expire_spec h clock).2.2.imp fun hab => .inl hab
  exact hsorted.forall ha hb hne

/-- **The loop follows the schedule**: what expires, and in which order, and what is armed in the
end can be told without going through the loop. -/
theorem expire_eq_schedule (h : Scheduled as) :
    expire clock as = (as.filterMap (·.remainder clock), schedule clock as) := by
  obtain ⟨hleft, hperm, hsorted⟩ := expire_spec h clock
  have hperm' : (expire clock as).2.Perm (schedule clock as) :=
    hperm.trans (List.mergeSort_perm ..).symm
  have hfired : (expire clock as).2.Pairwise fun a b => (!b.before a) = true := by
    refine hsorted.imp fun hab => ?_
    rw [ArmedTimer.before_iff] at hab
    rw [Bool.not_eq_true', ArmedTimer.not_before_iff]
    omega
  have hschedule : (schedule clock as).Pairwise fun a b => (!b.before a) = true := by
    apply List.pairwise_mergeSort
    · intro a b c
      simp only [Bool.not_eq_true', ArmedTimer.not_before_iff]
      omega
    · intro a b
      simp only [Bool.or_eq_true, Bool.not_eq_true', ArmedTimer.not_before_iff]
      omega
  -- Both lists are sorted, and no two expirations are in one place.
  refine Prod.ext hleft (List.Perm.eq_of_pairwise (fun a b ha hb hab hba => ?_) hfired hschedule
    hperm')
  by_contra hne
  rcases h.before_or_before ha (hperm'.symm.subset hb) hne with h | h
  · simp [h] at hba
  · simp [h] at hab

namespace Engine

theorem Punctual.scheduled {m : Definition} {e : Engine π} (h : e.Punctual m) :
    Scheduled e.timers :=
  ⟨h.nodup, fun a ha => (h.fits.timers a ha).2⟩

/-- What a tick comes to in an engine with a machine. -/
theorem tick_of_loaded {m : Definition} {w : World σ π} (hm : w.engine.machine = some m) (n : Int) :
    (tick (some n) : Run σ π ε _) w =
      if n < 0 then .error (.negativeElapsed n) w
      else .ok (w.engine.pass n).2 { w with engine := (w.engine.pass n).1 } := by
  have hends := ends_self (tick (some n) : Run σ π ε _) w
  rw [ends_tick, hm] at hends
  simp only [Option.getD_some] at hends
  split
  · rwa [if_pos ‹_›] at hends
  · rwa [if_neg ‹_›] at hends

end Engine

/-- **A tick follows the schedule**: after a load of an accepted machine that succeeds, and any
operations but loads of definitions, however they end, with a host that only posts, let some time
pass that is not negative. The loop of the tick ends. The events it gives back are those of all
expirations of the armed timers up to the new time, sorted by the time and then by the order of
arming, which leaves no choice. They are queued behind those that wait, the clock gets to the new
time, each periodic timer is armed for the first of its turns after that, other timers stay armed
unless they have expired, and nothing else changes. No negative time can pass, and the attempt
changes nothing. -/
theorem tick_follows_schedule {m : Definition} (hm : m.Accepted) {h : Host σ π ε}
    (hh : h.Only Call.IsPost) (depth : Nat) {w₀ w₁ : World σ π} {actions : List String}
    (hload : Engine.load (h.environment depth) (.definition m) w₀ = .ok actions w₁)
    (ops : List (Operation π)) (hops : ∀ op ∈ ops, ∀ m', op ≠ .load (.definition m'))
    {w : World σ π} (hw : w = worldAfter (h.environment depth) w₁ ops) (n : Int) :
    (0 ≤ n →
      let clock := w.engine.clock + n
      let fired := schedule clock w.engine.timers
      let events : List (PendingEvent π) := fired.map ArmedTimer.event
      let armed := w.engine.timers.filterMap (·.remainder clock)
      Expiry m clock w.engine.timers armed fired ∧
        (Engine.tick (some n) : Run σ π ε _) w = .ok events { w with engine := { w.engine with
          clock := clock, timers := armed, queue := w.engine.queue ++ events } } ∧
        fired.Perm (expirations clock w.engine.timers) ∧
        (fired.Pairwise fun a b => a.before b) ∧
        ∀ a ∈ w.engine.timers, a.timer.periodic →
          ∀ k, k < a.turns clock ↔ (a.turn k).due ≤ clock) ∧
    (n < 0 → (Engine.tick (some n) : Run σ π ε _) w = .error (.negativeElapsed n) w) := by
  have hwf := hm.wellFormed
  have henv := hh.queues depth
  have hloaded : w₁.engine.Owned m := (Engine.ends_enterMachine_owned henv hwf w₀).of_ok hload
  have howned : w.engine.Owned m := hw ▸ (Engine.keeps_owned henv hwf).worldAfter hops hloaded
  have htick := Engine.tick_of_loaded (ε := ε) howned.punctual.fits.machine n
  have hscheduled := howned.punctual.scheduled
  refine ⟨fun hn => ?_, fun hn => by rw [htick, if_pos hn]⟩
  intro clock fired events armed
  have hexpire : expire clock w.engine.timers = (armed, fired) := expire_eq_schedule hscheduled
  have hloop := (expiry_expire clock howned.punctual.fits.timers).1
  have hends := expire_spec hscheduled clock
  rw [hexpire] at hloop hends
  refine ⟨hloop, ?_, hends.2.1, hends.2.2, fun a ha hperiodic =>
    ArmedTimer.lt_turns_iff (hscheduled.lasting a ha) hperiodic⟩
  have hpass : w.engine.pass n = ({ w.engine with
      clock := clock, timers := armed, queue := w.engine.queue ++ events }, events) := by
    simp only [Engine.pass, clock, hexpire, events]
  rw [htick, if_neg (Int.not_lt.2 hn), hpass]

/-! ## A metronome -/

namespace Metronome

/-- A metronome that ticks while it swings, and stops by itself. -/
def machine : Definition where
  name := "metronome"
  initial := "still"
  states := [⟨"still", none, [], [], none⟩,
    ⟨"swinging", none, ["start_timer(spring)", "click", "start_timer(beat)"], [], none⟩]
  choices := []
  transitions := [⟨"still", "swinging", some "push", none, [], none⟩,
    ⟨"swinging", "still", some "unwound", none, [], none⟩]
  timers := [⟨"spring", 6, "unwound", false, none⟩, ⟨"beat", 2, "tock", true, none⟩]
  states_nodup := by decide
  choices_nodup := List.nodup_nil

/-- A host that hears the click and posts. -/
def host : Host Nat Unit String where
  guard _ _ _ s := (none, s)
  act a s :=
    if a = "click" then .call (s + 1) (.post "heard" none) fun s _ => .done s
    else .done s

theorem host_only_posts : host.Only Call.IsPost := by
  intro a s
  simp only [host]
  split
  · exact ⟨trivial, fun _ _ => trivial⟩
  · trivial

theorem accepted : machine.Accepted :=
  .of_wellFormed ((Validation.errors_eq_nil_iff _).1 (by cbv))

/-- The metronome in a state, with its timers, those armed so far, the time, the events that wait,
and the entries. -/
def metronome (state : String) (queue : List (PendingEvent Unit)) (timers : List ArmedTimer)
    (count : Nat) (clock : Int) (trace : List TraceEntry) (heard : Nat) : World Nat Unit :=
  ⟨⟨some machine, .ready, some state, queue, timers, count, clock, trace, 1, trace.length, 0,
    Nat.one_pos⟩, heard⟩

/-- The entry of pushing the metronome. -/
def pushing : TraceEntry :=
  ⟨1, some "still", some "swinging", "push", ["start_timer(spring)", "click", "start_timer(beat)"],
    .transition, [some "still", some "swinging"]⟩

/-- The beat, due at the given time. -/
def beat (due : Int) : ArmedTimer := ⟨⟨"beat", 2, "tock", true, none⟩, due, 2, some "swinging"⟩

/-- The spring, armed before the beat. -/
def spring : ArmedTimer := ⟨⟨"spring", 6, "unwound", false, none⟩, 6, 1, some "swinging"⟩

/-- The metronome swings. -/
def swinging : World Nat Unit :=
  metronome "swinging" [⟨"heard", none, none⟩] [spring, beat 2] 2 0 [pushing] 1

/-- In seven units the metronome ticks three times, and unwinds before the third of them. -/
theorem metronome_keeps_time :
    (Engine.tick (some 7) : Run Nat Unit String _) swinging =
        .ok [⟨"tock", none, some "beat"⟩, ⟨"tock", none, some "beat"⟩,
          ⟨"unwound", none, some "spring"⟩, ⟨"tock", none, some "beat"⟩]
        (metronome "swinging" [⟨"heard", none, none⟩, ⟨"tock", none, some "beat"⟩,
          ⟨"tock", none, some "beat"⟩, ⟨"unwound", none, some "spring"⟩,
          ⟨"tock", none, some "beat"⟩] [beat 8] 2 7 [pushing] 1) ∧
      (Engine.tick (some (-1)) : Run Nat Unit String _) swinging =
        .error (.negativeElapsed (-1)) swinging := by
  have hfollows := tick_follows_schedule accepted host_only_posts 0
    (by cbv : Engine.load (host.environment 0) (.definition machine) (.blank 0) =
      .ok [] (metronome "still" [] [] 0 0 [] 0))
    [.post "push" none, .load (.foreign .nothing), .step] (by simp)
    (w := swinging) (by cbv)
  refine ⟨((hfollows 7).1 (by decide)).2.1.trans ?_, (hfollows (-1)).2 (by decide)⟩
  cbv

end Metronome

end Statechart
