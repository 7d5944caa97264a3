import Mathlib.Data.List.Nodup
import Statechart.Proofs.Engine.Expiry
import Statechart.Proofs.Engine.Simulation

/-!
# Engines that look alike

What is seen of an engine is all of it but its machine, and of its timers what a `TimerView` shows:
everything, or everything but where they were written. No part of an operation goes by anything
else, so each of them commutes with `Engine.seen`. For a tick this takes that no two armed timers
have the same identifier, as otherwise two of them could look the same.

Main statement: `Correspondence.ofView`, engines that look alike correspond, as long as their
machines are walked through the same way and have timers that look alike.
-/

namespace Statechart

variable {σ π ε α : Type}

/-! ## Views of timers -/

/-- A way to see timers that hides at most where they were written. -/
structure TimerView where
  see : Timer → Timer
  bare_see : ∀ t, (see t).bare = t.bare

namespace TimerView

/-- All of a timer is seen. -/
def whole : TimerView := ⟨id, fun _ => rfl⟩

/-- Where a timer was written is not seen. -/
def bare : TimerView := ⟨Timer.bare, fun _ => rfl⟩

variable (v : TimerView)

theorem see_fields (t : Timer) : (v.see t).id = t.id ∧ (v.see t).duration = t.duration ∧
    (v.see t).event = t.event ∧ (v.see t).periodic = t.periodic := by
  have hbare := v.bare_see t
  simpa only [Timer.bare, Timer.mk.injEq, and_true] using hbare

/-- An armed timer as it is seen. -/
def armed (a : ArmedTimer) : ArmedTimer := { a with timer := v.see a.timer }

@[simp] theorem id_armed (a : ArmedTimer) : (v.armed a).id = a.id := (v.see_fields a.timer).1

theorem map_id_armed (as : List ArmedTimer) :
    (as.map v.armed).map ArmedTimer.id = as.map ArmedTimer.id := by
  rw [List.map_map]
  exact List.map_congr_left fun a _ => v.id_armed a

theorem event_armed (a : ArmedTimer) :
    ((v.armed a).event : PendingEvent π) = a.event := by
  simp only [ArmedTimer.event, id_armed]
  simp only [armed, (v.see_fields a.timer).2.2.1]

/-! ### What expires -/

theorem before_armed (a b : ArmedTimer) : (v.armed a).before (v.armed b) = a.before b := rfl

theorem renewed_armed (a : ArmedTimer) : (v.armed a).renewed = a.renewed.map v.armed := by
  obtain ⟨-, hduration, -, hperiodic⟩ := v.see_fields a.timer
  have hsame : (v.armed a).timer = v.see a.timer := rfl
  unfold ArmedTimer.renewed
  rw [hsame, hduration, hperiodic]
  split <;> rfl

theorem nextDue_map_armed (clock : Int) (as : List ArmedTimer) :
    nextDue clock (as.map v.armed) = (nextDue clock as).map v.armed := by
  induction as with
  | nil => rfl
  | cons a as ih =>
    have hdue : (v.armed a).due = a.due := rfl
    simp only [List.map_cons, nextDue, ih, hdue]
    split
    · cases nextDue clock as with
      | none => rfl
      | some b =>
        by_cases hb : b.before a
        · simp only [Option.map_some, before_armed, hb, if_true]
        · simp only [Option.map_some, before_armed, hb, Bool.false_eq_true, if_false]
    · rfl

/-- Of timers with distinct identifiers, the one that has expired is told by its looks. -/
theorem afterExpiry_map_armed {a : ArmedTimer} {as : List ArmedTimer} (ha : a ∈ as)
    (has : (as.map ArmedTimer.id).Nodup) :
    afterExpiry (v.armed a) (as.map v.armed) = (afterExpiry a as).map v.armed := by
  unfold afterExpiry
  rw [List.filterMap_map, List.map_filterMap]
  refine List.filterMap_congr fun b hb => ?_
  have hsame : v.armed b = v.armed a ↔ b = a := by
    refine ⟨fun h => ?_, fun h => h ▸ rfl⟩
    have hid : b.id = a.id := by simpa using congrArg ArmedTimer.id h
    exact List.inj_on_of_nodup_map has hb ha hid
  simp only [Function.comp_apply, hsame, renewed_armed]
  split <;> rfl

end TimerView

theorem nodup_of_sublist_identity {as bs : List ArmedTimer}
    (h : (bs.map ArmedTimer.identity).Sublist (as.map ArmedTimer.identity))
    (has : (as.map ArmedTimer.id).Nodup) : (bs.map ArmedTimer.id).Nodup := by
  have hsub := h.map fun i => i.1.id
  simp only [List.map_map] at hsub
  exact has.sublist hsub

theorem nodup_afterExpiry {a : ArmedTimer} {as : List ArmedTimer}
    (has : (as.map ArmedTimer.id).Nodup) : ((afterExpiry a as).map ArmedTimer.id).Nodup :=
  nodup_of_sublist_identity (sublist_afterExpiry a as) has

theorem nodup_expire (clock : Int) {as : List ArmedTimer} (has : (as.map ArmedTimer.id).Nodup) :
    ((expire clock as).1.map ArmedTimer.id).Nodup :=
  nodup_of_sublist_identity (sublist_expire clock as) has

theorem TimerView.expire_map_armed (v : TimerView) (clock : Int) {as : List ArmedTimer}
    (has : (as.map ArmedTimer.id).Nodup) :
    expire clock (as.map v.armed) =
      ((expire clock as).1.map v.armed, (expire clock as).2.map v.armed) := by
  induction as using expire.induct clock with
  | case1 as hnone =>
    have hnone' : nextDue clock (as.map v.armed) = none := by rw [v.nextDue_map_armed, hnone]; rfl
    rw [expire_of_nextDue_eq_none hnone, expire_of_nextDue_eq_none hnone']
    rfl
  | case2 as a hdue _ ih =>
    have hdue' : nextDue clock (as.map v.armed) = some (v.armed a) := by
      rw [v.nextDue_map_armed, hdue]
      rfl
    rw [expire_of_nextDue_eq_some hdue, expire_of_nextDue_eq_some hdue',
      v.afterExpiry_map_armed (mem_of_nextDue hdue) has, ih (nodup_afterExpiry has)]
    rfl

/-! ## What is seen of an engine -/

theorem map_putByKey {α β : Type} {key : α → String} {key' : β → String} {f : α → β}
    (hkey : ∀ a, key' (f a) = key a) (x : α) (ys : List α) :
    (putByKey key x ys).map f = putByKey key' (f x) (ys.map f) := by
  induction ys with
  | nil => rfl
  | cons y ys ih =>
    simp only [putByKey, List.map_cons, hkey]
    split
    · rfl
    · rw [List.map_cons, ih]

namespace Engine

/-- The engine as it is seen: without its machine, and with its timers as the view shows them. -/
def seen (v : TimerView) (e : Engine π) : Engine π :=
  { e with machine := none, timers := e.timers.map v.armed }

variable (v : TimerView)

theorem seen_arm (e : Engine π) (t : Timer) : (e.arm t).seen v = (e.seen v).arm (v.see t) := by
  have hput := map_putByKey (f := v.armed) v.id_armed
    ⟨t, e.clock + t.duration, e.timerSequence + 1, e.current⟩ e.timers
  simp only [arm, seen, hput, TimerView.armed, (v.see_fields t).2.1]

theorem seen_disarm (e : Engine π) (id : String) : (e.disarm id).seen v = (e.seen v).disarm id := by
  simp only [disarm, seen, List.filter_map]
  congr 2
  exact List.filter_congr fun a _ => by simp

theorem seen_disarmOwned (e : Engine π) (state : String) :
    (e.disarmOwned state).seen v = (e.seen v).disarmOwned state := by
  simp only [disarmOwned, seen, List.filter_map]
  rfl

theorem seen_claim (e : Engine π) : e.claim.seen v = (e.seen v).claim := by
  simp only [claim, seen, List.map_map]
  congr 1
  refine List.map_congr_left fun a _ => ?_
  have howner : (v.armed a).owner = a.owner := rfl
  simp only [Function.comp_apply, howner]
  split <;> rfl

theorem seen_record (e : Engine π) (entry : TraceEntry) :
    (e.record entry).seen v = (e.seen v).record entry := by
  unfold record
  by_cases hroom : e.trace.length < e.traceLimit
  · have hroom' : (e.seen v).trace.length < (e.seen v).traceLimit := hroom
    rw [if_pos hroom, if_pos hroom']
    rfl
  · have hroom' : ¬ (e.seen v).trace.length < (e.seen v).traceLimit := hroom
    rw [if_neg hroom, if_neg hroom']
    rfl

theorem seen_rollBack (e before : Engine π) (ev : PendingEvent π) :
    (e.rollBack before ev).seen v = (e.seen v).rollBack (before.seen v) ev := rfl

/-- What is seen after a load does not depend on the machine. -/
theorem seen_reset (e : Engine π) (m m' : Definition) :
    (e.reset m).seen v = ((e.seen v).reset m').seen v := rfl

theorem seen_pass (e : Engine π) (he : (e.timers.map ArmedTimer.id).Nodup) (elapsed : Int) :
    (e.pass elapsed).1.seen v = ((e.seen v).pass elapsed).1 ∧
      (e.pass elapsed).2 = ((e.seen v).pass elapsed).2 := by
  have hexpire := v.expire_map_armed (e.clock + elapsed) he
  have hevents : ((expire (e.clock + elapsed) e.timers).2.map v.armed).map ArmedTimer.event =
      ((expire (e.clock + elapsed) e.timers).2.map ArmedTimer.event : List (PendingEvent π)) := by
    rw [List.map_map]
    exact List.map_congr_left fun a _ => v.event_armed a
  simp only [pass, seen, hexpire, hevents, and_self]

/-- Timers that look alike make timer commands that look alike. -/
theorem seen_command {m' m : Definition}
    (hm : ∀ id, (m'.timer? id).map v.see = (m.timer? id).map v.see) {e' e : Engine π}
    (he : e'.seen v = e.seen v) (action : String) :
    (command m' action e').seen v = (command m action e).seen v := by
  unfold command
  split
  · rename_i id _
    have hid := hm id
    cases ht' : m'.timer? id <;> cases ht : m.timer? id <;> simp only [ht', ht] at hid ⊢
    · exact he
    · simp at hid
    · simp at hid
    · simp only [Option.map_some, Option.some.injEq] at hid
      rw [seen_arm, seen_arm, he, hid]
  · rw [seen_disarm, seen_disarm, he]
  · exact he

/-! ## Engines that look alike -/

theorem nodup_command (m : Definition) (action : String) {e : Engine π}
    (he : (e.timers.map ArmedTimer.id).Nodup) :
    ((command m action e).timers.map ArmedTimer.id).Nodup := by
  unfold command
  split
  · split
    · exact nodup_putByKey ArmedTimer.id _ he
    · exact he
  · exact he.sublist (List.filter_sublist.map _)
  · exact he

theorem nodup_claim {e : Engine π} (he : (e.timers.map ArmedTimer.id).Nodup) :
    (e.claim.timers.map ArmedTimer.id).Nodup := by
  have hids : e.claim.timers.map ArmedTimer.id = e.timers.map ArmedTimer.id := by
    simp only [claim, List.map_map]
    refine List.map_congr_left fun a _ => ?_
    simp only [Function.comp_apply]
    split <;> rfl
  rwa [hids]

/-- The engines look alike, run corresponding machines, and have met only nodes that may be met. -/
structure LookAlike (v : TimerView) (machines : Definition → Definition → Prop)
    (node : String → Prop) (e' e : Engine π) : Prop where
  seen : e'.seen v = e.seen v
  machine : Option.Rel machines e'.machine e.machine
  current : ∀ id, e.current = some id → node id
  trace : ∀ entry ∈ e.trace, entry.Within node
  nodup : (e.timers.map ArmedTimer.id).Nodup

namespace LookAlike

variable {v} {machines : Definition → Definition → Prop} {node : String → Prop} {e' e : Engine π}

theorem fresh (limit : Nat) (hlimit : 0 < limit) :
    LookAlike v machines node (Engine.fresh limit hlimit : Engine π) (.fresh limit hlimit) where
  seen := rfl
  machine := .none
  current _ h := nomatch h
  trace _ h := nomatch h
  nodup := .nil

theorem fields (h : LookAlike v machines node e' e) :
    e'.current = e.current ∧ e'.queue = e.queue ∧ e'.sequence = e.sequence :=
  have hcurrent : (e'.seen v).current = (e.seen v).current := congrArg Engine.current h.seen
  have hqueue : (e'.seen v).queue = (e.seen v).queue := congrArg Engine.queue h.seen
  have hsequence : (e'.seen v).sequence = (e.seen v).sequence := congrArg Engine.sequence h.seen
  ⟨hcurrent, hqueue, hsequence⟩

theorem nodup_left (h : LookAlike v machines node e' e) :
    (e'.timers.map ArmedTimer.id).Nodup := by
  have htimers : e'.timers.map v.armed = e.timers.map v.armed := congrArg Engine.timers h.seen
  rw [← v.map_id_armed, htimers, v.map_id_armed]
  exact h.nodup

theorem record (h : LookAlike v machines node e' e) {entry : TraceEntry}
    (hentry : entry.Within node) :
    LookAlike v machines node (e'.record entry) (e.record entry) := by
  obtain ⟨_, _, he'⟩ := exists_record_eq e' entry
  obtain ⟨_, _, he⟩ := exists_record_eq e entry
  refine ⟨?_, ?_, ?_, ?_, ?_⟩
  · rw [seen_record, seen_record, h.seen]
  · rw [he', he]
    exact h.machine
  · rw [he]
    exact h.current
  · have hsub : (e.record entry).trace ⊆ e.trace ++ [entry] := by
      unfold Engine.record
      split
      · exact List.Subset.refl _
      · exact List.append_subset.2
          ⟨List.Subset.trans (List.drop_subset _ _) (List.subset_append_left ..),
            List.subset_append_right ..⟩
    intro entry' hentry'
    rcases List.mem_append.1 (hsub hentry') with hold | hnew
    · exact h.trace entry' hold
    · exact List.mem_singleton.1 hnew ▸ hentry
  · rw [he]
    exact h.nodup

theorem command {m' m : Definition}
    (hm : ∀ id, (m'.timer? id).map v.see = (m.timer? id).map v.see)
    (h : LookAlike v machines node e' e) (action : String) :
    LookAlike v machines node (Engine.command m' action e') (Engine.command m action e) := by
  have hseen := seen_command v hm h.seen action
  have hnodup := nodup_command m action h.nodup
  obtain ⟨_, _, he'⟩ := exists_command_eq m' action e'
  obtain ⟨_, _, he⟩ := exists_command_eq m action e
  rw [he', he] at hseen ⊢
  rw [he] at hnodup
  exact ⟨hseen, h.machine, h.current, h.trace, hnodup⟩

end LookAlike

end Engine

/-- The world as it is seen. -/
def World.seen (v : TimerView) (w : World σ π) : World σ π := ⟨w.engine.seen v, w.host⟩

/-- How an operation ended, with the world it left as it is seen. -/
def seenOutcome (v : TimerView) :
    EStateM.Result (Fault ε) (World σ π) α → EStateM.Result (Fault ε) (World σ π) α
  | .ok a w => .ok a (w.seen v)
  | .error f w => .error f (w.seen v)

/-- **Engines that look alike correspond**, if their machines are walked through the same way and
have timers that look alike. -/
def Correspondence.ofView (v : TimerView) {machines : Definition → Definition → Prop}
    {node : String → Prop} (halike : ∀ {m' m}, machines m' m → m'.Alike node m)
    (htimer : ∀ {m' m}, machines m' m → ∀ id, (m'.timer? id).map v.see = (m.timer? id).map v.see) :
    Correspondence π where
  engines := Engine.LookAlike v machines node
  machines := machines
  node := node
  alike := halike
  machine h := h.machine
  current h := h.fields.1
  node_current h := h.current
  queue h := h.fields.2.1
  sequence h := h.fields.2.2
  move h current hcurrent :=
    ⟨congrArg (fun e : Engine π => { e with current }) h.seen, h.machine, hcurrent, h.trace,
      h.nodup⟩
  await h queue :=
    ⟨congrArg (fun e : Engine π => { e with queue }) h.seen, h.machine, h.current, h.trace, h.nodup⟩
  turn h status :=
    ⟨congrArg (fun e : Engine π => { e with status }) h.seen, h.machine, h.current, h.trace,
      h.nodup⟩
  count h sequence :=
    ⟨congrArg (fun e : Engine π => { e with sequence }) h.seen, h.machine, h.current, h.trace,
      h.nodup⟩
  command hm _ _ h action := h.command (htimer hm) action
  disarmOwned h state :=
    ⟨by rw [Engine.seen_disarmOwned, Engine.seen_disarmOwned, h.seen], h.machine, h.current,
      h.trace, h.nodup.sublist (List.filter_sublist.map _)⟩
  claim h :=
    ⟨by rw [Engine.seen_claim, Engine.seen_claim, h.seen], h.machine, h.current, h.trace,
      Engine.nodup_claim h.nodup⟩
  record h _ hentry := h.record hentry
  rollBack h _ _ hb ev :=
    ⟨by rw [Engine.seen_rollBack, Engine.seen_rollBack, h.seen, hb.seen], h.machine, hb.current,
      h.trace, hb.nodup⟩
  reset h m' m hm :=
    ⟨by rw [Engine.seen_reset v _ m' m, h.seen, ← Engine.seen_reset v _ m m], .some hm, nofun,
      nofun, .nil⟩
  pass h elapsed := by
    have hleft := Engine.seen_pass v _ h.nodup_left elapsed
    have hright := Engine.seen_pass v _ h.nodup elapsed
    refine ⟨⟨?_, h.machine, h.current, h.trace, nodup_expire _ h.nodup⟩, ?_⟩
    · rw [hleft.1, hright.1, h.seen]
    · rw [hleft.2, hright.2, h.seen]

section Outcomes

variable {v : TimerView} {C : Correspondence π}
  (hC : ∀ {e' e}, C.engines e' e → e'.seen v = e.seen v)
include hC

theorem World.seen_eq_of_worlds {w' w : World σ π} (h : C.worlds Eq w' w) :
    w'.seen v = w.seen v := by
  obtain ⟨hengines, hhosts⟩ := h
  simp only [World.seen, hC hengines, hhosts]

/-- Operations that end alike on engines that look alike are seen to end in the same way. -/
theorem map_seenOutcome_eq {V : α → α → Prop} (hV : ∀ a' a, V a' a → a' = a)
    {rs' rs : List (EStateM.Result (Fault ε) (World σ π) α)}
    (h : List.Forall₂ (Matches (C.worlds Eq) V) rs' rs) :
    rs'.map (seenOutcome v) = rs.map (seenOutcome v) := by
  induction h with
  | nil => rfl
  | cons hr _ ih =>
    rw [List.map_cons, List.map_cons, ih]
    congr 1
    cases hr with
    | ok ha hw => simp only [seenOutcome, hV _ _ ha, World.seen_eq_of_worlds hC hw]
    | error hw => simp only [seenOutcome, World.seen_eq_of_worlds hC hw]

end Outcomes

end Statechart
