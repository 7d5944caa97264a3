import Mathlib
import Statechart.Proofs.Engine.Armed
import Statechart.Proofs.Engine.Conservation
import Statechart.Proofs.Engine.View

/-!
# Histories of timers

A timer that is not periodic expires at most once for each time it is started. This holds in the
history that is left when operations that break off are taken out of it, as the host may let time
pass in a step that is undone: the clock stays ahead then and the events that timers have posted
keep waiting, but the timers are armed again as they were. As long as this does not happen, the
whole history is as it should be, and armed timers are due after the clock. A tick makes the latter
true again in any case.

The history is kept by the host (`Host.chronicled`), which never reads it. `Timekeeping` lists what
an invariant of an engine and a history has to meet, change by change, and `ends_step_history`
carries it through a step. The two invariants are `Timed`, for what has happened so far, and
`Ahead`, for what has happened since a moment.

Main statement: `one_shot_timers_expire_once`.
-/

namespace Statechart

variable {σ π ε α : Type}

/-! ## Happenings -/

/-- What happens to a timer. -/
inductive Happening
  /-- An action starts the timer. -/
  | started (id : String)
  /-- The timer expires in a tick, and posts its event. -/
  | expired (id : String)
  deriving DecidableEq, Repr

namespace Happening

/-- The timer that it happens to. -/
def timer : Happening → String
  | started id => id
  | expired id => id

/-- What an action that is carried out makes happen. -/
def ofAction (action : String) : List Happening :=
  match TimerCommand.ofAction? action with
  | some (.start id) => [started id]
  | some (.stop _) | none => []

/-- What has made timers post the events. -/
def ofEvents (events : List (PendingEvent π)) : List Happening :=
  events.filterMap fun ev => ev.timer.map expired

end Happening

open Happening

/-- The last that has happened to the timer is that it was started. -/
def Running (id : String) (history : List Happening) : Prop :=
  (history.filter (·.timer = id)).getLast? = some (started id)

/-- The timer has expired only after it was started, and once each time. -/
def ExpiresOnce (id : String) (history : List Happening) : Prop :=
  ∀ before, before ++ [expired id] <+: history → Running id before

section Histories

variable {id : String} {history : List Happening}

theorem running_concat_started (id : String) (history : List Happening) :
    Running id (history ++ [started id]) := by
  simp [Running, List.filter_append, Happening.timer]

theorem Running.append (h : Running id history) {more : List Happening}
    (hmore : expired id ∉ more) : Running id (history ++ more) := by
  rw [Running, List.filter_append, List.getLast?_append]
  cases hlast : (more.filter (·.timer = id)).getLast? with
  | none => exact h
  | some x =>
    obtain ⟨hx, hid⟩ := List.mem_filter.1 (List.mem_of_getLast? hlast)
    obtain rfl : x.timer = id := by simpa using hid
    cases x with
    | started id => rfl
    | expired id => exact absurd hx hmore

theorem expiresOnce_nil (id : String) : ExpiresOnce id [] := by
  intro before hbefore
  simp at hbefore

theorem ExpiresOnce.concat (h : ExpiresOnce id history) {x : Happening}
    (hx : x = expired id → Running id history) : ExpiresOnce id (history ++ [x]) := by
  intro before hbefore
  rcases List.prefix_concat_iff.1 hbefore with heq | hbefore
  · obtain ⟨rfl, hlast⟩ := List.append_inj' heq rfl
    exact hx (by simpa using hlast.symm)
  · exact h before hbefore

end Histories

/-! ## Hosts that keep the history -/

/-- The script with a history of the timers: what its ticks make happen, and at the end, if it does
not fail, what the action makes happen that it is the script of. -/
def Script.chronicled (atEnd : List Happening) : Script σ π ε → List Happening →
    Script (σ × List Happening) π ε
  | .done s, l => .done (s, l ++ atEnd)
  | .fail f s, l => .fail f (s, l)
  | .look next, l => .look fun e => (next e).chronicled atEnd l
  | .call s c next, l =>
    .call (s, l) c fun s r => (next s.1 r).chronicled atEnd (s.2 ++ ofEvents (c.posted r))

/-- The host with a history of the timers. -/
def Host.chronicled (h : Host σ π ε) : Host (σ × List Happening) π ε where
  guard text event payload s :=
    let r := h.guard text event payload s.1
    (r.1, r.2, s.2)
  act a s := (h.act a s.1).chronicled (ofAction a) s.2

theorem Script.alike_chronicled (atEnd : List Happening) (s : Script σ π ε) (l : List Happening) :
    Script.Alike Correspondence.equal.stepwise (fun s' s => s'.1 = s) (s.chronicled atEnd l) s := by
  induction s generalizing l with
  | done s => exact .done rfl
  | fail f s => exact .fail f rfl
  | look next ih =>
    refine .look fun e' e he => ?_
    obtain rfl : e' = e := he
    exact ih e' l
  | call s c next ih =>
    refine .call c rfl fun s' s r hs => ?_
    subst hs
    exact ih s'.1 r _

/-- The host that keeps the history does what the host itself does. -/
theorem Host.shadows_chronicled (h : Host σ π ε) (depth : Nat) :
    (h.chronicled.environment depth).Shadows (h.environment depth) := by
  have halike : Host.Alike Correspondence.equal.stepwise (fun s' s => s'.1 = s) h.chronicled h :=
    ⟨fun _ _ _ _ _ hs => hs ▸ ⟨rfl, rfl⟩,
      fun a s' _ hs => hs ▸ (h.act a s'.1).alike_chronicled (ofAction a) s'.2⟩
  exact .of_alike (halike.environment depth)

/-! ## Invariants of an engine and a history -/

/-- What matters of an armed timer to when it expires. -/
def ArmedTimer.deadline (a : ArmedTimer) : Timer × Int := (a.timer, a.due)

namespace Engine

/-- No time has passed, and no timer has been armed. -/
structure Wanes (e e' : Engine π) : Prop where
  machine : e'.machine = e.machine
  clock : e'.clock = e.clock
  timers : (e'.timers.map ArmedTimer.deadline).Sublist (e.timers.map ArmedTimer.deadline)

theorem Wanes.of_sublist {e e' : Engine π} (hmachine : e'.machine = e.machine)
    (hclock : e'.clock = e.clock) (htimers : e'.timers.Sublist e.timers) : e.Wanes e' :=
  ⟨hmachine, hclock, htimers.map _⟩

theorem Wanes.of_eq {e e' : Engine π} (hmachine : e'.machine = e.machine)
    (hclock : e'.clock = e.clock) (htimers : e'.timers = e.timers) : e.Wanes e' :=
  .of_sublist hmachine hclock (htimers ▸ List.Sublist.refl _)

theorem Wanes.exists_mem {e e' : Engine π} (h : e.Wanes e') {a : ArmedTimer}
    (ha : a ∈ e'.timers) : ∃ b ∈ e.timers, b.timer = a.timer ∧ b.due = a.due := by
  obtain ⟨b, hb, hsame⟩ := List.mem_map.1 (h.timers.subset (List.mem_map_of_mem ha))
  exact ⟨b, hb, congrArg Prod.fst hsame, congrArg Prod.snd hsame⟩

theorem wanes_claim (e : Engine π) : e.Wanes e.claim := by
  refine ⟨rfl, rfl, ?_⟩
  have hsame : e.claim.timers.map ArmedTimer.deadline = e.timers.map ArmedTimer.deadline := by
    simp only [claim, List.map_map]
    refine List.map_congr_left fun a _ => ?_
    simp only [Function.comp_apply]
    split <;> rfl
  rw [hsame]

/-- What an invariant of an engine that runs the machine and of a history has to meet. -/
structure Timekeeping (m : Definition) (inv : Engine π → List Happening → Prop) : Prop where
  wanes : ∀ {e e' l}, inv e l → e.Wanes e' → inv e' l
  /-- An action names a timer that the machine does not have. -/
  start : ∀ {e l id}, m.timer? id = none → inv e l → inv e (l ++ [started id])
  arm : ∀ {e l id t}, m.timer? id = some t → inv e l → inv (e.arm t) (l ++ [started id])
  pass : ∀ {e l elapsed}, 0 ≤ elapsed → inv e l →
    inv (e.pass elapsed).1 (l ++ ofEvents (e.pass elapsed).2)

namespace Timekeeping

variable {m : Definition} {inv : Engine π → List Happening → Prop}

/-- With other things that have happened before. -/
theorem following (h : Timekeeping m inv) (past : List Happening) :
    Timekeeping m fun e l => inv e (past ++ l) where
  wanes he hwanes := h.wanes he hwanes
  start hid he := by
    rw [← List.append_assoc]
    exact h.start hid he
  arm ht he := by
    rw [← List.append_assoc]
    exact h.arm ht he
  pass helapsed he := by
    rw [← List.append_assoc]
    exact h.pass helapsed he

theorem and {inv' : Engine π → List Happening → Prop} (h : Timekeeping m inv)
    (h' : Timekeeping m inv') : Timekeeping m fun e l => inv e l ∧ inv' e l where
  wanes he hwanes := ⟨h.wanes he.1 hwanes, h'.wanes he.2 hwanes⟩
  start hid he := ⟨h.start hid he.1, h'.start hid he.2⟩
  arm ht he := ⟨h.arm ht he.1, h'.arm ht he.2⟩
  pass helapsed he := ⟨h.pass helapsed he.1, h'.pass helapsed he.2⟩

theorem command (h : Timekeeping m inv) (a : String) {e : Engine π} {l : List Happening}
    (he : inv e l) : inv (Engine.command m a e) (l ++ ofAction a) := by
  unfold Engine.command ofAction
  cases TimerCommand.ofAction? a with
  | none => rwa [List.append_nil]
  | some c =>
    cases c with
    | start id =>
      dsimp only
      cases ht : m.timer? id with
      | none => exact h.start ht he
      | some t => exact h.arm ht he
    | stop id =>
      rw [List.append_nil]
      exact h.wanes he (.of_sublist rfl rfl List.filter_sublist)

/-! ### Within a step -/

/-- A call that posts or ticks keeps the invariant, with what has happened in it. -/
theorem ends_call (h : Timekeeping m inv) {c : Call π} (hc : c.IsPostOrTick)
    (env : Option (Environment (σ × List Happening) π ε)) {w : World (σ × List Happening) π}
    (hw : inv w.engine w.host.2) :
    Ends (c.run env) w
      (fun r v => inv v.engine
        (v.host.2 ++ ofEvents (c.posted (.ok r : Except (Fault ε) (Reply π)))))
      fun f v => inv v.engine (v.host.2 ++ ofEvents (c.posted (.error f))) := by
  have hnone : ∀ {e : Engine π} {l : List Happening}, inv e l →
      inv e (l ++ ofEvents ([] : List (PendingEvent π))) := fun he => by
    rwa [ofEvents, List.filterMap_nil, List.append_nil]
  cases c with
  | post name payload =>
    rw [Call.run, ends_bind, ends_postEvent]
    split
    · have hposted : ofEvents [(⟨name, payload, none⟩ : PendingEvent π)] = [] := rfl
      show inv _ (_ ++ ofEvents [_])
      rw [hposted, List.append_nil]
      exact h.wanes hw (.of_eq rfl rfl rfl)
    · exact hnone hw
  | tick elapsed =>
    rw [Call.run, ends_map, ends_tick]
    split
    · exact hnone hw
    · split
      · exact hnone hw
      · rename_i helapsed
        exact h.pass (Int.not_lt.1 helapsed) hw
  | _ => exact hc.elim

theorem ends_script (h : Timekeeping m inv) (env : Option (Environment (σ × List Happening) π ε))
    {s : Script σ π ε} (hs : s.Only Call.IsPostOrTick) (atEnd l : List Happening)
    {w : World (σ × List Happening) π} (hw : inv w.engine l) :
    Ends ((s.chronicled atEnd l).run (Call.run env)) w
      (fun _ v => ∃ l', v.host.2 = l' ++ atEnd ∧ inv v.engine l')
      fun _ v => inv v.engine v.host.2 := by
  induction s generalizing l w with
  | done s => exact ⟨l, rfl, hw⟩
  | fail f s => exact hw
  | look next ih => exact ih w.engine (hs w.engine) l hw
  | call s c next ih =>
    refine ends_script_call.2 ((h.ends_call hs.1 env (w := ⟨w.engine, (s, l)⟩) hw).mono
      (fun r v hv => ?_) fun f v hv => ?_)
    · exact ih v.host.1 (.ok r) (hs.2 _ _) _ hv
    · exact ih v.host.1 (.error f) (hs.2 _ _) _ hv

end Timekeeping

/-- What engine and history keep, a walk with a host that posts and ticks upholds. -/
theorem Timekeeping.upholds {m : Definition} {inv : Engine π → List Happening → Prop}
    (hinv : Timekeeping m inv) {h : Host σ π ε} (hh : h.Only Call.IsPostOrTick) (depth : Nat) :
    Upholds (h.chronicled.environment depth) m fun w => inv w.engine w.host.2 where
  act a w hw := by
    have hreact : ∀ env : Option (Environment (σ × List Happening) π ε),
        Ends (h.chronicled.react (Call.run env) a) w
          (fun _ v => inv (Engine.command m a v.engine) v.host.2)
          fun _ v => inv v.engine v.host.2 := by
      intro env
      refine (hinv.ends_script env (hh a w.host.1) (ofAction a) w.host.2 hw).mono
        (fun _ v hv => ?_) fun _ _ hv => hv
      obtain ⟨l, hl, hv⟩ := hv
      exact hl ▸ hinv.command a hv
    cases depth <;> exact hreact _
  guard text event payload w hw := by
    cases depth <;> exact hw
  current w current hw := hinv.wanes hw (.of_eq rfl rfl rfl)
  disarm w id hw := hinv.wanes hw (.of_sublist rfl rfl List.filter_sublist)

section Operations

variable {m : Definition} {inv : Engine π → List Happening → Prop} (hinv : Timekeeping m inv)
  {h : Host σ π ε} (hh : h.Only Call.IsPostOrTick) (depth : Nat)
  {w : World (σ × List Happening) π}
include hinv hh

theorem ends_dispatch_history (ev : PendingEvent π) (hw : inv w.engine w.host.2) :
    Ends (dispatch (h.chronicled.environment depth) m ev) w (fun _ v => inv v.engine v.host.2)
      fun _ v => inv v.engine v.host.2 := by
  exact (hinv.upholds hh depth).dispatch (fun _ _ hv => hinv.wanes hv (.of_eq rfl rfl rfl))
    (fun v hv => hinv.wanes hv (wanes_claim v.engine)) ev hw

/-- A step keeps the invariant, or is undone after actions that have kept it. -/
theorem ends_step_history (hm : w.engine.machine = some m) (hw : inv w.engine w.host.2) :
    Ends (step (h.chronicled.environment depth)) w (fun _ v => inv v.engine v.host.2)
      fun _ v => ∃ e ev, inv e v.host.2 ∧ v.engine = e.rollBack w.engine ev := by
  refine ends_step_of_loaded hm (fun _ => hw) fun ev rest _ => ?_
  have hstart : inv { w.engine with queue := rest, status := .running } w.host.2 :=
    hinv.wanes hw (.of_eq rfl rfl rfl)
  refine (ends_dispatch_history hinv hh depth ev (w := ⟨_, w.host⟩) hstart).mono
    (fun entry v hv => hinv.wanes hv ?_) fun _ v hv => ⟨v.engine, ev, hv, rfl⟩
  obtain ⟨_, _, he⟩ := exists_record_eq { v.engine with status := .ready } entry
  rw [he]
  exact .of_eq rfl rfl rfl

theorem ends_enterMachine_history (hw : inv (w.engine.reset m) w.host.2) :
    Ends (enterMachine (h.chronicled.environment depth) m) w (fun _ v => inv v.engine v.host.2)
      fun _ v => inv v.engine v.host.2 := by
  rw [ends_enterMachine]
  refine ((hinv.upholds hh depth).walk none none _ _ (w := ⟨_, w.host⟩) hw).mono
    (fun _ v hv => ?_) fun _ v hv => hinv.wanes hv (.of_eq rfl rfl rfl)
  exact hinv.wanes (hinv.wanes hv (wanes_claim v.engine)) (.of_eq rfl rfl rfl)

end Operations

/-! ## What has happened so far -/

/-- The timers that are armed and not periodic are running, as the history tells, and the history
tells of no expiration too many. -/
structure Timed (m : Definition) (e : Engine π) (history : List Happening) : Prop where
  fits : e.Fits m
  nodup : (e.timers.map ArmedTimer.id).Nodup
  running : ∀ a ∈ e.timers, a.timer.periodic = false → Running a.id history
  once : ∀ id t, m.timer? id = some t → t.periodic = false → ExpiresOnce id history

theorem mem_afterExpiry {a b : ArmedTimer} {as : List ArmedTimer} (hb : b ∈ afterExpiry a as) :
    (b ∈ as ∧ b ≠ a) ∨ b.timer = a.timer ∧ a.timer.periodic := by
  obtain ⟨c, hc, hsome⟩ := List.mem_filterMap.1 hb
  split at hsome
  · unfold ArmedTimer.renewed at hsome
    split at hsome
    · rename_i hperiodic
      obtain rfl := Option.some_inj.1 hsome
      exact .inr ⟨rfl, (Bool.and_eq_true_iff.1 hperiodic).1⟩
    · simp at hsome
  · rename_i hne
    obtain rfl := Option.some_inj.1 hsome
    exact .inl ⟨hc, hne⟩

/-- A timer expires where it is running, and stops running unless it is periodic. -/
theorem running_expire {m : Definition} (clock : Int) {as : List ArmedTimer}
    (has : ∀ a ∈ as, a.Of m) (hnodup : (as.map ArmedTimer.id).Nodup) {history : List Happening}
    (hrunning : ∀ a ∈ as, a.timer.periodic = false → Running a.id history)
    (honce : ∀ id t, m.timer? id = some t → t.periodic = false → ExpiresOnce id history) :
    let after := history ++ (expire clock as).2.map fun a => expired a.id
    (∀ a ∈ (expire clock as).1, a.timer.periodic = false → Running a.id after) ∧
      ∀ id t, m.timer? id = some t → t.periodic = false → ExpiresOnce id after := by
  induction as using expire.induct clock generalizing history with
  | case1 as hnone =>
    rw [expire_of_nextDue_eq_none hnone]
    simpa using ⟨hrunning, honce⟩
  | case2 as a hdue _ ih =>
    have ha := mem_of_nextDue hdue
    have hrunning' : ∀ b ∈ afterExpiry a as, b.timer.periodic = false →
        Running b.id (history ++ [expired a.id]) := by
      intro b hb hshot
      rcases mem_afterExpiry hb with ⟨hb, hne⟩ | ⟨htimer, hperiodic⟩
      · have hid : b.id ≠ a.id := fun heq => hne (List.inj_on_of_nodup_map hnodup hb ha heq)
        exact (hrunning b hb hshot).append (by simpa using hid)
      · simp [htimer, hperiodic] at hshot
    have honce' : ∀ id t, m.timer? id = some t → t.periodic = false →
        ExpiresOnce id (history ++ [expired a.id]) := by
      intro id t ht hshot
      refine (honce id t ht hshot).concat fun heq => ?_
      obtain rfl : a.id = id := by simpa using heq
      obtain rfl : a.timer = t := by simpa [(has a ha).1] using ht
      exact hrunning a ha hshot
    have hnext := ih (ArmedTimer.Of.afterExpiry ha has) (nodup_afterExpiry hnodup) hrunning' honce'
    rw [expire_of_nextDue_eq_some hdue]
    simpa only [List.map_cons, List.append_assoc, List.singleton_append] using hnext

theorem ofEvents_pass (e : Engine π) (elapsed : Int) :
    ofEvents (e.pass elapsed).2 =
      (expire (e.clock + elapsed) e.timers).2.map fun a => expired a.id := by
  simp [ofEvents, pass, List.filterMap_map, ArmedTimer.event, Function.comp_def]

theorem timekeeping_timed (m : Definition) (hm : m.declaration.WellFormed) :
    Timekeeping m (Timed (π := π) m) where
  wanes {e e' l} he hwanes := by
    refine ⟨⟨hwanes.machine.trans he.fits.machine, fun a ha => ?_⟩, ?_, fun a ha hshot => ?_,
      he.once⟩
    · obtain ⟨b, hb, htimer, -⟩ := hwanes.exists_mem ha
      have hof := he.fits.timers b hb
      simpa [ArmedTimer.Of, ArmedTimer.id, htimer] using hof
    · have hids := hwanes.timers.map fun d => d.1.id
      simp only [List.map_map] at hids
      exact he.nodup.sublist hids
    · obtain ⟨b, hb, htimer, -⟩ := hwanes.exists_mem ha
      have hrunning := he.running b hb (htimer ▸ hshot)
      simpa [ArmedTimer.id, htimer] using hrunning
  start {e l id} _ he := by
    refine ⟨he.fits, he.nodup, fun a ha hshot => ?_, fun id' t ht hshot => ?_⟩
    · exact (he.running a ha hshot).append (by simp)
    · exact (he.once id' t ht hshot).concat (by simp)
  arm {e l id t} ht he := by
    have hid : t.id = id := by simpa using List.find?_some ht
    refine ⟨⟨he.fits.machine, fun a ha => ?_⟩, nodup_putByKey ArmedTimer.id _ he.nodup,
      fun a ha hshot => ?_, fun id' t' ht' hshot => ?_⟩
    · rcases mem_putByKey ha with rfl | ha
      · exact ⟨by rw [ArmedTimer.id, hid, ht], hm.duration_pos t (List.mem_of_find?_eq_some ht)⟩
      · exact he.fits.timers a ha
    · rcases mem_putByKey ha with rfl | ha
      · rw [ArmedTimer.id, hid]
        exact running_concat_started id l
      · exact (he.running a ha hshot).append (by simp)
    · exact (he.once id' t' ht' hshot).concat (by simp)
  pass {e l elapsed} _ he := by
    obtain ⟨hrunning, honce⟩ :=
      running_expire (e.clock + elapsed) he.fits.timers he.nodup he.running he.once
    rw [ofEvents_pass]
    exact ⟨⟨he.fits.machine, (expiry_expire _ he.fits.timers).2⟩, nodup_expire _ he.nodup, hrunning,
      honce⟩

/-! ## What has happened since a moment -/

/-- The armed timers are due after the clock, and nothing has expired since the given time as long
as it is still that time. -/
structure Ahead (start : Int) (e : Engine π) (since : List Happening) : Prop where
  due : ∀ a ∈ e.timers, e.clock < a.due
  le : start ≤ e.clock
  still : e.clock = start → ∀ id, expired id ∉ since

theorem timekeeping_ahead (m : Definition) (hm : m.declaration.WellFormed) (start : Int) :
    Timekeeping m (Ahead (π := π) start) where
  wanes {e e' l} he hwanes := by
    refine ⟨fun a ha => ?_, hwanes.clock ▸ he.le, fun hclock => he.still (hwanes.clock ▸ hclock)⟩
    obtain ⟨b, hb, -, hdue⟩ := hwanes.exists_mem ha
    exact hwanes.clock ▸ hdue ▸ he.due b hb
  start _ he := ⟨he.due, he.le, fun hclock id => by simpa using he.still hclock id⟩
  arm {e l id t} ht he := by
    refine ⟨fun a ha => ?_, he.le, fun hclock id => by simpa using he.still hclock id⟩
    have hpos := hm.duration_pos t (List.mem_of_find?_eq_some ht)
    rcases mem_putByKey ha with rfl | ha
    · exact Int.lt_add_of_pos_right _ hpos
    · exact he.due a ha
  pass {e l elapsed} helapsed he := by
    have hle := he.le
    have hclock : (e.pass elapsed).1.clock = e.clock + elapsed := rfl
    refine ⟨lt_due_expire _ _, by omega, fun hstill id => ?_⟩
    have hzero : e.clock + elapsed = e.clock := by omega
    rw [ofEvents_pass, hzero, expire_of_forall_lt_due he.due]
    simpa using he.still (by omega) id

end Engine

/-! ## Histories of operations -/

/-- What an operation, or one of its steps, has been for the timers: whether it has broken off, by
how much it has changed the clock, and what has happened, also if it has been undone. -/
structure Episode where
  broken : Bool
  elapsed : Int
  happenings : List Happening
  deriving DecidableEq, Repr

/-- The world with nothing in its history. -/
def World.unwritten (w : World σ π) : World (σ × List Happening) π := ⟨w.engine, (w.host, [])⟩

namespace Episode

/-- The episode of an operation, with what its answer tells of. -/
def of (told : α → List Happening) (run : Run (σ × List Happening) π ε α) (w : World σ π) :
    Episode :=
  match run w.unwritten with
  | .ok a v => ⟨false, v.engine.clock - w.engine.clock, v.host.2 ++ told a⟩
  | .error _ v => ⟨true, v.engine.clock - w.engine.clock, v.host.2⟩

/-- All that has happened. -/
def history (episodes : List Episode) : List Happening := episodes.flatMap happenings

/-- What has happened in the episodes that have not broken off. -/
def keptHistory (episodes : List Episode) : List Happening :=
  history (episodes.filter (!·.broken))

/-- No time has passed in an episode that has broken off. -/
def Steady (episodes : List Episode) : Prop := ∀ x ∈ episodes, x.broken → x.elapsed = 0

end Episode

section Episodes

variable (env : Environment (σ × List Happening) π ε)

/-- The episodes of the steps that are taken while events wait, but no more than the given
number. -/
def Engine.episodesTaken : Nat → World σ π → List Episode
  | 0, _ => []
  | n + 1, w =>
    if w.engine.queue.isEmpty then []
    else
      .of (fun _ => []) (Engine.step env) w ::
        match Engine.step env w.unwritten with
        | .ok _ v => episodesTaken n v.forget
        | .error _ _ => []

/-- The episodes of an operation but a load. -/
def Operation.episodes (w : World σ π) : Operation π → List Episode
  | step => [.of (fun _ => []) (Engine.step env) w]
  | run most => Engine.episodesTaken env most w
  | tick elapsed => [.of ofEvents (Engine.tick elapsed : Run _ π ε _) w]
  | load _ | post .. => []

/-- The episodes of operations one after the other. -/
def episodesAfter : World σ π → List (Operation π) → List Episode
  | _, [] => []
  | w, op :: ops =>
    op.episodes env w ++ episodesAfter ((op.perform env).after w.unwritten).forget ops

end Episodes

open Episode

/-- The episodes so far leave the timers as they should be: in any case without those that have
broken off, and altogether if these have been steady. -/
structure Recounted (m : Definition) (w : World σ π) (episodes : List Episode) : Prop where
  kept : w.engine.Timed m (keptHistory episodes)
  steady : Steady episodes → w.engine.Timed m (history episodes) ∧
    ∀ a ∈ w.engine.timers, w.engine.clock < a.due

section Operations

variable {m : Definition} {w : World σ π} {episodes : List Episode}

/-- One more episode, which is undone if it breaks off. -/
theorem Recounted.next (hw : Recounted m w episodes) {told : α → List Happening}
    {run' : Run (σ × List Happening) π ε α} {run : Run σ π ε α} (hforgets : Forgets run' run)
    (hkept : ∀ past, w.engine.Timed m past → Ends run' w.unwritten
      (fun a v => v.engine.Timed m (past ++ (v.host.2 ++ told a))) fun _ v => v.engine.Timed m past)
    (hsteady : ∀ past, w.engine.Timed m past → (∀ a ∈ w.engine.timers, w.engine.clock < a.due) →
      Ends run' w.unwritten (fun _ v => ∀ a ∈ v.engine.timers, v.engine.clock < a.due)
        fun _ v => v.engine.clock = w.engine.clock →
          v.engine.Timed m (past ++ v.host.2) ∧ ∀ a ∈ v.engine.timers, v.engine.clock < a.due) :
    Ends run w (fun _ v => Recounted m v (episodes ++ [.of told run' w]))
      fun _ v => Recounted m v (episodes ++ [.of told run' w]) := by
  refine hforgets.ends (w := w.unwritten)
    ((ends_self run' w.unwritten).mono (fun a v hr => ?_) fun f v hr => ?_)
  · have hnext : Episode.of told run' w =
        ⟨false, v.engine.clock - w.engine.clock, v.host.2 ++ told a⟩ := by
      simp only [Episode.of, hr]
    rw [hnext]
    refine ⟨?_, fun h => ?_⟩
    · simpa [keptHistory, history] using (hkept _ hw.kept).of_ok hr
    · obtain ⟨htimed, hdue⟩ := hw.steady fun x hx => h x (List.mem_append_left _ hx)
      refine ⟨?_, (hsteady _ htimed hdue).of_ok hr⟩
      simpa [history] using (hkept _ htimed).of_ok hr
  · have hnext : Episode.of told run' w =
        ⟨true, v.engine.clock - w.engine.clock, v.host.2⟩ := by
      simp only [Episode.of, hr]
    rw [hnext]
    refine ⟨?_, fun h => ?_⟩
    · simpa [keptHistory, history] using (hkept _ hw.kept).of_error hr
    · obtain ⟨htimed, hdue⟩ := hw.steady fun x hx => h x (List.mem_append_left _ hx)
      have hzero := h _ (List.mem_append_right _ (List.mem_singleton_self _)) rfl
      have hstill : v.engine.clock = w.engine.clock := by
        dsimp only at hzero
        omega
      simpa [history] using (hsteady _ htimed hdue).of_error hr hstill

variable {h : Host σ π ε} (hh : h.Only Call.IsPostOrTick) (depth : Nat)
  (hm : m.declaration.WellFormed)
include hh hm

theorem recounted_step (hw : Recounted m w episodes) :
    Ends (Engine.step (h.environment depth)) w
      (fun _ v => Recounted m v
        (episodes ++ [.of (fun _ => []) (Engine.step (h.chronicled.environment depth)) w]))
      fun _ v => Recounted m v
        (episodes ++ [.of (fun _ => []) (Engine.step (h.chronicled.environment depth)) w]) := by
  have hmachine : w.engine.machine = some m := hw.kept.fits.machine
  refine hw.next (.step (h.shadows_chronicled depth)) (fun past hpast => ?_)
    fun past hpast hdue => ?_
  · have hkeeps := (Engine.timekeeping_timed (π := π) m hm).following past
    refine (Engine.ends_step_history hkeeps hh depth (w := w.unwritten) hmachine ?_).mono
      (fun _ v hv => ?_) fun _ v hv => ?_
    · rwa [World.unwritten, List.append_nil]
    · rwa [List.append_nil]
    · obtain ⟨e, ev, he, hv⟩ := hv
      rw [hv]
      exact ⟨⟨he.fits.machine, hpast.fits.timers⟩, hpast.nodup, hpast.running, hpast.once⟩
  · have hkeeps := ((Engine.timekeeping_timed (π := π) m hm).following past).and
      (Engine.timekeeping_ahead m hm w.engine.clock)
    refine (Engine.ends_step_history hkeeps hh depth (w := w.unwritten) hmachine ⟨?_, ?_⟩).mono
      (fun _ v hv => hv.2.due) fun _ v hv hstill => ?_
    · rwa [World.unwritten, List.append_nil]
    · exact ⟨hdue, Int.le_refl _, fun _ id => by simp [World.unwritten]⟩
    · -- nothing has expired, so what was running before the step still is
      obtain ⟨e, ev, ⟨htimed, hahead⟩, hv⟩ := hv
      rw [hv] at hstill ⊢
      refine ⟨⟨⟨htimed.fits.machine, hpast.fits.timers⟩, hpast.nodup, fun a ha hshot => ?_,
        htimed.once⟩, fun a ha => ?_⟩
      · exact (hpast.running a ha hshot).append (hahead.still hstill a.id)
      · exact hstill ▸ hdue a ha

theorem recounted_steps (n : Nat) (hw : Recounted m w episodes) :
    Ends (Engine.steps (h.environment depth) n) w
      (fun _ v => Recounted m v
        (episodes ++ Engine.episodesTaken (h.chronicled.environment depth) n w))
      fun _ v => Recounted m v
        (episodes ++ Engine.episodesTaken (h.chronicled.environment depth) n w) := by
  induction n generalizing w episodes with
  | zero =>
    rw [Engine.episodesTaken, List.append_nil]
    exact hw
  | succ n ih =>
    rw [Engine.ends_steps_succ, Engine.episodesTaken]
    split
    · rwa [List.append_nil]
    · have hforgets := Forgets.step (h.shadows_chronicled depth)
      refine ((recounted_step hh depth hm hw).and (ends_self _ w)).mono (fun entry v hv => ?_)
        fun f v hv => ?_
      · obtain ⟨v', hv', hforget⟩ := hforgets.exists_ok (w := w.unwritten) hv.2
        rw [hv', List.append_cons, ← hforget]
        exact ih (hforget ▸ hv.1)
      · obtain ⟨v', hv', -⟩ := hforgets.exists_error (w := w.unwritten) hv.2
        rw [hv']
        exact hv.1

theorem recounted_operation {op : Operation π} (hop : ¬ op.IsLoad) (hw : Recounted m w episodes) :
    Ends (op.perform (h.environment depth)) w
      (fun _ v => Recounted m v (episodes ++ op.episodes (h.chronicled.environment depth) w))
      fun _ v => Recounted m v (episodes ++ op.episodes (h.chronicled.environment depth) w) := by
  have hmachine : w.engine.machine = some m := hw.kept.fits.machine
  cases op with
  | load subject => exact absurd trivial hop
  | post name payload =>
    refine ends_bind.2 (Engine.ends_postEvent_of_loaded hmachine ?_)
    rw [Operation.episodes, List.append_nil, ends_pure]
    have hkeeps := Engine.timekeeping_timed (π := π) m hm
    refine ⟨hkeeps.wanes hw.kept (.of_eq rfl rfl rfl), fun hsteady => ?_⟩
    obtain ⟨htimed, hdue⟩ := hw.steady hsteady
    exact ⟨hkeeps.wanes htimed (.of_eq rfl rfl rfl), hdue⟩
  | step => exact ends_map.2 (recounted_step hh depth hm hw)
  | run most =>
    exact ends_map.2 (Engine.ends_runUntilIdle_of_loaded hmachine
      (recounted_steps hh depth hm most hw))
  | tick elapsed =>
    have hforgets : Forgets (Engine.tick elapsed : Run (σ × List Happening) π ε _)
        (Engine.tick elapsed) := .of_simulates (Simulates.tick elapsed)
    refine ends_map.2 (hw.next hforgets (fun past hpast => ?_) fun past hpast hdue => ?_)
    · refine Engine.ends_tick_of_loaded (w := w.unwritten) hmachine (fun _ => hpast)
        fun helapsed => ?_
      exact (Engine.timekeeping_timed m hm).pass helapsed hpast
    · refine Engine.ends_tick_of_loaded (w := w.unwritten) hmachine (fun _ _ => ⟨?_, hdue⟩)
        fun _ => ?_
      · rwa [World.unwritten, List.append_nil]
      · exact lt_due_expire _ _

theorem recounted_worldAfter {ops : List (Operation π)} (hops : ∀ op ∈ ops, ¬ op.IsLoad)
    (hw : Recounted m w episodes) :
    Recounted m (worldAfter (h.environment depth) w ops)
      (episodes ++ episodesAfter (h.chronicled.environment depth) w ops) := by
  induction ops generalizing w episodes with
  | nil => rwa [episodesAfter, List.append_nil]
  | cons op ops ih =>
    have hafter := (Forgets.operation (h.shadows_chronicled depth) op).after w.unwritten
    rw [episodesAfter, ← List.append_assoc, hafter]
    exact ih (fun op' hop => hops op' (List.mem_cons_of_mem _ hop))
      (recounted_operation hh depth hm (hops op (by simp)) hw).after

theorem recounted_load {w₀ w₁ : World σ π} {actions : List String}
    (hload : Engine.load (h.environment depth) (.definition m) w₀ = .ok actions w₁) :
    Recounted m w₁
      [.of (fun _ => []) (Engine.load (h.chronicled.environment depth) (.definition m)) w₀] := by
  obtain ⟨v, hv, hforget⟩ := (Forgets.load (h.shadows_chronicled depth) (.definition m)).exists_ok
    (w := w₀.unwritten) hload
  have hkeeps := (Engine.timekeeping_timed (π := π) m hm).and (Engine.timekeeping_ahead m hm 0)
  have hstart : (w₀.engine.reset m).Timed m [] ∧ (w₀.engine.reset m).Ahead 0 [] := by
    refine ⟨⟨⟨rfl, ?_⟩, ?_, ?_, fun id _ _ _ => expiresOnce_nil id⟩, ?_, Int.le_refl _, ?_⟩
    all_goals simp [Engine.reset, Engine.fresh]
  have hends := Engine.ends_enterMachine_history hkeeps hh depth (w := w₀.unwritten) hstart
  obtain ⟨htimed, hahead⟩ := hends.of_ok hv
  have hfirst : Episode.of (fun _ => []) (Engine.load (h.chronicled.environment depth)
      (.definition m)) w₀ = ⟨false, v.engine.clock - w₀.engine.clock, v.host.2 ++ []⟩ := by
    simp only [Episode.of, hv]
  rw [hfirst, ← hforget]
  have htimed' : v.forget.engine.Timed m (v.host.2 ++ [] ++ []) := by simpa using htimed
  exact ⟨htimed', fun _ => ⟨htimed', hahead.due⟩⟩

end Operations

/-- **A timer that is not periodic expires once for each time it is started**: after a load of an
accepted machine that succeeds, and any operations but loads however they end, with a host that at
most posts, ticks and fails, this is so as far as operations and steps go that have not broken off.
If no time has passed in those that have, it is so altogether, and the armed timers are due after
the clock. In any case a tick makes them so. -/
theorem one_shot_timers_expire_once {m : Definition} (hm : m.Accepted) {h : Host σ π ε}
    (hh : h.Only Call.IsPostOrTick) (depth : Nat) {w₀ w₁ : World σ π} {actions : List String}
    (hload : Engine.load (h.environment depth) (.definition m) w₀ = .ok actions w₁)
    {ops : List (Operation π)} (hops : ∀ op ∈ ops, ¬ op.IsLoad) :
    let env := h.chronicled.environment depth
    let episodes := .of (fun _ => []) (Engine.load env (.definition m)) w₀ ::
      episodesAfter env w₁ ops
    let w := worldAfter (h.environment depth) w₁ ops
    (∀ id t, m.timer? id = some t → t.periodic = false → ExpiresOnce id (keptHistory episodes)) ∧
      (Steady episodes → (∀ a ∈ w.engine.timers, w.engine.clock < a.due) ∧
        ∀ id t, m.timer? id = some t → t.periodic = false → ExpiresOnce id (history episodes)) ∧
      ∀ elapsed : Option Int, 0 ≤ elapsed.getD Engine.defaultTick →
        ∃ events v, (Engine.tick elapsed : Run σ π ε _) w = .ok events v ∧
          ∀ a ∈ v.engine.timers, v.engine.clock < a.due := by
  intro env episodes w
  have hwf := hm.wellFormed
  have hrecounted : Recounted m w episodes :=
    recounted_worldAfter hh depth hwf hops (recounted_load hh depth hwf hload)
  refine ⟨hrecounted.kept.once, fun hsteady => ?_, fun elapsed helapsed => ?_⟩
  · obtain ⟨htimed, hdue⟩ := hrecounted.steady hsteady
    exact ⟨hdue, htimed.once⟩
  · refine Ends.exists_ok (Engine.ends_tick_of_loaded hrecounted.kept.fits.machine
      (fun hback => ?_) fun _ => ?_)
    · exact absurd hback (Int.not_lt.2 helapsed)
    · exact lt_due_expire _ _

/-! ## A pot that boils over -/

namespace Pot

/-- A pot that is done a while after it has been put on. -/
def machine : Definition where
  name := "pot"
  initial := "warm"
  states := [⟨"warm", none, ["start_timer(t)"], ["wait()"], none⟩, ⟨"hot", none, [], [], none⟩]
  choices := []
  transitions := [⟨"warm", "hot", some "stir", none, [], none⟩]
  timers := [⟨"t", 5, "boiled", false, none⟩]
  states_nodup := by decide
  choices_nodup := List.nodup_nil

/-- A host that lets the pot stand for too long and spills it. -/
def host : Host Unit Unit String where
  guard _ _ _ s := (none, s)
  act a s :=
    if a = "wait()" then .call s (.tick (some 10)) fun s _ => .fail (.host "spilt") s else .done s

theorem host_only : host.Only Call.IsPostOrTick := by
  intro a s
  simp only [host]
  split
  · exact ⟨trivial, fun _ _ => trivial⟩
  · trivial

theorem accepted : machine.Accepted :=
  .of_wellFormed ((Validation.errors_eq_nil_iff _).1 (by cbv))

/-- The pot after it has been put on. -/
def warm : World Unit Unit :=
  ⟨⟨some machine, .ready, some "warm", [], [⟨⟨"t", 5, "boiled", false, none⟩, 5, 1, some "warm"⟩],
    1, 0, [], 1, 0, 0, Nat.one_pos⟩, ()⟩

/-- The episodes of the pot from when it is put on. -/
def episodes (ops : List (Operation Unit)) : List Episode :=
  .of (fun _ => []) (Engine.load (host.chronicled.environment 0) (.definition machine))
    (.blank ()) :: episodesAfter (host.chronicled.environment 0) warm ops

/-- But for the spilling, the pot is done once. -/
theorem pot_done_once :
    keptHistory (episodes [.post "stir" none, .step, .tick (some 0)]) =
        [.started "t", .expired "t"] ∧
      ExpiresOnce "t" (keptHistory (episodes [.post "stir" none, .step, .tick (some 0)])) :=
  ⟨by cbv, (one_shot_timers_expire_once accepted host_only 0
    (by cbv : Engine.load (host.environment 0) (.definition machine) (.blank ()) =
      .ok ["start_timer(t)"] warm) (by simp [Operation.IsLoad])).1 "t"
    ⟨"t", 5, "boiled", false, none⟩ (by cbv) rfl⟩

/-- In a step that is undone, the timer expires once and stays armed, due when the clock has passed
already; then it expires again, though it has been started only once. -/
theorem undone_step_expires_again :
    (∃ a ∈ (worldAfter (host.environment 0) warm [.post "stir" none, .step]).engine.timers,
        a.due < (worldAfter (host.environment 0) warm [.post "stir" none, .step]).engine.clock) ∧
      ¬ ExpiresOnce "t" (history (episodes [.post "stir" none, .step, .tick (some 0)])) := by
  have htimers : (worldAfter (host.environment 0) warm [.post "stir" none, .step]).engine.timers =
      [⟨⟨"t", 5, "boiled", false, none⟩, 5, 1, some "warm"⟩] := by cbv
  have hclock : (worldAfter (host.environment 0) warm [.post "stir" none, .step]).engine.clock =
      10 := by cbv
  have hhistory : history (episodes [.post "stir" none, .step, .tick (some 0)]) =
      [.started "t", .expired "t"] ++ [.expired "t"] := by cbv
  rw [htimers, hclock, hhistory]
  refine ⟨⟨_, List.mem_singleton_self _, by decide⟩, fun hexpires => ?_⟩
  have hrunning := hexpires [.started "t", .expired "t"] (List.prefix_refl _)
  simp [Running, timer] at hrunning

end Pot

end Statechart
