import Mathlib
import Statechart.Proofs.Engine.Completion
import Statechart.Proofs.Engine.Retention

/-!
# Hosts that step

A host may ask for a step while an action of another step is carried out. The step that it asks
for finds the machine either in a state or between two states. In a state it is a step like any
other, and leaves the machine in a state that owns all armed timers. Between two states it finds no
transition, and leaves everything but its entry in the trace as it was.

So on every action, whatever a host does that loads no machine, the machine stays where it is and
no timer changes hands, or it comes to another state that owns all timers. `Engine.Carries` says
this of the engine before and after, and `Host.Only.carries` says it of hosts, by induction on how
deep calls are nested. `Handed` says what the stages of a walk can rely on with such a host.

* `ends_step_carries`: a step from a state is as just said, and one from between two states is not;
* `ends_enterMachine_handed`: a load leaves the machine in a state that owns all timers, or it
  breaks off between two states or in a state that does not own them all yet;
* `Lasts.worldAfter` carries what steps keep, and what their entries meet, through operations.
-/

namespace Statechart

variable {σ π ε : Type}

/-! ## Scripts and environments -/

/-- The call loads no machine. -/
def Call.NoLoad : Call π → Prop
  | reload => False
  | _ => True

theorem Call.IsPostOrTick.noLoad {c : Call π} (h : c.IsPostOrTick) : c.NoLoad := by
  cases c <;> trivial

/-- On an action, however it ends, the relation holds between the world before and after. -/
def Environment.Keeps (env : Environment σ π ε) (R : World σ π → World σ π → Prop) : Prop :=
  ∀ a w, Ends (env.react a) w (fun _ v => R w v) fun _ v => R w v

section Keeps

variable {allowed : Call π → Prop} {R : World σ π → World σ π → Prop}
  (hhost : ∀ w s, R w { w with host := s }) (htrans : ∀ {u v w}, R u v → R v w → R u w)
include hhost htrans

/-- What each of its calls keeps, a script keeps. -/
theorem Script.Only.keeps {call : Call π → Run σ π ε (Reply π)}
    (hcall : ∀ c w, allowed c → Ends (call c) w (fun _ v => R w v) fun _ v => R w v)
    {s : Script σ π ε} (hs : s.Only allowed) (w : World σ π) :
    Ends (s.run call) w (fun _ v => R w v) fun _ v => R w v := by
  induction s generalizing w with
  | done s => exact hhost w s
  | fail f s => exact hhost w s
  | look next ih => exact ih w.engine (hs w.engine) w
  | call s c next ih =>
    have hgo : ∀ v r, R { w with host := s } v →
        Ends ((next v.host r).run call) v (fun _ u => R w u) fun _ u => R w u := fun v r hv =>
      (ih v.host r (hs.2 v.host r) v).mono (fun _ _ hu => htrans (htrans (hhost w s) hv) hu)
        fun _ _ hu => htrans (htrans (hhost w s) hv) hu
    exact ends_script_call.2 ((hcall c _ hs.1).mono (fun r v hv => hgo v (.ok r) hv)
      fun f v hv => hgo v (.error f) hv)

/-- What calls keep as long as actions within them keep it, actions keep, however deep calls are
nested. -/
theorem Host.Only.keeps
    (hcall : ∀ env : Option (Environment σ π ε), (∀ x ∈ env, x.Keeps R) → ∀ c w, allowed c →
      Ends (c.run env) w (fun _ v => R w v) fun _ v => R w v)
    {h : Host σ π ε} (hh : h.Only allowed) (depth : Nat) : (h.environment depth).Keeps R := by
  have hreact : ∀ env : Option (Environment σ π ε), (∀ x ∈ env, x.Keeps R) → ∀ a w,
      Ends (h.react (Call.run env) a) w (fun _ v => R w v) fun _ v => R w v :=
    fun env henv a w => Script.Only.keeps hhost htrans (hcall env henv) (hh a w.host) w
  induction depth with
  | zero => exact hreact none (by simp)
  | succ depth ih => exact hreact (some _) (by simpa using ih)

end Keeps

/-! ## Where a machine is found -/

/-- The entry leads from a state of the machine to one. -/
def TraceEntry.Placed (m : Definition) (entry : TraceEntry) : Prop :=
  (∃ state ∈ m.declaration.stateIds, entry.source = some state) ∧
    ∃ state ∈ m.declaration.stateIds, entry.target = some state

/-- The entry of an event that no transition was found for, as the machine was in no state. -/
def TraceEntry.Stranded (entry : TraceEntry) : Prop :=
  entry.outcome = .unmatched ∧ entry.source = none ∧ entry.target = none ∧ entry.actions = [] ∧
    entry.path = [none]

namespace Engine

/-- The machine is in one of its states, which owns all armed timers but those that were armed
between two states. -/
structure Settled (m : Definition) (e : Engine π) : Prop where
  current : ∃ state ∈ m.declaration.stateIds, e.current = some state
  owner : ∀ a ∈ e.timers, a.owner = none ∨ a.owner = e.current

/-- The machine is in one of its states, which owns all armed timers. -/
structure Whole (m : Definition) (e : Engine π) : Prop where
  current : ∃ state ∈ m.declaration.stateIds, e.current = some state
  owner : ∀ a ∈ e.timers, a.owner = e.current

theorem Whole.of_eq {m : Definition} {e e' : Engine π} (h : e.Whole m)
    (hcurrent : e'.current = e.current) (htimers : e'.timers = e.timers) : e'.Whole m :=
  ⟨hcurrent ▸ h.current, fun a ha => hcurrent ▸ h.owner a (htimers ▸ ha)⟩

theorem Settled.of_eq {m : Definition} {e e' : Engine π} (h : e.Settled m)
    (hcurrent : e'.current = e.current) (htimers : e'.timers = e.timers) : e'.Settled m :=
  ⟨hcurrent ▸ h.current, fun a ha => hcurrent ▸ h.owner a (htimers ▸ ha)⟩

theorem Whole.settled {m : Definition} {e : Engine π} (h : e.Whole m) : e.Settled m :=
  ⟨h.current, fun a ha => .inr (h.owner a ha)⟩

theorem Settled.isSome_current {m : Definition} {e : Engine π} (h : e.Settled m) :
    e.current.isSome := by
  obtain ⟨state, -, hcurrent⟩ := h.current
  simp [hcurrent]

/-- All entries of the trace lead from states of the machine to states, or are stranded. -/
def Told (m : Definition) (e : Engine π) : Prop :=
  ∀ entry ∈ e.trace, entry.Placed m ∨ entry.Stranded

theorem Told.record {m : Definition} {e : Engine π} (h : e.Told m) {entry : TraceEntry}
    (hentry : entry.Placed m ∨ entry.Stranded) : (e.record entry).Told m := by
  have hold : (e.record entry).trace ⊆ e.trace ++ [entry] := by
    unfold Engine.record
    split
    · exact List.Subset.refl _
    · exact ((List.drop_sublist 1 e.trace).append_right [entry]).subset
  intro x hx
  rcases List.mem_append.1 (hold hx) with hx | hx
  · exact h x hx
  · exact List.mem_singleton.1 hx ▸ hentry

/-- The engine runs the machine, which is between two states or settled in one, and its trace tells
of nothing else. -/
structure Fair (m : Definition) (e : Engine π) : Prop where
  machine : e.machine = some m
  settled : e.current.isSome → e.Settled m
  told : e.Told m

theorem Fair.of_eq {m : Definition} {e e' : Engine π} (h : e.Fair m)
    (hmachine : e'.machine = e.machine) (hcurrent : e'.current = e.current)
    (htimers : e'.timers = e.timers) (htrace : e'.trace = e.trace) : e'.Fair m where
  machine := hmachine.trans h.machine
  settled hsome := (h.settled (hcurrent ▸ hsome)).of_eq hcurrent htimers
  told x hx := h.told x (htrace ▸ hx)

/-- The machine stays where it is, and no timer changes hands. -/
structure Stays (e e' : Engine π) : Prop where
  current : e'.current = e.current
  owner : ∀ a ∈ e'.timers, a.owner = e.current ∨ ∃ b ∈ e.timers, b.owner = a.owner

namespace Stays

variable {m : Definition} {e e' e'' : Engine π}

theorem of_subset (hcurrent : e'.current = e.current) (htimers : e'.timers ⊆ e.timers) :
    e.Stays e' :=
  ⟨hcurrent, fun a ha => .inr ⟨a, htimers ha, rfl⟩⟩

theorem trans (h : e.Stays e') (h' : e'.Stays e'') : e.Stays e'' where
  current := h'.current.trans h.current
  owner a ha := by
    rcases h'.owner a ha with hnow | ⟨b, hb, hold⟩
    · exact .inl (hnow.trans h.current)
    · exact hold ▸ h.owner b hb

/-- What holds of the current state and of all owners holds of the owners afterwards. -/
theorem forall_owner (h : e.Stays e') (P : Option String → Prop) (hcurrent : P e.current)
    (he : ∀ a ∈ e.timers, P a.owner) : ∀ a ∈ e'.timers, P a.owner := by
  intro a ha
  rcases h.owner a ha with hnow | ⟨b, hb, hold⟩
  · exact hnow ▸ hcurrent
  · exact hold ▸ he b hb

theorem whole (h : e.Stays e') (he : e.Whole m) : e'.Whole m where
  current := h.current ▸ he.current
  owner := h.current ▸ h.forall_owner (· = e.current) rfl he.owner

theorem settled (h : e.Stays e') (he : e.Settled m) : e'.Settled m where
  current := h.current ▸ he.current
  owner := h.current ▸ h.forall_owner (fun o => o = none ∨ o = e.current) (.inr rfl) he.owner

end Stays

/-- Timers that expire keep their owners. -/
theorem stays_pass (e : Engine π) (elapsed : Int) : e.Stays (e.pass elapsed).1 := by
  refine ⟨rfl, fun a ha => .inr ?_⟩
  obtain ⟨b, hb, hsame⟩ := List.mem_map.1 ((sublist_expire _ _).subset (List.mem_map_of_mem ha))
  exact ⟨b, hb, congrArg (fun i => i.2.2) hsame⟩

/-- What a timer command arms belongs to the current state, if there is one. -/
theorem stays_command (m : Definition) (a : String) (e : Engine π) : e.Stays (command m a e) := by
  unfold command
  split
  · split
    · refine ⟨rfl, fun armed harmed => ?_⟩
      rcases mem_putByKey harmed with rfl | harmed
      · exact .inl rfl
      · exact .inr ⟨armed, harmed, rfl⟩
    · exact .of_subset rfl (List.Subset.refl _)
  · exact .of_subset rfl List.filter_sublist.subset
  · exact .of_subset rfl (List.Subset.refl _)

/-- The engine has been carried on: with the same machine, which has stayed where it was, or has
come from a state to one that owns all timers. -/
structure Carried (m : Definition) (e e' : Engine π) : Prop where
  machine : e'.machine = some m
  moved : e.Stays e' ∨ e.current.isSome ∧ e'.Whole m
  told : e'.Told m

/-- A fair engine is carried on. -/
def Carries (m : Definition) (e e' : Engine π) : Prop := e.Fair m → Carried m e e'

namespace Carried

variable {m : Definition} {e e' e'' : Engine π}

theorem of_subset (he : e.Fair m) (hmachine : e'.machine = e.machine)
    (hcurrent : e'.current = e.current) (htimers : e'.timers ⊆ e.timers)
    (htrace : e'.trace = e.trace) : Carried m e e' :=
  ⟨hmachine.trans he.machine, .inl (.of_subset hcurrent htimers), fun x hx =>
    he.told x (htrace ▸ hx)⟩

theorem settled (h : Carried m e e') (he : e.Settled m) : e'.Settled m := by
  rcases h.moved with hstays | ⟨-, hwhole⟩
  · exact hstays.settled he
  · exact hwhole.settled

theorem whole (h : Carried m e e') (he : e.Whole m) : e'.Whole m := by
  rcases h.moved with hstays | ⟨-, hwhole⟩
  · exact hstays.whole he
  · exact hwhole

/-- A machine between two states stays there. -/
theorem stays (h : Carried m e e') (he : e.current = none) : e.Stays e' :=
  h.moved.resolve_right fun hmoved => by simp [he] at hmoved

theorem fair (h : Carried m e e') (he : e.Fair m) : e'.Fair m where
  machine := h.machine
  settled hsome := by
    rcases h.moved with hstays | ⟨-, hwhole⟩
    · exact hstays.settled (he.settled (hstays.current ▸ hsome))
    · exact hwhole.settled
  told := h.told

theorem trans (h : Carried m e e') (h' : Carried m e' e'') : Carried m e e'' where
  machine := h'.machine
  moved := by
    rcases h.moved with hstays | ⟨hsome, hwhole⟩
    · exact h'.moved.imp hstays.trans fun hmoved => ⟨hstays.current ▸ hmoved.1, hmoved.2⟩
    · exact .inr ⟨hsome, h'.whole hwhole⟩
  told := h'.told

end Carried

theorem Carries.trans {m : Definition} {e e' e'' : Engine π} (h : e.Carries m e')
    (h' : e'.Carries m e'') : e.Carries m e'' :=
  fun he => (h he).trans (h' ((h he).fair he))

theorem carries_post (m : Definition) (e : Engine π) (ev : PendingEvent π) :
    e.Carries m (e.post ev) :=
  fun he => .of_subset he rfl rfl (List.Subset.refl _) rfl

theorem carries_pass (m : Definition) (e : Engine π) (elapsed : Int) :
    e.Carries m (e.pass elapsed).1 :=
  fun he => ⟨he.machine, .inl (stays_pass e elapsed), he.told⟩

theorem carries_command (m m' : Definition) (a : String) (e : Engine π) :
    e.Carries m (command m' a e) := by
  intro he
  have hstays := stays_command m' a e
  obtain ⟨_, _, hcommand⟩ := exists_command_eq m' a e
  rw [hcommand] at hstays ⊢
  exact ⟨he.machine, .inl hstays, he.told⟩

end Engine

/-! ## The walk of a step -/

open Engine

/-- On an action, the engine is carried on. -/
def Environment.Carries (m : Definition) (env : Environment σ π ε) : Prop :=
  env.Keeps fun w v => w.engine.Carries m v.engine

namespace Engine

/-- What a stage of a walk is met with: before a state is left, it owns all timers that have an
owner, and after that none has one until a state is entered. -/
structure Handed (m : Definition) (phase : Phase) (w : World σ π) : Prop where
  machine : w.engine.machine = some m
  told : w.engine.Told m
  place :
    match phase with
    | .take state t => state ∈ m.declaration.stateIds ∧ t ∈ m.transitions ∧
      ∀ a ∈ w.engine.timers, a.owner = none ∨ a.owner = some state
    | .resolve target => target ∈ m.declaration.nodeIds ∧ w.engine.current = none ∧
      ∀ a ∈ w.engine.timers, a.owner = none
    | .enter state => state ∈ m.declaration.stateIds ∧ w.engine.current = none ∧
      ∀ a ∈ w.engine.timers, a.owner = none
    | .settle => w.engine.Settled m

theorem Fair.of_none {m : Definition} {e : Engine π} (hmachine : e.machine = some m)
    (hcurrent : e.current = none) (htold : e.Told m) : e.Fair m :=
  ⟨hmachine, fun hsome => by simp [hcurrent] at hsome, htold⟩

section Walk

variable {m : Definition} {env : Environment σ π ε} (henv : env.Carries m)
include henv

theorem ends_perform_carried (actions : List String) {w : World σ π} (hw : w.engine.Fair m) :
    Ends (perform env m actions) w (fun _ v => Carried m w.engine v.engine)
      fun _ v => Carried m w.engine v.engine := by
  induction actions generalizing w with
  | nil => exact .of_subset hw rfl rfl (List.Subset.refl _) rfl
  | cons a as ih =>
    simp only [perform, ends_bind, ends_update]
    refine (henv a w).mono (fun _ v hv => ?_) fun _ _ hv => hv hw
    have hcommand := hv.trans (carries_command m m a v.engine) hw
    exact (ih (w := ⟨command m a v.engine, v.host⟩) (hcommand.fair hw)).mono
      (fun _ _ hu => hcommand.trans hu) fun _ _ hu => hcommand.trans hu

/-- Actions between two states arm for no state, and leave the machine there. -/
theorem ends_perform_between (actions : List String) {w : World σ π}
    (hmachine : w.engine.machine = some m) (htold : w.engine.Told m)
    (hcurrent : w.engine.current = none) (howner : ∀ a ∈ w.engine.timers, a.owner = none)
    {target : String} (htarget : target ∈ m.declaration.nodeIds) :
    Ends (perform env m actions) w (fun _ v => Handed m (.resolve target) v)
      fun _ v => v.engine.Fair m := by
  have hfair := Fair.of_none hmachine hcurrent htold
  refine (ends_perform_carried henv actions hfair).mono (fun _ v hv => ?_)
    fun _ _ hv => hv.fair hfair
  have hstays := hv.stays hcurrent
  refine ⟨hv.machine, hv.told, htarget, hstays.current.trans hcurrent, ?_⟩
  exact hstays.forall_owner (· = none) hcurrent howner

/-- Leaving a state disarms all that it owns. -/
theorem ends_leave_between {state : String} {w : World σ π} {t : Transition}
    (hw : Handed m (.take state t) w) :
    Ends (leave env m state) w
      (fun _ v => v.engine.machine = some m ∧ v.engine.Told m ∧ v.engine.current = none ∧
        ∀ a ∈ v.engine.timers, a.owner = none)
      fun _ v => v.engine.Fair m := by
  obtain ⟨hmachine, htold, -, -, howner⟩ := hw
  have hfair : Fair m { w.engine with current := none } := .of_none hmachine rfl htold
  simp only [leave, ends_bind, ends_update]
  split
  · exact hfair
  · rename_i s _
    simp only [ends_bind, ends_update, ends_pure]
    refine (ends_perform_carried henv s.exit (w := ⟨_, w.host⟩) hfair).mono (fun _ v hv => ?_)
      fun _ _ hv => hv.fair hfair
    have hstays := hv.stays rfl
    refine ⟨hv.machine, hv.told, hstays.current, fun a ha => ?_⟩
    obtain ⟨ha, hother⟩ := List.mem_filter.1 ha
    have hexit := hstays.forall_owner (fun o => o = none ∨ o = some state) (.inl rfl) howner
    exact (hexit a ha).resolve_right (by simpa using hother)

/-- **A walk carries the machine on**, also if its actions take steps of their own: it ends in a
state, and breaks off between two states or in one. -/
theorem stages_handed (hm : m.declaration.WellFormed) (event : Option String)
    (payload : Option π) :
    Stages env m event payload (fun phase _ w => Handed m phase w)
      (fun _ w => Handed m .settle w) fun _ w => w.engine.Fair m := by
  constructor
  case take =>
    intro state t p w hw
    refine (ends_leave_between henv hw).mono (fun _ v hv => ?_) fun _ _ hb => hb
    exact ends_perform_between henv t.actions hv.1 hv.2.1 hv.2.2.1 hv.2.2.2
      (hm.target_mem t hw.place.2.1)
  case arrive =>
    rintro target p w hc ⟨hmachine, htold, hmem, hplace⟩
    exact ⟨hmachine, htold, m.mem_stateIds_of_choice?_eq_none hmem hc, hplace⟩
  case rechoose =>
    rintro target p w - - ⟨hmachine, htold, -, hcurrent, -⟩
    exact .of_none hmachine hcurrent htold
  case choose =>
    rintro target p w c hc - ⟨hmachine, htold, -, hcurrent, howner⟩
    have hchoice : c ∈ m.choices := List.mem_of_find?_eq_some hc
    have hbranch : ∀ b ∈ c.branches, ∀ s : σ,
        Ends (perform env m b.actions) { w with host := s }
          (fun _ v => Handed m (.resolve b.target) v) fun _ v => v.engine.Fair m :=
      fun b hb s => ends_perform_between henv b.actions (w := { w with host := s }) hmachine htold
        hcurrent howner (hm.branch_mem c hchoice b hb)
    refine ends_choose (fun s => ?_) fun b hb s => hbranch b (List.mem_filter.1 hb).1 s
    obtain ⟨b, hb, hdefault⟩ := m.exists_default hm hchoice
    rw [Option.none_or, hdefault]
    exact hbranch b hb s
  case reenter =>
    rintro state p w - ⟨hmachine, htold, -, hcurrent, -⟩
    exact .of_none hmachine hcurrent htold
  case enter =>
    rintro state p w - ⟨hmachine, htold, hmem, -, howner⟩
    obtain ⟨s, -, hstate⟩ := m.exists_state?_of_mem hmem
    rw [hstate]
    have hin : Settled m { w.engine with current := some state } :=
      ⟨⟨state, hmem, rfl⟩, fun a ha => .inl (howner a ha)⟩
    have hfair : Fair m { w.engine with current := some state } := ⟨hmachine, fun _ => hin, htold⟩
    exact (ends_perform_carried henv s.entry (w := ⟨_, w.host⟩) hfair).mono
      (fun _ _ hv => ⟨hv.machine, hv.told, hv.settled hin⟩) fun _ _ hv => hv.fair hfair
  case settle =>
    intro p w hw
    obtain ⟨state, hmem, hcurrent⟩ := hw.place.current
    rw [hcurrent]
    refine ends_choose (fun _ => ⟨hw.machine, hw.told, hw.place⟩) fun t ht _ => ?_
    have howner := hcurrent ▸ hw.place.owner
    exact ⟨hw.machine, hw.told, hmem, (List.mem_filter.1 ht).1, howner⟩

end Walk

/-! ## Steps and loads -/

/-- Where a walk has ended, the state it has ended in claims all timers. -/
theorem Handed.claim {m : Definition} {w : World σ π} (h : Handed m .settle w) :
    w.engine.claim.Whole m where
  current := h.place.current
  owner a ha := by
    obtain ⟨b, hb, rfl⟩ := List.mem_map.1 ha
    split
    · rfl
    · rename_i hsome
      exact (h.place.owner b hb).resolve_left hsome

section Operations

variable {m : Definition} {env : Environment σ π ε} (henv : env.Carries m)
  (hm : m.declaration.WellFormed)
include henv hm

theorem ends_dispatch_carried (ev : PendingEvent π) {w : World σ π} (hw : w.engine.Fair m) :
    Ends (dispatch env m ev) w
      (fun entry v => Carried m w.engine v.engine ∧
        if w.engine.current.isSome then entry.Placed m else entry.Stranded)
      fun _ v => v.engine.Fair m := by
  have hcount : Carried m w.engine { w.engine with sequence := w.engine.sequence + 1 } :=
    .of_subset hw rfl rfl (List.Subset.refl _) rfl
  simp only [dispatch, ends_bind, ends_update, ends_get]
  split
  · rename_i hnone
    refine ⟨hcount, ?_⟩
    simp only [hnone, Option.isSome_none, Bool.false_eq_true, if_false]
    exact ⟨rfl, rfl, rfl, rfl, rfl⟩
  · rename_i state hcurrent
    have hsome : w.engine.current.isSome := by rw [hcurrent]; rfl
    have hsettled := hw.settled hsome
    obtain ⟨state', hmem, hstate⟩ := hsettled.current
    obtain rfl : state = state' := by simpa [hcurrent] using hstate
    simp only [hsome, if_true]
    rw [ends_bind]
    have hthere : ∃ state ∈ m.declaration.stateIds, w.engine.current = some state :=
      hsettled.current
    refine ends_choose (fun s => ⟨hcount, hthere, hthere⟩) fun t ht s => ?_
    simp only [ends_bind, ends_update, ends_get, ends_pure]
    have hstart : Handed m (.take state t)
        (⟨{ w.engine with sequence := w.engine.sequence + 1 }, s⟩ : World σ π) :=
      ⟨hw.machine, hw.told, hmem, (List.mem_filter.1 ht).1, hcurrent ▸ hsettled.owner⟩
    refine ((stages_handed henv hm (some ev.name) ev.payload).ends _ _ hstart).mono
      (fun p v hv => ?_) fun _ _ hv => hv
    have hwhole := hv.claim
    exact ⟨⟨hv.machine, .inr ⟨hsome, hwhole⟩, hv.told⟩, ⟨state, hmem, rfl⟩, hwhole.current⟩

/-- A step from a state leads to a state that owns all timers, and one from between two states
strands; a step that is undone moves nothing. -/
theorem ends_step_carried {w : World σ π} (hw : w.engine.Fair m) :
    Ends (step env) w
      (fun entry v => Carried m w.engine v.engine ∧
        ∀ x ∈ entry, if w.engine.current.isSome then x.Placed m else x.Stranded)
      fun _ v => Carried m w.engine v.engine := by
  refine ends_step_of_loaded hw.machine (fun _ => ?_) fun ev rest hq => ?_
  · exact ⟨.of_subset hw rfl rfl (List.Subset.refl _) rfl, by simp⟩
  · have hstart : Fair m { w.engine with queue := rest, status := .running } :=
      hw.of_eq rfl rfl rfl rfl
    have hbegun : Carried m w.engine { w.engine with queue := rest, status := .running } :=
      .of_subset hw rfl rfl (List.Subset.refl _) rfl
    refine (ends_dispatch_carried henv hm ev (w := ⟨_, w.host⟩) hstart).mono
      (fun entry v hv => ?_) fun _ v hv => ?_
    · obtain ⟨hcarried, hentry⟩ := hv
      have hplaced : entry.Placed m ∨ entry.Stranded := by split at hentry <;> simp [hentry]
      have htold := Told.record (e := { v.engine with status := .ready }) hcarried.told hplaced
      obtain ⟨trace, dropped, he⟩ := exists_record_eq { v.engine with status := .ready } entry
      refine ⟨hbegun.trans (hcarried.trans ?_), by simpa using hentry⟩
      rw [he] at htold ⊢
      exact ⟨hcarried.machine, .inl (.of_subset rfl (List.Subset.refl _)), htold⟩
    · exact ⟨hv.machine, .inl (.of_subset rfl (List.Subset.refl _)), hv.told⟩

/-- However a load ends, the machine is in a state or between two states, and a load that succeeds
leaves it in a state that owns all timers. -/
theorem ends_enterMachine_handed (w : World σ π) :
    Ends (enterMachine env m) w (fun _ v => v.engine.Whole m ∧ v.engine.Fair m)
      fun _ v => v.engine.Fair m := by
  obtain ⟨marker, hmarker, hinitial⟩ := hm.initial
  obtain rfl : (⟨m.initial, none⟩ : InitialMarker) = marker := by
    simpa [Definition.declaration] using hmarker
  have hstart : Handed m (.enter m.initial)
      ({ w with engine := w.engine.reset m } : World σ π) :=
    ⟨rfl, by simp [Told, reset, fresh], hinitial, rfl, by simp [reset, fresh]⟩
  rw [ends_enterMachine]
  refine ((stages_handed henv hm none none).ends _ _ hstart).mono (fun _ v hv => ?_)
    fun _ v hv => hv.of_eq rfl rfl rfl rfl
  have hwhole : Whole m { v.engine.claim with status := .ready } := hv.claim.of_eq rfl rfl
  exact ⟨hwhole, hv.machine, fun _ => hwhole.settled, hv.told⟩

end Operations

/-- However a step ends, the engine waits for the next one. -/
theorem ends_step_ready {env : Environment σ π ε} {m : Definition} {w : World σ π}
    (hm : w.engine.machine = some m) (hw : w.engine.status = .ready) :
    Ends (step env) w (fun _ v => v.engine.status = .ready)
      fun _ v => v.engine.status = .ready := by
  refine ends_step_of_loaded hm (fun _ => hw) fun ev rest _ => ?_
  refine (ends_self _ _).mono (fun entry v _ => ?_) fun _ _ _ => rfl
  obtain ⟨_, _, he⟩ := exists_record_eq { v.engine with status := .ready } entry
  rw [he]

theorem ends_enterMachine_ready (env : Environment σ π ε) (m : Definition) (w : World σ π) :
    Ends (enterMachine env m) w (fun _ v => v.engine.status = .ready)
      fun _ v => v.engine.status = .ready :=
  ends_enterMachine.2 ((ends_self _ _).mono (fun _ _ _ => rfl) fun _ _ _ => rfl)

end Engine

/-! ## Hosts that load no machine -/

section Hosts

variable {m : Definition} (hm : m.declaration.WellFormed)
include hm

theorem Call.carries {c : Call π} (hc : c.NoLoad) {env : Option (Environment σ π ε)}
    (henv : ∀ x ∈ env, x.Carries m) (w : World σ π) :
    Ends (c.run env) w (fun _ v => w.engine.Carries m v.engine)
      fun _ v => w.engine.Carries m v.engine := by
  have hsame : w.engine.Carries m w.engine :=
    fun he => .of_subset he rfl rfl (List.Subset.refl _) rfl
  cases c with
  | post name payload =>
    simp only [Call.run, ends_bind, ends_postEvent, ends_pure]
    split
    · exact carries_post m w.engine _
    · exact hsame
  | tick elapsed =>
    simp only [Call.run, ends_map, ends_tick]
    split
    · exact hsame
    · split
      · exact hsame
      · exact carries_pass m w.engine _
  | step =>
    cases env with
    | none => exact hsame
    | some env =>
      simp only [Call.run, ends_map]
      by_cases hw : w.engine.Fair m
      · exact (ends_step_carried (henv env rfl) hm hw).mono (fun _ _ hv _ => hv.1)
          fun _ _ hv _ => hv
      · exact (ends_self _ w).mono (fun _ _ _ he => absurd he hw) fun _ _ _ he => absurd he hw
  | reload => exact hc.elim

/-- On an action, a host that loads no machine carries the engine on. -/
theorem Host.Only.carries {h : Host σ π ε} (hh : h.Only Call.NoLoad) (depth : Nat) :
    (h.environment depth).Carries m :=
  Host.Only.keeps (fun _ _ he => .of_subset he rfl rfl (List.Subset.refl _) rfl)
    (fun huv hvw => huv.trans hvw) (fun _ henv _ w hc => Call.carries hm hc henv w) hh depth

end Hosts

/-! ## Over operations -/

/-- In worlds with a machine, events and time that passes keep `inv`; a step keeps it however it
ends, and gives an entry as `good` says. -/
structure Lasts (env : Environment σ π ε) (inv : World σ π → Prop) (good : TraceEntry → Prop) :
    Prop where
  loaded : ∀ w, inv w → w.engine.machine.isSome
  post : ∀ ev w, inv w → inv { w with engine := w.engine.post ev }
  pass : ∀ elapsed w, 0 ≤ elapsed → inv w → inv { w with engine := (w.engine.pass elapsed).1 }
  step : ∀ w, inv w →
    Ends (Engine.step env) w (fun entry v => inv v ∧ ∀ x ∈ entry, good x) fun _ v => inv v

namespace Lasts

variable {env : Environment σ π ε} {inv : World σ π → Prop} {good : TraceEntry → Prop}

theorem keeps (h : Lasts env inv good) :
    Operation.Keeps env (fun op => ¬ op.IsLoad) inv (fun _ => True) fun _ w => inv w where
  loaded := h.loaded
  load _ _ hload _ := absurd trivial hload
  post := h.post
  step w hw := (h.step w hw).mono (fun _ _ hv => ⟨hv.1, fun _ _ => trivial⟩) fun _ _ hv => hv
  tick elapsed w _ hw := by
    obtain ⟨m, hm⟩ := Option.isSome_iff_exists.1 (h.loaded w hw)
    exact ends_tick_of_loaded hm (fun _ => hw) fun helapsed => h.pass _ w helapsed hw

theorem worldAfter (h : Lasts env inv good) {ops : List (Operation π)}
    (hops : ∀ op ∈ ops, ¬ op.IsLoad) {w : World σ π} (hw : inv w) :
    inv (Statechart.worldAfter env w ops) ∧ ∀ x ∈ entriesAfter env w ops, good x := by
  have hop : ∀ op ∈ ops, ∀ v, inv v → inv ((op.perform env).after v) := fun op hmem v hv =>
    ((h.keeps.ends (hops op hmem) hv).mono (fun _ _ hu => hu.1) fun _ _ hu => hu).after
  exact ⟨worldAfter_keeps hop hw, forall_mem_entriesAfter
    (fun v hv => (h.step v hv).mono (fun _ _ hu => hu) fun _ _ _ => trivial) hop hw⟩

end Lasts

section Operations

variable {m : Definition} {env : Environment σ π ε} (henv : env.Carries m)
  (hm : m.declaration.WellFormed)
include henv hm

/-- What an engine that is carried on keeps, operations keep. -/
theorem lasts_of_carried {P : Engine π → Prop} {Q : TraceEntry → Prop}
    (hkeeps : ∀ e e', Carried m e e' → P e → P e')
    (hgood : ∀ e x, P e → (if e.current.isSome then x.Placed m else x.Stranded) → Q x) :
    Lasts env (fun w => w.engine.Fair m ∧ w.engine.status = .ready ∧ P w.engine) Q where
  loaded _ hw := by rw [hw.1.machine]; rfl
  post ev w hw := by
    have hpost := carries_post m w.engine ev hw.1
    exact ⟨hpost.fair hw.1, hw.2.1, hkeeps _ _ hpost hw.2.2⟩
  pass elapsed w _ hw := by
    have hpass := carries_pass m w.engine elapsed hw.1
    exact ⟨hpass.fair hw.1, hw.2.1, hkeeps _ _ hpass hw.2.2⟩
  step w hw := by
    have hready : Ends (Engine.step env) w (fun _ v => v.engine.status = .ready)
        fun _ v => v.engine.status = .ready := ends_step_ready hw.1.machine hw.2.1
    refine ((ends_step_carried henv hm hw.1).and hready).mono (fun entry v hv => ?_)
      fun _ v hv => ⟨hv.1.fair hw.1, hv.2, hkeeps _ _ hv.1 hw.2.2⟩
    obtain ⟨⟨hcarried, hentry⟩, hstatus⟩ := hv
    exact ⟨⟨hcarried.fair hw.1, hstatus, hkeeps _ _ hcarried hw.2.2⟩,
      fun x hx => hgood w.engine x hw.2.2 (hentry x hx)⟩

theorem lasts_whole :
    Lasts env (fun w => w.engine.Fair m ∧ w.engine.status = .ready ∧ w.engine.Whole m)
      fun x => x.Placed m :=
  lasts_of_carried henv hm (fun _ _ hv => hv.whole) fun e x he hx => by
    rwa [if_pos he.settled.isSome_current] at hx

theorem lasts_settled :
    Lasts env (fun w => w.engine.Fair m ∧ w.engine.status = .ready ∧ w.engine.Settled m)
      fun x => x.Placed m :=
  lasts_of_carried henv hm (fun _ _ hv => hv.settled) fun e x he hx => by
    rwa [if_pos he.isSome_current] at hx

/-- A machine in no state stays in none. -/
theorem lasts_stranded :
    Lasts env (fun w => w.engine.Fair m ∧ w.engine.status = .ready ∧ w.engine.current = none)
      TraceEntry.Stranded :=
  lasts_of_carried henv hm (fun _ _ hv he => (hv.stays he).current.trans he)
    fun e x he hx => by simpa [he] using hx

end Operations

end Statechart
