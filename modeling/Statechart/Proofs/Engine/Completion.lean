import Mathlib
import Statechart.Proofs.Engine.Expiry
import Statechart.Proofs.Engine.Operation
import Statechart.Proofs.Engine.Recording
import Statechart.Proofs.Engine.Walk
import Statechart.Proofs.Model.Lookup

/-!
# Accepted machines do not break off

An engine that runs an accepted machine answers every operation, whatever decides its guards, as
long as its host returns on every action and only posts.

The invariant between operations is `Engine.AtRest`: the machine is in one of its states, and the
armed timers are its own. Within a step it is `Underway`, stage by stage: what a stage leads to is
declared, and from every node passed so far, arrows that are followed within a step lead to it. As
these arrows lead around no circle, the node has not been passed before (`stages_underway`).

Main statement: `accepted_machine_answers`.
-/

namespace Statechart

open Relation

variable {σ π ε : Type}

/-! ## Hosts that return -/

/-- The script does not fail as long as a machine is loaded and its calls do not fail. -/
def Script.Returns : Script σ π ε → Prop
  | .done _ => True
  | .fail _ _ => False
  | .look next => ∀ e, e.machine.isSome → (next e).Returns
  | .call _ _ next => ∀ s r, (next s (.ok r)).Returns

/-- The host returns on every action. -/
def Host.Returns (h : Host σ π ε) : Prop := ∀ a s, (h.act a s).Returns

/-- In an engine with a machine, no action fails, and the engine only gets more events. -/
def Environment.Obliging (env : Environment σ π ε) : Prop :=
  ∀ a w, w.engine.machine.isSome → Ends (env.react a) w
    (fun _ v => ∃ posted, v.engine = { w.engine with queue := w.engine.queue ++ posted })
    fun _ _ => False

theorem Script.Returns.ends {s : Script σ π ε} (hreturns : s.Returns)
    (hposts : s.Only Call.IsPost) (env : Option (Environment σ π ε)) {w : World σ π}
    (hw : w.engine.machine.isSome) :
    Ends (s.run (Call.run env)) w
      (fun _ v => ∃ posted, v.engine = { w.engine with queue := w.engine.queue ++ posted })
      fun _ _ => False := by
  induction s generalizing w with
  | done s => exact ⟨[], by simp⟩
  | fail f s => exact hreturns.elim
  | look next ih => exact ih w.engine (hreturns w.engine hw) (hposts w.engine) hw
  | call s c next ih =>
    obtain ⟨m, hm⟩ := Option.isSome_iff_exists.1 hw
    rw [ends_script_call]
    cases c with
    | post name payload =>
      refine ends_bind.2 (Engine.ends_postEvent_of_loaded (w := ⟨w.engine, s⟩) hm ?_)
      rw [ends_pure]
      have hnext := ih s (.ok .posted) (hreturns s _) (hposts.2 s _)
        (w := ⟨w.engine.post ⟨name, payload, none⟩, s⟩) hw
      refine hnext.mono (fun _ v hv => ?_) fun _ _ hv => hv
      obtain ⟨posted, hv⟩ := hv
      exact ⟨⟨name, payload, none⟩ :: posted, by simp [hv, Engine.post]⟩
    | _ => exact hposts.1.elim

theorem Host.Returns.obliging {h : Host σ π ε} (hreturns : h.Returns)
    (hposts : h.Only Call.IsPost) (depth : Nat) : (h.environment depth).Obliging := by
  intro a w hw
  cases depth with
  | zero => exact (hreturns a w.host).ends (hposts a w.host) none hw
  | succ depth => exact (hreturns a w.host).ends (hposts a w.host) (some _) hw

/-! ## Timers -/

theorem mem_putByKey {α : Type} {key : α → String} {x y : α} {ys : List α}
    (h : x ∈ putByKey key y ys) : x = y ∨ x ∈ ys := by
  induction ys with
  | nil => simpa [putByKey] using h
  | cons z zs ih =>
    simp only [putByKey] at h
    split at h
    · rcases List.mem_cons.1 h with rfl | h
      · exact .inl rfl
      · exact .inr (List.mem_cons_of_mem _ h)
    · rcases List.mem_cons.1 h with rfl | h
      · exact .inr (List.mem_cons_self ..)
      · exact (ih h).imp_right (List.mem_cons_of_mem _)

namespace Engine

/-- The engine runs the machine, and the armed timers are timers of the machine. -/
structure Fits (m : Definition) (e : Engine π) : Prop where
  machine : e.machine = some m
  timers : ∀ a ∈ e.timers, a.Of m

theorem Fits.of_subset {m : Definition} {e e' : Engine π} (h : e.Fits m)
    (hmachine : e'.machine = e.machine) (htimers : e'.timers ⊆ e.timers) : e'.Fits m :=
  ⟨hmachine.trans h.machine, fun a ha => h.timers a (htimers ha)⟩

/-- Timer commands arm only timers of the machine. -/
theorem Fits.command {m : Definition} (hm : m.declaration.WellFormed) {e : Engine π}
    (he : e.Fits m) (a : String) : (command m a e).Fits m := by
  unfold Engine.command
  split
  · rename_i id _
    split
    · rename_i t ht
      have hid : t.id = id := by simpa using List.find?_some ht
      refine ⟨he.machine, fun armed harmed => ?_⟩
      rcases mem_putByKey harmed with rfl | harmed
      · refine ⟨?_, hm.duration_pos t (List.mem_of_find?_eq_some ht)⟩
        show m.timer? t.id = some t
        rw [hid, ht]
      · exact he.timers armed harmed
    · exact he
  · exact he.of_subset rfl List.filter_sublist.subset
  · exact he

theorem Fits.claim {m : Definition} {e : Engine π} (he : e.Fits m) : e.claim.Fits m := by
  refine ⟨he.machine, fun a ha => ?_⟩
  obtain ⟨b, hb, rfl⟩ := List.mem_map.1 ha
  have hof := he.timers b hb
  split <;> exact hof

theorem current_command (m : Definition) (a : String) (e : Engine π) :
    (command m a e).current = e.current := by
  obtain ⟨_, _, he⟩ := exists_command_eq m a e
  rw [he]

end Engine

/-- In an engine that runs the machine with timers of its own armed, no action fails, and each
leaves it so and the machine where it is. -/
def Environment.Steady (m : Definition) (env : Environment σ π ε) : Prop :=
  ∀ a w, w.engine.Fits m → Ends (env.react a) w
    (fun _ v => v.engine.Fits m ∧ v.engine.current = w.engine.current) fun _ _ => False

theorem Environment.Obliging.steady {env : Environment σ π ε} (h : env.Obliging)
    (m : Definition) : env.Steady m := by
  intro a w hw
  refine (h a w (by rw [hw.machine]; rfl)).mono (fun _ v hv => ?_) fun _ _ hv => hv
  obtain ⟨posted, hv⟩ := hv
  exact ⟨hw.of_subset (by rw [hv]) (by rw [hv]; exact List.Subset.refl _), by rw [hv]⟩

namespace Engine

/-! ## Within a step -/

section Walk

variable {env : Environment σ π ε} {m : Definition} (henv : env.Steady m)
  (hm : m.declaration.WellFormed)
include henv hm

/-- Actions leave the machine where it is. -/
theorem ends_perform (actions : List String) {w : World σ π} (hw : w.engine.Fits m) :
    Ends (perform env m actions) w
      (fun _ v => v.engine.Fits m ∧ v.engine.current = w.engine.current) fun _ _ => False := by
  induction actions generalizing w with
  | nil => exact ⟨hw, rfl⟩
  | cons a as ih =>
    simp only [perform, ends_bind, ends_update]
    refine (henv a w hw).mono (fun _ v hv => ?_) fun _ _ hv => hv
    refine (ih (w := ⟨command m a v.engine, v.host⟩) (hv.1.command hm a)).mono
      (fun _ u hu => ⟨hu.1, ?_⟩) fun _ _ hu => hu
    rw [hu.2, current_command, hv.2]

/-- A declared state can be left. -/
theorem ends_leave {id : String} (hid : id ∈ m.declaration.stateIds) {w : World σ π}
    (hw : w.engine.Fits m) :
    Ends (leave env m id) w
      (fun exits v => v.engine.Fits m ∧ ∀ a ∈ exits, m.declaration.Acts a) fun _ _ => False := by
  obtain ⟨s, hs, hstate⟩ := m.exists_state?_of_mem hid
  simp only [leave, ends_bind, ends_update, hstate, ends_pure]
  have hout := ends_perform henv hm s.exit (w := ⟨{ w.engine with current := none }, w.host⟩)
    (hw.of_subset rfl (List.Subset.refl _))
  refine hout.mono (fun _ v hv => ⟨?_, fun a ha => .inl ⟨s, hs, .inr ha⟩⟩) fun _ _ hv => hv
  exact hv.1.of_subset rfl List.filter_sublist.subset

end Walk

/-- From each of the nodes, arrows that are followed within a step lead to the given one. -/
def Behind (m : Definition) (visited : List String) (node : String) : Prop :=
  ∀ n ∈ visited, TransGen m.declaration.Leads n node

theorem Behind.notMem {m : Definition} (hm : m.declaration.WellFormed) {visited : List String}
    {node : String} (h : Behind m visited node) : node ∉ visited :=
  fun hmem => hm.acyclic node (h node hmem)

theorem Behind.next {m : Definition} {visited : List String} {node next : String}
    (h : Behind m visited node) (hlead : m.declaration.Leads node next) :
    Behind m (visited ++ [node]) next := by
  intro n hn
  rcases List.mem_append.1 hn with hn | hn
  · exact (h n hn).tail hlead
  · exact List.mem_singleton.1 hn ▸ .single hlead

/-- The stage of a walk is met with the machine's own timers armed and after actions of the
machine only, and leads to a declared node that has all those passed so far behind it. -/
structure Underway (m : Definition) (phase : Phase) (p : Progress) (w : World σ π) : Prop where
  fits : w.engine.Fits m
  acts : ∀ a ∈ p.executed, m.declaration.Acts a
  leads :
    match phase with
    | .take state t =>
      state ∈ m.declaration.stateIds ∧ t ∈ m.transitions ∧ Behind m p.visited t.target
    | .resolve target => target ∈ m.declaration.nodeIds ∧ Behind m p.visited target
    | .enter state => state ∈ m.declaration.stateIds ∧ Behind m p.visited state
    | .settle => ∃ state ∈ m.declaration.stateIds, w.engine.current = some state ∧
      ∀ next, m.declaration.Leads state next → Behind m p.visited next

/-- Between operations, the machine is in one of its states, and the armed timers are its own. -/
structure AtRest (m : Definition) (e : Engine π) : Prop where
  fits : e.Fits m
  current : ∃ state ∈ m.declaration.stateIds, e.current = some state

theorem AtRest.of_subset {m : Definition} {e e' : Engine π} (h : e.AtRest m)
    (hmachine : e'.machine = e.machine) (hcurrent : e'.current = e.current)
    (htimers : e'.timers ⊆ e.timers) : e'.AtRest m := by
  obtain ⟨state, hmem, hstate⟩ := h.current
  exact ⟨h.fits.of_subset hmachine htimers, state, hmem, hcurrent.trans hstate⟩

theorem acts_run {m : Definition} {p : Progress} {actions : List String}
    (hp : ∀ a ∈ p.executed, m.declaration.Acts a)
    (hactions : ∀ a ∈ actions, m.declaration.Acts a) :
    ∀ a ∈ (p.run actions).executed, m.declaration.Acts a := by
  intro a ha
  rcases List.mem_append.1 ha with ha | ha
  · exact hp a ha
  · exact hactions a ha

/-- A choice is left by one of its branches. -/
theorem Underway.ends_branch {env : Environment σ π ε} {m : Definition} (henv : env.Steady m)
    (hm : m.declaration.WellFormed) {c : Choice} {p : Progress} {w : World σ π}
    (hw : Underway m (.resolve c.id) p w) (hc : c ∈ m.choices) {b : Branch}
    (hb : b ∈ c.branches) (s : σ) :
    Ends (perform env m b.actions) { w with host := s }
      (fun _ v => Underway m (.resolve b.target) ((p.visit c.id).run b.actions) v)
      fun _ _ => False := by
  obtain ⟨hfits, hacts, -, hbehind⟩ := hw
  refine (ends_perform henv hm b.actions (w := { w with host := s }) hfits).mono
    (fun _ v hv => ?_) fun _ _ hb => hb
  have hlead : m.declaration.Leads c.id b.target := .inl ⟨c, hc, rfl, b, hb, rfl⟩
  exact ⟨hv.1, acts_run hacts fun a ha => .inr (.inr ⟨c, hc, b, hb, ha⟩),
    hm.branch_mem c hc b hb, hbehind.next hlead⟩

/-- **A walk through a well-formed machine does not break off**, and ends in a declared state. -/
theorem stages_underway {env : Environment σ π ε} {m : Definition} (henv : env.Steady m)
    (hm : m.declaration.WellFormed) (event : Option String) (payload : Option π) :
    Stages env m event payload (Underway m)
      (fun p w => w.engine.AtRest m ∧ ∀ a ∈ p.executed, m.declaration.Acts a)
      fun _ _ => False := by
  constructor
  case take =>
    rintro state t p w ⟨hfits, hacts, hstate, ht, hbehind⟩
    refine (ends_leave henv hm hstate hfits).mono (fun exits v hv => ?_) fun _ _ hb => hb
    refine (ends_perform henv hm t.actions hv.1).mono (fun _ u hu => ?_) fun _ _ hb => hb
    refine ⟨hu.1, acts_run hacts fun a ha => ?_, hm.target_mem t ht, hbehind⟩
    rcases List.mem_append.1 ha with ha | ha
    · exact hv.2 a ha
    · exact .inr (.inl ⟨t, ht, ha⟩)
  case arrive =>
    rintro target p w hc ⟨hfits, hacts, hmem, hbehind⟩
    exact ⟨hfits, hacts, m.mem_stateIds_of_choice?_eq_none hmem hc, hbehind⟩
  case rechoose =>
    rintro target p w - hv ⟨-, -, -, hbehind⟩
    exact hbehind.notMem hm hv
  case choose =>
    intro target p w c hc _ hw
    have hmem : c ∈ m.choices := List.mem_of_find?_eq_some hc
    obtain rfl : c.id = target := by simpa using List.find?_some hc
    refine ends_choose (fun s => ?_) fun b hb s => ?_
    · obtain ⟨b, hb, hdefault⟩ := m.exists_default hm hmem
      rw [Option.none_or, hdefault]
      exact hw.ends_branch henv hm hmem hb s
    · exact hw.ends_branch henv hm hmem (List.mem_filter.1 hb).1 s
  case reenter =>
    rintro state p w hv ⟨-, -, -, hbehind⟩
    exact hbehind.notMem hm hv
  case enter =>
    rintro state p w - ⟨hfits, hacts, hmem, hbehind⟩
    obtain ⟨s, hs, hstate⟩ := m.exists_state?_of_mem hmem
    rw [hstate]
    have hentry := ends_perform henv hm s.entry
      (w := ⟨{ w.engine with current := some state }, w.host⟩)
      (hfits.of_subset rfl (List.Subset.refl _))
    refine hentry.mono (fun _ v hv => ?_) fun _ _ hb => hb
    exact ⟨hv.1, acts_run hacts fun a ha => .inl ⟨s, hs, .inl ha⟩, state, hmem, hv.2,
      fun next hlead => hbehind.next hlead⟩
  case settle =>
    rintro p w ⟨hfits, hacts, state, hmem, hcurrent, hnext⟩
    rw [hcurrent]
    refine ends_choose (fun s => ⟨⟨hfits, state, hmem, hcurrent⟩, hacts⟩) fun t ht s => ?_
    simp only [Definition.completionsFrom, Definition.transitionsFrom, List.mem_filter,
      Bool.and_eq_true, beq_iff_eq] at ht
    exact ⟨hfits, hacts, hmem, ht.1, hnext _ (.inr ⟨t, ht.1, ht.2.2, ht.2.1, rfl⟩)⟩

/-! ## Operations -/

section Operations

variable {env : Environment σ π ε} {m : Definition} (henv : env.Steady m)
  (hm : m.declaration.WellFormed)
include henv hm

/-- A step that starts in a declared state does not break off. -/
theorem ends_dispatch (ev : PendingEvent π) {w : World σ π} (hw : w.engine.AtRest m) :
    Ends (dispatch env m ev) w
      (fun entry v => v.engine.AtRest m ∧ ∀ a ∈ entry.actions, m.declaration.Acts a)
      fun _ _ => False := by
  have hrest : AtRest m { w.engine with sequence := w.engine.sequence + 1 } :=
    hw.of_subset rfl rfl (List.Subset.refl _)
  obtain ⟨state, hmem, hcurrent⟩ := hw.current
  rw [ends_dispatch_of_current hcurrent]
  refine ends_choose (fun s => ⟨hrest, by simp⟩) fun t ht s => ?_
  simp only [Definition.transitionsFrom, List.mem_filter] at ht
  have hstart : Underway m (.take state t) (.start [state])
      (⟨{ w.engine with sequence := w.engine.sequence + 1 }, s⟩ : World σ π) :=
    ⟨hrest.fits, by simp [Progress.start], hmem, ht.1, by simp [Progress.start, Behind]⟩
  exact ((stages_underway henv hm (some ev.name) ev.payload).ends _ _ hstart).mono
    (fun p v hv => ⟨⟨hv.1.fits.claim, hv.1.current⟩, hv.2⟩) fun _ _ hb => hb

/-- Whatever the engine was before, loading the machine brings it to rest. -/
theorem ends_enterMachine_of_wellFormed (w : World σ π) :
    Ends (enterMachine env m) w
      (fun actions v => v.engine.AtRest m ∧ ∀ a ∈ actions, m.declaration.Acts a)
      fun _ _ => False := by
  obtain ⟨marker, hmarker, hinitial⟩ := hm.initial
  obtain rfl : (⟨m.initial, none⟩ : InitialMarker) = marker := by
    simpa [Definition.declaration] using hmarker
  have hstart : Underway m (.enter m.initial) (.start [])
      ({ w with engine := w.engine.reset m } : World σ π) :=
    ⟨⟨rfl, by simp [reset, fresh]⟩, by simp [Progress.start], hinitial,
      by simp [Progress.start, Behind]⟩
  rw [ends_enterMachine]
  refine ((stages_underway henv hm none none).ends _ _ hstart).mono (fun p v hv => ?_)
    fun _ _ hb => hb
  have hclaim : v.engine.claim.AtRest m := ⟨hv.1.fits.claim, hv.1.current⟩
  exact ⟨hclaim.of_subset rfl rfl (List.Subset.refl _), hv.2⟩

end Operations

end Engine

/-- The operation loads no other machine than the given one, and lets no negative time pass. -/
def Operation.Proper (m : Definition) : Operation π → Prop
  | load subject => subject = .definition m
  | tick elapsed => 0 ≤ elapsed.getD Engine.defaultTick
  | post .. | step | run _ => True

theorem keeps_atRest {env : Environment σ π ε} {m : Definition} (henv : env.Steady m)
    (hm : m.declaration.WellFormed) :
    Operation.Keeps env (Operation.Proper m) (fun w => w.engine.AtRest m)
      (fun actions => ∀ a ∈ actions, m.declaration.Acts a) fun _ _ => False where
  loaded _ hw := by rw [hw.fits.machine]; rfl
  load subject w hproper _ := by
    obtain rfl : subject = .definition m := hproper
    exact Engine.ends_enterMachine_of_wellFormed henv hm w
  post _ _ hw := hw.of_subset rfl rfl (List.Subset.refl _)
  step w hw := by
    refine Engine.ends_step_of_loaded hw.fits.machine (fun _ => ⟨hw, by simp⟩) fun ev rest _ => ?_
    have hstart : Engine.AtRest m { w.engine with queue := rest, status := .running } :=
      hw.of_subset rfl rfl (List.Subset.refl _)
    refine (Engine.ends_dispatch henv hm ev (w := ⟨_, w.host⟩) hstart).mono
      (fun entry v hv => ⟨?_, by simpa using hv.2⟩) fun _ _ hb => hb
    obtain ⟨_, _, he⟩ := Engine.exists_record_eq { v.engine with status := .ready } entry
    exact hv.1.of_subset (by rw [he]) (by rw [he]) (by rw [he]; exact List.Subset.refl _)
  tick elapsed w hproper hw := by
    refine Engine.ends_tick_of_loaded hw.fits.machine (fun hback => ?_) fun _ => ?_
    · exact absurd hproper (Int.not_le.2 hback)
    · exact ⟨⟨hw.fits.machine, (expiry_expire _ hw.fits.timers).2⟩, hw.current⟩

/-- Every operation but a load leaves the machine at rest, and so does a tick that is refused. -/
theorem keeps_atRest_of_steady {env : Environment σ π ε} {m : Definition} (henv : env.Steady m)
    (hm : m.declaration.WellFormed) :
    Operation.Keeps env (fun op => ¬ op.IsLoad) (fun w => w.engine.AtRest m) (fun _ => True)
      fun _ w => w.engine.AtRest m where
  loaded := (keeps_atRest henv hm).loaded
  load _ _ hload _ := absurd trivial hload
  post := (keeps_atRest henv hm).post
  step w hw := ((keeps_atRest henv hm).step w hw).mono (fun _ _ hv => ⟨hv.1, fun _ _ => trivial⟩)
    fun _ _ hb => hb.elim
  tick _ _ _ hw := Engine.ends_tick_of_loaded hw.fits.machine (fun _ => hw) fun _ =>
    ⟨⟨hw.fits.machine, (expiry_expire _ hw.fits.timers).2⟩, hw.current⟩

/-- The actions that were run arm no timer that the machine does not have, and the loop of a
tick, however much time passes, ends and comes upon no such timer. -/
def TimersMet (m : Definition) (answer : Answer π) (w : World σ π) : Prop :=
  (∀ actions ∈ answer.runs, ∀ a ∈ actions, ∀ id,
    TimerCommand.ofAction? a = some (.start id) → (m.timer? id).isSome) ∧
  ∀ clock, Expiry m clock w.engine.timers (expire clock w.engine.timers).1
    (expire clock w.engine.timers).2

theorem timersMet_of_atRest {m : Definition} (hm : m.declaration.WellFormed) {answer : Answer π}
    {w : World σ π} (hw : w.engine.AtRest m)
    (hacts : ∀ actions ∈ answer.runs, ∀ a ∈ actions, m.declaration.Acts a) :
    TimersMet m answer w := by
  refine ⟨fun actions hactions a ha id hstart => ?_, fun clock => (expiry_expire clock
    hw.fits.timers).1⟩
  exact m.isSome_timer?_of_mem (hm.command_mem a (hacts actions hactions a ha) _ hstart)

/-- **An accepted machine answers every operation**: where a declaration has no errors, no load
of its definition and no operation after that breaks off, if the host returns on every action and
only posts, whatever it says of guards and whatever the engine was before. -/
theorem accepted_machine_answers {d : Declaration} (hd : (Validation.check d).errors = [])
    {h : Host σ π ε} (hposts : h.Only Call.IsPost) (hreturns : h.Returns) (depth : Nat)
    (w : World σ π) :
    ∃ m, (Validation.check d).definition = some m ∧
      ∀ ops : List (Operation π), (∀ op ∈ ops, op.Proper m) →
        AllAnswer (h.environment depth) (TimersMet m) w (.load (.definition m) :: ops) := by
  obtain ⟨m, hm⟩ := Option.isSome_iff_exists.1 ((Validation.isSome_definition_iff d).2 hd)
  have hwf : m.declaration.WellFormed := Definition.Accepted.wellFormed ⟨d, hm⟩
  have henv := (hreturns.obliging hposts depth).steady m
  refine ⟨m, hm, fun ops hops => ?_⟩
  have hfirst : Ends ((Operation.load (.definition m)).perform (h.environment depth)) w
      (fun answer v => TimersMet m answer v ∧ v.engine.AtRest m) fun _ _ => False := by
    refine ends_map.2 ((Engine.ends_enterMachine_of_wellFormed henv hwf w).mono
      (fun actions v hv => ⟨?_, hv.1⟩) fun _ _ hb => hb)
    exact timersMet_of_atRest hwf hv.1 (by simpa [Answer.runs] using hv.2)
  obtain ⟨answer, v, hload, hmet, hrest⟩ := hfirst.exists_ok
  exact ⟨answer, v, hload, hmet, ((keeps_atRest henv hwf).allAnswer hops hrest).mono
    fun _ _ hv => timersMet_of_atRest hwf hv.1 hv.2⟩

/-! ## A lamp -/

namespace Lamp

/-- A lamp that comes on bright or dim, and goes out after a while. A dim lamp becomes bright
when it can. -/
def declaration : Declaration where
  name := "lamp"
  initial := [⟨"off", none⟩]
  states := [⟨"off", none, [], [], none⟩, ⟨"dim", none, ["beep"], [], none⟩,
    ⟨"bright", none, ["start_timer(t)", "beep"], [], none⟩]
  choices := [⟨"level", [⟨some "full", "bright", ["beep"], none⟩, ⟨none, "dim", [], none⟩], none⟩]
  transitions := [⟨"off", "level", some "press", none, [], none⟩,
    ⟨"dim", "bright", none, some "warm", [], none⟩, ⟨"bright", "off", some "fade", none, [], none⟩]
  timers := [⟨"t", 5, "fade", true, none⟩]
  span := none

/-- A host that answers every other guard, and posts on every action. -/
def host : Host Bool Unit String where
  guard _ _ _ s := (if s then some true else none, !s)
  act _ s := .call s (.post "heard" none) fun s _ => .done s

theorem host_only_posts : host.Only Call.IsPost := fun _ _ => ⟨trivial, fun _ _ => trivial⟩

theorem host_returns : host.Returns := fun _ _ _ _ => trivial

/-- The lamp answers when it is pressed, run, left alone and stepped. -/
theorem lamp_answers :
    ∃ m, (Validation.check declaration).definition = some m ∧
      AllAnswer (host.environment 0) (TimersMet m) (.blank false)
        [.load (.definition m), .post "press" none, .run 3, .tick (some 12), .step] := by
  obtain ⟨m, hm, hanswers⟩ := accepted_machine_answers (d := declaration) (by cbv)
    host_only_posts host_returns 0 (.blank false)
  exact ⟨m, hm, hanswers _ (by simp [Operation.Proper])⟩

end Lamp

end Statechart
