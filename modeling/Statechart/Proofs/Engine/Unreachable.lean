import Mathlib
import Statechart.Proofs.Engine.Loading
import Statechart.Proofs.Engine.Retention
import Statechart.Proofs.Engine.View
import Statechart.Proofs.Validation.WellFormed

/-!
# States out of reach are never met

A check warns of each state that no arrow from elsewhere leads to. The warning is sound for whole
runs, whatever decides the guards and whatever the host does: the initial state is another one, and
a step goes along arrows from nodes it has come to, so it comes to no such state. This is the case
of a `Correspondence` in which only other nodes may be met (`Correspondence.rehook`).

Where the machine is while the host carries out an action is told by a host that watches it
(`Host.watched`). That the hooks of the state are never run is told by comparison: with other hooks
in their place, everything that can be seen is the same. As a host may look at the machine itself,
the host is shown the first machine in both cases (`Host.seeing`).

Main statement: `unreachable_state_never_met`.
-/

namespace Statechart

variable {σ π ε α : Type}

/-! ## The warning -/

/-- No arrow from elsewhere leads to a state that is warned of. -/
theorem Validation.notMem_entered_of_warning {d : Declaration} {id : String} {span : Option Span}
    (h : ⟨.unreachableState id, span⟩ ∈ (check d).warnings) : id ∉ entered d := by
  have hwarnings : (check d).warnings = warnings d := rfl
  simp only [hwarnings, warnings, List.mem_append, unusedEvents, shadowedTransitions,
    unreachableStates, List.mem_map, List.mem_flatMap, Located.mk.injEq, reduceCtorEq, false_and,
    and_false, exists_false, false_or, Caution.unreachableState.injEq] at h
  obtain ⟨s, hs, rfl, -⟩ := h
  simpa using (List.mem_filter.1 hs).2

/-- The arrows of the machine lead to other nodes than the given one, unless they leave it. -/
structure Definition.Avoids (m : Definition) (id : String) : Prop where
  initial : m.initial ≠ id
  branch : ∀ c ∈ m.choices, ∀ b ∈ c.branches, b.target ≠ id
  transition : ∀ t ∈ m.transitions, t.source ≠ id → t.target ≠ id

theorem Validation.avoids_of_warning {d : Declaration} {m : Definition}
    (hm : (check d).definition = some m) {id : String} {span : Option Span}
    (h : ⟨.unreachableState id, span⟩ ∈ (check d).warnings) : m.Avoids id := by
  have hnot := notMem_entered_of_warning h
  obtain ⟨-, -, hinitial, -, hchoices, htransitions, -⟩ := (definition_eq_some_iff d m).1 hm
  simp only [entered, List.mem_append, not_or, hinitial, ← hchoices, ← htransitions] at hnot
  obtain ⟨⟨hfirst, hnext⟩, hbranch⟩ := hnot
  refine ⟨fun heq => hfirst (by simp [heq]), fun c hc b hb heq => ?_, fun t ht hsource heq => ?_⟩
  · exact hbranch (List.mem_flatMap.2 ⟨c, hc, List.mem_map.2 ⟨b, hb, heq⟩⟩)
  · refine hnext (List.mem_map.2 ⟨t, List.mem_filter.2 ⟨ht, ?_⟩, heq⟩)
    rw [heq]
    simpa using hsource

/-! ## Other hooks -/

/-- The machine with other hooks of one state. -/
def Definition.withHooks (m : Definition) (id : String) (entry exit : List String) : Definition :=
  { m with
    states := m.states.map fun s => if s.id = id then { s with entry, exit } else s
    states_nodup := by
      have hids : (m.states.map fun s => if s.id = id then { s with entry, exit } else s).map
          State.id = m.states.map State.id := by
        rw [List.map_map]
        refine List.map_congr_left fun s _ => ?_
        simp only [Function.comp_apply]
        split <;> rfl
      rw [hids]
      exact m.states_nodup }

/-- The hooks of a state are those of the machine, unless others have been put in their place. -/
theorem Definition.state?_withHooks (m : Definition) {id other : String} (hother : other ≠ id)
    (entry exit : List String) : (m.withHooks id entry exit).state? other = m.state? other := by
  have hskip : ∀ s : State, s.id = id → ∀ ss,
      (s :: ss).find? (·.id == other) = ss.find? (·.id == other) := fun s hs ss =>
    List.find?_cons_of_neg (by simpa [hs] using Ne.symm hother)
  unfold Definition.state? Definition.withHooks
  dsimp only
  induction m.states with
  | nil => rfl
  | cons s ss ih =>
    by_cases hid : s.id = id
    · rw [List.map_cons, if_pos hid, hskip { s with entry, exit } hid, hskip s hid, ih]
    · rw [List.map_cons, if_neg hid, List.find?_cons, List.find?_cons, ih]

theorem Definition.Avoids.alike_self {m : Definition} {id : String} (h : m.Avoids id) :
    m.Alike (· ≠ id) m := by
  refine .of_closed rfl rfl rfl (fun other _ => ?_) h.initial h.branch h.transition
  cases m.state? other with
  | none => exact .none
  | some s => exact .some ⟨rfl, rfl⟩

theorem Definition.Avoids.alike_withHooks {m : Definition} {id : String} (h : m.Avoids id)
    (entry exit : List String) : (m.withHooks id entry exit).Alike (· ≠ id) m := by
  refine .of_closed rfl rfl rfl (fun other hother => ?_) h.initial h.branch h.transition
  rw [m.state?_withHooks hother]
  cases m.state? other with
  | none => exact .none
  | some s => exact .some ⟨rfl, rfl⟩

/-! ## Hosts that watch the engine -/

/-- The script with a list of the current states that the engine has been found in: at the
beginning, whenever a call comes back, and each time that the script itself looks. -/
def Script.watched : Script σ π ε → List (Option String) →
    Script (σ × List (Option String)) π ε
  | .done s, l => .look fun e => .done (s, l ++ [e.current])
  | .fail f s, l => .look fun e => .fail f (s, l ++ [e.current])
  | .look next, l => .look fun e => (next e).watched (l ++ [e.current])
  | .call s c next, l => .look fun e =>
    .call (s, l ++ [e.current]) c fun s r => (next s.1 r).watched s.2

/-- The host with a list of the current states that it has found the engine in. -/
def Host.watched (h : Host σ π ε) : Host (σ × List (Option String)) π ε where
  guard text event payload s :=
    let r := h.guard text event payload s.1
    (r.1, r.2, s.2)
  act a s := (h.act a s.1).watched s.2

theorem Script.alike_watched (s : Script σ π ε) (l : List (Option String)) :
    Script.Alike Correspondence.equal.stepwise (fun s' s => s'.1 = s) (s.watched l) s := by
  induction s generalizing l with
  | done s => exact .glance fun _ _ _ => .done rfl
  | fail f s => exact .glance fun _ _ _ => .fail f rfl
  | look next ih =>
    refine .look fun e' e he => ?_
    obtain rfl : e' = e := he
    exact ih e' _
  | call s c next ih =>
    refine .glance fun e' e _ => .call c rfl fun s' s r hs => ?_
    subst hs
    exact ih s'.1 r _

/-- The host that watches does what the host itself does. -/
theorem Host.shadows_watched (h : Host σ π ε) (depth : Nat) :
    (h.watched.environment depth).Shadows (h.environment depth) := by
  have halike : Host.Alike Correspondence.equal.stepwise (fun s' s => s'.1 = s) h.watched h :=
    ⟨fun _ _ _ _ _ hs => hs ▸ ⟨rfl, rfl⟩, fun a s' _ hs => hs ▸ (h.act a s'.1).alike_watched s'.2⟩
  exact .of_alike (halike.environment depth)

/-- The hosts are in the same state, and have found the engine only at nodes that may be met. -/
def Watches (node : String → Prop) (s' s : σ × List (Option String)) : Prop :=
  s' = s ∧ ∀ id, some id ∈ s.2 → node id

section Watched

variable {C : Correspondence π} (hC : ∀ {e' e}, C.engines e' e → e' = e)
include hC

theorem Script.watched_alike (s : Script σ π ε) {l : List (Option String)}
    (hl : ∀ id, some id ∈ l → C.node id) :
    Script.Alike C (Watches C.node) (s.watched l) (s.watched l) := by
  have hfound : ∀ {e' e} {l : List (Option String)}, C.engines e' e →
      (∀ id, some id ∈ l → C.node id) → ∀ id, some id ∈ l ++ [e.current] → C.node id := by
    intro e' e l he hl id hid
    rcases List.mem_append.1 hid with hid | hid
    · exact hl id hid
    · exact C.node_current he id (List.mem_singleton.1 hid).symm
  induction s generalizing l with
  | done s =>
    refine .look fun e' e he => ?_
    obtain rfl := hC he
    exact .done ⟨rfl, hfound he hl⟩
  | fail f s =>
    refine .look fun e' e he => ?_
    obtain rfl := hC he
    exact .fail f ⟨rfl, hfound he hl⟩
  | look next ih =>
    refine .look fun e' e he => ?_
    obtain rfl := hC he
    exact ih e' (hfound he hl)
  | call s c next ih =>
    refine .look fun e' e he => ?_
    obtain rfl := hC he
    refine .call c ⟨rfl, hfound he hl⟩ fun s' s r hs => ?_
    obtain ⟨rfl, hclean⟩ := hs
    exact ih s'.1 r hclean

theorem Host.watched_alike (h : Host σ π ε) :
    Host.Alike C (Watches C.node) h.watched h.watched where
  guard text event payload s' s hs := by
    obtain ⟨rfl, hclean⟩ := hs
    exact ⟨rfl, rfl, hclean⟩
  act a s' s hs := by
    obtain ⟨rfl, hclean⟩ := hs
    exact (h.act a s'.1).watched_alike hC hclean

end Watched

/-! ## The entries of steps -/

section Entries

variable {C : Correspondence π} {H : σ → σ → Prop} {env : Environment σ π ε}
  (henv : Environment.Alike C H env env)
include henv

theorem Engine.ends_step_within {w : World σ π} (hw : C.worlds H w w) :
    Ends (Engine.step env) w (fun entry v => C.worlds H v v ∧ ∀ e ∈ entry, e.Within C.node)
      fun _ _ => True := by
  have hends := Simulates.step henv w w hw
  unfold Ends
  cases hr : Engine.step env w with
  | error f v => trivial
  | ok entry v =>
    rw [hr] at hends
    cases hends with
    | ok hentry hv =>
      refine ⟨hv, fun e he => ?_⟩
      cases hentry with
      | none => cases he
      | some hwithin => exact Option.some_inj.1 he ▸ hwithin.1

theorem within_entriesAfter {ops : List (Operation π)} (hops : ∀ op ∈ ops, C.operations op op)
    {w : World σ π} (hw : C.worlds H w w) :
    ∀ entry ∈ entriesAfter env w ops, entry.Within C.node :=
  forall_mem_entriesAfter (fun _ hv => Engine.ends_step_within henv hv)
    (fun op hop _ hv => (Simulates.operation henv (hops op hop)).after hv) hw

end Entries

/-! ## Hosts that are shown another machine -/

namespace Engine

/-- The engine with another machine shown in place of the one that is loaded. -/
def showing (m : Definition) (e : Engine π) : Engine π :=
  { e with machine := e.machine.map fun _ => m }

theorem seen_whole (e : Engine π) : e.seen .whole = { e with machine := none } := by
  have htimers : e.timers.map TimerView.whole.armed = e.timers := List.map_id e.timers
  rw [seen, htimers]

/-- Engines that look alike in all and run the same machine are equal. -/
theorem eq_of_seen_whole {e' e : Engine π} (h : e'.seen .whole = e.seen .whole)
    (hm : e'.machine = e.machine) : e' = e := by
  rw [seen_whole, seen_whole] at h
  obtain ⟨machine', _, _, _, _, _, _, _, _, _, _, _⟩ := e'
  obtain ⟨machine, _, _, _, _, _, _, _, _, _, _, _⟩ := e
  obtain rfl : machine' = machine := hm
  simpa using h

end Engine

/-- The script, shown the given machine in place of the one that is loaded. -/
def Script.seeing (m : Definition) : Script σ π ε → Script σ π ε
  | .done s => .done s
  | .fail f s => .fail f s
  | .look next => .look fun e => (next (e.showing m)).seeing m
  | .call s c next => .call s c fun s r => (next s r).seeing m

/-- The host, shown the given machine in place of the one that is loaded. -/
def Host.seeing (m : Definition) (h : Host σ π ε) : Host σ π ε where
  guard := h.guard
  act a s := (h.act a s).seeing m

/-- How an operation ended, with the given machine in place of the one that is loaded. -/
def showingOutcome (m : Definition) :
    EStateM.Result (Fault ε) (World σ π) α → EStateM.Result (Fault ε) (World σ π) α
  | .ok a w => .ok a ⟨w.engine.showing m, w.host⟩
  | .error f w => .error f ⟨w.engine.showing m, w.host⟩

/-- The operation loads no other machine. -/
def Operation.LoadsOnly (m : Definition) : Operation π → Prop
  | load (.definition x) => x = m
  | _ => True

/-- The one machine is the first of the two given ones, and the other is the second. -/
def Definition.Pair (m' m x' x : Definition) : Prop := x' = m' ∧ x = m

section Rehook

variable {m' m : Definition} {node : String → Prop} (halike : m'.Alike node m)
  (htimers : m'.timers = m.timers)

/-- Engines correspond if they look alike in all but their machine, which is the first of the two
machines for one and the second for the other, and have met only the given nodes. -/
def Correspondence.rehook : Correspondence π :=
  .ofView .whole (fun hx : Definition.Pair m' m _ _ => hx.1 ▸ hx.2 ▸ halike) fun hx id => by
    rw [hx.1, hx.2, Definition.timer?, htimers, ← Definition.timer?]

theorem Correspondence.showing_eq {e' e : Engine π} (he : (rehook halike htimers).engines e' e) :
    e'.showing m = e := by
  refine Engine.eq_of_seen_whole he.seen ?_
  have hmachine := he.machine
  show e'.machine.map (fun _ => m) = e.machine
  cases hm : e.machine with
  | none =>
    have hnone := eq_none_of_rel (hm ▸ hmachine)
    rw [hnone, Option.map_none]
  | some x =>
    obtain ⟨x', hx', -, hx⟩ := exists_some_of_rel (hm ▸ hmachine)
    rw [hx', Option.map_some, hx]

theorem Correspondence.operations_rehook {op : Operation π} (hop : op.LoadsOnly m) :
    (rehook halike htimers).operations (op.exchange m m') op := by
  refine operations_exchange fun x hx => ?_
  subst hx
  obtain rfl : x = m := hop
  exact ⟨if_pos rfl, rfl⟩

theorem Script.seeing_alike (s : Script σ π ε) :
    Script.Alike (Correspondence.rehook halike htimers).stepwise Eq (s.seeing m) s := by
  induction s with
  | done s => exact .done rfl
  | fail f s => exact .fail f rfl
  | look next ih =>
    refine .look fun e' e he => ?_
    rw [Correspondence.showing_eq halike htimers he]
    exact ih e
  | call s c next ih => exact .call c rfl fun s' s r hs => hs ▸ ih s' r

theorem Host.seeing_alike (h : Host σ π ε) :
    Host.Alike (Correspondence.rehook halike htimers).stepwise Eq (h.seeing m) h where
  guard _ _ _ _ _ hs := hs ▸ ⟨rfl, rfl⟩
  act a s' _ hs := hs ▸ (h.act a s').seeing_alike halike htimers

/-- An engine that corresponds to one with the same machine is equal to it. -/
theorem Correspondence.eq_of_rehook_self {halike : m.Alike node m} {e' e : Engine π}
    (he : (rehook halike rfl).engines e' e) : e' = e := by
  refine Engine.eq_of_seen_whole he.seen ?_
  have hmachine := he.machine
  generalize e'.machine = x', e.machine = x at hmachine ⊢
  cases hmachine with
  | none => rfl
  | some hx => rw [hx.1, hx.2]

theorem map_showingOutcome_eq {V : α → α → Prop} (hV : ∀ a' a, V a' a → a' = a)
    {rs' rs : List (EStateM.Result (Fault ε) (World σ π) α)}
    (h : List.Forall₂ (Matches ((Correspondence.rehook halike htimers).worlds Eq) V) rs' rs) :
    rs'.map (showingOutcome m) = rs := by
  have hworld : ∀ {w' w : World σ π}, (Correspondence.rehook halike htimers).worlds Eq w' w →
      (⟨w'.engine.showing m, w'.host⟩ : World σ π) = w := fun hw => by
    rw [Correspondence.showing_eq halike htimers hw.1, hw.2]
  induction h with
  | nil => rfl
  | cons hr _ ih =>
    rw [List.map_cons, ih]
    congr 1
    cases hr with
    | ok ha hw => rw [showingOutcome, hworld hw, hV _ _ ha]
    | error hw => rw [showingOutcome, hworld hw]

end Rehook

/-! ## Runs that avoid a state -/

namespace Definition.Avoids

variable {m : Definition} {id : String} (havoids : m.Avoids id) (h : Host σ π ε)
  (depth limit : Nat) (hlimit : 0 < limit) (s : σ) {ops : List (Operation π)}
  (hops : ∀ op ∈ ops, op.LoadsOnly m)
include havoids hops

/-- A watched run corresponds to itself, with only other nodes met. -/
theorem never_met :
    let env := h.watched.environment depth
    let start : World (σ × List (Option String)) π := ⟨.fresh limit hlimit, (s, [])⟩
    let w := worldAfter env start ops
    w.engine.current ≠ some id ∧ some id ∉ w.host.2 ∧
      ∀ entry ∈ entriesAfter env start ops ++ w.engine.trace,
        some id ∉ entry.source :: entry.target :: entry.path := by
  intro env start w
  let C : Correspondence π := .rehook havoids.alike_self rfl
  have henv : Environment.Alike C (Watches C.node) env env :=
    (h.watched_alike Correspondence.eq_of_rehook_self).environment depth
  have hsame : ∀ op ∈ ops, C.operations op op := by
    intro op hop
    have hexchange := Correspondence.operations_rehook havoids.alike_self rfl (hops op hop)
    rwa [Operation.exchange_self] at hexchange
  have hstart : C.worlds (Watches C.node) start start := ⟨.fresh limit hlimit, rfl, nofun⟩
  have hw : C.worlds (Watches C.node) w w :=
    worldAfter_keeps (P := fun w => C.worlds (Watches C.node) w w)
      (fun op hop v hv => (Simulates.operation henv (hsame op hop)).after hv) hstart
  have hentries := List.forall_mem_append.2 ⟨within_entriesAfter henv hsame hstart, hw.1.trace⟩
  exact ⟨fun hcurrent => hw.1.current id hcurrent rfl, fun hfound => hw.2.2 id hfound rfl,
    fun entry hentry hmet => hentries entry hentry id hmet rfl⟩

/-- A run corresponds to the run of the machine with other hooks of the state. -/
theorem hooks_never_run (entry exit : List String) :
    (outcomes ((h.logged.seeing m).environment depth) ⟨.fresh limit hlimit, (s, [])⟩
        (ops.map (.exchange m (m.withHooks id entry exit)))).map (showingOutcome m) =
      outcomes (h.logged.environment depth) ⟨.fresh limit hlimit, (s, [])⟩ ops := by
  have halike := havoids.alike_withHooks entry exit
  have henv := (h.logged.seeing_alike halike rfl).environment depth
  have hall : List.Forall₂ (Correspondence.rehook halike rfl).operations
      (ops.map (.exchange m (m.withHooks id entry exit))) ops :=
    List.forall₂_map_left_iff.2 (List.forall₂_same.2 fun op hop =>
      Correspondence.operations_rehook halike rfl (hops op hop))
  have hstart : (Correspondence.rehook halike rfl).worlds Eq
      (⟨.fresh limit hlimit, (s, [])⟩ : World (σ × List (Asked π)) π)
      ⟨.fresh limit hlimit, (s, [])⟩ := ⟨.fresh limit hlimit, rfl⟩
  refine map_showingOutcome_eq halike rfl ?_ (Simulates.outcomes henv hall hstart)
  exact fun _ _ hanswers => hanswers.1

end Definition.Avoids

/-- **A state that is warned of is never met**: whatever operations are carried out on a new engine
that load only the machine of an accepted declaration, however guards are decided and whatever the
host does on actions, a state with the warning is not the current one, neither afterwards nor
wherever a watching host has looked, and stands in no entry of any step; the watching changes
nothing. And its hooks are never run: with any others in their place, all operations end in the
same way, with equal answers or faults, equal states of the engine and of the host, and equal logs
of the guards and actions that the host was asked, as long as the host is shown the same machine. -/
theorem unreachable_state_never_met {d : Declaration} {m : Definition}
    (hm : (Validation.check d).definition = some m) {id : String} {span : Option Span}
    (hwarning : ⟨.unreachableState id, span⟩ ∈ (Validation.check d).warnings) (h : Host σ π ε)
    (depth limit : Nat) (hlimit : 0 < limit) (s : σ) {ops : List (Operation π)}
    (hops : ∀ op ∈ ops, op.LoadsOnly m) :
    (let env := h.watched.environment depth
      let start : World (σ × List (Option String)) π := ⟨.fresh limit hlimit, (s, [])⟩
      let w := worldAfter env start ops
      w.engine.current ≠ some id ∧ some id ∉ w.host.2 ∧
        (∀ entry ∈ entriesAfter env start ops ++ w.engine.trace,
          some id ∉ entry.source :: entry.target :: entry.path) ∧
        (outcomes env start ops).map forgetOutcome =
          outcomes (h.environment depth) ⟨.fresh limit hlimit, s⟩ ops) ∧
    ∀ entry exit,
      (outcomes ((h.logged.seeing m).environment depth) ⟨.fresh limit hlimit, (s, [])⟩
          (ops.map (.exchange m (m.withHooks id entry exit)))).map (showingOutcome m) =
        outcomes (h.logged.environment depth) ⟨.fresh limit hlimit, (s, [])⟩ ops := by
  have havoids : m.Avoids id := Validation.avoids_of_warning hm hwarning
  obtain ⟨hcurrent, hfound, hentries⟩ := havoids.never_met h depth limit hlimit s hops
  exact ⟨⟨hcurrent, hfound, hentries, map_forgetOutcome_outcomes (h.shadows_watched depth) _ ops⟩,
    havoids.hooks_never_run h depth limit hlimit s hops⟩

/-! ## An elevator -/

namespace Elevator

/-- A lift that comes when it is called. It has a state of being stuck, which it can be shaken in
and repaired from, but nothing leads to it. -/
def declaration : Declaration where
  name := "lift"
  initial := [⟨"waiting", none⟩]
  states := [⟨"waiting", none, [], ["close"], none⟩,
    ⟨"riding", none, ["start_timer(ride)"], [], none⟩, ⟨"stuck", none, ["ring"], ["cheer"], none⟩]
  choices := []
  transitions := [⟨"waiting", "riding", some "call", none, [], none⟩,
    ⟨"riding", "waiting", some "arrived", none, ["open"], none⟩,
    ⟨"stuck", "stuck", some "shake", none, [], none⟩,
    ⟨"stuck", "waiting", some "repair", none, [], none⟩]
  timers := [⟨"ride", 4, "arrived", false, none⟩]
  span := none

/-- The definition of the lift. -/
def machine : Definition := .ofDeclaration declaration "waiting"

/-- A host that shakes the lift on each action and lets time pass. -/
def host : Host Nat Unit String where
  guard _ _ _ count := (none, count)
  act _ count :=
    .call (count + 1) (.post "shake" none) fun count _ =>
      .call count (.tick (some 5)) fun count _ => .done count

/-- The lift is called twice, and somebody tries to repair it. -/
def day : List (Operation Unit) :=
  [.load (.definition machine), .post "call" none, .run 5, .post "repair" none, .post "call" none,
    .tick (some 5), .run 9]

theorem checked : (Validation.check declaration).definition = some machine := by
  have hformed : declaration.WellFormed := (Validation.errors_eq_nil_iff _).1 (by cbv)
  exact (Validation.definition_eq_some_iff declaration machine).2
    ⟨hformed, rfl, rfl, rfl, rfl, rfl, rfl⟩

theorem warned : ⟨.unreachableState "stuck", none⟩ ∈ (Validation.check declaration).warnings := by
  have hwarnings :
      (Validation.check declaration).warnings = [⟨.unreachableState "stuck", none⟩] := by cbv
  rw [hwarnings]
  exact List.mem_singleton_self _

/-- The lift is never stuck, and would not notice if other actions were run where it is. -/
theorem lift_never_stuck :
    (worldAfter (host.watched.environment 0) ⟨.fresh 2 Nat.two_pos, (0, [])⟩ day).engine.current ≠
        some "stuck" ∧
      (outcomes ((host.logged.seeing machine).environment 0) ⟨.fresh 2 Nat.two_pos, (0, [])⟩
          (day.map (.exchange machine (machine.withHooks "stuck" ["fall"] [])))).map
          (showingOutcome machine) =
        outcomes (host.logged.environment 0) ⟨.fresh 2 Nat.two_pos, (0, [])⟩ day := by
  have hnever := unreachable_state_never_met checked warned host 0 2 Nat.two_pos 0
    (by simp [day, Operation.LoadsOnly] : ∀ op ∈ day, op.LoadsOnly machine)
  exact ⟨hnever.1.1, hnever.2 ["fall"] []⟩

end Elevator

end Statechart
