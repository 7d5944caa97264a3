import Mathlib.Data.List.Forall2
import Mathlib.Data.Option.Defs
import Statechart.Proofs.Engine.Operation
import Statechart.Proofs.Engine.Walk

/-!
# Two engines that do the same

Two runs are compared part by part. `Simulates R V run' run` says that from worlds that `R` relates,
both runs give results that `V` relates, or both break off with the same fault, and that `R` relates
the worlds they leave.

When two engines correspond is left open. A `StepCorrespondence` lists what is asked of it within a
step: it bears each change that a part of a step makes on both sides, and the machines of
corresponding engines are walked through the same way (`Definition.Alike`), along nodes of which the
correspondence says which may be met at all. A `Correspondence` bears the other changes that
operations make as well; its engines have the same events waiting. Hosts correspond if they answer
guards alike and follow scripts that do the same on corresponding engines (`Host.Alike`).

* `Simulates.walk` and `Simulates.dispatch` carry a correspondence through a walk and through a
  step, and `Simulates.operation` carries one through an operation;
* `Host.Alike.environment` makes corresponding environments of corresponding hosts, by induction on
  how deep calls are nested.
-/

namespace Statechart

variable {σ σ' π ε α β : Type}

/-! ## Runs that do the same -/

/-- Two operations ended alike: with results that `V` relates or with the same fault, in worlds
that `R` relates. -/
inductive Matches (R : World σ' π → World σ π → Prop) (V : α → α → Prop) :
    EStateM.Result (Fault ε) (World σ' π) α → EStateM.Result (Fault ε) (World σ π) α → Prop
  | ok {a' a : α} {w' : World σ' π} {w : World σ π} (result : V a' a) (world : R w' w) :
    Matches R V (.ok a' w') (.ok a w)
  | error {f : Fault ε} {w' : World σ' π} {w : World σ π} (world : R w' w) :
    Matches R V (.error f w') (.error f w)

/-- From worlds that `R` relates, the operations end alike. -/
def Simulates (R : World σ' π → World σ π → Prop) (V : α → α → Prop)
    (run' : Run σ' π ε α) (run : Run σ π ε α) : Prop :=
  ∀ w' w, R w' w → Matches R V (run' w') (run w)

namespace Simulates

variable {R : World σ' π → World σ π → Prop} {U : α → α → Prop} {V : β → β → Prop}

theorem pure {a' a : α} (h : U a' a) :
    Simulates R U (pure a' : Run σ' π ε α) (pure a : Run σ π ε α) :=
  fun _ _ hw => .ok h hw

theorem throw (f : Fault ε) :
    Simulates R U (throw f : Run σ' π ε α) (throw f : Run σ π ε α) :=
  fun _ _ hw => .error hw

theorem bind {x' : Run σ' π ε α} {x : Run σ π ε α} {f' : α → Run σ' π ε β} {f : α → Run σ π ε β}
    (hx : Simulates R U x' x) (hf : ∀ a' a, U a' a → Simulates R V (f' a') (f a)) :
    Simulates R V (x' >>= f') (x >>= f) := by
  intro w' w hw
  have hends := hx w' w hw
  simp only [Bind.bind, EStateM.bind]
  generalize x' w' = r', x w = r at hends ⊢
  cases hends with
  | ok ha hv => exact hf _ _ ha _ _ hv
  | error hv => exact .error hv

theorem map {x' : Run σ' π ε α} {x : Run σ π ε α} (f : α → β) (hx : Simulates R U x' x)
    (hf : ∀ a' a, U a' a → V (f a') (f a)) : Simulates R V (f <$> x') (f <$> x) := by
  intro w' w hw
  have hends := hx w' w hw
  simp only [Functor.map, EStateM.map]
  generalize x' w' = r', x w = r at hends ⊢
  cases hends with
  | ok ha hv => exact .ok (hf _ _ ha) hv
  | error hv => exact .error hv

theorem mono {V' : β → β → Prop} {x' : Run σ' π ε β} {x : Run σ π ε β} (hx : Simulates R V x' x)
    (hV : ∀ b' b, V b' b → V' b' b) : Simulates R V' x' x := by
  intro w' w hw
  have hends := hx w' w hw
  generalize x' w' = r', x w = r at hends ⊢
  cases hends with
  | ok hb hv => exact .ok (hV _ _ hb) hv
  | error hv => exact .error hv

/-- Only what the operations do in the world that they look at is compared. -/
theorem get_bind {F' : World σ' π → Run σ' π ε α} {F : World σ π → Run σ π ε α}
    (h : ∀ w' w, R w' w → Matches R U (F' w' w') (F w w)) :
    Simulates R U (get >>= F') (get >>= F) :=
  fun w' w hw => h w' w hw

end Simulates

/-! ## Machines that are walked through the same way -/

/-- The transitions are the same but for their spans, and lead to one of the nodes. -/
def Transition.Alike (node : String → Prop) (t' t : Transition) : Prop :=
  t'.bare = t.bare ∧ node t.target

/-- The branches are the same but for their spans, and lead to one of the nodes. -/
def Branch.Alike (node : String → Prop) (b' b : Branch) : Prop :=
  b'.bare = b.bare ∧ node b.target

/-- On the given nodes, which no arrow leaves, walks through the machines go the same way. -/
structure Definition.Alike (node : String → Prop) (m' m : Definition) : Prop where
  initial : m'.initial = m.initial
  node_initial : node m.initial
  state : ∀ id, node id →
    Option.Rel (fun s' s => s'.entry = s.entry ∧ s'.exit = s.exit) (m'.state? id) (m.state? id)
  choice : ∀ id, node id →
    Option.Rel (fun c' c => List.Forall₂ (Branch.Alike node) c'.branches c.branches)
      (m'.choice? id) (m.choice? id)
  transitions : ∀ id trigger, node id →
    List.Forall₂ (Transition.Alike node) (m'.transitionsFrom id trigger)
      (m.transitionsFrom id trigger)

section Alike

theorem eq_none_of_rel {R : α → β → Prop} {x' : Option α} (h : Option.Rel R x' none) :
    x' = none := by
  cases h
  rfl

theorem exists_some_of_rel {R : α → β → Prop} {x' : Option α} {a : β}
    (h : Option.Rel R x' (some a)) : ∃ a', x' = some a' ∧ R a' a := by
  cases h with
  | some ha => exact ⟨_, rfl, ha⟩

theorem rel_or {R : α → β → Prop} {x' y' : Option α} {x y : Option β}
    (hx : Option.Rel R x' x) (hy : Option.Rel R y' y) : Option.Rel R (x'.or y') (x.or y) := by
  cases hx with
  | none => exact hy
  | some ha => exact .some ha

theorem rel_head? {R : α → α → Prop} {as' as : List α} (h : List.Forall₂ R as' as) :
    Option.Rel R as'.head? as.head? := by
  cases h with
  | nil => exact .none
  | cons ha _ => exact .some ha

variable {node : String → Prop}

theorem Transition.Alike.fields {t' t : Transition} (h : t'.Alike node t) :
    t'.target = t.target ∧ t'.guard = t.guard ∧ t'.actions = t.actions := by
  have hbare := h.1
  simp only [Transition.bare, Transition.mk.injEq, and_true] at hbare
  exact ⟨hbare.2.1, hbare.2.2.2⟩

theorem Branch.Alike.fields {b' b : Branch} (h : b'.Alike node b) :
    b'.condition = b.condition ∧ b'.target = b.target ∧ b'.actions = b.actions := by
  have hbare := h.1
  simpa only [Branch.bare, Branch.mk.injEq, and_true] using hbare

theorem Branch.Alike.isDefault {b' b : Branch} (h : b'.Alike node b) :
    b'.isDefault = b.isDefault :=
  congrArg Option.isNone h.fields.1

theorem Choice.forall₂_conditioned {c' c : Choice}
    (h : List.Forall₂ (Branch.Alike node) c'.branches c.branches) :
    List.Forall₂ (Branch.Alike node) c'.conditioned c.conditioned :=
  List.rel_filter (fun _ _ hb => by simp only [hb.isDefault]) h

theorem Choice.rel_default? {c' c : Choice}
    (h : List.Forall₂ (Branch.Alike node) c'.branches c.branches) :
    Option.Rel (Branch.Alike node) c'.default? c.default? := by
  have hdefaults : List.Forall₂ (Branch.Alike node) (c'.branches.filter (·.isDefault))
      (c.branches.filter (·.isDefault)) :=
    List.rel_filter (fun _ _ hb => by simp only [hb.isDefault]) h
  simp only [Choice.default?, ← List.head?_filter]
  exact rel_head? hdefaults

end Alike

/-- Machines with equal choices and transitions, no arrow of which leads away from the given nodes,
are walked through the same way if their states agree on these nodes. -/
theorem Definition.Alike.of_closed {node : String → Prop} {m' m : Definition}
    (hinitial : m'.initial = m.initial) (hchoices : m'.choices = m.choices)
    (htransitions : m'.transitions = m.transitions)
    (hstates : ∀ id, node id →
      Option.Rel (fun s' s => s'.entry = s.entry ∧ s'.exit = s.exit) (m'.state? id) (m.state? id))
    (hstart : node m.initial) (hbranch : ∀ c ∈ m.choices, ∀ b ∈ c.branches, node b.target)
    (hnext : ∀ t ∈ m.transitions, node t.source → node t.target) : m'.Alike node m where
  initial := hinitial
  node_initial := hstart
  state := hstates
  choice id _ := by
    rw [Definition.choice?, hchoices, ← Definition.choice?]
    cases hc : m.choice? id with
    | none => exact .none
    | some c =>
      refine .some (List.forall₂_same.2 fun b hb => ⟨rfl, ?_⟩)
      exact hbranch c (List.mem_of_find?_eq_some hc) b hb
  transitions id trigger hid := by
    rw [Definition.transitionsFrom, htransitions, ← Definition.transitionsFrom]
    refine List.forall₂_same.2 fun t ht => ⟨rfl, ?_⟩
    simp only [Definition.transitionsFrom, List.mem_filter, Bool.and_eq_true, beq_iff_eq] at ht
    exact hnext t ht.1 (ht.2.1 ▸ hid)

/-- A machine is walked through as itself. -/
theorem Definition.Alike.refl (m : Definition) : m.Alike (fun _ => True) m := by
  refine .of_closed rfl rfl rfl (fun id _ => ?_) trivial (fun _ _ _ _ => trivial)
    fun _ _ _ => trivial
  cases m.state? id with
  | none => exact .none
  | some s => exact .some ⟨rfl, rfl⟩

theorem Definition.Alike.of_eq {m' m : Definition} (h : m' = m) : m'.Alike (fun _ => True) m :=
  h ▸ .refl m

/-- The entries of the steps that an answer tells of. -/
def Answer.entries : Answer π → List TraceEntry
  | stepped entry => entry.toList
  | ran entries => entries
  | loaded _ | posted | ticked _ => []

/-- All nodes that the entry names are among the given ones. -/
def TraceEntry.Within (node : String → Prop) (entry : TraceEntry) : Prop :=
  ∀ id, some id ∈ entry.source :: entry.target :: entry.path → node id

/-! ## Correspondences -/

/-- A way for engines to correspond within a step. Every change that a part of a step makes on both
sides keeps it. -/
structure StepCorrespondence (π : Type) where
  engines : Engine π → Engine π → Prop
  machines : Definition → Definition → Prop
  /-- The nodes that may be met. -/
  node : String → Prop
  alike : ∀ {m' m}, machines m' m → m'.Alike node m
  current : ∀ {e' e}, engines e' e → e'.current = e.current
  node_current : ∀ {e' e}, engines e' e → ∀ id, e.current = some id → node id
  sequence : ∀ {e' e}, engines e' e → e'.sequence = e.sequence
  move : ∀ {e' e}, engines e' e → ∀ current : Option String, (∀ id, current = some id → node id) →
    engines { e' with current } { e with current }
  count : ∀ {e' e}, engines e' e → ∀ sequence, engines { e' with sequence } { e with sequence }
  command : ∀ {m' m}, machines m' m → ∀ {e' e}, engines e' e → ∀ action,
    engines (Engine.command m' action e') (Engine.command m action e)
  disarmOwned : ∀ {e' e}, engines e' e → ∀ state,
    engines (e'.disarmOwned state) (e.disarmOwned state)
  claim : ∀ {e' e}, engines e' e → engines e'.claim e.claim

/-- A way for engines to correspond. Every change that a part of an operation makes on both sides
keeps it. -/
structure Correspondence (π : Type) extends stepwise : StepCorrespondence π where
  machine : ∀ {e' e}, engines e' e → Option.Rel machines e'.machine e.machine
  queue : ∀ {e' e}, engines e' e → e'.queue = e.queue
  await : ∀ {e' e}, engines e' e → ∀ queue, engines { e' with queue } { e with queue }
  turn : ∀ {e' e}, engines e' e → ∀ status, engines { e' with status } { e with status }
  record : ∀ {e' e}, engines e' e → ∀ entry : TraceEntry, entry.Within node →
    engines (e'.record entry) (e.record entry)
  rollBack : ∀ {e' e}, engines e' e → ∀ {b' b}, engines b' b → ∀ ev,
    engines (e'.rollBack b' ev) (e.rollBack b ev)
  reset : ∀ {e' e}, engines e' e → ∀ {m' m}, machines m' m → engines (e'.reset m') (e.reset m)
  pass : ∀ {e' e}, engines e' e → ∀ elapsed,
    engines (e'.pass elapsed).1 (e.pass elapsed).1 ∧ (e'.pass elapsed).2 = (e.pass elapsed).2

instance : Coe (Correspondence π) (StepCorrespondence π) := ⟨Correspondence.stepwise⟩

namespace StepCorrespondence

variable (C : StepCorrespondence π) (H : σ' → σ → Prop)

/-- Worlds correspond if their engines and hosts do. -/
def worlds (w' : World σ' π) (w : World σ π) : Prop :=
  C.engines w'.engine w.engine ∧ H w'.host w.host

/-- Stages of walks correspond if they are about the same nodes, which are among those that may be
met. -/
inductive phases : Phase → Phase → Prop
  | take {state : String} {t' t : Transition} (hstate : C.node state) (ht : t'.Alike C.node t) :
    phases (.take state t') (.take state t)
  | resolve {target : String} (htarget : C.node target) : phases (.resolve target) (.resolve target)
  | enter {state : String} (hstate : C.node state) : phases (.enter state) (.enter state)
  | settle : phases .settle .settle

/-- The nodes on the way are among those that may be met. -/
def progress (p' p : Progress) : Prop := p' = p ∧ ∀ id ∈ p.path, C.node id

/-- The entries name only nodes that may be met, and are equal. -/
def entries (a' a : TraceEntry) : Prop := a'.Within C.node ∧ a' = a

end StepCorrespondence

namespace Correspondence

variable (C : Correspondence π)

/-- The answers are equal, and the entries in them name only nodes that may be met. -/
def answers (a' a : Answer π) : Prop := a' = a ∧ ∀ entry ∈ a.entries, entry.Within C.node

/-- The definitions that are handed over correspond, or what is handed over is no definition. -/
inductive subjects : Subject → Subject → Prop
  | definition {m' m : Definition} (hm : C.machines m' m) :
    subjects (.definition m') (.definition m)
  | foreign (f : Foreign) : subjects (.foreign f) (.foreign f)

/-- Operations correspond if they are equal, or load corresponding definitions. -/
inductive operations : Operation π → Operation π → Prop
  | load {x' x : Subject} (hx : C.subjects x' x) : operations (.load x') (.load x)
  | post (name : String) (payload : Option π) : operations (.post name payload) (.post name payload)
  | step : operations .step .step
  | run (most : Nat) : operations (.run most) (.run most)
  | tick (elapsed : Option Int) : operations (.tick elapsed) (.tick elapsed)

end Correspondence

theorem Progress.mem_path_visit {node : String → Prop} {p : Progress} {id : String}
    {actions : List String} (hp : ∀ i ∈ p.path, node i) (hid : node id) :
    ∀ i ∈ ((p.visit id).run actions).path, node i := by
  intro i hi
  have hpath : ((p.visit id).run actions).path = p.path ++ [id] :=
    (List.append_assoc ..).symm
  rcases List.mem_append.1 (hpath ▸ hi) with hi | hi
  · exact hp i hi
  · exact List.mem_singleton.1 hi ▸ hid

/-- The operation with one definition in the place of another, where it loads this. -/
def Operation.exchange (m m' : Definition) : Operation π → Operation π
  | load (.definition x) => load (.definition (if x = m then m' else x))
  | op => op

theorem Operation.exchange_self (m : Definition) (op : Operation π) : op.exchange m m = op := by
  cases op with
  | load subject =>
    cases subject with
    | definition x =>
      have hx : (if x = m then m else x) = x := by
        split
        · rename_i hx
          exact hx.symm
        · rfl
      rw [Operation.exchange, hx]
    | foreign f => rfl
  | _ => rfl

theorem Correspondence.operations_exchange {C : Correspondence π} {m m' : Definition}
    {op : Operation π}
    (hop : ∀ x, op = .load (.definition x) → C.machines (if x = m then m' else x) x) :
    C.operations (op.exchange m m') op := by
  cases op with
  | load subject =>
    cases subject with
    | definition x => exact .load (.definition (hop x rfl))
    | foreign f => exact .load (.foreign f)
  | post name payload => exact .post name payload
  | step => exact .step
  | run most => exact .run most
  | tick elapsed => exact .tick elapsed

/-- Engines correspond if they are equal. -/
def Correspondence.equal : Correspondence π where
  engines := Eq
  machines := Eq
  node _ := True
  alike := .of_eq
  machine := by
    rintro e _ rfl
    cases e.machine with
    | none => exact .none
    | some m => exact .some rfl
  current h := congrArg Engine.current h
  node_current _ _ _ := trivial
  queue h := congrArg Engine.queue h
  sequence h := congrArg Engine.sequence h
  move h _ _ := h ▸ rfl
  await h _ := h ▸ rfl
  turn h _ := h ▸ rfl
  count h _ := h ▸ rfl
  command hm _ _ h _ := hm ▸ h ▸ rfl
  disarmOwned h _ := h ▸ rfl
  claim h := h ▸ rfl
  record h _ _ := h ▸ rfl
  rollBack h _ _ hb _ := h ▸ hb ▸ rfl
  reset h _ _ hm := h ▸ hm ▸ rfl
  pass h _ := h ▸ ⟨rfl, rfl⟩

theorem Correspondence.subjects_equal (x : Subject) :
    (equal : Correspondence π).subjects x x := by
  cases x with
  | definition m => exact .definition rfl
  | foreign f => exact .foreign f

theorem Correspondence.operations_equal (op : Operation π) : equal.operations op op := by
  cases op with
  | load subject => exact .load (subjects_equal subject)
  | post name payload => exact .post name payload
  | step => exact .step
  | run most => exact .run most
  | tick elapsed => exact .tick elapsed

/-! ## Environments that do the same -/

/-- The environments answer guards alike, and do the same on actions. -/
structure Environment.Alike (C : StepCorrespondence π) (H : σ' → σ → Prop)
    (env' : Environment σ' π ε) (env : Environment σ π ε) : Prop where
  guard : ∀ text event payload s' s, H s' s →
    (env'.guard text event payload s').1 = (env.guard text event payload s).1 ∧
      H (env'.guard text event payload s').2 (env.guard text event payload s).2
  react : ∀ action, Simulates (C.worlds H) Eq (env'.react action) (env.react action)

namespace Simulates

open StepCorrespondence

/-! ### Parts of a step -/

section Step

variable {C : StepCorrespondence π} {H : σ' → σ → Prop}

theorem update {g' g : Engine π → Engine π}
    (hg : ∀ e' e, C.engines e' e → C.engines (g' e') (g e)) :
    Simulates (C.worlds H) Eq (Engine.update g' : Run σ' π ε Unit)
      (Engine.update g : Run σ π ε Unit) :=
  fun _ _ hw => .ok rfl ⟨hg _ _ hw.1, hw.2⟩

theorem finish {V : α → α → Prop} {g' g : Engine π → Engine π}
    (hg : ∀ e' e, C.engines e' e → C.engines (g' e') (g e)) {x' : Run σ' π ε α} {x : Run σ π ε α}
    (hx : Simulates (C.worlds H) V x' x) :
    Simulates (C.worlds H) V (Engine.finish g' x') (Engine.finish g x) := by
  intro w' w hw
  have hends := hx w' w hw
  simp only [Engine.finish]
  generalize x' w' = r', x w = r at hends ⊢
  cases hends with
  | ok ha hv => exact .ok ha ⟨hg _ _ hv.1, hv.2⟩
  | error hv => exact .error ⟨hg _ _ hv.1, hv.2⟩

variable {env' : Environment σ' π ε} {env : Environment σ π ε}
  (henv : Environment.Alike C H env' env)
include henv

theorem choose {R : α → α → Prop} {condition : α → Option String}
    (hcondition : ∀ a' a, R a' a → condition a' = condition a) (event : Option String)
    (payload : Option π) {arrows' arrows : List α} (harrows : List.Forall₂ R arrows' arrows) :
    Simulates (C.worlds H) (Option.Rel R) (Engine.choose env' condition event payload arrows')
      (Engine.choose env condition event payload arrows) := by
  rintro ⟨e', s'⟩ ⟨e, s⟩ ⟨he, hs⟩
  suffices hfirst :
      Option.Rel R (firstEnabled env'.guard condition event payload arrows' s').1
          (firstEnabled env.guard condition event payload arrows s).1 ∧
        H (firstEnabled env'.guard condition event payload arrows' s').2
          (firstEnabled env.guard condition event payload arrows s).2 from
    .ok hfirst.1 ⟨he, hfirst.2⟩
  induction harrows generalizing s' s with
  | nil => exact ⟨.none, hs⟩
  | cons ha _ ih =>
    simp only [firstEnabled, hcondition _ _ ha]
    split
    · exact ⟨.some ha, hs⟩
    · rename_i g _
      obtain ⟨hanswer, hhosts⟩ := henv.guard g event payload s' s hs
      simp only [hanswer]
      split
      · exact ⟨.some ha, hhosts⟩
      · exact ih _ _ he hhosts

variable {m' m : Definition} (hm : C.machines m' m)
include hm

theorem perform (actions : List String) :
    Simulates (C.worlds H) Eq (Engine.perform env' m' actions)
      (Engine.perform env m actions) := by
  induction actions with
  | nil => exact pure rfl
  | cons a as ih =>
    refine bind (henv.react a) fun _ _ _ => ?_
    exact bind (update fun e' e he => C.command hm he a) fun _ _ _ => ih

theorem leave {id : String} (hid : C.node id) :
    Simulates (C.worlds H) Eq (Engine.leave env' m' id) (Engine.leave env m id) := by
  refine bind (update fun e' e he => C.move he none (by simp)) fun _ _ _ => ?_
  have hstates := (C.alike hm).state id hid
  cases hs : m.state? id with
  | none =>
    have hs' := eq_none_of_rel (hs ▸ hstates)
    simp only [hs']
    exact throw _
  | some s =>
    obtain ⟨s', hs', -, hexit⟩ := exists_some_of_rel (hs ▸ hstates)
    simp only [hs', hexit]
    refine bind (perform henv hm _) fun _ _ _ => ?_
    exact bind (update fun e' e he => C.disarmOwned he id) fun _ _ _ => pure rfl

/-- **A walk keeps a correspondence**: from corresponding stages, walks take the same way and end
alike. -/
theorem walk (event : Option String) (payload : Option π) {phase' phase : Phase}
    (hphase : C.phases phase' phase) {p : Progress} (hp : ∀ id ∈ p.path, C.node id) :
    Simulates (C.worlds H) C.progress (Engine.walk env' m' event payload phase' p)
      (Engine.walk env m event payload phase p) := by
  have halike := C.alike hm
  induction phase, p using Engine.walk.induct m generalizing phase' with
  | case1 p state t ih =>
    cases hphase with
    | take hstate ht =>
      obtain ⟨htarget, -, hactions⟩ := ht.fields
      rw [Engine.walk, Engine.walk, htarget, hactions]
      refine bind (leave henv hm hstate) fun exits' exits hexits => ?_
      subst hexits
      exact bind (perform henv hm _) fun _ _ _ => ih exits' (.resolve ht.2) hp
  | case2 p target hc ih =>
    cases hphase with
    | resolve htarget =>
      have hc' := eq_none_of_rel (hc ▸ halike.choice target htarget)
      rw [Engine.walk_resolve_of_none env' event payload hc',
        Engine.walk_resolve_of_none env event payload hc]
      exact ih (.enter htarget) hp
  | case3 p target c hc hv =>
    cases hphase with
    | resolve htarget =>
      obtain ⟨c', hc', -⟩ := exists_some_of_rel (hc ▸ halike.choice target htarget)
      rw [Engine.walk_resolve_of_mem env' event payload hc' hv,
        Engine.walk_resolve_of_mem env event payload hc hv]
      exact throw _
  | case4 p target c hc hv ih =>
    cases hphase with
    | resolve htarget =>
      obtain ⟨c', hc', hbranches⟩ := exists_some_of_rel (hc ▸ halike.choice target htarget)
      rw [Engine.walk_resolve_of_notMem env' event payload hc' hv,
        Engine.walk_resolve_of_notMem env event payload hc hv]
      refine bind (choose henv (fun _ _ hb => hb.fields.1) event payload
        (Choice.forall₂_conditioned hbranches)) fun chosen' chosen hchosen => ?_
      have htaken := rel_or hchosen (Choice.rel_default? hbranches)
      cases hb : chosen.or c.default? with
      | none =>
        have hb' := eq_none_of_rel (hb ▸ htaken)
        simp only [hb']
        exact throw _
      | some b =>
        obtain ⟨b', hb', halikes⟩ := exists_some_of_rel (hb ▸ htaken)
        obtain ⟨-, htarget', hactions⟩ := halikes.fields
        simp only [hb', htarget', hactions]
        refine bind (perform henv hm _) fun _ _ _ => ih b (.resolve halikes.2) ?_
        exact Progress.mem_path_visit hp htarget
  | case5 p state hv =>
    cases hphase with
    | enter hstate =>
      rw [Engine.walk_enter_of_mem env' event payload hv,
        Engine.walk_enter_of_mem env event payload hv]
      exact throw _
  | case6 p state hv ih =>
    cases hphase with
    | enter hstate =>
      rw [Engine.walk_enter_of_notMem env' event payload hv,
        Engine.walk_enter_of_notMem env event payload hv]
      have harrived : ∀ id, some state = some id → C.node id := by
        rintro id ⟨⟩
        exact hstate
      refine bind (update fun e' e he => C.move he (some state) harrived) fun _ _ _ => ?_
      have hstates := halike.state state hstate
      cases hs : m.state? state with
      | none =>
        have hs' := eq_none_of_rel (hs ▸ hstates)
        simp only [hs']
        exact throw _
      | some s =>
        obtain ⟨s', hs', hentry, -⟩ := exists_some_of_rel (hs ▸ hstates)
        simp only [hs', hentry]
        refine bind (perform henv hm _) fun _ _ _ => ih s hs .settle ?_
        exact Progress.mem_path_visit hp hstate
  | case7 p ih =>
    cases hphase
    rw [Engine.walk, Engine.walk]
    refine get_bind fun w' w hw => ?_
    rw [C.current hw.1]
    cases hcurrent : w.engine.current with
    | none => exact pure ⟨rfl, hp⟩ w' w hw
    | some state =>
      have hstate := C.node_current hw.1 state hcurrent
      refine bind (choose henv (fun _ _ ht => ht.fields.2.1) event payload
        (halike.transitions state none hstate)) (fun chosen' chosen hchosen => ?_) w' w hw
      cases hchosen with
      | none => exact pure ⟨rfl, hp⟩
      | some ht => exact ih state _ (.take hstate ht) hp

/-- A step takes corresponding transitions, and gives the same entry. -/
theorem dispatch (ev : PendingEvent π) :
    Simulates (C.worlds H) C.entries (Engine.dispatch env' m' ev)
      (Engine.dispatch env m ev) := by
  have hcount : ∀ e' e, C.engines e' e → C.engines { e' with sequence := e'.sequence + 1 }
      { e with sequence := e.sequence + 1 } := fun e' e he => by
    rw [C.sequence he]
    exact C.count he _
  refine bind (update hcount) fun _ _ _ => get_bind fun w' w hw => ?_
  simp only [C.current hw.1, C.sequence hw.1]
  cases hcurrent : w.engine.current with
  | none => exact pure ⟨by simp [TraceEntry.Within], rfl⟩ w' w hw
  | some state =>
    have hstate := C.node_current hw.1 state hcurrent
    have hstay : TraceEntry.Within C.node ⟨w.engine.sequence, some state, some state, ev.name, [],
        .unmatched, [some state]⟩ := by
      simpa [TraceEntry.Within] using hstate
    refine bind (choose henv (fun _ _ ht => ht.fields.2.1) (some ev.name) ev.payload
      ((C.alike hm).transitions state _ hstate)) (fun chosen' chosen hchosen => ?_) w' w hw
    cases hchosen with
    | none => exact pure ⟨hstay, rfl⟩
    | some ht =>
      have hstart : ∀ id ∈ (Progress.start [state]).path, C.node id := by
        simpa [Progress.start, Progress.path] using hstate
      refine bind (walk henv hm (some ev.name) ev.payload (.take hstate ht) hstart)
        fun p' p hp => ?_
      obtain ⟨rfl, hpath⟩ := hp
      refine bind (update fun e' e he => C.claim he) fun _ _ _ => get_bind fun v' v hv => ?_
      simp only [C.current hv.1, C.sequence hv.1]
      refine pure ⟨fun id hid => ?_, rfl⟩ v' v hv
      simp only [List.mem_cons, List.mem_map, Option.some.injEq, exists_eq_right] at hid
      rcases hid with rfl | harrived | hpassed
      · exact hstate
      · exact C.node_current hv.1 id harrived.symm
      · exact hpath id hpassed

end Step

/-! ### Operations -/

section Operations

variable {C : Correspondence π} {H : σ' → σ → Prop}

theorem loaded (operation : String) :
    Simulates (C.worlds H) C.machines (Engine.loaded operation : Run σ' π ε Definition)
      (Engine.loaded operation : Run σ π ε Definition) := by
  refine get_bind fun w' w hw => ?_
  have hmachine := C.machine hw.1
  cases hm : w.engine.machine with
  | none =>
    have hm' := eq_none_of_rel (hm ▸ hmachine)
    simp only [hm']
    exact throw _ w' w hw
  | some m =>
    obtain ⟨m', hm', hmachines⟩ := exists_some_of_rel (hm ▸ hmachine)
    simp only [hm']
    exact pure hmachines w' w hw

theorem postEvent (name : String) (payload : Option π) :
    Simulates (C.worlds H) Eq (Engine.postEvent name payload : Run σ' π ε Unit)
      (Engine.postEvent name payload : Run σ π ε Unit) := by
  refine bind (loaded _) fun _ _ _ => update fun e' e he => ?_
  simp only [Engine.post, C.queue he]
  exact C.await he _

theorem tick (elapsed : Option Int) :
    Simulates (C.worlds H) Eq (Engine.tick elapsed : Run σ' π ε (List (PendingEvent π)))
      (Engine.tick elapsed : Run σ π ε (List (PendingEvent π))) := by
  refine bind (loaded _) fun _ _ _ => ?_
  dsimp only
  split
  · exact throw _
  · refine get_bind fun w' w hw => ?_
    have hpass := C.pass hw.1 (elapsed.getD Engine.defaultTick)
    exact .ok hpass.2 ⟨hpass.1, hw.2⟩

variable {env' : Environment σ' π ε} {env : Environment σ π ε}
  (henv : Environment.Alike C H env' env)
include henv

theorem enterMachine {m' m : Definition} (hm : C.machines m' m) :
    Simulates (C.worlds H) Eq (Engine.enterMachine env' m') (Engine.enterMachine env m) := by
  have hnone : ∀ id ∈ (Progress.start []).path, C.node id := by
    simp [Progress.start, Progress.path]
  have hwalk := walk henv hm none none (.enter (C.alike hm).node_initial) hnone
  unfold Engine.enterMachine
  rw [(C.alike hm).initial]
  refine bind (update fun e' e he => C.reset he hm) fun _ _ _ => ?_
  refine finish (fun e' e he => C.turn he .ready) (bind hwalk fun p' p hp => ?_)
  exact bind (update fun e' e he => C.claim he) fun _ _ _ => pure (hp.1 ▸ rfl)

theorem load {x' x : Subject} (hx : C.subjects x' x) :
    Simulates (C.worlds H) Eq (Engine.load env' x') (Engine.load env x) := by
  cases hx with
  | definition hm => exact enterMachine henv hm
  | foreign f => exact throw _

/-- A step from corresponding worlds, and its undoing, keep the correspondence. -/
theorem step :
    Simulates (C.worlds H) (Option.Rel C.entries) (Engine.step env') (Engine.step env) := by
  refine bind (loaded _) fun m' m hm => get_bind fun w' w hw => ?_
  simp only [C.queue hw.1]
  cases w.engine.queue with
  | nil => exact pure .none w' w hw
  | cons ev rest =>
    refine bind (update fun e' e he => C.turn (C.await he rest) .running) (fun _ _ _ => ?_) w' w hw
    intro v' v hv
    have hends := dispatch henv hm ev v' v hv
    dsimp only
    generalize Engine.dispatch env' m' ev v' = r', Engine.dispatch env m ev v = r at hends ⊢
    cases hends with
    | ok hentry hu =>
      have hready := C.record (C.turn hu.1 .ready) _ hentry.1
      rw [← hentry.2]
      exact .ok (.some ⟨hentry.1, rfl⟩) ⟨hready, hu.2⟩
    | error hu => exact .error ⟨C.rollBack hu.1 hw.1 ev, hu.2⟩

theorem steps (n : Nat) :
    Simulates (C.worlds H) (List.Forall₂ C.entries) (Engine.steps env' n)
      (Engine.steps env n) := by
  induction n with
  | zero => exact pure .nil
  | succ n ih =>
    refine get_bind fun w' w hw => ?_
    simp only [C.queue hw.1]
    split
    · exact pure .nil w' w hw
    · refine bind (step henv) (fun entry' entry hentry => ?_) w' w hw
      refine bind ih fun entries' entries hentries => pure ?_
      cases hentry with
      | none => exact hentries
      | some he => exact .cons he hentries

/-- **Operations keep a correspondence**: from corresponding worlds, operations that correspond give
the same answer or break off with the same fault. -/
theorem operation {op' op : Operation π} (hop : C.operations op' op) :
    Simulates (C.worlds H) C.answers (op'.perform env') (op.perform env) := by
  cases hop with
  | load hx => exact map _ (load henv hx) fun _ _ ha => ⟨ha ▸ rfl, by simp [Answer.entries]⟩
  | post name payload =>
    exact bind (postEvent _ _) fun _ _ _ => pure ⟨rfl, by simp [Answer.entries]⟩
  | step =>
    refine map _ (step henv) fun entry' entry hentry => ?_
    cases hentry with
    | none => exact ⟨rfl, by simp [Answer.entries]⟩
    | some he => exact ⟨he.2 ▸ rfl, by simpa [Answer.entries, ← he.2] using he.1⟩
  | run most =>
    refine map _ (bind (loaded _) fun _ _ _ => steps henv most) fun entries' entries hentries => ?_
    obtain ⟨hwithin, hequal⟩ := (List.forall₂_and_left ..).1 hentries
    rw [List.forall₂_eq_eq_eq] at hequal
    exact ⟨hequal ▸ rfl, hequal ▸ hwithin⟩
  | tick elapsed => exact map _ (tick elapsed) fun _ _ ha => ⟨ha ▸ rfl, by simp [Answer.entries]⟩

end Operations

end Simulates

/-! ## Hosts that do the same -/

/-- The scripts do the same on corresponding engines: they end or fail alike, or make the same call
and go on alike with every reply. The first may look at its engine more often. -/
inductive Script.Alike (C : StepCorrespondence π) (H : σ' → σ → Prop) :
    Script σ' π ε → Script σ π ε → Prop
  | done {s' : σ'} {s : σ} (hs : H s' s) : Alike C H (.done s') (.done s)
  | fail (f : Fault ε) {s' : σ'} {s : σ} (hs : H s' s) : Alike C H (.fail f s') (.fail f s)
  | look {next' : Engine π → Script σ' π ε} {next : Engine π → Script σ π ε}
    (hnext : ∀ e' e, C.engines e' e → Alike C H (next' e') (next e)) :
    Alike C H (.look next') (.look next)
  | glance {next' : Engine π → Script σ' π ε} {s : Script σ π ε}
    (hnext : ∀ e' e, C.engines e' e → Alike C H (next' e') s) : Alike C H (.look next') s
  | call (c : Call π) {s' : σ'} {s : σ}
    {next' : σ' → Except (Fault ε) (Reply π) → Script σ' π ε}
    {next : σ → Except (Fault ε) (Reply π) → Script σ π ε} (hs : H s' s)
    (hnext : ∀ s' s r, H s' s → Alike C H (next' s' r) (next s r)) :
    Alike C H (.call s' c next') (.call s c next)

/-- The hosts answer guards alike, and follow scripts that do the same. -/
structure Host.Alike (C : StepCorrespondence π) (H : σ' → σ → Prop) (h' : Host σ' π ε)
    (h : Host σ π ε) : Prop where
  guard : ∀ text event payload s' s, H s' s →
    (h'.guard text event payload s').1 = (h.guard text event payload s).1 ∧
      H (h'.guard text event payload s').2 (h.guard text event payload s).2
  act : ∀ action s' s, H s' s → Script.Alike C H (h'.act action s') (h.act action s)

section Hosts

variable {C : Correspondence π} {H : σ' → σ → Prop}

theorem Simulates.call {env' : Option (Environment σ' π ε)} {env : Option (Environment σ π ε)}
    (henv : Option.Rel (Environment.Alike C H) env' env) (c : Call π) :
    Simulates (C.worlds H) Eq (c.run env') (c.run env) := by
  cases c with
  | post name payload => exact bind (postEvent _ _) fun _ _ _ => pure rfl
  | tick elapsed => exact map _ (tick elapsed) fun _ _ ha => ha ▸ rfl
  | step =>
    cases henv with
    | none => exact throw _
    | some henv =>
      refine map _ (step henv) fun entry' entry hentry => ?_
      cases hentry with
      | none => rfl
      | some he => rw [he.2]
  | reload =>
    cases henv with
    | none => exact throw _
    | some henv =>
      exact bind (loaded _) fun _ _ hm => map _ (enterMachine henv hm) fun _ _ ha => ha ▸ rfl

theorem Script.Alike.run {call' : Call π → Run σ' π ε (Reply π)}
    {call : Call π → Run σ π ε (Reply π)}
    (hcall : ∀ c, Simulates (C.worlds H) Eq (call' c) (call c))
    {s' : Script σ' π ε} {s : Script σ π ε} (h : Script.Alike C H s' s) :
    Simulates (C.worlds H) Eq (s'.run call') (s.run call) := by
  induction h with
  | done hs => exact fun w' w hw => .ok rfl ⟨hw.1, hs⟩
  | fail f hs => exact fun w' w hw => .error ⟨hw.1, hs⟩
  | look _ ih => exact fun w' w hw => ih w'.engine w.engine hw.1 w' w hw
  | glance _ ih => exact fun w' w hw => ih w'.engine w.engine hw.1 w' w hw
  | @call c s' s next' next hs _ ih =>
    intro w' w hw
    have hends := hcall c { w' with host := s' } { w with host := s } ⟨hw.1, hs⟩
    simp only [Script.run]
    generalize call' c { w' with host := s' } = r', call c { w with host := s } = r at hends ⊢
    cases hends with
    | ok ha hv => exact ha ▸ ih _ _ _ hv.2 _ _ hv
    | error hv => exact ih _ _ _ hv.2 _ _ hv

/-- The environments of corresponding hosts do the same, however deep calls may be nested. -/
theorem Host.Alike.environment {h' : Host σ' π ε} {h : Host σ π ε} (hh : Host.Alike C H h' h)
    (depth : Nat) : Environment.Alike C H (h'.environment depth) (h.environment depth) := by
  have hreact : ∀ {env'} {env : Option (Environment σ π ε)},
      Option.Rel (Environment.Alike C H) env' env → ∀ action,
        Simulates (C.worlds H) Eq (h'.react (Call.run env') action)
          (h.react (Call.run env) action) := fun henv action w' w hw =>
    Script.Alike.run (Simulates.call henv) (hh.act action _ _ hw.2) w' w hw
  induction depth with
  | zero => exact ⟨hh.guard, hreact .none⟩
  | succ depth ih => exact ⟨hh.guard, hreact (.some ih)⟩

end Hosts

end Statechart
