import Statechart.Proofs.Engine.Ends

/-!
# The walk of a step, stage by stage

The recursion of `Engine.walk` is opened once, here. `Stages` lists what a property of the stages
has to meet for a walk to keep it; `Stages.ends` carries it through a whole walk.

`Upholds` is for invariants that do not depend on the stage: what actions with their timer
commands, guards and the engine's own changes keep, a walk keeps, however it ends
(`Upholds.walk`); a step keeps it too if it bears the counting of steps and the claim of timers
(`Upholds.dispatch`). `RespectsWalk` and `Respects` are for relations between the world before and
after: whatever relates the world before and after an action, a guard and the engine's own changes
of its current state and timers, relates it before and after a walk (`RespectsWalk.walk`); if it
bears changes of the step counter as well, it relates the world before and after a step
(`Respects.dispatch`).
-/

namespace Statechart.Engine

variable {σ π ε : Type}

/-! ## The stages of a walk -/

section Equations

variable (env : Environment σ π ε) {m : Definition} (event : Option String) (payload : Option π)
  {p : Progress}

theorem walk_resolve_of_none {target : String} (hc : m.choice? target = none) :
    walk env m event payload (.resolve target) p = walk env m event payload (.enter target) p := by
  rw [walk]
  split <;> simp_all

theorem walk_resolve_of_mem {target : String} {c : Choice} (hc : m.choice? target = some c)
    (hv : target ∈ p.visited) :
    walk env m event payload (.resolve target) p = throw (.cycle (p.path ++ [target])) := by
  rw [walk]
  split
  · simp_all
  · rw [dif_pos hv]

theorem walk_resolve_of_notMem {target : String} {c : Choice} (hc : m.choice? target = some c)
    (hv : target ∉ p.visited) :
    walk env m event payload (.resolve target) p = (do
      let chosen ← choose env Branch.condition event payload c.conditioned
      match chosen.or c.default? with
      | none => throw (.missingDefault target)
      | some b =>
        perform env m b.actions
        walk env m event payload (.resolve b.target) ((p.visit target).run b.actions)) := by
  rw [walk]
  split
  · simp_all
  · rename_i c' hc'
    obtain rfl : c = c' := by simpa [hc] using hc'
    exact dif_neg hv

theorem walk_enter_of_mem {state : String} (hv : state ∈ p.visited) :
    walk env m event payload (.enter state) p = throw (.cycle (p.path ++ [state])) := by
  rw [walk, dif_pos hv]

theorem walk_enter_of_notMem {state : String} (hv : state ∉ p.visited) :
    walk env m event payload (.enter state) p = (do
      update fun e => { e with current := some state }
      match m.state? state with
      | none => throw (.unknownState state)
      | some s =>
        perform env m s.entry
        walk env m event payload .settle ((p.visit state).run s.entry)) := by
  rw [walk, dif_neg hv]
  congr 1
  funext _
  split <;> simp_all

end Equations

/-! ## A rule for walks -/

/-- What `inv` holds of the stages of a walk is kept from each stage to the next, and gives `ok`
where the walk ends and `broken` where it breaks off. -/
structure Stages (env : Environment σ π ε) (m : Definition) (event : Option String)
    (payload : Option π) (inv : Phase → Progress → World σ π → Prop)
    (ok : Progress → World σ π → Prop) (broken : Fault ε → World σ π → Prop) : Prop where
  take : ∀ state t p w, inv (.take state t) p w →
    Ends (leave env m state) w (fun exits v => Ends (perform env m t.actions) v
      (fun _ v => inv (.resolve t.target) (p.run (exits ++ t.actions)) v) broken) broken
  /-- A node that is no choice is entered. -/
  arrive : ∀ target p w, m.choice? target = none → inv (.resolve target) p w →
    inv (.enter target) p w
  /-- A choice that has been passed. -/
  rechoose : ∀ target p w, m.isChoice target → target ∈ p.visited → inv (.resolve target) p w →
    broken (.cycle (p.path ++ [target])) w
  choose : ∀ target p w c, m.choice? target = some c → target ∉ p.visited →
    inv (.resolve target) p w →
    Ends (choose env Branch.condition event payload c.conditioned) w
      (fun chosen v => match chosen.or c.default? with
        | none => broken (.missingDefault target) v
        | some b => Ends (perform env m b.actions) v
          (fun _ v => inv (.resolve b.target) ((p.visit target).run b.actions) v) broken) broken
  /-- A state that has been passed. -/
  reenter : ∀ state p w, state ∈ p.visited → inv (.enter state) p w →
    broken (.cycle (p.path ++ [state])) w
  enter : ∀ state p w, state ∉ p.visited → inv (.enter state) p w →
    match m.state? state with
    | none => broken (.unknownState state)
        { w with engine := { w.engine with current := some state } }
    | some s => Ends (perform env m s.entry)
        { w with engine := { w.engine with current := some state } }
        (fun _ v => inv .settle ((p.visit state).run s.entry) v) broken
  settle : ∀ p w, inv .settle p w →
    match w.engine.current with
    | none => ok p w
    | some state =>
      Ends (Engine.choose env Transition.guard event payload (m.completionsFrom state)) w
        (fun chosen v => match chosen with
          | none => ok p v
          | some t => inv (.take state t) p v) broken

theorem Stages.ends {env : Environment σ π ε} {m : Definition} {event : Option String}
    {payload : Option π} {inv : Phase → Progress → World σ π → Prop}
    {ok : Progress → World σ π → Prop} {broken : Fault ε → World σ π → Prop}
    (h : Stages env m event payload inv ok broken) (phase : Phase) (p : Progress)
    {w : World σ π} (hw : inv phase p w) :
    Ends (walk env m event payload phase p) w ok broken := by
  induction phase, p using walk.induct m generalizing w with
  | case1 p state t ih =>
    rw [walk]
    simp only [ends_bind]
    refine (h.take state t p w hw).mono (fun exits v hv => ?_) fun _ _ hb => hb
    exact hv.mono (fun _ v hv => ih exits hv) fun _ _ hb => hb
  | case2 p target hc ih =>
    rw [walk_resolve_of_none env event payload hc]
    exact ih (h.arrive target p w hc hw)
  | case3 p target c hc hv =>
    rw [walk_resolve_of_mem env event payload hc hv, ends_throw]
    exact h.rechoose target p w (by simp [Definition.isChoice, hc]) hv hw
  | case4 p target c hc hv ih =>
    rw [walk_resolve_of_notMem env event payload hc hv, ends_bind]
    refine (h.choose target p w c hc hv hw).mono (fun chosen v hb => ?_) fun _ _ hb => hb
    cases hb' : chosen.or c.default? with
    | none => simpa [hb'] using hb
    | some b =>
      rw [hb'] at hb
      simp only [ends_bind]
      exact hb.mono (fun _ v hv => ih b hv) fun _ _ hb => hb
  | case5 p state hv =>
    rw [walk_enter_of_mem env event payload hv, ends_throw]
    exact h.reenter state p w hv hw
  | case6 p state hv ih =>
    rw [walk_enter_of_notMem env event payload hv]
    simp only [ends_bind, ends_update]
    have hs := h.enter state p w hv hw
    cases hn : m.state? state with
    | none => simpa [hn] using hs
    | some s =>
      rw [hn] at hs
      simp only [ends_bind]
      exact hs.mono (fun _ v hv => ih s hn hv) fun _ _ hb => hb
  | case7 p ih =>
    rw [walk]
    simp only [ends_bind, ends_get]
    have hs := h.settle p w hw
    cases hn : w.engine.current with
    | none => simpa [hn] using hs
    | some state =>
      rw [hn] at hs
      simp only [ends_bind]
      refine hs.mono (fun chosen v hc => ?_) fun _ _ hb => hb
      cases chosen with
      | none => simpa using hc
      | some t => exact ih state t hc

/-! ## Invariants that do not depend on the stage -/

/-- A choice between arrows changes only the state of the host, by guards that are asked. -/
theorem ends_choose_of_guard {env : Environment σ π ε} {inv : World σ π → Prop}
    (hguard : ∀ text event payload w, inv w →
      inv { w with host := (env.guard text event payload w.host).2 })
    {α : Type} (condition : α → Option String) (event : Option String) (payload : Option π)
    (arrows : List α) {w : World σ π} (hw : inv w) :
    Ends (Engine.choose env condition event payload arrows) w (fun _ v => inv v)
      fun _ v => inv v := by
  show inv { w with host := (firstEnabled env.guard condition event payload arrows w.host).2 }
  induction arrows generalizing w with
  | nil => exact hw
  | cons a as ih =>
    simp only [firstEnabled]
    split
    · exact hw
    · rename_i g hg
      have hask := hguard g event payload w hw
      split
      · exact hask
      · exact ih (w := { w with host := (env.guard g event payload w.host).2 }) hask

/-- Actions with their timer commands, guards, and the walk's own changes of the engine keep the
invariant. -/
structure Upholds (env : Environment σ π ε) (m : Definition) (inv : World σ π → Prop) : Prop where
  act : ∀ a w, inv w → Ends (env.react a) w
    (fun _ v => inv { v with engine := command m a v.engine }) fun _ v => inv v
  guard : ∀ text event payload w, inv w →
    inv { w with host := (env.guard text event payload w.host).2 }
  current : ∀ w current, inv w → inv { w with engine := { w.engine with current } }
  disarm : ∀ w id, inv w → inv { w with engine := w.engine.disarmOwned id }

namespace Upholds

variable {env : Environment σ π ε} {m : Definition} {inv : World σ π → Prop}

theorem perform (h : Upholds env m inv) (actions : List String) {w : World σ π} (hw : inv w) :
    Ends (Engine.perform env m actions) w (fun _ v => inv v) fun _ v => inv v := by
  induction actions generalizing w with
  | nil => exact hw
  | cons a as ih =>
    simp only [Engine.perform, ends_bind, ends_update]
    exact (h.act a w hw).mono (fun _ _ hv => ih hv) fun _ _ hv => hv

theorem leave (h : Upholds env m inv) (id : String) {w : World σ π} (hw : inv w) :
    Ends (Engine.leave env m id) w (fun _ v => inv v) fun _ v => inv v := by
  have hout := h.current w none hw
  simp only [Engine.leave, ends_bind, ends_update]
  split
  · exact hout
  · rename_i s _
    simp only [ends_bind, ends_update, ends_pure]
    exact (h.perform s.exit hout).mono (fun _ v hv => h.disarm v id hv) fun _ _ hv => hv

theorem walk (h : Upholds env m inv) (event : Option String) (payload : Option π) (phase : Phase)
    (p : Progress) {w : World σ π} (hw : inv w) :
    Ends (Engine.walk env m event payload phase p) w (fun _ v => inv v) fun _ v => inv v := by
  suffices hstages : Stages env m event payload (fun _ _ v => inv v) (fun _ v => inv v)
      fun _ v => inv v from hstages.ends phase p hw
  constructor
  case take =>
    intro state t p v hv
    exact (h.leave state hv).mono (fun _ _ hu => h.perform t.actions hu) fun _ _ hu => hu
  case arrive => exact fun _ _ _ _ hv => hv
  case rechoose => exact fun _ _ _ _ _ hv => hv
  case choose =>
    intro target p v c _ _ hv
    refine (ends_choose_of_guard h.guard Branch.condition event payload c.conditioned hv).mono
      (fun chosen u hu => ?_) fun _ _ hu => hu
    split
    · exact hu
    · exact h.perform _ hu
  case reenter => exact fun _ _ _ _ hv => hv
  case enter =>
    intro state p v _ hv
    have hin := h.current v (some state) hv
    split
    · exact hin
    · exact h.perform _ hin
  case settle =>
    intro p v hv
    split
    · exact hv
    · refine (ends_choose_of_guard h.guard Transition.guard event payload _ hv).mono
        (fun chosen u hu => ?_) fun _ _ hu => hu
      cases chosen <;> exact hu

/-- What a walk keeps, a step keeps if it bears that steps are counted and that timers are given to
the current state. -/
theorem dispatch (h : Upholds env m inv)
    (hcount : ∀ w sequence, inv w → inv { w with engine := { w.engine with sequence } })
    (hclaim : ∀ w, inv w → inv { w with engine := w.engine.claim }) (ev : PendingEvent π)
    {w : World σ π} (hw : inv w) :
    Ends (Engine.dispatch env m ev) w (fun _ v => inv v) fun _ v => inv v := by
  have hcounted := hcount w (w.engine.sequence + 1) hw
  simp only [Engine.dispatch, ends_bind, ends_update, ends_get]
  split
  · exact hcounted
  · rw [ends_bind]
    refine (ends_choose_of_guard h.guard Transition.guard (some ev.name) ev.payload _
      hcounted).mono (fun chosen v hv => ?_) fun _ _ hv => hv
    cases chosen with
    | none => exact hv
    | some t =>
      simp only [ends_bind, ends_update, ends_get, ends_pure]
      exact (h.walk (some ev.name) ev.payload _ _ hv).mono (fun _ u hu => hclaim u hu)
        fun _ _ hu => hu

end Upholds

/-! ## Relations that do not depend on the stage -/

/-- The relation holds between the world before and after each part of a walk: an action shown to
the environment, a guard, and the walk's own changes of the engine. -/
structure RespectsWalk (env : Environment σ π ε) (R : World σ π → World σ π → Prop) : Prop where
  refl : ∀ w, R w w
  trans : ∀ {u v w}, R u v → R v w → R u w
  react : ∀ a w, Ends (env.react a) w (fun _ v => R w v) (fun _ v => R w v)
  guard : ∀ text event payload w,
    R w { w with host := (env.guard text event payload w.host).2 }
  /-- The current state and what is armed may change. -/
  progress : ∀ w current timers timerSequence, R w { w with
    engine := { w.engine with current, timers, timerSequence } }

/-- The relation holds between the world before and after each part of a step: an action shown
to the environment, a guard, and the engine's own changes. -/
structure Respects (env : Environment σ π ε) (R : World σ π → World σ π → Prop) : Prop where
  refl : ∀ w, R w w
  trans : ∀ {u v w}, R u v → R v w → R u w
  react : ∀ a w, Ends (env.react a) w (fun _ v => R w v) (fun _ v => R w v)
  guard : ∀ text event payload w,
    R w { w with host := (env.guard text event payload w.host).2 }
  /-- What `rollBack` takes back may change. -/
  progress : ∀ w current timers timerSequence sequence, R w { w with
    engine := { w.engine with current, timers, timerSequence, sequence } }

/-- A timer command changes the armed timers and their counter only. -/
theorem exists_command_eq (m : Definition) (a : String) (e : Engine π) :
    ∃ timers timerSequence, command m a e = { e with timers, timerSequence } := by
  unfold command
  split
  · split
    · exact ⟨_, _, rfl⟩
    · exact ⟨_, _, rfl⟩
  · exact ⟨_, _, rfl⟩
  · exact ⟨_, _, rfl⟩

namespace RespectsWalk

variable {env : Environment σ π ε} {R : World σ π → World σ π → Prop}

/-- What the world is related to before, it is related to through a walk. -/
theorem upholds (h : RespectsWalk env R) (m : Definition) (w : World σ π) :
    Upholds env m (R w) where
  act a v hv := by
    refine (h.react a v).mono (fun _ u hu => ?_) fun _ _ hu => h.trans hv hu
    obtain ⟨timers, timerSequence, hc⟩ := exists_command_eq m a u.engine
    rw [hc]
    exact h.trans hv (h.trans hu (h.progress u u.engine.current timers timerSequence))
  guard text event payload v hv := h.trans hv (h.guard text event payload v)
  current v current hv := h.trans hv (h.progress v current v.engine.timers v.engine.timerSequence)
  disarm v id hv := h.trans hv (h.progress v v.engine.current _ v.engine.timerSequence)

theorem choose (h : RespectsWalk env R) {α : Type} (condition : α → Option String)
    (event : Option String) (payload : Option π) (arrows : List α) (w : World σ π) :
    Ends (Engine.choose env condition event payload arrows) w (fun _ v => R w v)
      (fun _ v => R w v) :=
  have hguard : ∀ text event payload v, R w v →
      R w { v with host := (env.guard text event payload v.host).2 } :=
    fun text event payload v hv => h.trans hv (h.guard text event payload v)
  ends_choose_of_guard hguard condition event payload arrows (h.refl w)

theorem walk (h : RespectsWalk env R) (m : Definition) (event : Option String) (payload : Option π)
    (phase : Phase) (p : Progress) (w : World σ π) :
    Ends (Engine.walk env m event payload phase p) w (fun _ v => R w v) (fun _ v => R w v) :=
  (h.upholds m w).walk event payload phase p (h.refl w)

end RespectsWalk

namespace Respects

variable {env : Environment σ π ε} {R : World σ π → World σ π → Prop}

theorem respectsWalk (h : Respects env R) : RespectsWalk env R where
  refl := h.refl
  trans := h.trans
  react := h.react
  guard := h.guard
  progress w current timers timerSequence :=
    h.progress w current timers timerSequence w.engine.sequence

theorem walk (h : Respects env R) (m : Definition) (event : Option String) (payload : Option π)
    (phase : Phase) (p : Progress) (w : World σ π) :
    Ends (Engine.walk env m event payload phase p) w (fun _ v => R w v) (fun _ v => R w v) :=
  h.respectsWalk.walk m event payload phase p w

theorem dispatch (h : Respects env R) (m : Definition) (ev : PendingEvent π) (w : World σ π) :
    Ends (Engine.dispatch env m ev) w (fun _ v => R w v) (fun _ v => R w v) := by
  refine (h.respectsWalk.upholds m w).dispatch (fun v sequence hv => ?_) (fun v hv => ?_) ev
    (h.refl w)
  · exact h.trans hv (h.progress v v.engine.current v.engine.timers v.engine.timerSequence sequence)
  · exact h.trans hv (h.progress v v.engine.current _ v.engine.timerSequence v.engine.sequence)

end Respects

end Statechart.Engine
