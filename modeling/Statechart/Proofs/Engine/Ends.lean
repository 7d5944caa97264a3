import Statechart.Engine.Host

/-!
# How operations end

`Ends run w ok broken` says of an operation on a world, from the world `w` on, that it gives a
result as `ok` says or breaks off as `broken` says. The lemmas below reduce it along the parts
an operation is put together from, down to the changes of the engine.
-/

namespace Statechart

variable {σ π ε α β : Type}

/-- From the given world the operation gives a result and leaves a world as `ok` says, or breaks
off with a fault and leaves a world as `broken` says. -/
def Ends (run : Run σ π ε α) (w : World σ π) (ok : α → World σ π → Prop)
    (broken : Fault ε → World σ π → Prop) : Prop :=
  match run w with
  | .ok a w' => ok a w'
  | .error f w' => broken f w'

section Ends

variable {w w' : World σ π} {ok ok' : α → World σ π → Prop}
  {broken broken' : Fault ε → World σ π → Prop}

theorem Ends.mono {run : Run σ π ε α} (h : Ends run w ok broken) (hok : ∀ a v, ok a v → ok' a v)
    (hbroken : ∀ f v, broken f v → broken' f v) : Ends run w ok' broken' := by
  unfold Ends at h ⊢
  split
  · rename_i hr
    exact hok _ _ (by simpa [hr] using h)
  · rename_i hr
    exact hbroken _ _ (by simpa [hr] using h)

theorem Ends.of_forall {run : Run σ π ε α} (hok : ∀ a v, ok a v) (hbroken : ∀ f v, broken f v) :
    Ends run w ok broken := by
  unfold Ends
  split
  · exact hok _ _
  · exact hbroken _ _

theorem Ends.and {run : Run σ π ε α} (h : Ends run w ok broken) (h' : Ends run w ok' broken') :
    Ends run w (fun a v => ok a v ∧ ok' a v) fun f v => broken f v ∧ broken' f v := by
  unfold Ends at h h' ⊢
  cases hr : run w <;> simp only [hr] at h h' ⊢ <;> exact ⟨h, h'⟩

theorem Ends.of_ok {run : Run σ π ε α} {a : α} (h : Ends run w ok broken)
    (hr : run w = .ok a w') : ok a w' := by
  simpa [Ends, hr] using h

theorem Ends.of_error {run : Run σ π ε α} {f : Fault ε} (h : Ends run w ok broken)
    (hr : run w = .error f w') : broken f w' := by
  simpa [Ends, hr] using h

/-- An operation that cannot break off gives a result. -/
theorem Ends.exists_ok {run : Run σ π ε α} (h : Ends run w ok fun _ _ => False) :
    ∃ a w', run w = .ok a w' ∧ ok a w' := by
  unfold Ends at h
  split at h
  · rename_i a w' hr
    exact ⟨a, w', hr, h⟩
  · exact h.elim

/-- What is known of an operation however it ends is known of its result. -/
theorem Ends.result {run : Run σ π ε α} {P : EStateM.Result (Fault ε) (World σ π) α → Prop}
    (h : Ends run w (fun a v => P (.ok a v)) fun f v => P (.error f v)) : P (run w) := by
  unfold Ends at h
  split at h <;> simp_all

theorem ends_self (run : Run σ π ε α) (w : World σ π) :
    Ends run w (fun a w' => run w = .ok a w') (fun f w' => run w = .error f w') := by
  unfold Ends
  split <;> assumption

/-! ## Putting operations together -/

@[simp] theorem ends_pure (a : α) :
    Ends (pure a : Run σ π ε α) w ok broken ↔ ok a w := Iff.rfl

@[simp] theorem ends_throw (f : Fault ε) :
    Ends (throw f : Run σ π ε α) w ok broken ↔ broken f w := Iff.rfl

@[simp] theorem ends_get {ok : World σ π → World σ π → Prop} :
    Ends (get : Run σ π ε (World σ π)) w ok broken ↔ ok w w := Iff.rfl

@[simp] theorem ends_bind {x : Run σ π ε α} {f : α → Run σ π ε β}
    {ok : β → World σ π → Prop} :
    Ends (x >>= f) w ok broken ↔ Ends x w (fun a v => Ends (f a) v ok broken) broken := by
  simp only [Ends, bind, EStateM.bind]
  cases x w <;> rfl

@[simp] theorem ends_map {x : Run σ π ε α} {f : α → β} {ok : β → World σ π → Prop} :
    Ends (f <$> x) w ok broken ↔ Ends x w (fun a v => ok (f a) v) broken := by
  simp only [Ends, Functor.map, EStateM.map]
  cases x w <;> rfl

theorem ends_script_call {call : Call π → Run σ π ε (Reply π)} {s : σ} {c : Call π}
    {next : σ → Except (Fault ε) (Reply π) → Script σ π ε} {ok : Unit → World σ π → Prop} :
    Ends ((Script.call s c next).run call) w ok broken ↔
      Ends (call c) { w with host := s }
        (fun r v => Ends ((next v.host (.ok r)).run call) v ok broken)
        fun f v => Ends ((next v.host (.error f)).run call) v ok broken := by
  simp only [Ends, Script.run]
  cases call c { w with host := s } <;> rfl

end Ends

namespace Engine

variable {w : World σ π} {broken : Fault ε → World σ π → Prop}

/-! ## Parts of a step -/

@[simp] theorem ends_update {g : Engine π → Engine π} {ok : Unit → World σ π → Prop} :
    Ends (update g : Run σ π ε Unit) w ok broken ↔ ok () { w with engine := g w.engine } :=
  Iff.rfl

@[simp] theorem ends_finish {g : Engine π → Engine π} {run : Run σ π ε α}
    {ok : α → World σ π → Prop} :
    Ends (finish g run) w ok broken ↔
      Ends run w (fun a v => ok a { v with engine := g v.engine })
        fun f v => broken f { v with engine := g v.engine } := by
  simp only [Ends, finish]
  cases run w <;> rfl

theorem ends_choose {env : Environment σ π ε} {condition : α → Option String}
    {event : Option String} {payload : Option π} {arrows : List α}
    {ok : Option α → World σ π → Prop}
    (hnone : ∀ s, ok none { w with host := s })
    (hsome : ∀ a ∈ arrows, ∀ s, ok (some a) { w with host := s }) :
    Ends (choose env condition event payload arrows) w ok broken := by
  show ok (firstEnabled env.guard condition event payload arrows w.host).1 _
  generalize hr : firstEnabled env.guard condition event payload arrows w.host = r
  obtain ⟨chosen, s⟩ := r
  cases chosen with
  | none => exact hnone s
  | some a => exact hsome a (mem_of_firstEnabled hr) s

theorem ends_choose_iff {env : Environment σ π ε} {condition : α → Option String}
    {event : Option String} {payload : Option π} {arrows : List α}
    {ok : Option α → World σ π → Prop} :
    Ends (choose env condition event payload arrows) w ok broken ↔
      ok (firstEnabled env.guard condition event payload arrows w.host).1
        { w with host := (firstEnabled env.guard condition event payload arrows w.host).2 } :=
  Iff.rfl

theorem ends_loaded {operation : String} {ok : Definition → World σ π → Prop} :
    Ends (loaded operation) w ok broken ↔
      match w.engine.machine with
      | some m => ok m w
      | none => broken (.notLoaded operation) w := by
  simp only [loaded, ends_bind, ends_get]
  cases w.engine.machine <;> simp

/-! ## Operations -/

theorem ends_enterMachine {env : Environment σ π ε} {m : Definition}
    {ok : List String → World σ π → Prop} :
    Ends (enterMachine env m) w ok broken ↔
      Ends (walk env m none none (.enter m.initial) (.start []))
        { w with engine := w.engine.reset m }
        (fun p v => ok p.executed { v with engine := { v.engine.claim with status := .ready } })
        fun f v => broken f { v with engine := { v.engine with status := .ready } } := by
  simp only [enterMachine, ends_bind, ends_update, ends_finish, ends_pure]

theorem ends_postEvent {name : String} {payload : Option π} {ok : Unit → World σ π → Prop} :
    Ends (postEvent name payload) w ok broken ↔
      match w.engine.machine with
      | some _ => ok () { w with engine := w.engine.post ⟨name, payload, none⟩ }
      | none => broken (.notLoaded "post_event") w := by
  simp only [postEvent, ends_bind, ends_loaded, ends_update]

/-- The entry of a step changes the trace and what is told about it only. -/
theorem exists_record_eq (e : Engine π) (entry : TraceEntry) :
    ∃ trace dropped, e.record entry = { e with trace, dropped } := by
  unfold record
  split
  · exact ⟨_, _, rfl⟩
  · exact ⟨_, _, rfl⟩

theorem ends_step {env : Environment σ π ε} {ok : Option TraceEntry → World σ π → Prop} :
    Ends (step env) w ok broken ↔
      match w.engine.machine with
      | none => broken (.notLoaded "step") w
      | some m =>
        match w.engine.queue with
        | [] => ok none w
        | ev :: rest =>
          Ends (dispatch env m ev)
            { w with engine := { w.engine with queue := rest, status := .running } }
            (fun entry v => ok (some entry)
              { v with engine := { v.engine with status := .ready }.record entry })
            fun f v => broken f { v with engine := v.engine.rollBack w.engine ev } := by
  obtain ⟨⟨machine, _, _, queue, _, _, _, _, _, _, _, _⟩, s⟩ := w
  simp only [step, ends_bind, ends_loaded, ends_get]
  cases machine with
  | none => rfl
  | some m =>
    cases queue with
    | nil => rfl
    | cons ev rest =>
      refine ends_bind.trans (ends_update.trans ?_)
      unfold Ends
      dsimp only
      generalize dispatch env m ev _ = r
      cases r <;> rfl

theorem ends_tick {elapsed : Option Int} {ok : List (PendingEvent π) → World σ π → Prop} :
    Ends (tick elapsed) w ok broken ↔
      match w.engine.machine with
      | none => broken (.notLoaded "tick") w
      | some _ =>
        if elapsed.getD defaultTick < 0 then broken (.negativeElapsed (elapsed.getD defaultTick)) w
        else ok (w.engine.pass (elapsed.getD defaultTick)).2
          { w with engine := (w.engine.pass (elapsed.getD defaultTick)).1 } := by
  simp only [tick, ends_bind, ends_loaded]
  cases w.engine.machine with
  | none => rfl
  | some m =>
    by_cases he : elapsed.getD defaultTick < 0
    · simp only [he, if_true, ends_throw]
    · simp only [he, if_false, ends_bind, ends_get, ends_update, ends_pure]

/-! ## Operations of an engine with a machine -/

section Loaded

variable {m : Definition} (hm : w.engine.machine = some m)
include hm

theorem ends_postEvent_of_loaded {name : String} {payload : Option π}
    {ok : Unit → World σ π → Prop}
    (hok : ok () { w with engine := w.engine.post ⟨name, payload, none⟩ }) :
    Ends (postEvent name payload) w ok broken := by
  rw [ends_postEvent, hm]
  exact hok

theorem ends_step_of_loaded {env : Environment σ π ε} {ok : Option TraceEntry → World σ π → Prop}
    (hidle : w.engine.queue = [] → ok none w)
    (hnext : ∀ ev rest, w.engine.queue = ev :: rest →
      Ends (dispatch env m ev)
        { w with engine := { w.engine with queue := rest, status := .running } }
        (fun entry v => ok (some entry)
          { v with engine := { v.engine with status := .ready }.record entry })
        fun f v => broken f { v with engine := v.engine.rollBack w.engine ev }) :
    Ends (step env) w ok broken := by
  rw [ends_step, hm]
  dsimp only
  split
  · rename_i hq
    exact hidle hq
  · rename_i ev rest hq
    exact hnext ev rest hq

/-- A step takes the event that waits longest. -/
theorem ends_step_of_queue {env : Environment σ π ε} {ok : Option TraceEntry → World σ π → Prop}
    {ev : PendingEvent π} {rest : List (PendingEvent π)} (hqueue : w.engine.queue = ev :: rest)
    (hdispatch : Ends (dispatch env m ev)
      { w with engine := { w.engine with queue := rest, status := .running } }
      (fun entry v => ok (some entry)
        { v with engine := { v.engine with status := .ready }.record entry })
      fun f v => broken f { v with engine := v.engine.rollBack w.engine ev }) :
    Ends (step env) w ok broken := by
  refine ends_step_of_loaded hm (fun hnil => ?_) fun ev' rest' hqueue' => ?_
  · rw [hqueue] at hnil
    cases hnil
  · obtain ⟨rfl, rfl⟩ : ev = ev' ∧ rest = rest' := by simpa [hqueue] using hqueue'
    exact hdispatch

theorem ends_tick_of_loaded {elapsed : Option Int} {ok : List (PendingEvent π) → World σ π → Prop}
    (hback : elapsed.getD defaultTick < 0 →
      broken (.negativeElapsed (elapsed.getD defaultTick)) w)
    (hpass : 0 ≤ elapsed.getD defaultTick → ok (w.engine.pass (elapsed.getD defaultTick)).2
      { w with engine := (w.engine.pass (elapsed.getD defaultTick)).1 }) :
    Ends (tick elapsed) w ok broken := by
  rw [ends_tick, hm]
  dsimp only
  split
  · rename_i he
    exact hback he
  · rename_i he
    exact hpass (Int.not_lt.1 he)

end Loaded

/-- In a state, an event is taken along the transition that is chosen for it, if there is one. -/
theorem ends_dispatch_of_current {env : Environment σ π ε} {m : Definition} {ev : PendingEvent π}
    {id : String} (hcurrent : w.engine.current = some id) {ok : TraceEntry → World σ π → Prop} :
    Ends (dispatch env m ev) w ok broken ↔
      Ends (choose env Transition.guard (some ev.name) ev.payload
          (m.transitionsFrom id (some ev.name)))
        { w with engine := { w.engine with sequence := w.engine.sequence + 1 } }
        (fun chosen v => match chosen with
          | none => ok ⟨w.engine.sequence + 1, some id, some id, ev.name, [], .unmatched,
              [some id]⟩ v
          | some t => Ends (walk env m (some ev.name) ev.payload (.take id t) (.start [id])) v
              (fun p u => ok ⟨u.engine.sequence, some id, u.engine.current, ev.name, p.executed,
                .transition, p.path.map some⟩ { u with engine := u.engine.claim }) broken)
        broken := by
  simp only [dispatch, ends_bind, ends_update, ends_get]
  split
  · rename_i hnone
    simp [hcurrent] at hnone
  · rename_i id' hid
    obtain rfl : id' = id := by simpa [hcurrent] using hid.symm
    simp only [ends_bind, hcurrent]
    refine iff_of_eq (congrArg (fun ok => Ends _ _ ok broken) ?_)
    funext chosen v
    cases chosen with
    | none => rfl
    | some t => simp only [ends_bind, ends_update, ends_get, ends_pure, claim]

end Engine

end Statechart
