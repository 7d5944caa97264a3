import Statechart.Proofs.Engine.Ends

/-!
# Sequences of operations

An `Operation` is a call on an engine from outside: a load, an event posted, a step, a run of
steps, or a tick. `worldAfter` carries out operations one after the other; an operation that
breaks off leaves its world to the next one. `AllAnswer` says of operations that none breaks off.

* `Operation.Keeps` lists what an invariant has to meet, part by part; `Operation.Keeps.ends`
  carries it through any operation;
* `worldAfter_keeps` carries an invariant through a sequence of operations, and
  `Operation.Keeps.allAnswer` one under which no operation can break off;
* `exists_worldAfter_of_loads` is for what is kept of the machine that was loaded last.
-/

namespace Statechart

variable {σ π ε α : Type}

/-- A call on an engine from outside. -/
inductive Operation (π : Type)
  /-- Load what is handed over as a definition. -/
  | load (subject : Subject)
  /-- Queue an event. -/
  | post (name : String) (payload : Option π)
  /-- Process an event. -/
  | step
  /-- Take steps while events wait, but no more than the given number. -/
  | run (most : Nat)
  /-- Let time pass. -/
  | tick (elapsed : Option Int)

/-- What comes back from an operation. -/
inductive Answer (π : Type)
  | loaded (actions : List String)
  | posted
  | stepped (entry : Option TraceEntry)
  | ran (entries : List TraceEntry)
  | ticked (events : List (PendingEvent π))

/-- The actions that were run: of a load, or of each step. -/
def Answer.runs : Answer π → List (List String)
  | loaded actions => [actions]
  | stepped entry => entry.toList.map (·.actions)
  | ran entries => entries.map (·.actions)
  | posted | ticked _ => []

namespace Operation

/-- The operation loads something. -/
def IsLoad : Operation π → Prop
  | load _ => True
  | _ => False

/-- Carries out an operation. -/
def perform (env : Environment σ π ε) : Operation π → Run σ π ε (Answer π)
  | load subject => .loaded <$> Engine.load env subject
  | post name payload => do
    Engine.postEvent name payload
    return .posted
  | step => .stepped <$> Engine.step env
  | run most => .ran <$> Engine.runUntilIdle env most
  | tick elapsed => .ticked <$> Engine.tick elapsed

end Operation

/-- A world whose engine has no machine and keeps one trace entry. -/
def World.blank (host : σ) : World σ π := ⟨Engine.fresh 1 Nat.one_pos, host⟩

/-- The world that a run leaves, whichever way it ends. -/
def Run.after (run : Run σ π ε α) (w : World σ π) : World σ π :=
  match run w with
  | .ok _ v => v
  | .error _ v => v

/-- The world after operations. -/
def worldAfter (env : Environment σ π ε) (w : World σ π) (ops : List (Operation π)) : World σ π :=
  ops.foldl (fun w op => (op.perform env).after w) w

theorem Ends.after {run : Run σ π ε α} {w : World σ π} {P : World σ π → Prop}
    (h : Ends run w (fun _ v => P v) (fun _ v => P v)) : P (run.after w) := by
  unfold Ends at h
  unfold Run.after
  split <;> simp_all

/-- What every operation keeps, a sequence of them keeps. -/
theorem worldAfter_keeps {env : Environment σ π ε} {P : World σ π → Prop}
    {ops : List (Operation π)} (hop : ∀ op ∈ ops, ∀ w, P w → P ((op.perform env).after w))
    {w : World σ π} (hw : P w) : P (worldAfter env w ops) := by
  induction ops generalizing w with
  | nil => exact hw
  | cons op ops ih =>
    exact ih (fun op' h => hop op' (List.mem_cons_of_mem _ h)) (hop op (by simp) w hw)

namespace Engine

variable {env : Environment σ π ε} {w : World σ π} {broken : Fault ε → World σ π → Prop}

theorem ends_steps_succ {n : Nat} {ok : List TraceEntry → World σ π → Prop} :
    Ends (steps env (n + 1)) w ok broken ↔
      if w.engine.queue.isEmpty then ok [] w
      else Ends (step env) w (fun entry v =>
        Ends (steps env n) v (fun entries u => ok (entry.toList ++ entries) u) broken) broken := by
  simp only [steps, ends_bind, ends_get]
  split
  · rfl
  · simp only [ends_bind, ends_pure]

/-- What a step keeps, steps keep, and what its entry meets, their entries meet. -/
theorem ends_steps {inv : World σ π → Prop} {good : TraceEntry → Prop}
    (hstep : ∀ w, inv w → Ends (step env) w (fun entry v => inv v ∧ ∀ e ∈ entry, good e) broken)
    (n : Nat) (hw : inv w) :
    Ends (steps env n) w (fun entries v => inv v ∧ ∀ e ∈ entries, good e) broken := by
  induction n generalizing w with
  | zero => exact ⟨hw, by simp⟩
  | succ n ih =>
    rw [ends_steps_succ]
    split
    · exact ⟨hw, by simp⟩
    · refine (hstep w hw).mono (fun entry v hv => ?_) fun _ _ hb => hb
      refine (ih hv.1).mono (fun entries u hu => ⟨hu.1, ?_⟩) fun _ _ hb => hb
      intro e he
      rcases List.mem_append.1 he with he | he
      · exact hv.2 e (Option.mem_toList.1 he)
      · exact hu.2 e he

theorem ends_runUntilIdle {most : Nat} {ok : List TraceEntry → World σ π → Prop} :
    Ends (runUntilIdle env most) w ok broken ↔
      match w.engine.machine with
      | some _ => Ends (steps env most) w ok broken
      | none => broken (.notLoaded "run_until_idle") w := by
  refine ends_bind.trans (ends_loaded.trans ?_)
  cases w.engine.machine <;> rfl

theorem ends_runUntilIdle_of_loaded {m : Definition} (hm : w.engine.machine = some m) {most : Nat}
    {ok : List TraceEntry → World σ π → Prop} (hsteps : Ends (steps env most) w ok broken) :
    Ends (runUntilIdle env most) w ok broken := by
  rw [ends_runUntilIdle, hm]
  exact hsteps

end Engine

/-! ## What operations keep -/

/-- The parts of operations of the given kind, in a world with a machine, keep `inv` and run
actions as `fine` says, or break off as `broken` says. -/
structure Operation.Keeps (env : Environment σ π ε) (allowed : Operation π → Prop)
    (inv : World σ π → Prop) (fine : List String → Prop)
    (broken : Fault ε → World σ π → Prop) : Prop where
  loaded : ∀ w, inv w → w.engine.machine.isSome
  load : ∀ subject w, allowed (.load subject) → inv w →
    Ends (Engine.load env subject) w (fun actions v => inv v ∧ fine actions) broken
  post : ∀ ev w, inv w → inv { w with engine := w.engine.post ev }
  step : ∀ w, inv w →
    Ends (Engine.step env) w (fun entry v => inv v ∧ ∀ e ∈ entry, fine e.actions) broken
  tick : ∀ elapsed w, allowed (.tick elapsed) → inv w →
    Ends (Engine.tick elapsed) w (fun _ v => inv v) broken

theorem Operation.Keeps.ends {env : Environment σ π ε} {allowed : Operation π → Prop}
    {inv : World σ π → Prop} {fine : List String → Prop}
    {broken : Fault ε → World σ π → Prop} (h : Operation.Keeps env allowed inv fine broken)
    {op : Operation π} (hop : allowed op) {w : World σ π} (hw : inv w) :
    Ends (op.perform env) w (fun answer v => inv v ∧ ∀ actions ∈ answer.runs, fine actions)
      broken := by
  obtain ⟨m, hm⟩ := Option.isSome_iff_exists.1 (h.loaded w hw)
  cases op with
  | load subject =>
    refine ends_map.2 ((h.load subject w hop hw).mono (fun actions v hv => ?_) fun _ _ hb => hb)
    simpa [Answer.runs] using hv
  | post name payload =>
    refine ends_bind.2 (Engine.ends_postEvent_of_loaded hm ⟨h.post _ w hw, ?_⟩)
    simp [Answer.runs]
  | step =>
    refine ends_map.2 ((h.step w hw).mono (fun entry v hv => ?_) fun _ _ hb => hb)
    simpa [Answer.runs] using hv
  | run most =>
    refine ends_map.2 (Engine.ends_runUntilIdle_of_loaded hm ?_)
    refine (Engine.ends_steps h.step most hw).mono (fun entries v hv => ?_) fun _ _ hb => hb
    simpa [Answer.runs] using hv
  | tick elapsed =>
    refine ends_map.2 ((h.tick elapsed w hop hw).mono (fun _ v hv => ⟨hv, ?_⟩) fun _ _ hb => hb)
    simp [Answer.runs]

/-- What all operations but loads keep however they end, a sequence of operations keeps in which no
definition is loaded; what is no definition is refused. -/
theorem Operation.Keeps.worldAfter {env : Environment σ π ε} {inv : World σ π → Prop}
    {fine : List String → Prop}
    (h : Operation.Keeps env (fun op => ¬ op.IsLoad) inv fine fun _ w => inv w)
    {ops : List (Operation π)} (hops : ∀ op ∈ ops, ∀ m, op ≠ .load (.definition m))
    {w : World σ π} (hw : inv w) : inv (worldAfter env w ops) := by
  refine worldAfter_keeps (fun op hop v hv => ?_) hw
  have hkept : ¬ op.IsLoad → inv ((op.perform env).after v) := fun hload =>
    ((h.ends hload hv).mono (fun _ _ hu => hu.1) fun _ _ hu => hu).after
  cases op with
  | load subject =>
    cases subject with
    | definition m => exact absurd rfl (hops _ hop m)
    | foreign _ => exact hv
  | _ => exact hkept not_false

/-- What loads of good machines establish however they end, and all other operations keep, holds
after a load and operations that load good machines, of the machine that was loaded last. -/
theorem exists_worldAfter_of_loads {env : Environment σ π ε} {good : Definition → Prop}
    {inv : Definition → World σ π → Prop} {fine : List String → Prop}
    (hload : ∀ m w, good m →
      Ends (Engine.enterMachine env m) w (fun _ v => inv m v) fun _ v => inv m v)
    (hkeeps : ∀ m, good m →
      Operation.Keeps env (fun op => ¬ op.IsLoad) (inv m) fine fun _ w => inv m w)
    {m : Definition} (hm : good m) {ops : List (Operation π)}
    (hops : ∀ m', .load (.definition m') ∈ ops → good m') (w : World σ π) :
    ∃ m', good m' ∧ inv m' (worldAfter env w (.load (.definition m) :: ops)) := by
  have hloaded : ∀ m' v, good m' →
      inv m' ((Operation.perform env (.load (.definition m'))).after v) := fun m' v hm' =>
    Ends.after (P := inv m') (ends_map.2 (hload m' v hm'))
  refine worldAfter_keeps (w := (Operation.perform env (.load (.definition m))).after w)
    (P := fun v => ∃ m', good m' ∧ inv m' v) (fun op hop v hv => ?_) ⟨m, hm, hloaded m w hm⟩
  obtain ⟨m', hm', hinv⟩ := hv
  have hkept : ¬ op.IsLoad → inv m' ((op.perform env).after v) := fun hnot =>
    (((hkeeps m' hm').ends hnot hinv).mono (fun _ _ hu => hu.1) fun _ _ hu => hu).after
  cases op with
  | load subject =>
    cases subject with
    | definition x => exact ⟨x, hops x hop, hloaded x v (hops x hop)⟩
    | foreign _ => exact ⟨m', hm', hinv⟩
  | _ => exact ⟨m', hm', hkept not_false⟩

/-- Each of the operations gives an answer, and the answer and the world that is left are as `P`
says. -/
def AllAnswer (env : Environment σ π ε) (P : Answer π → World σ π → Prop) :
    World σ π → List (Operation π) → Prop
  | _, [] => True
  | w, op :: ops => ∃ answer v, op.perform env w = .ok answer v ∧ P answer v ∧ AllAnswer env P v ops

theorem AllAnswer.mono {env : Environment σ π ε} {P Q : Answer π → World σ π → Prop}
    (hPQ : ∀ answer w, P answer w → Q answer w) {w : World σ π} {ops : List (Operation π)}
    (h : AllAnswer env P w ops) : AllAnswer env Q w ops := by
  induction ops generalizing w with
  | nil => trivial
  | cons op ops ih =>
    obtain ⟨answer, v, hv, hP, hrest⟩ := h
    exact ⟨answer, v, hv, hPQ answer v hP, ih hrest⟩

/-- Operations none of which can break off all give an answer. -/
theorem Operation.Keeps.allAnswer {env : Environment σ π ε} {allowed : Operation π → Prop}
    {inv : World σ π → Prop} {fine : List String → Prop}
    (h : Operation.Keeps env allowed inv fine fun _ _ => False) {ops : List (Operation π)}
    (hops : ∀ op ∈ ops, allowed op) {w : World σ π} (hw : inv w) :
    AllAnswer env (fun answer v => inv v ∧ ∀ actions ∈ answer.runs, fine actions) w ops := by
  induction ops generalizing w with
  | nil => trivial
  | cons op ops ih =>
    obtain ⟨answer, v, hv, hinv⟩ := (h.ends (hops op (by simp)) hw).exists_ok
    exact ⟨answer, v, hv, hinv, ih (fun op' hop => hops op' (List.mem_cons_of_mem _ hop)) hinv.1⟩

end Statechart
