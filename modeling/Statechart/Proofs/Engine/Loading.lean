import Statechart.Proofs.Engine.Recording

/-!
# A load leaves nothing behind of what was before

Loading a machine begins with `Engine.reset`, which keeps nothing of the engine but its trace
limit. So whatever has happened to an engine, from a load on it cannot be told from a new one.

Both sides are compared by everything that can be seen of them: `outcomes` lists what each of
several operations answers or breaks off with and the world it leaves, and the host keeps a log of
every guard it was asked and every action it was shown (`Host.logged`), those within calls of its
own included. The log changes nothing (`Host.shadows_logged`).

Main statement: `load_forgets_history`.
-/

namespace Statechart

variable {σ π ε β α : Type}

/-! ## What can be seen of operations -/

/-- What came of operations carried out one after the other: how each of them ended, with the world
it left to the next one. -/
def outcomes (env : Environment σ π ε) :
    World σ π → List (Operation π) → List (EStateM.Result (Fault ε) (World σ π) (Answer π))
  | _, [] => []
  | w, op :: ops => op.perform env w :: outcomes env ((op.perform env).after w) ops

theorem Simulates.after {σ' : Type} {R : World σ' π → World σ π → Prop} {V : α → α → Prop}
    {run' : Run σ' π ε α} {run : Run σ π ε α} (h : Simulates R V run' run) {w' : World σ' π}
    {w : World σ π} (hw : R w' w) : R (run'.after w') (run.after w) := by
  have hends := h w' w hw
  unfold Run.after
  generalize run' w' = r', run w = r at hends ⊢
  cases hends with
  | ok _ hv => exact hv
  | error hv => exact hv

/-- Corresponding operations on corresponding worlds all end alike. -/
theorem Simulates.outcomes {σ' : Type} {C : Correspondence π} {H : σ' → σ → Prop}
    {env' : Environment σ' π ε} {env : Environment σ π ε} (henv : Environment.Alike C H env' env)
    {ops' ops : List (Operation π)} (hops : List.Forall₂ C.operations ops' ops) {w' : World σ' π}
    {w : World σ π} (hw : C.worlds H w' w) :
    List.Forall₂ (Matches (C.worlds H) C.answers) (outcomes env' w' ops')
      (outcomes env w ops) := by
  induction hops generalizing w' w with
  | nil => exact .nil
  | cons hop _ ih =>
    have hends := operation henv hop
    exact .cons (hends w' w hw) (ih (hends.after hw))

/-- How an operation ended, without what the host keeps beside its state. -/
def forgetOutcome :
    EStateM.Result (Fault ε) (World (σ × β) π) α → EStateM.Result (Fault ε) (World σ π) α
  | .ok a w => .ok a w.forget
  | .error f w => .error f w.forget

theorem Forgets.forgetOutcome {run' : Run (σ × β) π ε α} {run : Run σ π ε α}
    (h : Forgets run' run) (w : World (σ × β) π) :
    forgetOutcome (run' w) = run w.forget := by
  have hw := h w
  unfold Ends at hw
  cases hr : run' w <;> simp only [hr] at hw <;> exact hw.symm

theorem map_forgetOutcome_outcomes {env' : Environment (σ × β) π ε} {env : Environment σ π ε}
    (h : env'.Shadows env) (w : World (σ × β) π) (ops : List (Operation π)) :
    (outcomes env' w ops).map forgetOutcome = outcomes env w.forget ops := by
  induction ops generalizing w with
  | nil => rfl
  | cons op ops ih =>
    have hop := Forgets.operation h op
    rw [outcomes, outcomes, List.map_cons, ih, hop.forgetOutcome, hop.after]

/-! ## A host that keeps a log -/

/-- What an engine asks of its host. -/
inductive Asked (π : Type)
  /-- Whether the guard holds, given the event under way and its payload. -/
  | guard (text : String) (event : Option String) (payload : Option π)
  /-- To do the action. -/
  | action (action : String)

/-- The host with a log of all that it was asked. -/
def Host.logged (h : Host σ π ε) : Host (σ × List (Asked π)) π ε where
  guard text event payload s :=
    let r := h.guard text event payload s.1
    (r.1, r.2, s.2 ++ [.guard text event payload])
  act a s := (h.act a s.1).beside (fun _ _ log => log) (s.2 ++ [.action a])

/-- The environment of the host with a log does what the host's own environment does. -/
theorem Host.shadows_logged (h : Host σ π ε) (depth : Nat) :
    (h.logged.environment depth).Shadows (h.environment depth) :=
  Host.shadows (fun _ _ _ _ => ⟨rfl, rfl⟩) (fun a s => ⟨_, s.2 ++ [.action a], rfl⟩) depth

/-! ## Loads -/

/-- All that a load takes over from the engine is its trace limit. -/
theorem Engine.load_eq_load_fresh (env : Environment σ π ε) (e : Engine π) (s : σ)
    (m : Definition) :
    load env (.definition m) ⟨e, s⟩ =
      load env (.definition m) ⟨fresh e.traceLimit e.traceLimit_pos, s⟩ := by
  have hreset : (update (·.reset m) : Run σ π ε Unit) ⟨e, s⟩ =
      update (·.reset m) ⟨fresh e.traceLimit e.traceLimit_pos, s⟩ := rfl
  simp only [load, enterMachine, bind, EStateM.bind, hreset]

theorem outcomes_load_eq_fresh (env : Environment σ π ε) (e : Engine π) (s : σ) (m : Definition)
    (ops : List (Operation π)) :
    outcomes env ⟨e, s⟩ (.load (.definition m) :: ops) =
      outcomes env ⟨.fresh e.traceLimit e.traceLimit_pos, s⟩ (.load (.definition m) :: ops) := by
  have hperform : (Operation.load (.definition m)).perform env ⟨e, s⟩ =
      (Operation.load (.definition m)).perform env
        ⟨.fresh e.traceLimit e.traceLimit_pos, s⟩ := by
    simp only [Operation.perform, Functor.map, EStateM.map, Engine.load_eq_load_fresh env e s m]
  rw [outcomes, outcomes, Run.after, Run.after, hperform]

/-- **A load forgets all history**: whatever state an engine is in, loading a definition, and
whatever follows, ends as it does with a new engine of the same trace limit whose host is in the
same state, with equal answers or faults, equal worlds, and equal logs of the guards and actions
that the host was asked; the log is one of the host's own doing. What is no definition is refused,
and the refusal changes nothing.

The state that the engine is in may have come about in any way. What follows the load is as hosts
are here: on actions they may call the engine, but load no other machine, and guards do not call
it. -/
theorem load_forgets_history (h : Host σ π ε) (depth : Nat) (e : Engine π) (s : σ) :
    (∀ m ops, outcomes (h.logged.environment depth) ⟨e, (s, [])⟩ (.load (.definition m) :: ops) =
      outcomes (h.logged.environment depth) ⟨.fresh e.traceLimit e.traceLimit_pos, (s, [])⟩
        (.load (.definition m) :: ops)) ∧
    (∀ ops, (outcomes (h.logged.environment depth) ⟨e, (s, [])⟩ ops).map forgetOutcome =
      outcomes (h.environment depth) ⟨e, s⟩ ops) ∧
    ∀ f, Engine.load (h.environment depth) (.foreign f) ⟨e, s⟩ =
      .error (.notDefinition f.kind) ⟨e, s⟩ := by
  refine ⟨?_, ?_, ?_⟩
  · exact fun m ops => outcomes_load_eq_fresh (h.logged.environment depth) e (s, []) m ops
  · exact fun ops => map_forgetOutcome_outcomes (h.shadows_logged depth) ⟨e, (s, [])⟩ ops
  · exact fun f => rfl

end Statechart
