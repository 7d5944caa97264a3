import Statechart.Proofs.Engine.Simulation

/-!
# Hosts that keep a record

What a host does on an action is a script of calls. `Host.Only` restricts the calls a host makes.
`Host.recorded` is a host together with a record of the events that its calls have posted: by a
post, the event that was asked for; by a tick, the events that came back. The record is kept by
the host and never read, so it shows what was posted whatever the engine makes of it.

Main statement: `Forgets.operation`, an operation with the recording host is the operation with
the host itself, when the record is forgotten.
-/

namespace Statechart

variable {σ π ε α β : Type}

/-! ## Restricted hosts -/

namespace Call

/-- The call queues an event. -/
def IsPost : Call π → Prop
  | post .. => True
  | _ => False

/-- The call queues an event or lets time pass. -/
def IsPostOrTick : Call π → Prop
  | post .. | tick _ => True
  | _ => False

/-- The events that a call has posted, given what came back. -/
def posted : Call π → Except (Fault ε) (Reply π) → List (PendingEvent π)
  | post name payload, .ok _ => [⟨name, payload, none⟩]
  | tick _, .ok (.ticked events) => events
  | _, _ => []

theorem IsPost.isPostOrTick {c : Call π} (h : c.IsPost) : c.IsPostOrTick := by
  cases c <;> trivial

end Call

/-- Whatever the engine looks like and answers, the script makes only the given calls. -/
def Script.Only (allowed : Call π → Prop) : Script σ π ε → Prop
  | .done _ => True
  | .fail _ _ => True
  | .look next => ∀ e, (next e).Only allowed
  | .call _ c next => allowed c ∧ ∀ s r, (next s r).Only allowed

/-- On every action the host makes only the given calls. -/
def Host.Only (allowed : Call π → Prop) (h : Host σ π ε) : Prop :=
  ∀ a s, (h.act a s).Only allowed

theorem Script.Only.mono {allowed allowed' : Call π → Prop} (hsub : ∀ c, allowed c → allowed' c)
    {s : Script σ π ε} (h : s.Only allowed) : s.Only allowed' := by
  induction s with
  | done s => trivial
  | fail f s => trivial
  | look next ih => exact fun e => ih e (h e)
  | call s c next ih => exact ⟨hsub c h.1, fun s r => ih s r (h.2 s r)⟩

theorem Host.Only.mono {allowed allowed' : Call π → Prop} (hsub : ∀ c, allowed c → allowed' c)
    {h : Host σ π ε} (hh : h.Only allowed) : h.Only allowed' :=
  fun a s => (hh a s).mono hsub

/-! ## The record -/

/-- The script with a record: what has been posted before it, and by its calls. -/
def Script.recorded : Script σ π ε → List (PendingEvent π) →
    Script (σ × List (PendingEvent π)) π ε
  | .done s, l => .done (s, l)
  | .fail f s, l => .fail f (s, l)
  | .look next, l => .look fun e => (next e).recorded l
  | .call s c next, l => .call (s, l) c fun s r => (next s.1 r).recorded (s.2 ++ c.posted r)

/-- The host with a record of what it posts. -/
def Host.recorded (h : Host σ π ε) : Host (σ × List (PendingEvent π)) π ε where
  guard text event payload s :=
    let r := h.guard text event payload s.1
    (r.1, r.2, s.2)
  act a s := (h.act a s.1).recorded s.2

/-! ## Forgetting the record -/

/-- The world without what its host keeps beside its state. -/
def World.forget (w : World (σ × β) π) : World σ π := ⟨w.engine, w.host.1⟩

@[simp] theorem World.forget_engine (w : World (σ × β) π) : w.forget.engine = w.engine := rfl

/-- A world with an equal engine, whose host is in the state that the record stands beside. -/
theorem World.ext_forget {w' : World (σ × β) π} {w : World σ π}
    (h : Correspondence.equal.worlds (fun s' s => s'.1 = s) w' w) : w'.forget = w := by
  obtain ⟨e', s'⟩ := w'
  obtain ⟨e, s⟩ := w
  obtain ⟨rfl, rfl⟩ : e' = e ∧ s'.1 = s := h
  rfl

/-- Two operations are the same when what the host keeps beside its state is forgotten. -/
def Forgets (run' : Run (σ × β) π ε α) (run : Run σ π ε α) : Prop :=
  ∀ w, Ends run' w (fun a v => run w.forget = .ok a v.forget)
    fun f v => run w.forget = .error f v.forget

namespace Forgets

/-- What is known of an operation with the record is known of the operation without it. -/
theorem ends {run' : Run (σ × β) π ε α} {run : Run σ π ε α} (h : Forgets run' run)
    {w : World (σ × β) π} {ok : α → World σ π → Prop} {broken : Fault ε → World σ π → Prop}
    (hends : Ends run' w (fun a v => ok a v.forget) fun f v => broken f v.forget) :
    Ends run w.forget ok broken := by
  have hforget := h w
  unfold Ends at hforget hends ⊢
  cases hr : run' w <;> simp only [hr] at hforget hends <;> rw [hforget] <;> exact hends

/-- Where the operation without the record gives a result, the one with the record gives it. -/
theorem exists_ok {run' : Run (σ × β) π ε α} {run : Run σ π ε α} (h : Forgets run' run)
    {w : World (σ × β) π} {a : α} {v : World σ π} (hr : run w.forget = .ok a v) :
    ∃ v', run' w = .ok a v' ∧ v'.forget = v := by
  cases hr' : run' w with
  | error f v' => cases hr.symm.trans ((h w).of_error hr')
  | ok a' v' =>
    obtain ⟨rfl, rfl⟩ : a = a' ∧ v = v'.forget := by simpa using hr.symm.trans ((h w).of_ok hr')
    exact ⟨v', rfl, rfl⟩

/-- Where the operation without the record breaks off, the one with the record does. -/
theorem exists_error {run' : Run (σ × β) π ε α} {run : Run σ π ε α} (h : Forgets run' run)
    {w : World (σ × β) π} {f : Fault ε} {v : World σ π} (hr : run w.forget = .error f v) :
    ∃ v', run' w = .error f v' ∧ v'.forget = v := by
  cases hr' : run' w with
  | ok a v' => cases hr.symm.trans ((h w).of_ok hr')
  | error f' v' =>
    obtain ⟨rfl, rfl⟩ : f = f' ∧ v = v'.forget := by simpa using hr.symm.trans ((h w).of_error hr')
    exact ⟨v', rfl, rfl⟩

theorem after {run' : Run (σ × β) π ε α} {run : Run σ π ε α} (h : Forgets run' run)
    (w : World (σ × β) π) : (run'.after w).forget = run.after w.forget := by
  refine Ends.after (P := fun v => v.forget = run.after w.forget)
    ((h w).mono (fun a v hv => ?_) fun f v hv => ?_)
  · simp only [Run.after, hv]
  · simp only [Run.after, hv]

/-- An operation with the record and one without it that do the same from equal engines and equal
states of the host are the same when the record is forgotten. -/
theorem of_simulates {run' : Run (σ × β) π ε α} {run : Run σ π ε α}
    (h : Simulates (Correspondence.equal.worlds fun s' s => s'.1 = s) Eq run' run) :
    Forgets run' run := by
  intro w
  have hends := h w w.forget ⟨rfl, rfl⟩
  unfold Ends
  generalize run' w = r', run w.forget = r at hends ⊢
  cases hends with
  | ok ha hv => rw [ha, ← World.ext_forget hv]
  | error hv => rw [← World.ext_forget hv]

theorem simulates {run' : Run (σ × β) π ε α} {run : Run σ π ε α} (h : Forgets run' run) :
    Simulates (Correspondence.equal.worlds fun s' s => s'.1 = s) Eq run' run := by
  rintro w' w hw
  obtain rfl := World.ext_forget hw
  have hends := h w'
  unfold Ends at hends
  generalize run' w' = r' at hends ⊢
  cases r' with
  | ok a v' => exact hends ▸ .ok rfl ⟨rfl, rfl⟩
  | error f v' => exact hends ▸ .error ⟨rfl, rfl⟩

end Forgets

/-- An environment whose host keeps something beside its state does what another does. -/
structure Environment.Shadows (env' : Environment (σ × β) π ε) (env : Environment σ π ε) :
    Prop where
  guard : ∀ text event payload s, (env'.guard text event payload s).1 =
      (env.guard text event payload s.1).1 ∧
    (env'.guard text event payload s).2.1 = (env.guard text event payload s.1).2
  react : ∀ a, Forgets (env'.react a) (env.react a)

namespace Environment.Shadows

variable {env' : Environment (σ × β) π ε} {env : Environment σ π ε}

theorem alike (h : env'.Shadows env) :
    Environment.Alike Correspondence.equal.stepwise (fun s' s => s'.1 = s) env' env where
  guard text event payload s' _ hs := hs ▸ h.guard text event payload s'
  react action := (h.react action).simulates

theorem of_alike
    (h : Environment.Alike Correspondence.equal.stepwise (fun s' s => s'.1 = s) env' env) :
    env'.Shadows env where
  guard text event payload s := h.guard text event payload s s.1 rfl
  react action := .of_simulates (h.react action)

end Environment.Shadows

namespace Forgets

variable {env' : Environment (σ × β) π ε} {env : Environment σ π ε}

theorem load (h : env'.Shadows env) (subject : Subject) :
    Forgets (Engine.load env' subject) (Engine.load env subject) :=
  of_simulates (Simulates.load h.alike (Correspondence.subjects_equal subject))

theorem step (h : env'.Shadows env) : Forgets (Engine.step env') (Engine.step env) := by
  refine of_simulates ((Simulates.step h.alike).mono fun entry' entry hentry => ?_)
  cases hentry with
  | none => rfl
  | some he => rw [he.2]

/-- **The record is never read**: what an operation answers or fails with, and the engine and
the host it leaves, are the same with the record and without it. -/
theorem operation (h : env'.Shadows env) (op : Operation π) :
    Forgets (op.perform env') (op.perform env) :=
  of_simulates ((Simulates.operation h.alike (Correspondence.operations_equal op)).mono
    fun _ _ hanswer => hanswer.1)

end Forgets

/-! ## Scripts with something beside the host's state -/

/-- The script with something beside the host's state, which each of its calls changes as `note`
says, given what came back. -/
def Script.beside (note : Call π → Except (Fault ε) (Reply π) → β → β) :
    Script σ π ε → β → Script (σ × β) π ε
  | .done s, b => .done (s, b)
  | .fail f s, b => .fail f (s, b)
  | .look next, b => .look fun e => (next e).beside note b
  | .call s c next, b => .call (s, b) c fun s r => (next s.1 r).beside note (note c r s.2)

theorem Script.recorded_eq_beside (s : Script σ π ε) (l : List (PendingEvent π)) :
    s.recorded l = s.beside (fun c r l => l ++ c.posted r) l := by
  induction s generalizing l with
  | done s => rfl
  | fail f s => rfl
  | look next ih => exact congrArg Script.look (funext fun e => ih e l)
  | call s c next ih =>
    exact congrArg (Script.call (s, l) c) (funext fun s => funext fun r => ih s.1 r _)

theorem Script.alike_beside (note : Call π → Except (Fault ε) (Reply π) → β → β)
    (s : Script σ π ε) (b : β) :
    Script.Alike Correspondence.equal.stepwise (fun s' s => s'.1 = s) (s.beside note b) s := by
  induction s generalizing b with
  | done s => exact .done rfl
  | fail f s => exact .fail f rfl
  | look next ih =>
    refine .look fun e' e he => ?_
    obtain rfl : e' = e := he
    exact ih e' b
  | call s c next ih =>
    refine .call c rfl fun s' s r hs => ?_
    subst hs
    exact ih s'.1 r _

/-- A host that decides guards as another does, and on actions follows its scripts with something
beside its state, does what the other does. -/
theorem Host.shadows {h' : Host (σ × β) π ε} {h : Host σ π ε}
    (hguard : ∀ text event payload s, (h'.guard text event payload s).1 =
        (h.guard text event payload s.1).1 ∧
      (h'.guard text event payload s).2.1 = (h.guard text event payload s.1).2)
    (hact : ∀ a s, ∃ note b, h'.act a s = (h.act a s.1).beside note b) (depth : Nat) :
    (h'.environment depth).Shadows (h.environment depth) := by
  have halike : Host.Alike Correspondence.equal.stepwise (fun s' s => s'.1 = s) h' h := by
    refine ⟨fun text event payload s' s hs => hs ▸ hguard text event payload s',
      fun a s' s hs => ?_⟩
    obtain ⟨note, b, hscript⟩ := hact a s'
    rw [hscript, ← hs]
    exact Script.alike_beside note _ b
  exact .of_alike (halike.environment depth)

/-- The environment of the host with a record does what the host's own environment does. -/
theorem Host.shadows_recorded (h : Host σ π ε) (depth : Nat) :
    (h.recorded.environment depth).Shadows (h.environment depth) :=
  Host.shadows (fun _ _ _ _ => ⟨rfl, rfl⟩)
    (fun a s => ⟨_, s.2, (h.act a s.1).recorded_eq_beside s.2⟩) depth

end Statechart
