import Mathlib
import Statechart.Proofs.Engine.Quiet
import Statechart.Proofs.Engine.Simulation

/-!
# Posting early or late

With a quiet host and guards that are answered by their text, the event and the payload alone, what
a step does to an engine is decided by the engine, and the events that wait behind the one that is
taken have no part in it: two engines that differ in what waits correspond within a step
(`StepCorrespondence.apart`). So a step gives the same entry if more events wait, and these still
wait after it (`step_postAll`).

Calls that post events and take steps in any order can then be compared with posting all the events
first, call by call: the steps that they take are the first ones that are taken afterwards
(`Interleaving.processes`).

Main statement: `posts_and_steps_interleave`.
-/

namespace Statechart

variable {σ π ε : Type}

/-! ## More events -/

namespace Engine

/-- Adds events to those that wait. -/
def postAll (e : Engine π) (events : List (PendingEvent π)) : Engine π :=
  { e with queue := e.queue ++ events }

@[simp] theorem postAll_nil (e : Engine π) : e.postAll [] = e := by
  simp only [postAll, List.append_nil]

theorem postAll_postAll (e : Engine π) (events more : List (PendingEvent π)) :
    (e.postAll events).postAll more = e.postAll (events ++ more) := by
  simp only [postAll, List.append_assoc]

/-- Timer commands do not look at the events that wait. -/
theorem command_with_queue (m : Definition) (action : String) (e : Engine π)
    (queue : List (PendingEvent π)) :
    command m action { e with queue } = { command m action e with queue } := by
  cases hc : TimerCommand.ofAction? action with
  | none => simp only [command, hc]
  | some c =>
    cases c with
    | start id => cases ht : m.timer? id <;> simp only [command, hc, ht, arm]
    | stop id => simp only [command, hc, disarm]

theorem record_postAll (e : Engine π) (more : List (PendingEvent π)) (entry : TraceEntry) :
    (e.postAll more).record entry = (e.record entry).postAll more := by
  unfold record postAll
  dsimp only
  split <;> rfl

end Engine

/-! ## What posts and steps come to -/

namespace Engine

section Equations

variable {env : Environment σ π ε} {w : World σ π}

theorem step_of_queue_eq_nil {m : Definition} (hm : w.engine.machine = some m)
    (hqueue : w.engine.queue = []) : step env w = .ok none w := by
  obtain ⟨⟨_, _, _, _, _, _, _, _, _, _, _, _⟩, _⟩ := w
  cases hm
  cases hqueue
  rfl

theorem step_of_queue_eq_cons {m : Definition} (hm : w.engine.machine = some m)
    {ev : PendingEvent π} {rest : List (PendingEvent π)} (hqueue : w.engine.queue = ev :: rest) :
    step env w =
      match dispatch env m ev
          { w with engine := { w.engine with queue := rest, status := .running } } with
      | .ok entry v =>
        .ok (some entry) { v with engine := { v.engine with status := .ready }.record entry }
      | .error f v => .error f { v with engine := v.engine.rollBack w.engine ev } := by
  obtain ⟨⟨_, _, _, _, _, _, _, _, _, _, _, _⟩, _⟩ := w
  cases hm
  cases hqueue
  rfl

theorem postEvent_of_loaded {m : Definition} (hm : w.engine.machine = some m) (name : String)
    (payload : Option π) :
    (postEvent name payload : Run σ π ε Unit) w =
      .ok () { w with engine := w.engine.post ⟨name, payload, none⟩ } := by
  obtain ⟨⟨_, _, _, _, _, _, _, _, _, _, _, _⟩, _⟩ := w
  cases hm
  rfl

theorem eq_of_postEvent_eq_ok {name : String} {payload : Option π} {v : World σ π}
    (h : (postEvent name payload : Run σ π ε Unit) w = .ok () v) :
    v = { w with engine := w.engine.post ⟨name, payload, none⟩ } := by
  cases hm : w.engine.machine with
  | some m =>
    rw [postEvent_of_loaded hm] at h
    simpa using h.symm
  | none =>
    have hbroken : Ends (postEvent name payload : Run σ π ε Unit) w (fun _ _ => False)
        fun _ _ => True := by
      rw [ends_postEvent, hm]
      trivial
    exact (hbroken.of_ok h).elim

theorem isSome_machine_of_step {taken : Option TraceEntry} {v : World σ π}
    (h : step env w = .ok taken v) : w.engine.machine.isSome := by
  cases hm : w.engine.machine with
  | some m => rfl
  | none =>
    have hbroken : Ends (step env) w (fun _ _ => False) fun _ _ => True := by
      rw [ends_step, hm]
      trivial
    exact (hbroken.of_ok h).elim

/-- A step that gives no entry changes nothing, as no event waits. -/
theorem eq_of_step_eq_none {v : World σ π} (h : step env w = .ok none v) :
    v = w ∧ w.engine.queue = [] := by
  obtain ⟨m, hm⟩ := Option.isSome_iff_exists.1 (isSome_machine_of_step h)
  cases hqueue : w.engine.queue with
  | nil =>
    rw [step_of_queue_eq_nil hm hqueue] at h
    exact ⟨by simpa using h.symm, rfl⟩
  | cons ev rest =>
    rw [step_of_queue_eq_cons hm hqueue] at h
    split at h <;> simp at h

/-- A step that gives an entry has taken the event that waited longest. -/
theorem exists_dispatch_of_step {entry : TraceEntry} {v : World σ π}
    (h : step env w = .ok (some entry) v) :
    ∃ m ev rest u, w.engine.machine = some m ∧ w.engine.queue = ev :: rest ∧
      dispatch env m ev { w with engine := { w.engine with queue := rest, status := .running } } =
        .ok entry u ∧
      v = { u with engine := { u.engine with status := .ready }.record entry } := by
  obtain ⟨m, hm⟩ := Option.isSome_iff_exists.1 (isSome_machine_of_step h)
  cases hqueue : w.engine.queue with
  | nil =>
    rw [step_of_queue_eq_nil hm hqueue] at h
    simp at h
  | cons ev rest =>
    rw [step_of_queue_eq_cons hm hqueue] at h
    split at h
    · rename_i entry' u hd
      obtain ⟨rfl, rfl⟩ : entry' = entry ∧ _ = v := by simpa using h
      exact ⟨m, ev, rest, u, hm, rfl, hd, rfl⟩
    · simp at h

end Equations

end Engine

/-! ## Engines that differ in what waits -/

/-- Engines with a machine correspond if they differ at most in the events that wait. -/
def StepCorrespondence.apart : StepCorrespondence π where
  engines e' e := e.machine.isSome ∧ ∃ queue, e' = { e with queue }
  machines := Eq
  node _ := True
  alike := .of_eq
  current := by
    rintro _ e ⟨-, queue, rfl⟩
    rfl
  node_current _ _ _ := trivial
  sequence := by
    rintro _ e ⟨-, queue, rfl⟩
    rfl
  move := by
    rintro _ e ⟨hm, queue, rfl⟩ current -
    exact ⟨hm, queue, rfl⟩
  count := by
    rintro _ e ⟨hm, queue, rfl⟩ sequence
    exact ⟨hm, queue, rfl⟩
  command := by
    rintro m _ rfl _ e ⟨hm, queue, rfl⟩ action
    obtain ⟨_, _, he⟩ := Engine.exists_command_eq m action e
    exact ⟨by rw [he]; exact hm, queue, Engine.command_with_queue m action e queue⟩
  disarmOwned := by
    rintro _ e ⟨hm, queue, rfl⟩ state
    exact ⟨hm, queue, rfl⟩
  claim := by
    rintro _ e ⟨hm, queue, rfl⟩
    exact ⟨hm, queue, rfl⟩

section Quiet

variable {env : Environment σ π ε} (henv : env.Quiet)
  {answers : String → Option String → Option π → Option Bool}
  (hguard : ∀ text event payload s, (env.guard text event payload s).1 = answers text event payload)
include henv hguard

/-- A quiet host does the same whatever waits and whatever its own state is. -/
theorem Environment.Quiet.alike_apart :
    Environment.Alike StepCorrespondence.apart (fun _ _ => True) env env where
  guard text event payload s' s _ :=
    ⟨(hguard text event payload s').trans (hguard text event payload s).symm, trivial⟩
  react action := by
    rintro w' w ⟨⟨hm, queue, hqueue⟩, -⟩
    obtain ⟨s, hr⟩ := henv.exists_ok action hm
    obtain ⟨s', hr'⟩ := henv.exists_ok action (w := w') (hqueue ▸ hm)
    rw [hr, hr']
    exact .ok rfl ⟨⟨hm, queue, hqueue⟩, trivial⟩

/-- A step does the same if more events wait, and leaves these waiting. -/
theorem Engine.step_postAll {w v w' : World σ π} {entry : TraceEntry}
    (h : step env w = .ok (some entry) v) {more : List (PendingEvent π)}
    (hw' : w'.engine = w.engine.postAll more) :
    ∃ v', step env w' = .ok (some entry) v' ∧ v'.engine = v.engine.postAll more := by
  obtain ⟨m, ev, rest, u, hm, hqueue, hd, rfl⟩ := exists_dispatch_of_step h
  have hm' : w'.engine.machine = some m := by
    rw [hw']
    exact hm
  have hqueue' : w'.engine.queue = ev :: (rest ++ more) := by
    rw [hw', postAll, hqueue]
    rfl
  have hstart : StepCorrespondence.apart.engines
      { w'.engine with queue := rest ++ more, status := .running }
      { w.engine with queue := rest, status := .running } := by
    rw [hw']
    exact ⟨by rw [hm]; rfl, rest ++ more, rfl⟩
  have hends := Simulates.dispatch (m := m) (henv.alike_apart hguard) rfl ev ⟨_, w'.host⟩
    ⟨_, w.host⟩ ⟨hstart, trivial⟩
  have hrest : u.engine.queue = rest := ((henv.respects.dispatch m ev _).of_ok hd).1
  rw [hd] at hends
  rw [step_of_queue_eq_cons hm' hqueue']
  generalize hd' : dispatch env m ev _ = r' at hends ⊢
  cases hends with
  | @ok _ _ u' _ hentry hu =>
    obtain ⟨⟨-, queue, hu⟩, -⟩ := hu
    obtain rfl := hentry.2
    have hrest' : u'.engine.queue = rest ++ more := ((henv.respects.dispatch m ev _).of_ok hd').1
    obtain rfl : queue = u.engine.queue ++ more := by rw [hrest, ← hrest', hu]
    refine ⟨_, rfl, ?_⟩
    rw [hu]
    exact record_postAll { u.engine with status := .ready } more _

end Quiet

/-! ## Steps one after the other -/

/-- From the first world on, steps take events one after the other, with these entries, and leave
the second world. -/
inductive Processes (env : Environment σ π ε) :
    World σ π → List TraceEntry → World σ π → Prop
  | nil (w : World σ π) : Processes env w [] w
  | cons {w v u : World σ π} {entry : TraceEntry} {entries : List TraceEntry}
    (hstep : Engine.step env w = .ok (some entry) v) (hrest : Processes env v entries u) :
    Processes env w (entry :: entries) u

/-- A run without a limit: in an engine with a machine, steps are taken until no event waits. -/
structure RunsUntilIdle (env : Environment σ π ε) (w : World σ π) (entries : List TraceEntry)
    (v : World σ π) : Prop where
  loaded : w.engine.machine.isSome
  processes : Processes env w entries v
  idle : v.engine.queue = []

section Processes

variable {env : Environment σ π ε}

theorem Processes.append {u v w : World σ π} {entries more : List TraceEntry}
    (huv : Processes env u entries v) (hvw : Processes env v more w) :
    Processes env u (entries ++ more) w := by
  induction huv with
  | nil _ => exact hvw
  | cons hstep _ ih => exact .cons hstep (ih hvw)

namespace Engine

/-- Steps with a limit take events one after the other. -/
theorem ends_steps_processes (n : Nat) (w : World σ π) :
    Ends (steps env n) w (fun entries v => Processes env w entries v) fun _ _ => True := by
  induction n generalizing w with
  | zero => exact .nil w
  | succ n ih =>
    rw [ends_steps_succ]
    split
    · exact .nil w
    · refine (ends_self (step env) w).mono (fun taken v hstep => ?_) fun _ _ _ => trivial
      refine (ih v).mono (fun entries u hrest => ?_) fun _ _ _ => trivial
      cases taken with
      | none => exact (eq_of_step_eq_none hstep).1 ▸ hrest
      | some entry => exact .cons hstep hrest

theorem ends_runUntilIdle_processes (most : Nat) (w : World σ π) :
    Ends (runUntilIdle env most) w (fun entries v => Processes env w entries v)
      fun _ _ => True := by
  rw [ends_runUntilIdle]
  split
  · exact ends_steps_processes most w
  · trivial

end Engine

section Quiet

variable (henv : env.Quiet)
include henv

theorem Engine.exists_queue_eq_cons_of_step {w v : World σ π} {entry : TraceEntry}
    (h : step env w = .ok (some entry) v) : ∃ ev, w.engine.queue = ev :: v.engine.queue := by
  obtain ⟨m, ev, rest, u, -, hqueue, hd, rfl⟩ := exists_dispatch_of_step h
  obtain ⟨_, _, he⟩ := exists_record_eq { u.engine with status := .ready } entry
  refine ⟨ev, ?_⟩
  rw [hqueue, he]
  exact congrArg (ev :: ·) ((henv.respects.dispatch m ev _).of_ok hd).1.symm

/-- Each entry is that of one of the events that waited at first. -/
theorem Processes.length_queue {w v : World σ π} {entries : List TraceEntry}
    (h : Processes env w entries v) :
    w.engine.queue.length = entries.length + v.engine.queue.length := by
  induction h with
  | nil w => simp
  | cons hstep _ ih =>
    obtain ⟨ev, hqueue⟩ := Engine.exists_queue_eq_cons_of_step henv hstep
    rw [hqueue, List.length_cons, List.length_cons, ih]
    omega

/-- A run without a limit takes as many steps as events wait. -/
theorem RunsUntilIdle.length_eq {w v : World σ π} {entries : List TraceEntry}
    (h : RunsUntilIdle env w entries v) : entries.length = w.engine.queue.length := by
  rw [h.processes.length_queue henv, h.idle]
  rfl

variable {answers : String → Option String → Option π → Option Bool}
  (hguard : ∀ text event payload s, (env.guard text event payload s).1 = answers text event payload)
include hguard

/-- Events are taken alike if more wait behind them, and these are left waiting. -/
theorem Processes.postAll {w v w' : World σ π} {entries : List TraceEntry}
    (h : Processes env w entries v) {more : List (PendingEvent π)}
    (hw' : w'.engine = w.engine.postAll more) :
    ∃ v', Processes env w' entries v' ∧ v'.engine = v.engine.postAll more := by
  induction h generalizing w' with
  | nil w => exact ⟨w', .nil w', hw'⟩
  | cons hstep _ ih =>
    obtain ⟨v', hstep', hv'⟩ := Engine.step_postAll henv hguard hstep hw'
    obtain ⟨u', hrest', hu'⟩ := ih hv'
    exact ⟨u', .cons hstep' hrest', hu'⟩

end Quiet

end Processes

/-! ## Turns -/

/-- A call that posts an event or takes steps. -/
inductive Turn (π : Type)
  /-- Queue an event. -/
  | post (name : String) (payload : Option π)
  /-- Process an event. -/
  | step
  /-- Take steps while events wait, up to the limit if there is one. -/
  | run (limit : Option Nat)

namespace Turn

/-- The turn posts an event. -/
def isPost : Turn π → Bool
  | post .. => true
  | step | run _ => false

/-- The event that the turn posts. -/
def events : Turn π → List (PendingEvent π)
  | post name payload => [⟨name, payload, none⟩]
  | step | run _ => []

/-- The turn gives these entries and leaves this world. -/
inductive Gives (env : Environment σ π ε) (w : World σ π) :
    Turn π → List TraceEntry → World σ π → Prop
  | post {name : String} {payload : Option π} {v : World σ π}
    (h : (Engine.postEvent name payload : Run σ π ε Unit) w = .ok () v) :
    Gives env w (.post name payload) [] v
  | step {taken : Option TraceEntry} {v : World σ π} (h : Engine.step env w = .ok taken v) :
    Gives env w .step taken.toList v
  | limited {most : Nat} {entries : List TraceEntry} {v : World σ π}
    (h : Engine.runUntilIdle env most w = .ok entries v) :
    Gives env w (.run (some most)) entries v
  | unlimited {entries : List TraceEntry} {v : World σ π} (h : RunsUntilIdle env w entries v) :
    Gives env w (.run none) entries v

end Turn

/-- The turns, taken one after the other, give these entries and leave the second world. -/
inductive Interleaving (env : Environment σ π ε) :
    World σ π → List (Turn π) → List TraceEntry → World σ π → Prop
  | nil (w : World σ π) : Interleaving env w [] [] w
  | cons {w v u : World σ π} {turn : Turn π} {turns : List (Turn π)}
    {entries more : List TraceEntry} (hfirst : turn.Gives env w entries v)
    (hrest : Interleaving env v turns more u) :
    Interleaving env w (turn :: turns) (entries ++ more) u

section Turns

variable {env : Environment σ π ε}

/-- Of all turns, posts alone can be taken in any engine with a machine. -/
theorem interleaving_posts (turns : List (Turn π)) {w : World σ π}
    (hw : w.engine.machine.isSome) :
    Interleaving env w (turns.filter Turn.isPost) []
      { w with engine := w.engine.postAll (turns.flatMap Turn.events) } := by
  induction turns generalizing w with
  | nil =>
    simp only [List.filter_nil, List.flatMap_nil, Engine.postAll_nil]
    exact .nil w
  | cons turn turns ih =>
    rw [List.flatMap_cons, ← Engine.postAll_postAll]
    cases turn with
    | post name payload =>
      obtain ⟨m, hm⟩ := Option.isSome_iff_exists.1 hw
      exact .cons (.post (Engine.postEvent_of_loaded hm name payload)) (ih hw)
    | step => simpa [Turn.events, Turn.isPost] using ih hw
    | run limit => simpa [Turn.events, Turn.isPost] using ih hw

/-- The steps of a turn take the events that wait once the turn has posted its own. -/
theorem Turn.Gives.processes {w v : World σ π} {turn : Turn π} {entries : List TraceEntry}
    (h : turn.Gives env w entries v) :
    Processes env { w with engine := w.engine.postAll turn.events } entries v := by
  cases h with
  | post h =>
    rw [Engine.eq_of_postEvent_eq_ok h]
    exact .nil _
  | @step taken _ h =>
    rw [events, Engine.postAll_nil]
    cases taken with
    | none => exact (Engine.eq_of_step_eq_none h).1 ▸ .nil v
    | some entry => exact .cons h (.nil v)
  | limited h =>
    rw [events, Engine.postAll_nil]
    exact (Engine.ends_runUntilIdle_processes _ w).of_ok h
  | unlimited h =>
    rw [events, Engine.postAll_nil]
    exact h.processes

section Quiet

variable (henv : env.Quiet)
include henv

/-- **Posting early changes nothing for the steps**: the steps of the turns are the first ones that
are taken once all events of the turns have been posted, and leave the same engine. -/
theorem Interleaving.processes {answers : String → Option String → Option π → Option Bool}
    (hguard : ∀ text event payload s,
      (env.guard text event payload s).1 = answers text event payload)
    {w v y : World σ π} {turns : List (Turn π)} {entries : List TraceEntry}
    (h : Interleaving env w turns entries v)
    (hy : y.engine = w.engine.postAll (turns.flatMap Turn.events)) :
    ∃ v', Processes env y entries v' ∧ v'.engine = v.engine := by
  induction h generalizing y with
  | nil w => exact ⟨y, .nil y, hy.trans w.engine.postAll_nil⟩
  | cons hfirst _ ih =>
    rw [List.flatMap_cons, ← Engine.postAll_postAll] at hy
    obtain ⟨x, hfirst', hx⟩ := hfirst.processes.postAll henv hguard hy
    obtain ⟨v', hrest', hv'⟩ := ih hx
    exact ⟨v', hfirst'.append hrest', hv'⟩

end Quiet

theorem Interleaving.append {u v w : World σ π} {turns later : List (Turn π)}
    {entries more : List TraceEntry} (huv : Interleaving env u turns entries v)
    (hvw : Interleaving env v later more w) :
    Interleaving env u (turns ++ later) (entries ++ more) w := by
  induction huv with
  | nil _ => exact hvw
  | cons hfirst _ ih =>
    rw [List.append_assoc]
    exact .cons hfirst (ih hvw)

/-! ### Accepted machines -/

section Accepted

variable (henv : env.Quiet) {m : Definition} (hm : m.declaration.WellFormed) {w v : World σ π}
  (hw : w.engine.AtRest m)
include henv hm hw

theorem Processes.atRest {entries : List TraceEntry} (h : Processes env w entries v) :
    v.engine.AtRest m := by
  induction h with
  | nil _ => exact hw
  | cons hstep _ ih => exact ih (((keeps_atRest (henv.steady m) hm).step _ hw).of_ok hstep).1

theorem Turn.Gives.atRest {turn : Turn π} {entries : List TraceEntry}
    (h : turn.Gives env w entries v) : v.engine.AtRest m := by
  have hposted : (w.engine.postAll turn.events).AtRest m :=
    hw.of_subset rfl rfl (List.Subset.refl _)
  exact Processes.atRest henv hm (w := ⟨_, w.host⟩) hposted h.processes

theorem Interleaving.atRest {turns : List (Turn π)} {entries : List TraceEntry}
    (h : Interleaving env w turns entries v) : v.engine.AtRest m := by
  induction h with
  | nil _ => exact hw
  | cons hfirst _ ih => exact ih (hfirst.atRest henv hm hw)

theorem exists_runsUntilIdle : ∃ entries v, RunsUntilIdle env w entries v := by
  have hends := (Engine.ends_steps_quiet hm henv hw).and
    (Engine.ends_steps_processes w.engine.queue.length w)
  obtain ⟨entries, v, -, ⟨-, hidle, -⟩, hprocesses⟩ :=
    (hends.mono (fun _ _ hv => hv) fun _ _ hb => hb.1).exists_ok
  exact ⟨entries, v, by rw [hw.fits.machine]; rfl, hprocesses, hidle⟩

/-- No turn breaks off. -/
theorem Turn.exists_gives (turn : Turn π) : ∃ entries v, turn.Gives env w entries v := by
  have hkeeps := keeps_atRest (henv.steady m) hm
  cases turn with
  | post name payload =>
    exact ⟨[], _, .post (Engine.postEvent_of_loaded hw.fits.machine name payload)⟩
  | step =>
    obtain ⟨taken, v, hstep, -⟩ := (hkeeps.step w hw).exists_ok
    exact ⟨taken.toList, v, .step hstep⟩
  | run limit =>
    cases limit with
    | none =>
      obtain ⟨entries, v, hruns⟩ := exists_runsUntilIdle henv hm hw
      exact ⟨entries, v, .unlimited hruns⟩
    | some most =>
      obtain ⟨entries, v, hrun, -⟩ := (Engine.ends_runUntilIdle_of_loaded hw.fits.machine
        (Engine.ends_steps hkeeps.step most hw)).exists_ok
      exact ⟨entries, v, .limited hrun⟩

theorem exists_interleaving (turns : List (Turn π)) :
    ∃ entries v, Interleaving env w turns entries v := by
  induction turns generalizing w with
  | nil => exact ⟨[], w, .nil w⟩
  | cons turn turns ih =>
    obtain ⟨entries, v, hfirst⟩ := turn.exists_gives henv hm hw
    obtain ⟨more, u, hrest⟩ := ih (hfirst.atRest henv hm hw)
    exact ⟨entries ++ more, u, .cons hfirst hrest⟩

end Accepted

end Turns

/-- **Posting and stepping interleave harmlessly**: after a load of an accepted machine and any
operations, among them loads of accepted machines, let the host make no calls and not fail, and
answer guards by text, event and payload alone. Then posts, steps and runs do not break off, however
they are mixed. Stop them at any time, go on with more of them, and run without a limit at the end.
If all the events are posted first and taken by one run, this run begins with the entries so far,
then come those since, then those of the last run. Both last runs take as many steps as events wait,
and they leave equal engines. -/
theorem posts_and_steps_interleave {m : Definition} (hm : m.Accepted) {h : Host σ π ε}
    (hreturns : h.Returns) (hsilent : h.Only fun _ => False)
    {answers : String → Option String → Option π → Option Bool}
    (hguard : ∀ text event payload s, (h.guard text event payload s).1 = answers text event payload)
    (depth : Nat) {ops : List (Operation π)}
    (hops : ∀ m', .load (.definition m') ∈ ops → m'.Accepted) {w₀ w : World σ π}
    (hw : w = worldAfter (h.environment depth) w₀ (.load (.definition m) :: ops)) :
    let env := h.environment depth
    (∀ turns, ∃ entries v, Interleaving env w turns entries v) ∧
    ∀ turns later early more v x, Interleaving env w turns early v →
      Interleaving env v later more x → ∃ rest u y u',
        RunsUntilIdle env x rest u ∧ rest.length = x.engine.queue.length ∧
        Interleaving env w ((turns ++ later).filter Turn.isPost) [] y ∧
        RunsUntilIdle env y (early ++ (more ++ rest)) u' ∧
        (early ++ (more ++ rest)).length = y.engine.queue.length ∧ u'.engine = u.engine := by
  intro env
  have henv : env.Quiet := hreturns.quiet hsilent depth
  have hanswers : ∀ text event payload s,
      (env.guard text event payload s).1 = answers text event payload := by
    intro text event payload s
    cases depth <;> exact hguard text event payload s
  obtain ⟨m', hm', hrest⟩ : ∃ m' : Definition, m'.Accepted ∧ w.engine.AtRest m' :=
    hw ▸ exists_worldAfter_of_loads
      (fun m' v hm' => (Engine.ends_enterMachine_of_wellFormed (henv.steady m') hm'.wellFormed
        v).mono (fun _ _ hv => hv.1) fun _ _ hb => hb.elim)
      (fun m' hm' => keeps_atRest_of_steady (henv.steady m') hm'.wellFormed) hm hops w₀
  have hwf := hm'.wellFormed
  refine ⟨exists_interleaving henv hwf hrest, fun turns later early more v x hturns hlater => ?_⟩
  have hx := hlater.atRest henv hwf (hturns.atRest henv hwf hrest)
  obtain ⟨rest, u, hruns⟩ := exists_runsUntilIdle henv hwf hx
  have hloaded : w.engine.machine.isSome := by rw [hrest.fits.machine]; rfl
  let y : World σ π := { w with engine := w.engine.postAll ((turns ++ later).flatMap Turn.events) }
  -- what the turns have taken is taken first, and then what still waits
  obtain ⟨x', hfirst, hx'⟩ := (hturns.append hlater).processes (y := y) henv hanswers rfl
  obtain ⟨u', hlast, hu'⟩ := hruns.processes.postAll henv hanswers
    (hx'.trans x.engine.postAll_nil.symm)
  rw [Engine.postAll_nil] at hu'
  have hall : RunsUntilIdle env y (early ++ (more ++ rest)) u' :=
    ⟨hloaded, List.append_assoc early more rest ▸ hfirst.append hlast, hu' ▸ hruns.idle⟩
  exact ⟨rest, u, y, u', hruns, hruns.length_eq henv, interleaving_posts (turns ++ later) hloaded,
    hall, hall.length_eq henv, hu'⟩

/-! ## A jukebox -/

namespace Jukebox

/-- A jukebox that plays a song for enough money. -/
def machine : Definition where
  name := "jukebox"
  initial := "silent"
  states := [⟨"silent", none, [], [], none⟩, ⟨"playing", none, ["start_timer(song)"], [], none⟩]
  choices := []
  transitions := [⟨"silent", "playing", some "coin", some "enough", ["light"], none⟩,
    ⟨"playing", "silent", some "skip", none, [], none⟩,
    ⟨"playing", "silent", some "over", none, [], none⟩]
  timers := [⟨"song", 3, "over", false, none⟩]
  states_nodup := by decide
  choices_nodup := List.nodup_nil

/-- Two units of money are enough. -/
def enough (_ : String) (_ : Option String) (payload : Option Nat) : Option Bool :=
  some (decide (2 ≤ payload.getD 0))

/-- A host that counts the actions. -/
def host : Host Nat Nat String where
  guard text event payload s := (enough text event payload, s)
  act _ s := .done (s + 1)

theorem accepted : machine.Accepted :=
  .of_wellFormed ((Validation.errors_eq_nil_iff _).1 (by cbv))

/-- The entry of a skip when there is nothing to skip. -/
def skipped : TraceEntry :=
  ⟨1, some "silent", some "silent", "skip", [], .unmatched, [some "silent"]⟩

/-- The entry of a coin that is enough. -/
def started : TraceEntry :=
  ⟨2, some "silent", some "playing", "coin", ["light", "start_timer(song)"], .transition,
    [some "silent", some "playing"]⟩

/-- The jukebox before it plays, with the given events waiting, after the given entries. -/
def silent (queue : List (PendingEvent Nat)) (trace : List TraceEntry) : World Nat Nat :=
  ⟨⟨some machine, .ready, some "silent", queue, [], 0, 0, trace, 1, trace.length, 0,
    Nat.one_pos⟩, 0⟩

/-- The jukebox while it plays, with the given events waiting. -/
def playing (queue : List (PendingEvent Nat)) : World Nat Nat :=
  ⟨⟨some machine, .ready, some "playing", queue,
    [⟨⟨"song", 3, "over", false, none⟩, 3, 1, some "playing"⟩], 1, 0, [started], 1, 2, 1,
    Nat.one_pos⟩, 2⟩

/-- A skip that waits is taken, then somebody pays, and pays again and skips when the song plays.
The entries are the same if all this is waiting from the start. -/
theorem jukebox_takes_turns :
    ∃ rest u y u',
      RunsUntilIdle (host.environment 0) (playing [⟨"coin", some 1, none⟩, ⟨"skip", none, none⟩])
        rest u ∧ rest.length = 2 ∧
      Interleaving (host.environment 0) (silent [⟨"skip", none, none⟩] [])
        [.post "coin" (some 2), .post "coin" (some 1), .post "skip" none] [] y ∧
      RunsUntilIdle (host.environment 0) y (skipped :: started :: rest) u' ∧
      u'.engine = u.engine := by
  have hreturns : host.Returns := fun _ _ => trivial
  have hsilent : host.Only fun _ => False := fun _ _ => trivial
  have hguard : ∀ text event payload s,
      (host.guard text event payload s).1 = enough text event payload := fun _ _ _ _ => rfl
  have hstart : silent [⟨"skip", none, none⟩] [] = worldAfter (host.environment 0) (.blank 0)
      [.load (.definition machine), .post "skip" none] := by cbv
  have hskip : Engine.step (host.environment 0) (silent [⟨"skip", none, none⟩] []) =
      .ok (some skipped) (silent [] [skipped]) := by cbv
  have hcoin : Engine.step (host.environment 0) (silent [⟨"coin", some 2, none⟩] [skipped]) =
      .ok (some started) (playing []) := by cbv
  have hturns : Interleaving (host.environment 0) (silent [⟨"skip", none, none⟩] [])
      [.step, .post "coin" (some 2), .run none] [skipped, started] (playing []) :=
    .cons (.step hskip) (.cons (.post rfl) (.cons (.unlimited ⟨rfl, .cons hcoin (.nil _), rfl⟩)
      (.nil _)))
  have hlater : Interleaving (host.environment 0) (playing [])
      [.post "coin" (some 1), .post "skip" none] []
      (playing [⟨"coin", some 1, none⟩, ⟨"skip", none, none⟩]) :=
    .cons (.post rfl) (.cons (.post rfl) (.nil _))
  obtain ⟨rest, u, y, u', hruns, hlength, hposts, hall, -, hsame⟩ :=
    (posts_and_steps_interleave accepted hreturns hsilent hguard 0 (by simp) hstart).2 _ _ _ _ _ _
      hturns hlater
  exact ⟨rest, u, y, u', hruns, hlength, hposts, hall, hsame⟩

end Jukebox

end Statechart
