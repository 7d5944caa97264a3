import Mathlib
import Statechart.Proofs.Engine.Posting
import Statechart.Proofs.Engine.Reentry

/-!
# Run to completion

A step is over before the next one begins, unless the host asks for a step while it carries out an
action. As long as it has not, each action finds the engine running: in a load, in a step, and in a
run of steps. What the host finds is kept in a list that it never reads (`Host.noted`), together
with the steps that it has taken itself.

A host that steps may find the engine ready in the middle of a step, and its steps may be numbered
as the one that they are taken in. Even then no step of an operation leads from or to anything but
states, and those that find the machine between two states strand.

The invariant of what is found is `Follows`, a relation of the worlds before and after a part of a
step; `call_follows` shows it of calls, and `environment_follows` of actions, by induction on how
deep calls are nested.

Main statement: `steps_run_to_completion`.
-/

namespace Statechart

open Engine

variable {σ π ε : Type}

/-! ## What a host finds -/

/-- What is told of an operation by its host. -/
inductive Noted
  /-- An action is to be carried out, with the engine in this status. -/
  | shown (status : Status)
  /-- The host has asked for a step, and not just heard that no event waits. -/
  | stepped
  deriving DecidableEq, Repr

/-- What is told of a call, given what came back. -/
def Call.noted : Call π → Except (Fault ε) (Reply π) → List Noted
  | .step, .ok (.stepped none) => []
  | .step, _ => [.stepped]
  | _, _ => []

/-- The host with a list of what it finds and does. -/
def Host.noted (h : Host σ π ε) : Host (σ × List Noted) π ε where
  guard text event payload s :=
    let r := h.guard text event payload s.1
    (r.1, r.2, s.2)
  act a s := .look fun e =>
    (h.act a s.1).beside (fun c r l => l ++ c.noted r) (s.2 ++ [.shown e.status])

/-- What the host finds and does in an operation. -/
def Operation.noted (env : Environment (σ × List Noted) π ε) (op : Operation π) (w : World σ π) :
    List Noted :=
  ((op.perform env).after ⟨w.engine, (w.host, [])⟩).host.2

/-- Each action finds the engine running, unless the host has stepped before. -/
def Orderly (notes : List Noted) : Prop :=
  ∀ before status, before ++ [.shown status] <+: notes → status = .running ∨ .stepped ∈ before

section Orderly

variable {notes more : List Noted}

theorem orderly_nil : Orderly [] := by
  intro before status hbefore
  simp at hbefore

theorem orderly_concat {x : Noted} :
    Orderly (notes ++ [x]) ↔ Orderly notes ∧
      ∀ status, x = .shown status → status = .running ∨ .stepped ∈ notes := by
  constructor
  · intro h
    refine ⟨fun before status hbefore => h before status ?_, fun status hx => h notes status ?_⟩
    · exact hbefore.trans (List.prefix_append ..)
    · rw [hx]
  · rintro ⟨h, hx⟩ before status hbefore
    rcases List.prefix_concat_iff.1 hbefore with heq | hbefore
    · obtain ⟨rfl, hlast⟩ := List.append_inj' heq rfl
      exact hx status (by simpa using hlast.symm)
    · exact h before status hbefore

/-- After the host has stepped, it may find anything. -/
theorem Orderly.append (h : Orderly notes) (hmore : .stepped ∈ notes ∨ Orderly more) :
    Orderly (notes ++ more) := by
  induction more using List.reverseRecOn with
  | nil => rwa [List.append_nil]
  | append_singleton more x ih =>
    rw [← List.append_assoc]
    refine orderly_concat.2 ⟨ih (hmore.imp_right fun hmore => (orderly_concat.1 hmore).1), ?_⟩
    intro status hx
    rcases hmore with hstepped | hmore
    · exact .inr (List.mem_append_left _ hstepped)
    · exact ((orderly_concat.1 hmore).2 status hx).imp_right (List.mem_append_right _)

end Orderly

/-! ## Within a step -/

/-- The call loads no machine, and is a step only if the host may step. -/
def Call.Mild (mayStep : Prop) : Call π → Prop
  | .reload => False
  | .step => mayStep
  | .post .. | .tick _ => True

/-- The list has grown by notes that are orderly if the engine was running, and it is running still
unless the host has stepped, which it has only if it may. -/
def Follows (mayStep : Prop) (w v : World (σ × List Noted) π) : Prop :=
  ∃ notes, v.host.2 = w.host.2 ++ notes ∧ (.stepped ∈ notes → mayStep) ∧
    (w.engine.status = .running →
      Orderly notes ∧ (.stepped ∈ notes ∨ v.engine.status = .running))

section Follows

variable {mayStep : Prop}

theorem Follows.of_eq {w v : World (σ × List Noted) π}
    (hstatus : v.engine.status = w.engine.status) (hnotes : v.host.2 = w.host.2) :
    Follows mayStep w v :=
  ⟨[], by simp [hnotes], by simp, fun hw => ⟨orderly_nil, .inr (hstatus.trans hw)⟩⟩

theorem Follows.trans {u v w : World (σ × List Noted) π} (huv : Follows mayStep u v)
    (hvw : Follows mayStep v w) : Follows mayStep u w := by
  obtain ⟨notes, hv, hsteps, hu⟩ := huv
  obtain ⟨notes', hw, hsteps', hv'⟩ := hvw
  refine ⟨notes ++ notes', by rw [hw, hv, List.append_assoc], fun hmem => ?_, fun hrunning => ?_⟩
  · rcases List.mem_append.1 hmem with hmem | hmem
    · exact hsteps hmem
    · exact hsteps' hmem
  · obtain ⟨horderly, hstepped | hstill⟩ := hu hrunning
    · exact ⟨horderly.append (.inl hstepped), .inl (List.mem_append_left _ hstepped)⟩
    · obtain ⟨horderly', hend⟩ := hv' hstill
      exact ⟨horderly.append (.inr horderly'), hend.imp_left (List.mem_append_right _)⟩

/-- Whatever the status was, notes that end with a step of the host follow. -/
theorem Follows.of_stepped (hsteps : mayStep) {w v : World (σ × List Noted) π} {notes : List Noted}
    (hnotes : v.host.2 = w.host.2 ++ notes) (horderly : Orderly notes) :
    Follows mayStep w ⟨v.engine, (v.host.1, v.host.2 ++ [.stepped])⟩ :=
  ⟨notes ++ [.stepped], by simp [hnotes], fun _ => hsteps, fun _ =>
    ⟨orderly_concat.2 ⟨horderly, by simp⟩, .inl (by simp)⟩⟩

/-- If the notes follow on actions, they follow over all of a step. -/
theorem respects_follows {env : Environment (σ × List Noted) π ε}
    (henv : env.Keeps (Follows mayStep))
    (hguard : ∀ text event payload s, (env.guard text event payload s).2.2 = s.2) :
    Respects env (Follows mayStep) where
  refl _ := .of_eq rfl rfl
  trans := .trans
  react := henv
  guard text event payload w := .of_eq rfl (hguard text event payload w.host)
  progress _ _ _ _ _ := .of_eq rfl rfl

end Follows

/-- In a part of an operation, the list has grown by orderly notes. -/
def Tells (mayStep : Prop) (w v : World (σ × List Noted) π) : Prop :=
  ∃ notes, v.host.2 = w.host.2 ++ notes ∧ (.stepped ∈ notes → mayStep) ∧ Orderly notes

section Tells

variable {mayStep : Prop}

theorem Tells.of_eq {w v : World (σ × List Noted) π} (hnotes : v.host.2 = w.host.2) :
    Tells mayStep w v :=
  ⟨[], by simp [hnotes], by simp, orderly_nil⟩

theorem Tells.trans {u v w : World (σ × List Noted) π} (huv : Tells mayStep u v)
    (hvw : Tells mayStep v w) : Tells mayStep u w := by
  obtain ⟨notes, hv, hsteps, horderly⟩ := huv
  obtain ⟨notes', hw, hsteps', horderly'⟩ := hvw
  refine ⟨notes ++ notes', by rw [hw, hv, List.append_assoc], fun hmem => ?_,
    horderly.append (.inr horderly')⟩
  rcases List.mem_append.1 hmem with hmem | hmem
  · exact hsteps hmem
  · exact hsteps' hmem

/-- What follows a running engine is orderly. -/
theorem Follows.tells {w v : World (σ × List Noted) π} (h : Follows mayStep w v)
    (hw : w.engine.status = .running) : Tells mayStep w v := by
  obtain ⟨notes, hnotes, hsteps, horderly⟩ := h
  exact ⟨notes, hnotes, hsteps, (horderly hw).1⟩

end Tells

section Steps

variable {mayStep : Prop} {env : Environment (σ × List Noted) π ε}
  (henv : Respects env (Follows mayStep))
include henv

/-- A step begins with the engine running, whatever its status was. -/
theorem ends_step_tells (w : World (σ × List Noted) π) :
    Ends (Engine.step env) w
      (fun entry v => Tells mayStep w v ∧ (entry = none → v = w)) fun _ v => Tells mayStep w v := by
  rw [ends_step]
  split
  · exact .of_eq rfl
  · split
    · exact ⟨.of_eq rfl, fun _ => rfl⟩
    · rename_i m _ _ ev rest _
      refine (henv.dispatch m ev ⟨_, w.host⟩).mono (fun entry v hv => ?_) fun _ v hv => ?_
      · exact ⟨hv.tells rfl, by simp⟩
      · exact hv.tells rfl

theorem ends_enterMachine_tells (m : Definition) (w : World (σ × List Noted) π) :
    Ends (Engine.enterMachine env m) w (fun _ v => Tells mayStep w v)
      fun _ v => Tells mayStep w v := by
  rw [ends_enterMachine]
  exact (henv.walk m none none _ _ ⟨_, w.host⟩).mono (fun _ v hv => hv.tells rfl)
    fun _ v hv => hv.tells rfl

theorem ends_steps_tells (n : Nat) (w : World (σ × List Noted) π) :
    Ends (Engine.steps env n) w (fun _ v => Tells mayStep w v) fun _ v => Tells mayStep w v := by
  induction n generalizing w with
  | zero => exact .of_eq rfl
  | succ n ih =>
    rw [ends_steps_succ]
    split
    · exact .of_eq rfl
    · refine (ends_step_tells henv w).mono (fun entry v hv => ?_) fun _ v hv => hv
      exact (ih v).mono (fun _ u hu => hv.1.trans hu) fun _ u hu => hv.1.trans hu

/-- Whatever the world is like, an operation tells of nothing but orderly notes. -/
theorem ends_operation_tells (op : Operation π) (w : World (σ × List Noted) π) :
    Ends (op.perform env) w (fun _ v => Tells mayStep w v) fun _ v => Tells mayStep w v := by
  cases op with
  | load subject =>
    cases subject with
    | definition m => exact ends_map.2 (ends_enterMachine_tells henv m w)
    | foreign f => exact ends_map.2 (.of_eq rfl)
  | post name payload =>
    rw [Operation.perform, ends_bind, ends_postEvent]
    split <;> exact .of_eq rfl
  | step =>
    exact ends_map.2 ((ends_step_tells henv w).mono (fun _ _ hv => hv.1) fun _ _ hv => hv)
  | run most =>
    rw [Operation.perform, ends_map, ends_runUntilIdle]
    split
    · exact ends_steps_tells henv most w
    · exact .of_eq rfl
  | tick elapsed =>
    rw [Operation.perform, ends_map, ends_tick]
    split
    · exact .of_eq rfl
    · split <;> exact .of_eq rfl

end Steps

/-! ## What actions do -/

/-- On a call, the notes follow if they do on the actions within it. -/
theorem call_follows {mayStep : Prop} {env : Option (Environment (σ × List Noted) π ε)}
    (henv : ∀ x ∈ env, Respects x (Follows mayStep)) {c : Call π} (hc : c.Mild mayStep)
    (w : World (σ × List Noted) π) :
    Ends (c.run env) w
      (fun r v => Follows mayStep w
        ⟨v.engine, (v.host.1, v.host.2 ++ c.noted (.ok r : Except (Fault ε) (Reply π)))⟩)
      fun f v => Follows mayStep w ⟨v.engine, (v.host.1, v.host.2 ++ c.noted (.error f))⟩ := by
  cases c with
  | post name payload =>
    rw [Call.run, ends_bind, ends_postEvent]
    split <;> exact .of_eq rfl (List.append_nil _)
  | tick elapsed =>
    rw [Call.run, ends_map, ends_tick]
    split
    · exact .of_eq rfl (List.append_nil _)
    · split <;> exact .of_eq rfl (List.append_nil _)
  | step =>
    cases env with
    | none => exact .of_stepped hc (List.append_nil _).symm orderly_nil
    | some env =>
      rw [Call.run, ends_map]
      refine (ends_step_tells (henv env rfl) w).mono (fun entry v hv => ?_) fun _ v hv => ?_
      · obtain ⟨⟨notes, hnotes, -, horderly⟩, hidle⟩ := hv
        cases entry with
        | none =>
          obtain rfl := hidle rfl
          exact .of_eq rfl (List.append_nil _)
        | some entry => exact .of_stepped hc hnotes horderly
      · obtain ⟨notes, hnotes, -, horderly⟩ := hv
        exact .of_stepped hc hnotes horderly
  | reload => exact hc.elim

/-- The environment of a host with the list is one in which the notes follow. -/
theorem environment_follows {mayStep : Prop} {h : Host σ π ε} (hh : h.Only (Call.Mild mayStep))
    (depth : Nat) : Respects (h.noted.environment depth) (Follows mayStep) := by
  have hreact : ∀ env : Option (Environment (σ × List Noted) π ε),
      (∀ x ∈ env, Respects x (Follows mayStep)) → ∀ a w,
      Ends (h.noted.react (Call.run env) a) w (fun _ v => Follows mayStep w v)
        fun _ v => Follows mayStep w v := by
    intro env henv a w
    -- what the host is shown at the beginning is the status of the engine as it is
    have hshown : Follows mayStep w
        ⟨w.engine, (w.host.1, w.host.2 ++ [.shown w.engine.status])⟩ :=
      ⟨_, rfl, by simp, fun hw => ⟨orderly_concat.2 ⟨orderly_nil, by simp [hw]⟩, .inr hw⟩⟩
    exact ((hh a w.host.1).ends_beside (fun _ _ => .of_eq rfl rfl) .trans
      (fun c v hc => call_follows henv hc v) _ w).mono (fun _ _ hv => hshown.trans hv)
      fun _ _ hv => hshown.trans hv
  induction depth with
  | zero => exact respects_follows (hreact none (by simp)) fun _ _ _ _ => rfl
  | succ depth ih =>
    exact respects_follows (hreact (some _) (by simpa using ih)) fun _ _ _ _ => rfl

/-! ## Runs -/

/-- With a host that loads no machine, what it finds in an operation is orderly; one that does not
step finds the engine running. -/
theorem orderly_noted {mayStep : Prop} {h : Host σ π ε} (hh : h.Only (Call.Mild mayStep))
    (depth : Nat) (op : Operation π) (w : World σ π) :
    Orderly (op.noted (h.noted.environment depth) w) ∧
      (¬ mayStep → ∀ status, .shown status ∈ op.noted (h.noted.environment depth) w →
        status = .running) := by
  have htells := (ends_operation_tells (environment_follows hh depth) op
    ⟨w.engine, (w.host, [])⟩).after
  obtain ⟨notes, hnotes, hsteps, horderly⟩ := htells
  have hsame : op.noted (h.noted.environment depth) w = notes := hnotes
  rw [hsame]
  refine ⟨horderly, fun hnot status hmem => ?_⟩
  obtain ⟨before, after, hsplit⟩ := List.append_of_mem hmem
  have hprefix : before ++ [.shown status] <+: notes := ⟨after, by simp [hsplit]⟩
  refine (horderly before status hprefix).resolve_right fun hstepped => hnot (hsteps ?_)
  exact hprefix.subset (List.mem_append_left _ hstepped)

/-- **Steps run to completion**: after a load of an accepted machine that succeeds, and any
operations but loads however they end, with a host that loads no machine, the engine waits in a
state of the machine that owns all armed timers. All steps of the operations have led from states to
states, and an entry of the trace that does not is of a step that the host has taken between two
states, which stranded. In every operation, each action finds the engine running unless the host has
stepped before.

If the host does not step, each action finds the engine running, all entries of the trace lead from
states to states, and their numbers increase. -/
theorem steps_run_to_completion {m : Definition} (hm : m.Accepted) {h : Host σ π ε}
    (hh : h.Only Call.NoLoad) (depth : Nat) {w₀ w₁ : World σ π} {actions : List String}
    (hload : Engine.load (h.environment depth) (.definition m) w₀ = .ok actions w₁)
    {ops : List (Operation π)} (hops : ∀ op ∈ ops, ¬ op.IsLoad) :
    let w := worldAfter (h.environment depth) w₁ ops
    w.engine.status = .ready ∧ w.engine.Whole m ∧
      (∀ entry ∈ entriesAfter (h.environment depth) w₁ ops, entry.Placed m) ∧
      (∀ entry ∈ w.engine.trace, entry.Placed m ∨ entry.Stranded) ∧
      (∀ (op : Operation π) v, Orderly (op.noted (h.noted.environment depth) v)) ∧
      (h.Only Call.IsPostOrTick →
        (∀ (op : Operation π) v status, .shown status ∈ op.noted (h.noted.environment depth) v →
          status = .running) ∧
        (∀ entry ∈ w.engine.trace, entry.Placed m) ∧
        (w.engine.trace.map TraceEntry.sequence).Pairwise (· < ·)) := by
  intro w
  have hwf := hm.wellFormed
  have henv := Host.Only.carries hwf hh depth
  have hloaded := (ends_enterMachine_handed henv hwf w₀).of_ok hload
  have hready := (ends_enterMachine_ready _ m w₀).of_ok hload
  obtain ⟨⟨hfair, hstatus, hwhole⟩, hplaced⟩ :=
    (lasts_whole henv hwf).worldAfter hops ⟨hloaded.2, hready, hloaded.1⟩
  have hmild : h.Only (Call.Mild True) := hh.mono fun c hc => by
    cases c with
    | reload => exact hc
    | _ => trivial
  refine ⟨hstatus, hwhole, hplaced, hfair.told, fun op v => (orderly_noted hmild depth op v).1,
    fun honly => ?_⟩
  have hcalm : h.Only (Call.Mild False) := honly.mono fun c hc => by
    cases c with
    | step => exact hc
    | reload => exact hc
    | _ => trivial
  -- the trace of such a host is the end of the list of all entries, which are numbered from one
  have hshows := shows_worldAfter (honly.respects_journal depth) hops
    ((ends_enterMachine_shows (honly.respects_journal depth) m w₀).of_ok hload)
  rw [List.nil_append] at hshows
  have htrace : w.engine.trace = _ := hshows.trace
  refine ⟨fun op v => (orderly_noted hcalm depth op v).2 not_false, fun entry hentry => ?_, ?_⟩
  · rw [htrace] at hentry
    exact hplaced entry (List.mem_of_mem_drop hentry)
  · rw [htrace, List.map_drop, hshows.numbered]
    exact (List.pairwise_lt_range' 1).sublist (List.drop_sublist ..)

/-! ## A door that is knocked at -/

namespace Doorway

/-- A door that is pushed open. -/
def machine : Definition where
  name := "door"
  initial := "shut"
  states := [⟨"shut", none, [], [], none⟩, ⟨"open", none, [], [], none⟩]
  choices := []
  transitions := [⟨"shut", "open", some "push", none, ["ping()", "pong()"], none⟩]
  timers := []
  states_nodup := by decide
  choices_nodup := List.nodup_nil

/-- A host that posts an event on the first action, and steps if it is to. -/
def host (steps : Bool) : Host Unit Unit String where
  guard _ _ _ s := (none, s)
  act a s :=
    if a = "ping()" then
      .call s (.post "knock" none) fun s _ =>
        if steps then .call s .step fun s _ => .done s else .done s
    else .done s

theorem host_only : (host false).Only Call.IsPostOrTick := by
  intro a s
  simp only [host]
  split
  · exact ⟨trivial, fun _ _ => trivial⟩
  · trivial

theorem accepted : machine.Accepted :=
  .of_wellFormed ((Validation.errors_eq_nil_iff _).1 (by cbv))

/-- The shut door, with an engine that keeps three entries. -/
def shut : World Unit Unit :=
  ⟨⟨some machine, .ready, some "shut", [], [], 0, 0, [], 3, 0, 0, Nat.succ_pos 2⟩, ()⟩

/-- The door is pushed, and the engine runs for two steps. -/
def visit : List (Operation Unit) := [.post "push" none, .run 2]

/-- The door is open before the knock is heard. -/
theorem push_before_knock :
    let w := worldAfter ((host false).environment 1) shut visit
    w.engine.Whole machine ∧ w.engine.trace.map TraceEntry.event = ["push", "knock"] ∧
      (w.engine.trace.map TraceEntry.sequence).Pairwise (· < ·) := by
  obtain ⟨-, hwhole, -, -, -, hposts⟩ := steps_run_to_completion accepted
    (host_only.mono fun _ => Call.IsPostOrTick.noLoad) 1
    (by cbv : Engine.load ((host false).environment 1) (.definition machine)
      ⟨.fresh 3 (Nat.succ_pos 2), ()⟩ = .ok [] shut)
    (by simp [visit, Operation.IsLoad] : ∀ op ∈ visit, ¬ op.IsLoad)
  exact ⟨hwhole, by cbv, (hposts host_only).2.2⟩

/-- A host that steps on the first action has the knock heard while the door is in no state. The
second action finds the engine ready, and both entries have the same number. -/
theorem knock_within_push :
    .shown .ready ∈ Operation.step.noted ((host true).noted.environment 1)
        (worldAfter ((host true).environment 1) shut [.post "push" none]) ∧
      (worldAfter ((host true).environment 1) shut [.post "push" none, .step]).engine.trace =
        [⟨2, none, none, "knock", [], .unmatched, [none]⟩,
          ⟨2, some "shut", some "open", "push", ["ping()", "pong()"], .transition,
            [some "shut", some "open"]⟩] := by
  have hnoted : Operation.step.noted ((host true).noted.environment 1)
      (worldAfter ((host true).environment 1) shut [.post "push" none]) =
        [.shown .running, .stepped, .shown .ready] := by cbv
  exact ⟨by simp [hnoted], by cbv⟩

end Doorway

end Statechart
