import Mathlib
import Statechart.Proofs.Engine.Conservation

/-!
# The trace holds the latest entries

The entries of the steps after a load are numbered from one on without gaps. The trace holds the
latest of them, as many as the trace limit allows, and the others are counted as dropped.

What a step counts and records is the engine's `Journal`. A host that posts and ticks leaves it
alone, and so does the walk of a step (`Host.Only.respects_journal`): the journal changes only
when a step begins, which `Engine.rollBack` undoes, and when the entry of a step is recorded. The
invariant is `Journal.Shows`; `Journal.Shows.record` carries it over an entry, `ends_step_shows`
over a step, and `ends_operation_shows` over any operation but a load.

Main statement: `latest_entries_retained`.
-/

namespace Statechart

variable {σ π ε : Type}

/-! ## Journals -/

/-- The part of an engine that tells of the steps it has taken, with the machine that took
them. -/
structure Journal where
  machine : Option Definition
  limit : Nat
  trace : List TraceEntry
  dropped : Nat
  sequence : Nat

/-- The journal of an engine. -/
def Engine.journal (e : Engine π) : Journal :=
  ⟨e.machine, e.traceLimit, e.trace, e.dropped, e.sequence⟩

/-- The journal of an engine with a machine tells of the given entries: they are numbered from one
on, the trace holds the latest of them, and the others have been dropped. -/
structure Journal.Shows (j : Journal) (limit : Nat) (entries : List TraceEntry) : Prop where
  loaded : j.machine.isSome
  limit_eq : j.limit = limit
  numbered : entries.map TraceEntry.sequence = List.range' 1 entries.length
  sequence : j.sequence = entries.length
  trace : j.trace = entries.drop (entries.length - limit)
  dropped : j.dropped = entries.length - limit

namespace Journal.Shows

variable {e : Engine π} {limit : Nat} {entries : List TraceEntry}

theorem reset (e : Engine π) (m : Definition) : (e.reset m).journal.Shows e.traceLimit [] :=
  ⟨rfl, rfl, rfl, rfl, List.drop_nil.symm, (Nat.zero_sub _).symm⟩

/-- The step that follows, once it is counted, adds its entry at the end. -/
theorem record (h : e.journal.Shows limit entries) {v : Engine π} {entry : TraceEntry}
    (hv : v.journal = { e.journal with sequence := e.sequence + 1 })
    (hentry : entry.sequence = e.sequence + 1) :
    (v.record entry).journal.Shows limit (entries ++ [entry]) := by
  have hlimit : v.traceLimit = limit := (congrArg Journal.limit hv).trans h.limit_eq
  have hmachine : v.machine = e.machine := congrArg Journal.machine hv
  have htrace : v.trace = entries.drop (entries.length - limit) :=
    (congrArg Journal.trace hv).trans h.trace
  have hdropped : v.dropped = entries.length - limit :=
    (congrArg Journal.dropped hv).trans h.dropped
  have hcount : v.sequence = entries.length + 1 :=
    (congrArg Journal.sequence hv).trans (congrArg (· + 1) h.sequence)
  have hnumber : entry.sequence = entries.length + 1 :=
    hentry.trans (congrArg (· + 1) h.sequence)
  have hnumbered : (entries ++ [entry]).map TraceEntry.sequence =
      List.range' 1 (entries ++ [entry]).length := by
    rw [List.map_append, h.numbered, List.length_append, List.length_singleton,
      List.range'_concat, List.map_singleton, hnumber, Nat.one_mul, Nat.add_comm]
  have hheld : v.trace.length = entries.length - (entries.length - limit) := by
    rw [htrace, List.length_drop]
  have hpos := v.traceLimit_pos
  by_cases hroom : v.trace.length < v.traceLimit
  · -- nothing has been dropped yet, and nothing is now
    rw [Engine.record, if_pos hroom]
    refine ⟨hmachine ▸ h.loaded, hlimit, hnumbered, ?_, ?_, ?_⟩
    · simpa [Engine.journal] using hcount
    · have hnone : entries.length - limit = 0 := by omega
      have hnone' : (entries ++ [entry]).length - limit = 0 := by
        rw [List.length_append, List.length_singleton]
        omega
      show v.trace ++ [entry] = _
      rw [htrace, hnone, hnone', List.drop_zero, List.drop_zero]
    · show v.dropped = _
      rw [hdropped, List.length_append, List.length_singleton]
      omega
  · -- the oldest entry that is held makes room
    rw [Engine.record, if_neg hroom]
    have hmore : (entries ++ [entry]).length - limit = entries.length - limit + 1 := by
      rw [List.length_append, List.length_singleton]
      omega
    refine ⟨hmachine ▸ h.loaded, hlimit, hnumbered, ?_, ?_, ?_⟩
    · simpa [Engine.journal] using hcount
    · show v.trace.drop 1 ++ [entry] = _
      rw [htrace, List.drop_drop, hmore, List.drop_append_of_le_length (by omega)]
    · show v.dropped + 1 = _
      rw [hdropped, hmore]

end Journal.Shows

/-! ## Hosts leave the journal alone -/

theorem keeps_journal : Call.Keeps (σ := σ) (π := π) ε Call.IsPostOrTick
    fun w v => v.engine.journal = w.engine.journal where
  host _ _ := rfl
  trans huv hvw := hvw.trans huv
  call c env w hc := by
    cases c with
    | post name payload =>
      simp only [Call.run, ends_bind, Engine.ends_postEvent, ends_pure]
      split <;> rfl
    | tick elapsed =>
      simp only [Call.run, ends_map, Engine.ends_tick]
      split
      · rfl
      · split <;> rfl
    | _ => exact hc.elim

/-- The walk of a step, with a host that posts and ticks, leaves the journal alone. -/
theorem Host.Only.respects_journal {h : Host σ π ε} (hh : h.Only Call.IsPostOrTick) (depth : Nat) :
    Engine.RespectsWalk (h.environment depth) fun w v => v.engine.journal = w.engine.journal where
  refl _ := rfl
  trans huv hvw := hvw.trans huv
  react a w := by
    have hforget : ∀ v : World (σ × List (PendingEvent π)) π,
        v.engine.journal = w.engine.journal → v.forget.engine.journal = w.engine.journal :=
      fun _ hv => hv
    have hreact := keeps_journal.react hh depth a ⟨w.engine, (w.host, [])⟩
    exact ((h.shadows_recorded depth).react a).ends
      (hreact.mono (fun _ v hv => hforget v hv) fun _ v hv => hforget v hv)
  guard _ _ _ _ := rfl
  progress _ _ _ _ := rfl

/-! ## Steps and operations -/

section Operations

variable {env : Environment σ π ε}
  (henv : Engine.RespectsWalk env fun w v => v.engine.journal = w.engine.journal)
  {w : World σ π} {limit : Nat} {entries : List TraceEntry}
include henv

/-- Whether a transition is found for it or not, an event counts as one step. -/
theorem ends_dispatch_journal (m : Definition) (ev : PendingEvent π) (w : World σ π) :
    Ends (Engine.dispatch env m ev) w
      (fun entry v => v.engine.journal =
          { w.engine.journal with sequence := w.engine.sequence + 1 } ∧
        entry.sequence = w.engine.sequence + 1)
      fun _ v => v.engine.journal =
        { w.engine.journal with sequence := w.engine.sequence + 1 } := by
  simp only [Engine.dispatch, ends_bind, Engine.ends_update, ends_get]
  split
  · exact ⟨rfl, rfl⟩
  · rename_i state _
    rw [ends_bind]
    refine (henv.choose Transition.guard (some ev.name) ev.payload _ _).mono
      (fun chosen v hv => ?_) fun _ _ hv => hv
    cases chosen with
    | none => exact ⟨hv, rfl⟩
    | some t =>
      simp only [ends_bind, Engine.ends_update, ends_get, ends_pure]
      refine (henv.walk m (some ev.name) ev.payload (.take state t) _ v).mono
        (fun p u hu => ?_) fun _ _ hu => hu.trans hv
      exact ⟨hu.trans hv, congrArg Journal.sequence (hu.trans hv)⟩

/-- A step adds its entry, if it gives one; a step that breaks off leaves the journal as it
was. -/
theorem ends_step_shows (hw : w.engine.journal.Shows limit entries) :
    Ends (Engine.step env) w
      (fun entry v => v.engine.journal.Shows limit (entries ++ entry.toList))
      fun _ v => v.engine.journal.Shows limit entries := by
  obtain ⟨m, hm⟩ := Option.isSome_iff_exists.1 hw.loaded
  refine Engine.ends_step_of_loaded hm (fun _ => ?_) fun ev rest _ => ?_
  · rwa [Option.toList_none, List.append_nil]
  · refine (ends_dispatch_journal henv m ev _).mono (fun entry v hv => ?_) fun _ v hv => ?_
    · exact hw.record (v := { v.engine with status := .ready }) hv.1 hv.2
    · have hundone : (v.engine.rollBack w.engine ev).journal = w.engine.journal :=
        congrArg (fun j : Journal => { j with sequence := w.engine.sequence }) hv
      rwa [hundone]

/-- However an operation but a load ends, the journal tells of the entries of its steps as
well. -/
theorem ends_operation_shows {op : Operation π} (hop : ¬ op.IsLoad)
    (hw : w.engine.journal.Shows limit entries) :
    Ends (op.perform env) w
      (fun _ v => v.engine.journal.Shows limit (entries ++ op.entriesTaken env w))
      fun _ v => v.engine.journal.Shows limit (entries ++ op.entriesTaken env w) := by
  obtain ⟨m, hm⟩ := Option.isSome_iff_exists.1 hw.loaded
  cases op with
  | load subject => exact absurd trivial hop
  | post name payload =>
    rw [Operation.entriesTaken, List.append_nil]
    exact ends_bind.2 (Engine.ends_postEvent_of_loaded hm hw)
  | step =>
    refine ends_map.2 (((ends_step_shows henv hw).and (ends_self _ _)).mono
      (fun entry v hv => ?_) fun f v hv => ?_)
    · simpa only [Operation.entriesTaken, hv.2] using hv.1
    · simpa only [Operation.entriesTaken, hv.2, List.append_nil] using hv.1
  | run most =>
    exact ends_map.2 (Engine.ends_runUntilIdle_of_loaded hm
      (Engine.ends_steps_taken (fun _ _ => ends_step_shows henv) most hw))
  | tick elapsed =>
    rw [Operation.entriesTaken, List.append_nil]
    exact ends_map.2 (Engine.ends_tick_of_loaded hm (fun _ => hw) fun _ => hw)

/-- The journal after a load that succeeds tells of no steps. -/
theorem ends_enterMachine_shows (m : Definition) (w : World σ π) :
    Ends (Engine.enterMachine env m) w
      (fun _ v => v.engine.journal.Shows w.engine.traceLimit []) fun _ _ => True := by
  refine Engine.ends_enterMachine.2 ?_
  refine (henv.walk m none none _ _ _).mono (fun _ v hv => ?_) fun _ _ _ => trivial
  have hreset : v.engine.journal = (w.engine.reset m).journal := hv
  have hshows := Journal.Shows.reset w.engine m
  rw [← hreset] at hshows
  exact hshows

end Operations

/-- The entries of all steps that operations take one after the other. -/
def entriesAfter (env : Environment σ π ε) : World σ π → List (Operation π) → List TraceEntry
  | _, [] => []
  | w, op :: ops => op.entriesTaken env w ++ entriesAfter env ((op.perform env).after w) ops

/-- What the entry of a step meets, the entries of all steps meet that operations take. -/
theorem forall_mem_entriesAfter {env : Environment σ π ε} {inv : World σ π → Prop}
    {good : TraceEntry → Prop}
    (hstep : ∀ w, inv w → Ends (Engine.step env) w (fun entry v => inv v ∧ ∀ e ∈ entry, good e)
      fun _ _ => True) {ops : List (Operation π)}
    (hops : ∀ op ∈ ops, ∀ w, inv w → inv ((op.perform env).after w)) {w : World σ π} (hw : inv w) :
    ∀ e ∈ entriesAfter env w ops, good e := by
  induction ops generalizing w with
  | nil => simp [entriesAfter]
  | cons op ops ih =>
    exact List.forall_mem_append.2 ⟨op.forall_mem_entriesTaken hstep hw,
      ih (fun op' hop => hops op' (List.mem_cons_of_mem _ hop)) (hops op (by simp) w hw)⟩

theorem shows_worldAfter {env : Environment σ π ε}
    (henv : Engine.RespectsWalk env fun w v => v.engine.journal = w.engine.journal)
    {limit : Nat} {ops : List (Operation π)} (hops : ∀ op ∈ ops, ¬ op.IsLoad)
    {w : World σ π} {entries : List TraceEntry} (hw : w.engine.journal.Shows limit entries) :
    (worldAfter env w ops).engine.journal.Shows limit (entries ++ entriesAfter env w ops) := by
  induction ops generalizing w entries with
  | nil => rwa [entriesAfter, List.append_nil]
  | cons op ops ih =>
    rw [entriesAfter, ← List.append_assoc]
    exact ih (fun op' hop => hops op' (List.mem_cons_of_mem _ hop))
      (ends_operation_shows henv (hops op (by simp)) hw).after

/-- **The trace holds the latest entries**: after a load that succeeds, and any operations but
loads however they end, with a host that at most posts, ticks and fails, the entries of all steps
since are numbered from one on without gaps. Of these, the trace holds the latest in order, as many
as the trace limit allows, and the number of dropped entries is that of all others. -/
theorem latest_entries_retained {h : Host σ π ε} (hh : h.Only Call.IsPostOrTick) (depth : Nat)
    (m : Definition) {w₀ w₁ : World σ π} {actions : List String}
    (hload : Engine.load (h.environment depth) (.definition m) w₀ = .ok actions w₁)
    {ops : List (Operation π)} (hops : ∀ op ∈ ops, ¬ op.IsLoad) :
    let e := (worldAfter (h.environment depth) w₁ ops).engine
    let entries := entriesAfter (h.environment depth) w₁ ops
    let held := min entries.length w₀.engine.traceLimit
    entries.map TraceEntry.sequence = List.range' 1 entries.length ∧
      e.trace = entries.drop (entries.length - held) ∧
      e.trace.map TraceEntry.sequence = List.range' (entries.length - held + 1) held ∧
      e.dropped = entries.length - held ∧
      e.traceLimit = w₀.engine.traceLimit := by
  intro e entries held
  have henv := hh.respects_journal depth
  have hshows : e.journal.Shows w₀.engine.traceLimit entries :=
    shows_worldAfter henv hops ((ends_enterMachine_shows henv m w₀).of_ok hload)
  have hheld : entries.length - w₀.engine.traceLimit = entries.length - held := by
    omega
  have htrace : e.trace = entries.drop (entries.length - held) := hheld ▸ hshows.trace
  refine ⟨hshows.numbered, htrace, ?_, hheld ▸ hshows.dropped, hshows.limit_eq⟩
  rw [htrace, List.map_drop, hshows.numbered, List.drop_range']
  congr 1 <;> omega

/-! ## A beacon -/

namespace Beacon

/-- A beacon that flashes when it is lit. -/
def machine : Definition where
  name := "beacon"
  initial := "dark"
  states := [⟨"dark", none, [], [], none⟩, ⟨"lit", none, ["flash"], [], none⟩]
  choices := []
  transitions := [⟨"dark", "lit", some "on", none, [], none⟩,
    ⟨"lit", "dark", some "off", none, [], none⟩]
  timers := []
  states_nodup := by decide
  choices_nodup := List.nodup_nil

/-- A host that asks for darkness after each flash, and whose fuse blows at the second one. -/
def host : Host Nat Unit String where
  guard _ _ _ flashes := (none, flashes)
  act _ flashes :=
    .call (flashes + 1) (.post "off" none) fun flashes _ =>
      if flashes = 2 then .fail (.host "fuse") flashes else .done flashes

/-- The beacon as it is loaded into an engine that keeps two entries. -/
def dark : World Nat Unit :=
  ⟨⟨some machine, .ready, some "dark", [], [], 0, 0, [], 2, 0, 0, Nat.two_pos⟩, 0⟩

/-- The beacon is lit, is to be lit again while it is, and its fuse blows in the middle of the
second run. -/
def night : List (Operation Unit) :=
  [.step, .post "on" none, .post "on" none, .run 2, .post "on" none, .run 9, .tick none, .step]

theorem host_only_posts : host.Only Call.IsPostOrTick := by
  intro a flashes
  refine ⟨trivial, fun flashes _ => ?_⟩
  dsimp only
  split <;> trivial

/-- Of the night's four entries the beacon still has two. -/
theorem night_retained :
    (entriesAfter (host.environment 0) dark night).map TraceEntry.sequence = [1, 2, 3, 4] ∧
      (worldAfter (host.environment 0) dark night).engine.trace.map TraceEntry.sequence =
        [3, 4] ∧
      (worldAfter (host.environment 0) dark night).engine.dropped = 2 := by
  have hlength : (entriesAfter (host.environment 0) dark night).length = 4 := by cbv
  obtain ⟨hnumbered, -, htrace, hdropped, -⟩ := latest_entries_retained host_only_posts 0 machine
    (by cbv : Engine.load (host.environment 0) (.definition machine)
      ⟨Engine.fresh 2 Nat.two_pos, 0⟩ = .ok [] dark)
    (by simp [night, Operation.IsLoad] : ∀ op ∈ night, ¬ op.IsLoad)
  rw [hlength] at hnumbered htrace hdropped
  exact ⟨hnumbered, htrace, hdropped⟩

end Beacon

end Statechart
