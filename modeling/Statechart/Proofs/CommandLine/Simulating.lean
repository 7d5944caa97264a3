import Mathlib
import Statechart.CommandLine.Outcome
import Statechart.Proofs.Engine.Quiet

/-!
# What comes of a simulation

A simulation of an accepted machine can fail in one way only: an item is no time, a time is
negative, or the clock has become too large to be shown. The first such item decides the error, and
without one the simulation ends in a state of the machine (`simulate_ends`). The engine itself does
not fail, as nothing is done on actions; for the same reason the events that wait after an item are
all that will be processed, and none is left (`plays_runWaiting`).

This holds of settings that the program accepts. Those that it does not it finds out too late: a
blank guard, a blank trace limit and one out of range bring the program down (`Refused`).
-/

namespace Statechart

variable {σ π ε α : Type}

namespace CommandLine

open Text (readInt showInt)

/-! ## How parts of a simulation end -/

/-- From the given session the part of the simulation gives a result and leaves a session as `ok`
says, or fails as `broken` says. -/
def Plays (play : Play α) (s : Session) (ok : α → Session → Prop)
    (broken : SimulationError → Prop) : Prop :=
  match play s with
  | .ok a s' => ok a s'
  | .error e _ => broken e

section Plays

variable {β : Type} {s : Session} {ok ok' : α → Session → Prop}
  {broken broken' : SimulationError → Prop}

theorem Plays.mono {play : Play α} (h : Plays play s ok broken) (hok : ∀ a s, ok a s → ok' a s)
    (hbroken : ∀ e, broken e → broken' e) : Plays play s ok' broken' := by
  unfold Plays at h ⊢
  split
  · rename_i hr
    exact hok _ _ (by simpa [hr] using h)
  · rename_i hr
    exact hbroken _ (by simpa [hr] using h)

@[simp] theorem plays_get {ok : Session → Session → Prop} :
    Plays get s ok broken ↔ ok s s := Iff.rfl

@[simp] theorem plays_tell (line : String) {ok : Unit → Session → Prop} :
    Plays (Play.tell line) s ok broken ↔ ok () { s with told := s.told ++ [line] } := Iff.rfl

@[simp] theorem plays_bind {play : Play α} {next : α → Play β} {ok : β → Session → Prop} :
    Plays (play >>= next) s ok broken ↔
      Plays play s (fun a s => Plays (next a) s ok broken) broken := by
  simp only [Plays, bind, EStateM.bind]
  cases play s <;> rfl

@[simp] theorem plays_operate {run : Run Unit Empty Empty α} :
    Plays (Play.operate run) s ok broken ↔
      Ends run s.world (fun a w => ok a { s with world := w }) fun f _ => broken (.fault f) := by
  simp only [Plays, Play.operate, Ends]
  cases run s.world <;> rfl

/-- Lines that are told change nothing of the engine. -/
theorem plays_forM_tell {β : Type} (line : β → String) (xs : List β)
    {ok : Unit → Session → Prop} (h : ∀ told, ok () { s with told := told }) :
    Plays (xs.forM fun x => Play.tell (line x)) s ok broken := by
  induction xs generalizing s with
  | nil => exact h s.told
  | cons x xs ih =>
    show Plays (Play.tell (line x) >>= fun _ => xs.forM fun x => Play.tell (line x)) s ok broken
    exact plays_bind.2 ((plays_tell _).2 (ih h))

end Plays

/-! ## Items -/

/-- The clock after an item, or the error if the item is refused. -/
def clockAfter (clock : Int) (item : String) : Except SimulationError Int :=
  match item.toList with
  | '@' :: time =>
    match readInt (String.ofList time) with
    | .error e => .error (.numeral e)
    | .ok elapsed =>
      if elapsed < 0 then .error (.fault (.negativeElapsed elapsed))
      else
        match showInt (clock + elapsed) with
        | .error e => .error (.numeral e)
        | .ok _ => .ok (clock + elapsed)
  | _ => .ok clock

/-- Between items, the machine is at rest, no event waits, and it is the given time. -/
structure Session.Rests (m : Definition) (clock : Int) (s : Session) : Prop where
  atRest : s.world.engine.AtRest m
  queue : s.world.engine.queue = []
  clock_eq : s.world.engine.clock = clock

section Items

variable {m : Definition} (hm : m.declaration.WellFormed) (guards : List (String × Bool))
  {clock : Int} {s : Session}
include hm

/-- The events that wait are all processed, and no more come. -/
theorem plays_runWaiting (hs : s.world.engine.AtRest m) (hclock : s.world.engine.clock = clock) :
    Plays (runWaiting (fixedGuards guards)) s (fun _ s => s.Rests m clock) fun _ => False := by
  simp only [runWaiting, plays_bind, plays_get, plays_operate]
  -- as many steps are taken as events wait at first, which is enough since no step adds one
  refine Engine.ends_runUntilIdle_of_loaded hs.fits.machine
    ((Engine.ends_steps_quiet hm (Engine.quiet_ofGuard _ 0) hs).mono (fun entries w hw => ?_)
      fun _ _ hb => hb)
  exact plays_forM_tell entryLine entries fun _ => ⟨hw.1, hw.2.1, hw.2.2.trans hclock⟩

omit hm in
theorem plays_passTime (time : List Char) (hs : s.Rests m clock) :
    Plays (passTime (String.ofList time)) s
      (fun _ s => s.world.engine.AtRest m ∧
        clockAfter clock (String.ofList ('@' :: time)) = .ok s.world.engine.clock)
      fun e => clockAfter clock (String.ofList ('@' :: time)) = .error e := by
  simp only [passTime, clockAfter, String.toList_ofList]
  cases readInt (String.ofList time) with
  | error e => exact rfl
  | ok elapsed =>
    simp only [plays_bind, plays_operate]
    refine Engine.ends_tick_of_loaded hs.atRest.fits.machine (fun hback => ?_) fun helapsed => ?_
    · have hneg : elapsed < 0 := hback
      rw [if_pos hneg]
      rfl
    · have hpos : ¬ elapsed < 0 := Int.not_lt.2 helapsed
      have hlater : (s.world.engine.pass elapsed).1.clock = clock + elapsed := by
        rw [← hs.clock_eq]
        rfl
      simp only [plays_get, Option.getD_some, hlater, if_neg hpos]
      cases showInt (clock + elapsed) with
      | error e => exact rfl
      | ok shown =>
        refine ⟨⟨⟨hs.atRest.fits.machine, ?_⟩, hs.atRest.current⟩, ?_⟩
        · exact (expiry_expire _ hs.atRest.fits.timers).2
        · exact congrArg Except.ok hlater.symm

/-- An item ends at rest at the time that the item makes it, or fails where it has none. -/
theorem plays_playItem (item : String) (hs : s.Rests m clock) :
    Plays (playItem (fixedGuards guards) item) s
      (fun _ s => ∃ later, clockAfter clock item = .ok later ∧ s.Rests m later)
      fun e => clockAfter clock item = .error e := by
  unfold playItem
  split
  · rename_i time htime
    obtain rfl : item = String.ofList ('@' :: time) := by rw [← htime, String.ofList_toList]
    refine plays_bind.2 ((plays_passTime time hs).mono (fun _ s hs => ?_) fun _ he => he)
    exact (plays_runWaiting hm guards hs.1 rfl).mono (fun _ _ hr => ⟨_, hs.2, hr⟩)
      fun _ hb => hb.elim
  · rename_i hevent
    have hclock : clockAfter clock item = .ok clock := by
      unfold clockAfter
      split
      · rename_i time htime
        exact absurd htime (hevent time)
      · rfl
    refine plays_bind.2 (plays_operate.2
      (Engine.ends_postEvent_of_loaded hs.atRest.fits.machine ?_))
    have hposted : Engine.AtRest m (s.world.engine.post ⟨item, none, none⟩) :=
      hs.atRest.of_subset rfl rfl (List.Subset.refl _)
    exact (plays_runWaiting hm guards (s := ⟨⟨_, s.world.host⟩, s.told⟩) hposted hs.clock_eq).mono
      (fun _ _ hr => ⟨clock, hclock, hr⟩) fun _ hb => hb.elim

theorem plays_items (items : List String) (hs : s.Rests m clock) :
    Plays (items.forM (playItem (fixedGuards guards))) s
      (fun _ s => ∃ later, items.foldlM clockAfter clock = .ok later ∧ s.Rests m later)
      fun e => items.foldlM clockAfter clock = .error e := by
  induction items generalizing clock s with
  | nil => exact ⟨clock, rfl, hs⟩
  | cons item items ih =>
    have hitem := plays_playItem hm guards item hs
    rw [List.foldlM_cons]
    refine plays_bind.2 (hitem.mono (fun _ s hs => ?_) fun e he => ?_)
    · obtain ⟨later, hlater, hs⟩ := hs
      rw [hlater]
      exact ih hs
    · rw [he]
      rfl

/-- A simulation tells at the end in which state of the machine it has ended, or it fails at the
first item that is refused. -/
theorem plays_play (items : List String) (s : Session) :
    Plays (play (fixedGuards guards) m items) s
      (fun _ s => (∃ later, items.foldlM clockAfter 0 = .ok later ∧ s.Rests m later) ∧
        ∃ told state, s.told = told ++ ["final state: " ++ state] ∧
          state ∈ m.declaration.stateIds ∧ s.world.engine.current = some state)
      fun e => items.foldlM clockAfter 0 = .error e := by
  simp only [play, plays_bind, plays_operate, plays_get, plays_tell]
  refine (Engine.ends_enterMachine_quiet hm (Engine.quiet_ofGuard _ 0) s.world).mono
    (fun actions w hw => ?_) fun _ _ hb => hb.elim
  refine (plays_items hm guards items ⟨hw.1, hw.2.1, hw.2.2⟩).mono (fun _ s hs => ?_)
    fun _ he => he
  obtain ⟨later, hlater, hs⟩ := hs
  obtain ⟨state, hmem, hcurrent⟩ := hs.atRest.current
  refine ⟨⟨later, hlater, hs.atRest, hs.queue, hs.clock_eq⟩, s.told, state, ?_, hmem, hcurrent⟩
  simp [hcurrent, stateName]

end Items

/-! ## Settings -/

/-- The settings that bring the program down, with the reason. -/
inductive Refused (guards : List (Setting (String × Bool))) (limit : Option (Setting Int)) :
    Breakdown → Prop
  | blankGuard (hguards : .blank ∈ guards) : Refused guards limit .blankGuard
  | blankTraceLimit (hguards : .blank ∉ guards) (hlimit : limit = some .blank) :
    Refused guards limit .blankTraceLimit
  | notPositive (hguards : .blank ∉ guards) {n : Int} (hlimit : limit = some (.value n))
    (hn : n ≤ 0) : Refused guards limit (.traceLimit (.notPositive n))
  | tooLarge (hguards : .blank ∉ guards) {n : Int} (hlimit : limit = some (.value n))
    (hn : Engine.maxTraceLimit < n) : Refused guards limit (.traceLimit .tooLarge)

theorem mapM_value?_eq_none_iff {β : Type} (settings : List (Setting β)) :
    settings.mapM Setting.value? = none ↔ .blank ∈ settings := by
  induction settings with
  | nil => simp
  | cons x xs ih =>
    cases x with
    | blank => simp [Setting.value?]
    | value b =>
      rw [List.mapM_cons]
      cases hxs : xs.mapM Setting.value? with
      | none => simp [Setting.value?, ih.1 hxs]
      | some bs =>
        have hnot : .blank ∉ xs := fun hmem => by simp [ih.2 hmem] at hxs
        simp [Setting.value?, hnot]

section Settings

variable {guards : List (Setting (String × Bool))} {limit : Option (Setting Int)}

theorem guardsOfSettings_of_mem (h : .blank ∈ guards) :
    guardsOfSettings guards = .error .blankGuard := by
  rw [guardsOfSettings, (mapM_value?_eq_none_iff guards).2 h]

theorem exists_guardsOfSettings (h : .blank ∉ guards) :
    ∃ gs, guardsOfSettings guards = .ok gs := by
  cases hgs : guards.mapM Setting.value? with
  | none => exact absurd ((mapM_value?_eq_none_iff guards).1 hgs) h
  | some gs => exact ⟨gs, by rw [guardsOfSettings, hgs]⟩

/-- Settings that are refused bring the program down, with the reason. -/
theorem Refused.simulateOutcome_eq {b : Breakdown} (h : Refused guards limit b) (m : Definition)
    (items : List String) : simulateOutcome m items guards limit = .breakdown b := by
  cases h with
  | blankGuard hguards => rw [simulateOutcome, guardsOfSettings_of_mem hguards]
  | blankTraceLimit hguards hlimit =>
    obtain ⟨gs, hgs⟩ := exists_guardsOfSettings hguards
    simp only [simulateOutcome, hgs, hlimit, engineOfSetting]
  | notPositive hguards hlimit hn =>
    obtain ⟨gs, hgs⟩ := exists_guardsOfSettings hguards
    simp only [simulateOutcome, hgs, hlimit, engineOfSetting, Engine.create,
      dif_neg (Int.not_lt.2 hn), Except.mapError]
  | @tooLarge hguards n hlimit hn =>
    obtain ⟨gs, hgs⟩ := exists_guardsOfSettings hguards
    have hpos : 0 < n := Int.lt_trans (by decide) hn
    simp only [simulateOutcome, hgs, hlimit, engineOfSetting, Engine.create, dif_pos hpos,
      if_neg (Int.not_le.2 hn), Except.mapError]

/-- There is one reason only. -/
theorem Refused.unique {b b' : Breakdown} (h : Refused guards limit b)
    (h' : Refused guards limit b') : b = b' := by
  have hmax : 0 < Engine.maxTraceLimit := by decide
  cases h <;> cases h' <;> simp_all
  all_goals omega

/-- Other settings give guards and an engine. -/
theorem exists_engine_of_not_refused (h : ∀ b, ¬ Refused guards limit b) :
    ∃ gs engine, guardsOfSettings guards = .ok gs ∧ engineOfSetting limit = .ok engine := by
  have hguards : .blank ∉ guards := fun hmem => h _ (.blankGuard hmem)
  obtain ⟨gs, hgs⟩ := exists_guardsOfSettings hguards
  have hcreate : ∀ n : Int, 0 < n → n ≤ Engine.maxTraceLimit → ∃ engine : Engine Empty,
      (Engine.create n).mapError Breakdown.traceLimit = .ok engine := fun n hpos hle => by
    rw [Engine.create, dif_pos hpos, if_pos hle]
    exact ⟨_, rfl⟩
  match limit with
  | none =>
    obtain ⟨engine, hengine⟩ := hcreate Engine.defaultTraceLimit (by decide) (by decide)
    exact ⟨gs, engine, hgs, hengine⟩
  | some .blank => exact absurd (.blankTraceLimit hguards rfl) (h _)
  | some (.value n) =>
    have hpos : 0 < n := Int.not_le.1 fun hn => h _ (.notPositive hguards rfl hn)
    have hle : n ≤ Engine.maxTraceLimit := Int.not_lt.1 fun hn => h _ (.tooLarge hguards rfl hn)
    obtain ⟨engine, hengine⟩ := hcreate n hpos hle
    exact ⟨gs, engine, hgs, hengine⟩

end Settings

/-! ## Outcomes -/

/-- The outcome of a run: it is successful and tells the state of the machine in the end, or its
error is that of the first item that is refused. -/
theorem runOutcome_ends {m : Definition} (hm : m.declaration.WellFormed) (engine : Engine Empty)
    (guards : List (String × Bool)) (items : List String) :
    match items.foldlM clockAfter 0 with
    | .ok clock => ∃ s lines state,
      play (fixedGuards guards) m items ⟨⟨engine, ()⟩, []⟩ = .ok () s ∧ s.Rests m clock ∧
      state ∈ m.declaration.stateIds ∧ s.world.engine.current = some state ∧
      runOutcome engine m guards items = .success (lines ++ ("final state: " ++ state ++ "\n"))
    | .error e => ∃ out, runOutcome engine m guards items =
      { Outcome.failure ("Error during simulation: " ++ e.message ++ "\n") with out } := by
  have hplay := plays_play hm guards items ⟨⟨engine, ()⟩, []⟩
  unfold Plays at hplay
  split at hplay
  · rename_i s hs
    obtain ⟨⟨clock, hclock, hrests⟩, told, state, htold, hstate, hcurrent⟩ := hplay
    rw [hclock]
    refine ⟨s, String.join (told.map (· ++ "\n")), state, hs, hrests, hstate, hcurrent, ?_⟩
    simp [runOutcome, simulation, hs, htold]
  · rename_i e s hs
    rw [hplay]
    exact ⟨String.join (s.told.map (· ++ "\n")), by simp only [runOutcome, simulation, hs]⟩

section Inspection

variable {names : Text.CharacterNames} {files : FileTree} {err : String} {m : Definition}
  {warnings : Nat}

theorem Invocation.outcome_of_inspect {i : Invocation}
    (h : inspect names files i.file = .ok (err, some (m, warnings))) :
    i.outcome names files = (i.perform files m warnings).after err := by
  unfold Invocation.outcome
  rw [h]

/-- A machine that a file holds without errors has come from a check. -/
theorem accepted_of_inspect {file : String}
    (h : inspect names files file = .ok (err, some (m, warnings))) : m.Accepted := by
  unfold inspect at h
  dsimp only at h
  split at h
  · cases h
  · simp at h
  · cases h
  · rename_i bytes _
    cases hbytes : (Text.ofBytes bytes).mapError Breakdown.bytes with
    | error b => simp [hbytes, bind, Except.bind] at h
    | ok text =>
      simp only [hbytes, bind, Except.bind] at h
      split at h
      · simp at h
      · simp at h
      · rename_i d _
        cases hreport : Validation.validate d with
        | error e => simp [hreport, Except.mapError] at h
        | ok r =>
          simp only [hreport, Except.mapError, Except.ok.injEq, Prod.mk.injEq,
            Option.map_eq_some_iff] at h
          obtain ⟨-, m', hm', rfl, -⟩ := h
          exact ⟨d, ((Validation.validate_reports d).2.2 r hreport).1.symm.trans hm'⟩

end Inspection

/-- A simulation by the settings takes up all items and ends in the session. -/
def Completes (m : Definition) (items : List String) (guards : List (Setting (String × Bool)))
    (limit : Option (Setting Int)) (s : Session) : Prop :=
  ∃ gs engine, guardsOfSettings guards = .ok gs ∧ engineOfSetting limit = .ok engine ∧
    play (fixedGuards gs) m items ⟨⟨engine, ()⟩, []⟩ = .ok () s

/-- **What comes of a simulation**: of arguments that ask for the simulation of a machine that is
found in its file without errors, either the settings are refused, and the program breaks down with
the reason; or no item is refused, and the exit code is 0, all items and the events that come of
them have been processed, and the last line of the output tells the state of the machine; or the
first item that is refused is told on the error stream, and the exit code is 1. -/
theorem simulate_ends {names : Text.CharacterNames} {files : FileTree} {arguments : List String}
    {file : String} {items : List String} {guards : List (Setting (String × Bool))}
    {limit : Option (Setting Int)}
    (hread : Invocation.read arguments = .ok (.simulate file items guards limit)) {err : String}
    {m : Definition} {warnings : Nat}
    (hfile : inspect names files file = .ok (err, some (m, warnings))) :
    let o := outcome names files arguments
    o.written = [] ∧ (∀ b, o.ending = .error b ↔ Refused guards limit b) ∧
      ((∀ b, ¬ Refused guards limit b) →
        match items.foldlM clockAfter 0 with
        | .ok clock => o.ending = .ok 0 ∧ o.err = err ∧
          ∃ s, Completes m items guards limit s ∧ s.Rests m clock ∧
            ∃ lines state, o.out = lines ++ ("final state: " ++ state ++ "\n") ∧
              state ∈ m.declaration.stateIds ∧ s.world.engine.current = some state
        | .error e => o.ending = .ok 1 ∧
          o.err = err ++ ("Error during simulation: " ++ e.message ++ "\n")) := by
  intro o
  have ho : o = (simulateOutcome m items guards limit).after err := by
    simp only [o, outcome, hread]
    exact Invocation.outcome_of_inspect hfile
  -- the settings are looked at first, so that items matter only if none of them is refused
  by_cases hrefused : ∃ b, Refused guards limit b
  · obtain ⟨b, hb⟩ := hrefused
    rw [ho, hb.simulateOutcome_eq]
    refine ⟨rfl, fun b' => ⟨fun hb' => ?_, fun hb' => ?_⟩, fun hnot => absurd hb (hnot b)⟩
    · obtain rfl : b = b' := Except.error.inj hb'
      exact hb
    · exact congrArg Except.error (hb.unique hb')
  · have hnot : ∀ b, ¬ Refused guards limit b := fun b hb => hrefused ⟨b, hb⟩
    obtain ⟨gs, engine, hgs, hengine⟩ := exists_engine_of_not_refused hnot
    have hrun : simulateOutcome m items guards limit = runOutcome engine m gs items := by
      simp only [simulateOutcome, hgs, hengine]
    have hended : ∀ code b, Except.ok code = (Except.error b : Except Breakdown Nat) ↔
        Refused guards limit b := fun code b => by simp [hnot b]
    have hends := runOutcome_ends (accepted_of_inspect hfile).wellFormed engine gs items
    rw [ho, hrun]
    cases hclock : items.foldlM clockAfter 0 with
    | ok clock =>
      rw [hclock] at hends
      obtain ⟨s, lines, state, hs, hrests, hstate, hcurrent, hsuccess⟩ := hends
      rw [hsuccess]
      exact ⟨rfl, hended 0, fun _ => ⟨rfl, String.append_empty, s, ⟨gs, engine, hgs, hengine, hs⟩,
        hrests, lines, state, rfl, hstate, hcurrent⟩⟩
    | error e =>
      rw [hclock] at hends
      obtain ⟨out, hfailure⟩ := hends
      rw [hfailure]
      exact ⟨rfl, hended 1, fun _ => ⟨rfl, rfl⟩⟩

/-! A kiosk that opens for a coin. -/

namespace Kiosk

def text : String :=
  "fsm kiosk \x7b [*] --> shut state shut state open shut --> open : coin \x7d"

/-- The kiosk as it is read. -/
def declaration : Declaration where
  name := "kiosk"
  initial := [⟨"shut", some ⟨1, 13⟩⟩]
  states := [⟨"shut", none, [], [], some ⟨1, 32⟩⟩, ⟨"open", none, [], [], some ⟨1, 43⟩⟩]
  choices := []
  transitions := [⟨"shut", "open", some "coin", none, [], some ⟨1, 48⟩⟩]
  timers := []
  span := some ⟨1, 5⟩

def machine : Definition where
  name := "kiosk"
  initial := "shut"
  states := declaration.states
  choices := []
  transitions := declaration.transitions
  timers := []
  states_nodup := by decide
  choices_nodup := by decide

/-- The kiosk is in the only file there is. -/
def files : FileTree := ⟨.folder [("kiosk.fsm", .file text.toUTF8.toList)], []⟩

theorem find_kiosk : files.find (Path.ofText "kiosk.fsm") = .ok (.file text.toUTF8.toList) := by
  have hpath : Path.ofText "kiosk.fsm" = ⟨"", ["kiosk.fsm"]⟩ := by cbv
  have htext : (⟨"", ["kiosk.fsm"]⟩ : Path).text = "kiosk.fsm" := by cbv
  have hlocate : files.locate ⟨"", ["kiosk.fsm"]⟩ = .ok ["kiosk.fsm"] := by
    rw [FileTree.locate, htext, if_neg (by decide), if_neg (by decide)]
    rfl
  rw [FileTree.find, hpath, hlocate]
  rfl

theorem ofBytes_text : Text.ofBytes text.toUTF8.toList = .ok text := by cbv

/-- A reader of literals that knows no names of characters. -/
def nameless : Text.CharacterNames := fun _ => none

theorem read_text : Declaration.read nameless text = .ok declaration := by cbv

theorem inspect_kiosk : inspect nameless files "kiosk.fsm" = .ok ("", some (machine, 0)) := by
  unfold inspect
  simp only [find_kiosk, ofBytes_text, read_text, Except.mapError, bind, Except.bind]
  cbv

/-- The time of a coin and three units more. -/
theorem clockAfter_items : ["coin", "@3"].foldlM clockAfter 0 = .ok 3 := by
  have hread : Text.readInt (String.ofList ['3']) = .ok 3 := by cbv
  have hshort : ¬ tenPower Text.digitLimit ≤ 3 := by
    have hpower : tenPower Text.digitLimit = tenPower 1 * tenPower 4299 :=
      tenPower_add 1 4299
    have hpos := tenPower_pos 4299
    rw [hpower, tenPower_succ, tenPower_zero]
    omega
  have hshow : showInt 3 = .ok (toString (3 : Int)) := if_neg hshort
  have hcoin : clockAfter 0 "coin" = .ok 0 := by cbv
  have htime : clockAfter 0 "@3" = .ok 3 := by
    have hlist : "@3".toList = ['@', '3'] := by decide
    simp [clockAfter, hlist, hread, hshow]
  simp only [List.foldlM_cons, List.foldlM_nil, hcoin, htime, bind, Except.bind, pure, Except.pure]

/-- A coin and three units of time later, the kiosk is in one of its states and the time is 3. -/
theorem coin_in_kiosk :
    let o := outcome nameless files ["simulate", "kiosk.fsm", "coin", "@3"]
    o.ending = .ok 0 ∧ o.written = [] ∧
      ∃ s, Completes machine ["coin", "@3"] [] none s ∧ s.Rests machine 3 ∧
        ∃ lines state, o.out = lines ++ ("final state: " ++ state ++ "\n") ∧
          state ∈ machine.declaration.stateIds ∧ s.world.engine.current = some state := by
  have hnot : ∀ b, ¬ Refused [] none b := fun b hb => by cases hb <;> contradiction
  obtain ⟨hwritten, -, hplayed⟩ := simulate_ends
    (by cbv : Invocation.read ["simulate", "kiosk.fsm", "coin", "@3"] =
      .ok (.simulate "kiosk.fsm" ["coin", "@3"] [] none)) inspect_kiosk
  rw [clockAfter_items] at hplayed
  obtain ⟨hending, -, hs⟩ := hplayed hnot
  exact ⟨hending, hwritten, hs⟩

/-- A trace limit of zero, which the arguments may ask for, brings the program down. -/
theorem kiosk_without_trace :
    Invocation.read ["simulate", "--trace-limit", "0", "kiosk.fsm"] =
        .ok (.simulate "kiosk.fsm" [] [] (some (.value 0))) ∧
      inspect nameless files "kiosk.fsm" = .ok ("", some (machine, 0)) ∧
      (outcome nameless files ["simulate", "--trace-limit", "0", "kiosk.fsm"]).ending =
        .error (.traceLimit (.notPositive 0)) := by
  have hread : Invocation.read ["simulate", "--trace-limit", "0", "kiosk.fsm"] =
      .ok (.simulate "kiosk.fsm" [] [] (some (.value 0))) := by decide +kernel
  refine ⟨hread, inspect_kiosk, ?_⟩
  simp only [outcome, hread]
  rw [Invocation.outcome_of_inspect (i := .simulate "kiosk.fsm" [] [] (some (.value 0)))
    inspect_kiosk]
  rfl

end Kiosk

end CommandLine

end Statechart
