import Mathlib
import Statechart.Proofs.Codegen.TableText
import Statechart.Proofs.Engine.Completion

/-!
# The tables lead where the engine goes

A generated module runs its machine from tables, the engine from the definition. Both try arrows
in the order of their declaration until one has no guard or a guard that holds, but in lists that
are laid out differently. Two laws of `firstEnabled` compare them: it does not matter whether
rows or the arrows they stand for are tried (`firstEnabled_map`), and a last arrow without guard
is what is taken where no other can be (`firstEnabled_concat`).

As a guard may keep account of all it is asked, an equal state of the host afterwards says that
it was asked the same in the same order.

The tables themselves are read from the text of the module: each of them is assigned there for good,
and what is assigned is read as a dictionary of its rows (`ShowsTables`).

Main statement: `tables_dispatch_as_engine`.
-/

namespace Statechart

variable {σ π ε α β : Type}

/-! ## Choosing an arrow -/

section Choosing

variable (guard : Guard σ π) (event : Option String) (payload : Option π)

theorem firstEnabled_map (condition : β → Option String) (f : α → β) (as : List α) (s : σ) :
    firstEnabled guard condition event payload (as.map f) s =
      ((firstEnabled guard (condition ∘ f) event payload as s).1.map f,
        (firstEnabled guard (condition ∘ f) event payload as s).2) := by
  induction as generalizing s with
  | nil => rfl
  | cons a as ih =>
    simp only [List.map_cons, firstEnabled, Function.comp_apply]
    cases condition (f a) with
    | none => rfl
    | some g =>
      dsimp only
      split
      · rfl
      · exact ih _

theorem firstEnabled_concat (condition : α → Option String) (as : List α) {last : α}
    (hlast : condition last = none) (s : σ) :
    firstEnabled guard condition event payload (as ++ [last]) s =
      ((firstEnabled guard condition event payload as s).1.or (some last),
        (firstEnabled guard condition event payload as s).2) := by
  induction as generalizing s with
  | nil => simp [firstEnabled, hlast]
  | cons a as ih =>
    simp only [List.cons_append, firstEnabled]
    cases condition a with
    | none => rfl
    | some g =>
      dsimp only
      split
      · rfl
      · exact ih _

end Choosing

namespace Codegen

/-! ## Lookups -/

/-- The row of a timer: its duration, its event, and whether it is periodic. Where several have
the identifier, the last one stands. -/
def timerRow? (t : Tables) (id : String) : Option (Int × String × Bool) :=
  under? (t.timers.map fun x => (x.id, x.duration, x.event, x.periodic)) id

/-- Rows of other events are passed over. -/
theorem chooseEvented_eq_firstEnabled (guard : Guard σ π) (event : String) (payload : Option π)
    (rs : List EventRow) (s : σ) :
    chooseEvented guard event payload rs s =
      firstEnabled guard Row.condition (some event) payload
        ((rs.filter (·.event == event)).map (·.row)) s := by
  induction rs generalizing s with
  | nil => rfl
  | cons r rs ih =>
    by_cases hr : r.event = event
    · simp only [chooseEvented, hr, if_true, List.filter_cons, beq_self_eq_true, List.map_cons,
        firstEnabled]
      cases r.row.condition with
      | none => rfl
      | some g =>
        dsimp only
        split
        · rfl
        · exact ih _
    · simp only [chooseEvented, hr, if_false, List.filter_cons, beq_iff_eq, ih]

theorem lookup_map_of_notMem (f : String → β) {k : String} {ks : List String} (h : k ∉ ks) :
    (ks.map fun x => (x, f x)).lookup k = none := by
  rw [List.lookup_eq_none_iff]
  intro p hp
  obtain ⟨x, hx, rfl⟩ := List.mem_map.1 hp
  simp only [bne_iff_ne, ne_eq]
  rintro rfl
  exact h hx

/-- Under a key stand the rows of this key, in the order of the list. -/
theorem rows_groupBy (xs : List (String × α)) (k : String) :
    rows (groupBy xs) k = (xs.filter (·.1 == k)).map (·.2) := by
  rw [rows, under?, groupBy, ← List.map_reverse]
  by_cases hk : k ∈ xs.map (·.1)
  · have hmem : k ∈ (xs.map (·.1)).eraseDups.reverse :=
      List.mem_reverse.2 (List.mem_eraseDups.2 hk)
    rw [List.lookup_graph (fun k => (xs.filter (·.1 == k)).map (·.2)) hmem, Option.getD_some]
  · have hnotMem : k ∉ (xs.map (·.1)).eraseDups.reverse := by
      rwa [List.mem_reverse, List.mem_eraseDups]
    rw [lookup_map_of_notMem _ hnotMem, Option.getD_none]
    have hnone : xs.filter (·.1 == k) = [] := by
      refine List.filter_eq_nil_iff.2 fun x hx => ?_
      simp only [beq_iff_eq]
      rintro rfl
      exact hk (List.mem_map_of_mem hx)
    rw [hnone, List.map_nil]

theorem lookup_map_eq_find? (key : α → String) (f : α → β) (xs : List α) (k : String) :
    (xs.map fun x => (key x, f x)).lookup k = (xs.find? (key · == k)).map f := by
  induction xs with
  | nil => rfl
  | cons x xs ih =>
    by_cases hx : key x = k
    · simp [hx]
    · simpa [List.lookup_cons, beq_false_of_ne (Ne.symm hx), hx] using ih

/-- Where no two entries have the same key, it does not matter which of them stands. -/
theorem under?_map_eq_find? {key : α → String} (f : α → β) {xs : List α}
    (hxs : (xs.map key).Nodup) (k : String) :
    under? (xs.map fun x => (key x, f x)) k = (xs.find? (key · == k)).map f := by
  rw [under?, ← List.map_reverse, lookup_map_eq_find?,
    find?_eq_of_perm (List.reverse_perm xs) hxs]

/-- The value under a key, where only keys with a value have an entry. -/
theorem lookup_filterMap_of_mem (f : String → Option β) {k : String} {ks : List String}
    (hk : k ∈ ks) : (ks.filterMap fun x => (f x).map fun b => (x, b)).lookup k = f k := by
  induction ks with
  | nil => simp at hk
  | cons x ks ih =>
    by_cases hx : x = k
    · subst hx
      cases hf : f x with
      | some b => simp [hf]
      | none =>
        -- the key has no entry here, and so none further on
        simp only [List.filterMap_cons, hf, Option.map_none, List.lookup_eq_none_iff]
        intro p hp
        obtain ⟨y, -, hy⟩ := List.mem_filterMap.1 hp
        obtain ⟨b, hb, rfl⟩ := Option.map_eq_some_iff.1 hy
        simp only [bne_iff_ne, ne_eq]
        rintro rfl
        simp [hf] at hb
    · have hk' := ih ((List.mem_cons.1 hk).resolve_left (Ne.symm hx))
      cases hf : f x with
      | some b => simpa [hf, List.lookup_cons, beq_false_of_ne (Ne.symm hx)] using hk'
      | none => simpa [hf] using hk'

theorem mem_allActions (m : Definition) (a : String) :
    a ∈ allActions m ↔ m.declaration.Acts a := by
  simp only [allActions, List.mem_append, List.mem_flatMap, Declaration.Acts, or_assoc]
  rfl

/-! ## Rows and arrows -/

/-- The rows for an event under a source are those of the transitions that leave it on it. -/
theorem rows_transitions (m : Definition) (source event : String) :
    ((rows (tables m).transitions source).filter (·.event == event)).map (·.row) =
      (m.transitionsFrom source (some event)).map transitionRow := by
  rw [tables, rows_groupBy, eventRows, Definition.transitionsFrom]
  induction m.transitions with
  | nil => rfl
  | cons t ts ih =>
    cases he : t.event with
    | none => simpa [he] using ih
    | some e =>
      by_cases hs : t.source = source
      · by_cases hev : e = event
        · simpa [he, hs, hev] using ih
        · simpa [he, hs, hev] using ih
      · simpa [he, hs] using ih

/-- The rows of completion transitions under a source are those of the ones that leave it. -/
theorem rows_completions (m : Definition) (source : String) :
    rows (tables m).completions source = (m.completionsFrom source).map transitionRow := by
  rw [tables, rows_groupBy, completionRows, Definition.completionsFrom,
    Definition.transitionsFrom]
  induction m.transitions with
  | nil => rfl
  | cons t ts ih =>
    cases he : t.event with
    | none =>
      by_cases hs : t.source = source
      · simpa [he, hs, Transition.isCompletion] using ih
      · simpa [he, hs, Transition.isCompletion] using ih
    | some e => simpa [he, Transition.isCompletion] using ih

/-- The rows of a choice are those of its conditioned branches and, last, of its default. -/
theorem under?_choices {m : Definition} {id : String} {c : Choice} {b : Branch}
    (hc : m.choice? id = some c) (hb : c.default? = some b) :
    under? (tables m).choices id = some ((c.conditioned ++ [b]).map (some ∘ branchRow)) := by
  have hrows : choiceRows c = (c.conditioned ++ [b]).map (some ∘ branchRow) := by
    simp [choiceRows, hb]
  rw [tables, under?_map_eq_find? choiceRows m.choices_nodup, ← hrows]
  exact congrArg (Option.map choiceRows) hc

/-! ## Tables and engine -/

/-- A lookup comes to the same as the engine's choice among arrows: in every world it picks the
row of the arrow that the engine picks, or none where the engine picks none, and leaves the host
as the engine leaves it. -/
def SameChoice (choice : Run σ π ε (Option α)) (row : α → Row) (lookup : σ → Option Row × σ) :
    Prop :=
  ∀ w : World σ π, ∃ chosen, choice w = .ok chosen { w with host := (lookup w.host).2 } ∧
    (lookup w.host).1 = chosen.map row

/-- Lists of rows are tried as the arrows are that they stand for. -/
theorem sameChoice_map (env : Environment σ π ε) (condition : α → Option String) (row : α → Row)
    (hrow : Row.condition ∘ row = condition) (event : Option String) (payload : Option π)
    (arrows : List α) :
    SameChoice (Engine.choose env condition event payload arrows) row
      (firstEnabled env.guard Row.condition event payload (arrows.map row)) := by
  intro w
  rw [firstEnabled_map, hrow]
  exact ⟨_, rfl, rfl⟩

/-- The tables of a machine do what the engine does: for the events of a state, its completion
transitions and the branches of a choice they pick the same, asking the guard the same, and they
know the same timer commands and timers. -/
structure Dispatches (m : Definition) (env : Environment σ π ε) : Prop where
  transitions : ∀ s ∈ m.declaration.stateIds, ∀ event payload,
    SameChoice (Engine.choose env Transition.guard (some event) payload
        (m.transitionsFrom s (some event))) transitionRow
      (chooseEvented env.guard event payload (rows (tables m).transitions s))
  completions : ∀ s ∈ m.declaration.stateIds, ∀ event payload,
    SameChoice (Engine.choose env Transition.guard event payload (m.completionsFrom s))
      transitionRow (chooseRow env.guard event payload (rows (tables m).completions s))
  /-- No row of a choice is missing. -/
  choices : ∀ id c, m.choice? id = some c → ∃ branches,
    under? (tables m).choices id = some (branches.map some) ∧ ∀ event payload,
      SameChoice
        ((·.or c.default?) <$> Engine.choose env Branch.condition event payload c.conditioned)
        branchRow (chooseRow env.guard event payload branches)
  commands : ∀ a, m.declaration.Acts a →
    under? (tables m).commands a = TimerCommand.ofAction? a
  timers : ∀ a, m.declaration.Acts a → ∀ c, TimerCommand.ofAction? a = some c →
    ∃ t, m.timer? c.timer = some t ∧
      timerRow? (tables m) c.timer = some (t.duration, t.event, t.periodic)

/-- A timer that the engine finds has its row. -/
theorem timerRow?_of_timer? {m : Definition} (hnodup : m.declaration.timerIds.Nodup)
    {id : String} {t : Timer} (ht : m.timer? id = some t) :
    timerRow? (tables m) id = some (t.duration, t.event, t.periodic) := by
  have hfind := under?_map_eq_find? (fun x : Timer => (x.duration, x.event, x.periodic)) hnodup id
  exact hfind.trans (congrArg _ ht)

theorem dispatches_of_wellFormed {m : Definition} (hm : m.declaration.WellFormed)
    (env : Environment σ π ε) : Dispatches m env where
  transitions s _ event payload w := by
    have hsame := sameChoice_map env Transition.guard transitionRow rfl (some event) payload
      (m.transitionsFrom s (some event)) w
    rw [← rows_transitions] at hsame
    rw [chooseEvented_eq_firstEnabled]
    exact hsame
  completions s _ event payload := by
    rw [chooseRow, rows_completions]
    exact sameChoice_map env Transition.guard transitionRow rfl event payload _
  choices id c hc := by
    obtain ⟨b, -, hb⟩ := m.exists_default hm (List.mem_of_find?_eq_some hc)
    have hnone : b.condition = none := by simpa [Branch.isDefault] using List.find?_some hb
    refine ⟨(c.conditioned ++ [b]).map branchRow, ?_, fun event payload w => ?_⟩
    · rw [under?_choices hc hb, List.map_map]
    · rw [chooseRow, firstEnabled_map, show Row.condition ∘ branchRow = Branch.condition from rfl,
        firstEnabled_concat _ _ _ _ _ hnone, hb]
      exact ⟨_, rfl, rfl⟩
  commands a ha := by
    have hmem : a ∈ (allActions m).eraseDups.reverse :=
      List.mem_reverse.2 (List.mem_eraseDups.2 ((mem_allActions m a).2 ha))
    rw [tables, under?, ← List.filterMap_reverse]
    exact lookup_filterMap_of_mem TimerCommand.ofAction? hmem
  timers a ha c hc := by
    obtain ⟨t, ht⟩ := Option.isSome_iff_exists.1
      (m.isSome_timer?_of_mem (hm.command_mem a ha c hc))
    exact ⟨t, ht, timerRow?_of_timer? hm.timers_nodup ht⟩

/-- **The tables of a generated module lead where the engine goes**: the module of an accepted
machine gives each table its rows for good, and in every environment these do what the engine
does. -/
theorem tables_dispatch_as_engine {m : Definition} (hm : m.Accepted) (source : Option String)
    {text : String} (hgenerate : generate m source = .ok text) (env : Environment σ π ε) :
    ShowsTables m.name text (tables m) ∧ Dispatches m env :=
  ⟨showsTables_of_generate hgenerate, dispatches_of_wellFormed hm.wellFormed env⟩

end Codegen

/-! ## A turnstile -/

namespace Turnstile

/-- A turnstile whose checks stand around the branch for all else, and which locks again by
itself when it can. -/
def machine : Definition where
  name := "turnstile"
  initial := "locked"
  states := [⟨"locked", none, [], [], none⟩, ⟨"open", none, ["start_timer(t)"], [], none⟩,
    ⟨"class", none, ["refuse"], [], none⟩]
  choices := [⟨"coin", [⟨some "full", "open", [], none⟩, ⟨none, "class", [], none⟩,
    ⟨some "half", "locked", ["keep"], none⟩], none⟩]
  transitions := [⟨"locked", "coin", some "insert", none, [], none⟩,
    ⟨"open", "locked", none, some "passed", ["stop_timer(t)"], none⟩,
    ⟨"open", "class", some "insert", some "full", [], none⟩,
    ⟨"class", "locked", some "reset", none, [], none⟩,
    ⟨"open", "locked", some "late", none, [], none⟩,
    ⟨"open", "open", some "insert", none, ["keep"], none⟩]
  timers := [⟨"t", 5, "late", false, none⟩]
  states_nodup := by decide
  choices_nodup := by decide

/-- An environment whose guard counts its calls and lets every other pass. -/
def environment : Environment Nat Unit String where
  guard _ _ _ n := (if n % 2 = 1 then some true else none, n + 1)
  react _ := pure ()

theorem accepted : machine.Accepted :=
  .of_wellFormed ((Validation.errors_eq_nil_iff _).1 (by cbv))

/-- The turnstile has a module. This gives each table its rows, as it does the only row of the
timer, and the tables do what the engine does. -/
theorem module_dispatches : ∃ text, Codegen.generate machine none = .ok text ∧
    Codegen.ShowsTables "turnstile" text (Codegen.tables machine) ∧
    Codegen.Assigns "turnstile" text "TIMERS"
      (.dict [(.text "t", .tuple [.word "5", .text "late", .word "False"])]) ∧
    Codegen.Dispatches machine environment := by
  have hnames : Codegen.checkNames machine = .ok () := rfl
  obtain ⟨text, htext⟩ := Codegen.exists_yields_generate hnames none
  have hgenerate := htext.ok fun t ht => by
    obtain rfl := List.mem_singleton.1 ht
    decide +kernel
  obtain ⟨hshows, hdispatches⟩ :=
    Codegen.tables_dispatch_as_engine accepted none hgenerate environment
  exact ⟨text, hgenerate, hshows, hshows.timers, hdispatches⟩

end Turnstile

end Statechart
