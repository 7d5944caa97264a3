import Statechart.Proofs.Validation.Cycles
import Statechart.Proofs.Validation.Flaws

/-!
# Checking decides well-formedness

A declaration is well formed (`Declaration.WellFormed`) when its identifiers are distinct, its
arrows have declared ends, its choices can always be left, no arrows that are followed within one
step lead around a circle, and its timers last some time and are declared where they are named.
Each check of `Validation.errors` finds nothing exactly if one part of this holds.

Main statement: `check_decides_wellFormed`, a declaration has no errors exactly if it is well
formed, and then its definition consists of its parts, in their order; a report says the same. A
definition that has come from a check is itself well formed as a declaration
(`Definition.Accepted.wellFormed`).
-/

namespace Statechart

open Relation

/-! ## Well-formed declarations -/

namespace Declaration

/-- An arrow that is followed within one step leads from the first node to the second: a branch
of a choice, or a completion transition. -/
def Leads (d : Declaration) (a b : String) : Prop :=
  (∃ c ∈ d.choices, c.id = a ∧ ∃ br ∈ c.branches, br.target = b) ∨
    ∃ t ∈ d.transitions, t.event = none ∧ t.source = a ∧ t.target = b

/-- The action stands in a list of actions of the declaration. -/
def Acts (d : Declaration) (a : String) : Prop :=
  (∃ s ∈ d.states, a ∈ s.entry ∨ a ∈ s.exit) ∨ (∃ t ∈ d.transitions, a ∈ t.actions) ∨
    ∃ c ∈ d.choices, ∃ b ∈ c.branches, a ∈ b.actions

/-- Nothing keeps the declaration from being a definition. -/
structure WellFormed (d : Declaration) : Prop where
  states_nodup : d.stateIds.Nodup
  choices_nodup : d.choiceIds.Nodup
  timers_nodup : d.timerIds.Nodup
  /-- No identifier names a state and a choice. -/
  disjoint : ∀ id ∈ d.stateIds, id ∉ d.choiceIds
  /-- There is one initial marker, and it points at a state. -/
  initial : ∃ marker, d.initial = [marker] ∧ marker.target ∈ d.stateIds
  source_mem : ∀ t ∈ d.transitions, t.source ∈ d.nodeIds
  target_mem : ∀ t ∈ d.transitions, t.target ∈ d.nodeIds
  guard_ne : ∀ t ∈ d.transitions, t.guard ≠ some ""
  branch_mem : ∀ c ∈ d.choices, ∀ b ∈ c.branches, b.target ∈ d.nodeIds
  condition_ne : ∀ c ∈ d.choices, ∀ b ∈ c.branches, b.condition ≠ some ""
  /-- Every choice has one default branch. -/
  default_one : ∀ c ∈ d.choices, c.branches.countP (·.isDefault) = 1
  /-- Every choice has a branch with a condition. -/
  conditioned : ∀ c ∈ d.choices, ∃ b ∈ c.branches, b.condition ≠ none
  /-- No step can come back to a node it has passed. -/
  acyclic : ∀ n, ¬ TransGen d.Leads n n
  duration_pos : ∀ t ∈ d.timers, 0 < t.duration
  /-- Timer commands name declared timers. -/
  command_mem : ∀ a, d.Acts a → ∀ c ∈ TimerCommand.ofAction? a, c.timer ∈ d.timerIds

end Declaration

namespace Validation

/-! ## Identifiers -/

theorem repeated_eq_nil_iff {α : Type} (key : α → String) {seen : List String} {xs : List α} :
    repeated key seen xs = [] ↔ (xs.map key).Nodup ∧ ∀ x ∈ xs, key x ∉ seen := by
  induction xs generalizing seen with
  | nil => simp [repeated]
  | cons x xs ih =>
    by_cases hx : key x ∈ seen
    · simp [repeated, hx]
    · simp only [repeated, List.contains_eq_mem, hx, decide_false, Bool.false_eq_true, if_false, ih,
        List.map_cons, List.nodup_cons, List.mem_cons, List.mem_map, not_or, not_exists, not_and]
      constructor
      · rintro ⟨hnd, hs⟩
        refine ⟨⟨fun y hy => (hs y hy).1, hnd⟩, ?_⟩
        rintro y (rfl | hy)
        · exact hx
        · exact (hs y hy).2
      · rintro ⟨⟨hne, hnd⟩, hs⟩
        exact ⟨hnd, fun y hy => ⟨hne y hy, hs y (.inr hy)⟩⟩

theorem unrepeated_eq_nil_iff {α : Type} (key : α → String) {xs : List α} :
    unrepeated key [] xs = [] ↔ xs = [] := by
  cases xs <;> simp [unrepeated]

theorem duplicates_eq_nil_iff (d : Declaration) :
    duplicates d = [] ↔ d.stateIds.Nodup ∧ d.choiceIds.Nodup ∧ d.timerIds.Nodup ∧
      ∀ id ∈ d.stateIds, id ∉ d.choiceIds := by
  have hcollide : (d.choices.filter fun c => d.stateIds.contains c.id) = [] ↔
      ∀ id ∈ d.stateIds, id ∉ d.choiceIds := by
    simp only [List.filter_eq_nil_iff, List.contains_eq_mem, decide_eq_true_eq,
      Declaration.choiceIds, List.mem_map, not_exists, not_and]
    exact ⟨fun h id hid c hc he => h c hc (he ▸ hid), fun h c hc hid => h c.id hid c hc rfl⟩
  simp only [duplicates, List.append_eq_nil_iff, List.map_eq_nil_iff, repeated_eq_nil_iff,
    unrepeated_eq_nil_iff, hcollide, List.not_mem_nil, not_false_eq_true, implies_true, and_true,
    and_assoc]
  exact Iff.rfl

/-! ## Arrows -/

theorem initialFlaws_eq_nil_iff (d : Declaration) :
    initialFlaws d = [] ↔ ∃ marker, d.initial = [marker] ∧ marker.target ∈ d.stateIds := by
  unfold initialFlaws
  split
  · rename_i h
    simp [h]
  · rename_i marker extra h
    cases extra with
    | nil =>
      simp only [h, List.cons.injEq, and_true, exists_eq_left']
      by_cases hm : marker.target ∈ d.stateIds
      · simp [hm]
      · by_cases hc : marker.target ∈ d.choiceIds <;> simp [hm, hc]
    | cons other extra => simp [h]

theorem transitionFlaws_eq_nil_iff (d : Declaration) (t : Transition) :
    transitionFlaws d t = [] ↔
      t.source ∈ d.nodeIds ∧ t.target ∈ d.nodeIds ∧ t.guard ≠ some "" := by
  simp only [transitionFlaws, List.append_eq_nil_iff, List.contains_eq_mem, decide_eq_true_eq,
    ite_eq_left_iff, ite_eq_right_iff, List.cons_ne_nil, imp_false, not_not, and_assoc, ne_eq]

theorem branchFlaws_eq_nil_iff (d : Declaration) (c : Choice) (b : Branch) :
    branchFlaws d c b = [] ↔ b.target ∈ d.nodeIds ∧ b.condition ≠ some "" := by
  simp only [branchFlaws, List.append_eq_nil_iff, List.contains_eq_mem, decide_eq_true_eq,
    ite_eq_left_iff, ite_eq_right_iff, List.cons_ne_nil, imp_false, not_not, ne_eq]

theorem choiceFlaws_eq_nil_iff (d : Declaration) (c : Choice) :
    choiceFlaws d c = [] ↔ c.branches.countP (·.isDefault) = 1 ∧
      (∃ b ∈ c.branches, b.condition ≠ none) ∧
      ∀ b ∈ c.branches, b.target ∈ d.nodeIds ∧ b.condition ≠ some "" := by
  rw [choiceFlaws, List.append_eq_nil_iff, List.append_eq_nil_iff, List.flatMap_eq_nil_iff,
    and_assoc]
  refine and_congr ?_ (and_congr ?_ ?_)
  · rw [List.countP_eq_length_filter]
    split
    · rename_i h
      simp [h]
    · rename_i b extra h
      simp [h]
  · simp [Choice.conditioned, Branch.isDefault, List.filter_eq_nil_iff]
  · exact forall₂_congr fun b _ => branchFlaws_eq_nil_iff d c b

theorem cycleFlaws_eq_nil_iff (d : Declaration) :
    cycleFlaws d = [] ↔ d.transientArrows.Acyclic := by
  rw [cycleFlaws, List.map_eq_nil_iff, cycles_eq_nil_iff]

theorem leads_transientArrows {d : Declaration} {a b : String} :
    d.transientArrows.Leads a b ↔ d.Leads a b ∧ a ∈ d.nodeIds ∧ b ∈ d.nodeIds := by
  simp only [Arrows.Leads, Declaration.transientArrows, List.mem_append, List.mem_flatMap,
    List.mem_map, List.mem_filter, List.contains_eq_mem, decide_eq_true_eq, Prod.mk.injEq,
    Bool.and_eq_true, Transition.isCompletion, Option.isNone_iff_eq_none]
  constructor
  · rintro (⟨c, hc, br, ⟨hbr, hmem⟩, rfl, rfl⟩ | ⟨t, ⟨ht, ⟨hev, hs⟩, htg⟩, rfl, rfl⟩)
    · have hid : c.id ∈ d.nodeIds := List.mem_append_right _ (List.mem_map.2 ⟨c, hc, rfl⟩)
      exact ⟨.inl ⟨c, hc, rfl, br, hbr, rfl⟩, hid, hmem⟩
    · exact ⟨.inr ⟨t, ht, hev, rfl, rfl⟩, hs, htg⟩
  · rintro ⟨⟨c, hc, rfl, br, hbr, rfl⟩ | ⟨t, ht, hev, rfl, rfl⟩, ha, hb⟩
    · exact .inl ⟨c, hc, br, ⟨hbr, hb⟩, rfl, rfl⟩
    · exact .inr ⟨t, ⟨ht, ⟨hev, ha⟩, hb⟩, rfl, rfl⟩

/-! ## Timers -/

theorem durationFlaws_eq_nil_iff (d : Declaration) :
    durationFlaws d = [] ↔ ∀ t ∈ d.timers, 0 < t.duration := by
  simp [durationFlaws, List.filter_eq_nil_iff]

/-- The lists of actions that are checked hold the actions of the declaration. -/
theorem exists_mem_actionSites (d : Declaration) (a : String) :
    (∃ site ∈ actionSites d, a ∈ site.2.2) ↔ d.Acts a := by
  simp only [actionSites, List.mem_append, List.mem_map, List.mem_flatMap, Declaration.Acts]
  constructor
  · rintro ⟨site, (⟨s, hs, rfl⟩ | ⟨t, ht, rfl⟩) | ⟨c, hc, b, hb, rfl⟩, ha⟩
    · exact .inl ⟨s, hs, List.mem_append.1 ha⟩
    · exact .inr (.inl ⟨t, ht, ha⟩)
    · exact .inr (.inr ⟨c, hc, b, hb, ha⟩)
  · rintro (⟨s, hs, ha⟩ | ⟨t, ht, ha⟩ | ⟨c, hc, b, hb, ha⟩)
    · exact ⟨_, .inl (.inl ⟨s, hs, rfl⟩), List.mem_append.2 ha⟩
    · exact ⟨_, .inl (.inr ⟨t, ht, rfl⟩), ha⟩
    · exact ⟨_, .inr ⟨c, hc, b, hb, rfl⟩, ha⟩

theorem commandFlaws_eq_nil_iff (d : Declaration) :
    commandFlaws d = [] ↔
      ∀ a, d.Acts a → ∀ c ∈ TimerCommand.ofAction? a, c.timer ∈ d.timerIds := by
  have hsite : commandFlaws d = [] ↔ ∀ site ∈ actionSites d, ∀ a ∈ site.2.2,
      ∀ c ∈ TimerCommand.ofAction? a, c.timer ∈ d.timerIds := by
    simp only [commandFlaws, List.flatMap_eq_nil_iff, List.filterMap_eq_nil_iff]
    refine forall₂_congr fun site _ => forall₂_congr fun a _ => ?_
    cases TimerCommand.ofAction? a with
    | none => simp
    | some c => simp
  rw [hsite]
  constructor
  · intro h a ha
    obtain ⟨site, hmem, ha⟩ := (exists_mem_actionSites d a).2 ha
    exact h site hmem a ha
  · exact fun h site hmem a ha => h a ((exists_mem_actionSites d a).1 ⟨site, hmem, ha⟩)

/-! ## The verdict -/

/-- Every check finds nothing exactly if the declaration is well formed. -/
theorem errors_eq_nil_iff (d : Declaration) : errors d = [] ↔ d.WellFormed := by
  simp only [errors, List.append_eq_nil_iff, List.flatMap_eq_nil_iff, duplicates_eq_nil_iff,
    initialFlaws_eq_nil_iff, transitionFlaws_eq_nil_iff, choiceFlaws_eq_nil_iff,
    cycleFlaws_eq_nil_iff, durationFlaws_eq_nil_iff, commandFlaws_eq_nil_iff]
  constructor
  · rintro ⟨⟨⟨⟨⟨⟨⟨hs, hc, ht, hdis⟩, hi⟩, htr⟩, hch⟩, hcyc⟩, hdur⟩, hcmd⟩
    refine ⟨hs, hc, ht, hdis, hi, fun t h => (htr t h).1, fun t h => (htr t h).2.1,
      fun t h => (htr t h).2.2, fun c h b hb => ((hch c h).2.2 b hb).1,
      fun c h b hb => ((hch c h).2.2 b hb).2, fun c h => (hch c h).1,
      fun c h => (hch c h).2.1, ?_, hdur, hcmd⟩
    -- all ends are declared, so the search has seen every arrow
    intro n hn
    refine hcyc n (TransGen.mono ?_ n n hn)
    rintro a b hab
    refine leads_transientArrows.2 ⟨hab, ?_⟩
    rcases hab with ⟨c, hc, rfl, br, hbr, rfl⟩ | ⟨t, ht, -, rfl, rfl⟩
    · exact ⟨List.mem_append_right _ (List.mem_map.2 ⟨c, hc, rfl⟩), ((hch c hc).2.2 br hbr).1⟩
    · exact ⟨(htr t ht).1, (htr t ht).2.1⟩
  · intro h
    have hcyc : d.transientArrows.Acyclic := fun n hn =>
      h.acyclic n (TransGen.mono (fun a b hab => (leads_transientArrows.1 hab).1) n n hn)
    exact ⟨⟨⟨⟨⟨⟨⟨h.states_nodup, h.choices_nodup, h.timers_nodup, h.disjoint⟩, h.initial⟩,
      fun t ht => ⟨h.source_mem t ht, h.target_mem t ht, h.guard_ne t ht⟩⟩,
      fun c hc => ⟨h.default_one c hc, h.conditioned c hc,
        fun b hb => ⟨h.branch_mem c hc b hb, h.condition_ne c hc b hb⟩⟩⟩,
      hcyc⟩, h.duration_pos⟩, h.command_mem⟩

/-- The definition of a well-formed declaration consists of its parts, in their order. -/
theorem definition_eq_some_iff (d : Declaration) (m : Definition) :
    (check d).definition = some m ↔ d.WellFormed ∧ m.name = d.name ∧
      d.initial.map (·.target) = [m.initial] ∧ m.states = d.states ∧ m.choices = d.choices ∧
      m.transitions = d.transitions ∧ m.timers = d.timers := by
  by_cases hd : d.WellFormed
  · obtain ⟨marker, hi, -⟩ := hd.initial
    have hs : latest State.id d.states = d.states := latest_eq_self State.id hd.states_nodup
    have hc : latest Choice.id d.choices = d.choices := latest_eq_self Choice.id hd.choices_nodup
    have hcheck : (check d).definition = some (Definition.ofDeclaration d marker.target) := by
      simp [check, (errors_eq_nil_iff d).2 hd, hi]
    rw [hcheck, Option.some_inj, hi]
    simp only [hd, true_and, List.map_cons, List.map_nil, List.cons.injEq, and_true]
    constructor
    · rintro rfl
      exact ⟨rfl, rfl, hs, hc, rfl, rfl⟩
    · obtain ⟨name, initial, states, choices, transitions, timers, _, _⟩ := m
      rintro ⟨rfl, rfl, rfl, rfl, rfl, rfl⟩
      simp only [Definition.ofDeclaration, hs, hc]
  · have hne : errors d ≠ [] := fun h => hd ((errors_eq_nil_iff d).1 h)
    simp [check, hne, hd]

/-- There is a definition exactly if there are no errors. -/
theorem isSome_definition_iff (d : Declaration) :
    (check d).definition.isSome ↔ (check d).errors = [] := by
  constructor
  · intro h
    obtain ⟨m, hm⟩ := Option.isSome_iff_exists.1 h
    exact (errors_eq_nil_iff d).2 ((definition_eq_some_iff d m).1 hm).1
  · intro h
    obtain ⟨marker, hi, -⟩ := ((errors_eq_nil_iff d).1 h).initial
    simp [check, show errors d = [] from h, hi]

/-- **Checking decides well-formedness**: a declaration has no errors exactly if it is well
formed, it has a definition exactly then, and the definition consists of the parts of the
declaration, in their order and none of them lost or merged. There is a report of this, unless a
timer that lasts no time has a duration that cannot be written; then the declaration is not well
formed, and there is no report and no definition. -/
theorem check_decides_wellFormed (d : Declaration) :
    ((check d).errors = [] ↔ d.WellFormed) ∧ ((check d).definition.isSome ↔ d.WellFormed) ∧
      (∀ m, (check d).definition = some m ↔ d.WellFormed ∧ m.name = d.name ∧
        d.initial.map (·.target) = [m.initial] ∧ m.states = d.states ∧ m.choices = d.choices ∧
        m.transitions = d.transitions ∧ m.timers = d.timers) ∧
      (d.Reportable → ∃ r, validate d = .ok r ∧ (r.errors = [] ↔ d.WellFormed) ∧
        r.definition = (check d).definition) ∧
      (¬ d.Reportable → validate d = .error .tooLarge ∧ ¬ d.WellFormed) := by
  obtain ⟨hok, herror, hshows⟩ := validate_reports d
  refine ⟨errors_eq_nil_iff d, (isSome_definition_iff d).trans (errors_eq_nil_iff d),
    definition_eq_some_iff d, fun hd => ?_, fun hd => ⟨herror hd, fun hw => hd fun t ht hdue => ?_⟩⟩
  · obtain ⟨r, hr⟩ := hok hd
    obtain ⟨hdefinition, herrors, -⟩ := hshows r hr
    refine ⟨r, hr, ?_, hdefinition⟩
    rw [← List.length_eq_zero_iff, ← herrors.length_eq, List.length_eq_zero_iff]
    exact errors_eq_nil_iff d
  · exact absurd (hw.duration_pos t ht) (Int.not_lt.2 hdue)

end Validation

/-! ## Definitions that have come from a check -/

namespace Definition

/-- The definition as a declaration. -/
def declaration (m : Definition) : Declaration where
  name := m.name
  initial := [⟨m.initial, none⟩]
  states := m.states
  choices := m.choices
  transitions := m.transitions
  timers := m.timers
  span := none

/-- The definition has come from a check. -/
def Accepted (m : Definition) : Prop := ∃ d, (Validation.check d).definition = some m

theorem Accepted.wellFormed {m : Definition} (h : m.Accepted) : m.declaration.WellFormed := by
  obtain ⟨d, hd⟩ := h
  obtain ⟨hw, -, hi, hs, hc, ht, hti⟩ := (Validation.definition_eq_some_iff d m).1 hd
  obtain ⟨name, initial, states, choices, transitions, timers, _⟩ := d
  dsimp only at hi hs hc ht hti
  subst hs hc ht hti
  obtain ⟨marker, hmarker, hmem⟩ := hw.initial
  dsimp only at hmarker
  subst hmarker
  exact { hw with
    initial := ⟨⟨m.initial, none⟩, rfl, by
      simp only [List.map_cons, List.map_nil, List.cons.injEq, and_true] at hi
      exact hi ▸ hmem⟩ }

theorem Accepted.of_wellFormed {m : Definition} (h : m.declaration.WellFormed) : m.Accepted :=
  ⟨m.declaration, (Validation.definition_eq_some_iff m.declaration m).2
    ⟨h, rfl, rfl, rfl, rfl, rfl, rfl⟩⟩

end Definition

end Statechart
