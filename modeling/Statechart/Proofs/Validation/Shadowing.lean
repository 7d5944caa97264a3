import Mathlib
import Statechart.Engine.Step
import Statechart.Proofs.Validation.WellFormed

/-!
# Shadowed transitions can never fire

A check warns of each transition that is never taken, among those of one state on one trigger: it
comes after one without a guard, or after one with the same guard. The warning is exact. Of guards
nothing is known but that their answers depend on the text, the event and the payload alone
(`Guard.ofAnswers`). For such guards the candidate chosen is the first that is enabled
(`firstEnabled_ofAnswers`), so one that is overtaken is never chosen (`Overtaken`); and one that is
not overtaken is chosen by the guard that holds for its own text only.

Warnings are told apart by their places, as two transitions may be equal.

Main statement: `shadow_warnings_exact`.
-/

namespace Statechart

variable {σ π ε : Type}

/-! ## Guards that answer alike -/

/-- The guard whose answer depends on the text, the event and the payload alone. -/
def Guard.ofAnswers (answers : String → Option String → Option π → Option Bool) : Guard σ π :=
  fun text event payload s => (answers text event payload, s)

/-- An arrow with this guard is enabled: there is no guard, or it holds. -/
def enables (answers : String → Option String → Option π → Option Bool) (event : Option String)
    (payload : Option π) : Option String → Bool
  | none => true
  | some g => (answers g event payload).getD false

theorem firstEnabled_ofAnswers {α : Type}
    (answers : String → Option String → Option π → Option Bool) (condition : α → Option String)
    (event : Option String) (payload : Option π) (arrows : List α) (s : σ) :
    firstEnabled (Guard.ofAnswers answers) condition event payload arrows s =
      (arrows.find? fun a => enables answers event payload (condition a), s) := by
  induction arrows with
  | nil => rfl
  | cons a as ih =>
    simp only [firstEnabled, Guard.ofAnswers, List.find?_cons]
    cases condition a with
    | none => simp [enables]
    | some g =>
      cases hg : (answers g event payload).getD false with
      | true => simp [enables, hg]
      | false => simpa [enables, hg] using ih

/-- The place, among candidates, of the one that is chosen. -/
def chosenPlace (answers : String → Option String → Option π → Option Bool)
    (event : Option String) (payload : Option π) (candidates : List Transition) : Option Nat :=
  (firstEnabled (Guard.ofAnswers answers) (fun p => p.1.guard) event payload candidates.zipIdx
    ()).1.map Prod.snd

section Choosing

variable {answers : String → Option String → Option π → Option Bool} {event : Option String}
  {payload : Option π} {candidates : List Transition}

theorem chosenPlace_eq_findIdx? : chosenPlace answers event payload candidates =
    candidates.findIdx? fun t => enables answers event payload t.guard := by
  rw [chosenPlace, firstEnabled_ofAnswers, List.findIdx?_eq_fst_find?_zipIdx]

/-- The engine chooses the candidate at that place. -/
theorem Engine.choose_ofAnswers (react : String → Run σ π ε Unit) (w : World σ π) :
    Engine.choose ⟨Guard.ofAnswers answers, react⟩ Transition.guard event payload candidates w =
      .ok ((chosenPlace answers event payload candidates).bind (candidates[·]?)) w := by
  rw [chosenPlace_eq_findIdx?, ← List.find?_eq_bind_findIdx?_getElem?]
  simp only [Engine.choose, firstEnabled_ofAnswers]

/-! ## Transitions that are overtaken -/

/-- The transition comes after one that has no guard, or the same guard. -/
def Overtaken (earlier : List Transition) (t : Transition) : Prop :=
  ∃ s ∈ earlier, s.guard = none ∨ s.guard = t.guard

instance (earlier : List Transition) (t : Transition) : Decidable (Overtaken earlier t) :=
  inferInstanceAs (Decidable (∃ s ∈ earlier, s.guard = none ∨ s.guard = t.guard))

/-- **A transition is never chosen exactly if it is overtaken**, whatever the event under way. -/
theorem overtaken_iff_never_chosen {i : Nat} {t : Transition} (ht : candidates[i]? = some t)
    (event : Option String) (payload : Option π) :
    Overtaken (candidates.take i) t ↔
      ∀ answers, chosenPlace answers event payload candidates ≠ some i := by
  obtain ⟨hi, rfl⟩ := List.getElem?_eq_some_iff.1 ht
  simp only [chosenPlace_eq_findIdx?, ne_eq, List.findIdx?_eq_some_iff_getElem]
  constructor
  · rintro ⟨s, hs, hguard⟩ answers ⟨_, henabled, hearlier⟩
    obtain ⟨j, hj, rfl⟩ := List.mem_take_iff_getElem.1 hs
    refine hearlier j (by omega) ?_
    rcases hguard with hnone | hsame
    · rw [hnone, enables]
    · rwa [hsame]
  · intro hnever
    by_contra hfree
    -- the guard that holds for the text of this transition only
    refine hnever (fun text _ _ => some (candidates[i].guard = some text)) ⟨hi, ?_, fun j hj => ?_⟩
    · cases hg : candidates[i].guard <;> simp [enables]
    · have hs : candidates[j] ∈ candidates.take i :=
        List.mem_take_iff_getElem.2 ⟨j, by omega, rfl⟩
      cases hg : candidates[j].guard with
      | none => exact absurd ⟨_, hs, .inl hg⟩ hfree
      | some g =>
        have hne : candidates[i].guard ≠ some g := fun heq =>
          hfree ⟨_, hs, .inr (hg.trans heq.symm)⟩
        simp [enables, hne]

end Choosing

namespace Validation

/-! ## The warnings -/

theorem shadowed_cons (unguarded : Bool) (guards : List String) (t : Transition)
    (ts : List Transition) :
    shadowed unguarded guards (t :: ts) =
      (if unguarded || t.guard.any (guards.contains ·) then [t] else []) ++
        shadowed (unguarded || t.guard.isNone) (t.guard.toList ++ guards) ts := by
  rw [shadowed]
  cases t.guard with
  | none => cases unguarded <;> simp
  | some g => by_cases h : unguarded ∨ g ∈ guards <;> simp [h]

/-- Given what is known of the transitions before, those that are overtaken are listed. -/
theorem shadowed_eq (before : List Transition) {unguarded : Bool} {guards : List String}
    (hunguarded : unguarded ↔ ∃ s ∈ before, s.guard = none)
    (hguards : ∀ g, g ∈ guards ↔ ∃ s ∈ before, s.guard = some g) (ts : List Transition) :
    shadowed unguarded guards ts =
      ((ts.zipIdx before.length).filter fun p =>
        Overtaken ((before ++ ts).take p.2) p.1).map Prod.fst := by
  induction ts generalizing unguarded guards before with
  | nil => rfl
  | cons t ts ih =>
    have hhead : (unguarded || t.guard.any (guards.contains ·)) = decide (Overtaken before t) := by
      rw [Bool.eq_iff_iff, decide_eq_true_iff, Bool.or_eq_true, hunguarded, Option.any_eq_true]
      simp only [Overtaken, List.contains_eq_mem, decide_eq_true_eq, hguards]
      constructor
      · rintro (⟨s, hs, hnone⟩ | ⟨g, hg, s, hs, hsame⟩)
        · exact ⟨s, hs, .inl hnone⟩
        · exact ⟨s, hs, .inr (hsame.trans hg.symm)⟩
      · rintro ⟨s, hs, hnone | hsame⟩
        · exact .inl ⟨s, hs, hnone⟩
        · cases hg : t.guard with
          | none => exact .inl ⟨s, hs, hsame.trans hg⟩
          | some g => exact .inr ⟨g, rfl, s, hs, hsame.trans hg⟩
    have hrest := ih (before ++ [t]) (by simp [hunguarded, or_and_right, exists_or] :
        (unguarded || t.guard.isNone) ↔ ∃ s ∈ before ++ [t], s.guard = none)
      (by simp [hguards, or_and_right, exists_or, or_comm] :
        ∀ g, g ∈ t.guard.toList ++ guards ↔ ∃ s ∈ before ++ [t], s.guard = some g)
    rw [List.length_append, List.length_singleton, List.append_assoc, List.singleton_append]
      at hrest
    have htake : (before ++ t :: ts).take before.length = before := List.take_left
    rw [shadowed_cons, hrest, hhead, List.zipIdx_cons, List.filter_cons, htake]
    by_cases ht : Overtaken before t <;> simp [ht]

/-- The transitions that are warned of, with their places among the candidates. -/
def flagged (candidates : List Transition) : List (Transition × Nat) :=
  candidates.zipIdx.filter fun p => Overtaken (candidates.take p.2) p.1

theorem shadowed_eq_flagged (candidates : List Transition) :
    shadowed false [] candidates = (flagged candidates).map Prod.fst :=
  shadowed_eq [] (by simp) (by simp) candidates

/-- It is the warning of a transition that leaves the given source on the given trigger. -/
def Caution.shadows (source : String) (trigger : Option String) : Caution → Bool
  | .shadowedTransition s _ e => s == source && e == trigger
  | _ => false

theorem flatMap_ite_eq {α β : Type} [DecidableEq α] {keys : List α} (hkeys : keys.Nodup) {k : α}
    {xs : List β} (hk : k ∉ keys → xs = []) :
    (keys.flatMap fun a => if a = k then xs else []) = xs := by
  induction keys with
  | nil => simpa using (hk (by simp)).symm
  | cons a as ih =>
    rw [List.nodup_cons] at hkeys
    rw [List.flatMap_cons]
    by_cases ha : a = k
    · subst ha
      have hrest : (as.flatMap fun b => if b = a then xs else []) = [] :=
        List.flatMap_eq_nil_iff.2 fun b hb => if_neg fun heq : b = a => hkeys.1 (heq ▸ hb)
      rw [if_pos rfl, hrest, List.append_nil]
    · rw [if_neg ha, List.nil_append]
      exact ih hkeys.2 fun hmem => hk (by simp [hmem, Ne.symm ha])

/-- The warnings about one source and trigger are those of the transitions that are flagged. -/
theorem filter_shadows (d : Declaration) (source : String) (trigger : Option String) :
    ((check d).warnings.filter fun c => c.cause.shadows source trigger) =
      (flagged (d.transitions.filter fun t => t.source == source && t.event == trigger)).map
        fun p => ⟨.shadowedTransition source p.1.target trigger, p.1.span⟩ := by
  have hwarnings : (check d).warnings = warnings d := rfl
  have hunused : ((unusedEvents d).filter fun c => c.cause.shadows source trigger) = [] := by
    simp [unusedEvents, List.filter_map, Function.comp_def, Caution.shadows]
  have hunreachable :
      ((unreachableStates d).filter fun c => c.cause.shadows source trigger) = [] := by
    simp [unreachableStates, List.filter_map, Function.comp_def, Caution.shadows]
  have hkey : ∀ k : String × Option String,
      (((shadowed false [] (d.transitions.filter fun t => t.source == k.1 && t.event == k.2)).map
        fun t => (⟨.shadowedTransition k.1 t.target k.2, t.span⟩ : Located Caution)).filter
          fun c => c.cause.shadows source trigger) =
        if k = (source, trigger) then
          (flagged (d.transitions.filter fun t => t.source == source && t.event == trigger)).map
            fun p => ⟨.shadowedTransition source p.1.target trigger, p.1.span⟩
        else [] := by
    rintro ⟨s, e⟩
    by_cases hk : (s, e) = (source, trigger)
    · obtain ⟨rfl, rfl⟩ := Prod.mk.inj hk
      simp [shadowed_eq_flagged, List.filter_map, Function.comp_def, Caution.shadows]
    · have hne : (s == source && e == trigger) = false := by simpa using hk
      simp [hk, List.filter_map, Function.comp_def, Caution.shadows, hne]
  have hnone : (source, trigger) ∉ triggers d →
      (d.transitions.filter fun t => t.source == source && t.event == trigger) = [] := by
    intro hnot
    refine List.filter_eq_nil_iff.2 fun t ht hsame => hnot ?_
    rw [Bool.and_eq_true, beq_iff_eq, beq_iff_eq] at hsame
    exact List.mem_eraseDups.2 (List.mem_map.2 ⟨t, ht, Prod.ext hsame.1 hsame.2⟩)
  rw [hwarnings, warnings, List.filter_append, List.filter_append, hunused, hunreachable,
    List.nil_append, List.append_nil, shadowedTransitions, List.filter_flatMap]
  refine (congrArg (List.flatMap · (triggers d)) (funext hkey)).trans
    (flatMap_ite_eq (nodup_eraseDups _) fun hnot => ?_)
  rw [hnone hnot]
  rfl

end Validation

/-- **Warnings of shadowed transitions are exact**: in a declaration with a definition, take the
transitions from any source on any trigger, which may be none, in their order. Whatever surrounds it
and wherever it is, the engine chooses the transition at the place that is chosen (`chosenPlace`). A
transition is warned of exactly if its place is never chosen, whatever guards answer to the text,
the event under way and the payload, no answer counting as no: `flagged` are the transitions with
these places, and the warnings about this source and trigger are theirs, in this order. -/
theorem shadow_warnings_exact {d : Declaration} {m : Definition}
    (hm : (Validation.check d).definition = some m) (source : String) (trigger : Option String) :
    let candidates := m.transitionsFrom source trigger
    (∀ answers (react : String → Run σ π ε Unit) event payload w,
      Engine.choose ⟨Guard.ofAnswers answers, react⟩ Transition.guard event payload candidates w =
        .ok ((chosenPlace answers event payload candidates).bind (candidates[·]?)) w) ∧
      ∃ flagged : List (Transition × Nat), flagged.Sublist candidates.zipIdx ∧
        (∀ i t, candidates[i]? = some t → ∀ event (payload : Option π),
          ((t, i) ∈ flagged ↔
            ∀ answers, chosenPlace answers event payload candidates ≠ some i)) ∧
        ((Validation.check d).warnings.filter fun c => c.cause.shadows source trigger) =
          flagged.map fun p => ⟨.shadowedTransition source p.1.target trigger, p.1.span⟩ := by
  intro candidates
  have htransitions : m.transitions = d.transitions :=
    ((Validation.definition_eq_some_iff d m).1 hm).2.2.2.2.2.1
  refine ⟨fun answers react event payload w => Engine.choose_ofAnswers react w,
    Validation.flagged candidates, List.filter_sublist, fun i t ht event payload => ?_, ?_⟩
  · rw [← overtaken_iff_never_chosen ht, Validation.flagged, List.mem_filter,
      List.mem_zipIdx_iff_getElem?]
    simp [ht]
  · rw [Validation.filter_shadows, ← htransitions]
    rfl

/-! ## A barrier -/

namespace Barrier

/-- A barrier with too many rules for whom to let in. -/
def declaration : Declaration where
  name := "barrier"
  initial := [⟨"down", none⟩]
  states := [⟨"down", none, [], [], none⟩, ⟨"up", none, [], [], none⟩]
  choices := []
  transitions := [⟨"down", "up", some "arrive", some "paid", [], none⟩,
    ⟨"up", "down", some "pass", none, [], none⟩,
    ⟨"down", "down", some "arrive", some "late", ["honk"], none⟩,
    ⟨"down", "up", some "arrive", some "paid", [], none⟩,
    ⟨"down", "down", some "arrive", none, [], none⟩,
    ⟨"down", "up", some "arrive", some "exempt", [], none⟩]
  timers := []
  span := none

/-- The barrier with its parts in place. -/
def machine : Definition := Definition.ofDeclaration declaration "down"

theorem checked : (Validation.check declaration).definition = some machine := by cbv

/-- The rules for those who arrive. -/
def rules : List Transition := machine.transitionsFrom "down" (some "arrive")

/-- Two of the rules for those who arrive never apply, and no other rule is warned of. -/
theorem barrier_rules_exact :
    ∃ flagged : List (Transition × Nat), flagged.Sublist rules.zipIdx ∧
      (∀ i t, rules[i]? = some t → ((t, i) ∈ flagged ↔
        ∀ answers, chosenPlace answers (some "arrive") (none : Option Unit) rules ≠ some i)) ∧
      (flagged.map fun p => (⟨.shadowedTransition "down" p.1.target (some "arrive"), p.1.span⟩ :
        Validation.Located Validation.Caution)) =
        [⟨.shadowedTransition "down" "up" (some "arrive"), none⟩,
          ⟨.shadowedTransition "down" "up" (some "arrive"), none⟩] := by
  obtain ⟨-, flagged, hsub, hexact, hwarned⟩ :=
    shadow_warnings_exact (σ := Unit) (π := Unit) (ε := String) checked "down" (some "arrive")
  exact ⟨flagged, hsub, fun i t ht => hexact i t ht (some "arrive") none,
    hwarned.symm.trans (by cbv)⟩

end Barrier

end Statechart
