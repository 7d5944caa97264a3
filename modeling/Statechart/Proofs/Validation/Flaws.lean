import Statechart.Proofs.Results
import Statechart.Validation.Checks

/-!
# What the checks find

Of the flaws that the checks find, those of one check show a circle (`Flaw.circle?`) and those of
another a duration (`Flaw.duration?`); the flaws of all other checks are plain (`Flaw.IsPlain`).

A flaw is put into words unless it shows a duration that cannot be written, and so are all flaws of
a declaration.

Main statement: `validate_reports`, a declaration has a report exactly if none of its timers that
last no time has such a duration, and the report shows what has been found, in its order.
-/

namespace Statechart

namespace Declaration

/-- The durations of timers that last no time can be written. -/
def Reportable (d : Declaration) : Prop :=
  ∀ t ∈ d.timers, t.duration ≤ 0 → Text.HasNumeral t.duration

end Declaration

namespace Validation

/-! ## What a flaw shows -/

namespace Flaw

/-- The nodes of the circle that a flaw reports, with the first one again at the end. -/
def circle? : Flaw → Option (List String)
  | .choiceCycle nodes | .completionCycle nodes => some nodes
  | _ => none

/-- The duration that a flaw shows. -/
def duration? : Flaw → Option Int
  | .timerDuration _ n => some n
  | _ => none

/-- The flaw shows neither a circle nor a duration. -/
def IsPlain (f : Flaw) : Prop := f.circle? = none ∧ f.duration? = none

theorem isSome_circle?_iff (f : Flaw) :
    f.circle?.isSome ↔ f.code = "choice-cycle" ∨ f.code = "completion-cycle" := by
  cases f with
  | duplicate kind id => cases kind <;> simp [circle?, code, PartKind.word]
  | _ => simp [circle?, code]

theorem exists_message {f : Flaw} (h : ∀ n ∈ f.duration?, Text.HasNumeral n) :
    ∃ s, f.message = .ok s := by
  cases f with
  | timerDuration t n => exact ⟨_, ((Text.yields_showInt n).map _).ok (h n rfl)⟩
  | _ => exact ⟨_, rfl⟩

theorem message_eq_error {f : Flaw} {n : Int} (hf : f.duration? = some n)
    (hn : ¬ Text.HasNumeral n) : f.message = .error .tooLarge := by
  cases f with
  | timerDuration t n' =>
    obtain rfl : n' = n := Option.some_inj.1 hf
    exact ((Text.yields_showInt n').map _).error hn
  | _ => cases hf

end Flaw

/-! ## What each check finds -/

section Checks

variable (d : Declaration)

theorem isPlain_of_mem_duplicates : ∀ f ∈ duplicates d, f.cause.IsPlain := by
  simp only [duplicates, List.mem_append, List.mem_map]
  rintro f (((⟨s, -, rfl⟩ | ⟨c, -, rfl⟩) | ⟨t, -, rfl⟩) | ⟨c, -, rfl⟩) <;> exact ⟨rfl, rfl⟩

theorem isPlain_of_mem_initialFlaws : ∀ f ∈ initialFlaws d, f.cause.IsPlain := by
  unfold initialFlaws
  split
  · simp [Flaw.IsPlain, Flaw.circle?, Flaw.duration?]
  · simp only [List.mem_append, List.mem_map, List.mem_filterMap]
    rintro f (⟨m, -, rfl⟩ | ⟨m, -, hm⟩)
    · exact ⟨rfl, rfl⟩
    · split at hm
      · simp at hm
      · split at hm <;> (obtain rfl := Option.some_inj.1 hm; exact ⟨rfl, rfl⟩)

theorem isPlain_of_mem_transitionFlaws (t : Transition) :
    ∀ f ∈ transitionFlaws d t, f.cause.IsPlain := by
  unfold transitionFlaws
  split <;> split <;> split <;> simp [Flaw.IsPlain, Flaw.circle?, Flaw.duration?]

theorem isPlain_of_mem_branchFlaws (c : Choice) (b : Branch) :
    ∀ f ∈ branchFlaws d c b, f.cause.IsPlain := by
  unfold branchFlaws
  split <;> split <;> simp [Flaw.IsPlain, Flaw.circle?, Flaw.duration?]

theorem isPlain_of_mem_choiceFlaws (c : Choice) : ∀ f ∈ choiceFlaws d c, f.cause.IsPlain := by
  intro f hf
  simp only [choiceFlaws, List.mem_append, List.mem_flatMap] at hf
  rcases hf with (hf | hf) | ⟨b, -, hf⟩
  · split at hf
    · obtain rfl := List.mem_singleton.1 hf
      exact ⟨rfl, rfl⟩
    · obtain ⟨b, -, rfl⟩ := List.mem_map.1 hf
      exact ⟨rfl, rfl⟩
  · split at hf
    · obtain rfl := List.mem_singleton.1 hf
      exact ⟨rfl, rfl⟩
    · simp at hf
  · exact isPlain_of_mem_branchFlaws d c b f hf

theorem isPlain_of_mem_commandFlaws : ∀ f ∈ commandFlaws d, f.cause.IsPlain := by
  simp only [commandFlaws, List.mem_flatMap, List.mem_filterMap]
  rintro f ⟨⟨owner, span, actions⟩, -, a, -, ha⟩
  split at ha
  · split at ha
    · simp at ha
    · obtain rfl := Option.some_inj.1 ha
      exact ⟨rfl, rfl⟩
  · simp at ha

/-- Only two of the checks show circles or durations. -/
theorem exists_errors_eq : ∃ before, errors d = before ++ cycleFlaws d ++ durationFlaws d ++
    commandFlaws d ∧ (∀ f ∈ before, f.cause.IsPlain) ∧ ∀ f ∈ commandFlaws d, f.cause.IsPlain := by
  refine ⟨duplicates d ++ initialFlaws d ++ d.transitions.flatMap (transitionFlaws d) ++
    d.choices.flatMap (choiceFlaws d), by simp [errors], ?_, isPlain_of_mem_commandFlaws d⟩
  simp only [List.mem_append, List.mem_flatMap]
  rintro f (((hf | hf) | ⟨t, -, hf⟩) | ⟨c, -, hf⟩)
  · exact isPlain_of_mem_duplicates d f hf
  · exact isPlain_of_mem_initialFlaws d f hf
  · exact isPlain_of_mem_transitionFlaws d t f hf
  · exact isPlain_of_mem_choiceFlaws d c f hf

/-- The durations that the flaws of a declaration show are those of timers that last no time. -/
theorem exists_duration?_errors_iff {n : Int} : (∃ f ∈ errors d, f.cause.duration? = some n) ↔
    ∃ t ∈ d.timers, t.duration ≤ 0 ∧ t.duration = n := by
  obtain ⟨before, herrors, hbefore, hcommands⟩ := exists_errors_eq d
  constructor
  · rintro ⟨f, hf, hn⟩
    simp only [herrors, List.mem_append] at hf
    rcases hf with ((hf | hf) | hf) | hf
    · simp [(hbefore f hf).2] at hn
    · obtain ⟨nodes, -, rfl⟩ := List.mem_map.1 hf
      split at hn <;> cases hn
    · obtain ⟨t, ht, rfl⟩ := List.mem_map.1 hf
      obtain ⟨ht, hdue⟩ := List.mem_filter.1 ht
      exact ⟨t, ht, by simpa using hdue, Option.some_inj.1 hn⟩
    · simp [(hcommands f hf).2] at hn
  · rintro ⟨t, ht, hdue, rfl⟩
    refine ⟨⟨.timerDuration t.id t.duration, t.span⟩, ?_, rfl⟩
    have hmem : t ∈ d.timers.filter (·.duration ≤ 0) := List.mem_filter.2 ⟨ht, by simpa using hdue⟩
    have hflaw : _ ∈ durationFlaws d := List.mem_map_of_mem hmem
    simp [herrors, hflaw]

end Checks

/-! ## Reports -/

theorem Located.exists_error {f : Located Flaw}
    (h : ∀ n ∈ f.cause.duration?, Text.HasNumeral n) : ∃ i, f.error = .ok i := by
  obtain ⟨s, hs⟩ := Flaw.exists_message h
  rw [Located.error, hs]
  exact ⟨_, rfl⟩

theorem Located.error_eq_error {f : Located Flaw} {n : Int} (hf : f.cause.duration? = some n)
    (hn : ¬ Text.HasNumeral n) : f.error = .error .tooLarge := by
  rw [Located.error, Flaw.message_eq_error hf hn]
  rfl

/-- **Reports show what the checks find**: a declaration has a report exactly if the durations of
timers that last no time can be written. It has the definition that the check gives, and shows one
by one what the checks have found. -/
theorem validate_reports (d : Declaration) :
    (d.Reportable → ∃ r, validate d = .ok r) ∧
      (¬ d.Reportable → validate d = .error .tooLarge) ∧
      ∀ r, validate d = .ok r → r.definition = (check d).definition ∧
        List.Forall₂ (fun f i => f.error = .ok i) (check d).errors r.errors ∧
        r.warnings = (check d).warnings.map Located.warning := by
  have hvalidate : validate d = (errors d).mapM Located.error >>= fun es =>
      pure ⟨(check d).definition, es, (check d).warnings.map Located.warning⟩ := rfl
  have hfails {f : Located Flaw} {n : Int} (hf : f ∈ errors d) (hn : f.cause.duration? = some n) :
      ∃ t ∈ d.timers, t.duration ≤ 0 ∧ t.duration = n :=
    (exists_duration?_errors_iff d).1 ⟨f, hf, hn⟩
  refine ⟨fun hd => ?_, fun hd => ?_, fun r hr => ?_⟩
  · cases hes : (errors d).mapM Located.error with
    | ok es => exact ⟨_, by rw [hvalidate, hes]; rfl⟩
    | error e =>
      obtain ⟨f, hf, he⟩ := exists_of_mapM_eq_error hes
      obtain ⟨i, hi⟩ := Located.exists_error fun n hn => by
        obtain ⟨t, ht, hdue, rfl⟩ := hfails hf hn
        exact hd t ht hdue
      cases hi.symm.trans he
  · simp only [Declaration.Reportable, not_forall] at hd
    obtain ⟨t, ht, hdue, hlarge⟩ := hd
    obtain ⟨f, hf, hn⟩ := (exists_duration?_errors_iff d).2 ⟨t, ht, hdue, rfl⟩
    cases hes : (errors d).mapM Located.error with
    | ok es =>
      obtain ⟨i, -, hi⟩ := exists_of_mem_of_forall₂ (forall₂_of_mapM_eq_ok hes) hf
      cases hi.symm.trans (Located.error_eq_error hn hlarge)
    | error e =>
      obtain ⟨f', -, he⟩ := exists_of_mapM_eq_error hes
      have hlarge' : e = .tooLarge := by
        by_cases hwords : ∀ n ∈ f'.cause.duration?, Text.HasNumeral n
        · obtain ⟨i, hi⟩ := Located.exists_error hwords
          cases hi.symm.trans he
        · simp only [not_forall] at hwords
          obtain ⟨n', hn', hlarge'⟩ := hwords
          exact Except.error.inj (he.symm.trans (Located.error_eq_error hn' hlarge'))
      rw [hvalidate, hes, hlarge']
      rfl
  · rw [hvalidate] at hr
    obtain ⟨es, hes, hr⟩ := exists_of_bind_eq_ok hr
    cases hr
    exact ⟨rfl, forall₂_of_mapM_eq_ok hes, rfl⟩

end Validation

end Statechart
