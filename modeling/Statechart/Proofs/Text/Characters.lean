import Statechart.Text.CodePoint

/-!
# Texts without surrogates

The code points of a text without surrogates make up that text and no other
(`string?_eq_some_iff`), so it can be encoded.
-/

namespace Statechart.Text

theorem CodePoint.char?_eq_some_iff {p : CodePoint} {c : Char} :
    p.char? = some c ↔ p = .char c := by
  cases p <;> simp [char?]

theorem mapM_char?_eq_some_iff {ps : CodePoints} {cs : List Char} :
    ps.mapM CodePoint.char? = some cs ↔ ps = cs.map .char := by
  induction ps generalizing cs with
  | nil => cases cs <;> simp
  | cons p ps ih =>
    simp only [List.mapM_cons, Option.bind_eq_bind, Option.bind_eq_some_iff,
      CodePoint.char?_eq_some_iff, ih, Option.pure_def, Option.some_inj]
    constructor
    · rintro ⟨c, rfl, cs, rfl, rfl⟩
      rfl
    · intro h
      cases cs with
      | nil => cases h
      | cons c cs =>
        obtain ⟨rfl, rfl⟩ := List.cons.inj h
        exact ⟨c, rfl, cs, rfl, rfl⟩

theorem string?_eq_some_iff {ps : CodePoints} {s : String} :
    string? ps = some s ↔ ps = codePoints s := by
  rw [string?, Option.map_eq_some_iff]
  constructor
  · rintro ⟨cs, hcs, rfl⟩
    rw [codePoints, String.toList_ofList]
    exact mapM_char?_eq_some_iff.1 hcs
  · rintro rfl
    exact ⟨s.toList, mapM_char?_eq_some_iff.2 rfl, String.ofList_toList⟩

theorem string?_codePoints (s : String) : string? (codePoints s) = some s :=
  string?_eq_some_iff.2 rfl

theorem codePoints_inj {s t : String} : codePoints s = codePoints t ↔ s = t :=
  ⟨fun h => Option.some_inj.1 ((string?_codePoints s).symm.trans (string?_eq_some_iff.2 h)),
    congrArg _⟩

theorem encodable_codePoints (s : String) : encodable (codePoints s) = .ok s := by
  rw [encodable, string?_codePoints]

end Statechart.Text
