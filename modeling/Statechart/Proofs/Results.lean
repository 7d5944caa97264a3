import Mathlib
import Statechart.Text.Numeral

/-!
# Results that may be missing

A computation that looks out for errors either gives a value or fails. What follows from a value
that it gives, or from its failure, is read off its parts (`exists_of_bind_eq_ok`,
`forall₂_of_mapM_eq_ok`, `exists_of_mapM_eq_error`). Where it can fail in one
way only, it has its value under a condition and fails in that way without it (`Yields`), and the
condition is put together from those of its parts.

An integer can be written as long as it does not need too many digits (`Text.HasNumeral`).
-/

namespace Statechart

section

variable {α β ε : Type}

theorem exists_of_bind_eq_ok {x : Except ε α} {f : α → Except ε β} {b : β}
    (h : x >>= f = .ok b) : ∃ a, x = .ok a ∧ f a = .ok b := by
  cases x with
  | error e => cases h
  | ok a => exact ⟨a, rfl, h⟩

theorem mapError_eq_ok_iff {ε' : Type} {x : Except ε α} {f : ε → ε'} {a : α} :
    x.mapError f = .ok a ↔ x = .ok a := by
  cases x <;> simp [Except.mapError]

theorem forall₂_of_mapM_eq_ok {f : α → Except ε β} {xs : List α} {ys : List β}
    (h : xs.mapM f = .ok ys) : List.Forall₂ (fun x y => f x = .ok y) xs ys := by
  induction xs generalizing ys with
  | nil =>
    cases h
    exact .nil
  | cons x xs ih =>
    rw [List.mapM_cons] at h
    obtain ⟨y, hy, h⟩ := exists_of_bind_eq_ok h
    obtain ⟨ys, hys, h⟩ := exists_of_bind_eq_ok h
    cases h
    exact .cons hy (ih hys)

theorem exists_of_mem_of_forall₂ {r : α → β → Prop} {xs : List α} {ys : List β}
    (h : List.Forall₂ r xs ys) {x : α} (hx : x ∈ xs) : ∃ y ∈ ys, r x y := by
  induction h with
  | nil => cases hx
  | cons hxy _ ih =>
    rcases List.mem_cons.1 hx with rfl | hx
    · exact ⟨_, List.mem_cons_self .., hxy⟩
    · obtain ⟨y, hy, hr⟩ := ih hx
      exact ⟨y, List.mem_cons_of_mem _ hy, hr⟩

theorem exists_of_mapM_eq_error {f : α → Except ε β} {xs : List α} {e : ε}
    (h : xs.mapM f = .error e) : ∃ x ∈ xs, f x = .error e := by
  induction xs with
  | nil => cases h
  | cons x xs ih =>
    cases hx : f x with
    | error e' =>
      rw [List.mapM_cons, hx] at h
      cases h
      exact ⟨x, by simp, hx⟩
    | ok y =>
      cases hxs : xs.mapM f with
      | error e' =>
        rw [List.mapM_cons, hx, hxs] at h
        cases h
        obtain ⟨x', hx', he⟩ := ih hxs
        exact ⟨x', List.mem_cons_of_mem _ hx', he⟩
      | ok ys =>
        rw [List.mapM_cons, hx, hxs] at h
        cases h

/-- The computation has the value if the condition holds, and fails with the error if not. -/
structure Yields (x : Except ε α) (p : Prop) (a : α) (e : ε) : Prop where
  ok : p → x = .ok a
  error : ¬ p → x = .error e

namespace Yields

variable {x : Except ε α} {p q : Prop} {a : α} {b : β} {e : ε}

theorem of_eq (h : x = .ok a) : Yields x True a e := ⟨fun _ => h, fun hn => absurd trivial hn⟩

theorem congr (h : Yields x p a e) (hpq : p ↔ q) : Yields x q a e :=
  ⟨fun hq => h.ok (hpq.2 hq), fun hq => h.error fun hp => hq (hpq.1 hp)⟩

theorem eq_of_eq_ok (h : Yields x p a e) {a' : α} (hx : x = .ok a') : p ∧ a' = a := by
  by_cases hp : p
  · exact ⟨hp, Except.ok.inj (hx.symm.trans (h.ok hp))⟩
  · cases hx.symm.trans (h.error hp)

/-- Of two computations in a row, the first that fails decides the error. -/
theorem bind {f : α → Except ε β} (hx : Yields x p a e) (hf : Yields (f a) q b e) :
    Yields (x >>= f) (p ∧ q) b e := by
  refine ⟨fun ⟨hp, hq⟩ => ?_, fun hn => ?_⟩
  · rw [hx.ok hp]
    exact hf.ok hq
  · by_cases hp : p
    · rw [hx.ok hp]
      exact hf.error fun hq => hn ⟨hp, hq⟩
    · rw [hx.error hp]
      rfl

theorem bind_ok {f : α → Except ε β} (hx : x = .ok a) (hf : Yields (f a) q b e) :
    Yields (x >>= f) q b e :=
  ((of_eq hx).bind hf).congr (iff_of_eq (true_and q))

theorem map (hx : Yields x p a e) (f : α → β) : Yields (x >>= fun a => pure (f a)) p (f a) e :=
  have hf : Yields ((fun a => pure (f a)) a : Except ε β) True (f a) e := of_eq rfl
  (hx.bind hf).congr (iff_of_eq (and_true p))

theorem mapError {ε' : Type} (hx : Yields x p a e) (f : ε → ε') :
    Yields (x.mapError f) p a (f e) := by
  refine ⟨fun hp => ?_, fun hp => ?_⟩
  · rw [hx.ok hp]
    rfl
  · rw [hx.error hp]
    rfl

theorem mapM {f : α → Except ε β} {p : α → Prop} {g : α → β} {xs : List α}
    (h : ∀ x ∈ xs, Yields (f x) (p x) (g x) e) :
    Yields (xs.mapM f) (∀ x ∈ xs, p x) (xs.map g) e := by
  induction xs with
  | nil => exact (of_eq rfl).congr (by simp)
  | cons x xs ih =>
    obtain ⟨hx, hxs⟩ := List.forall_mem_cons.1 h
    rw [List.mapM_cons]
    exact (hx.bind ((ih hxs).map (g x :: ·))).congr List.forall_mem_cons.symm

end Yields

end

namespace Text

/-- The integer can be written. -/
def HasNumeral (n : Int) : Prop := n.natAbs < tenPower digitLimit

instance (n : Int) : Decidable (HasNumeral n) := inferInstanceAs (Decidable (_ < _))

theorem yields_showInt (n : Int) : Yields (showInt n) (HasNumeral n) (toString n) .tooLarge :=
  ⟨fun h => if_neg (Nat.not_le.2 h), fun h => if_pos (Nat.not_lt.1 h)⟩

end Text

end Statechart
