/-!
# Powers of ten

What the places of a decimal numeral are worth. Main statements: `tenPower_succ` and
`tenPower_add`.
-/

namespace Statechart

/-- Ten to a power. -/
def tenPower (n : Nat) : Nat := Nat.pow 10 n

theorem tenPower_zero : tenPower 0 = 1 := rfl

theorem tenPower_succ (n : Nat) : tenPower (n + 1) = 10 * tenPower n :=
  Nat.mul_comm (tenPower n) 10

theorem tenPower_add (m n : Nat) : tenPower (m + n) = tenPower m * tenPower n := by
  induction m with
  | zero => rw [Nat.zero_add, tenPower_zero, Nat.one_mul]
  | succ m ih => rw [Nat.succ_add, tenPower_succ, tenPower_succ, ih, Nat.mul_assoc]

theorem tenPower_pos (n : Nat) : 0 < tenPower n := by
  induction n with
  | zero => exact Nat.one_pos
  | succ n ih =>
    rw [tenPower_succ]
    omega

end Statechart
