import Statechart.Number.Power

/-!
# Binary floating-point numbers

A number of the IEEE 754 format *binary64* is held by its 64 bits. Numbers come from exact
quotients of naturals (`ofQuotient`), rounded to the nearest, on a tie to the one with an even
significand; beyond the largest finite number the result is infinite.
-/

namespace Statechart

/-- A number of 64 bits: a sign, an exponent of eleven bits, a fraction of 52 bits. -/
structure Binary64 where
  bits : UInt64
  deriving DecidableEq, Repr, Inhabited

namespace Binary64

/-- The nearest integer to a quotient, on a tie the even one. -/
def roundQuotient (num den : Nat) : Nat :=
  let q := num / den
  let r := num % den
  if 2 * r < den then q
  else if den < 2 * r then q + 1
  else if q % 2 = 0 then q else q + 1

/-- The quotient of `num` and `den` times two to the power `-e`, as a quotient. -/
def scale (num den : Nat) (e : Int) : Nat × Nat :=
  if 0 ≤ e then (num, den <<< e.toNat) else (num <<< (-e).toNat, den)

/-- The first number that the fraction cannot hold, which is the worth of the leading bit of a
significand: two to the power 52. -/
def leadingBit : Nat := 0x10000000000000

/-- The worth of the sign bit: two to the power 63. -/
def signBit : Nat := 0x8000000000000000

/-- The exponent of the last bit of the number nearest to a positive quotient. -/
def unitExponent (num den : Nat) : Int :=
  let e : Int := (num.log2 : Int) - (den.log2 : Int) - 52
  let s := scale num den e
  max (-1074) (if s.1 < leadingBit * s.2 then e - 1 else e)

/-- The bits of infinity. -/
def infinityBits : Nat := 0x7FF0000000000000

/-- The bits of the number nearest to a quotient, without its sign. -/
def quotientBits (num den : Nat) : Nat :=
  if num = 0 || den = 0 then 0
  else
    let e := unitExponent num den
    let s := scale num den e
    let m := roundQuotient s.1 s.2
    let bits := (e + 1074).toNat * leadingBit + m
    min bits infinityBits

/-- The bits with a sign in front. -/
def withSign (negative : Bool) (bits : Nat) : Binary64 :=
  ⟨UInt64.ofNat (if negative then signBit + bits else bits)⟩

/-- The number nearest to a quotient. -/
def ofQuotient (negative : Bool) (num den : Nat) : Binary64 :=
  withSign negative (quotientBits num den)

/-- The number nearest to `digits` times ten to the power `exponent`. Beyond 400 places the
result is infinite or zero whatever the exponent. -/
def ofDecimal (negative : Bool) (digits : Nat) (exponent : Int) : Binary64 :=
  let places := (Nat.toDigits 10 digits).length
  if digits = 0 then withSign negative 0
  else if 400 < exponent + places then withSign negative infinityBits
  else if exponent + places < -400 then withSign negative 0
  else if 0 ≤ exponent then ofQuotient negative (digits * tenPower exponent.toNat) 1
  else ofQuotient negative digits (tenPower (-exponent).toNat)

/-- The number of no value. -/
def nan : Binary64 := ⟨0x7FF8000000000000⟩

/-- The infinite number. -/
def infinity (negative : Bool) : Binary64 := withSign negative infinityBits

/-- Zero. -/
def zero : Binary64 := ⟨0⟩

/-- One. -/
def one : Binary64 := ⟨0x3FF0000000000000⟩

/-- Whether the number is infinite. -/
def isInfinite (x : Binary64) : Bool := x.bits.toNat % signBit == infinityBits

/-- The number nearest to an integer, unless that is infinite. -/
def ofInt? (n : Int) : Option Binary64 :=
  let x := ofQuotient (n < 0) n.natAbs 1
  if x.isInfinite then none else some x

/-- Whether the number is negative. -/
def isNegative (x : Binary64) : Bool := decide (signBit ≤ x.bits.toNat)

/-- The bits without the sign. -/
def magnitude (x : Binary64) : Nat := x.bits.toNat % signBit

/-- Whether the number is zero, of either sign. -/
def isZero (x : Binary64) : Bool := x.magnitude == 0

/-- Whether the number has no value. -/
def isNaN (x : Binary64) : Bool := infinityBits < x.magnitude

/-- The size of a finite number, as an exact quotient. -/
def quotient (x : Binary64) : Nat × Nat :=
  let e := x.magnitude / leadingBit
  let f := x.magnitude % leadingBit
  if e = 0 then (f, 1 <<< 1074)
  else if 1075 ≤ e then ((leadingBit + f) <<< (e - 1075), 1)
  else (leadingBit + f, 1 <<< (1075 - e))

end Binary64

end Statechart
