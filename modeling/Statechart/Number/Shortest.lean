import Statechart.Number.Binary64

/-!
# Shortest decimals

A number is written with the fewest significant digits that read back as the same number. For
one digit, two digits and so on, the two neighbours of the exact value on the grid of that many
digits are tried; the first grid with a hit wins, and of two hits the nearer.

Powers of ten from -4 to 15 are written positionally, with at least one digit after the point;
others with a signed exponent of at least two digits.
-/

namespace Statechart.Binary64

/-- The power of ten of the leading digit of a positive quotient. -/
def leadingPower (num den : Nat) : Int :=
  ((Nat.toDigits 10 (num * tenPower 400 / den)).length : Int) - 401

/-- The digits of the shortest decimal that reads back, and the power of ten of the leading
one, with at most `tries` more grids tried from `places` digits on. -/
def shortestFrom (x : Binary64) (num den : Nat) (power : Int) : Nat → Nat → Nat × Int
  | 0, places => (num * tenPower 400 / den, power - places)
  | tries + 1, places =>
    let last : Int := power + 1 - places
    let scaled := if 0 ≤ last then (num, den * tenPower last.toNat)
      else (num * tenPower (-last).toNat, den)
    let lower := scaled.1 / scaled.2
    let reads (d : Nat) : Bool := (ofDecimal false d last).magnitude == x.magnitude
    let upperNearer := decide (scaled.2 < 2 * (scaled.1 % scaled.2)) ||
      (2 * (scaled.1 % scaled.2) == scaled.2 && lower % 2 == 1)
    let first := if upperNearer then lower + 1 else lower
    let second := if upperNearer then lower else lower + 1
    if reads first then (first, last)
    else if reads second then (second, last)
    else shortestFrom x num den power tries (places + 1)

/-- The digits of a positive finite number and the power of ten of the last one. -/
def shortest (x : Binary64) : Nat × Int :=
  let q := x.quotient
  shortestFrom x q.1 q.2 (leadingPower q.1 q.2) 17 1

/-- The digits without zeros at the end, and the power of ten of the last one left. -/
def dropZeros (digits : List Char) (last : Int) : List Char × Int :=
  let zeros := (digits.reverse.takeWhile (· == '0')).length
  (digits.take (digits.length - zeros), last + zeros)

/-- Digits laid out around the decimal point, or with an exponent. -/
def layOut (digits : List Char) (last : Int) : List Char :=
  let power := last + digits.length - 1
  if -4 ≤ power && power < 16 then
    if 0 ≤ last then digits ++ List.replicate last.toNat '0' ++ ['.', '0']
    else if 0 ≤ power then
      digits.take (power.toNat + 1) ++ ['.'] ++ digits.drop (power.toNat + 1)
    else ['0', '.'] ++ List.replicate (-power - 1).toNat '0' ++ digits
  else
    let size := Nat.toDigits 10 power.natAbs
    let mantissa := match digits with
      | [d] => [d]
      | d :: ds => d :: '.' :: ds
      | [] => []
    mantissa ++ ['e', if power < 0 then '-' else '+'] ++
      List.replicate (2 - size.length) '0' ++ size

/-- The number in decimal. -/
def text (x : Binary64) : String :=
  if x.isNaN then "nan"
  else
    let sign := if x.isNegative then ['-'] else []
    let body :=
      if x.isInfinite then "inf".toList
      else if x.isZero then "0.0".toList
      else
        let d := x.shortest
        let k := dropZeros (Nat.toDigits 10 d.1) d.2
        layOut k.1 k.2
    String.ofList (sign ++ body)

end Statechart.Binary64
