import Statechart.Number.Binary64
import Statechart.Text.Numeral

/-!
# Reading real numbers

A real number may be written with a sign, in the digits of any script, with single underscores
between digits, with a decimal point and with an exponent; one side of the point may be empty.
Infinity and the number of no value are written by name, in any case. Space may surround all of
it.
-/

namespace Statechart.Binary64

open Text (decimalValue? natOfDigits isNumberSpace trimWhile splitSign)

/-- The digits at the front of a text that goes on after a digit, and the rest. -/
def moreDigits : List Char → List Char × List Char
  | [] => ([], [])
  | '_' :: c :: r =>
    if (decimalValue? c).isSome then
      let k := moreDigits r
      (c :: k.1, k.2)
    else ([], '_' :: c :: r)
  | c :: r =>
    if (decimalValue? c).isSome then
      let k := moreDigits r
      (c :: k.1, k.2)
    else ([], c :: r)

/-- The digits at the front of a text, and the rest. -/
def digitRun : List Char → List Char × List Char
  | [] => ([], [])
  | c :: r =>
    if (decimalValue? c).isSome then
      let k := moreDigits r
      (c :: k.1, k.2)
    else ([], c :: r)

/-- The lower case of an ASCII letter. -/
def lowerLetter (c : Char) : Char :=
  if 'A' ≤ c ∧ c ≤ 'Z' then Char.ofNat (c.toNat + 32) else c

/-- The exponent that a text consists of; no text is the exponent zero. -/
def readExponent? : List Char → Option Int
  | [] => some 0
  | e :: r =>
    if e == 'e' || e == 'E' then
      let (negative, body) := splitSign r
      let k := digitRun body
      if k.1.isEmpty || !k.2.isEmpty then none
      else some (if negative then -(natOfDigits k.1 : Int) else natOfDigits k.1)
    else none

/-- The digits after a decimal point at the front of a text, if there is a point, and the
rest. -/
def fractionRun : List Char → List Char × List Char
  | '.' :: r => digitRun r
  | r => ([], r)

/-- The number that a text without sign writes in digits. -/
def readDigits? (negative : Bool) (cs : List Char) : Option Binary64 := do
  let whole := digitRun cs
  let fraction := fractionRun whole.2
  if whole.1.isEmpty && fraction.1.isEmpty then none
  else
    let exponent ← readExponent? fraction.2
    return ofDecimal negative (natOfDigits (whole.1 ++ fraction.1))
      (exponent - fraction.1.length)

/-- The number that a text writes. -/
def read? (s : String) : Option Binary64 :=
  let (negative, body) := splitSign (trimWhile isNumberSpace s.toList)
  let word := String.ofList (body.map lowerLetter)
  if word == "inf" || word == "infinity" then some (infinity negative)
  else if word == "nan" then some nan
  else readDigits? negative body

end Statechart.Binary64
