import Statechart.Number.Power
import Statechart.Text.Blank
import Statechart.Text.Digit
import Statechart.Text.Quote

/-!
# Numerals

A numeral may have at most `digitLimit` decimal digits, leading zeros counted; a longer one is
refused by its number of digits, whether it is read or written.

An integer read from configuration or from the command line may carry a sign and surrounding
space, may be written in the digits of any script, and may have single underscores between its
digits. Its digits are counted before what stands after them is looked at.

Main statement: `natOfDigits_append`, the digits of a number written one after the other.
-/

namespace Statechart.Text

/-- The most digits that a numeral may have. -/
def digitLimit : Nat := 4300

/-- The number that decimal digits write, in any script; other characters count as zero. -/
def natOfDigits (cs : List Char) : Nat :=
  cs.foldl (fun n c => 10 * n + (decimalValue? c).getD 0) 0

theorem foldl_digits_shift (cs : List Char) (m : Nat) :
    cs.foldl (fun n c => 10 * n + (decimalValue? c).getD 0) m =
      tenPower cs.length * m + natOfDigits cs := by
  unfold natOfDigits
  induction cs generalizing m with
  | nil => simp [tenPower_zero]
  | cons c r ih =>
    simp only [List.foldl_cons, List.length_cons]
    rw [ih, ih (10 * 0 + _), tenPower_succ]
    simp [Nat.mul_add, Nat.mul_assoc, Nat.mul_left_comm, Nat.add_assoc]

theorem natOfDigits_append (xs ys : List Char) :
    natOfDigits (xs ++ ys) = tenPower ys.length * natOfDigits xs + natOfDigits ys := by
  unfold natOfDigits
  rw [List.foldl_append, foldl_digits_shift]
  rfl

/-- Why a text is no integer, or an integer has no text. -/
inductive NumeralError
  /-- The text has more digits than a numeral may have. -/
  | tooLong (digits : Nat)
  /-- The integer needs more digits than a numeral may have. -/
  | tooLarge
  /-- The text is not written as an integer. -/
  | malformed (text : String)
  deriving DecidableEq, Repr

/-- The advice that goes with both refusals. -/
def limitAdvice : String := "use sys.set_int_max_str_digits() to increase the limit"

/-- The refusal in words; a text that is no integer is shown up to its 200th character. -/
def NumeralError.message : NumeralError → String
  | tooLong n =>
    "Exceeds the limit (" ++ toString digitLimit ++
      " digits) for integer string conversion: value has " ++ toString n ++ " digits; " ++
      limitAdvice
  | tooLarge =>
    "Exceeds the limit (" ++ toString digitLimit ++
      " digits) for integer string conversion; " ++ limitAdvice
  | malformed s =>
    "invalid literal for int() with base 10: " ++ String.ofList ((quote s).toList.take 200)

/-- The number that a run of ASCII digits writes. -/
def readNat (s : String) : Except NumeralError Nat :=
  let n := s.toList.length
  if digitLimit < n then .error (.tooLong n) else .ok (natOfDigits s.toList)

/-- An integer in decimal. -/
def showInt (n : Int) : Except NumeralError String :=
  if tenPower digitLimit ≤ n.natAbs then .error .tooLarge else .ok (toString n)

/-- The space that may surround a number: the blanks but for the information separators. -/
def isNumberSpace (c : Char) : Bool :=
  isBlank c && !(0x1C ≤ c.toNat && c.toNat ≤ 0x1F)

/-- The digits of a text that holds digits and single underscores between them. -/
def groupedDigits? : List Char → Option (List Char)
  | [] => none
  | [c] => (decimalValue? c).map fun _ => [c]
  | c :: '_' :: r => do
    let _ ← decimalValue? c
    return c :: (← groupedDigits? r)
  | c :: r => do
    let _ ← decimalValue? c
    return c :: (← groupedDigits? r)

/-- A sign and the text after it: whether the number is negative. -/
def splitSign : List Char → Bool × List Char
  | '-' :: r => (true, r)
  | '+' :: r => (false, r)
  | r => (false, r)

/-- Whether a character is a digit or an underscore. -/
def isGroupedDigit (c : Char) : Bool := c == '_' || (decimalValue? c).isSome

/-- The integer that a text writes. A text with too many digits at its front is refused for their
number, whatever follows them. -/
def readInt (s : String) : Except NumeralError Int :=
  let (negative, body) := splitSign (s.toList.dropWhile isNumberSpace)
  match groupedDigits? (body.takeWhile isGroupedDigit) with
  | none => .error (.malformed s)
  | some ds =>
    if digitLimit < ds.length then .error (.tooLong ds.length)
    else if (body.dropWhile isGroupedDigit).all isNumberSpace then
      .ok (if negative then -(natOfDigits ds : Int) else natOfDigits ds)
    else .error (.malformed s)

end Statechart.Text
