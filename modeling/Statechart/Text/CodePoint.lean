import Statechart.Text.Quote

/-!
# Code points

A text is made of characters. A text that was put together from numbers may hold surrogates
besides, the numbers from U+D800 to U+DFFF, which are no characters: they have no form in UTF-8,
and a text that holds one cannot be encoded.
-/

namespace Statechart.Text

/-- A character or a surrogate. -/
inductive CodePoint
  | char (c : Char)
  | surrogate (offset : Fin 0x800)
  deriving DecidableEq, Repr

namespace CodePoint

/-- The number of the code point. -/
def toNat : CodePoint → Nat
  | char c => c.toNat
  | surrogate n => 0xD800 + n

/-- The code point of a number, where there is one. -/
def ofNat? (n : Nat) : Option CodePoint :=
  if n.isValidChar then some (char (Char.ofNat n))
  else if h : 0xD800 ≤ n ∧ n < 0xE000 then some (surrogate ⟨n - 0xD800, by omega⟩)
  else none

/-- The character that the code point is. -/
def char? : CodePoint → Option Char
  | char c => some c
  | surrogate _ => none

end CodePoint

/-- A text that may hold surrogates. -/
abbrev CodePoints : Type := List CodePoint

/-- The code points of a text without surrogates. -/
def codePoints (s : String) : CodePoints := s.toList.map .char

instance : Coe String CodePoints := ⟨codePoints⟩

/-- The text without surrogates that these code points make up. -/
def string? (ps : CodePoints) : Option String :=
  (ps.mapM CodePoint.char?).map String.ofList

/-- The surrogates that a text cannot be encoded for: where the first ones in a row stand, and the
number of the first. -/
structure EncodingError where
  first : Nat
  last : Nat
  number : Nat
  deriving DecidableEq, Repr

/-- The error in words. -/
def EncodingError.message (e : EncodingError) : String :=
  "'utf-8' codec can't encode character" ++
    (if e.first = e.last then
      " '\\u" ++ String.ofList (hexDigits 4 e.number) ++ "' in position " ++ toString e.first
    else "s in position " ++ toString e.first ++ "-" ++ toString e.last) ++
    ": surrogates not allowed"

/-- The first surrogates in a row. -/
def firstSurrogates (ps : CodePoints) : EncodingError :=
  let start := (ps.takeWhile (·.char?.isSome)).length
  let row := (ps.drop start).takeWhile (·.char?.isNone)
  ⟨start, start + row.length - 1, (row.head?.map CodePoint.toNat).getD 0⟩

/-- The text to be encoded, if it holds no surrogates. -/
def encodable (ps : CodePoints) : Except EncodingError String :=
  match string? ps with
  | some s => .ok s
  | none => .error (firstSurrogates ps)

end Statechart.Text
