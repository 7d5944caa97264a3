import Statechart.Text.Printable

/-!
# Quoted text

A text is shown between quotes on one line. The quote is the apostrophe unless the text holds
an apostrophe and no double quote. The quote and the backslash are escaped by a backslash, line
feed, carriage return and tabulator have letter escapes, and any other character that is not
printable is written by its number, with two, four or eight hexadecimal digits.
-/

namespace Statechart.Text

/-- The apostrophe. -/
def apostrophe : Char := '\x27'

/-- The double quote. -/
def doubleQuote : Char := '\x22'

/-- The last `width` hexadecimal digits of a number, most significant first, in lower case. -/
def hexDigits : Nat → Nat → List Char
  | 0, _ => []
  | width + 1, n => hexDigits width (n / 16) ++ [Nat.digitChar (n % 16)]

/-- The quote that stands around a text. -/
def quoteFor (cs : List Char) : Char :=
  if cs.contains apostrophe && !cs.contains doubleQuote then doubleQuote else apostrophe

/-- One character as it is written between the quotes `q`. -/
def quoteChar (q c : Char) : List Char :=
  if c == q || c == '\\' then ['\\', c]
  else if c == '\n' then ['\\', 'n']
  else if c == '\r' then ['\\', 'r']
  else if c == '\t' then ['\\', 't']
  else if isPrintable c then [c]
  else if c.toNat ≤ 0xFF then '\\' :: 'x' :: hexDigits 2 c.toNat
  else if c.toNat ≤ 0xFFFF then '\\' :: 'u' :: hexDigits 4 c.toNat
  else '\\' :: 'U' :: hexDigits 8 c.toNat

/-- A text between quotes. -/
def quoteList (cs : List Char) : List Char :=
  let q := quoteFor cs
  q :: cs.flatMap (quoteChar q) ++ [q]

/-- A text between quotes. -/
def quote (s : String) : String :=
  String.ofList (quoteList s.toList)

/-- An optional text: quoted, or `None` where there is none. -/
def quote? : Option String → String
  | some s => quote s
  | none => "None"

/-- Quoted texts in square brackets. -/
def quoteListing (ss : List String) : String :=
  "[" ++ ", ".intercalate (ss.map quote) ++ "]"

/-- Quoted texts in round brackets; a single one is followed by a comma. -/
def quoteTuple : List String → String
  | [s] => "(" ++ quote s ++ ",)"
  | ss => "(" ++ ", ".intercalate (ss.map quote) ++ ")"

end Statechart.Text
