import Statechart.Text.CodePoint

/-!
# Description literals

A description is written between double quotes, with backslash escapes: a letter escape, up to
three octal digits, `x`, `u` and `U` with two, four and eight hexadecimal digits, or `N` with the
name of a character in braces. A backslash at a carriage return joins two lines and stands for
nothing; before any other character it stands for itself. A surrogate can be written by its
number.

Which names the characters have is for the reader of a literal to say (`CharacterNames`).

An escape that stands for nothing is told by its place. Places are counted in a form of the literal
in which every character outside ASCII is written by an escape of ten characters
(`plainWidth`).

Main statement: `escape_shorter`, an escape uses up text, so that `unescape` comes to an end.
-/

namespace Statechart.Text

/-- The character of each name. -/
abbrev CharacterNames : Type := String → Option Char

/-! ## Errors -/

/-- What is wrong with an escape. -/
inductive EscapeError
  /-- Nothing follows the backslash. -/
  | cutOff
  /-- Fewer hexadecimal digits follow the letter than are due. -/
  | truncated (letter : Char) (width : Nat)
  /-- The number is too large for a code point. -/
  | illegal
  /-- No name in braces follows. -/
  | malformedName
  /-- No character has the name. -/
  | unknownName
  deriving DecidableEq, Repr

/-- The error in words. -/
def EscapeError.message : EscapeError → String
  | cutOff => "\\ at end of string"
  | truncated letter width =>
    "truncated \\" ++ String.ofList (letter :: List.replicate width 'X') ++ " escape"
  | illegal => "illegal Unicode character"
  | malformedName => "malformed \\N character escape"
  | unknownName => "unknown Unicode character name"

/-- An escape that stands for nothing, and how many characters after the backslash it takes
up. -/
structure BadEscape where
  error : EscapeError
  taken : Nat
  deriving DecidableEq, Repr

/-- An escape that stands for nothing, and how many characters there are from its backslash on. -/
structure BadText extends BadEscape where
  left : Nat
  deriving DecidableEq, Repr

/-- Why a literal stands for no text. -/
inductive LiteralError
  /-- The literal holds the character U+0000. -/
  | nullCharacter
  /-- The literal breaks off on one of its lines: at a bare carriage return, or because its last
  quote is escaped. -/
  | unterminated (line : Nat)
  /-- An escape stands for nothing; its place is from the first to the last character in the plain
  form of the literal, whose last line this is. -/
  | escape (error : EscapeError) (first last line : Nat)
  deriving DecidableEq, Repr

/-- The error in words. -/
def LiteralError.message : LiteralError → String
  | nullCharacter => "source code string cannot contain null bytes"
  | unterminated line =>
    "unterminated string literal (detected at line " ++ toString line ++ ") (<unknown>, line 1)"
  | escape error first last line =>
    "(unicode error) 'unicodeescape' codec can't decode bytes in position " ++ toString first ++
      "-" ++ toString last ++ ": " ++ error.message ++ " (<unknown>, line " ++ toString line ++ ")"

/-! ## Escapes -/

/-- The value of an octal digit. -/
def octalValue? (c : Char) : Option Nat :=
  if '0' ≤ c ∧ c ≤ '7' then some (c.toNat - 48) else none

/-- The value of a hexadecimal digit of either case. -/
def hexValue? (c : Char) : Option Nat :=
  if '0' ≤ c ∧ c ≤ '9' then some (c.toNat - 48)
  else if 'a' ≤ c ∧ c ≤ 'f' then some (c.toNat - 87)
  else if 'A' ≤ c ∧ c ≤ 'F' then some (c.toNat - 55)
  else none

/-- The number that hexadecimal digits write; other characters count as zero. -/
def hexNumber (cs : List Char) : Nat :=
  cs.foldl (fun n c => 16 * n + (hexValue? c).getD 0) 0

/-- The hexadecimal digits at the front of a text, at most `width` of them. -/
def hexRun (width : Nat) (cs : List Char) : List Char :=
  (cs.take width).takeWhile fun c => (hexValue? c).isSome

/-- A code point written by exactly `width` hexadecimal digits after a letter, and the text after
them. -/
def hexEscape (letter : Char) (width : Nat) (cs : List Char) :
    Except BadEscape (CodePoints × List Char) :=
  if (hexRun width cs).length < width then
    .error ⟨.truncated letter width, 1 + (hexRun width cs).length⟩
  else
    match CodePoint.ofNat? (hexNumber (hexRun width cs)) with
    | some p => .ok ([p], cs.drop width)
    | none => .error ⟨.illegal, 1 + width⟩

/-- A character written by one to three octal digits of which the first has value `n`. -/
def octalEscape (n : Nat) : List Char → CodePoints × List Char
  | [] => ([.char (Char.ofNat n)], [])
  | c :: cs =>
    match octalValue? c with
    | none => ([.char (Char.ofNat n)], c :: cs)
    | some d =>
      match cs with
      | [] => ([.char (Char.ofNat (8 * n + d))], [])
      | e :: es =>
        match octalValue? e with
        | none => ([.char (Char.ofNat (8 * n + d))], e :: es)
        | some f => ([.char (Char.ofNat (8 * (8 * n + d) + f))], es)

/-- The text up to a closing brace. -/
def braced (cs : List Char) : List Char := cs.takeWhile (· != '\x7d')

/-- A character written by its name in braces, and the text after them. -/
def nameEscape (names : CharacterNames) :
    List Char → Except BadEscape (CodePoints × List Char)
  | '\x7b' :: cs =>
    if (braced cs).length = cs.length then .error ⟨.malformedName, 2 + cs.length⟩
    else if (braced cs).isEmpty then .error ⟨.malformedName, 2⟩
    else
      match names (String.ofList (braced cs)) with
      | some c => .ok ([.char c], cs.drop ((braced cs).length + 1))
      | none => .error ⟨.unknownName, 3 + (braced cs).length⟩
  | _ => .error ⟨.malformedName, 1⟩

/-- The escape after a backslash: what it stands for, and the text after it. -/
def escape (names : CharacterNames) : List Char → Except BadEscape (CodePoints × List Char)
  | [] => .error ⟨.cutOff, 0⟩
  | c :: cs =>
    match c with
    | '\\' => .ok ([.char '\\'], cs)
    | '\x27' => .ok ([.char '\x27'], cs)
    | '\x22' => .ok ([.char '\x22'], cs)
    | 'a' => .ok ([.char '\x07'], cs)
    | 'b' => .ok ([.char '\x08'], cs)
    | 'f' => .ok ([.char '\x0c'], cs)
    | 'n' => .ok ([.char '\n'], cs)
    | 'r' => .ok ([.char '\r'], cs)
    | 't' => .ok ([.char '\t'], cs)
    | 'v' => .ok ([.char '\x0b'], cs)
    | '\r' => .ok ([], cs)
    | 'x' => hexEscape 'x' 2 cs
    | 'u' => hexEscape 'u' 4 cs
    | 'U' => hexEscape 'U' 8 cs
    | 'N' => nameEscape names cs
    | c =>
      match octalValue? c with
      | some n => .ok (octalEscape n cs)
      | none => .ok ([.char '\\', .char c], cs)

theorem length_octalEscape (n : Nat) (cs : List Char) :
    (octalEscape n cs).2.length ≤ cs.length := by
  unfold octalEscape
  split
  · simp
  · split
    · simp
    · split
      · simp
      · split
        all_goals
          simp only [List.length_cons]
          omega

section

variable {out : CodePoints} {rest : List Char}

theorem length_hexEscape {letter : Char} {width : Nat} {cs : List Char}
    (h : hexEscape letter width cs = .ok (out, rest)) : rest.length ≤ cs.length := by
  unfold hexEscape at h
  split at h
  · cases h
  · split at h
    · cases h
      simp
    · cases h

theorem length_nameEscape {names : CharacterNames} {cs : List Char}
    (h : nameEscape names cs = .ok (out, rest)) : rest.length ≤ cs.length := by
  unfold nameEscape at h
  split at h
  · split at h
    · cases h
    · split at h
      · cases h
      · split at h
        · cases h
          simp only [List.length_drop, List.length_cons]
          omega
        · cases h
  · cases h

theorem escape_shorter {names : CharacterNames} {cs : List Char}
    (h : escape names cs = .ok (out, rest)) : rest.length < cs.length := by
  unfold escape at h
  split at h
  · cases h
  · rename_i c cs
    have hhex {x w} (hw : hexEscape x w cs = .ok (out, rest)) : rest.length < (c :: cs).length :=
      Nat.lt_succ_of_le (length_hexEscape hw)
    have hone {x} (hx : Except.ok (x, cs) = (.ok (out, rest) : Except BadEscape _)) :
        rest.length < (c :: cs).length := by
      cases hx
      simp
    split at h
    case h_16 =>
      split at h
      · have := length_octalEscape ‹Nat› cs
        rw [Except.ok.inj h] at this
        exact Nat.lt_succ_of_le this
      · exact hone h
    case h_12 => exact hhex h
    case h_13 => exact hhex h
    case h_14 => exact hhex h
    case h_15 => exact Nat.lt_succ_of_le (length_nameEscape h)
    all_goals exact hone h

end

/-! ## Literals -/

/-- The text that the inside of a literal stands for. -/
def unescape (names : CharacterNames) (cs : List Char) : Except BadText CodePoints :=
  match cs with
  | [] => .ok []
  | '\\' :: r =>
    match h : escape names r with
    | .error e => .error { e with left := r.length + 1 }
    | .ok (out, rest) =>
      have := escape_shorter h
      (unescape names rest).map (out ++ ·)
  | c :: r => (unescape names r).map (.char c :: ·)
termination_by cs.length

/-- The line on which the inside of a literal breaks off, if it does. -/
def breakOff? (line : Nat) : List Char → Option Nat
  | [] => none
  | ['\\'] => some line
  | '\\' :: c :: cs => breakOff? (if c = '\r' then line + 1 else line) cs
  | c :: cs => if c = '\r' then some line else breakOff? line cs

/-- The length of a piece of a literal in its plain form; a backslash before a character that is
escaped there is escaped as well. -/
def plainWidth : List Char → Nat
  | [] => 0
  | '\\' :: c :: cs => (if c.toNat < 0x80 then 2 else 16) + plainWidth cs
  | c :: cs => (if c.toNat < 0x80 then 1 else 10) + plainWidth cs

/-- The error of the inside of a literal, told by its place. -/
def BadText.locate (e : BadText) (inside : List Char) : LiteralError :=
  let start := inside.length - e.left
  .escape e.error (plainWidth (inside.take start))
    (plainWidth (inside.take (start + 1 + e.taken)) - 1) (1 + inside.count '\r')

/-- The text that a literal with its two quotes stands for. -/
def ofLiteral (names : CharacterNames) (s : String) : Except LiteralError CodePoints :=
  let inside := (s.toList.drop 1).dropLast
  if inside.contains '\x00' then .error .nullCharacter
  else
    match breakOff? 1 inside with
    | some line => .error (.unterminated line)
    | none => (unescape names inside).mapError (·.locate inside)

end Statechart.Text
