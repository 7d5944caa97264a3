/-!
# UTF-8

Bytes are decoded strictly: a byte that starts no character, a character that is broken off by
another byte, and one that is broken off by the end are errors, each with the place and length
of what was seen of the character. Overlong forms, surrogates and numbers beyond U+10FFFF break
off at the byte that makes them so.

Text that was read from a file has its line ends made uniform: carriage returns, alone or before
a line feed, become line feeds.
-/

namespace Statechart.Text

/-- What is wrong with a sequence of bytes. -/
inductive Utf8Problem
  | invalidStart
  | invalidContinuation
  | endOfData
  deriving DecidableEq, Repr

/-- The problem in words. -/
def Utf8Problem.words : Utf8Problem → String
  | invalidStart => "invalid start byte"
  | invalidContinuation => "invalid continuation byte"
  | endOfData => "unexpected end of data"

/-- A place where bytes are no text: the byte there and its position, how many bytes were seen of
the character, and what is wrong. -/
structure Utf8Error where
  byte : UInt8
  position : Nat
  length : Nat
  problem : Utf8Problem
  deriving DecidableEq, Repr

/-- A byte in two hexadecimal digits. -/
def hexByte (b : UInt8) : String :=
  String.ofList [Nat.digitChar (b.toNat / 16), Nat.digitChar (b.toNat % 16)]

/-- The error in words. -/
def Utf8Error.message (e : Utf8Error) : String :=
  "'utf-8' codec can't decode " ++
    (if e.length = 1 then "byte 0x" ++ hexByte e.byte ++ " in position " ++ toString e.position
     else "bytes in position " ++ toString e.position ++ "-" ++
       toString (e.position + e.length - 1)) ++ ": " ++ e.problem.words

/-- The bounds of the byte after a first byte. -/
def secondBounds (b : UInt8) : Nat × Nat :=
  if b = 0xE0 then (0xA0, 0xBF)
  else if b = 0xED then (0x80, 0x9F)
  else if b = 0xF0 then (0x90, 0xBF)
  else if b = 0xF4 then (0x80, 0x8F)
  else (0x80, 0xBF)

/-- How many bytes follow a first byte, and what it adds to the number of the character. -/
def leadByte? (b : UInt8) : Option (Nat × Nat) :=
  let n := b.toNat
  if n < 0x80 then some (0, n)
  else if n < 0xC2 then none
  else if n < 0xE0 then some (1, n - 0xC0)
  else if n < 0xF0 then some (2, n - 0xE0)
  else if n < 0xF5 then some (3, n - 0xF0)
  else none

/-- Reads the bytes after the first: the number of the character, or how many bytes were seen
and what is wrong. -/
def continueChar (bounds : Nat × Nat) (number seen : Nat) :
    Nat → List UInt8 → Except (Nat × Utf8Problem) Nat
  | 0, _ => .ok number
  | _ + 1, [] => .error (seen, .endOfData)
  | n + 1, b :: bs =>
    if bounds.1 ≤ b.toNat ∧ b.toNat ≤ bounds.2 then
      continueChar (0x80, 0xBF) (64 * number + (b.toNat - 0x80)) (seen + 1) n bs
    else .error (seen, .invalidContinuation)

/-- Decodes bytes that stand from the given position on. -/
def decodeUtf8From (position : Nat) (bytes : List UInt8) : Except Utf8Error (List Char) :=
  match bytes with
  | [] => .ok []
  | b :: bs =>
    match leadByte? b with
    | none => .error ⟨b, position, 1, .invalidStart⟩
    | some (more, number) =>
      match continueChar (secondBounds b) number 1 more bs with
      | .error (seen, problem) => .error ⟨b, position, seen, problem⟩
      | .ok n => do
        return Char.ofNat n :: (← decodeUtf8From (position + 1 + more) (bs.drop more))
termination_by bytes.length
decreasing_by
  simp only [List.length_drop, List.length_cons]
  omega

/-- Decodes bytes. -/
def decodeUtf8 (bytes : List UInt8) : Except Utf8Error (List Char) := decodeUtf8From 0 bytes

/-- The text with line feeds for line ends. -/
def uniformLines : List Char → List Char
  | '\r' :: '\n' :: cs => '\n' :: uniformLines cs
  | '\r' :: cs => '\n' :: uniformLines cs
  | c :: cs => c :: uniformLines cs
  | [] => []

/-- The text that the bytes of a file hold. -/
def ofBytes (bytes : List UInt8) : Except Utf8Error String := do
  return String.ofList (uniformLines (← decodeUtf8 bytes))

end Statechart.Text
