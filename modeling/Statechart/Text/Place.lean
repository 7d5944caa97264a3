/-!
# Places in a text

A place counts what stands before it: line feeds, the characters since the last of them, and
bytes of UTF-8. Lines and columns start at one. A span is the visible part of a place.

Main statement: `Place.advance_append`, places add up along a text.
-/

namespace Statechart

/-- The line and column of a construct, both counted from one. -/
structure Span where
  line : Nat
  column : Nat
  deriving DecidableEq, Repr, Inhabited

/-- Written as `line:column`. -/
def Span.text (s : Span) : String :=
  toString s.line ++ ":" ++ toString s.column

/-- A place in a text: its span and the number of bytes before it. -/
structure Place extends Span where
  offset : Nat
  deriving DecidableEq, Repr, Inhabited

namespace Place

/-- Where every text starts. -/
def start : Place := ⟨⟨1, 1⟩, 0⟩

/-- The place after one more character; only a line feed ends a line. -/
def next (p : Place) (c : Char) : Place :=
  if c == '\n' then ⟨⟨p.line + 1, 1⟩, p.offset + c.utf8Size⟩
  else ⟨⟨p.line, p.column + 1⟩, p.offset + c.utf8Size⟩

/-- The place after some more text. -/
def advance (p : Place) (cs : List Char) : Place :=
  cs.foldl next p

@[simp] theorem advance_nil (p : Place) : p.advance [] = p := rfl

@[simp] theorem advance_cons (p : Place) (c : Char) (cs : List Char) :
    p.advance (c :: cs) = (p.next c).advance cs := rfl

theorem advance_append (p : Place) (xs ys : List Char) :
    p.advance (xs ++ ys) = (p.advance xs).advance ys :=
  List.foldl_append

end Place

end Statechart
