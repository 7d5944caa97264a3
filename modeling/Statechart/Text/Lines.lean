/-!
# Line boundaries

A text falls into lines at line feed, carriage return (a carriage return and a line feed
after it are one boundary), vertical tab, form feed, the separators U+001C to U+001E, next
line U+0085 and the line and paragraph separators U+2028 and U+2029. A boundary at the very
end opens no further line.
-/

namespace Statechart.Text

/-- The ten characters that end a line. -/
def isBreak (c : Char) : Bool :=
  let n := c.toNat
  (10 ≤ n && n ≤ 13) || (0x1C ≤ n && n ≤ 0x1E) || n == 0x85 || n == 0x2028 || n == 0x2029

/-- The lines of a text whose current line already holds `line`, the latest character first. -/
def linesFrom (line : List Char) : List Char → List (List Char)
  | [] => if line.isEmpty then [] else [line.reverse]
  | '\r' :: '\n' :: cs => line.reverse :: linesFrom [] cs
  | c :: cs => if isBreak c then line.reverse :: linesFrom [] cs else linesFrom (c :: line) cs

/-- The lines of a text, without their boundaries. -/
def lines (s : String) : List String :=
  (linesFrom [] s.toList).map String.ofList

end Statechart.Text
