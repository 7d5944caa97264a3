import Statechart.Text.CodePoint

/-!
# XML documents

A small model of XML: elements that hold other nodes, elements that hold text, and comments. A
document is written with one node on a line, indented by two spaces for each level; an element
that holds text stays on one line with it.

Text, attribute values and comments may hold any character but the control characters that XML
excludes and U+FFFE and U+FFFF (`isXmlText`). Comments are written as they are: whoever builds
one sees to it that no two hyphens stand together (`spaceHyphens`).
-/

namespace Statechart.Export

open Text (CodePoint CodePoints)

/-- An XML node. -/
inductive Xml
  /-- An element with other nodes inside. -/
  | element (name : String) (attributes : List (String × String)) (children : List Xml)
  /-- An element without attributes and with text inside. -/
  | textElement (name text : String)
  /-- A comment. -/
  | comment (text : String)
  deriving Repr, Inhabited

/-- Whether XML admits the character. -/
def isXmlChar (c : Char) : Bool :=
  let n := c.toNat
  n == 9 || n == 10 || n == 13 || (0x20 ≤ n && n != 0xFFFE && n != 0xFFFF)

/-- Whether XML admits all characters of the text. -/
def isXmlText (s : String) : Bool := s.toList.all isXmlChar

/-! ## Hyphens in comments -/

/-- The text with a space between any two hyphens that stand together. -/
def spaceHyphens : CodePoints → CodePoints
  | .char '-' :: .char '-' :: ps => .char '-' :: .char ' ' :: spaceHyphens (.char '-' :: ps)
  | p :: ps => p :: spaceHyphens ps
  | [] => []

/-- A text as the inside of a comment. -/
def commentText (ps : CodePoints) : CodePoints :=
  .char ' ' :: (spaceHyphens ps ++ [.char ' '])

/-! ## Writing -/

/-- A character of a text. -/
def escapeText (c : Char) : List Char :=
  match c with
  | '&' => "&amp;".toList
  | '<' => "&lt;".toList
  | '>' => "&gt;".toList
  | '\r' => "&#13;".toList
  | c => [c]

/-- A character of an attribute value. -/
def escapeAttribute (c : Char) : List Char :=
  match c with
  | '\x22' => "&quot;".toList
  | '\t' => "&#9;".toList
  | '\n' => "&#10;".toList
  | c => escapeText c

/-- A name and a value, as they stand in a tag. -/
def writeAttribute (a : String × String) : String :=
  " " ++ a.1 ++ "=\"" ++ String.ofList (a.2.toList.flatMap escapeAttribute) ++ "\""

/-- The indentation of a level. -/
def indent (depth : Nat) : String := String.ofList (List.replicate (2 * depth) ' ')

mutual

/-- A node at a level, with the end of its last line. -/
def Xml.write (depth : Nat) : Xml → String
  | .comment t => indent depth ++ "<!--" ++ t ++ "-->\n"
  | .textElement name t =>
    indent depth ++ "<" ++ name ++ ">" ++ String.ofList (t.toList.flatMap escapeText) ++
      "</" ++ name ++ ">\n"
  | .element name attributes children =>
    let tag := name ++ String.join (attributes.map writeAttribute)
    match children with
    | [] => indent depth ++ "<" ++ tag ++ "/>\n"
    | x :: xs =>
      indent depth ++ "<" ++ tag ++ ">\n" ++ Xml.write (depth + 1) x ++ writeAll (depth + 1) xs ++
        indent depth ++ "</" ++ name ++ ">\n"

/-- Nodes at a level, one after the other. -/
def writeAll (depth : Nat) : List Xml → String
  | [] => ""
  | x :: xs => Xml.write depth x ++ writeAll depth xs

end

/-- A document with the given root. -/
def document (root : Xml) : String :=
  "<?xml version='1.0' encoding='UTF-8'?>\n" ++ root.write 0

end Statechart.Export
