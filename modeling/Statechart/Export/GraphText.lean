import Statechart.Export.Graph
import Statechart.Text.Quote

/-!
# Graphs in text

A graph is written as a record of two lists of records, one field a line, each level indented by
two more spaces. Texts stand between double quotes; characters outside printable ASCII are
escaped by their UTF-16 units, and surrogates by themselves.
-/

namespace Statechart.Export

open Text (hexDigits CodePoint CodePoints codePoints)

/-- A UTF-16 unit as an escape. -/
def escapeUnit (n : Nat) : List Char := '\\' :: 'u' :: hexDigits 4 n

/-- One character as it is written in a text. -/
def escapeAscii (c : Char) : List Char :=
  if c == '\x22' || c == '\\' then ['\\', c]
  else if c == '\n' then ['\\', 'n']
  else if c == '\r' then ['\\', 'r']
  else if c == '\t' then ['\\', 't']
  else if c == '\x08' then ['\\', 'b']
  else if c == '\x0c' then ['\\', 'f']
  else if 0x20 ≤ c.toNat && c.toNat < 0x7F then [c]
  else if c.toNat < 0x10000 then escapeUnit c.toNat
  else
    let n := c.toNat - 0x10000
    escapeUnit (0xD800 + n / 0x400) ++ escapeUnit (0xDC00 + n % 0x400)

/-- One code point as it is written in a text. -/
def escapePoint : CodePoint → List Char
  | .char c => escapeAscii c
  | .surrogate n => escapeUnit (CodePoint.surrogate n).toNat

/-- A text between double quotes. -/
def asciiText (ps : CodePoints) : String :=
  String.ofList ('\x22' :: ps.flatMap escapePoint ++ ['\x22'])

/-- Two spaces for each level. -/
def indentation (level : Nat) : String := String.ofList (List.replicate (2 * level) ' ')

/-- Parts of a list or a record, between its brackets, one part a line. -/
def bracketed (left right : String) (level : Nat) : List String → String
  | [] => left ++ right
  | parts =>
    let gap := "\n" ++ indentation (level + 1)
    left ++ gap ++ ("," ++ gap).intercalate parts ++ "\n" ++ indentation level ++ right

/-- A field of a record. -/
def fieldText (name value : String) : String := asciiText name ++ ": " ++ value

/-- A record whose fields are texts. -/
def recordText (level : Nat) (fields : List (String × CodePoints)) : String :=
  bracketed "\x7b" "\x7d" level (fields.map fun f => fieldText f.1 (asciiText f.2))

/-- A list of records. -/
def recordsText (level : Nat) (records : List (List (String × CodePoints))) : String :=
  bracketed "[" "]" level (records.map (recordText (level + 1)))

/-- The fields of a node. -/
def GraphNode.fields (n : GraphNode) : List (String × CodePoints) :=
  [("id", n.id), ("label", n.label), ("kind", n.kind.word)]

/-- The fields of an edge. -/
def GraphEdge.fields (e : GraphEdge) : List (String × CodePoints) :=
  [("source", e.source), ("target", e.target), ("label", e.label)]

/-- A graph in text. -/
def Graph.text (g : Graph) : String :=
  bracketed "\x7b" "\x7d" 0
    [fieldText "nodes" (recordsText 1 (g.nodes.map GraphNode.fields)),
      fieldText "edges" (recordsText 1 (g.edges.map GraphEdge.fields))]

end Statechart.Export
