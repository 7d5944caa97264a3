import Statechart.Grammar.Lexeme
import Statechart.Grammar.Stage
import Statechart.Text.Quote

/-!
# Reading a description

The reader passes over white space and comments and cuts off one word after the other, asking
the stage it is in which words are wanted. It stops at the first place where no wanted word
stands, or where the word found does not fit, and says what would have fitted there.

* Where a wanted word was found, or the text ends, all words of the stage are expected.
* Where no wanted word was found, those are expected that were looked for: where an identifier
  is wanted, keywords are not looked for on their own.
-/

namespace Statechart.Grammar

/-- What stands at the place where reading stopped. -/
inductive Finding
  /-- A word that does not fit. -/
  | word (text : String)
  /-- A character that starts no word. -/
  | character (c : Char)
  /-- The end of the text. -/
  | endOfInput
  deriving DecidableEq, Repr

/-- The first place where a text leaves the grammar. -/
structure SyntaxError where
  finding : Finding
  place : Place
  expected : List String
  deriving DecidableEq, Repr

namespace Finding

/-- The text that was found. -/
def text : Finding → String
  | word s => s
  | character c => String.singleton c
  | endOfInput => ""

/-- The finding in words. -/
def message : Finding → String
  | word s => "unexpected " ++ Text.quote s
  | character c => "unexpected character " ++ Text.quote (String.singleton c)
  | endOfInput => "unexpected end of input"

end Finding

namespace SyntaxError

/-- The error in words, without its place. -/
def detail (e : SyntaxError) : String := e.finding.message

/-- The error in words, with its place and what was expected. -/
def message (e : SyntaxError) : String :=
  "line " ++ toString e.place.line ++ ", column " ++ toString e.place.column ++ ": " ++ e.detail ++
    if e.expected.isEmpty then ""
    else " (expected one of: " ++ ", ".intercalate e.expected ++ ")"

end SyntaxError

/-! ## What was expected -/

/-- Puts a text into an increasing list, unless it is there. -/
def insertText (s : String) : List String → List String
  | [] => [s]
  | x :: xs => if s < x then s :: x :: xs else if s = x then x :: xs else x :: insertText s xs

/-- The descriptions of the terminals, in increasing order. -/
def describe (ts : List Terminal) : List String :=
  ts.foldr (fun t xs => insertText t.description xs) []

/-- The terminals that are looked for on their own. -/
def searched (wanted : List Terminal) : List Terminal :=
  if wanted.contains .name then wanted.filter (!·.isKeyword) else wanted

/-- The descriptions of what is looked for; past the end of a machine that is only the end. -/
def describeSearched (wanted : List Terminal) : List String :=
  if wanted.isEmpty then ["<END-OF-FILE>"] else describe (searched wanted)

/-! ## The reader -/

/-- The error at a place where no wanted word stands. -/
def strayText (s : Stage) (p : Place) (c : Char) (cs : List Char) : SyntaxError :=
  match lexeme? Terminal.all (c :: cs) with
  | some (_, k) => ⟨.word (String.ofList k.1), p, describeSearched s.expected⟩
  | none => ⟨.character c, p, describeSearched s.expected⟩

/-- Reads the rest of a description from a stage and a place. -/
def readFrom (s : Stage) (p : Place) (cs : List Char) : Except SyntaxError Machine :=
  match cs with
  | [] =>
    match s with
    | .finished m => .ok m
    | s => .error ⟨.endOfInput, p, describe s.expected⟩
  | c :: r =>
    match hskip : skip? (c :: r) with
    | some k =>
      have := (skip?_split hskip).length_lt
      readFrom s (p.advance k.1) k.2
    | none =>
      match hword : lexeme? s.expected (c :: r) with
      | some (t, k) =>
        match s.next ⟨t, String.ofList k.1, p.toSpan⟩ with
        | .ok s' =>
          have := (lexeme?_split hword).length_lt
          readFrom s' (p.advance k.1) k.2
        | .error stuck =>
          .error ⟨.word (String.ofList k.1), p, describe stuck.expected⟩
      | none => .error (strayText s p c r)
termination_by cs.length
decreasing_by all_goals assumption

/-- The syntax tree of a description, or the first place where it leaves the grammar. -/
def read (text : String) : Except SyntaxError Machine :=
  readFrom .start .start text.toList

end Statechart.Grammar
