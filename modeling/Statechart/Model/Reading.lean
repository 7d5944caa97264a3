import Statechart.Grammar.Reader
import Statechart.Model.Declaration
import Statechart.Text.Blank
import Statechart.Text.Literal
import Statechart.Text.Numeral

/-!
# From text to declarations

A description is read into a syntax tree, and the tree into a declaration: names and actions are
taken over, actions and the insides of conditions are trimmed, descriptions are read as
literals and durations as numerals. The first literal or numeral that cannot be read, in the
order of the text, is the error. A literal may name characters, so the reader brings their names
along.
-/

namespace Statechart

/-- Why a text has no declaration. -/
inductive ReadError
  /-- The text is no machine description. -/
  | grammar (error : Grammar.SyntaxError)
  /-- A description is no literal. -/
  | literal (error : Text.LiteralError)
  /-- A duration is no numeral. -/
  | numeral (error : Text.NumeralError)
  deriving DecidableEq, Repr

/-- The error in words. -/
def ReadError.message : ReadError → String
  | grammar e => e.message
  | literal e => e.message
  | numeral e => e.message

namespace Declaration

open Grammar (Token HookLine HookKind Item Machine)

/-- The text inside the brackets of a condition. -/
def condition (t : Token) : String :=
  String.ofList (Text.trimList ((t.text.toList.drop 1).dropLast))

/-- The action texts of an action list. -/
def actions (ts : List Token) : List String := ts.map fun t => Text.trim t.text

/-- The action texts of the lines of one kind, in their order. -/
def hookActions (kind : HookKind) (lines : List HookLine) : List String :=
  (lines.filter (·.kind == kind)).flatMap fun l => actions l.actions

/-- The branch that a line declares. -/
def branch (b : Grammar.BranchLine) : Branch :=
  { condition := if b.marker.kind = .elseMark then none else some (condition b.marker)
    target := b.target.text
    actions := (b.actions.map actions).getD []
    span := some b.marker.span }

/-- The state that an item declares. -/
def state (names : Text.CharacterNames) (s : Grammar.StateItem) : Except ReadError State := do
  let description ← match s.description with
    | none => pure none
    | some t => (Text.ofLiteral names t.text).mapError ReadError.literal |>.map some
  let hooks := s.hooks.getD []
  return { id := s.id.text, description, entry := hookActions .entry hooks,
           exit := hookActions .exit hooks, span := some s.id.span }

/-- The transition that an item declares. -/
def transition (t : Grammar.TransitionItem) : Transition :=
  { source := t.source.text
    target := t.target.text
    event := t.event.map (·.text)
    guard := t.guard.map condition
    actions := (t.actions.map actions).getD []
    span := some t.source.span }

/-- The timer that an item declares. -/
def timer (t : Grammar.TimerItem) : Except ReadError Timer := do
  let duration ← (Text.readNat t.duration.text).mapError ReadError.numeral
  return { id := t.id.text, duration := duration, event := t.event.text,
           periodic := t.periodic.isSome, span := some t.id.span }

/-- The choice that an item declares. -/
def choice (c : Grammar.ChoiceItem) : Choice :=
  { id := c.id.text, branches := c.branches.map branch, span := some c.id.span }

/-- The declaration with one more item. -/
def addItem (names : Text.CharacterNames) (d : Declaration) :
    Item → Except ReadError Declaration
  | .initial i => .ok { d with initial := d.initial ++ [⟨i.target.text, some i.mark.span⟩] }
  | .state s => do return { d with states := d.states ++ [← state names s] }
  | .transition t => .ok { d with transitions := d.transitions ++ [transition t] }
  | .timer t => do return { d with timers := d.timers ++ [← timer t] }
  | .choice c => .ok { d with choices := d.choices ++ [choice c] }

/-- The declaration of a syntax tree. -/
def ofTree (names : Text.CharacterNames) (m : Machine) : Except ReadError Declaration :=
  m.items.foldlM (addItem names)
    { name := m.name.text, initial := [], states := [], choices := [], transitions := [],
      timers := [], span := some m.name.span }

/-- The declaration that a text describes. -/
def read (names : Text.CharacterNames) (text : String) : Except ReadError Declaration := do
  ofTree names (← (Grammar.read text).mapError .grammar)

end Declaration

end Statechart
