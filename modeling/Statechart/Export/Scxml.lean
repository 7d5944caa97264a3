import Statechart.Export.Xml
import Statechart.Model.Subject
import Statechart.Model.TimerCommand
import Statechart.Text.Numeral

/-!
# SCXML documents

A definition as a document of the state chart notation SCXML. Choices become states with
conditional transitions, the default branch last. Starting a timer becomes sending its event
with a delay, and stopping it becomes a cancellation; that a timer starts itself again has no
counterpart and is noted in a comment. Other actions become scripts.

A definition that was put together by hand may have no document: a text may hold a character
that XML excludes or, if it is a description, a surrogate; an action may start a timer that is not
declared, or one whose duration has too many digits to be written; a choice may lack its default.
The first of these, in the order of the document, is the error.
-/

namespace Statechart.Export

/-- Why a definition has no document. -/
inductive ScxmlError
  /-- A text holds a character that XML excludes. -/
  | excludedCharacter
  /-- A description holds surrogates. -/
  | surrogates (error : Text.EncodingError)
  /-- An action starts a timer that is not declared. -/
  | unknownTimer (timer : String)
  /-- The duration of a timer that is started cannot be written. -/
  | duration (error : Text.NumeralError)
  /-- A choice has no default branch. -/
  | missingDefault (choice : String)
  /-- What was handed over is no definition. -/
  | foreign (f : Foreign)
  deriving DecidableEq, Repr

/-- The error in words. -/
def ScxmlError.message : ScxmlError → String
  | excludedCharacter =>
    "All strings must be XML compatible: Unicode or ASCII, " ++
      "no NULL bytes or control characters"
  | surrogates e => e.message
  | duration e => e.message
  | unknownTimer _ => MissingPart.message ⟨"NoneType", "event"⟩
  | missingDefault _ => MissingPart.message ⟨"NoneType", "is_default"⟩
  | foreign .declaration => "Argument must be bytes or unicode, got 'list'"
  | foreign f => MissingPart.message ⟨f.kind, "name"⟩

namespace Scxml

/-- The namespace of the notation. -/
def xmlNamespace : String := "http://www.w3.org/2005/07/scxml"

/-- The text, if XML admits it. -/
def admitted (s : String) : Except ScxmlError String :=
  if isXmlText s then .ok s else .error .excludedCharacter

/-- The attribute, if XML admits its value. -/
def attr (name value : String) : Except ScxmlError (String × String) := do
  return (name, ← admitted value)

/-- An optional attribute. -/
def attr? (name : String) : Option String → Except ScxmlError (List (String × String))
  | some value => do return [← attr name value]
  | none => .ok []

/-- The elements of an action. -/
def action (m : Definition) (text : String) : Except ScxmlError (List Xml) := do
  match TimerCommand.ofAction? text with
  | none => return [.textElement "script" (← admitted text)]
  | some (.start id) =>
    let id' ← attr "id" id
    match m.timer? id with
    | none => .error (.unknownTimer id)
    | some t =>
      let event ← attr "event" t.event
      let duration ← (Text.showInt t.duration).mapError ScxmlError.duration
      let send : Xml := .element "send" [id', event, ("delay", duration ++ "ms")] []
      return send :: if t.periodic then [.comment (" periodic timer " ++ id ++ " ")] else []
  | some (.stop id) => return [.element "cancel" [← attr "sendid" id] []]

/-- The elements of a list of actions. -/
def actions (m : Definition) (texts : List String) : Except ScxmlError (List Xml) := do
  return (← texts.mapM (action m)).flatten

/-- The element of the actions run on entering or leaving a state, if there are any. -/
def hook (m : Definition) (name : String) (texts : List String) :
    Except ScxmlError (List Xml) := do
  if texts.isEmpty then return []
  else return [.element name [] (← actions m texts)]

/-- The element of a transition. -/
def transition (m : Definition) (t : Transition) : Except ScxmlError Xml := do
  let event ← attr? "event" t.event
  let cond ← attr? "cond" t.guard
  let target ← attr "target" t.target
  return .element "transition" (event ++ cond ++ [target]) (← actions m t.actions)

/-- The element of a branch. -/
def branch (m : Definition) (b : Branch) : Except ScxmlError Xml := do
  let cond ← attr? "cond" b.condition
  let target ← attr "target" b.target
  return .element "transition" (cond ++ [target]) (← actions m b.actions)

/-- The comment of a description, if there is one. -/
def description : Option Text.CodePoints → Except ScxmlError (List Xml)
  | some d => do
    if d.isEmpty then return []
    else
      let text ← (Text.encodable (commentText d)).mapError ScxmlError.surrogates
      return [.comment (← admitted text)]
  | none => .ok []

/-- The element of a state. -/
def state (m : Definition) (s : State) : Except ScxmlError Xml := do
  let id ← attr "id" s.id
  let note ← description s.description
  let entry ← hook m "onentry" s.entry
  let exit ← hook m "onexit" s.exit
  let leaving ← (m.transitions.filter (·.source == s.id)).mapM (transition m)
  return .element "state" [id] (note ++ entry ++ exit ++ leaving)

/-- The element of a choice. -/
def choice (m : Definition) (c : Choice) : Except ScxmlError Xml := do
  let id ← attr "id" c.id
  let conditioned ← c.conditioned.mapM (branch m)
  match c.default? with
  | none => .error (.missingDefault c.id)
  | some b => return .element "state" [id] (conditioned ++ [← branch m b])

/-- The root element of a definition. -/
def root (m : Definition) : Except ScxmlError Xml := do
  let name ← attr "name" m.name
  let initial ← attr "initial" m.initial
  let states ← m.states.mapM (state m)
  let choices ← m.choices.mapM (choice m)
  return .element "scxml" [("xmlns", xmlNamespace), ("version", "1.0"), name, initial]
    (states ++ choices)

end Scxml

/-- The document of a definition. -/
def scxml (m : Definition) : Except ScxmlError String := do
  return document (← Scxml.root m)

/-- The document of what was handed over as a definition. -/
def scxmlOf : Subject → Except ScxmlError String
  | .definition m => scxml m
  | .foreign f => .error (.foreign f)

end Statechart.Export
