import Statechart.Grammar.Terminal
import Statechart.Text.Place

/-!
# Syntax trees

The syntax tree of a machine description keeps every word that carries information, with the
text as it was written and the span where it stands. A node of the plain tree (`Tree`) is named
by its grammar rule; `Machine.tree` lists the kept words under the rules, in the order of the
text, and leaves keywords and marks out.
-/

namespace Statechart.Grammar

/-- A word of a description: its terminal, its text and where it starts. -/
structure Token where
  kind : Terminal
  text : String
  span : Span
  deriving DecidableEq, Repr

/-! ## The parts of a machine -/

/-- `[*] --> target`. -/
structure InitialItem where
  mark : Token
  target : Token
  deriving DecidableEq, Repr

/-- Whether a line of actions belongs to entering or to leaving a state. -/
inductive HookKind
  | entry
  | exit
  deriving DecidableEq, Repr

/-- `entry / actions` or `exit / actions`. -/
structure HookLine where
  kind : HookKind
  actions : List Token
  deriving DecidableEq, Repr

/-- `state id : "description" { hooks }`, where the last two parts may be absent. -/
structure StateItem where
  id : Token
  description : Option Token
  hooks : Option (List HookLine)
  deriving DecidableEq, Repr

/-- `source --> target : event [guard] / actions`, where the last three may be absent. -/
structure TransitionItem where
  source : Token
  target : Token
  event : Option Token
  guard : Option Token
  actions : Option (List Token)
  deriving DecidableEq, Repr

/-- `timer id = duration -> event`, with the word `periodic` after it if it is given. -/
structure TimerItem where
  id : Token
  duration : Token
  event : Token
  periodic : Option Token
  deriving DecidableEq, Repr

/-- `[condition] -> target / actions`; the marker is a condition or the default mark. -/
structure BranchLine where
  marker : Token
  target : Token
  actions : Option (List Token)
  deriving DecidableEq, Repr

/-- `choice id { branches }`. -/
structure ChoiceItem where
  id : Token
  branches : List BranchLine
  deriving DecidableEq, Repr

/-- One declaration inside a machine. -/
inductive Item
  | initial (item : InitialItem)
  | state (item : StateItem)
  | transition (item : TransitionItem)
  | timer (item : TimerItem)
  | choice (item : ChoiceItem)
  deriving DecidableEq, Repr

/-- `fsm name { items }`. -/
structure Machine where
  name : Token
  items : List Item
  deriving DecidableEq, Repr

/-! ## Plain trees -/

/-- The grammar rules that name a node. -/
inductive Rule
  | start
  | machine
  | initial
  | state
  | stateBody
  | entryHook
  | exitHook
  | transition
  | event
  | guard
  | actions
  | timer
  | choice
  | branch
  | elseBranch
  | actionList
  deriving DecidableEq, Repr

/-- A plain tree over the kept words. -/
inductive Tree
  | node (rule : Rule) (children : List Tree)
  | leaf (token : Token)
  deriving Repr

/-- The words of an action list. -/
def actionList (actions : List Token) : Tree :=
  .node .actionList (actions.map .leaf)

/-- The actions of a transition or branch, if it has any. -/
def actionsPart : Option (List Token) → List Tree
  | some actions => [.node .actions [actionList actions]]
  | none => []

/-- The node of a line of entry or exit actions. -/
def HookLine.tree (h : HookLine) : Tree :=
  .node (match h.kind with | .entry => .entryHook | .exit => .exitHook) [actionList h.actions]

/-- The node of a branch. -/
def BranchLine.tree (b : BranchLine) : Tree :=
  .node (if b.marker.kind = .elseMark then .elseBranch else .branch)
    ([.leaf b.marker, .leaf b.target] ++ actionsPart b.actions)

/-- The node of a declaration. -/
def Item.tree : Item → Tree
  | .initial i => .node .initial [.leaf i.target]
  | .state s =>
    .node .state ([.leaf s.id] ++ (s.description.map .leaf).toList ++
      (s.hooks.map fun hs => .node .stateBody (hs.map HookLine.tree)).toList)
  | .transition t =>
    .node .transition ([.leaf t.source, .leaf t.target] ++
      (t.event.map fun e => .node .event [.leaf e]).toList ++
      (t.guard.map fun g => .node .guard [.leaf g]).toList ++ actionsPart t.actions)
  | .timer t =>
    .node .timer ([.leaf t.id, .leaf t.duration, .leaf t.event] ++
      (t.periodic.map .leaf).toList)
  | .choice c => .node .choice (.leaf c.id :: c.branches.map BranchLine.tree)

/-- The tree of a whole description. -/
def Machine.tree (m : Machine) : Tree :=
  .node .start [.node .machine (.leaf m.name :: m.items.map Item.tree)]

end Statechart.Grammar
