import Statechart.Model.Subject

/-!
# Graphs

A definition as a drawing shows it: a node for the initial marker, for every state and every
choice, and an edge for the initial arrow, every transition and every branch, in this order.
-/

namespace Statechart.Export

/-- What a node of a graph stands for. -/
inductive NodeKind
  | initial
  | state
  | choice
  deriving DecidableEq, Repr

/-- The word for the kind. -/
def NodeKind.word : NodeKind → String
  | initial => "initial"
  | state => "state"
  | choice => "choice"

/-- A node of a graph. -/
structure GraphNode where
  id : String
  label : Text.CodePoints
  kind : NodeKind
  deriving DecidableEq, Repr

/-- An edge of a graph. -/
structure GraphEdge where
  source : String
  target : String
  label : String
  deriving DecidableEq, Repr

/-- Nodes and edges, in the order in which they are drawn. -/
structure Graph where
  nodes : List GraphNode
  edges : List GraphEdge
  deriving DecidableEq, Repr

/-- The identifier of the node that the initial arrow leaves. -/
def initialNode : String := "[*]"

/-- The node of a state; a description stands below the identifier. -/
def stateNode (s : State) : GraphNode :=
  let label : Text.CodePoints := match s.description with
    | some d => if d.isEmpty then s.id else Text.codePoints (s.id ++ "\n") ++ d
    | none => s.id
  ⟨s.id, label, .state⟩

/-- The node of a choice. -/
def choiceNode (c : Choice) : GraphNode := ⟨c.id, c.id, .choice⟩

/-- The edge of a transition. -/
def transitionEdge (t : Transition) : GraphEdge := ⟨t.source, t.target, t.label⟩

/-- The label of a branch: its condition in brackets, and its actions. -/
def branchLabel (b : Branch) : String :=
  "[" ++ b.condition.getD "else" ++ "]" ++
    if b.actions.isEmpty then "" else " / " ++ "; ".intercalate b.actions

/-- The edges of the branches of a choice. -/
def branchEdges (c : Choice) : List GraphEdge :=
  c.branches.map fun b => ⟨c.id, b.target, branchLabel b⟩

/-- The graph of a definition. -/
def graph (m : Definition) : Graph :=
  { nodes := ⟨initialNode, [], .initial⟩ :: (m.states.map stateNode ++ m.choices.map choiceNode)
    edges := ⟨initialNode, m.initial, ""⟩ ::
      (m.transitions.map transitionEdge ++ m.choices.flatMap branchEdges) }

/-- The graph of what was handed over as a definition. -/
def graphOf : Subject → Except MissingPart Graph
  | .definition m => .ok (graph m)
  | .foreign .declaration => .error ⟨Foreign.list.kind, "values"⟩
  | .foreign f => .error ⟨f.kind, "states"⟩

end Statechart.Export
