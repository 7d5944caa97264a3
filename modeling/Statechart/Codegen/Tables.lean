import Statechart.Guard
import Statechart.Model.TimerCommand

/-!
# Dispatch tables

A generated module runs its machine from tables. Transitions and completion transitions stand in
one list for each source, in the order of their declaration; the branches of a choice stand with
the default last; timers stand by identifier; and every action text that is a timer command has
that command. The lookups of the generated code are functions on the tables (`chooseEvented`,
`chooseRow`).
-/

namespace Statechart.Codegen

/-- A way to go on: its condition, its actions and its target. -/
structure Row where
  condition : Option String
  actions : List String
  target : String
  deriving DecidableEq, Repr

/-- A row for one event. -/
structure EventRow where
  event : String
  row : Row
  deriving DecidableEq, Repr

/-- The tables of a module. A choice without default branch has a gap in its place. -/
structure Tables where
  transitions : List (String × List EventRow)
  completions : List (String × List Row)
  choices : List (String × List (Option Row))
  timers : List Timer
  commands : List (String × TimerCommand)

/-- The rows of a list by key, the keys in the order of appearance. -/
def groupBy {α : Type} (xs : List (String × α)) : List (String × List α) :=
  (xs.map (·.1)).eraseDups.map fun k => (k, (xs.filter (·.1 == k)).map (·.2))

/-- The row of a transition. -/
def transitionRow (t : Transition) : Row := ⟨t.guard, t.actions, t.target⟩

/-- The row of a branch. -/
def branchRow (b : Branch) : Row := ⟨b.condition, b.actions, b.target⟩

/-- The transitions with an event, each with its source. -/
def eventRows (m : Definition) : List (String × EventRow) :=
  m.transitions.filterMap fun t => t.event.map fun e => (t.source, ⟨e, transitionRow t⟩)

/-- The completion transitions, each with its source. -/
def completionRows (m : Definition) : List (String × Row) :=
  (m.transitions.filter (·.isCompletion)).map fun t => (t.source, transitionRow t)

/-- The branches of a choice, the default last. -/
def choiceRows (c : Choice) : List (Option Row) :=
  c.conditioned.map (some ∘ branchRow) ++ [c.default?.map branchRow]

/-- All action texts of a definition. -/
def allActions (m : Definition) : List String :=
  m.states.flatMap (fun s => s.entry ++ s.exit) ++ m.transitions.flatMap (·.actions) ++
    m.choices.flatMap fun c => c.branches.flatMap (·.actions)

/-- The tables of a definition. -/
def tables (m : Definition) : Tables where
  transitions := groupBy (eventRows m)
  completions := groupBy (completionRows m)
  choices := m.choices.map fun c => (c.id, choiceRows c)
  timers := m.timers
  commands := (allActions m).eraseDups.filterMap fun a =>
    (TimerCommand.ofAction? a).map fun c => (a, c)

/-! ## Lookups -/

/-- The value under a key. Where several entries have the key, the last one stands. -/
def under? {α : Type} (table : List (String × α)) (key : String) : Option α :=
  table.reverse.lookup key

/-- The rows under a key. -/
def rows {α : Type} (table : List (String × List α)) (key : String) : List α :=
  (under? table key).getD []

/-- The row that the generated code takes: the first without a condition or whose condition
holds. -/
def chooseRow {σ π : Type} (guard : Guard σ π) (event : Option String) (payload : Option π)
    (rows : List Row) : σ → Option Row × σ :=
  firstEnabled guard Row.condition event payload rows

/-- The row that the generated code takes for an event: rows of other events are passed over,
and the first of the others without a condition or whose condition holds is taken. -/
def chooseEvented {σ π : Type} (guard : Guard σ π) (event : String) (payload : Option π) :
    List EventRow → σ → Option Row × σ
  | [], s => (none, s)
  | r :: rs, s =>
    if r.event = event then
      match r.row.condition with
      | none => (some r.row, s)
      | some g =>
        let (holds, s) := guard g (some event) payload s
        if holds.getD false then (some r.row, s) else chooseEvented guard event payload rs s
    else chooseEvented guard event payload rs s

end Statechart.Codegen
