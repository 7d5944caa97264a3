import Statechart.Model.Definition
import Statechart.Model.TimerCommand
import Statechart.Validation.Cycles
import Statechart.Validation.Issue

/-!
# Checking declarations

Every check looks at the whole declaration and lists all it finds, in the order of the
declaration; `errors` and `warnings` put the checks one after the other. A declaration without
errors has a definition, made of its parts and starting at its initial marker (`check`).

What is found is put into words as it is found (`validate`), which fails if a timer lasts no time
and its duration has too many digits to be written.
-/

namespace Statechart

namespace Declaration

/-- The identifiers of the states. -/
def stateIds (d : Declaration) : List String := d.states.map (·.id)

/-- The identifiers of the choices. -/
def choiceIds (d : Declaration) : List String := d.choices.map (·.id)

/-- The identifiers of the states and choices, which are the ends of arrows. -/
def nodeIds (d : Declaration) : List String := d.stateIds ++ d.choiceIds

/-- The identifiers of the timers. -/
def timerIds (d : Declaration) : List String := d.timers.map (·.id)

/-- The arrows that are followed within one step: the branches of choices, then the completion
transitions, both between declared nodes. -/
def transientArrows (d : Declaration) : Validation.Arrows :=
  (d.choices.flatMap fun c =>
    (c.branches.filter fun b => d.nodeIds.contains b.target).map fun b => (c.id, b.target)) ++
  (d.transitions.filter fun t =>
    t.isCompletion && d.nodeIds.contains t.source && d.nodeIds.contains t.target).map
      fun t => (t.source, t.target)

end Declaration

namespace Validation

/-! ## Identifiers -/

/-- The parts whose key is that of an earlier part, or one of the keys already `seen`. -/
def repeated {α : Type} (key : α → String) (seen : List String) : List α → List α
  | [] => []
  | x :: xs =>
    if seen.contains (key x) then x :: repeated key seen xs
    else repeated key (key x :: seen) xs

/-- The parts whose key is not that of an earlier part, nor one of the keys already `seen`. -/
def unrepeated {α : Type} (key : α → String) (seen : List String) : List α → List α
  | [] => []
  | x :: xs =>
    if seen.contains (key x) then unrepeated key seen xs
    else x :: unrepeated key (key x :: seen) xs

/-- Identifiers that are declared again in their kind, or as a state and as a choice. -/
def duplicates (d : Declaration) : List (Located Flaw) :=
  (repeated State.id [] d.states).map (fun s => ⟨.duplicate .state s.id, s.span⟩) ++
  (repeated Choice.id [] d.choices).map (fun c => ⟨.duplicate .choice c.id, c.span⟩) ++
  (repeated Timer.id [] d.timers).map (fun t => ⟨.duplicate .timer t.id, t.span⟩) ++
  (unrepeated Choice.id [] (d.choices.filter fun c => d.stateIds.contains c.id)).map
    fun c => ⟨.nameCollision c.id, c.span⟩

/-! ## Arrows -/

/-- Too few or too many initial markers, and markers that do not point at a state. -/
def initialFlaws (d : Declaration) : List (Located Flaw) :=
  match d.initial with
  | [] => [⟨.missingInitial d.name, d.span⟩]
  | _ :: extra =>
    extra.map (fun m => ⟨.multipleInitial m.target, m.span⟩) ++
    d.initial.filterMap fun m =>
      if d.stateIds.contains m.target then none
      else if d.choiceIds.contains m.target then some ⟨.initialChoice m.target, m.span⟩
      else some ⟨.unknownInitial m.target, m.span⟩

/-- The flaws of one transition. -/
def transitionFlaws (d : Declaration) (t : Transition) : List (Located Flaw) :=
  (if d.nodeIds.contains t.source then []
    else [⟨.unknownSource t.source t.target, t.span⟩]) ++
  (if d.nodeIds.contains t.target then []
    else [⟨.unknownTarget t.source t.target, t.span⟩]) ++
  (if t.guard = some "" then [⟨.emptyGuard t.source t.target, t.span⟩] else [])

/-- The flaws of one branch. -/
def branchFlaws (d : Declaration) (c : Choice) (b : Branch) : List (Located Flaw) :=
  (if d.nodeIds.contains b.target then []
    else [⟨.unknownBranchTarget c.id b.target, b.span⟩]) ++
  (if b.condition = some "" then [⟨.emptyCondition c.id, b.span⟩] else [])

/-- The flaws of one choice. -/
def choiceFlaws (d : Declaration) (c : Choice) : List (Located Flaw) :=
  (match c.branches.filter (·.isDefault) with
    | [] => [⟨.missingElse c.id, c.span⟩]
    | _ :: extra => extra.map fun b => ⟨.multipleElse c.id, b.span⟩) ++
  (if c.conditioned.isEmpty then [⟨.noBranches c.id, c.span⟩] else []) ++
  c.branches.flatMap (branchFlaws d c)

/-- Where a node of a circle is declared: its choice, or else its first completion
transition. -/
def nodeSpan (d : Declaration) (id : String) : Option Span :=
  match d.choices.find? (·.id == id) with
  | some c => c.span
  | none =>
    (d.transitions.find? fun t =>
      t.isCompletion && t.source == id && d.nodeIds.contains t.target).bind (·.span)

/-- The circles of transient arrows. -/
def cycleFlaws (d : Declaration) : List (Located Flaw) :=
  d.transientArrows.cycles.map fun nodes =>
    ⟨if nodes.all (d.choiceIds.contains ·) then .choiceCycle nodes else .completionCycle nodes,
      nodeSpan d (nodes.headD "")⟩

/-! ## Timers -/

/-- Timers that last no time. -/
def durationFlaws (d : Declaration) : List (Located Flaw) :=
  (d.timers.filter (·.duration ≤ 0)).map fun t => ⟨.timerDuration t.id t.duration, t.span⟩

/-- Every list of actions, with the part it belongs to. -/
def actionSites (d : Declaration) : List (ActionOwner × Option Span × List String) :=
  d.states.map (fun s => (.state s.id, s.span, s.entry ++ s.exit)) ++
  d.transitions.map (fun t => (.transition t.source t.target, t.span, t.actions)) ++
  d.choices.flatMap fun c => c.branches.map fun b => (.choice c.id, b.span, b.actions)

/-- Actions that start or stop a timer that is not declared. -/
def commandFlaws (d : Declaration) : List (Located Flaw) :=
  (actionSites d).flatMap fun (owner, span, actions) =>
    actions.filterMap fun a =>
      match TimerCommand.ofAction? a with
      | some c =>
        if d.timerIds.contains c.timer then none
        else some ⟨.unknownTimer owner a c.timer, span⟩
      | none => none

/-- Timers whose event no transition waits for. -/
def unusedEvents (d : Declaration) : List (Located Caution) :=
  let events := d.transitions.filterMap (·.event)
  (d.timers.filter fun t => !events.contains t.event).map
    fun t => ⟨.timerEventUnused t.id t.event, t.span⟩

/-! ## Transitions and states out of reach -/

/-- The transitions that are never taken, of transitions that are tried in this order after
others: whether one of those had no guard, and which guards those had. -/
def shadowed (unguarded : Bool) (guards : List String) : List Transition → List Transition
  | [] => []
  | t :: ts =>
    let rest :=
      match t.guard with
      | none => shadowed true guards ts
      | some g => shadowed unguarded (g :: guards) ts
    if unguarded || t.guard.any (guards.contains ·) then t :: rest else rest

/-- The pairs of source and trigger, each once. -/
def triggers (d : Declaration) : List (String × Option String) :=
  (d.transitions.map fun t => (t.source, t.event)).eraseDups

/-- Transitions that are never taken. -/
def shadowedTransitions (d : Declaration) : List (Located Caution) :=
  (triggers d).flatMap fun (source, event) =>
    (shadowed false []
      (d.transitions.filter fun t => t.source == source && t.event == event)).map
      fun t => ⟨.shadowedTransition source t.target event, t.span⟩

/-- The nodes that an arrow from elsewhere leads to. -/
def entered (d : Declaration) : List String :=
  d.initial.map (·.target) ++
  (d.transitions.filter fun t => t.source != t.target).map (·.target) ++
  d.choices.flatMap fun c => c.branches.map (·.target)

/-- States that no arrow from elsewhere leads to. -/
def unreachableStates (d : Declaration) : List (Located Caution) :=
  (d.states.filter fun s => !(entered d).contains s.id).map
    fun s => ⟨.unreachableState s.id, s.span⟩

/-! ## The verdict -/

/-- All that keeps a declaration from being a definition. -/
def errors (d : Declaration) : List (Located Flaw) :=
  duplicates d ++ initialFlaws d ++ d.transitions.flatMap (transitionFlaws d) ++
    d.choices.flatMap (choiceFlaws d) ++ cycleFlaws d ++ durationFlaws d ++ commandFlaws d

/-- All that is doubtful about a declaration. -/
def warnings (d : Declaration) : List (Located Caution) :=
  unusedEvents d ++ shadowedTransitions d ++ unreachableStates d

/-- What checking a declaration gives. -/
structure Verdict where
  definition : Option Definition
  errors : List (Located Flaw)
  warnings : List (Located Caution)
  deriving DecidableEq, Repr

/-- Checks a declaration. -/
def check (d : Declaration) : Verdict :=
  let errors := errors d
  { definition :=
      if errors.isEmpty then (d.initial.head?).map fun m => Definition.ofDeclaration d m.target
      else none
    errors
    warnings := warnings d }

/-- A verdict in words. -/
structure Report where
  definition : Option Definition
  errors : List Issue
  warnings : List Issue
  deriving DecidableEq, Repr

namespace Report

/-- Whether the declaration has a definition. -/
def ok (r : Report) : Bool := r.errors.isEmpty

/-- All issues, errors first. -/
def issues (r : Report) : List Issue := r.errors ++ r.warnings

/-- The errors in words: how many there are, and the first three of them. -/
def refusal (r : Report) : String :=
  let shown := "; ".intercalate ((r.errors.take 3).map Issue.text)
  let more :=
    if 3 < r.errors.length then "; ... (" ++ toString (r.errors.length - 3) ++ " more)" else ""
  toString r.errors.length ++ " validation error(s): " ++ shown ++ more

end Report

/-- Checks a declaration and reports what is found. -/
def validate (d : Declaration) : Except Text.NumeralError Report := do
  let v := check d
  return ⟨v.definition, ← v.errors.mapM Located.error, v.warnings.map Located.warning⟩

/-- Why a declaration has no definition. -/
inductive DefinitionError
  /-- It has flaws. -/
  | flawed (report : Report)
  /-- One of its flaws cannot be put into words. -/
  | numeral (error : Text.NumeralError)
  deriving DecidableEq, Repr

/-- The error in words. -/
def DefinitionError.message : DefinitionError → String
  | flawed r => r.refusal
  | numeral e => e.message

/-- The definition of a declaration without flaws. -/
def definition (d : Declaration) : Except DefinitionError Definition := do
  let r ← (validate d).mapError .numeral
  match r.definition with
  | some m => return m
  | none => .error (.flawed r)

end Validation

end Statechart
