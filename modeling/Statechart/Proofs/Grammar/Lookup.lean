import Mathlib
import Statechart.Proofs.Grammar.Slots

/-!
# Words and nodes below a node

What a node of a syntax tree says is found by the words of a terminal and the nodes of a rule
directly below it (`Tree.words`, `Tree.nodes`), in the order of the text.
-/

namespace Statechart.Grammar

namespace Tree

/-- What is directly below the root. -/
def children : Tree → List Tree
  | node _ ts => ts
  | leaf _ => []

/-- The words of a terminal among trees. -/
def wordsAmong (k : Terminal) (ts : List Tree) : List Token :=
  ts.filterMap fun
    | leaf w => if w.kind = k then some w else none
    | node .. => none

/-- The nodes of some rules among trees. -/
def nodesAmong (rs : List Rule) (ts : List Tree) : List Tree :=
  ts.filter fun
    | node r _ => rs.contains r
    | leaf _ => false

/-- The words of a terminal directly below the root. -/
def words (k : Terminal) (t : Tree) : List Token := wordsAmong k t.children

/-- The nodes of some rules directly below the root. -/
def nodes (rs : List Rule) (t : Tree) : List Tree := nodesAmong rs t.children

/-- The texts of the actions in the action lists directly below the root. -/
def actionTexts (t : Tree) : List String :=
  ((t.nodes [.actionList]).flatMap (words .action)).map (·.text)

section

variable {k : Terminal} {rs : List Rule} {r : Rule} {w : Token} {ts us : List Tree}

@[simp] theorem words_node : (node r ts).words k = wordsAmong k ts := rfl

@[simp] theorem nodes_node : (node r ts).nodes rs = nodesAmong rs ts := rfl

@[simp] theorem wordsAmong_nil : wordsAmong k [] = [] := rfl

@[simp] theorem wordsAmong_leaf :
    wordsAmong k (leaf w :: ts) = if w.kind = k then w :: wordsAmong k ts else wordsAmong k ts := by
  simp only [wordsAmong, List.filterMap_cons]
  split_ifs <;> rfl

@[simp] theorem wordsAmong_node : wordsAmong k (node r us :: ts) = wordsAmong k ts := rfl

@[simp] theorem wordsAmong_append : wordsAmong k (ts ++ us) = wordsAmong k ts ++ wordsAmong k us :=
  List.filterMap_append ..

theorem wordsAmong_map_leaf {ws : List Token} (h : ∀ w ∈ ws, w.kind = k) :
    wordsAmong k (ws.map leaf) = ws := by
  induction ws with
  | nil => rfl
  | cons w ws ih =>
    obtain ⟨hw, hws⟩ := List.forall_mem_cons.1 h
    rw [List.map_cons, wordsAmong_leaf, if_pos hw, ih hws]

@[simp] theorem nodesAmong_nil : nodesAmong rs [] = [] := rfl

@[simp] theorem nodesAmong_leaf : nodesAmong rs (leaf w :: ts) = nodesAmong rs ts := rfl

@[simp] theorem nodesAmong_node : nodesAmong rs (node r us :: ts) =
    if rs.contains r then node r us :: nodesAmong rs ts else nodesAmong rs ts := by
  simp only [nodesAmong, List.filter_cons]

@[simp] theorem nodesAmong_append :
    nodesAmong rs (ts ++ us) = nodesAmong rs ts ++ nodesAmong rs us := List.filter_append ..

end

end Tree

/-! ## Parts of trees -/

section

variable {k : Terminal} {r r' : Rule} {w : Option Token}

theorem wordsAmong_leafPart (h : ∀ v ∈ w, v.kind = k) (k' : Terminal) :
    Tree.wordsAmong k' (leafPart w) = if k = k' then w.toList else [] := by
  cases w with
  | none => simp [leafPart]
  | some w => simp [leafPart, h w rfl]

theorem nodesAmong_leafPart (rs : List Rule) : Tree.nodesAmong rs (leafPart w) = [] := by
  cases w <;> rfl

theorem wordsAmong_nodePart : Tree.wordsAmong k (nodePart r w) = [] := by
  cases w <;> rfl

theorem nodesAmong_nodePart :
    Tree.nodesAmong [r'] (nodePart r w) = if r = r' then nodePart r w else [] := by
  cases w <;> simp [nodePart]

theorem flatMap_words_nodePart (h : ∀ v ∈ w, v.kind = k) :
    (nodePart r w).flatMap (Tree.words k) = w.toList := by
  cases w with
  | none => rfl
  | some w => simp [nodePart, h w rfl]

theorem wordsAmong_bodyPart (hooks : Option (List HookLine)) :
    Tree.wordsAmong k (bodyPart hooks) = [] := by
  cases hooks <;> rfl

theorem nodesAmong_bodyPart (hooks : Option (List HookLine)) :
    Tree.nodesAmong [.stateBody] (bodyPart hooks) = bodyPart hooks := by
  cases hooks <;> simp [bodyPart]

theorem wordsAmong_actionsPart (actions : Option (List Token)) :
    Tree.wordsAmong k (actionsPart actions) = [] := by
  cases actions <;> rfl

theorem nodesAmong_actionsPart (hr : r ≠ .actions) (actions : Option (List Token)) :
    Tree.nodesAmong [r] (actionsPart actions) = [] := by
  cases actions <;> simp [actionsPart, hr.symm]

end

/-- No words stand among nodes. -/
theorem wordsAmong_map_node {α : Type} {f : α → Tree} (h : ∀ x, ∃ r us, f x = .node r us)
    (k : Terminal) (xs : List α) : Tree.wordsAmong k (xs.map f) = [] := by
  induction xs with
  | nil => rfl
  | cons x xs ih =>
    obtain ⟨r, us, hx⟩ := h x
    rw [List.map_cons, hx]
    exact ih

theorem wordsAmong_branches (k : Terminal) (bs : List BranchLine) :
    Tree.wordsAmong k (bs.map BranchLine.tree) = [] :=
  wordsAmong_map_node (fun _ => ⟨_, _, rfl⟩) k bs

theorem nodesAmong_branches (bs : List BranchLine) :
    Tree.nodesAmong [.branch, .elseBranch] (bs.map BranchLine.tree) = bs.map BranchLine.tree := by
  induction bs with
  | nil => rfl
  | cons b bs ih =>
    rw [List.map_cons, BranchLine.tree]
    split_ifs <;> simp [ih]

/-! ## Items -/

/-- The rule of the node of a line of actions. -/
def HookKind.rule : HookKind → Rule
  | .entry => .entryHook
  | .exit => .exitHook

/-- The rule of the node of an item. -/
def Item.rule : Item → Rule
  | .initial _ => .initial
  | .state _ => .state
  | .transition _ => .transition
  | .timer _ => .timer
  | .choice _ => .choice

/-- The word that an item begins with. -/
def Item.start : Item → Token
  | .initial i => i.mark
  | .state s => s.id
  | .transition t => t.source
  | .timer t => t.id
  | .choice c => c.id

theorem nodesAmong_items (r : Rule) (items : List Item) :
    Tree.nodesAmong [r] (items.map Item.tree) = (items.filter (·.rule = r)).map Item.tree := by
  induction items with
  | nil => rfl
  | cons i items ih =>
    cases i <;> simp [Item.tree, Item.rule, List.filter_cons, ih, eq_comm, apply_ite]

theorem wordsAmong_items (k : Terminal) (items : List Item) :
    Tree.wordsAmong k (items.map Item.tree) = [] :=
  wordsAmong_map_node (fun i => by cases i <;> exact ⟨_, _, rfl⟩) k items

/-- Words that come first in their places stand in the order of the text. -/
theorem pairwise_before_of_placed {α : Type} {slots : α → List Slot} {start : α → Token}
    (hstart : ∀ x, ∃ k, (k, start x) ∈ slots x) {xs : List α} (h : Placed (xs.flatMap slots)) :
    xs.Pairwise fun x y => (start x).span.Before (start y).span := by
  refine (List.pairwise_flatMap.1 h.increasing).2.imp fun {x y} hxy => ?_
  obtain ⟨k, hk⟩ := hstart x
  obtain ⟨k', hk'⟩ := hstart y
  exact hxy _ hk _ hk'

end Statechart.Grammar
