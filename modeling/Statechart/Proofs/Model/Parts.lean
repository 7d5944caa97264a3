import Mathlib
import Statechart.Proofs.Grammar.Lookup
import Statechart.Proofs.Model.Writing

/-!
# What an item declares

A part of a declaration is found in the node of its item by the words and nodes below it
(`DeclaredBy`). What it takes over is clean (`Clean`): identifiers are identifiers, actions are
calls on one line, and guards are trimmed and keep to their brackets. This holds of each kind of
item whose words stand in their places (`Stems`).
-/

namespace Statechart

open Grammar (Token Tree Rule Terminal Item Placed HookLine BranchLine)

/-! ## What a node declares -/

/-- The word is a text in square brackets, with blanks around it. -/
def Encloses (word text : String) : Prop :=
  ∃ front back, (∀ c ∈ front ++ back, Text.isBlank c) ∧
    word.toList = '[' :: front ++ text.toList ++ back ++ [']']

/-- The target of an initial marker is the only identifier of its node. -/
structure InitialMarker.DeclaredBy (m : InitialMarker) (t : Tree) : Prop where
  target : (t.words .name).map (·.text) = [m.target]

/-- A state has the identifier of its node, the description if there is one, and the actions of
the lines in its body. -/
structure State.DeclaredBy (names : Text.CharacterNames) (s : State) (t : Tree) : Prop where
  id : ∃ w, t.words .name = [w] ∧ s.id = w.text ∧ s.span = some w.span
  description : (t.words .string).mapM (fun w => Text.ofLiteral names w.text) =
    .ok s.description.toList
  /-- The actions of the lines of one kind, line after line. -/
  entry : s.entry =
    (t.nodes [.stateBody]).flatMap fun b => (b.nodes [.entryHook]).flatMap Tree.actionTexts
  exit : s.exit =
    (t.nodes [.stateBody]).flatMap fun b => (b.nodes [.exitHook]).flatMap Tree.actionTexts

/-- A transition leads from the first identifier of its node to the second. -/
structure Transition.DeclaredBy (x : Transition) (t : Tree) : Prop where
  ends : ∃ a b, t.words .name = [a, b] ∧ x.source = a.text ∧ x.target = b.text ∧
    x.span = some a.span
  event : ((t.nodes [.event]).flatMap (Tree.words .name)).map (·.text) = x.event.toList
  guard : List.Forall₂ (fun w g => Encloses w.text g)
    ((t.nodes [.guard]).flatMap (Tree.words .guard)) x.guard.toList
  actions : x.actions = (t.nodes [.actions]).flatMap Tree.actionTexts

/-- A timer has the first identifier of its node and posts the second. -/
structure Timer.DeclaredBy (x : Timer) (t : Tree) : Prop where
  names : ∃ a b, t.words .name = [a, b] ∧ x.id = a.text ∧ x.event = b.text ∧ x.span = some a.span
  duration : ∃ w n, t.words .int = [w] ∧ Text.readNat w.text = .ok n ∧ x.duration = n
  periodic : x.periodic = !(t.words .periodic).isEmpty

/-- A branch begins with a guard or with the default mark, by which its node is named. -/
structure Branch.DeclaredBy (b : Branch) (t : Tree) : Prop where
  marker : match b.condition with
    | some g => ∃ ts w, t = .node .branch ts ∧ t.words .guard = [w] ∧ Encloses w.text g ∧
      b.span = some w.span
    | none => ∃ ts w, t = .node .elseBranch ts ∧ t.words .elseMark = [w] ∧ b.span = some w.span
  target : (t.words .name).map (·.text) = [b.target]
  actions : b.actions = (t.nodes [.actions]).flatMap Tree.actionTexts

/-- A choice has the identifier of its node and one branch for each node of a branch. -/
structure Choice.DeclaredBy (c : Choice) (t : Tree) : Prop where
  id : ∃ w, t.words .name = [w] ∧ c.id = w.text ∧ c.span = some w.span
  branches : List.Forall₂ Branch.DeclaredBy c.branches (t.nodes [.branch, .elseBranch])

/-! ## What is taken over -/

/-- A guard or condition without the blanks at its ends: it stays on its line, and nests its own
square brackets at most one level deep. -/
structure IsCondition (g : String) : Prop where
  trimmed : Text.trim g = g
  unbroken : '\n' ∉ g.toList
  nested : Grammar.Nested '[' ']' g.toList

/-- An action on one line. -/
structure IsCall (a : String) : Prop where
  isAction : IsAction a
  unbroken : '\n' ∉ a.toList

def InitialMarker.Clean (m : InitialMarker) : Prop := IsName m.target

def State.Clean (s : State) : Prop :=
  IsName s.id ∧ (∀ a ∈ s.entry, IsCall a) ∧ ∀ a ∈ s.exit, IsCall a

def Transition.Clean (t : Transition) : Prop :=
  IsName t.source ∧ IsName t.target ∧ (∀ e ∈ t.event, IsName e) ∧
    (∀ g ∈ t.guard, IsCondition g) ∧ ∀ a ∈ t.actions, IsCall a

/-- The duration of a timer is a natural number. -/
def Timer.Clean (t : Timer) : Prop := IsName t.id ∧ IsName t.event ∧ ∃ n : Nat, t.duration = n

def Branch.Clean (b : Branch) : Prop :=
  (∀ g ∈ b.condition, IsCondition g) ∧ IsName b.target ∧ ∀ a ∈ b.actions, IsCall a

def Choice.Clean (c : Choice) : Prop := IsName c.id ∧ ∀ b ∈ c.branches, b.Clean

/-- The spans are there, and each comes before those after it in the text. -/
def Increasing (spans : List (Option Span)) : Prop :=
  ∃ ss : List Span, spans = ss.map some ∧ ss.Pairwise Span.Before

/-! ## Action lists -/

section

variable {ts : List Token}

theorem isCall_of_placed (h : Placed (Grammar.actionSlots ts)) : ∀ w ∈ ts, IsCall w.text := by
  intro w hw
  have hmatches := (h.word (List.mem_map_of_mem hw)).2
  exact ⟨hmatches, Grammar.lineFeed_notMem_action hmatches⟩

/-- Actions have no blanks at their ends, so they are taken over as they stand. -/
theorem actions_eq_of_placed (h : Placed (Grammar.actionSlots ts)) :
    Declaration.actions ts = ts.map (·.text) :=
  List.map_congr_left fun w hw => (isCall_of_placed h w hw).isAction.trim_eq

theorem forall_isCall_of_placed (h : Placed (Grammar.actionSlots ts)) :
    ∀ a ∈ Declaration.actions ts, IsCall a := by
  rw [actions_eq_of_placed h]
  exact List.forall_mem_map.2 (isCall_of_placed h)

theorem actionTexts_of_placed (r : Rule) (h : Placed (Grammar.actionSlots ts)) :
    (Grammar.Tree.node r [Grammar.actionList ts]).actionTexts = Declaration.actions ts := by
  have hkinds : ∀ w ∈ ts, w.kind = .action := fun w hw => (h.word (List.mem_map_of_mem hw)).1
  rw [actions_eq_of_placed h]
  simp [Tree.actionTexts, Grammar.actionList, Tree.wordsAmong_map_leaf hkinds]

/-- The actions of a transition or a branch, which may be absent. -/
theorem actionTexts_actionsPart {actions : Option (List Token)}
    (h : Placed (Grammar.actionSlots (actions.getD []))) :
    (Tree.nodesAmong [.actions] (Grammar.actionsPart actions)).flatMap Tree.actionTexts =
      (actions.map Declaration.actions).getD [] := by
  cases actions with
  | none => rfl
  | some ts => simpa [Grammar.actionsPart] using actionTexts_of_placed .actions h

theorem forall_isCall_getD {actions : Option (List Token)}
    (h : Placed (Grammar.actionSlots (actions.getD []))) :
    ∀ a ∈ (actions.map Declaration.actions).getD [], IsCall a := by
  cases actions with
  | none => simp
  | some ts => exact forall_isCall_of_placed h

end

/-! ## Guards -/

/-- A guard is read out of its brackets: what is left is trimmed and keeps to its brackets. -/
theorem isCondition_of_matches {w : Token} (h : Terminal.Matches .guard w.text.toList) :
    Encloses w.text (Declaration.condition w) ∧ IsCondition (Declaration.condition w) := by
  obtain ⟨cs, htext, hnested⟩ :
      ∃ cs, w.text.toList = '[' :: cs ++ [']'] ∧ Grammar.Nested '[' ']' cs := by
    generalize w.text.toList = text at h
    cases h with
    | spelled hs => cases hs
    | guard hcs => exact ⟨_, rfl, hcs⟩
  have hcondition : Declaration.condition w = String.ofList (Text.trimList cs) := by
    rw [Declaration.condition, htext, List.cons_append, List.drop_one, List.tail_cons,
      List.dropLast_concat]
  obtain ⟨front, back, hblank, hsplit⟩ := Text.exists_trimWhile_split Text.isBlank cs
  have hinside : Grammar.Nested '[' ']' (Text.trimList cs) := by
    rw [hsplit] at hnested
    refine hnested.inside (fun x hx => ?_) fun x hx => ?_
    · rintro rfl
      exact absurd (hblank _ (List.mem_append_left _ hx)) (by decide)
    · rintro rfl
      exact absurd (hblank _ (List.mem_append_right _ hx)) (by decide)
  rw [hcondition]
  refine ⟨⟨front, back, hblank, ?_⟩, ?_, ?_, ?_⟩
  · rw [htext, String.toList_ofList]
    conv_lhs => rw [hsplit]
    rfl
  · rw [Text.trim, String.toList_ofList, Text.trimList_trimList]
  · rw [String.toList_ofList]
    exact hinside.notMem_lineFeed (by decide) (by decide)
  · rwa [String.toList_ofList]

/-! ## Items -/

namespace Declaration

open Grammar (HookKind InitialItem StateItem TransitionItem TimerItem ChoiceItem nodePart leafPart
  bodyPart actionsPart wordsAmong_leafPart nodesAmong_leafPart wordsAmong_nodePart
  nodesAmong_nodePart flatMap_words_nodePart wordsAmong_bodyPart nodesAmong_bodyPart
  wordsAmong_actionsPart nodesAmong_actionsPart wordsAmong_branches nodesAmong_branches
  pairwise_before_of_placed)

theorem actionTexts_hooks (kind : HookKind) {lines : List HookLine}
    (h : Placed (lines.flatMap HookLine.slots)) :
    (Tree.nodesAmong [kind.rule] (lines.map HookLine.tree)).flatMap Tree.actionTexts =
      hookActions kind lines := by
  induction lines with
  | nil => rfl
  | cons l lines ih =>
    rw [List.flatMap_cons] at h
    have hl : Placed (Grammar.actionSlots l.actions) := h.sublist (List.sublist_append_left ..)
    have hrest := ih (h.sublist (List.sublist_append_right ..))
    obtain ⟨kind', ts⟩ := l
    simp only [hookActions] at hrest ⊢
    cases kind <;> cases kind' <;>
      simpa [HookLine.tree, HookKind.rule, actionTexts_of_placed _ hl] using hrest

/-- The actions of all lines of a kind in the body of a state, which may be absent. -/
theorem actionTexts_bodyPart (kind : HookKind) {hooks : Option (List HookLine)}
    (h : Placed ((hooks.getD []).flatMap HookLine.slots)) :
    ((bodyPart hooks).flatMap fun b => (b.nodes [kind.rule]).flatMap Tree.actionTexts) =
      hookActions kind (hooks.getD []) := by
  cases hooks with
  | none => rfl
  | some lines => simpa [bodyPart] using actionTexts_hooks kind h

theorem forall_isCall_hookActions (kind : HookKind) {lines : List HookLine}
    (h : Placed (lines.flatMap HookLine.slots)) : ∀ a ∈ hookActions kind lines, IsCall a := by
  intro a ha
  obtain ⟨l, hl, ha⟩ := List.mem_flatMap.1 ha
  have hmem : l.slots ∈ lines.map HookLine.slots := List.mem_map_of_mem (List.mem_filter.1 hl).1
  exact forall_isCall_of_placed (h.sublist (List.sublist_flatten_of_mem hmem)) a ha

/-- A part of a declaration is what an item declares, it is clean, and it is found where the item
begins. -/
structure Stems {α : Type} (declaredBy : α → Tree → Prop) (clean : α → Prop)
    (span : α → Option Span) (x : α) (i : Item) : Prop where
  declaredBy : declaredBy x i.tree
  clean : clean x
  span_eq : span x = some i.start.span

theorem stems_initial {i : InitialItem} (h : Placed (Item.initial i).slots) :
    Stems InitialMarker.DeclaredBy InitialMarker.Clean InitialMarker.span
      ⟨i.target.text, some i.mark.span⟩ (.initial i) := by
  obtain ⟨hkind, hname⟩ := h.word (k := .name) (w := i.target) (by simp [Item.slots])
  exact ⟨⟨by simp [Item.tree, hkind]⟩, hname, rfl⟩

theorem exists_description_of_state {names : Text.CharacterNames} {s : StateItem} {x : State}
    (hx : state names s = .ok x) :
    ∃ description : Option Text.CodePoints,
      s.description.toList.mapM (fun w => Text.ofLiteral names w.text) = .ok description.toList ∧
      x = ⟨s.id.text, description, hookActions .entry (s.hooks.getD []),
        hookActions .exit (s.hooks.getD []), some s.id.span⟩ := by
  cases hs : s.description with
  | none =>
    rw [state, hs] at hx
    cases hx
    exact ⟨none, rfl, rfl⟩
  | some w =>
    cases hw : Text.ofLiteral names w.text with
    | error e =>
      simp only [state, hs, hw] at hx
      cases hx
    | ok description =>
      simp only [state, hs, hw] at hx
      cases hx
      refine ⟨some description, ?_, rfl⟩
      simp [hw]

theorem stems_state {names : Text.CharacterNames} {s : StateItem} {x : State}
    (h : Placed (Item.state s).slots) (hx : state names s = .ok x) :
    Stems (State.DeclaredBy names) State.Clean State.span x (.state s) := by
  obtain ⟨hkind, hname⟩ := h.word (k := .name) (w := s.id) (by simp [Item.slots])
  have hstring : ∀ w ∈ s.description, w.kind = .string := fun w hw =>
    (h.word (k := .string) (by simp [Item.slots, Option.mem_def.1 hw])).1
  have hhooks : Placed ((s.hooks.getD []).flatMap HookLine.slots) :=
    h.sublist (List.Sublist.cons _ (List.sublist_append_right ..))
  have htree : (Item.state s).tree =
    .node .state ([.leaf s.id] ++ leafPart s.description ++ bodyPart s.hooks) := rfl
  obtain ⟨description, hdescription, rfl⟩ := exists_description_of_state hx
  refine ⟨?_, ⟨hname, forall_isCall_hookActions _ hhooks, forall_isCall_hookActions _ hhooks⟩,
    rfl⟩
  rw [htree]
  refine ⟨⟨s.id, ?_, rfl, rfl⟩, ?_, ?_, ?_⟩
  · simp [hkind, wordsAmong_leafPart hstring, wordsAmong_bodyPart]
  · simpa [hkind, wordsAmong_leafPart hstring, wordsAmong_bodyPart] using hdescription
  · simpa [nodesAmong_leafPart, nodesAmong_bodyPart, HookKind.rule] using
      (actionTexts_bodyPart .entry hhooks).symm
  · simpa [nodesAmong_leafPart, nodesAmong_bodyPart, HookKind.rule] using
      (actionTexts_bodyPart .exit hhooks).symm

theorem stems_transition {t : TransitionItem} (h : Placed (Item.transition t).slots) :
    Stems Transition.DeclaredBy Transition.Clean Transition.span (transition t)
      (.transition t) := by
  obtain ⟨hsource, hsource'⟩ := h.word (k := .name) (w := t.source) (by simp [Item.slots])
  obtain ⟨htarget, htarget'⟩ := h.word (k := .name) (w := t.target) (by simp [Item.slots])
  have hevent : ∀ e ∈ t.event, e.kind = .name ∧ IsName e.text := fun e he =>
    h.word (by simp [Item.slots, Option.mem_def.1 he])
  have hguard : ∀ g ∈ t.guard, g.kind = .guard ∧ Terminal.guard.Matches g.text.toList :=
    fun g hg => h.word (by simp [Item.slots, Option.mem_def.1 hg])
  have hactions : Placed (Grammar.actionSlots (t.actions.getD [])) := by
    refine h.sublist ?_
    simp only [Item.slots, ← List.append_assoc, ← List.cons_append]
    exact List.sublist_append_right ..
  have htree : (Item.transition t).tree = .node .transition ([.leaf t.source, .leaf t.target] ++
    nodePart .event t.event ++ nodePart .guard t.guard ++ actionsPart t.actions) := rfl
  refine ⟨?_, ⟨hsource', htarget', ?_, ?_, forall_isCall_getD hactions⟩, rfl⟩
  · rw [htree]
    refine ⟨⟨t.source, t.target, ?_, rfl, rfl, rfl⟩, ?_, ?_, ?_⟩
    · simp [hsource, htarget, wordsAmong_nodePart, wordsAmong_actionsPart]
    · have hwords := flatMap_words_nodePart (r := .event) fun e he => (hevent e he).1
      simp [nodesAmong_nodePart, nodesAmong_actionsPart, hwords, transition, Option.toList_map]
    · have hwords := flatMap_words_nodePart (r := .guard) fun g hg => (hguard g hg).1
      have hencloses : List.Forall₂ (fun w g => Encloses w.text g) t.guard.toList
          (t.guard.toList.map condition) := by
        rw [List.forall₂_map_right_iff, List.forall₂_same]
        exact fun g hg => (isCondition_of_matches (hguard g (Option.mem_toList.1 hg)).2).1
      simpa [nodesAmong_nodePart, nodesAmong_actionsPart, hwords, transition, Option.toList_map]
        using hencloses
    · simp [nodesAmong_nodePart, actionTexts_actionsPart hactions, transition]
  · intro x hx
    obtain ⟨e, he, rfl⟩ := Option.map_eq_some_iff.1 hx
    exact (hevent e he).2
  · intro x hx
    obtain ⟨g, hg, rfl⟩ := Option.map_eq_some_iff.1 hx
    exact (isCondition_of_matches (hguard g hg).2).2

theorem stems_timer {t : TimerItem} {x : Timer} (h : Placed (Item.timer t).slots)
    (hx : timer t = .ok x) : Stems Timer.DeclaredBy Timer.Clean Timer.span x (.timer t) := by
  obtain ⟨hid, hid'⟩ := h.word (k := .name) (w := t.id) (by simp [Item.slots])
  obtain ⟨hduration, -⟩ := h.word (k := .int) (w := t.duration) (by simp [Item.slots])
  obtain ⟨hevent, hevent'⟩ := h.word (k := .name) (w := t.event) (by simp [Item.slots])
  have hperiodic : ∀ w ∈ t.periodic, w.kind = .periodic := fun w hw =>
    (h.word (k := .periodic) (by simp [Item.slots, Option.mem_def.1 hw])).1
  have htree : (Item.timer t).tree =
    .node .timer ([.leaf t.id, .leaf t.duration, .leaf t.event] ++ leafPart t.periodic) := rfl
  cases hn : Text.readNat t.duration.text with
  | error e =>
    rw [timer, hn] at hx
    cases hx
  | ok n =>
    rw [timer, hn] at hx
    cases hx
    refine ⟨?_, ⟨hid', hevent', n, rfl⟩, rfl⟩
    rw [htree]
    refine ⟨⟨t.id, t.event, ?_, rfl, rfl, rfl⟩, ⟨t.duration, n, ?_, hn, rfl⟩, ?_⟩
    · simp [hid, hduration, hevent, wordsAmong_leafPart hperiodic]
    · simp [hid, hduration, hevent, wordsAmong_leafPart hperiodic]
    · have hflag : t.periodic.isSome = !t.periodic.toList.isEmpty := by
        cases t.periodic <;> rfl
      simp [hid, hduration, hevent, wordsAmong_leafPart hperiodic, hflag]

theorem branch_declaredBy {b : BranchLine} (h : Placed b.slots) :
    (branch b).DeclaredBy b.tree ∧ (branch b).Clean := by
  obtain ⟨hmarker, hmatches⟩ := h.word (w := b.marker) (List.mem_cons_self ..)
  obtain ⟨htarget, hname⟩ := h.word (k := .name) (w := b.target) (by simp [BranchLine.slots])
  have hactions : Placed (Grammar.actionSlots (b.actions.getD [])) :=
    h.sublist (List.Sublist.cons _ (List.sublist_cons_self ..))
  have hactionTexts : (branch b).actions =
      (b.tree.nodes [.actions]).flatMap Tree.actionTexts := by
    simp [BranchLine.tree, actionTexts_actionsPart hactions, branch]
  by_cases helse : b.marker.kind = .elseMark
  · have htree : b.tree = .node .elseBranch
        ([.leaf b.marker, .leaf b.target] ++ actionsPart b.actions) := by
      rw [BranchLine.tree, if_pos helse]
    have hcondition : (branch b).condition = none := if_pos helse
    refine ⟨⟨?_, ?_, hactionTexts⟩, ?_, hname, forall_isCall_getD hactions⟩
    · rw [hcondition]
      refine ⟨_, b.marker, htree, ?_, rfl⟩
      simp [htree, helse, htarget, wordsAmong_actionsPart]
    · simp [htree, helse, htarget, wordsAmong_actionsPart, branch]
    · simp [hcondition]
  · have hguard : b.marker.kind = .guard := by rw [hmarker, Grammar.markerTerminal, if_neg helse]
    rw [Grammar.markerTerminal, if_neg helse] at hmatches
    obtain ⟨hencloses, hclean⟩ := isCondition_of_matches hmatches
    have htree : b.tree = .node .branch
        ([.leaf b.marker, .leaf b.target] ++ actionsPart b.actions) := by
      rw [BranchLine.tree, if_neg helse]
    have hcondition : (branch b).condition = some (condition b.marker) := if_neg helse
    refine ⟨⟨?_, ?_, hactionTexts⟩, ?_, hname, forall_isCall_getD hactions⟩
    · rw [hcondition]
      refine ⟨_, b.marker, htree, ?_, hencloses, rfl⟩
      simp [htree, hguard, htarget, wordsAmong_actionsPart]
    · simp [htree, hguard, htarget, wordsAmong_actionsPart, branch]
    · simpa [hcondition] using hclean

theorem stems_choice {c : ChoiceItem} (h : Placed (Item.choice c).slots) :
    Stems Choice.DeclaredBy (fun x => x.Clean ∧ Increasing (x.branches.map (·.span))) Choice.span
      (choice c) (.choice c) := by
  obtain ⟨hkind, hname⟩ := h.word (k := .name) (w := c.id) (by simp [Item.slots])
  have hbranch : ∀ b ∈ c.branches, (branch b).DeclaredBy b.tree ∧ (branch b).Clean := fun b hb =>
    branch_declaredBy
      (h.sublist (List.Sublist.cons _ (List.sublist_flatten_of_mem (List.mem_map_of_mem hb))))
  have hbefore : c.branches.Pairwise fun b b' => b.marker.span.Before b'.marker.span :=
    pairwise_before_of_placed (fun b => ⟨_, List.mem_cons_self ..⟩)
      (h.sublist (List.sublist_cons_self ..))
  refine ⟨⟨⟨c.id, ?_, rfl, rfl⟩, ?_⟩, ⟨⟨hname, ?_⟩, ?_⟩, rfl⟩
  · simp [Item.tree, hkind, wordsAmong_branches]
  · rw [Item.tree, Tree.nodes_node, Tree.nodesAmong_leaf, nodesAmong_branches, choice,
      List.forall₂_map_left_iff, List.forall₂_map_right_iff, List.forall₂_same]
    exact fun b hb => (hbranch b hb).1
  · exact List.forall_mem_map.2 fun b hb => (hbranch b hb).2
  · refine ⟨c.branches.map (·.marker.span), ?_, List.pairwise_map.2 hbefore⟩
    simp [choice, branch]

end Declaration

end Statechart
