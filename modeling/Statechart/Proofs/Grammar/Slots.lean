import Mathlib
import Statechart.Proofs.Grammar.Course

/-!
# Words and the places they take in a tree

Each place of a syntax tree is for a word of one terminal. The words that a stage holds are words
that have been read, in the order of the text, and each stands in a place for its own terminal:
beside the terminals of their places (`Stage.slots`) they are a sublist of the words read, beside
their own (`slots_sublist_of_next`).

Main statement: `placed_of_read`.
-/

namespace Statechart.Grammar

/-- A word beside the terminal that its place is for. -/
abbrev Slot := Terminal × Token

/-- The word beside its own terminal. -/
def Token.slot (t : Token) : Slot := (t.kind, t)

/-! ## The places of a tree -/

/-- The places of an action list. -/
def actionSlots (ts : List Token) : List Slot := ts.map (Terminal.action, ·)

def HookLine.slots (l : HookLine) : List Slot := actionSlots l.actions

def BranchLine.slots (b : BranchLine) : List Slot :=
  (markerTerminal b.marker, b.marker) :: (.name, b.target) :: actionSlots (b.actions.getD [])

/-- The places of an item, in the order of the text. -/
def Item.slots : Item → List Slot
  | .initial i => [(.initialMark, i.mark), (.name, i.target)]
  | .state s =>
    (.name, s.id) :: ((s.description.map (Terminal.string, ·)).toList ++
      (s.hooks.getD []).flatMap HookLine.slots)
  | .transition t =>
    (.name, t.source) :: (.name, t.target) :: ((t.event.map (Terminal.name, ·)).toList ++
      ((t.guard.map (Terminal.guard, ·)).toList ++ actionSlots (t.actions.getD [])))
  | .timer t =>
    (.name, t.id) :: (.int, t.duration) :: (.name, t.event) ::
      (t.periodic.map (Terminal.periodic, ·)).toList
  | .choice c => (.name, c.id) :: c.branches.flatMap BranchLine.slots

def Machine.slots (m : Machine) : List Slot := (.name, m.name) :: m.items.flatMap Item.slots

/-! ## The places that are taken at a stage -/

def Draft.slots (d : Draft) : List Slot := (.name, d.name) :: d.items.flatMap Item.slots

def OpenState.slots (s : OpenState) : List Slot := s.close.slots

/-- The places before an action list. -/
def ActionSite.slots : ActionSite → List Slot
  | .hook d s _ => d.slots ++ s.slots
  | .transition d i => d.slots ++ (Item.transition i).slots
  | .branch d c b => d.slots ++ (Item.choice c).slots ++ b.slots

/-- The places that are taken at a stage. -/
def Stage.slots : Stage → List Slot
  | start | machineName => []
  | machineOpen n => [(.name, n)]
  | body d | stateName d | timerName d | choiceName d => d.slots
  | initialArrow d m | initialTarget d m => d.slots ++ [(.initialMark, m)]
  | stateNamed d n | stateColon d n | timerEquals d n | timerDuration d n | choiceOpen d n
  | transitionArrow d n | transitionTarget d n => d.slots ++ [(.name, n)]
  | stateDescribed d n x => d.slots ++ [(.name, n), (.string, x)]
  | hooks d s | hookSlash d s _ => d.slots ++ s.slots
  | transitionEnds d a b | trigger d a b => d.slots ++ [(.name, a), (.name, b)]
  | eventRead d i | guardRead d i | transitionActed d i => d.slots ++ (Item.transition i).slots
  | timerArrow d n x | timerEvent d n x => d.slots ++ [(.name, n), (.int, x)]
  | timerRead d n x e => d.slots ++ [(.name, n), (.int, x), (.name, e)]
  | branches d c => d.slots ++ (Item.choice c).slots
  | branchArrow d c m | branchTarget d c m =>
    d.slots ++ (Item.choice c).slots ++ [(markerTerminal m, m)]
  | branchEnds d c b | branchActed d c b => d.slots ++ (Item.choice c).slots ++ b.slots
  | actionWanted site done | actionRead site done => site.slots ++ actionSlots done
  | finished m => m.slots

/-- Where a guard is still to come, there are no actions yet. -/
def Stage.AwaitsGuard : Stage → Prop
  | eventRead _ i => i.guard = none ∧ i.actions = none
  | _ => True

@[simp] theorem Draft.slots_nil (name : Token) : Draft.slots ⟨name, []⟩ = [(.name, name)] := rfl

@[simp] theorem Draft.slots_add (d : Draft) (i : Item) : (d.add i).slots = d.slots ++ i.slots := by
  simp [slots, add]

theorem OpenState.slots_addHook (s : OpenState) (l : HookLine) :
    OpenState.slots { s with hooks := s.hooks ++ [l] } = s.slots ++ l.slots := by
  simp [slots, close, Item.slots]

@[simp] theorem ChoiceItem.slots_addBranch (c : ChoiceItem) (b : BranchLine) :
    (Item.choice (Stage.addBranch c b)).slots = (Item.choice c).slots ++ b.slots := by
  simp [Item.slots, Stage.addBranch]

namespace Stage

variable {s u : Stage} {t : Token}

/-- The stage holds words for some places, and no actions where a guard is still to come. -/
structure Holds (u : Stage) (slots : List Slot) : Prop where
  sublist : u.slots.Sublist slots
  awaitsGuard : u.AwaitsGuard

theorem Holds.mono {slots slots' : List Slot} (h : u.Holds slots) (hs : slots.Sublist slots') :
    u.Holds slots' := ⟨h.sublist.trans hs, h.awaitsGuard⟩

theorem holds_of_inBodyNext {d : Draft} (h : inBodyNext d t = .ok u) :
    u.Holds (d.slots ++ [t.slot]) := by
  unfold inBodyNext at h
  split at h
  case h_7 => cases h
  all_goals
    rename_i hkind
    cases h
    refine ⟨?_, trivial⟩
    simp [slots, Token.slot, hkind, Machine.slots, Draft.slots]

theorem holds_of_inHooksNext {d : Draft} {o : OpenState} (h : inHooksNext d o t = .ok u) :
    u.Holds (d.slots ++ o.slots ++ [t.slot]) := by
  unfold inHooksNext at h
  split at h
  case h_4 => cases h
  all_goals
    cases h
    refine ⟨?_, trivial⟩
    simp [slots, OpenState.slots]

theorem holds_of_inBranchesNext {d : Draft} {c : ChoiceItem} (h : inBranchesNext d c t = .ok u) :
    u.Holds (d.slots ++ (Item.choice c).slots ++ [t.slot]) := by
  unfold inBranchesNext at h
  split at h
  case h_4 => cases h
  all_goals
    rename_i hkind
    cases h
    refine ⟨?_, trivial⟩
    simp [slots, Token.slot, hkind, markerTerminal]

theorem holds_of_afterActionsNext {site : ActionSite} {done : List Token}
    (h : afterActionsNext site done t = .ok u) :
    u.Holds (site.slots ++ actionSlots done ++ [t.slot]) := by
  cases site with
  | hook d o kind =>
    have hnext := holds_of_inHooksNext h
    rwa [OpenState.slots_addHook, ← List.append_assoc] at hnext
  | transition d i =>
    change (if _ then _ else _) = _ at h
    split at h
    · refine (holds_of_inBodyNext h).mono (List.Sublist.append_right ?_ _)
      simp [ActionSite.slots, Item.slots]
    · cases h
  | branch d c b =>
    change (if _ then _ else _) = _ at h
    split at h
    · refine (holds_of_inBranchesNext h).mono (List.Sublist.append_right ?_ _)
      simp [ActionSite.slots, BranchLine.slots]
    · cases h

/-- **One word takes one place**: what a stage holds after a word, it held before, or it is the
word in a place for its own terminal. -/
theorem holds_of_next (h : s.next t = .ok u) (hs : s.AwaitsGuard) :
    u.Holds (s.slots ++ [t.slot]) := by
  have hitem {d : Draft} {i : Item} (h : inBodyNext (d.add i) t = .ok u) :
      u.Holds (d.slots ++ i.slots ++ [t.slot]) :=
    d.slots_add i ▸ holds_of_inBodyNext h
  have hline {d : Draft} {c : ChoiceItem} {b : BranchLine}
      (h : inBranchesNext d (addBranch c b) t = .ok u) :
      u.Holds (d.slots ++ (Item.choice c).slots ++ b.slots ++ [t.slot]) := by
    have hnext := holds_of_inBranchesNext h
    rwa [ChoiceItem.slots_addBranch, ← List.append_assoc] at hnext
  unfold next at h
  split at h
  -- some words are read as between items, lines or branches, or as after actions
  all_goals first
    | exact holds_of_inBodyNext h
    | exact holds_of_inHooksNext h
    | exact holds_of_inBranchesNext h
    | exact holds_of_afterActionsNext h
    | exact hitem h
    | exact hline h
    | clear hitem hline
  -- the others are read as the stage wants them
  all_goals cases h
  all_goals
    simp only [AwaitsGuard] at hs
    constructor
  all_goals
    simp [AwaitsGuard, slots, ActionSite.slots, OpenState.slots, OpenState.close, Item.slots,
      BranchLine.slots, actionSlots, Token.slot, *]

theorem holds_of_foldlM {ws : List Token} (h : ws.foldlM next s = .ok u) (hs : s.AwaitsGuard) :
    u.Holds (s.slots ++ ws.map Token.slot) := by
  induction ws generalizing s with
  | nil =>
    cases h
    exact ⟨by simp, hs⟩
  | cons t ws ih =>
    rw [List.foldlM_cons] at h
    cases hnext : s.next t with
    | error stuck =>
      rw [hnext] at h
      cases h
    | ok v =>
      rw [hnext] at h
      obtain ⟨hv, hguard⟩ := holds_of_next hnext hs
      refine (ih h hguard).mono ?_
      rw [List.map_cons, List.append_cons]
      exact hv.append_right _

end Stage

/-! ## The tree that is read -/

/-- Words that stand in their places: each is a word of the terminal that its place is for, and
they come in the order of the text. -/
structure Placed (slots : List Slot) : Prop where
  kind_eq : ∀ x ∈ slots, x.2.kind = x.1
  fits : ∀ x ∈ slots, x.1.Matches x.2.text.toList
  increasing : slots.Pairwise fun x y => x.2.span.Before y.2.span

theorem Placed.word {k : Terminal} {w : Token} {slots : List Slot} (h : Placed slots)
    (hw : (k, w) ∈ slots) : w.kind = k ∧ k.Matches w.text.toList :=
  ⟨h.kind_eq _ hw, h.fits _ hw⟩

theorem Placed.sublist {slots slots' : List Slot} (h : Placed slots') (hs : slots.Sublist slots') :
    Placed slots :=
  ⟨fun x hx => h.kind_eq x (hs.subset hx), fun x hx => h.fits x (hs.subset hx),
    h.increasing.sublist hs⟩

theorem matches_of_mem_tokens {before : List Char} {segments : List Segment}
    (h : ∀ s ∈ segments, s.Fits) : ∀ w ∈ tokens before segments, w.kind.Matches w.text.toList := by
  induction segments generalizing before with
  | nil => simp [tokens]
  | cons s segments ih =>
    obtain ⟨hs, hrest⟩ := List.forall_mem_cons.1 h
    cases s with
    | ignored cs => exact ih hrest
    | word t cs =>
      refine List.forall_mem_cons.2 ⟨?_, ih hrest⟩
      rw [String.toList_ofList]
      exact hs

theorem placed_tokens {segments : List Segment} (h : ∀ s ∈ segments, s.Fits) :
    Placed ((tokens [] segments).map Token.slot) := by
  refine ⟨List.forall_mem_map.2 fun _ _ => rfl, List.forall_mem_map.2 (matches_of_mem_tokens h), ?_⟩
  rw [List.pairwise_map]
  exact tokens_increasing [] h

/-- **The words of a tree that is read stand in their places.** -/
theorem placed_of_read {text : String} {m : Machine} (h : read text = .ok m) : Placed m.slots := by
  obtain ⟨segments, -, hfits, hreads⟩ := exists_consumes_of_read h
  exact (placed_tokens hfits).sublist (Stage.holds_of_foldlM hreads trivial).sublist

end Statechart.Grammar
