import Mathlib
import Statechart.Model.Reading
import Statechart.Proofs.Grammar.Layout

/-!
# Declarations do not depend on layout

What an item declares, and whether it can be declared, depends on its words but not on where they
stand (`addItem_bare`), and so does the declaration of a whole tree (`map_bare_ofTree`). With what
is known of reading, a text declares the same when white space and comments are put in after its
words.

Main statement: `exists_read_insert_same`.
-/

namespace Statechart

namespace Declaration

open Grammar (Token HookLine HookKind InitialItem StateItem TransitionItem TimerItem BranchLine
  ChoiceItem Item Machine Segment EndInWord Filler segments textWith)

variable {names : Text.CharacterNames}

/-! ## Items without spans -/

theorem actions_bare (ts : List Token) : actions (ts.map Token.bare) = actions ts := by
  simp [actions, Function.comp_def, Token.bare]

theorem getD_actions_bare (ts : Option (List Token)) :
    ((ts.map fun ts => ts.map Token.bare).map actions).getD [] = (ts.map actions).getD [] := by
  cases ts <;> simp [actions_bare]

theorem hookActions_bare (kind : HookKind) (ls : Option (List HookLine)) :
    hookActions kind ((ls.map fun ls => ls.map HookLine.bare).getD []) =
      hookActions kind (ls.getD []) := by
  cases ls with
  | none => rfl
  | some ls =>
    simp [hookActions, List.filter_map, List.flatMap_map, Function.comp_def, HookLine.bare,
      actions_bare]

theorem branch_bare (b : BranchLine) : (branch b.bare).bare = (branch b).bare := by
  simp only [branch, Branch.bare, BranchLine.bare, getD_actions_bare]
  rfl

theorem transition_bare (t : TransitionItem) : (transition t.bare).bare = (transition t).bare := by
  have htext (e : Option Token) : (e.map Token.bare).map (·.text) = e.map (·.text) := by
    cases e <;> rfl
  have hcondition (g : Option Token) : (g.map Token.bare).map condition = g.map condition := by
    cases g <;> rfl
  simp only [transition, Transition.bare, TransitionItem.bare, getD_actions_bare, htext,
    hcondition]
  rfl

theorem choice_bare (c : ChoiceItem) : (choice c.bare).bare = (choice c).bare := by
  simp [choice, Choice.bare, ChoiceItem.bare, Function.comp_def, branch_bare, Token.bare]

theorem map_bare_state (s : StateItem) :
    (state names s.bare).map State.bare = (state names s).map State.bare := by
  obtain ⟨id, description, hooks⟩ := s
  cases description with
  | none =>
    simp only [state, StateItem.bare, Option.map_none, hookActions_bare]
    rfl
  | some t =>
    have ht : t.bare.text = t.text := rfl
    simp only [state, StateItem.bare, Option.map_some, hookActions_bare, ht]
    cases Text.ofLiteral names t.text <;> rfl

theorem map_bare_timer (t : TimerItem) :
    (timer t.bare).map Timer.bare = (timer t).map Timer.bare := by
  have ht : t.duration.bare.text = t.duration.text := rfl
  simp only [timer, TimerItem.bare, Option.isSome_map, ht]
  cases Text.readNat t.duration.text <;> rfl

/-! ## Declarations -/

/-- What follows results that are alike, and treats them alike, gives declarations that are. -/
theorem map_bare_bind {α β : Type} {f : α → β} {x x' : Except ReadError α}
    (hx : x'.map f = x.map f) {g g' : α → Except ReadError Declaration}
    (hg : ∀ a a', f a' = f a → (g' a').map bare = (g a).map bare) :
    (x' >>= g').map bare = (x >>= g).map bare := by
  cases x' with
  | error e' =>
    cases x with
    | error e =>
      cases hx
      rfl
    | ok a => cases hx
  | ok a' =>
    cases x with
    | error e => cases hx
    | ok a => exact hg a a' (Except.ok.inj hx)

/-- What an item adds to a declaration, or why it cannot be added, does not depend on spans. -/
theorem map_bare_addItem {d d' : Declaration} (hd : d'.Same d) {i i' : Item}
    (hi : i'.bare = i.bare) : (addItem names d' i').map bare = (addItem names d i).map bare := by
  suffices hbare : ∀ {d d' : Declaration}, d'.Same d → ∀ i : Item,
      (addItem names d' i.bare).map bare = (addItem names d i).map bare by
    rw [← hbare (d := d') rfl i', hi]
    exact hbare hd i
  intro d d' hd i
  simp only [Same, bare, mk.injEq] at hd
  cases i with
  | initial i => simp [addItem, Item.bare, Except.map, bare, hd, InitialMarker.bare,
      InitialItem.bare, Token.bare]
  | transition t => simp [addItem, Item.bare, Except.map, bare, hd, transition_bare]
  | choice c => simp [addItem, Item.bare, Except.map, bare, hd, choice_bare]
  | state s =>
    exact map_bare_bind (map_bare_state s) fun x x' hx => by
      simp [pure, Except.pure, Except.map, bare, hd, hx]
  | timer t =>
    exact map_bare_bind (map_bare_timer t) fun x x' hx => by
      simp [pure, Except.pure, Except.map, bare, hd, hx]

theorem map_bare_foldlM {items items' : List Item} {d d' : Declaration} (hd : d'.Same d)
    (hitems : items'.map Item.bare = items.map Item.bare) :
    (items'.foldlM (addItem names) d').map bare = (items.foldlM (addItem names) d).map bare := by
  induction items generalizing items' d d' with
  | nil =>
    obtain rfl : items' = [] := by simpa using hitems
    exact congrArg Except.ok hd
  | cons i items ih =>
    cases items' with
    | nil => cases hitems
    | cons i' items' =>
      simp only [List.map_cons, List.cons.injEq] at hitems
      rw [List.foldlM_cons, List.foldlM_cons]
      exact map_bare_bind (map_bare_addItem hd hitems.1) fun e e' he => ih he hitems.2

/-- A tree's declaration, or why it has none, does not depend on spans. -/
theorem map_bare_ofTree {m m' : Machine} (h : m'.bare = m.bare) :
    (ofTree names m').map bare = (ofTree names m).map bare := by
  obtain ⟨hname, hitems⟩ := Machine.mk.inj h
  have htext := congrArg Token.text hname
  have hname : m'.name.text = m.name.text := htext
  refine map_bare_foldlM ?_ hitems
  simp [Same, bare, hname]

/-- **Declarations do not depend on layout**: where a text declares something, its segments make it
up, and wherever they are split after a word or at the front, the text with a filler put in there
declares the same. -/
theorem exists_read_insert_same {text : String} {d : Declaration} (h : read names text = .ok d) :
    (segments text).flatMap Segment.text = text.toList ∧
      ∀ before after, segments text = before ++ after → EndInWord before →
        ∀ filler, Filler filler →
          ∃ d', read names (textWith before filler after) = .ok d' ∧ d'.Same d := by
  obtain ⟨m, hm, htree⟩ : ∃ m, Grammar.read text = .ok m ∧ ofTree names m = .ok d := by
    rw [read] at h
    cases hread : Grammar.read text with
    | error e =>
      rw [hread] at h
      cases h
    | ok m =>
      rw [hread] at h
      exact ⟨m, rfl, h⟩
  obtain ⟨htext, hinsert⟩ := Grammar.exists_read_insert_bare_eq hm
  refine ⟨htext, fun before after hsplit hword filler hfiller => ?_⟩
  obtain ⟨m', hm', hbare⟩ := hinsert before after hsplit hword filler hfiller
  have hsame : (ofTree names m').map bare = (ofTree names m).map bare := map_bare_ofTree hbare
  rw [htree] at hsame
  rw [read, hm']
  show ∃ d', ofTree names m' = .ok d' ∧ d'.Same d
  cases hd' : ofTree names m' with
  | error e =>
    rw [hd'] at hsame
    cases hsame
  | ok d' =>
    rw [hd'] at hsame
    exact ⟨d', rfl, Except.ok.inj hsame⟩

end Declaration

/-! ## A fan -/

namespace Fan

open Grammar (Segment Filler EndInWord)

/-- A fan, written with hardly any white space. -/
def text : String := "fsm F\x7b[*]-->a a-->b:e/f()\x7d"

/-- The words of the fan up to the slash. -/
def before : List Segment :=
  [.word .fsm "fsm".toList, .ignored [' '], .word .name ['F'], .word .openBrace ['\x7b'],
    .word .initialMark "[*]".toList, .word .longArrow "-->".toList, .word .name ['a'],
    .ignored [' '], .word .name ['a'], .word .longArrow "-->".toList, .word .name ['b'],
    .word .colon [':'], .word .name ['e'], .word .slash ['/']]

/-- The other words of the fan. -/
def after : List Segment := [.word .action "f()".toList, .word .closeBrace ['\x7d']]

/-- The fan as it is read. -/
def declaration : Declaration where
  name := "F"
  initial := [⟨"a", some ⟨1, 7⟩⟩]
  states := []
  choices := []
  transitions := [⟨"a", "b", some "e", none, ["f()"], some ⟨1, 15⟩⟩]
  timers := []
  span := some ⟨1, 5⟩

theorem segments_text : Grammar.segments text = before ++ after := by cbv

theorem read_text : Declaration.read (fun _ => none) text = .ok declaration := by cbv

/-- After the slash of the fan, a comment with a condition in it and one with a quote. -/
theorem filler : Filler (' ' :: ('/' :: '/' :: "[x]".toList ++ '\n' ::
    ('/' :: '*' :: ['\x22'] ++ '*' :: '/' :: []))) :=
  .mk rfl (.line (by decide) (.block (by decide) .nil))

/-- The fan with two comments after its slash is the same fan. -/
theorem commented_text_same :
    ∃ d, Declaration.read (fun _ => none)
        "fsm F\x7b[*]-->a a-->b:e/ //[x]\n/*\"*/f()\x7d" = .ok d ∧
      d.Same declaration := by
  have hword : EndInWord before := by simp [EndInWord, before]
  have hread := (Declaration.exists_read_insert_same read_text).2 before after segments_text hword
    _ filler
  exact hread

end Fan

end Statechart
