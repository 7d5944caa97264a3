import Mathlib
import Statechart.Grammar.Reader
import Statechart.Proofs.Grammar.Lexing

/-!
# Reading words one after the other

`Comes P s ws` says that reading the words `ws` from the stage `s` goes through and comes to a
stage with the property `P`, wherever the words stand in a text. For a text made of words this is
what the reader does (`exists_readFrom_eq`).

After an item, a line or a branch there are several stages which read the next word in the same
way; `ReadsAs` says in which.
-/

namespace Statechart.Grammar

/-! ## Words -/

/-- Reading the words comes to a stage with the property. -/
def Comes (P : Stage → Prop) : Stage → List String → Prop
  | s, [] => P s
  | s, w :: ws => ∃ t, Lexes s.expected t w.toList ∧
    ∀ span, ∃ s', s.next ⟨t, w, span⟩ = .ok s' ∧ Comes P s' ws

/-- A text is made of the words, each with a space or a line feed after it. -/
inductive Spaced : List String → List Char → Prop
  | nil : Spaced [] []
  | cons {w : String} {ws : List String} {c : Char} {cs : List Char} (hc : isBreak c)
    (hcs : Spaced ws cs) : Spaced (w :: ws) (w.toList ++ c :: cs)

variable {P Q : Stage → Prop} {s s' : Stage} {ws vs : List String} {w : String} {t : Terminal}

theorem Spaced.append {cs ds : List Char} (h : Spaced ws cs) (h' : Spaced vs ds) :
    Spaced (ws ++ vs) (cs ++ ds) := by
  induction h with
  | nil => exact h'
  | cons hc _ ih => simpa only [List.cons_append, List.append_assoc] using Spaced.cons hc ih

namespace Comes

theorem read (hlex : Lexes s.expected t w.toList)
    (h : ∀ span, ∃ s', s.next ⟨t, w, span⟩ = .ok s' ∧ Comes P s' ws) : Comes P s (w :: ws) :=
  ⟨t, hlex, h⟩

theorem mono (h : Comes P s ws) (hPQ : ∀ s, P s → Q s) : Comes Q s ws := by
  induction ws generalizing s with
  | nil => exact hPQ s h
  | cons w ws ih =>
    obtain ⟨t, hlex, hnext⟩ := h
    refine ⟨t, hlex, fun span => ?_⟩
    obtain ⟨s', hs', hcomes⟩ := hnext span
    exact ⟨s', hs', ih hcomes⟩

theorem append (h : Comes (fun s' => Comes P s' vs) s ws) : Comes P s (ws ++ vs) := by
  induction ws generalizing s with
  | nil => exact h
  | cons w ws ih =>
    obtain ⟨t, hlex, hnext⟩ := h
    refine ⟨t, hlex, fun span => ?_⟩
    obtain ⟨s', hs', hcomes⟩ := hnext span
    exact ⟨s', hs', ih hcomes⟩

/-- First some words, then some more. -/
theorem trans (h : Comes Q s ws) (h' : ∀ s', Q s' → Comes P s' vs) : Comes P s (ws ++ vs) :=
  (h.mono h').append

end Comes

/-! ## The reader -/

theorem readFrom_of_skip? {p : Place} {cs : List Char} {k : Cut} (h : skip? cs = some k) :
    readFrom s p cs = readFrom s (p.advance k.1) k.2 := by
  cases cs with
  | nil => cases h
  | cons c r =>
    rw [readFrom]
    split
    · rename_i k' hk'
      rw [h] at hk'
      cases hk'
      rfl
    · rename_i hnone
      rw [h] at hnone
      cases hnone

/-- A word that fits is read. -/
theorem readFrom_of_lexeme? {p : Place} {cs : List Char} {k : Cut} (hskip : skip? cs = none)
    (hlex : lexeme? s.expected cs = some (t, k))
    (hnext : s.next ⟨t, String.ofList k.1, p.toSpan⟩ = .ok s') :
    readFrom s p cs = readFrom s' (p.advance k.1) k.2 := by
  cases cs with
  | nil =>
    have := (lexeme?_split hlex).length_lt
    simp at this
  | cons c r =>
    rw [readFrom]
    split
    · rename_i hsome
      rw [hskip] at hsome
      cases hsome
    · split
      · rename_i u j hword
        rw [hlex] at hword
        cases hword
        rw [hnext]
      · rename_i hnone
        rw [hlex] at hnone
        cases hnone

/-- White space is passed over character by character. -/
theorem readFrom_white {p : Place} {c : Char} (hc : isWhite c = true) (cs : List Char) :
    readFrom s p (c :: cs) = readFrom s (p.next c) cs := by
  rw [readFrom_of_skip? (skip?_of_isWhite hc cs)]
  cases cs with
  | nil => rfl
  | cons d r =>
    cases hd : isWhite d with
    | true =>
      rw [readFrom_of_skip? (skip?_of_isWhite hd r)]
      simp [Cut.push, cutWhile, hd]
    | false => simp [Cut.push, cutWhile, hd]

/-- A text made of words is read word by word. -/
theorem exists_readFrom_eq {cs : List Char} (hcs : Spaced ws cs) (h : Comes P s ws) (p : Place) :
    ∃ s' p', P s' ∧ readFrom s p cs = readFrom s' p' [] := by
  induction hcs generalizing s p with
  | nil => exact ⟨s, p, h, rfl⟩
  | @cons w ws c cs hc _ ih =>
    obtain ⟨t, hlex, hnext⟩ := h
    obtain ⟨hskip, hword⟩ := hlex c cs hc
    obtain ⟨s', hs', hcomes⟩ := hnext p.toSpan
    rw [← String.ofList_toList (s := w)] at hs'
    obtain ⟨s'', p'', hP, hread⟩ := ih hcomes ((p.advance w.toList).next c)
    refine ⟨s'', p'', hP, ?_⟩
    rw [readFrom_of_lexeme? hskip hword hs', readFrom_white hc.isWhite, hread]

/-! ## Stages that read alike -/

/-- The stage reads the words of some kinds as the function does, and wants them. -/
structure ReadsAs (s : Stage) (kinds : List Terminal) (read : Token → Except Stage Stage) :
    Prop where
  next : ∀ k ∈ kinds, ∀ text span, s.next ⟨k, text, span⟩ = read ⟨k, text, span⟩
  expects : ∀ k ∈ kinds, s.expected.contains k = true
  no_action : s.expected.contains .action = false

section

variable {p : Terminal → Prop}

theorem forall_mem_inBody (h1 : p .initialMark) (h2 : p .state) (h3 : p .name) (h4 : p .timer)
    (h5 : p .choice) (h6 : p .closeBrace) : ∀ k ∈ Stage.inBody, p k := by
  simp [Stage.inBody, *]

theorem forall_mem_inHooks (h1 : p .entry) (h2 : p .exit) (h3 : p .closeBrace) :
    ∀ k ∈ Stage.inHooks, p k := by
  simp [Stage.inHooks, *]

theorem forall_mem_inBranches (h1 : p .guard) (h2 : p .elseMark) (h3 : p .closeBrace) :
    ∀ k ∈ Stage.inBranches, p k := by
  simp [Stage.inBranches, *]

end

/-- The stages after which the next item of a machine may come. -/
inductive AtBody : Stage → Draft → Prop
  | body (d : Draft) : AtBody (.body d) d
  | stateNamed (d : Draft) (n : Token) : AtBody (.stateNamed d n) (d.add (.state ⟨n, none, none⟩))
  | stateDescribed (d : Draft) (n x : Token) :
    AtBody (.stateDescribed d n x) (d.add (.state ⟨n, some x, none⟩))
  | transitionEnds (d : Draft) (a b : Token) :
    AtBody (.transitionEnds d a b) (d.add (.transition ⟨a, b, none, none, none⟩))
  | eventRead (d : Draft) (i : TransitionItem) : AtBody (.eventRead d i) (d.add (.transition i))
  | guardRead (d : Draft) (i : TransitionItem) : AtBody (.guardRead d i) (d.add (.transition i))
  | timerRead (d : Draft) (n x e : Token) :
    AtBody (.timerRead d n x e) (d.add (.timer ⟨n, x, e, none⟩))
  | actionRead (d : Draft) (i : TransitionItem) (done : List Token) :
    AtBody (.actionRead (.transition d i) done)
      (d.add (.transition { i with actions := some done }))

/-- The stages after which the next line of a state may come. -/
inductive AtHooks : Stage → Draft → OpenState → Prop
  | hooks (d : Draft) (o : OpenState) : AtHooks (.hooks d o) d o
  | actionRead (d : Draft) (o : OpenState) (kind : HookKind) (done : List Token) :
    AtHooks (.actionRead (.hook d o kind) done) d { o with hooks := o.hooks ++ [⟨kind, done⟩] }

/-- The stages after which the next branch of a choice may come. -/
inductive AtBranches : Stage → Draft → ChoiceItem → Prop
  | branches (d : Draft) (c : ChoiceItem) : AtBranches (.branches d c) d c
  | branchEnds (d : Draft) (c : ChoiceItem) (l : BranchLine) :
    AtBranches (.branchEnds d c l) d (Stage.addBranch c l)
  | actionRead (d : Draft) (c : ChoiceItem) (l : BranchLine) (done : List Token) :
    AtBranches (.actionRead (.branch d c l) done) d
      (Stage.addBranch c { l with actions := some done })

theorem AtBody.readsAs {d : Draft} (h : AtBody s d) :
    ReadsAs s Stage.inBody (Stage.inBodyNext d) := by
  cases h <;> exact
    { next := forall_mem_inBody (fun _ _ => rfl) (fun _ _ => rfl) (fun _ _ => rfl) (fun _ _ => rfl)
        (fun _ _ => rfl) (fun _ _ => rfl)
      expects := List.all_eq_true.1 rfl
      no_action := rfl }

theorem AtHooks.readsAs {d : Draft} {o : OpenState} (h : AtHooks s d o) :
    ReadsAs s Stage.inHooks (Stage.inHooksNext d o) := by
  cases h <;> exact
    { next := forall_mem_inHooks (fun _ _ => rfl) (fun _ _ => rfl) (fun _ _ => rfl)
      expects := List.all_eq_true.1 rfl
      no_action := rfl }

theorem AtBranches.readsAs {d : Draft} {c : ChoiceItem} (h : AtBranches s d c) :
    ReadsAs s Stage.inBranches (Stage.inBranchesNext d c) := by
  cases h <;> exact
    { next := forall_mem_inBranches (fun _ _ => rfl) (fun _ _ => rfl) (fun _ _ => rfl)
      expects := List.all_eq_true.1 rfl
      no_action := rfl }

/-! ## Steps -/

namespace ReadsAs

variable {kinds : List Terminal} {next : Token → Except Stage Stage}

/-- A keyword of the kinds. -/
theorem keyword (h : ReadsAs s kinds next) (p : Terminal × String) (hp : p ∈ Terminal.keywords)
    (hkind : p.1 ∈ kinds)
    (hnext : ∀ span, ∃ s', next ⟨p.1, p.2, span⟩ = .ok s' ∧ Comes P s' ws) :
    Comes P s (p.2 :: ws) := by
  refine .read (lexes_keyword p hp (h.expects _ hkind) h.no_action) fun span => ?_
  rw [h.next _ hkind]
  exact hnext span

/-- A mark of the kinds. -/
theorem mark (h : ReadsAs s kinds next) (p : Terminal × String) (hp : p ∈ Terminal.marks)
    (hkind : p.1 ∈ kinds)
    (hnext : ∀ span, ∃ s', next ⟨p.1, p.2, span⟩ = .ok s' ∧ Comes P s' ws) :
    Comes P s (p.2 :: ws) := by
  refine .read (lexes_mark p hp (h.expects _ hkind)) fun span => ?_
  rw [h.next _ hkind]
  exact hnext span

end ReadsAs

namespace Comes

/-- An identifier where nothing else is wanted. -/
theorem name (hs : s.expected = [.name]) (hw : Terminal.Matches .name w.toList)
    (hnext : ∀ span, ∃ s', s.next ⟨.name, w, span⟩ = .ok s' ∧ Comes P s' ws) :
    Comes P s (w :: ws) :=
  .read (hs ▸ lexes_name hw rfl rfl rfl) hnext

/-- A mark that is wanted. -/
theorem mark (p : Terminal × String) (hp : p ∈ Terminal.marks)
    (hwanted : s.expected.contains p.1 = true)
    (hnext : ∀ span, ∃ s', s.next ⟨p.1, p.2, span⟩ = .ok s' ∧ Comes P s' ws) :
    Comes P s (p.2 :: ws) :=
  .read (lexes_mark p hp hwanted) hnext

end Comes

end Statechart.Grammar
