import Mathlib
import Statechart.Grammar.Tree

/-!
# Derivations

The grammar of machine descriptions as data: each rule has a form (`Rule.form`), which says in
what order its words and its parts stand. `Derives f ws ts` says that the words `ws` are written
as the form `f` says, and that `ts` are their trees: a rule makes a node, a hidden rule leaves the
trees of its parts where they are, and only the kept words make leaves.

`Form.words` is the language of a form and its trees. In the algebra of languages a form in
several parts is a product, and what has been read of a text is a product too.

Main statement: `Derives.leavesOf_eq`, the leaves of the trees are the kept words.
-/

namespace Statechart.Grammar

/-! ## The grammar -/

/-- The rules that make no node of their own. -/
inductive Hidden
  | item
  | hook
  | trigger
  | branch
  deriving DecidableEq, Repr

/-- How the words of a rule may stand. -/
inductive Form
  /-- One word. -/
  | word (t : Terminal)
  /-- What a rule says, as a node. -/
  | rule (r : Rule)
  /-- What a hidden rule says, without a node. -/
  | hidden (h : Hidden)
  /-- All of the forms, one after the other. -/
  | all (fs : List Form)
  /-- One of the forms. -/
  | any (fs : List Form)
  /-- The form, or nothing. -/
  | opt (f : Form)
  /-- The form any number of times. -/
  | many (f : Form)

open Form in
/-- What stands under a rule. -/
def Rule.form : Rule → Form
  | .start => all [rule .machine]
  | .machine => all [word .fsm, word .name, word .openBrace, many (hidden .item), word .closeBrace]
  | .initial => all [word .initialMark, word .longArrow, word .name]
  | .state =>
    all [word .state, word .name, opt (all [word .colon, word .string]), opt (rule .stateBody)]
  | .stateBody => all [word .openBrace, many (hidden .hook), word .closeBrace]
  | .entryHook => all [word .entry, word .slash, rule .actionList]
  | .exitHook => all [word .exit, word .slash, rule .actionList]
  | .transition =>
    all [word .name, word .longArrow, word .name, opt (all [word .colon, hidden .trigger])]
  | .event => all [word .name]
  | .guard => all [word .guard]
  | .actions => all [word .slash, rule .actionList]
  | .timer =>
    all [word .timer, word .name, word .equals, word .int, word .arrow, word .name,
      opt (word .periodic)]
  | .choice =>
    all [word .choice, word .name, word .openBrace, many (hidden .branch), word .closeBrace]
  | .branch => all [word .guard, word .arrow, word .name, opt (rule .actions)]
  | .elseBranch => all [word .elseMark, word .arrow, word .name, opt (rule .actions)]
  | .actionList =>
    all [word .action, many (all [any [word .semicolon, word .comma], word .action])]

open Form in
/-- What stands under a hidden rule. -/
def Hidden.form : Hidden → Form
  | .item => any [rule .initial, rule .state, rule .transition, rule .timer, rule .choice]
  | .hook => any [rule .entryHook, rule .exitHook]
  | .trigger => any [all [rule .event, opt (rule .guard), opt (rule .actions)],
      all [rule .guard, opt (rule .actions)], rule .actions]
  | .branch => any [rule .branch, rule .elseBranch]

/-- Whether the words of the terminal are kept in trees: those that carry information. -/
def Terminal.isKept : Terminal → Bool
  | name | string | int | guard | elseMark | action | periodic => true
  | _ => false

/-- The leaf of a kept word. -/
def Token.leaves (w : Token) : List Tree := if w.kind.isKept then [.leaf w] else []

/-- The words are written as the form says, and these are their trees. -/
inductive Derives : Form → List Token → List Tree → Prop
  | word {t : Terminal} {w : Token} (hw : w.kind = t) : Derives (.word t) [w] w.leaves
  | rule {r : Rule} {ws : List Token} {ts : List Tree} (h : Derives r.form ws ts) :
    Derives (.rule r) ws [.node r ts]
  | hidden {r : Hidden} {ws : List Token} {ts : List Tree} (h : Derives r.form ws ts) :
    Derives (.hidden r) ws ts
  | allNil : Derives (.all []) [] []
  | allCons {f : Form} {fs : List Form} {ws ws' : List Token} {ts ts' : List Tree}
    (h : Derives f ws ts) (hs : Derives (.all fs) ws' ts') :
    Derives (.all (f :: fs)) (ws ++ ws') (ts ++ ts')
  | any {f : Form} {fs : List Form} {ws : List Token} {ts : List Tree} (hf : f ∈ fs)
    (h : Derives f ws ts) : Derives (.any fs) ws ts
  | absent {f : Form} : Derives (.opt f) [] []
  | present {f : Form} {ws : List Token} {ts : List Tree} (h : Derives f ws ts) :
    Derives (.opt f) ws ts
  | manyNil {f : Form} : Derives (.many f) [] []
  | manyCons {f : Form} {ws ws' : List Token} {ts ts' : List Tree} (h : Derives f ws ts)
    (hs : Derives (.many f) ws' ts') : Derives (.many f) (ws ++ ws') (ts ++ ts')

theorem Derives.all_append {fs gs : List Form} {ws ws' : List Token} {ts ts' : List Tree}
    (h : Derives (.all fs) ws ts) (h' : Derives (.all gs) ws' ts') :
    Derives (.all (fs ++ gs)) (ws ++ ws') (ts ++ ts') := by
  generalize hform : Form.all fs = form at h
  induction h generalizing fs with
  | allNil => cases hform; exact h'
  | allCons h _ _ ih =>
    cases hform
    simpa only [List.cons_append, List.append_assoc] using Derives.allCons h (ih rfl)
  | _ => cases hform

theorem Derives.many_concat {f : Form} {ws ws' : List Token} {ts ts' : List Tree}
    (h : Derives (.many f) ws ts) (h' : Derives f ws' ts') :
    Derives (.many f) (ws ++ ws') (ts ++ ts') := by
  generalize hform : Form.many f = form at h
  induction h with
  | manyNil =>
    cases hform
    simpa only [List.append_nil, List.nil_append] using Derives.manyCons h' .manyNil
  | manyCons h _ _ ih =>
    cases hform
    simpa only [List.append_assoc] using Derives.manyCons h (ih rfl)
  | _ => cases hform

/-! ## Leaves -/

mutual

/-- The words of a tree, in their order. -/
def Tree.leaves : Tree → List Token
  | .leaf w => [w]
  | .node _ ts => leavesOf ts

/-- The words of several trees, in their order. -/
def leavesOf : List Tree → List Token
  | [] => []
  | t :: ts => t.leaves ++ leavesOf ts

end

theorem leavesOf_append (ts us : List Tree) : leavesOf (ts ++ us) = leavesOf ts ++ leavesOf us := by
  induction ts with
  | nil => rfl
  | cons t ts ih => simp [leavesOf, ih]

/-- The leaves of the trees are the kept words. -/
theorem Derives.leavesOf_eq {f : Form} {ws : List Token} {ts : List Tree} (h : Derives f ws ts) :
    leavesOf ts = ws.filter (·.kind.isKept) := by
  induction h with
  | @word t w hw =>
    cases hkept : w.kind.isKept <;> simp [Token.leaves, hkept, leavesOf, Tree.leaves]
  | rule _ ih => simpa [leavesOf, Tree.leaves] using ih
  | hidden _ ih => exact ih
  | allNil => rfl
  | allCons _ _ ih ihs => rw [leavesOf_append, List.filter_append, ih, ihs]
  | any _ _ ih => exact ih
  | absent => rfl
  | present _ ih => exact ih
  | manyNil => rfl
  | manyCons _ _ ih ihs => rw [leavesOf_append, List.filter_append, ih, ihs]

/-! ## Languages -/

/-- The words that are written as the form says and have the given trees. -/
def Form.words (f : Form) (ts : List Tree) : Language Token := {ws | Derives f ws ts}

theorem Form.mem_words {f : Form} {ts : List Tree} {ws : List Token} :
    ws ∈ f.words ts ↔ Derives f ws ts := Iff.rfl

/-- The words of several forms one after the other. -/
def front (fs : List Form) (ts : List Tree) : Language Token := (Form.all fs).words ts

theorem one_le_opt (f : Form) : 1 ≤ (Form.opt f).words [] := by
  rintro ws rfl
  exact .absent

theorem one_le_many (f : Form) : 1 ≤ (Form.many f).words [] := by
  rintro ws rfl
  exact .manyNil

theorem words_le_opt (f : Form) (ts : List Tree) : f.words ts ≤ (Form.opt f).words ts :=
  fun _ => .present

theorem front_le_rule {r : Rule} {fs : List Form} (hr : r.form = .all fs) (ts : List Tree) :
    front fs ts ≤ (Form.rule r).words [.node r ts] := by
  intro ws h
  exact .rule (hr ▸ h)

theorem words_le_hidden {r : Hidden} {f : Form} {fs : List Form} (hr : r.form = .any fs)
    (hf : f ∈ fs) (ts : List Tree) : f.words ts ≤ (Form.hidden r).words ts := by
  intro ws h
  exact .hidden (hr ▸ .any hf h)

theorem front_mul_front (fs gs : List Form) (ts us : List Tree) :
    front fs ts * front gs us ≤ front (fs ++ gs) (ts ++ us) := by
  intro w hw
  obtain ⟨_, h, _, h', rfl⟩ := Language.mem_mul.1 hw
  exact Derives.all_append h h'

theorem words_le_front (f : Form) (ts : List Tree) : f.words ts ≤ front [f] ts := by
  intro ws h
  have := Derives.allCons h .allNil
  rwa [List.append_nil, List.append_nil] at this

/-- A sequence goes on with one more form. -/
theorem front_mul_words (fs : List Form) (f : Form) (ts us : List Tree) :
    front fs ts * f.words us ≤ front (fs ++ [f]) (ts ++ us) :=
  (mul_le_mul_right (words_le_front f us) _).trans (front_mul_front ..)

/-- A repetition goes on with one more turn. -/
theorem many_mul_words (f : Form) (ts us : List Tree) :
    (Form.many f).words ts * f.words us ≤ (Form.many f).words (ts ++ us) := by
  intro w hw
  obtain ⟨_, h, _, h', rfl⟩ := Language.mem_mul.1 hw
  exact Derives.many_concat h h'

end Statechart.Grammar
