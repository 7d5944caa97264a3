import Mathlib
import Statechart.Model.Reading

/-!
# Which texts have a declaration

A text may be a machine description and have no declaration all the same: the grammar lets any
characters stand between the quotes of a description, and any number of digits in a duration,
but not every such description is a literal, nor every such duration a numeral.

Main statements:

* `read_eq_error_iff`: where a text has no declaration, either the grammar refuses it, or the
  first of its items that cannot be declared says why;
* `accepted_text_without_declaration`: there is a text of the second kind.
-/

namespace Statechart

namespace Declaration

open Grammar (Item Machine)

variable {names : Text.CharacterNames}

/-- What keeps an item from being declared: its description is no literal, or its duration has
too many digits. -/
def flaw? (names : Text.CharacterNames) : Item → Option ReadError
  | .state s =>
    match s.description.map fun t => Text.ofLiteral names t.text with
    | some (.error e) => some (.literal e)
    | _ => none
  | .timer t =>
    let digits := t.duration.text.toList.length
    if Text.digitLimit < digits then some (.numeral (.tooLong digits)) else none
  | .initial _ | .transition _ | .choice _ => none

/-- An item is added unless it has a flaw, and then the flaw is the error. -/
theorem addItem_eq_error_iff {d : Declaration} {item : Item} {f : ReadError} :
    addItem names d item = .error f ↔ flaw? names item = some f := by
  cases item with
  | initial i => simp [addItem, flaw?]
  | transition t => simp [addItem, flaw?]
  | choice c => simp [addItem, flaw?]
  | state s =>
    cases hs : s.description with
    | none => simp [addItem, flaw?, state, hs, bind, Except.bind, pure, Except.pure]
    | some t =>
      cases ht : Text.ofLiteral names t.text with
      | error e =>
        simp [addItem, flaw?, state, hs, ht, bind, Except.bind, Except.mapError, Except.map]
      | ok text =>
        simp [addItem, flaw?, state, hs, ht, bind, Except.bind, pure, Except.pure,
          Except.mapError, Except.map]
  | timer t =>
    by_cases ht : Text.digitLimit < t.duration.text.toList.length
    · simp [addItem, flaw?, timer, Text.readNat, ht, bind, Except.bind, Except.mapError]
    · simp [addItem, flaw?, timer, Text.readNat, ht, bind, Except.bind, pure, Except.pure,
        Except.mapError]

/-- The first item with a flaw stops the declaration. -/
theorem foldlM_addItem_eq_error_iff {items : List Item} {d : Declaration} {f : ReadError} :
    items.foldlM (addItem names) d = .error f ↔ items.findSome? (flaw? names) = some f := by
  induction items generalizing d with
  | nil => simp [pure, Except.pure]
  | cons item items ih =>
    rw [List.foldlM_cons, List.findSome?_cons]
    cases hadd : addItem names d item with
    | error g =>
      rw [addItem_eq_error_iff.1 hadd]
      simp [bind, Except.bind]
    | ok d' =>
      have hnone : flaw? names item = none := by
        by_contra hsome
        obtain ⟨g, hg⟩ := Option.ne_none_iff_exists'.1 hsome
        rw [addItem_eq_error_iff.2 hg] at hadd
        cases hadd
      rw [hnone]
      exact ih

theorem ofTree_eq_error_iff {m : Machine} {f : ReadError} :
    ofTree names m = .error f ↔ m.items.findSome? (flaw? names) = some f :=
  foldlM_addItem_eq_error_iff

/-- **Where a text has no declaration**: either the grammar refuses it, and the refusal is the
error, or it is a machine description of which the first item that cannot be declared is the
error, its description being no literal or its duration having too many digits. This holds
whatever names the characters have. -/
theorem read_eq_error_iff (names : Text.CharacterNames) (text : String) (f : ReadError) :
    read names text = .error f ↔
      (∃ e, Grammar.read text = .error e ∧ f = .grammar e) ∨
      ∃ m before item after, Grammar.read text = .ok m ∧ m.items = before ++ item :: after ∧
        (∀ i ∈ before, flaw? names i = none) ∧ flaw? names item = some f := by
  cases hread : Grammar.read text with
  | error e => simp [read, hread, Except.mapError, bind, Except.bind, eq_comm]
  | ok m =>
    have htree : read names text = ofTree names m := by
      simp [read, hread, Except.mapError, bind, Except.bind]
    rw [htree, ofTree_eq_error_iff, List.findSome?_eq_some_iff]
    constructor
    · rintro ⟨before, item, after, hitems, hitem, hbefore⟩
      exact .inr ⟨m, before, item, after, rfl, hitems, hbefore, hitem⟩
    · rintro (⟨e, he, -⟩ | ⟨m', before, item, after, hm, hitems, hbefore, hitem⟩)
      · cases he
      · cases hm
        exact ⟨before, item, after, hitems, hitem, hbefore⟩

end Declaration

/-! ## A text that has no declaration -/

namespace Plate

/-- A machine whose description breaks off at a carriage return. -/
def text : String := "fsm Plate \x7b [*] --> A state A : \"a\rb\" \x7d"

/-- The word at a column of the first line. -/
def word (kind : Grammar.Terminal) (text : String) (column : Nat) : Grammar.Token :=
  ⟨kind, text, ⟨1, column⟩⟩

/-- The machine as it is read. -/
def machine : Grammar.Machine where
  name := word .name "Plate" 5
  items := [.initial ⟨word .initialMark "[*]" 13, word .name "A" 21⟩,
    .state ⟨word .name "A" 29, some (word .string "\"a\rb\"" 33), none⟩]

theorem read_text : Grammar.read text = .ok machine := by cbv

/-- The grammar accepts the text of the plate, but it has no declaration. -/
theorem accepted_text_without_declaration :
    ¬ ∀ names text m, Grammar.read text = .ok m → ∃ d, Declaration.read names text = .ok d := by
  intro hall
  obtain ⟨d, hd⟩ := hall (fun _ => none) text machine read_text
  have herror : Declaration.ofTree (fun _ => none) machine =
      .error (.literal (.unterminated 1)) := by cbv
  rw [Declaration.read, read_text] at hd
  exact absurd (herror.symm.trans hd) (by simp)

end Plate

end Statechart
