import Mathlib
import Statechart.Grammar.Reader
import Statechart.Proofs.Grammar.Pattern
import Statechart.Proofs.Grammar.Spelling

/-!
# A text that is read is a sentence of the grammar

A text that the reader accepts splits into segments, each a word of a terminal or text to be
passed over. The words, each with the line and column where its segment starts, are derived from
the start rule, and the tree that the reader gives is the tree of that derivation.

Main statement: `exists_reading_of_read`.
-/

namespace Statechart

/-! ## Spans -/

/-- The line and column after some text: the line feeds and the characters since the last of
them, both counted from one. -/
def spanAfter (before : List Char) : Span :=
  ⟨before.count '\n' + 1, (before.reverse.takeWhile (· ≠ '\n')).length + 1⟩

/-- A span comes before another one in a text. -/
def Span.Before (a b : Span) : Prop := a.line < b.line ∨ a.line = b.line ∧ a.column < b.column

theorem Place.advance_start_toSpan (before : List Char) :
    (Place.start.advance before).toSpan = spanAfter before := by
  induction before using List.reverseRecOn with
  | nil => rfl
  | append_singleton cs c ih =>
    rw [advance_append, advance_cons, advance_nil, next, spanAfter, List.reverse_append]
    split
    · rename_i hc
      obtain rfl : c = '\n' := by simpa using hc
      simp [ih, spanAfter]
    · rename_i hc
      have hc : c ≠ '\n' := by simpa using hc
      simp [ih, spanAfter, hc]

namespace Span.Before

variable {a b c : Span}

theorem trans (hab : a.Before b) (hbc : b.Before c) : a.Before c := by
  unfold Span.Before at *
  omega

end Span.Before

theorem Place.before_next (p : Place) (c : Char) : p.toSpan.Before (p.next c).toSpan := by
  unfold next
  split
  · exact .inl (Nat.lt_succ_self _)
  · exact .inr ⟨rfl, Nat.lt_succ_self _⟩

theorem Place.before_advance (p : Place) {cs : List Char} (hcs : cs ≠ []) :
    p.toSpan.Before (p.advance cs).toSpan := by
  induction cs generalizing p with
  | nil => exact absurd rfl hcs
  | cons c cs ih =>
    rw [advance_cons]
    rcases eq_or_ne cs [] with rfl | hne
    · exact p.before_next c
    · exact (p.before_next c).trans (ih _ hne)

theorem spanAfter_before_append (before : List Char) {cs : List Char} (hcs : cs ≠ []) :
    (spanAfter before).Before (spanAfter (before ++ cs)) := by
  rw [← Place.advance_start_toSpan, ← Place.advance_start_toSpan, Place.advance_append]
  exact Place.before_advance _ hcs

namespace Grammar

/-! ## Segments -/

/-- A part of a text: one that is passed over, or a word of a terminal. -/
inductive Segment
  | ignored (cs : List Char)
  | word (t : Terminal) (cs : List Char)
  deriving DecidableEq, Repr

namespace Segment

/-- The text of a segment. -/
def text : Segment → List Char
  | ignored cs => cs
  | word _ cs => cs

/-- A segment looks as it should. -/
def Fits : Segment → Prop
  | ignored cs => Skipped cs
  | word t cs => t.Matches cs

end Segment

/-- The words among segments that stand after some text, each with its span. -/
def tokens : List Char → List Segment → List Token
  | _, [] => []
  | before, .ignored cs :: more => tokens (before ++ cs) more
  | before, .word t cs :: more =>
    ⟨t, String.ofList cs, spanAfter before⟩ :: tokens (before ++ cs) more

/-- How a text is read with a tree. -/
structure Reading (text : List Char) (segments : List Segment) (tree : Tree) : Prop where
  /-- The segments make up the text. -/
  flatMap_text : segments.flatMap Segment.text = text
  fits : ∀ s ∈ segments, s.Fits
  /-- The tree is the tree of a derivation of the words. -/
  derives : Derives (.rule .start) (tokens [] segments) [tree]
  /-- The kept words are the leaves. -/
  leaves : tree.leaves = (tokens [] segments).filter (·.kind.isKept)
  /-- The words stand in the order of the text. -/
  increasing : (tokens [] segments).Pairwise fun v w => v.span.Before w.span

/-! ## The order of words -/

theorem spelling_ne_nil_of_spelling? {t : Terminal} {s : String} (h : t.spelling? = some s) :
    s.toList ≠ [] := by
  have hall : ∀ t ∈ Terminal.all, ∀ s ∈ t.spelling?, s.toList ≠ [] := by decide
  exact hall t (Terminal.mem_all t) s h

theorem Terminal.Matches.ne_nil {t : Terminal} {cs : List Char} (h : t.Matches cs) : cs ≠ [] := by
  cases h with
  | spelled hs => exact spelling_ne_nil_of_spelling? hs
  | _ => simp

theorem span_of_mem_tokens {before : List Char} {segments : List Segment} {w : Token}
    (h : w ∈ tokens before segments) : ∃ more, w.span = spanAfter (before ++ more) := by
  induction segments generalizing before with
  | nil => cases h
  | cons s segments ih =>
    cases s with
    | ignored cs =>
      obtain ⟨more, hw⟩ := ih h
      exact ⟨cs ++ more, by rw [hw, List.append_assoc]⟩
    | word t cs =>
      rcases List.mem_cons.1 h with rfl | h
      · exact ⟨[], by rw [List.append_nil]⟩
      · obtain ⟨more, hw⟩ := ih h
        exact ⟨cs ++ more, by rw [hw, List.append_assoc]⟩

theorem tokens_increasing (before : List Char) {segments : List Segment}
    (h : ∀ s ∈ segments, s.Fits) :
    (tokens before segments).Pairwise fun v w => v.span.Before w.span := by
  induction segments generalizing before with
  | nil => exact .nil
  | cons s segments ih =>
    have hrest := fun b => ih b fun s hs => h s (List.mem_cons_of_mem _ hs)
    cases s with
    | ignored cs => exact hrest _
    | word t cs =>
      refine .cons (fun w hw => ?_) (hrest _)
      obtain ⟨more, hw⟩ := span_of_mem_tokens hw
      have hcs : cs ≠ [] := (h (.word t cs) (by simp)).ne_nil
      rw [hw, List.append_assoc]
      exact spanAfter_before_append _ (by simp [hcs])

/-! ## The reader -/

/-- Reading on from a stage that has read some words. -/
theorem exists_segments_of_readFrom {s : Stage} {p : Place} {cs : List Char} {m : Machine}
    (h : readFrom s p cs = .ok m) (before : List Char) (hp : p = Place.start.advance before)
    (ws : List Token) (hws : ws ∈ s.words) :
    ∃ segments : List Segment, segments.flatMap Segment.text = cs ∧ (∀ s ∈ segments, s.Fits) ∧
      ws ++ tokens before segments ∈ (Form.rule .start).words [m.tree] := by
  fun_induction readFrom s p cs generalizing before ws with
  | case1 p m' =>
    cases h
    refine ⟨[], rfl, by simp, ?_⟩
    rw [tokens, List.append_nil]
    exact hws
  | case2 => cases h
  | case3 s p c r k hskip _ ih =>
    obtain ⟨segments, htext, hfits, hder⟩ :=
      ih h (before ++ k.1) (by rw [hp, Place.advance_append]) ws hws
    refine ⟨.ignored k.1 :: segments, ?_, ?_, hder⟩
    · rw [List.flatMap_cons, htext]
      exact (skip?_split hskip).1
    · exact List.forall_mem_cons.2 ⟨skipped_of_skip? hskip, hfits⟩
  | case4 s p c r hskip t k hword s' hnext _ ih =>
    have hstep := Stage.words_mul_le_of_next hnext (Language.append_mem_mul hws rfl)
    obtain ⟨segments, htext, hfits, hder⟩ :=
      ih h (before ++ k.1) (by rw [hp, Place.advance_append]) _ hstep
    refine ⟨.word t k.1 :: segments, ?_, ?_, ?_⟩
    · rw [List.flatMap_cons, htext]
      exact (lexeme?_split hword).1
    · exact List.forall_mem_cons.2 ⟨matches_of_lexeme? hword, hfits⟩
    · rwa [List.append_assoc, hp, Place.advance_start_toSpan] at hder
  | case5 => cases h
  | case6 => cases h

/-- **Reading is sound**: a text that is read splits into segments of which the words, each with
its place, are derived from the start rule with the tree that is read. -/
theorem exists_reading_of_read {text : String} {m : Machine} (h : read text = .ok m) :
    ∃ segments, Reading text.toList segments m.tree := by
  obtain ⟨segments, htext, hfits, hder⟩ :=
    exists_segments_of_readFrom h [] rfl [] rfl
  have hder : Derives (.rule .start) (tokens [] segments) [m.tree] := hder
  refine ⟨segments, htext, hfits, hder, ?_, tokens_increasing _ hfits⟩
  simpa [leavesOf] using hder.leavesOf_eq

end Grammar

/-! ## A door -/

namespace Door

/-- A door, with a comment, a condition beside the initial mark, and a keyword as a name. -/
def text : String :=
  "fsm Door \x7b # a door\n[*] --> exit\nexit --> a : e [x[0]] / f(1)\n\x7d"

/-- The word at a place. -/
def word (kind : Grammar.Terminal) (text : String) (line column : Nat) : Grammar.Token :=
  ⟨kind, text, ⟨line, column⟩⟩

/-- The door as it is read. -/
def machine : Grammar.Machine where
  name := word .name "Door" 1 5
  items := [.initial ⟨word .initialMark "[*]" 2 1, word .name "exit" 2 9⟩,
    .transition ⟨word .name "exit" 3 1, word .name "a" 3 10, some (word .name "e" 3 14),
      some (word .guard "[x[0]]" 3 16), some [word .action "f(1)" 3 25]⟩]

theorem read_text : Grammar.read text = .ok machine := by cbv

/-- The text of the door is a sentence of the grammar. -/
theorem text_has_reading : ∃ segments, Grammar.Reading text.toList segments machine.tree :=
  Grammar.exists_reading_of_read read_text

end Door

end Statechart
