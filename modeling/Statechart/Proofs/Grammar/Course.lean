import Mathlib
import Statechart.Proofs.Grammar.Soundness

/-!
# The course of reading

Reading passes over some parts of a text and reads others as words, one stage after the other
(`Consumes`), until it ends (`Ends`): with the machine where the text ends in the last stage, or
with an error in one of three ways.

Main statement: `exists_consumes_readFrom`.
-/

namespace Statechart.Grammar

/-- Segments after some text, of which the words have led from one stage to another. -/
structure Consumes (s : Stage) (before : List Char) (segments : List Segment) (u : Stage) :
    Prop where
  fits : ∀ s ∈ segments, s.Fits
  /-- The words, each with the place where it stands, are read one after the other. -/
  reads : (tokens before segments).foldlM Stage.next s = .ok u

/-- In a stage and at a place, reading ends before the rest of a text, with a machine or with an
error. -/
inductive Ends (s : Stage) (p : Place) : List Char → Except SyntaxError Machine → Prop
  /-- The text ends with the machine. -/
  | finished {m : Machine} (hs : s = .finished m) : Ends s p [] (.ok m)
  /-- The text ends before the machine does. -/
  | ended (hs : ∀ m, s ≠ .finished m) : Ends s p [] (.error ⟨.endOfInput, p, describe s.expected⟩)
  /-- A wanted word stands there that does not fit. -/
  | stuck {cs : List Char} {t : Terminal} {k : Cut} {u : Stage} (hskip : skip? cs = none)
    (hword : lexeme? s.expected cs = some (t, k))
    (hnext : s.next ⟨t, String.ofList k.1, p.toSpan⟩ = .error u) :
    Ends s p cs (.error ⟨.word (String.ofList k.1), p, describe u.expected⟩)
  /-- No wanted word stands there. -/
  | stray {c : Char} {cs : List Char} (hskip : skip? (c :: cs) = none)
    (hword : lexeme? s.expected (c :: cs) = none) :
    Ends s p (c :: cs) (.error (strayText s p c cs))

/-- **The course of reading**: whatever comes of it, some segments are consumed and reading ends
after them. -/
theorem exists_consumes_readFrom (s : Stage) (p : Place) (cs before : List Char)
    (hp : p = Place.start.advance before) :
    ∃ segments u rest, segments.flatMap Segment.text ++ rest = cs ∧
      Consumes s before segments u ∧
      Ends u (p.advance (segments.flatMap Segment.text)) rest (readFrom s p cs) := by
  fun_induction readFrom s p cs generalizing before with
  | case1 p m => exact ⟨[], _, [], rfl, ⟨by simp, rfl⟩, .finished rfl⟩
  | case2 p s hs => exact ⟨[], s, [], rfl, ⟨by simp, rfl⟩, .ended hs⟩
  | case3 s p c r k hskip _ ih =>
    obtain ⟨segments, u, rest, htext, ⟨hfits, hreads⟩, hends⟩ :=
      ih (before ++ k.1) (by rw [hp, Place.advance_append])
    refine ⟨.ignored k.1 :: segments, u, rest, ?_, ⟨?_, hreads⟩, ?_⟩
    · rw [List.flatMap_cons, List.append_assoc, htext]
      exact (skip?_split hskip).1
    · exact List.forall_mem_cons.2 ⟨skipped_of_skip? hskip, hfits⟩
    · rwa [List.flatMap_cons, Place.advance_append]
  | case4 s p c r hskip t k hword s' hnext _ ih =>
    obtain ⟨segments, u, rest, htext, ⟨hfits, hreads⟩, hends⟩ :=
      ih (before ++ k.1) (by rw [hp, Place.advance_append])
    rw [hp, Place.advance_start_toSpan] at hnext
    refine ⟨.word t k.1 :: segments, u, rest, ?_, ⟨?_, ?_⟩, ?_⟩
    · rw [List.flatMap_cons, List.append_assoc, htext]
      exact (lexeme?_split hword).1
    · exact List.forall_mem_cons.2 ⟨matches_of_lexeme? hword, hfits⟩
    · rw [tokens, List.foldlM_cons, hnext]
      exact hreads
    · rwa [List.flatMap_cons, Place.advance_append]
  | case5 s p c r hskip t k hword u hnext =>
    exact ⟨[], s, c :: r, rfl, ⟨by simp, rfl⟩, .stuck hskip hword hnext⟩
  | case6 s p c r hskip hword =>
    exact ⟨[], s, c :: r, rfl, ⟨by simp, rfl⟩, .stray hskip hword⟩

/-- A text that is read is consumed. -/
theorem exists_consumes_of_read {text : String} {m : Machine} (h : read text = .ok m) :
    ∃ segments, segments.flatMap Segment.text = text.toList ∧
      Consumes .start [] segments (.finished m) := by
  obtain ⟨segments, u, rest, htext, hconsumes, hends⟩ :=
    exists_consumes_readFrom .start .start text.toList [] rfl
  rw [← read, h] at hends
  cases hends with
  | finished hs => exact ⟨segments, by rwa [List.append_nil] at htext, hs ▸ hconsumes⟩

end Statechart.Grammar
