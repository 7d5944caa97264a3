import Mathlib
import Statechart.Proofs.Codegen.Generation

/-!
# A source's name adds no line to a module

A module opens with eight comment lines. Whatever the name of its source holds, it stands on one of
them, and no other line of the module depends on it.

Main statement: `source_adds_no_line`.
-/

namespace Statechart.Codegen

open Text (Unbroken lines)

/-- The name of a source, as a header shows it: with a space for each line boundary, but for one at
the very end. -/
def shownSource : Option String → String
  | none => "unknown.fsm"
  | some s =>
    if s = "" then "unknown.fsm"
    else String.ofList (Text.spaceBreaks (Text.dropLastBreak s.toList))

/-- What the line with the source begins with. -/
def sourceMark : String := "# From: "

/-- These lines are the header of a module made from a source: eight comments, of which exactly one
names the source. -/
structure Heading (source : Option String) (ls : List String) : Prop where
  length_eq : ls.length = 8
  comments : ∀ l ∈ ls, l.toList.head? = some '#'
  source_line : ls.filter (fun l => sourceMark.toList.isPrefixOf l.toList) =
    [sourceMark ++ shownSource source]

/-! ## The lines of a header -/

theorem sourceLine_eq_shownSource (source : Option String) :
    sourceLine source = shownSource source := by
  have hunnamed : " ".intercalate (lines unnamedSource) = "unknown.fsm" := by decide
  cases source with
  | none => exact hunnamed
  | some s =>
    by_cases hs : s = ""
    · subst hs
      exact hunnamed
    · simp [sourceLine, shownSource, hs, Text.intercalate_lines]

theorem unbroken_shownSource (source : Option String) : Unbroken (shownSource source) := by
  have hunnamed : Unbroken "unknown.fsm" := by decide +kernel
  fun_cases shownSource source with
  | case1 => exact hunnamed
  | case2 => exact hunnamed
  | case3 s hs =>
    rw [Unbroken, String.toList_ofList]
    exact Text.isBreak_of_mem_spaceBreaks

theorem unbroken_headerLines {machine : String} (hmachine : Unbroken machine)
    (source : Option String) : ∀ l ∈ headerLines machine source, Unbroken l := by
  have hnone : ∀ l ∈ ([] : List String), Unbroken l := by simp
  simp only [headerLines, sourceLine_eq_shownSource, List.forall_mem_cons]
  refine ⟨?_, ?_, ?_, .append ?_ hmachine, .append ?_ (unbroken_shownSource source), ?_, ?_, ?_,
    hnone⟩
  all_goals decide +kernel

theorem heading_headerLines (machine : String) (source : Option String) :
    Heading source (headerLines machine source) where
  length_eq := rfl
  comments := by simp [headerLines, String.toList_append]
  source_line := by
    simp [headerLines, sourceMark, String.toList_append, sourceLine_eq_shownSource,
      List.isPrefixOf]

/-! ## The lines of a module -/

theorem lines_header {machine : String} (hmachine : Unbroken machine) (source : Option String) :
    lines (header machine source) = headerLines machine source :=
  lines_joinLines (unbroken_headerLines hmachine source)

/-- **A source's name adds no line**: for a machine whose name is on one line, and for every
source, the lines of the header are eight comments of which exactly one names the source, with its
line boundaries as spaces. A module goes on after its header with lines that do not depend on the
source. -/
theorem source_adds_no_line {machine : String} (hmachine : Unbroken machine) :
    (∀ source, Heading source (lines (header machine source))) ∧
      ∀ m : Definition, m.name = machine → ∃ others, ∀ source text,
        generate m source = .ok text → lines text = lines (header machine source) ++ others := by
  refine ⟨fun source => ?_, ?_⟩
  · rw [lines_header hmachine]
    exact heading_headerLines machine source
  · rintro m rfl
    cases hmodule : moduleLines m with
    | error e =>
      refine ⟨[], fun source text htext => ?_⟩
      obtain ⟨-, ls, hls, -⟩ := exists_moduleLines_of_generate htext
      cases hmodule.symm.trans hls
    | ok others =>
      refine ⟨lines (joinLines others), fun source text htext => ?_⟩
      obtain ⟨-, ls, hls, rfl⟩ := exists_moduleLines_of_generate htext
      obtain rfl : others = ls := Except.ok.inj (hmodule.symm.trans hls)
      rw [joinLines_append, lines_header hmachine,
        lines_joinLines_append (unbroken_headerLines hmachine source)]

/-- A source whose name holds line boundaries of four kinds, one of them at the end. -/
theorem gate_heading :
    Unbroken "gate" ∧ (lines (header "gate" (some "gate\r\nimport os\u2028\x0c.fsm\r"))).filter
        (fun l => sourceMark.toList.isPrefixOf l.toList) = ["# From: gate import os  .fsm"] := by
  have hgate : Unbroken "gate" := by decide +kernel
  have hshown : sourceMark ++ shownSource (some "gate\r\nimport os\u2028\x0c.fsm\r") =
      "# From: gate import os  .fsm" := by cbv
  have h := (source_adds_no_line hgate).1 (some "gate\r\nimport os\u2028\x0c.fsm\r")
  exact ⟨hgate, h.source_line.trans (congrArg (fun l => [l]) hshown)⟩

end Statechart.Codegen
