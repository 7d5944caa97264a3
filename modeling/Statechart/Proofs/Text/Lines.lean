import Mathlib
import Statechart.Text.Lines

/-!
# A text on one line

A text is put on one line by joining its lines with spaces. Read the other way round: each line
boundary becomes a space, but for one at the very end, which is left out.

Main statement: `intercalate_lines`.
-/

namespace Statechart.Text

/-- The text with a space for each line boundary. -/
def spaceBreaks : List Char → List Char
  | [] => []
  | '\r' :: '\n' :: cs => ' ' :: spaceBreaks cs
  | c :: cs => (if isBreak c then ' ' else c) :: spaceBreaks cs

/-- The text without a line boundary at its very end. -/
def dropLastBreak : List Char → List Char
  | [] => []
  | ['\r', '\n'] => []
  | [c] => if isBreak c then [] else [c]
  | c :: cs => c :: dropLastBreak cs

/-! ## Boundaries in front -/

section

variable {c : Char} {cs : List Char}

/-- The two characters in front are one boundary. -/
def Paired (c : Char) (cs : List Char) : Prop := c = '\r' ∧ cs.head? = some '\n'

theorem not_paired_of_isBreak (hc : isBreak c = false) (cs : List Char) : ¬ Paired c cs := by
  rintro ⟨rfl, -⟩
  cases hc

theorem spaceBreaks_cons (h : ¬ Paired c cs) :
    spaceBreaks (c :: cs) = (if isBreak c then ' ' else c) :: spaceBreaks cs := by
  rw [spaceBreaks]
  rintro ds rfl rfl
  exact h ⟨rfl, rfl⟩

theorem linesFrom_cons (h : ¬ Paired c cs) (line : List Char) :
    linesFrom line (c :: cs) =
      if isBreak c then line.reverse :: linesFrom [] cs else linesFrom (c :: line) cs := by
  rw [linesFrom]
  rintro ds rfl rfl
  exact h ⟨rfl, rfl⟩

theorem dropLastBreak_cons (h : ¬ Paired c cs) (hcs : cs ≠ []) :
    dropLastBreak (c :: cs) = c :: dropLastBreak cs := by
  rw [dropLastBreak]
  · rintro rfl rfl
    exact h ⟨rfl, rfl⟩
  · exact hcs

theorem dropLastBreak_paired (hcs : cs ≠ []) :
    dropLastBreak ('\r' :: '\n' :: cs) = '\r' :: '\n' :: dropLastBreak cs := by
  have hrest : ¬ Paired '\n' cs := fun h => absurd h.1 (by decide)
  rw [dropLastBreak, dropLastBreak_cons hrest hcs]
  · simpa using hcs
  · simp

/-- Nothing moves to the front when the boundary at the end is left out. -/
theorem head?_dropLastBreak (cs : List Char) :
    ∀ c ∈ (dropLastBreak cs).head?, c ∈ cs.head? := by
  fun_cases dropLastBreak cs with
  | case1 => simp
  | case2 => simp
  | case3 => simp
  | case4 => simp
  | case5 => simp

theorem not_paired_dropLastBreak (h : ¬ Paired c cs) : ¬ Paired c (dropLastBreak cs) :=
  fun hd => h ⟨hd.1, head?_dropLastBreak cs _ hd.2⟩

end

/-! ## Lines and spaces -/

theorem linesFrom_ne_nil {line cs : List Char} (h : line ≠ [] ∨ cs ≠ []) :
    linesFrom line cs ≠ [] := by
  fun_induction linesFrom line cs with
  | case1 line hline => simp_all
  | case2 => simp
  | case3 => simp
  | case4 => simp
  | case5 line c cs _ _ ih => exact ih (.inl (by simp))

/-- A line before others, joined with them. -/
theorem intercalate_cons_of_ne_nil (sep l : List Char) {ls : List (List Char)} (h : ls ≠ []) :
    sep.intercalate (l :: ls) = l ++ sep ++ sep.intercalate ls := by
  obtain ⟨l', ls, rfl⟩ := List.exists_cons_of_ne_nil h
  exact List.intercalate_cons_cons

theorem intercalate_linesFrom (line cs : List Char) :
    [' '].intercalate (linesFrom line cs) = line.reverse ++ spaceBreaks (dropLastBreak cs) := by
  -- what is after a boundary is empty only if the boundary is at the very end
  fun_induction linesFrom line cs with
  | case1 line hline =>
    obtain rfl : line = [] := by simpa using hline
    rfl
  | case2 line _ => simp [dropLastBreak, spaceBreaks]
  | case3 line cs ih =>
    rcases eq_or_ne cs [] with rfl | hcs
    · simp [linesFrom, dropLastBreak, spaceBreaks]
    · rw [intercalate_cons_of_ne_nil _ _ (linesFrom_ne_nil (.inr hcs)), ih,
        dropLastBreak_paired hcs, spaceBreaks]
      simp
  | case4 line c cs hpair hbreak ih =>
    have hpair : ¬ Paired c cs := by
      rintro ⟨rfl, hhead⟩
      obtain ⟨ds, rfl⟩ := List.head?_eq_some_iff.1 hhead
      exact hpair ds rfl rfl
    rcases eq_or_ne cs [] with rfl | hcs
    · simp [linesFrom, dropLastBreak, spaceBreaks, hbreak]
    · rw [intercalate_cons_of_ne_nil _ _ (linesFrom_ne_nil (.inr hcs)), ih,
        dropLastBreak_cons hpair hcs, spaceBreaks_cons (not_paired_dropLastBreak hpair)]
      simp [hbreak]
  | case5 line c cs hpair hbreak ih =>
    have hpair (ds : List Char) : ¬ Paired c ds := not_paired_of_isBreak (by simpa using hbreak) ds
    have hdrop : dropLastBreak (c :: cs) = c :: dropLastBreak cs := by
      rcases eq_or_ne cs [] with rfl | hcs
      · simp [dropLastBreak, hbreak]
      · exact dropLastBreak_cons (hpair cs) hcs
    rw [ih, hdrop, spaceBreaks_cons (hpair _)]
    simp [hbreak]

/-- **A text on one line**: its lines with spaces between them are the text with a space for each
line boundary, but for one at the very end. -/
theorem intercalate_lines (s : String) :
    " ".intercalate (lines s) = String.ofList (spaceBreaks (dropLastBreak s.toList)) := by
  have hlines : (lines s).map String.toList = linesFrom [] s.toList := by
    simp [lines, Function.comp_def]
  rw [← String.toList_inj, String.toList_intercalate, hlines]
  exact (intercalate_linesFrom [] s.toList).trans String.toList_ofList.symm

theorem isBreak_of_mem_spaceBreaks {cs : List Char} :
    ∀ c ∈ spaceBreaks cs, isBreak c = false := by
  fun_induction spaceBreaks cs with
  | case1 => simp
  | case2 cs ih => exact List.forall_mem_cons.2 ⟨rfl, ih⟩
  | case3 c cs _ ih =>
    refine List.forall_mem_cons.2 ⟨?_, ih⟩
    split
    · rfl
    · rename_i hc
      simpa using hc

/-! ## Texts put together from lines -/

/-- The text holds no line boundary. -/
def Unbroken (s : String) : Prop := ∀ c ∈ s.toList, isBreak c = false

theorem unbroken_iff_all {s : String} : Unbroken s ↔ s.toList.all (!isBreak ·) = true := by
  simp [Unbroken]

instance decidableUnbroken (s : String) : Decidable (Unbroken s) :=
  decidable_of_iff _ unbroken_iff_all.symm

/-- Characters of a kind do not end a line if the ten that do are not of it. -/
theorem isBreak_eq_false_of {p : Char → Bool}
    (hp : ∀ n ∈ [10, 11, 12, 13, 28, 29, 30, 0x85, 0x2028, 0x2029], p (Char.ofNat n) = false)
    {c : Char} (hc : p c) : isBreak c = false := by
  by_contra hbreak
  have hmem : c.toNat ∈ [10, 11, 12, 13, 28, 29, 30, 0x85, 0x2028, 0x2029] := by
    simp [isBreak] at hbreak
    simp
    omega
  have hnot := hp _ hmem
  rw [Char.ofNat_toNat, hc] at hnot
  cases hnot

theorem Unbroken.append {s s' : String} (h : Unbroken s) (h' : Unbroken s') :
    Unbroken (s ++ s') := by
  unfold Unbroken
  rw [String.toList_append]
  exact List.forall_mem_append.2 ⟨h, h'⟩

theorem linesFrom_append {xs : List Char} (hxs : ∀ c ∈ xs, isBreak c = false)
    (line ys : List Char) :
    linesFrom line (xs ++ '\n' :: ys) = (line.reverse ++ xs) :: linesFrom [] ys := by
  induction xs generalizing line with
  | nil =>
    rw [List.nil_append, linesFrom_cons fun h => absurd h.1 (by decide), List.append_nil]
    rfl
  | cons x xs ih =>
    have hx : isBreak x = false := hxs x (by simp)
    rw [List.cons_append, linesFrom_cons (not_paired_of_isBreak hx _), hx,
      if_neg Bool.false_ne_true, ih fun c hc => hxs c (List.mem_cons_of_mem _ hc)]
    simp

/-- A line that is ended before a text is its first line. -/
theorem lines_append {l : String} (hl : Unbroken l) (s : String) :
    lines (l ++ "\n" ++ s) = l :: lines s := by
  have htext : (l ++ "\n" ++ s).toList = l.toList ++ '\n' :: s.toList := by
    simp [String.toList_append]
  rw [lines, htext, linesFrom_append hl, List.map_cons, List.reverse_nil, List.nil_append,
    String.ofList_toList, lines]

end Statechart.Text
