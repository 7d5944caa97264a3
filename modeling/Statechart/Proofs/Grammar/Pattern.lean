import Mathlib
import Statechart.Grammar.Lexeme

/-!
# Patterns of words

Each terminal has a pattern, which says what its words look like (`Terminal.Matches`), and so has
the text between words (`Skipped`). The patterns are stated without the matchers.

* What a matcher cuts off is a word of the pattern (`matches_of_lexeme?`, `skipped_of_skip?`).
* A text that nests its brackets, a description and a marked bracket are cut off at the place
  where they end (`cutBracketTail?_of_nested`, `cutStringTail?_of_escaped`,
  `cutMarked?_of_gapped`).
-/

namespace Statechart.Grammar

/-! ## Patterns -/

/-- The text holds neither bracket and stays on its line. -/
def Unbracketed (opening closing : Char) (cs : List Char) : Prop :=
  ∀ c ∈ cs, c ≠ opening ∧ c ≠ closing ∧ c ≠ '\n'

/-- The brackets of the text are balanced and nest at most one level deep, and it stays on its
line. -/
inductive Nested (opening closing : Char) : List Char → Prop
  | nil : Nested opening closing []
  | char {c : Char} {cs : List Char} (hopening : c ≠ opening) (hclosing : c ≠ closing)
    (hline : c ≠ '\n') (hcs : Nested opening closing cs) : Nested opening closing (c :: cs)
  | group {inner cs : List Char} (hinner : Unbracketed opening closing inner)
    (hcs : Nested opening closing cs) : Nested opening closing (opening :: inner ++ closing :: cs)

/-- The inside of a description: a quote and a backslash stand after a backslash, and no line
feed anywhere. -/
inductive Escaped : List Char → Prop
  | nil : Escaped []
  | char {c : Char} {cs : List Char} (hquote : c ≠ '\x22') (hslash : c ≠ '\\') (hline : c ≠ '\n')
    (hcs : Escaped cs) : Escaped (c :: cs)
  | pair {c : Char} {cs : List Char} (hline : c ≠ '\n') (hcs : Escaped cs) :
    Escaped ('\\' :: c :: cs)

/-- The text is the given one between gaps. -/
def Gapped (text cs : List Char) : Prop :=
  ∃ gap gap', (∀ c ∈ gap, isGap c) ∧ (∀ c ∈ gap', isGap c) ∧ cs = gap ++ text ++ gap'

/-- What the words of each terminal look like. -/
inductive Terminal.Matches : Terminal → List Char → Prop
  /-- A keyword or a mark is spelled in one way. -/
  | spelled {t : Terminal} {s : String} (h : t.spelling? = some s) : Matches t s.toList
  | name {c : Char} {cs : List Char} (hc : isNameStart c) (hcs : ∀ d ∈ cs, isNameChar d) :
    Matches .name (c :: cs)
  | string {cs : List Char} (hcs : Escaped cs) : Matches .string ('\x22' :: cs ++ ['\x22'])
  | int {c : Char} {cs : List Char} (hc : isDigit c) (hcs : ∀ d ∈ cs, isDigit d) :
    Matches .int (c :: cs)
  /-- The inside of a condition is neither empty nor a lone star. -/
  | guard {cs : List Char} (hcs : Nested '[' ']' cs) (hne : cs ≠ []) (hstar : ¬ Gapped ['*'] cs) :
    Matches .guard ('[' :: cs ++ [']'])
  | elseMark {cs : List Char} (hcs : Gapped "else".toList cs) :
    Matches .elseMark ('[' :: cs ++ [']'])
  | action {c : Char} {cs gap args : List Char} (hc : isNameStart c)
    (hcs : ∀ d ∈ cs, isActionChar d) (hgap : ∀ d ∈ gap, isGap d) (hargs : Nested '(' ')' args) :
    Matches .action (c :: cs ++ gap ++ '(' :: args ++ [')'])

/-- What the text between words looks like: white space, or one comment. -/
inductive Skipped : List Char → Prop
  | white {cs : List Char} (hne : cs ≠ []) (hcs : ∀ c ∈ cs, isWhite c) : Skipped cs
  | hash {cs : List Char} (hcs : '\n' ∉ cs) : Skipped ('#' :: cs)
  | line {cs : List Char} (hcs : '\n' ∉ cs) : Skipped ('/' :: '/' :: cs)
  /-- A block comment ends at the first place where it can. -/
  | block {cs : List Char} (hcs : ¬ ['*', '/'] <:+: cs ++ ['*']) :
    Skipped ('/' :: '*' :: cs ++ ['*', '/'])

/-! ## Runs of a class -/

theorem forall_mem_cutWhile (p : Char → Bool) (cs : List Char) : ∀ c ∈ (cutWhile p cs).1, p c :=
  fun _ hc => List.mem_takeWhile_imp hc

theorem cutWhile_eq {p : Char → Bool} {cs rest : List Char} (hcs : ∀ c ∈ cs, p c)
    (hrest : ∀ c ∈ rest.head?, p c = false) : cutWhile p (cs ++ rest) = (cs, rest) := by
  have hstop : rest.takeWhile p = [] ∧ rest.dropWhile p = rest := by
    cases rest with
    | nil => simp
    | cons d r => simp [hrest d (by simp)]
  rw [cutWhile, List.takeWhile_append_of_pos hcs, List.dropWhile_append_of_pos hcs, hstop.1,
    hstop.2, List.append_nil]

/-! ## Brackets -/

theorem cutBracketTail?_of_unbracketed {o c : Char} {inner rest : List Char}
    (h : Unbracketed o c inner) (hc : c ≠ '\n') :
    cutBracketTail? o c true (inner ++ c :: rest) =
      (cutBracketTail? o c false rest).map (Cut.prepend (inner ++ [c])) := by
  induction inner with
  | nil =>
    simp only [List.nil_append, cutBracketTail?, beq_iff_eq, hc, if_false, if_true]
    rfl
  | cons d inner ih =>
    obtain ⟨hdo, hdc, hdn⟩ := h d (by simp)
    rw [List.cons_append, cutBracketTail?]
    simp only [beq_iff_eq, hdn, if_false, hdc, hdo, ih fun x hx => h x (List.mem_cons_of_mem _ hx),
      Option.map_map]
    rfl

theorem cutBracketTail?_of_nested {o c : Char} {inner : List Char} (h : Nested o c inner)
    (hoc : o ≠ c) (ho : o ≠ '\n') (hc : c ≠ '\n') (rest : List Char) :
    cutBracketTail? o c false (inner ++ c :: rest) = some (inner ++ [c], rest) := by
  induction h with
  | nil => simp [cutBracketTail?, hc]
  | char hopening hclosing hline _ ih =>
    simp [cutBracketTail?, hopening, hclosing, hline, ih, Cut.push]
  | @group g cs hinner _ ih =>
    rw [List.cons_append, List.cons_append, cutBracketTail?]
    simp only [beq_iff_eq, ho, hoc, if_false, if_true, Bool.false_eq_true, List.append_assoc,
      List.cons_append]
    rw [cutBracketTail?_of_unbracketed hinner hc, ih]
    simp [Cut.prepend, Cut.push]

/-- A text that ends at the bracket that closes it, where `inner` tells whether an inner bracket
is still to be closed before. -/
def Closed (o c : Char) : Bool → List Char → Prop
  | false, cs => ∃ body, Nested o c body ∧ cs = body ++ [c]
  | true, cs => ∃ inner body, Unbracketed o c inner ∧ Nested o c body ∧
      cs = inner ++ c :: body ++ [c]

theorem closed_of_cutBracketTail? {o c : Char} {inner : Bool} {cs : List Char} {k : Cut}
    (h : cutBracketTail? o c inner cs = some k) : Closed o c inner k.1 := by
  fun_induction cutBracketTail? o c inner cs generalizing k with
  | case1 => simp at h
  | case2 => simp at h
  | case3 d cs hline hclosing ih =>
    obtain ⟨j, hj, rfl⟩ := Option.map_eq_some_iff.1 h
    obtain ⟨body, hbody, hj⟩ := ih hj
    obtain rfl : d = c := by simpa using hclosing
    exact ⟨[], body, by simp [Unbracketed], hbody, by simp [Cut.push, hj]⟩
  | case4 inner d cs hline hclosing hinner =>
    obtain rfl : d = c := by simpa using hclosing
    obtain rfl : inner = false := by simpa using hinner
    simp only [Option.some.injEq] at h
    subst h
    exact ⟨[], .nil, rfl⟩
  | case5 => simp at h
  | case6 inner d cs hline hclosing hopening hinner ih =>
    obtain ⟨j, hj, rfl⟩ := Option.map_eq_some_iff.1 h
    obtain ⟨g, body, hg, hbody, htext⟩ := ih hj
    obtain rfl : d = o := by simpa using hopening
    obtain rfl : inner = false := by simpa using hinner
    refine ⟨_, .group hg hbody, ?_⟩
    simp only [Cut.push, htext, List.cons_append]
  | case7 inner d cs hline hclosing hopening ih =>
    obtain ⟨j, hj, rfl⟩ := Option.map_eq_some_iff.1 h
    simp only [beq_iff_eq] at hline hclosing hopening
    cases inner with
    | false =>
      obtain ⟨body, hbody, hj⟩ := ih hj
      exact ⟨_, .char hopening hclosing hline hbody, by simp [Cut.push, hj]⟩
    | true =>
      obtain ⟨g, body, hg, hbody, hj⟩ := ih hj
      refine ⟨d :: g, body, ?_, hbody, by simp [Cut.push, hj]⟩
      rintro x (_ | ⟨_, hx⟩)
      · exact ⟨hopening, hclosing, hline⟩
      · exact hg x hx

namespace Nested

variable {o c x : Char} {cs : List Char}

theorem of_cons (h : Nested o c (x :: cs)) (hx : x ≠ o) : Nested o c cs := by
  cases h with
  | char _ _ _ hcs => exact hcs
  | group => exact absurd rfl hx

theorem of_concat (h : Nested o c (cs ++ [x])) (hx : x ≠ c) : Nested o c cs := by
  generalize htext : cs ++ [x] = text at h
  induction h generalizing cs with
  | nil => simp at htext
  | @char d text hopening hclosing hline hcs ih =>
    cases cs with
    | nil => exact .nil
    | cons e cs =>
      obtain ⟨rfl, rfl⟩ : e = d ∧ cs ++ [x] = text := by simpa using htext
      exact .char hopening hclosing hline (ih rfl)
  | @group inner text hinner hcs ih =>
    rcases List.eq_nil_or_concat' text with rfl | ⟨text, d, rfl⟩
    · obtain ⟨-, hlast⟩ := List.append_inj' htext rfl
      exact absurd (List.singleton_inj.1 hlast) hx
    · have hsplit : cs ++ [x] = (o :: inner ++ c :: text) ++ [d] := by simpa using htext
      obtain ⟨rfl, hlast⟩ := List.append_inj' hsplit rfl
      exact .group hinner (ih (by rw [hlast]))

/-- Brackets stay nested when text without them is taken away at the ends. -/
theorem inside {front back : List Char} (h : Nested o c (front ++ cs ++ back))
    (hfront : ∀ x ∈ front, x ≠ o) (hback : ∀ x ∈ back, x ≠ c) : Nested o c cs := by
  induction front with
  | nil =>
    induction back using List.reverseRecOn with
    | nil => rwa [List.nil_append, List.append_nil] at h
    | append_singleton back x ih =>
      rw [← List.append_assoc] at h
      exact ih (fun y hy => hback y (by simp [hy])) (h.of_concat (hback x (by simp)))
  | cons x front ih =>
    exact ih (h.of_cons (hfront x (by simp))) fun y hy => hfront y (by simp [hy])

theorem notMem_lineFeed (h : Nested o c cs) (ho : o ≠ '\n') (hc : c ≠ '\n') : '\n' ∉ cs := by
  induction h with
  | nil => exact List.not_mem_nil
  | char _ _ hline _ ih => exact List.not_mem_cons_of_ne_of_not_mem hline.symm ih
  | group hinner _ ih =>
    have hline : ∀ inner, Unbracketed o c inner → '\n' ∉ inner :=
      fun inner hinner hmem => (hinner _ hmem).2.2 rfl
    simp [ho.symm, hc.symm, ih, hline _ hinner]

end Nested

/-- An action stays on its line. -/
theorem lineFeed_notMem_action {cs : List Char} (h : Terminal.Matches .action cs) : '\n' ∉ cs := by
  cases h with
  | spelled hs => cases hs
  | @action c cs gap args hc hcs hgap hargs =>
    have hstart : c ≠ '\n' := by
      rintro rfl
      cases hc
    have hname : '\n' ∉ cs := fun h => absurd (hcs _ h) (by decide)
    have hblank : '\n' ∉ gap := fun h => absurd (hgap _ h) (by decide)
    have hinside : '\n' ∉ args := hargs.notMem_lineFeed (by decide) (by decide)
    simp [hstart.symm, hname, hblank, hinside]

/-! ## Descriptions -/

theorem cutStringTail?_of_escaped {cs : List Char} (h : Escaped cs) (rest : List Char) :
    cutStringTail? (cs ++ '\x22' :: rest) = some (cs ++ ['\x22'], rest) := by
  induction h with
  | nil => simp [cutStringTail?]
  | @char c cs hquote hslash hline _ ih =>
    rw [List.cons_append, cutStringTail?]
    · simp [hline, hslash, ih, Cut.push]
    · exact fun h => hquote h
    · exact fun _ _ h _ => hslash h
  | pair hline _ ih => simp [cutStringTail?, hline, ih, Cut.prepend]

theorem escaped_of_cutStringTail? {cs : List Char} {k : Cut} (h : cutStringTail? cs = some k) :
    ∃ body, Escaped body ∧ k.1 = body ++ ['\x22'] := by
  fun_induction cutStringTail? cs generalizing k with
  | case1 => simp at h; subst h; exact ⟨[], .nil, rfl⟩
  | case2 => simp at h
  | case3 c cs hline ih =>
    obtain ⟨j, hj, rfl⟩ := Option.map_eq_some_iff.1 h
    obtain ⟨body, hbody, hj⟩ := ih hj
    exact ⟨_, .pair (by simpa using hline) hbody, by simp [Cut.prepend, hj]⟩
  | case4 => simp at h
  | case5 c cs hquote hslash hplain ih =>
    obtain ⟨j, hj, rfl⟩ := Option.map_eq_some_iff.1 h
    obtain ⟨body, hbody, hj⟩ := ih hj
    simp only [Bool.or_eq_true, beq_iff_eq, not_or] at hplain
    exact ⟨_, .char (fun h => hquote h) hplain.2 hplain.1 hbody, by simp [Cut.push, hj]⟩
  | case6 => simp at h

/-! ## Fixed texts -/

theorem cutText?_self (xs rest : List Char) : cutText? xs (xs ++ rest) = some (xs, rest) := by
  induction xs with
  | nil => rfl
  | cons x xs ih => simp [cutText?, ih, Cut.push]

theorem cutMarked?_of_gapped {x : Char} {text cs : List Char} (h : Gapped (x :: text) cs)
    (hx : isGap x = false) (rest : List Char) :
    cutMarked? (x :: text) ('[' :: cs ++ ']' :: rest) = some ('[' :: cs ++ [']'], rest) := by
  obtain ⟨gap, gap', hgap, hgap', rfl⟩ := h
  have hfront : cutWhile isGap (gap ++ (x :: text ++ (gap' ++ ']' :: rest))) =
      (gap, x :: text ++ (gap' ++ ']' :: rest)) := cutWhile_eq hgap (by simpa using hx)
  have hback : cutWhile isGap (gap' ++ ']' :: rest) = (gap', ']' :: rest) :=
    cutWhile_eq hgap' (by simp [isGap])
  simp only [List.cons_append] at hfront
  simp only [List.cons_append, List.append_assoc, cutMarked?, hfront]
  rw [← List.cons_append, cutText?_self]
  simp [hback, cutText?, Cut.push]

theorem gapped_of_cutMarked? {text cs : List Char} {k : Cut} (h : cutMarked? text cs = some k) :
    ∃ inside, Gapped text inside ∧ k.1 = '[' :: inside ++ [']'] := by
  unfold cutMarked? at h
  split at h
  · rename_i r
    simp only [Option.bind_eq_bind, Option.bind_eq_some_iff, Option.pure_def,
      Option.some.injEq] at h
    obtain ⟨w, hw, e, he, rfl⟩ := h
    refine ⟨_, ⟨(cutWhile isGap r).1, (cutWhile isGap w.2).1, forall_mem_cutWhile _ _,
      forall_mem_cutWhile _ _, rfl⟩, ?_⟩
    rw [(cutText?_append hw).1, (cutText?_append he).1]
    simp only [List.cons_append, List.append_assoc]
  · cases h

/-! ## What the matchers cut off -/

theorem matches_of_cutName? {cs : List Char} {k : Cut} (h : cutName? cs = some k) :
    Terminal.Matches .name k.1 := by
  unfold cutName? at h
  split at h
  · split at h
    · rename_i hc
      cases h
      exact .name hc (forall_mem_cutWhile _ _)
    · cases h
  · cases h

theorem matches_of_cutInt? {cs : List Char} {k : Cut} (h : cutInt? cs = some k) :
    Terminal.Matches .int k.1 := by
  unfold cutInt? at h
  split at h
  · split at h
    · rename_i hc
      cases h
      exact .int hc (forall_mem_cutWhile _ _)
    · cases h
  · cases h

theorem matches_of_cutString? {cs : List Char} {k : Cut} (h : cutString? cs = some k) :
    Terminal.Matches .string k.1 := by
  unfold cutString? at h
  split at h
  · obtain ⟨j, hj, rfl⟩ := Option.map_eq_some_iff.1 h
    obtain ⟨body, hbody, hj⟩ := escaped_of_cutStringTail? hj
    rw [Cut.push, hj]
    exact .string hbody
  · cases h

theorem matches_of_cutMarked? {cs : List Char} {k : Cut}
    (h : cutMarked? "else".toList cs = some k) : Terminal.Matches .elseMark k.1 := by
  obtain ⟨inside, hinside, hk⟩ := gapped_of_cutMarked? h
  exact hk ▸ .elseMark hinside

theorem matches_of_cutGuard? {cs : List Char} {k : Cut} (h : cutGuard? cs = some k) :
    Terminal.Matches .guard k.1 := by
  unfold cutGuard? at h
  split at h
  · rename_i r
    split at h
    · cases h
    · rename_i hfree
      simp only [Bool.or_eq_true, beq_iff_eq, not_or] at hfree
      obtain ⟨j, hj, rfl⟩ := Option.map_eq_some_iff.1 h
      obtain ⟨body, hbody, htext⟩ := closed_of_cutBracketTail? hj
      have hr : r = body ++ ']' :: j.2 := by
        rw [← cutBracketTail?_append hj, htext, List.append_assoc]
        rfl
      rw [Cut.push, htext]
      refine .guard hbody (fun hnil => hfree.1 (by simp [hr, hnil])) fun hstar => hfree.2 ?_
      rw [hr]
      exact Option.isSome_iff_exists.2 ⟨_, cutMarked?_of_gapped hstar rfl j.2⟩
  · cases h

theorem matches_of_cutAction? {cs : List Char} {k : Cut} (h : cutAction? cs = some k) :
    Terminal.Matches .action k.1 := by
  unfold cutAction? at h
  split at h
  · rename_i c cs
    split at h
    · rename_i hc
      obtain ⟨a, ha, rfl⟩ := Option.map_eq_some_iff.1 h
      unfold cutArguments? at ha
      split at ha
      · obtain ⟨j, hj, rfl⟩ := Option.map_eq_some_iff.1 ha
        obtain ⟨args, hargs, htext⟩ := closed_of_cutBracketTail? hj
        have := Terminal.Matches.action hc (forall_mem_cutWhile isActionChar cs)
          (forall_mem_cutWhile isGap (cutWhile isActionChar cs).2) hargs
        simpa only [Cut.prepend, Cut.push, htext, List.cons_append, List.append_assoc] using this
      · cases ha
    · cases h
  · cases h

theorem mem_of_spelled? {cs : List Char} {ts : List (Terminal × String)} {t : Terminal} {k : Cut}
    (h : spelled? cs ts = some (t, k)) : ∃ s, (t, s) ∈ ts ∧ k.1 = s.toList := by
  fun_induction spelled? cs ts with
  | case1 => cases h
  | case2 u s r j hj =>
    cases h
    exact ⟨s, by simp, (cutText?_append hj).1⟩
  | case3 u s r hk ih =>
    obtain ⟨x, hx, hk⟩ := ih h
    exact ⟨x, List.mem_cons_of_mem _ hx, hk⟩

theorem spelling?_of_mem : ∀ p ∈ Terminal.marks ++ Terminal.keywords,
    p.1.spelling? = some p.2 := by
  decide

theorem matches_wordTerminal {wanted : List Terminal} {word : List Char}
    (h : Terminal.Matches .name word) : (wordTerminal wanted word).Matches word := by
  unfold wordTerminal
  split
  · rename_i k hk
    have hword : k.2.toList = word := by
      have := List.find?_some hk
      simp only [Bool.and_eq_true, beq_iff_eq] at this
      exact this.2
    exact hword ▸ .spelled (spelling?_of_mem k
      (List.mem_append_right _ (List.mem_of_find?_eq_some hk)))
  · exact h

theorem matches_of_cutIf {wanted : List Terminal} {u t : Terminal} {o : Option Cut} {k : Cut}
    (ho : ∀ j, o = some j → u.Matches j.1) (h : cutIf wanted u o = some (t, k)) :
    t.Matches k.1 ∧ t = u := by
  unfold cutIf at h
  split at h
  · obtain ⟨j, hj, he⟩ := Option.map_eq_some_iff.1 h
    cases he
    exact ⟨ho _ hj, rfl⟩
  · cases h

/-- The word that is cut off for a terminal is a word of it. -/
theorem matches_of_lexeme? {wanted : List Terminal} {cs : List Char} {t : Terminal} {k : Cut}
    (h : lexeme? wanted cs = some (t, k)) : t.Matches k.1 := by
  unfold lexeme? at h
  simp only [Option.orElse_eq_orElse, Option.orElse_eq_or, Option.or_eq_some_iff,
    Option.map_eq_some_iff] at h
  rcases h with h | ⟨_, h | ⟨_, ⟨u, hu, he⟩ | ⟨_, h | ⟨_, h | ⟨_, h | ⟨_, h⟩⟩⟩⟩⟩⟩
  · exact (matches_of_cutIf (fun _ => matches_of_cutMarked?) h).1
  · exact (matches_of_cutIf (fun _ => matches_of_cutAction?) h).1
  · cases he
    obtain ⟨hname, hkind⟩ := matches_of_cutIf (fun _ => matches_of_cutName?) hu
    exact matches_wordTerminal (hkind ▸ hname)
  · exact (matches_of_cutIf (fun _ => matches_of_cutString?) h).1
  · exact (matches_of_cutIf (fun _ => matches_of_cutInt?) h).1
  · exact (matches_of_cutIf (fun _ => matches_of_cutGuard?) h).1
  · obtain ⟨s, hs, hk⟩ := mem_of_spelled? h
    refine hk ▸ .spelled (spelling?_of_mem (t, s) ?_)
    rcases List.mem_append.1 (List.mem_filter.1 hs).1 with hs | hs
    · exact List.mem_append_left _ hs
    · split at hs
      · cases hs
      · exact List.mem_append_right _ hs

/-! ## What is passed over -/

theorem body_of_cutCommentTail? {cs : List Char} {k : Cut} (h : cutCommentTail? cs = some k) :
    ∃ body, ¬ ['*', '/'] <:+: body ++ ['*'] ∧ k.1 = body ++ ['*', '/'] := by
  fun_induction cutCommentTail? cs generalizing k with
  | case1 => cases h; exact ⟨[], by decide, rfl⟩
  | case2 c cs hend ih =>
    obtain ⟨j, hj, rfl⟩ := Option.map_eq_some_iff.1 h
    obtain ⟨body, hbody, htext⟩ := ih hj
    refine ⟨c :: body, fun hinfix => ?_, by simp [Cut.push, htext]⟩
    have hinfix : ['*', '/'] <:+: c :: (body ++ ['*']) := hinfix
    rcases List.infix_cons_iff.1 hinfix with hprefix | hinfix
    · -- The comment would have ended here.
      have hcs := cutCommentTail?_append hj
      rw [htext] at hcs
      cases body with
      | nil => simp at hprefix
      | cons d body =>
        rw [List.cons_append, List.cons_prefix_cons, List.cons_prefix_cons] at hprefix
        obtain ⟨rfl, rfl, -⟩ := hprefix
        exact hend _ rfl hcs.symm
    · exact hbody hinfix
  | case3 => cases h

/-- What is passed over is white space or a comment. -/
theorem skipped_of_skip? {cs : List Char} {k : Cut} (h : skip? cs = some k) : Skipped k.1 := by
  have hline (cs : List Char) : '\n' ∉ (cutWhile (· != '\n') cs).1 := fun hn => by
    simpa using forall_mem_cutWhile _ _ _ hn
  unfold skip? at h
  split at h
  · cases h
  · rename_i c cs
    split at h
    · rename_i hc
      cases h
      refine .white (List.cons_ne_nil _ _) fun d hd => ?_
      rcases List.mem_cons.1 hd with rfl | hd
      · exact hc
      · exact forall_mem_cutWhile _ _ d hd
    · split at h
      · rename_i hc
        obtain rfl : c = '#' := by simpa using hc
        cases h
        exact .hash (hline cs)
      · split at h
        · rename_i hc
          obtain rfl : c = '/' := by simpa using hc
          split at h
          · cases h
            exact .line (hline _)
          · obtain ⟨j, hj, rfl⟩ := Option.map_eq_some_iff.1 h
            obtain ⟨body, hbody, htext⟩ := body_of_cutCommentTail? hj
            rw [Cut.prepend, htext]
            exact .block hbody
          · cases h
        · cases h

end Statechart.Grammar
