import Statechart.Grammar.Terminal

/-!
# Lexemes

Each class of words has a matcher, which cuts a word of the class off the front of a text, and
so has the text that a reader passes over: white space and comments. `lexeme?` looks for a word
of one of several wanted terminals.

Where more than one terminal fits, a default mark comes before an action, an action before the
other classes, and these before the marks. A word is a keyword only if that keyword is wanted;
where no identifier is wanted, a keyword need not end at the end of a word.

Main statements: `lexeme?_split` and `skip?_split`, cutting loses nothing and always cuts
something.
-/

namespace Statechart.Grammar

/-- A front part and the rest of a text. -/
abbrev Cut := List Char × List Char

/-- The cut of a text at the end of its longest front part in the class. -/
def cutWhile (p : Char → Bool) (cs : List Char) : Cut :=
  (cs.takeWhile p, cs.dropWhile p)

/-- The cut with one more character in front. -/
def Cut.push (c : Char) (k : Cut) : Cut := (c :: k.1, k.2)

/-- The cut with a longer front part. -/
def Cut.prepend (cs : List Char) (k : Cut) : Cut := (cs ++ k.1, k.2)

/-! ## Character classes -/

/-- A letter of the ASCII alphabet, or an underscore. -/
def isNameStart (c : Char) : Bool :=
  ('A' ≤ c && c ≤ 'Z') || ('a' ≤ c && c ≤ 'z') || c == '_'

/-- An ASCII digit. -/
def isDigit (c : Char) : Bool := '0' ≤ c && c ≤ '9'

/-- A character inside an identifier. -/
def isNameChar (c : Char) : Bool := isNameStart c || isDigit c

/-- A character inside the name of an action, which may be qualified by dots. -/
def isActionChar (c : Char) : Bool := isNameChar c || c == '.'

/-- A space or a tabulator. -/
def isGap (c : Char) : Bool := c == ' ' || c == '\t'

/-- White space between words: space, tabulator, form feed, carriage return, line feed. -/
def isWhite (c : Char) : Bool :=
  c == ' ' || c == '\t' || c == '\x0c' || c == '\r' || c == '\n'

/-! ## Matchers -/

/-- The cut after a fixed text. -/
def cutText? : List Char → List Char → Option Cut
  | [], cs => some ([], cs)
  | _ :: _, [] => none
  | x :: xs, c :: cs => if x == c then (cutText? xs cs).map (Cut.push c) else none

/-- The cut after an identifier. -/
def cutName? : List Char → Option Cut
  | c :: cs => if isNameStart c then some ((cutWhile isNameChar cs).push c) else none
  | [] => none

/-- The cut after a run of digits. -/
def cutInt? : List Char → Option Cut
  | c :: cs => if isDigit c then some ((cutWhile isDigit cs).push c) else none
  | [] => none

/-- The cut after the closing quote of a description, from inside it. -/
def cutStringTail? : List Char → Option Cut
  | '\x22' :: cs => some (['\x22'], cs)
  | '\\' :: c :: cs =>
    if c == '\n' then none else (cutStringTail? cs).map (Cut.prepend ['\\', c])
  | c :: cs =>
    if c == '\n' || c == '\\' then none else (cutStringTail? cs).map (Cut.push c)
  | [] => none

/-- The cut after a description. -/
def cutString? : List Char → Option Cut
  | '\x22' :: cs => (cutStringTail? cs).map (Cut.push '\x22')
  | _ => none

/-- The cut after the bracket that closes a bracketed text, from inside it. Brackets nest at
most one level deep, which `inner` tells, and stand on one line. -/
def cutBracketTail? (opening closing : Char) (inner : Bool) : List Char → Option Cut
  | [] => none
  | c :: cs =>
    if c == '\n' then none
    else if c == closing then
      if inner then (cutBracketTail? opening closing false cs).map (Cut.push c)
      else some ([c], cs)
    else if c == opening then
      if inner then none else (cutBracketTail? opening closing true cs).map (Cut.push c)
    else (cutBracketTail? opening closing inner cs).map (Cut.push c)

/-- The cut after a square bracket that holds just the given text between gaps. -/
def cutMarked? (text : List Char) : List Char → Option Cut
  | '[' :: cs => do
    let gap := cutWhile isGap cs
    let word ← cutText? text gap.2
    let gap' := cutWhile isGap word.2
    let close ← cutText? [']'] gap'.2
    return (('[' :: gap.1) ++ word.1 ++ gap'.1 ++ close.1, close.2)
  | _ => none

/-- The cut after a condition: a bracket that is neither empty nor a lone star. -/
def cutGuard? : List Char → Option Cut
  | '[' :: cs =>
    if cs.head? == some ']' || (cutMarked? ['*'] ('[' :: cs)).isSome then none
    else (cutBracketTail? '[' ']' false cs).map (Cut.push '[')
  | _ => none

/-- The cut after an argument list in round brackets. -/
def cutArguments? : List Char → Option Cut
  | '(' :: cs => (cutBracketTail? '(' ')' false cs).map (Cut.push '(')
  | _ => none

/-- The cut after an action: a dotted name and an argument list. -/
def cutAction? : List Char → Option Cut
  | c :: cs =>
    if isNameStart c then
      let word := cutWhile isActionChar cs
      let gap := cutWhile isGap word.2
      (cutArguments? gap.2).map (Cut.prepend ((c :: word.1) ++ gap.1))
    else none
  | [] => none

/-- The cut after the end of a block comment, from inside it. -/
def cutCommentTail? : List Char → Option Cut
  | '*' :: '/' :: cs => some (['*', '/'], cs)
  | c :: cs => (cutCommentTail? cs).map (Cut.push c)
  | [] => none

/-- The cut after white space or after one comment. -/
def skip? : List Char → Option Cut
  | [] => none
  | c :: cs =>
    if isWhite c then some ((cutWhile isWhite cs).push c)
    else if c == '#' then some ((cutWhile (· != '\n') cs).push c)
    else if c == '/' then
      match cs with
      | '/' :: r => some ((cutWhile (· != '\n') r).prepend ['/', '/'])
      | '*' :: r => (cutCommentTail? r).map (Cut.prepend ['/', '*'])
      | _ => none
    else none

/-! ## Wanted terminals -/

/-- The first of the terminals whose spelling stands at the front, with the cut after it. -/
def spelled? (cs : List Char) : List (Terminal × String) → Option (Terminal × Cut)
  | [] => none
  | (t, s) :: r =>
    match cutText? s.toList cs with
    | some k => some (t, k)
    | none => spelled? cs r

/-- The terminal of a whole word: a wanted keyword, or else an identifier. -/
def wordTerminal (wanted : List Terminal) (word : List Char) : Terminal :=
  match Terminal.keywords.find? fun k => wanted.contains k.1 && k.2.toList == word with
  | some k => k.1
  | none => .name

/-- The word of a terminal with a pattern, if it is wanted. -/
def cutIf (wanted : List Terminal) (t : Terminal) (cut : Option Cut) : Option (Terminal × Cut) :=
  if wanted.contains t then cut.map (t, ·) else none

/-- A word of one of the wanted terminals at the front of a text. -/
def lexeme? (wanted : List Terminal) (cs : List Char) : Option (Terminal × Cut) :=
  cutIf wanted .elseMark (cutMarked? "else".toList cs) <|>
  cutIf wanted .action (cutAction? cs) <|>
  (cutIf wanted .name (cutName? cs)).map (fun r => (wordTerminal wanted r.2.1, r.2)) <|>
  cutIf wanted .string (cutString? cs) <|>
  cutIf wanted .int (cutInt? cs) <|>
  cutIf wanted .guard (cutGuard? cs) <|>
  spelled? cs ((Terminal.marks ++ if wanted.contains .name then [] else Terminal.keywords).filter
    fun k => wanted.contains k.1)

/-! ## Cutting loses nothing -/

/-- The two parts of a cut make up the text, and the first is not empty. -/
def Cut.Splits (cs : List Char) (k : Cut) : Prop := k.1 ++ k.2 = cs ∧ k.1 ≠ []

theorem Cut.Splits.length_lt {cs : List Char} {k : Cut} (h : k.Splits cs) :
    k.2.length < cs.length := by
  obtain ⟨h, hne⟩ := h
  have := congrArg List.length h
  have := List.length_pos_iff.2 hne
  simp only [List.length_append] at *
  omega

theorem cutWhile_append (p : Char → Bool) (cs : List Char) :
    (cutWhile p cs).1 ++ (cutWhile p cs).2 = cs :=
  List.takeWhile_append_dropWhile

theorem Cut.push_splits {c : Char} {cs : List Char} {k : Cut} (h : k.1 ++ k.2 = cs) :
    (k.push c).Splits (c :: cs) := by
  simp [Cut.Splits, Cut.push, h]

theorem map_push_splits {c : Char} {cs : List Char} {o : Option Cut} {k : Cut}
    (ho : ∀ j, o = some j → j.1 ++ j.2 = cs) (h : o.map (Cut.push c) = some k) :
    k.Splits (c :: cs) := by
  obtain ⟨j, hj, rfl⟩ := Option.map_eq_some_iff.1 h
  exact Cut.push_splits (ho j hj)

theorem cutText?_append {xs cs : List Char} {k : Cut} (h : cutText? xs cs = some k) :
    k.1 = xs ∧ k.1 ++ k.2 = cs := by
  fun_induction cutText? xs cs generalizing k with
  | case1 => simp at h; subst h; simp
  | case2 => simp at h
  | case3 x xs c cs hx ih =>
    obtain ⟨j, hj, rfl⟩ := Option.map_eq_some_iff.1 h
    simp only [beq_iff_eq] at hx
    obtain ⟨h1, h2⟩ := ih hj
    exact ⟨by simp [Cut.push, h1, hx], by simp [Cut.push, h2]⟩
  | case4 => simp at h

theorem cutName?_splits {cs : List Char} {k : Cut} (h : cutName? cs = some k) :
    k.Splits cs := by
  unfold cutName? at h
  split at h
  · split at h
    · simp only [Option.some.injEq] at h
      exact h ▸ Cut.push_splits (cutWhile_append _ _)
    · simp at h
  · simp at h

theorem cutInt?_splits {cs : List Char} {k : Cut} (h : cutInt? cs = some k) :
    k.Splits cs := by
  unfold cutInt? at h
  split at h
  · split at h
    · simp only [Option.some.injEq] at h
      exact h ▸ Cut.push_splits (cutWhile_append _ _)
    · simp at h
  · simp at h

theorem cutStringTail?_append {cs : List Char} {k : Cut} (h : cutStringTail? cs = some k) :
    k.1 ++ k.2 = cs := by
  fun_induction cutStringTail? cs generalizing k with
  | case1 => simp at h; subst h; simp
  | case2 => simp at h
  | case3 c cs hc ih =>
    obtain ⟨j, hj, rfl⟩ := Option.map_eq_some_iff.1 h
    simp [Cut.prepend, ih hj]
  | case4 => simp at h
  | case5 c cs h1 h2 hc ih =>
    obtain ⟨j, hj, rfl⟩ := Option.map_eq_some_iff.1 h
    simp [Cut.push, ih hj]
  | case6 => simp at h

theorem cutString?_splits {cs : List Char} {k : Cut} (h : cutString? cs = some k) :
    k.Splits cs := by
  unfold cutString? at h
  split at h
  · exact map_push_splits (fun _ => cutStringTail?_append) h
  · simp at h

theorem cutBracketTail?_append {o c : Char} {inner : Bool} {cs : List Char} {k : Cut}
    (h : cutBracketTail? o c inner cs = some k) : k.1 ++ k.2 = cs := by
  fun_induction cutBracketTail? o c inner cs generalizing k with
  | case1 => simp at h
  | case2 => simp at h
  | case3 d cs h1 h2 ih =>
    obtain ⟨j, hj, rfl⟩ := Option.map_eq_some_iff.1 h
    simp [Cut.push, ih hj]
  | case4 => simp at h; subst h; simp
  | case5 => simp at h
  | case6 inner d cs h1 h2 h3 h4 ih =>
    obtain ⟨j, hj, rfl⟩ := Option.map_eq_some_iff.1 h
    simp [Cut.push, ih hj]
  | case7 inner d cs h1 h2 h3 ih =>
    obtain ⟨j, hj, rfl⟩ := Option.map_eq_some_iff.1 h
    simp [Cut.push, ih hj]

theorem cutMarked?_splits {text cs : List Char} {k : Cut} (h : cutMarked? text cs = some k) :
    k.Splits cs := by
  unfold cutMarked? at h
  split at h
  · rename_i r
    simp only [Option.bind_eq_bind, Option.bind_eq_some_iff, Option.pure_def,
      Option.some.injEq] at h
    obtain ⟨w, hw, e, he, rfl⟩ := h
    refine ⟨?_, by simp⟩
    have h1 := cutWhile_append isGap r
    have h2 := (cutText?_append hw).2
    have h3 := cutWhile_append isGap w.2
    have h4 := (cutText?_append he).2
    simp only [List.cons_append, List.append_assoc]
    rw [h4, h3, h2, h1]
  · simp at h

theorem cutGuard?_splits {cs : List Char} {k : Cut} (h : cutGuard? cs = some k) :
    k.Splits cs := by
  unfold cutGuard? at h
  split at h
  · split at h
    · simp at h
    · exact map_push_splits (fun _ => cutBracketTail?_append) h
  · simp at h

theorem cutArguments?_splits {cs : List Char} {k : Cut} (h : cutArguments? cs = some k) :
    k.Splits cs := by
  unfold cutArguments? at h
  split at h
  · exact map_push_splits (fun _ => cutBracketTail?_append) h
  · simp at h

theorem cutAction?_splits {cs : List Char} {k : Cut} (h : cutAction? cs = some k) :
    k.Splits cs := by
  unfold cutAction? at h
  split at h
  · rename_i c cs
    split at h
    · obtain ⟨a, ha, rfl⟩ := Option.map_eq_some_iff.1 h
      refine ⟨?_, by simp [Cut.prepend]⟩
      have h1 := cutWhile_append isActionChar cs
      have h2 := cutWhile_append isGap (cutWhile isActionChar cs).2
      have h3 := (cutArguments?_splits ha).1
      simp only [Cut.prepend, List.cons_append, List.append_assoc]
      rw [h3, h2, h1]
    · simp at h
  · simp at h

theorem cutCommentTail?_append {cs : List Char} {k : Cut} (h : cutCommentTail? cs = some k) :
    k.1 ++ k.2 = cs := by
  fun_induction cutCommentTail? cs generalizing k with
  | case1 => simp at h; subst h; simp
  | case2 c cs hc ih =>
    obtain ⟨j, hj, rfl⟩ := Option.map_eq_some_iff.1 h
    simp [Cut.push, ih hj]
  | case3 => simp at h

theorem skip?_split {cs : List Char} {k : Cut} (h : skip? cs = some k) : k.Splits cs := by
  unfold skip? at h
  split at h
  · simp at h
  · split at h
    · simp only [Option.some.injEq] at h
      exact h ▸ Cut.push_splits (cutWhile_append _ _)
    · split at h
      · simp only [Option.some.injEq] at h
        exact h ▸ Cut.push_splits (cutWhile_append _ _)
      · split at h
        · rename_i hslash
          simp only [beq_iff_eq] at hslash
          subst hslash
          split at h
          · simp only [Option.some.injEq] at h
            subst h
            simp [Cut.Splits, Cut.prepend, cutWhile_append]
          · obtain ⟨j, hj, rfl⟩ := Option.map_eq_some_iff.1 h
            simp [Cut.Splits, Cut.prepend, cutCommentTail?_append hj]
          · simp at h
        · simp at h

theorem spelled?_splits {cs : List Char} {ts : List (Terminal × String)} {t : Terminal} {k : Cut}
    (hts : ∀ p ∈ ts, p.2.toList ≠ []) (h : spelled? cs ts = some (t, k)) : k.Splits cs := by
  fun_induction spelled? cs ts with
  | case1 => simp at h
  | case2 t s r k hk =>
    simp only [Option.some.injEq, Prod.mk.injEq] at h
    obtain ⟨rfl, rfl⟩ := h
    have := cutText?_append hk
    exact ⟨this.2, this.1 ▸ hts (t, s) (by simp)⟩
  | case3 t s r hk ih => exact ih (fun p hp => hts p (by simp [hp])) h

theorem cutIf_splits {wanted : List Terminal} {u t : Terminal} {cs : List Char} {o : Option Cut}
    {k : Cut} (ho : ∀ j, o = some j → j.Splits cs) (h : cutIf wanted u o = some (t, k)) :
    k.Splits cs := by
  unfold cutIf at h
  split at h
  · obtain ⟨j, hj, he⟩ := Option.map_eq_some_iff.1 h
    simp only [Prod.mk.injEq] at he
    exact he.2 ▸ ho j hj
  · simp at h

theorem spelling_ne_nil : ∀ p ∈ Terminal.marks ++ Terminal.keywords, p.2.toList ≠ [] := by
  decide

theorem lexeme?_split {wanted : List Terminal} {cs : List Char} {t : Terminal} {k : Cut}
    (h : lexeme? wanted cs = some (t, k)) : k.Splits cs := by
  unfold lexeme? at h
  simp only [Option.orElse_eq_orElse, Option.orElse_eq_or, Option.or_eq_some_iff,
    Option.map_eq_some_iff] at h
  rcases h with h | ⟨_, h | ⟨_, ⟨⟨u, j⟩, hj, he⟩ | ⟨_, h | ⟨_, h | ⟨_, h | ⟨_, h⟩⟩⟩⟩⟩⟩
  · exact cutIf_splits (fun _ => cutMarked?_splits) h
  · exact cutIf_splits (fun _ => cutAction?_splits) h
  · simp only [Prod.mk.injEq] at he
    exact he.2 ▸ cutIf_splits (fun _ => cutName?_splits) hj
  · exact cutIf_splits (fun _ => cutString?_splits) h
  · exact cutIf_splits (fun _ => cutInt?_splits) h
  · exact cutIf_splits (fun _ => cutGuard?_splits) h
  · refine spelled?_splits (fun p hp => ?_) h
    have hp := (List.mem_filter.1 hp).1
    apply spelling_ne_nil
    rcases List.mem_append.1 hp with hp | hp
    · exact List.mem_append_left _ hp
    · split at hp
      · simp at hp
      · exact List.mem_append_right _ hp

end Statechart.Grammar
