import Mathlib
import Statechart.Proofs.Grammar.Spans

/-!
# Reading does not depend on layout

The reader takes a text apart into words and what it passes over (`segments`). White space and
whole comments that are put in at the front of a text, or right after one of its words, are
passed over as well, and the words stay as they are.

* What is put in begins with white space (`Filler`). So it makes no identifier or number longer,
  and a slash before it begins no comment.
* A word is cut off alike whatever follows it, if that begins as before or with white space
  (`lexeme?_stable`). This fails where both actions and identifiers are wanted, which is nowhere.

Main statement: `exists_read_insert_bare_eq`.
-/

namespace Statechart.Grammar

/-! ## Fillers -/

/-- White space and whole comments, one after the other. A comment on a line goes up to the end of
the line, and a block comment ends at the first place where it can. -/
inductive Layout : List Char → Prop
  | nil : Layout []
  | white {c : Char} {cs : List Char} (hc : isWhite c) (hcs : Layout cs) : Layout (c :: cs)
  | hash {body cs : List Char} (hbody : '\n' ∉ body) (hcs : Layout cs) :
    Layout ('#' :: body ++ '\n' :: cs)
  | line {body cs : List Char} (hbody : '\n' ∉ body) (hcs : Layout cs) :
    Layout ('/' :: '/' :: body ++ '\n' :: cs)
  | block {body cs : List Char} (hbody : ¬ ['*', '/'] <:+: body ++ ['*']) (hcs : Layout cs) :
    Layout ('/' :: '*' :: body ++ '*' :: '/' :: cs)

/-- White space and whole comments, with white space first. -/
inductive Filler : List Char → Prop
  | mk {c : Char} {cs : List Char} (hc : isWhite c) (hcs : Layout cs) : Filler (c :: cs)

theorem Filler.layout {cs : List Char} (h : Filler cs) : Layout cs := by
  cases h with
  | mk hc hcs => exact .white hc hcs

theorem cutCommentTail?_of_body {body : List Char} (h : ¬ ['*', '/'] <:+: body ++ ['*'])
    (cs : List Char) :
    cutCommentTail? (body ++ '*' :: '/' :: cs) = some (body ++ ['*', '/'], cs) := by
  induction body with
  | nil => rfl
  | cons c body ih =>
    have hbody : ¬ ['*', '/'] <:+: body ++ ['*'] := fun hinfix => h (List.infix_cons hinfix)
    have hnot : ∀ r, c = '*' → body ++ '*' :: '/' :: cs = '/' :: r → False := by
      rintro r rfl hr
      cases body with
      | nil => simp at hr
      | cons d body =>
        obtain ⟨rfl, -⟩ : d = '/' ∧ _ := by simpa using hr
        exact h ⟨[], body ++ ['*'], rfl⟩
    rw [List.cons_append, cutCommentTail?.eq_2 _ _ hnot, ih hbody]
    rfl

/-- Layout is passed over. -/
theorem readFrom_layout {s : Stage} {cs : List Char} (h : Layout cs) (p : Place)
    (rest : List Char) : readFrom s p (cs ++ rest) = readFrom s (p.advance cs) rest := by
  have hline {body : List Char} (hbody : '\n' ∉ body) (cs : List Char) :
      cutWhile (· != '\n') (body ++ '\n' :: cs) = (body, '\n' :: cs) :=
    cutWhile_eq (fun c hc => by simpa using ne_of_mem_of_not_mem hc hbody) (by simp)
  induction h generalizing p with
  | nil => rfl
  | white hc _ ih => rw [List.cons_append, readFrom_white hc, ih, Place.advance_cons]
  | @hash body cs hbody _ ih =>
    have hskip : skip? ('#' :: (body ++ '\n' :: (cs ++ rest))) =
        some ('#' :: body, '\n' :: (cs ++ rest)) := by
      simp [skip?, isWhite, hline hbody, Cut.push]
    simp only [List.cons_append, List.append_assoc]
    rw [readFrom_of_skip? hskip, readFrom_white rfl, ih]
    simp [Place.advance_append]
  | @line body cs hbody _ ih =>
    have hskip : skip? ('/' :: '/' :: (body ++ '\n' :: (cs ++ rest))) =
        some ('/' :: '/' :: body, '\n' :: (cs ++ rest)) := by
      simp [skip?, isWhite, hline hbody, Cut.prepend]
    simp only [List.cons_append, List.append_assoc]
    rw [readFrom_of_skip? hskip, readFrom_white rfl, ih]
    simp [Place.advance_append]
  | @block body cs hbody _ ih =>
    have hskip : skip? ('/' :: '*' :: (body ++ '*' :: '/' :: (cs ++ rest))) =
        some ('/' :: '*' :: (body ++ ['*', '/']), cs ++ rest) := by
      simp [skip?, isWhite, cutCommentTail?_of_body hbody, Cut.prepend]
    simp only [List.cons_append, List.append_assoc]
    rw [readFrom_of_skip? hskip, ih]
    simp [Place.advance_append]

/-! ## Cuts do not depend on what follows -/

theorem head_cutWhile (p : Char → Bool) (cs : List Char) :
    ∀ c ∈ (cutWhile p cs).2.head?, p c = false := by
  intro c hc
  have hstop := List.head?_dropWhile_not p cs
  rw [show cs.dropWhile p = (cutWhile p cs).2 from rfl, Option.mem_def.1 hc] at hstop
  simpa using hstop

/-- A run of a class ends alike before what begins as before or outside of the class. -/
theorem cutWhile_stable {p : Char → Bool} {cs rest rest' : List Char}
    (h : cutWhile p (cs ++ rest) = (cs, rest))
    (hrest : ∀ c ∈ rest'.head?, p c = false ∨ c ∈ rest.head?) :
    cutWhile p (cs ++ rest') = (cs, rest') := by
  have hrun := forall_mem_cutWhile p (cs ++ rest)
  have hstop := head_cutWhile p (cs ++ rest)
  rw [h] at hrun hstop
  exact cutWhile_eq hrun fun c hc => (hrest c hc).elim id (hstop c)

/-- What is passed over is passed over whatever follows it, if that begins as before. -/
theorem skip?_stable {w rest rest' : List Char} (h : skip? (w ++ rest) = some (w, rest))
    (hrest : rest'.head? = rest.head?) : skip? (w ++ rest') = some (w, rest') := by
  have hhead (p : Char → Bool) : ∀ c ∈ rest'.head?, p c = false ∨ c ∈ rest.head? :=
    fun c hc => .inr (hrest ▸ hc)
  have hpush {p : Char → Bool} {c : Char} {cs : List Char}
      (hcut : (cutWhile p (cs ++ rest)).push c = (c :: cs, rest)) :
      cutWhile p (cs ++ rest') = (cs, rest') := by
    refine cutWhile_stable ?_ (hhead p)
    simpa [Cut.push, Prod.ext_iff] using hcut
  cases skipped_of_skip? h with
  | white hne hcs =>
    cases w with
    | nil => exact absurd rfl hne
    | cons c cs =>
      have hc : isWhite c = true := hcs c (by simp)
      rw [List.cons_append, skip?_of_isWhite hc] at h ⊢
      rw [hpush (Option.some.inj h)]
      rfl
  | @hash cs _ =>
    have hcut : skip? ('#' :: (cs ++ rest)) = some ((cutWhile (· != '\n') (cs ++ rest)).push '#') :=
      rfl
    rw [List.cons_append, hcut] at h
    show some ((cutWhile (· != '\n') (cs ++ rest')).push '#') = _
    rw [hpush (Option.some.inj h)]
    rfl
  | @line cs _ =>
    have hcut : skip? ('/' :: '/' :: (cs ++ rest)) =
        some ((cutWhile (· != '\n') (cs ++ rest)).prepend ['/', '/']) := rfl
    rw [List.cons_append, List.cons_append, hcut] at h
    have h := Option.some.inj h
    show some ((cutWhile (· != '\n') (cs ++ rest')).prepend ['/', '/']) = _
    rw [cutWhile_stable (by simpa [Cut.prepend, Prod.ext_iff] using h) (hhead _)]
    rfl
  | @block cs hcs =>
    have htext : '/' :: '*' :: cs ++ ['*', '/'] ++ rest' =
        '/' :: '*' :: (cs ++ '*' :: '/' :: rest') := by simp
    show skip? ('/' :: '*' :: cs ++ ['*', '/'] ++ rest') = _
    rw [htext]
    show (cutCommentTail? (cs ++ '*' :: '/' :: rest')).map (Cut.prepend ['/', '*']) = _
    rw [cutCommentTail?_of_body hcs]
    rfl

section

variable {wanted : List Terminal} {t : Terminal} {w rest rest' : List Char}

theorem contains_of_cutIf {u : Terminal} {o : Option Cut} {k : Cut}
    (h : cutIf wanted u o = some (t, k)) : t = u ∧ wanted.contains t = true := by
  unfold cutIf at h
  split at h
  · rename_i hu
    obtain ⟨j, -, hj⟩ := Option.map_eq_some_iff.1 h
    cases hj
    exact ⟨rfl, hu⟩
  · cases h

theorem contains_wordTerminal (hname : wanted.contains .name = true) (word : List Char) :
    wanted.contains (wordTerminal wanted word) = true := by
  unfold wordTerminal
  split
  · rename_i k hk
    have hk := List.find?_some hk
    exact (Bool.and_eq_true_iff.1 hk).1
  · exact hname

/-- Only words that are wanted are cut off. -/
theorem contains_of_lexeme? {cs : List Char} {k : Cut} (h : lexeme? wanted cs = some (t, k)) :
    wanted.contains t = true := by
  unfold lexeme? at h
  simp only [Option.orElse_eq_orElse, Option.orElse_eq_or, Option.or_eq_some_iff,
    Option.map_eq_some_iff] at h
  rcases h with h | ⟨_, h | ⟨_, ⟨⟨u, j⟩, hj, he⟩ | ⟨_, h | ⟨_, h | ⟨_, h | ⟨_, h⟩⟩⟩⟩⟩⟩
  · exact (contains_of_cutIf h).2
  · exact (contains_of_cutIf h).2
  · obtain ⟨rfl, hname⟩ := contains_of_cutIf hj
    cases he
    exact contains_wordTerminal hname _
  · exact (contains_of_cutIf h).2
  · exact (contains_of_cutIf h).2
  · exact (contains_of_cutIf h).2
  · obtain ⟨s, hs, -⟩ := mem_of_spelled? h
    exact (List.mem_filter.1 hs).2

theorem mem_of_spelling? {s : String} (h : t.spelling? = some s) :
    (t, s) ∈ Terminal.marks ∨ (t, s) ∈ Terminal.keywords := by
  have hall : ∀ t ∈ Terminal.all, ∀ s ∈ t.spelling?,
      (t, s) ∈ Terminal.marks ∨ (t, s) ∈ Terminal.keywords := by decide
  exact hall t (Terminal.mem_all t) s h

/-- The text begins as the other one does, or with white space, or is empty. -/
def BreaksLike (rest' rest : List Char) : Prop :=
  ∀ c ∈ rest'.head?, isWhite c = true ∨ c ∈ rest.head?

theorem BreaksLike.ends (h : BreaksLike rest' rest) {p : Char → Bool}
    (hp : [' ', '\t', '\x0c', '\r', '\n'].all (!p ·) = true) :
    ∀ c ∈ rest'.head?, p c = false ∨ c ∈ rest.head? := by
  refine fun c hc => (h c hc).imp_left fun hwhite => ?_
  simp only [isWhite, Bool.or_eq_true, beq_iff_eq] at hwhite
  simp only [List.all_cons, Bool.and_eq_true, Bool.not_eq_true'] at hp
  rcases hwhite with (((rfl | rfl) | rfl) | rfl) | rfl
  all_goals simp [hp]

/-- A number stays the same. -/
theorem lexeme?_int_stable (hw : Terminal.Matches .int w) (hwanted : wanted.contains .int = true)
    (h : lexeme? wanted (w ++ rest) = some (.int, (w, rest))) (hrest : BreaksLike rest' rest) :
    lexeme? wanted (w ++ rest') = some (.int, (w, rest')) := by
  cases hw with
  | @int c cs hc _ =>
    rw [List.cons_append] at h ⊢
    have hcut (r : List Char) :
        cutInt? (c :: (cs ++ r)) = some ((cutWhile isDigit (cs ++ r)).push c) := by
      simp [cutInt?, hc]
    rw [lexeme?_of_cutInt? hc (hcut _) hwanted] at h ⊢
    have hrun : cutWhile isDigit (cs ++ rest) = (cs, rest) := by
      simpa [Cut.push, Prod.ext_iff] using h
    rw [cutWhile_stable hrun (hrest.ends rfl)]
    rfl
  | spelled hs => cases hs

/-- A word that looks like an identifier stays the same. -/
theorem lexeme?_name_stable (hw : Terminal.Matches .name w)
    (hname : wanted.contains .name = true) (haction : wanted.contains .action = false)
    (h : lexeme? wanted (w ++ rest) = some (t, (w, rest))) (hrest : BreaksLike rest' rest) :
    lexeme? wanted (w ++ rest') = some (t, (w, rest')) := by
  cases hw with
  | @name c cs hc _ =>
    rw [List.cons_append] at h ⊢
    have hcut (r : List Char) :
        cutName? (c :: (cs ++ r)) = some ((cutWhile isNameChar (cs ++ r)).push c) := by
      simp [cutName?, hc]
    rw [lexeme?_of_cutName? hc (hcut _) hname haction] at h ⊢
    have hrun : cutWhile isNameChar (cs ++ rest) = (cs, rest) := by
      simpa [Cut.push, Prod.ext_iff] using congrArg (Option.map Prod.snd) h
    rw [hrun] at h
    rw [cutWhile_stable hrun (hrest.ends rfl)]
    exact congrArg (Option.map fun r => (r.1, (c :: cs, rest'))) h
  | spelled hs => cases hs

/-- **A word is cut off alike whatever follows it**, if that begins as before or with white space,
and if actions are wanted on their own only. -/
theorem lexeme?_stable (hwanted : wanted.contains .action = false ∨ wanted = [.action])
    (h : lexeme? wanted (w ++ rest) = some (t, (w, rest))) (hrest : BreaksLike rest' rest) :
    lexeme? wanted (w ++ rest') = some (t, (w, rest')) := by
  have hw : t.Matches w := matches_of_lexeme? h
  have ht : wanted.contains t = true := contains_of_lexeme? h
  rcases hwanted with haction | rfl
  · cases hw with
    | action =>
      rw [haction] at ht
      cases ht
    | string hcs => exact lexeme?_string (.string hcs) ht rest'
    | elseMark hcs => exact lexeme?_elseMark (.elseMark hcs) ht rest'
    | int hc hcs => exact lexeme?_int_stable (.int hc hcs) ht h hrest
    | name hc hcs => exact lexeme?_name_stable (.name hc hcs) ht haction h hrest
    | guard hcs hne hstar =>
      refine lexeme?_guard (.guard hcs hne hstar) ht ?_ rest'
      -- a wanted default mark would have been cut off as such
      by_contra hboth
      simp only [not_or, Bool.not_eq_false, not_not] at hboth
      rw [lexeme?_elseMark hboth.2 hboth.1] at h
      cases h
    | @spelled t s hs =>
      rcases mem_of_spelling? hs with hmark | hkeyword
      · exact lexeme?_mark hmark ht rest'
      · cases hname : wanted.contains .name with
        | true => exact lexeme?_name_stable (matches_name_of_keyword hkeyword) hname haction h hrest
        | false => exact lexeme?_keyword hkeyword ht hname haction rest'
  · obtain rfl : t = .action := by simpa using ht
    exact lexeme?_action hw ht rest'

/-- A word is not passed over, whatever follows it, if that begins as before or with white space,
and if no star follows it. -/
theorem skip?_none_stable (h : skip? (w ++ rest) = none) (hw : t.Matches w)
    (hstar : rest.head? ≠ some '*') (hrest : BreaksLike rest' rest) :
    skip? (w ++ rest') = none := by
  refine skip?_of_matches hw fun ht c hc => ?_
  subst ht
  rcases hrest c hc with hwhite | hc
  · exact ⟨fun hslash => by simp [hslash, isWhite] at hwhite,
      fun hstar => by simp [hstar, isWhite] at hwhite⟩
  · refine ⟨?_, fun hc' => hstar (hc' ▸ hc)⟩
    rintro rfl
    -- two slashes would have been passed over
    cases hw with
    | @spelled _ s hs =>
      obtain rfl : "/" = s := Option.some.inj hs
      cases rest with
      | nil => cases hc
      | cons d r =>
        obtain rfl : d = '/' := by simpa using hc
        cases h

end

/-! ## Segments -/

/-- The segments of a text from a stage and a place on, as the reader takes it apart; there are no
more where it stops. -/
def segmentsFrom (s : Stage) (p : Place) (cs : List Char) : List Segment :=
  match cs with
  | [] => []
  | c :: r =>
    match hskip : skip? (c :: r) with
    | some k =>
      have := (skip?_split hskip).length_lt
      .ignored k.1 :: segmentsFrom s (p.advance k.1) k.2
    | none =>
      match hword : lexeme? s.expected (c :: r) with
      | some (t, k) =>
        match s.next ⟨t, String.ofList k.1, p.toSpan⟩ with
        | .ok s' =>
          have := (lexeme?_split hword).length_lt
          .word t k.1 :: segmentsFrom s' (p.advance k.1) k.2
        | .error _ => []
      | none => []
termination_by cs.length
decreasing_by all_goals assumption

/-- The segments of a text. -/
def segments (text : String) : List Segment := segmentsFrom .start .start text.toList

section

variable {s s' : Stage} {p : Place} {cs : List Char}

theorem segmentsFrom_of_skip? {k : Cut} (h : skip? cs = some k) :
    segmentsFrom s p cs = .ignored k.1 :: segmentsFrom s (p.advance k.1) k.2 := by
  cases cs with
  | nil => cases h
  | cons c r =>
    rw [segmentsFrom]
    split
    · rename_i k' hk'
      rw [h] at hk'
      cases hk'
      rfl
    · rename_i hnone
      rw [h] at hnone
      cases hnone

theorem segmentsFrom_of_lexeme? {t : Terminal} {k : Cut} (hskip : skip? cs = none)
    (hlex : lexeme? s.expected cs = some (t, k))
    (hnext : s.next ⟨t, String.ofList k.1, p.toSpan⟩ = .ok s') :
    segmentsFrom s p cs = .word t k.1 :: segmentsFrom s' (p.advance k.1) k.2 := by
  cases cs with
  | nil =>
    have := (lexeme?_split hlex).length_lt
    simp at this
  | cons c r =>
    rw [segmentsFrom]
    split
    · rename_i hsome
      rw [hskip] at hsome
      cases hsome
    · split
      · rename_i u j hword
        rw [hlex] at hword
        cases hword
        rw [hnext]
      · rename_i hnone
        rw [hlex] at hnone
        cases hnone

/-- The segments of a text that is read make up the text, and none is empty. -/
theorem flatMap_text_segmentsFrom {m : Machine} (h : readFrom s p cs = .ok m) :
    (segmentsFrom s p cs).flatMap Segment.text = cs ∧
      ∀ x ∈ segmentsFrom s p cs, x.text ≠ [] := by
  fun_induction readFrom s p cs with
  | case1 => simp [segmentsFrom]
  | case2 => cases h
  | case3 s p c r k hskip _ ih =>
    obtain ⟨htext, hne⟩ := ih h
    obtain ⟨hsplit, hk⟩ := skip?_split hskip
    rw [segmentsFrom_of_skip? hskip, List.flatMap_cons, htext]
    exact ⟨hsplit, List.forall_mem_cons.2 ⟨hk, hne⟩⟩
  | case4 s p c r hskip t k hword s' hnext _ ih =>
    obtain ⟨htext, hne⟩ := ih h
    obtain ⟨hsplit, hk⟩ := lexeme?_split hword
    rw [segmentsFrom_of_lexeme? hskip hword hnext, List.flatMap_cons, htext]
    exact ⟨hsplit, List.forall_mem_cons.2 ⟨hk, hne⟩⟩
  | case5 => cases h
  | case6 => cases h

/-- No text that can be read goes on with a star. -/
theorem head_ne_star_of_readFrom {m : Machine} (h : readFrom s p cs = .ok m) :
    cs.head? ≠ some '*' := by
  intro hstar
  obtain ⟨r, rfl⟩ : ∃ r, cs = '*' :: r := by
    cases cs with
    | nil => cases hstar
    | cons c r => exact ⟨r, by rw [Option.some.inj hstar]⟩
  have hskip : skip? ('*' :: r) = none := skip?_eq_none rfl (by decide) (by decide)
  have hlex : lexeme? s.expected ('*' :: r) = none := by
    rw [← Option.not_isSome_iff_eq_none]
    intro hsome
    obtain ⟨⟨t, k⟩, hk⟩ := Option.isSome_iff_exists.1 hsome
    obtain ⟨c, ds, hfront, -, -, hc, -⟩ := (matches_of_lexeme? hk).exists_front
    have hsplit := (lexeme?_split hk).1
    rw [hfront, List.cons_append] at hsplit
    exact hc (List.cons.inj hsplit).1
  rw [readFrom] at h
  split at h
  · rename_i hsome
    rw [hskip] at hsome
    cases hsome
  · split at h
    · rename_i hsome
      rw [hlex] at hsome
      cases hsome
    · cases h

end

/-! ## Putting a filler in -/

/-- The text of segments, with something put in between some of them and the others. -/
def textWith (before : List Segment) (filler : List Char) (after : List Segment) : String :=
  String.ofList (before.flatMap Segment.text ++ (filler ++ after.flatMap Segment.text))

/-- There are no segments, or the last of them is a word. -/
def EndInWord (xs : List Segment) : Prop := ∀ cs, xs.getLast? ≠ some (.ignored cs)

theorem EndInWord.tail {x : Segment} {xs : List Segment} (h : EndInWord (x :: xs)) :
    EndInWord xs := by
  cases xs with
  | nil => simp [EndInWord]
  | cons y ys => simpa [EndInWord, List.getLast?_cons_cons] using h

/-- What follows a word begins alike, or with the white space of a filler. -/
theorem breaksLike_insert {filler : List Char} (hfiller : Filler filler) {before : List Segment}
    (hne : ∀ x ∈ before, x.text ≠ []) (after : List Char) :
    BreaksLike (before.flatMap Segment.text ++ (filler ++ after))
      (before.flatMap Segment.text ++ after) := by
  cases before with
  | nil =>
    cases hfiller with
    | @mk c cs hc _ =>
      intro d hd
      obtain rfl : c = d := by simpa using hd
      exact .inl hc
  | cons x before =>
    intro d hd
    right
    have hx := hne x (by simp)
    cases hxs : x.text with
    | nil => exact absurd hxs hx
    | cons e es => simpa [hxs] using hd

theorem head_insert (filler : List Char) {before : List Segment} (hbefore : before ≠ [])
    (hne : ∀ x ∈ before, x.text ≠ []) (after : List Char) :
    (before.flatMap Segment.text ++ (filler ++ after)).head? =
      (before.flatMap Segment.text ++ after).head? := by
  cases before with
  | nil => exact absurd rfl hbefore
  | cons x before =>
    have hx := hne x (by simp)
    cases hxs : x.text with
    | nil => exact absurd hxs hx
    | cons e es => simp [hxs]

/-- In every stage, actions are wanted on their own only. -/
theorem Stage.expected_action (s : Stage) :
    s.expected.contains .action = false ∨ s.expected = [.action] := by
  cases s
  case actionWanted => exact .inr rfl
  all_goals exact .inl rfl

section

variable {filler : List Char} (hfiller : Filler filler) {s : Stage} {p : Place} {cs : List Char}
  {m : Machine} (h : readFrom s p cs = .ok m) {before after : List Segment}
include hfiller h

/-- A filler at the front is passed over. -/
theorem exists_readFrom_insert_front (hsplit : segmentsFrom s p cs = after) :
    ∃ m', readFrom s p (filler ++ after.flatMap Segment.text) = .ok m' ∧ m'.bare = m.bare := by
  rw [← hsplit, (flatMap_text_segmentsFrom h).1, readFrom_layout hfiller.layout]
  exact exists_readFrom_bare_eq h rfl

/-- A filler after a word is passed over, and all words are read as they are. -/
theorem exists_readFrom_insert (hsplit : segmentsFrom s p cs = before ++ after)
    (hword : EndInWord before) :
    ∃ m', readFrom s p (before.flatMap Segment.text ++ (filler ++ after.flatMap Segment.text)) =
      .ok m' ∧ m'.bare = m.bare := by
  -- up to the filler the same words are cut off, and the stages and places are the same
  fun_induction readFrom s p cs generalizing before with
  | case1 p m' =>
    obtain ⟨rfl, rfl⟩ : before = [] ∧ after = [] := by simpa [segmentsFrom] using hsplit
    exact exists_readFrom_insert_front hfiller (h ▸ readFrom.eq_1 p m') (by rw [segmentsFrom])
  | case2 => cases h
  | case3 s p c r k hskip _ ih =>
    cases before with
    | nil => exact exists_readFrom_insert_front hfiller ((readFrom_of_skip? hskip).trans h) hsplit
    | cons x before =>
      rw [segmentsFrom_of_skip? hskip, List.cons_append, List.cons.injEq] at hsplit
      obtain ⟨rfl, hsplit⟩ := hsplit
      have hmore : before ≠ [] := fun hnil => hword k.1 (by rw [hnil]; rfl)
      obtain ⟨m', hm', hbare⟩ := ih h hsplit hword.tail
      obtain ⟨htext, hne⟩ := flatMap_text_segmentsFrom h
      rw [hsplit] at htext hne
      rw [List.flatMap_append] at htext
      have hhead := head_insert filler hmore (fun x hx => hne x (List.mem_append_left _ hx))
        (after.flatMap Segment.text)
      rw [htext] at hhead
      have hskip' := skip?_stable (by rw [(skip?_split hskip).1, hskip]) hhead
      refine ⟨m', ?_, hbare⟩
      rw [List.flatMap_cons, List.append_assoc, Segment.text, readFrom_of_skip? hskip']
      exact hm'
  | case4 s p c r hskip t k hlex s' hnext _ ih =>
    cases before with
    | nil =>
      exact exists_readFrom_insert_front hfiller
        ((readFrom_of_lexeme? hskip hlex hnext).trans h) hsplit
    | cons x before =>
      rw [segmentsFrom_of_lexeme? hskip hlex hnext, List.cons_append, List.cons.injEq] at hsplit
      obtain ⟨rfl, hsplit⟩ := hsplit
      obtain ⟨m', hm', hbare⟩ := ih h hsplit hword.tail
      obtain ⟨htext, hne⟩ := flatMap_text_segmentsFrom h
      rw [hsplit] at htext hne
      rw [List.flatMap_append] at htext
      have hbreaks := breaksLike_insert hfiller (fun x hx => hne x (List.mem_append_left _ hx))
        (after.flatMap Segment.text)
      rw [htext] at hbreaks
      have hsame := (lexeme?_split hlex).1
      have hskip' := skip?_none_stable (by rw [hsame, hskip]) (matches_of_lexeme? hlex)
        (head_ne_star_of_readFrom h) hbreaks
      have hlex' := lexeme?_stable s.expected_action (by rw [hsame, hlex]) hbreaks
      refine ⟨m', ?_, hbare⟩
      rw [List.flatMap_cons, List.append_assoc, Segment.text,
        readFrom_of_lexeme? hskip' hlex' hnext]
      exact hm'
  | case5 => cases h
  | case6 => cases h

end

/-- **Reading does not depend on layout**: the segments of a text that is read make it up, and
wherever they are split after a word or at the front, the text with a filler put in there is read
with a tree that differs in spans only. -/
theorem exists_read_insert_bare_eq {text : String} {m : Machine} (h : read text = .ok m) :
    (segments text).flatMap Segment.text = text.toList ∧
      ∀ before after, segments text = before ++ after → EndInWord before →
        ∀ filler, Filler filler →
          ∃ m', read (textWith before filler after) = .ok m' ∧ m'.bare = m.bare := by
  refine ⟨(flatMap_text_segmentsFrom h).1, fun before after hsplit hword filler hfiller => ?_⟩
  rw [read, textWith, String.toList_ofList]
  exact exists_readFrom_insert hfiller h hsplit hword

end Statechart.Grammar
