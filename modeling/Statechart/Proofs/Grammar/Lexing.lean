import Mathlib
import Statechart.Proofs.Grammar.Pattern

/-!
# Words that are cut off whole

A word of a terminal is cut off whole wherever the terminal is wanted, if no terminal that goes
before it fits as well, and if what follows does not make an identifier or a number longer. The
lemmas say so one class of words after the other.

* Keywords and identifiers are told apart by what is wanted (`lexeme?_keyword`, `lexeme?_name`).
* The default mark goes before a condition (`lexeme?_elseMark`, `lexeme?_guard`).
* Only a slash can begin a comment together with what follows it (`skip?_of_matches`).

In particular a word before a space or a line feed is cut off whole: `Lexes wanted t w`.
-/

namespace Statechart.Grammar

/-! ## Cutting off a whole word -/

theorem ne_of_class {p : Char → Bool} {c d : Char} (hc : p c) (hd : p d = false) : c ≠ d := by
  rintro rfl
  rw [hc] at hd
  cases hd

/-- A character of a class that holds neither white space nor what comments begin and end with. -/
theorem front_of_class {p : Char → Bool} {c : Char} (hc : p c)
    (hp : [' ', '\t', '\x0c', '\r', '\n', '#', '*', '/'].all (!p ·) = true) :
    isWhite c = false ∧ c ≠ '#' ∧ c ≠ '*' ∧ c ≠ '/' := by
  have hne : ∀ d ∈ [' ', '\t', '\x0c', '\r', '\n', '#', '*', '/'], c ≠ d := fun d hd =>
    ne_of_class hc (by simpa using List.all_eq_true.1 hp d hd)
  simp only [List.forall_mem_cons] at hne
  obtain ⟨hspace, htab, hfeed, hreturn, hline, hhash, hstar, hslash, -⟩ := hne
  exact ⟨by simp [isWhite, *], hhash, hstar, hslash⟩

theorem isNameStart_of_isDigit {c : Char} (hc : isDigit c) : isNameStart c = false := by
  have hscore : c ≠ '_' := ne_of_class hc rfl
  simp only [isDigit, isNameStart, Bool.and_eq_true, decide_eq_true_eq, Bool.or_eq_false_iff,
    Bool.and_eq_false_iff, decide_eq_false_iff_not, beq_eq_false_iff_ne, Char.le_def,
    UInt32.le_iff_toNat_le] at hc ⊢
  have hnine : c.val.toNat ≤ 57 := hc.2
  have hupper : ('A' : Char).val.toNat = 65 := rfl
  have hlower : ('a' : Char).val.toNat = 97 := rfl
  exact ⟨⟨.inl (by omega), .inl (by omega)⟩, hscore⟩

theorem skip?_eq_none {c : Char} {cs : List Char} (hwhite : isWhite c = false) (hhash : c ≠ '#')
    (hslash : c ≠ '/') : skip? (c :: cs) = none := by
  simp [skip?, hwhite, hhash, hslash]

theorem skip?_of_isWhite {c : Char} (hc : isWhite c = true) (cs : List Char) :
    skip? (c :: cs) = some ((cutWhile isWhite cs).push c) := by
  simp [skip?, hc]

/-- No word begins with white space, a hash or a star, and none but a slash with a slash. -/
theorem Terminal.Matches.exists_front {t : Terminal} {w : List Char} (h : t.Matches w) :
    ∃ c cs, w = c :: cs ∧ isWhite c = false ∧ c ≠ '#' ∧ c ≠ '*' ∧
      (c = '/' → t = .slash ∧ cs = []) := by
  have hclass {p : Char → Bool} {c : Char} (hc : p c) (cs : List Char)
      (hp : [' ', '\t', '\x0c', '\r', '\n', '#', '*', '/'].all (!p ·) = true) :
      ∃ d ds, c :: cs = d :: ds ∧ isWhite d = false ∧ d ≠ '#' ∧ d ≠ '*' ∧
        (d = '/' → t = .slash ∧ ds = []) :=
    have hfront := front_of_class hc hp
    ⟨c, cs, rfl, hfront.1, hfront.2.1, hfront.2.2.1,
      fun hslash => absurd hslash hfront.2.2.2⟩
  cases h with
  | @spelled t s hs =>
    have hall : ∀ t ∈ Terminal.all, ∀ s ∈ t.spelling?, s.toList.head?.any fun c =>
        !isWhite c && c != '#' && c != '*' &&
          (c != '/' || t == .slash && s.toList.tail.isEmpty) := by decide
    obtain ⟨c, hc, hfront⟩ := (Option.any_eq_true _ _).1 (hall t (Terminal.mem_all t) s hs)
    refine ⟨c, s.toList.tail, (List.cons_head?_tail hc).symm, ?_⟩
    simpa [← imp_iff_not_or, and_assoc] using hfront
  | name hc _ => exact hclass hc _ rfl
  | int hc _ => exact hclass hc _ rfl
  | action hc _ _ _ =>
    simp only [List.cons_append]
    exact hclass hc _ rfl
  | string => exact hclass (p := (· == '\x22')) rfl _ rfl
  | guard => exact hclass (p := (· == '[')) rfl _ rfl
  | elseMark => exact hclass (p := (· == '[')) rfl _ rfl

/-- A word is not passed over. -/
theorem skip?_of_matches {t : Terminal} {w cs : List Char} (h : t.Matches w)
    (hslash : t = .slash → ∀ c ∈ cs.head?, c ≠ '/' ∧ c ≠ '*') : skip? (w ++ cs) = none := by
  obtain ⟨c, ds, rfl, hwhite, hhash, -, hfront⟩ := h.exists_front
  by_cases hc : c = '/'
  · obtain ⟨ht, rfl⟩ := hfront hc
    subst hc
    cases cs with
    | nil => rfl
    | cons d cs =>
      obtain ⟨hline, hblock⟩ := hslash ht d (by simp)
      simp [skip?, isWhite, hline, hblock]
  · exact skip?_eq_none hwhite hhash hc

theorem cutName?_of_matches {w cs : List Char} (h : Terminal.Matches .name w)
    (hcs : ∀ c ∈ cs.head?, isNameChar c = false) : cutName? (w ++ cs) = some (w, cs) := by
  cases h with
  | @name a w ha hw =>
    have hcut : cutWhile isNameChar (w ++ cs) = (w, cs) := cutWhile_eq hw hcs
    simp only [List.cons_append, cutName?, ha, if_true, hcut, Cut.push]
  | spelled hs => cases hs

theorem cutInt?_of_matches {w cs : List Char} (h : Terminal.Matches .int w)
    (hcs : ∀ c ∈ cs.head?, isDigit c = false) : cutInt? (w ++ cs) = some (w, cs) := by
  cases h with
  | @int a w ha hw =>
    have hcut : cutWhile isDigit (w ++ cs) = (w, cs) := cutWhile_eq hw hcs
    simp only [List.cons_append, cutInt?, ha, if_true, hcut, Cut.push]
  | spelled hs => cases hs

theorem cutString?_of_matches {w : List Char} (h : Terminal.Matches .string w) (cs : List Char) :
    cutString? (w ++ cs) = some (w, cs) := by
  cases h with
  | @string body hbody =>
    have htail : cutStringTail? (body ++ '\x22' :: cs) = some (body ++ ['\x22'], cs) :=
      cutStringTail?_of_escaped hbody cs
    simp only [List.cons_append, List.append_assoc, List.nil_append, cutString?, htail,
      Option.map_some, Cut.push]
  | spelled hs => cases hs

theorem cutAction?_of_matches {w : List Char} (h : Terminal.Matches .action w) (cs : List Char) :
    cutAction? (w ++ cs) = some (w, cs) := by
  cases h with
  | @action c word gap args hc hword hgap hargs =>
    have hbracket : cutBracketTail? '(' ')' false (args ++ ')' :: cs) = some (args ++ [')'], cs) :=
      cutBracketTail?_of_nested hargs (by decide) (by decide) (by decide) cs
    have hgapcut : cutWhile isGap (gap ++ '(' :: (args ++ ')' :: cs)) =
        (gap, '(' :: (args ++ ')' :: cs)) := cutWhile_eq hgap (by simp [isGap])
    have hwordcut : cutWhile isActionChar (word ++ (gap ++ '(' :: (args ++ ')' :: cs))) =
        (word, gap ++ '(' :: (args ++ ')' :: cs)) := by
      refine cutWhile_eq hword fun d hd => ?_
      cases gap with
      | nil =>
        obtain rfl : '(' = d := by simpa using hd
        rfl
      | cons g gap =>
        obtain rfl : g = d := by simpa using hd
        have hg : isGap g := hgap g (by simp)
        simp only [isGap, Bool.or_eq_true, beq_iff_eq] at hg
        rcases hg with rfl | rfl
        · rfl
        · rfl
    simp only [List.cons_append, List.append_assoc, List.nil_append, cutAction?, hc, if_true,
      hwordcut, hgapcut, cutArguments?, hbracket, Option.map_some, Cut.push, Cut.prepend]
  | spelled hs => cases hs

/-! ## Conditions and marks in square brackets -/

theorem Unbracketed.nested {o c : Char} {cs : List Char} (h : Unbracketed o c cs) :
    Nested o c cs := by
  induction cs with
  | nil => exact .nil
  | cons d cs ih =>
    obtain ⟨hopening, hclosing, hline⟩ := h d (by simp)
    exact .char hopening hclosing hline (ih fun x hx => h x (List.mem_cons_of_mem _ hx))

theorem Gapped.nested {text cs : List Char} (h : Gapped text cs)
    (htext : Unbracketed '[' ']' text) : Nested '[' ']' cs := by
  obtain ⟨gap, gap', hgap, hgap', rfl⟩ := h
  have hplain (c : Char) (hc : isGap c) : c ≠ '[' ∧ c ≠ ']' ∧ c ≠ '\n' := by
    simp only [isGap, Bool.or_eq_true, beq_iff_eq] at hc
    rcases hc with rfl | rfl
    · decide
    · decide
  refine Unbracketed.nested fun c hc => ?_
  rcases List.mem_append.1 hc with hc | hc
  · rcases List.mem_append.1 hc with hc | hc
    · exact hplain c (hgap c hc)
    · exact htext c hc
  · exact hplain c (hgap' c hc)

/-- A bracket that is cut off as a marked one is one as a whole. -/
theorem gapped_of_isSome_cutMarked? {text body cs : List Char} (hbody : Nested '[' ']' body)
    (htext : Unbracketed '[' ']' text)
    (h : (cutMarked? text ('[' :: body ++ ']' :: cs)).isSome) : Gapped text body := by
  obtain ⟨k, hk⟩ := Option.isSome_iff_exists.1 h
  obtain ⟨inside, hinside, hfront⟩ := gapped_of_cutMarked? hk
  have hsplit : inside ++ ']' :: k.2 = body ++ ']' :: cs := by
    have := (cutMarked?_splits hk).1
    rw [hfront] at this
    simpa using this
  -- Both are closed at the same bracket.
  have hcut := cutBracketTail?_of_nested hbody (by decide) (by decide) (by decide) cs
  have hcut' :=
    cutBracketTail?_of_nested (hinside.nested htext) (by decide) (by decide) (by decide) k.2
  rw [hsplit, hcut] at hcut'
  have hsame : body = inside := by
    have := congrArg Prod.fst (Option.some.inj hcut')
    simpa using this
  exact hsame ▸ hinside

theorem cutGuard?_of_matches {w : List Char} (h : Terminal.Matches .guard w) (cs : List Char) :
    cutGuard? (w ++ cs) = some (w, cs) := by
  cases h with
  | @guard body hbody hne hstar =>
    have htail : cutBracketTail? '[' ']' false (body ++ ']' :: cs) = some (body ++ [']'], cs) :=
      cutBracketTail?_of_nested hbody (by decide) (by decide) (by decide) cs
    have hhead : (body ++ ']' :: cs).head? ≠ some ']' := by
      cases hbody with
      | nil => exact absurd rfl hne
      | char _ hclosing => simpa using hclosing
      | group => simp
    have hmarked : (cutMarked? ['*'] ('[' :: (body ++ ']' :: cs))).isSome = false := by
      rw [← Bool.not_eq_true]
      exact fun hsome => hstar (gapped_of_isSome_cutMarked? hbody (by simp [Unbracketed]) hsome)
    simp only [List.cons_append, List.append_assoc, List.nil_append, cutGuard?, hmarked, htail,
      Bool.or_false, beq_iff_eq, hhead, if_false, Option.map_some, Cut.push]
  | spelled hs => cases hs

theorem cutMarked?_eq_none (text : List Char) {c : Char} (hc : c ≠ '[') (cs : List Char) :
    cutMarked? text (c :: cs) = none := by
  simp [cutMarked?, hc]

theorem cutMarked?_of_matches {w : List Char} (h : Terminal.Matches .elseMark w) (cs : List Char) :
    cutMarked? "else".toList (w ++ cs) = some (w, cs) := by
  cases h with
  | @elseMark body hbody =>
    have helse : "else".toList = ['e', 'l', 's', 'e'] := by decide
    rw [helse] at hbody ⊢
    have := cutMarked?_of_gapped hbody (by decide) cs
    simpa only [List.cons_append, List.append_assoc, List.nil_append] using this
  | spelled hs => cases hs

theorem cutMarked?_else_eq_none {w : List Char} (h : Terminal.Matches .guard w)
    (helse : ¬ Terminal.Matches .elseMark w) (cs : List Char) :
    cutMarked? "else".toList (w ++ cs) = none := by
  cases h with
  | @guard body hbody _ _ =>
    rw [← Option.not_isSome_iff_eq_none]
    intro hsome
    rw [List.append_assoc] at hsome
    have hgapped : Gapped "else".toList body :=
      gapped_of_isSome_cutMarked? hbody (by simp [Unbracketed]) hsome
    exact helse (.elseMark hgapped)
  | spelled hs => cases hs

/-! ## Wanted words -/

section

variable {wanted : List Terminal} {t : Terminal} {o : Option Cut}

theorem cutIf_of_wanted (h : wanted.contains t = true) : cutIf wanted t o = o.map (t, ·) := by
  rw [cutIf, if_pos h]

theorem cutIf_of_not_wanted (h : wanted.contains t = false) : cutIf wanted t o = none := by
  rw [cutIf, if_neg (by rw [h]; decide)]

theorem cutIf_none : cutIf wanted t none = none := by
  unfold cutIf
  split
  · rfl
  · rfl

end

/-! ## Words with a pattern -/

section

variable {wanted : List Terminal} {w : List Char}

/-- An action goes before all words but the default mark, which begins with a bracket. -/
theorem lexeme?_action (h : Terminal.Matches .action w)
    (hwanted : wanted.contains .action = true) (cs : List Char) :
    lexeme? wanted (w ++ cs) = some (.action, (w, cs)) := by
  have hcut := cutAction?_of_matches h cs
  cases h with
  | action hc =>
    have hmark := cutMarked?_eq_none "else".toList (ne_of_class hc (d := '[') rfl)
    simp only [List.cons_append] at hcut ⊢
    simp only [lexeme?, hmark, cutIf_none, hcut, cutIf_of_wanted hwanted]
    rfl
  | spelled hs => cases hs

theorem lexeme?_string (h : Terminal.Matches .string w)
    (hwanted : wanted.contains .string = true) (cs : List Char) :
    lexeme? wanted (w ++ cs) = some (.string, (w, cs)) := by
  have hcut := cutString?_of_matches h cs
  cases h with
  | @string body _ =>
    have hmark : cutMarked? "else".toList ('\x22' :: body ++ ['\x22'] ++ cs) = none := rfl
    have haction : cutAction? ('\x22' :: body ++ ['\x22'] ++ cs) = none := rfl
    have hname : cutName? ('\x22' :: body ++ ['\x22'] ++ cs) = none := rfl
    simp only [lexeme?, hmark, haction, hname, cutIf_none, hcut, cutIf_of_wanted hwanted]
    rfl
  | spelled hs => cases hs

theorem lexeme?_of_cutInt? {c : Char} {cs : List Char} {k : Cut} (hc : isDigit c)
    (hcut : cutInt? (c :: cs) = some k) (hwanted : wanted.contains .int = true) :
    lexeme? wanted (c :: cs) = some (.int, k) := by
  have hstart : isNameStart c = false := isNameStart_of_isDigit hc
  have hmark := cutMarked?_eq_none "else".toList (ne_of_class hc (d := '[') rfl) cs
  have haction : cutAction? (c :: cs) = none := by simp [cutAction?, hstart]
  have hname : cutName? (c :: cs) = none := by simp [cutName?, hstart]
  have hstring : cutString? (c :: cs) = none := by
    simp [cutString?, ne_of_class hc (show isDigit '\x22' = false from rfl)]
  simp only [lexeme?, hmark, haction, hname, hstring, cutIf_none, hcut, cutIf_of_wanted hwanted]
  rfl

theorem lexeme?_int {cs : List Char} (h : Terminal.Matches .int w)
    (hwanted : wanted.contains .int = true) (hcs : ∀ c ∈ cs.head?, isDigit c = false) :
    lexeme? wanted (w ++ cs) = some (.int, (w, cs)) := by
  have hcut := cutInt?_of_matches h hcs
  cases h with
  | @int d ds hd _ =>
    rw [List.cons_append] at hcut ⊢
    exact lexeme?_of_cutInt? hd hcut hwanted
  | spelled hs => cases hs

/-- The default mark goes before all others. -/
theorem lexeme?_elseMark (h : Terminal.Matches .elseMark w)
    (hwanted : wanted.contains .elseMark = true) (cs : List Char) :
    lexeme? wanted (w ++ cs) = some (.elseMark, (w, cs)) := by
  simp only [lexeme?, cutMarked?_of_matches h, cutIf_of_wanted hwanted]
  rfl

/-- A condition, where the default mark is not wanted or the condition is not the default mark. -/
theorem lexeme?_guard (h : Terminal.Matches .guard w)
    (hwanted : wanted.contains .guard = true)
    (helse : wanted.contains .elseMark = false ∨ ¬ Terminal.Matches .elseMark w)
    (cs : List Char) : lexeme? wanted (w ++ cs) = some (.guard, (w, cs)) := by
  have hguard := cutGuard?_of_matches h cs
  have hmark : cutIf wanted .elseMark (cutMarked? "else".toList (w ++ cs)) = none := by
    rcases helse with helse | helse
    · exact cutIf_of_not_wanted helse
    · rw [cutMarked?_else_eq_none h helse, cutIf_none]
  cases h with
  | @guard body hbody hne hstar =>
    simp only [lexeme?, hmark, hguard, cutIf_of_wanted hwanted]
    have haction : cutAction? ('[' :: body ++ [']'] ++ cs) = none := rfl
    have hname : cutName? ('[' :: body ++ [']'] ++ cs) = none := rfl
    have hstring : cutString? ('[' :: body ++ [']'] ++ cs) = none := rfl
    have hint : cutInt? ('[' :: body ++ [']'] ++ cs) = none := rfl
    simp only [haction, hname, hstring, hint, cutIf_none]
    rfl
  | spelled hs => cases hs

end

/-! ## Identifiers and keywords -/

theorem lexeme?_of_cutName? {wanted : List Terminal} {c : Char} {cs : List Char} {k : Cut}
    (hc : isNameStart c) (hcut : cutName? (c :: cs) = some k)
    (hname : wanted.contains .name = true) (haction : wanted.contains .action = false) :
    lexeme? wanted (c :: cs) = some (wordTerminal wanted k.1, k) := by
  have hmark := cutMarked?_eq_none "else".toList (ne_of_class hc (d := '[') rfl)
  simp only [lexeme?, hmark, cutIf_none, cutIf_of_not_wanted haction, hcut, cutIf_of_wanted hname]
  rfl

/-- A word that looks like an identifier, where an identifier is wanted. -/
theorem lexeme?_name {wanted : List Terminal} {w cs : List Char} (h : Terminal.Matches .name w)
    (hname : wanted.contains .name = true) (haction : wanted.contains .action = false)
    (hcs : ∀ c ∈ cs.head?, isNameChar c = false) :
    lexeme? wanted (w ++ cs) = some (wordTerminal wanted w, (w, cs)) := by
  have hcut := cutName?_of_matches h hcs
  cases h with
  | @name d ds hd _ =>
    rw [List.cons_append] at hcut ⊢
    exact lexeme?_of_cutName? hd hcut hname haction
  | spelled hs => cases hs

/-- A keyword looks like an identifier. -/
theorem matches_name_of_keyword {p : Terminal × String} (hp : p ∈ Terminal.keywords) :
    Terminal.Matches .name p.2.toList := by
  have hall : ∀ p ∈ Terminal.keywords,
      p.2.toList.head?.any isNameStart ∧ p.2.toList.tail.all isNameChar := by decide
  obtain ⟨hhead, htail⟩ := hall p hp
  cases hw : p.2.toList with
  | nil =>
    rw [hw] at hhead
    cases hhead
  | cons c cs =>
    rw [hw] at hhead htail
    exact .name hhead (List.all_eq_true.1 htail)

theorem wordTerminal_keyword {wanted : List Terminal} {p : Terminal × String}
    (hp : p ∈ Terminal.keywords) (hwanted : wanted.contains p.1 = true) :
    wordTerminal wanted p.2.toList = p.1 := by
  have hunique : ∀ p ∈ Terminal.keywords, ∀ q ∈ Terminal.keywords,
      q.2.toList = p.2.toList → q.1 = p.1 := by decide
  unfold wordTerminal
  split
  · rename_i q hq
    have hword := List.find?_some hq
    simp only [Bool.and_eq_true, beq_iff_eq] at hword
    exact hunique p hp q (List.mem_of_find?_eq_some hq) hword.2
  · rename_i hnone
    refine (List.find?_eq_none.1 hnone p hp ?_).elim
    rw [hwanted, Bool.true_and, beq_self_eq_true]

theorem wordTerminal_of_not_keyword {w : List Char} (wanted : List Terminal)
    (h : ∀ p ∈ Terminal.keywords, p.2.toList ≠ w) : wordTerminal wanted w = .name := by
  have hnone :
      Terminal.keywords.find? (fun k => wanted.contains k.1 && k.2.toList == w) = none := by
    rw [List.find?_eq_none]
    intro p hp
    simp [h p hp]
  rw [wordTerminal, hnone]

/-! ## Keywords on their own, and marks -/

/-- No spelling begins another one. -/
theorem eq_of_spelling_front : ∀ p ∈ Terminal.marks ++ Terminal.keywords,
    ∀ q ∈ Terminal.marks ++ Terminal.keywords, p.2.toList <+: q.2.toList → p = q := by
  decide +kernel

theorem cutText?_spelling {p q : Terminal × String} (hp : p ∈ Terminal.marks ++ Terminal.keywords)
    (hq : q ∈ Terminal.marks ++ Terminal.keywords) (hne : p ≠ q) (cs : List Char) :
    cutText? p.2.toList (q.2.toList ++ cs) = none := by
  rw [← Option.not_isSome_iff_eq_none]
  intro hsome
  obtain ⟨k, hk⟩ := Option.isSome_iff_exists.1 hsome
  obtain ⟨hfront, hsplit⟩ := cutText?_append hk
  have hprefix : p.2.toList <+: q.2.toList ++ cs := ⟨k.2, by rw [← hfront, hsplit]⟩
  rcases List.prefix_or_prefix_of_prefix hprefix (List.prefix_append _ _) with h | h
  · exact hne (eq_of_spelling_front p hp q hq h)
  · exact hne (eq_of_spelling_front q hq p hp h).symm

theorem spelled?_of_mem {ts : List (Terminal × String)} {p : Terminal × String}
    (hts : ∀ q ∈ ts, q ∈ Terminal.marks ++ Terminal.keywords) (hp : p ∈ ts) (cs : List Char) :
    spelled? (p.2.toList ++ cs) ts = some (p.1, (p.2.toList, cs)) := by
  induction ts with
  | nil => cases hp
  | cons q ts ih =>
    rw [spelled?]
    rcases eq_or_ne q p with rfl | hne
    · rw [cutText?_self]
    · have hother : cutText? q.2.toList (p.2.toList ++ cs) = none :=
        cutText?_spelling (hts q (by simp)) (hts p hp) hne cs
      rw [hother]
      exact ih (fun r hr => hts r (List.mem_cons_of_mem _ hr)) (List.mem_of_ne_of_mem hne.symm hp)

/-- What is looked for by its spelling. -/
def spelledWanted (wanted : List Terminal) : List (Terminal × String) :=
  (Terminal.marks ++ if wanted.contains .name then [] else Terminal.keywords).filter
    fun k => wanted.contains k.1

theorem mem_of_mem_spelledWanted {wanted : List Terminal} {p : Terminal × String}
    (hp : p ∈ spelledWanted wanted) : p ∈ Terminal.marks ++ Terminal.keywords := by
  rcases List.mem_append.1 (List.mem_filter.1 hp).1 with hp | hp
  · exact List.mem_append_left _ hp
  · split at hp
    · cases hp
    · exact List.mem_append_right _ hp

/-- No class of words has words that begin with a mark. -/
theorem cuts_mark_eq_none {p : Terminal × String} (hp : p ∈ Terminal.marks) (cs : List Char) :
    cutMarked? "else".toList (p.2.toList ++ cs) = none ∧ cutAction? (p.2.toList ++ cs) = none ∧
      cutName? (p.2.toList ++ cs) = none ∧ cutString? (p.2.toList ++ cs) = none ∧
      cutInt? (p.2.toList ++ cs) = none ∧ cutGuard? (p.2.toList ++ cs) = none := by
  simp only [Terminal.marks, List.mem_cons, List.not_mem_nil, or_false] at hp
  rcases hp with rfl | rfl | rfl | rfl | rfl | rfl | rfl | rfl | rfl | rfl <;>
    exact ⟨rfl, rfl, rfl, rfl, rfl, rfl⟩

theorem lexeme?_mark {wanted : List Terminal} {p : Terminal × String} (hp : p ∈ Terminal.marks)
    (hwanted : wanted.contains p.1 = true) (cs : List Char) :
    lexeme? wanted (p.2.toList ++ cs) = some (p.1, (p.2.toList, cs)) := by
  obtain ⟨hmark, haction, hname, hstring, hint, hguard⟩ := cuts_mark_eq_none hp cs
  have hmem : p ∈ spelledWanted wanted :=
    List.mem_filter.2 ⟨List.mem_append_left _ hp, hwanted⟩
  have hspelled := spelled?_of_mem (fun _ => mem_of_mem_spelledWanted) hmem cs
  simp only [lexeme?, hmark, haction, hname, hstring, hint, hguard, cutIf_none]
  exact hspelled

/-- No class of words but identifiers and actions has words that begin with a keyword. -/
theorem cuts_keyword_eq_none {p : Terminal × String} (hp : p ∈ Terminal.keywords)
    (cs : List Char) :
    cutMarked? "else".toList (p.2.toList ++ cs) = none ∧ cutString? (p.2.toList ++ cs) = none ∧
      cutInt? (p.2.toList ++ cs) = none ∧ cutGuard? (p.2.toList ++ cs) = none := by
  simp only [Terminal.keywords, List.mem_cons, List.not_mem_nil, or_false] at hp
  rcases hp with rfl | rfl | rfl | rfl | rfl | rfl | rfl <;> exact ⟨rfl, rfl, rfl, rfl⟩

/-- A wanted keyword where no identifier is wanted. -/
theorem lexeme?_keyword {wanted : List Terminal} {p : Terminal × String}
    (hp : p ∈ Terminal.keywords) (hwanted : wanted.contains p.1 = true)
    (hname : wanted.contains .name = false) (haction : wanted.contains .action = false)
    (cs : List Char) : lexeme? wanted (p.2.toList ++ cs) = some (p.1, (p.2.toList, cs)) := by
  obtain ⟨hmark, hstring, hint, hguard⟩ := cuts_keyword_eq_none hp cs
  have hmem : p ∈ spelledWanted wanted := by
    refine List.mem_filter.2 ⟨List.mem_append_right _ ?_, hwanted⟩
    rw [hname]
    exact hp
  have hspelled := spelled?_of_mem (fun _ => mem_of_mem_spelledWanted) hmem cs
  simp only [lexeme?, hmark, hstring, hint, hguard, cutIf_none, cutIf_of_not_wanted haction,
    cutIf_of_not_wanted hname]
  exact hspelled

/-! ## Words before a space or a line feed -/

/-- A space or a line feed, which a writer puts after each word. -/
def isBreak (c : Char) : Prop := c = ' ' ∨ c = '\n'

/-- Where these terminals are wanted, the word is cut off whole as one of the terminal. -/
def Lexes (wanted : List Terminal) (t : Terminal) (w : List Char) : Prop :=
  ∀ c cs, isBreak c → skip? (w ++ c :: cs) = none ∧
    lexeme? wanted (w ++ c :: cs) = some (t, (w, c :: cs))

namespace isBreak

variable {c : Char}

theorem isWhite (h : isBreak c) : Grammar.isWhite c = true := by
  rcases h with rfl | rfl
  · rfl
  · rfl

/-- A break ends an identifier. -/
theorem ends_name (h : isBreak c) (cs : List Char) :
    ∀ d ∈ (c :: cs).head?, isNameChar d = false := by
  rcases h with rfl | rfl
  · simp [isNameChar, isNameStart, isDigit]
  · simp [isNameChar, isNameStart, isDigit]

/-- A break ends a number. -/
theorem ends_int (h : isBreak c) (cs : List Char) :
    ∀ d ∈ (c :: cs).head?, isDigit d = false := by
  rcases h with rfl | rfl
  · simp [isDigit]
  · simp [isDigit]

/-- No comment goes on with a break. -/
theorem skip?_eq_none (h : isBreak c) {t : Terminal} {w : List Char} (hw : t.Matches w)
    (cs : List Char) : skip? (w ++ c :: cs) = none := by
  refine skip?_of_matches hw fun _ d hd => ?_
  obtain rfl : c = d := by simpa using hd
  rcases h with rfl | rfl
  · decide
  · decide

end isBreak

section

variable {wanted : List Terminal} {w : List Char}

theorem lexes_action (h : Terminal.Matches .action w) : Lexes [.action] .action w :=
  fun _ cs hc => ⟨hc.skip?_eq_none h cs, lexeme?_action h rfl _⟩

theorem lexes_string (h : Terminal.Matches .string w) : Lexes [.string] .string w :=
  fun _ cs hc => ⟨hc.skip?_eq_none h cs, lexeme?_string h rfl _⟩

theorem lexes_int (h : Terminal.Matches .int w) : Lexes [.int] .int w :=
  fun _ cs hc => ⟨hc.skip?_eq_none h cs, lexeme?_int h rfl (hc.ends_int cs)⟩

theorem lexes_elseMark (h : Terminal.Matches .elseMark w)
    (hwanted : wanted.contains .elseMark = true) : Lexes wanted .elseMark w :=
  fun _ cs hc => ⟨hc.skip?_eq_none h cs, lexeme?_elseMark h hwanted _⟩

theorem lexes_guard (h : Terminal.Matches .guard w) (hwanted : wanted.contains .guard = true)
    (helse : wanted.contains .elseMark = false ∨ ¬ Terminal.Matches .elseMark w) :
    Lexes wanted .guard w :=
  fun _ cs hc => ⟨hc.skip?_eq_none h cs, lexeme?_guard h hwanted helse _⟩

/-- An identifier that is no wanted keyword. -/
theorem lexes_name (h : Terminal.Matches .name w) (hname : wanted.contains .name = true)
    (haction : wanted.contains .action = false) (hword : wordTerminal wanted w = .name) :
    Lexes wanted .name w := fun _ cs hc =>
  ⟨hc.skip?_eq_none h cs, hword ▸ lexeme?_name h hname haction (hc.ends_name cs)⟩

theorem lexes_mark (p : Terminal × String) (hp : p ∈ Terminal.marks)
    (hwanted : wanted.contains p.1 = true) : Lexes wanted p.1 p.2.toList := fun _ cs hc =>
  ⟨hc.skip?_eq_none (.spelled (spelling?_of_mem p (List.mem_append_left _ hp))) cs,
    lexeme?_mark hp hwanted _⟩

/-- A wanted keyword, whether or not an identifier is wanted too. -/
theorem lexes_keyword (p : Terminal × String) (hp : p ∈ Terminal.keywords)
    (hwanted : wanted.contains p.1 = true) (haction : wanted.contains .action = false) :
    Lexes wanted p.1 p.2.toList := by
  intro c cs hc
  have hmatches := matches_name_of_keyword hp
  refine ⟨hc.skip?_eq_none hmatches cs, ?_⟩
  cases hname : wanted.contains .name with
  | true =>
    have hlex := lexeme?_name hmatches hname haction (hc.ends_name cs)
    rwa [wordTerminal_keyword hp hwanted] at hlex
  | false => exact lexeme?_keyword hp hwanted hname haction _

end

end Statechart.Grammar
