import Mathlib
import Statechart.Proofs.Grammar.Course
import Statechart.Proofs.Grammar.Layout

/-!
# Where a text is refused

The reader refuses a text at the first place where it cannot go on. What stands before that
place is passed over or has been read word by word, and the error gives the place three times:
as a line and column, as a number of bytes, and by the text that was found there.

* In each way to be refused, something was expected (`Ends.expected_ne_nil`), in increasing order,
  and what was found stands there (`Ends.found`).
* Lines and columns tell the places of a text apart (`spanAfter_take_inj`), so an error belongs
  to one place only.

Main statement: `exists_pointsAt_of_read`.
-/

namespace Statechart

/-! ## Places -/

theorem Place.advance_offset (p : Place) (cs : List Char) :
    (p.advance cs).offset = p.offset + (String.ofList cs).utf8ByteSize := by
  rw [String.utf8ByteSize_ofList]
  induction cs generalizing p with
  | nil => rfl
  | cons c cs ih =>
    have hnext : (p.next c).offset = p.offset + c.utf8Size := by
      unfold next
      split <;> rfl
    rw [advance_cons, ih, hnext, String.utf8Len_cons]
    omega

theorem Span.Before.irrefl (a : Span) : ¬ a.Before a := by
  unfold Span.Before
  omega

theorem spanAfter_take_before {text : List Char} {m n : Nat} (hmn : m < n)
    (hn : n ≤ text.length) : (spanAfter (text.take m)).Before (spanAfter (text.take n)) := by
  have hsplit : text.take n = text.take m ++ (text.take n).drop m := by
    conv_lhs => rw [← List.take_append_drop m (text.take n)]
    rw [List.take_take, min_eq_left hmn.le]
  have hne : (text.take n).drop m ≠ [] := by
    rw [Ne, List.drop_eq_nil_iff, List.length_take, min_eq_left hn]
    omega
  rw [hsplit]
  exact spanAfter_before_append _ hne

/-- Lines and columns tell the places of a text apart. -/
theorem spanAfter_take_inj {text : List Char} {m n : Nat} (hm : m ≤ text.length)
    (hn : n ≤ text.length) (h : spanAfter (text.take m) = spanAfter (text.take n)) : m = n := by
  rcases lt_trichotomy m n with hlt | heq | hgt
  · exact absurd (h ▸ spanAfter_take_before hlt hn) (Span.Before.irrefl _)
  · exact heq
  · exact absurd (h ▸ spanAfter_take_before hgt hm) (Span.Before.irrefl _)

namespace Grammar

/-! ## What was expected -/

theorem mem_insertText {s x : String} {xs : List String} (h : x ∈ insertText s xs) :
    x = s ∨ x ∈ xs := by
  induction xs with
  | nil => exact .inl (List.mem_singleton.1 h)
  | cons y ys ih =>
    unfold insertText at h
    split_ifs at h
    · exact List.mem_cons.1 h
    · exact .inr h
    · rcases List.mem_cons.1 h with rfl | h
      · exact .inr (List.mem_cons_self ..)
      · exact (ih h).imp_right (List.mem_cons_of_mem _)

theorem insertText_ne_nil (s : String) (xs : List String) : insertText s xs ≠ [] := by
  cases xs with
  | nil => exact List.cons_ne_nil _ _
  | cons x xs =>
    unfold insertText
    split_ifs <;> exact List.cons_ne_nil _ _

theorem pairwise_insertText (s : String) {xs : List String} (h : xs.Pairwise (· < ·)) :
    (insertText s xs).Pairwise (· < ·) := by
  induction xs with
  | nil => exact List.pairwise_singleton _ _
  | cons x xs ih =>
    obtain ⟨hx, hxs⟩ := List.pairwise_cons.1 h
    unfold insertText
    split_ifs with hlt heq
    · refine List.pairwise_cons.2 ⟨fun y hy => ?_, h⟩
      rcases List.mem_cons.1 hy with rfl | hy
      · exact hlt
      · exact hlt.trans (hx y hy)
    · exact h
    · refine List.pairwise_cons.2 ⟨fun y hy => ?_, ih hxs⟩
      rcases mem_insertText hy with rfl | hy
      · exact lt_of_le_of_ne (not_lt.1 hlt) (Ne.symm heq)
      · exact hx y hy

theorem describe_ne_nil {ts : List Terminal} (h : ts ≠ []) : describe ts ≠ [] := by
  cases ts with
  | nil => exact absurd rfl h
  | cons t ts => exact insertText_ne_nil _ _

theorem pairwise_describe (ts : List Terminal) : (describe ts).Pairwise (· < ·) := by
  induction ts with
  | nil => exact .nil
  | cons t ts ih => exact pairwise_insertText _ ih

/-- Where an identifier is wanted it is looked for itself, so keywords may be left out. -/
theorem searched_ne_nil {wanted : List Terminal} (h : wanted ≠ []) : searched wanted ≠ [] := by
  unfold searched
  split
  · rename_i hname
    have hmem : Terminal.name ∈ wanted.filter (!·.isKeyword) :=
      List.mem_filter.2 ⟨List.contains_iff_mem.1 hname, rfl⟩
    exact List.ne_nil_of_mem hmem
  · exact h

theorem describeSearched_ne_nil (wanted : List Terminal) : describeSearched wanted ≠ [] := by
  unfold describeSearched
  split
  · exact List.cons_ne_nil _ _
  · rename_i hwanted
    exact describe_ne_nil (searched_ne_nil (by simpa using hwanted))

theorem pairwise_describeSearched (wanted : List Terminal) :
    (describeSearched wanted).Pairwise (· < ·) := by
  unfold describeSearched
  split
  · exact List.pairwise_singleton _ _
  · exact pairwise_describe _

/-! ## The stage in which reading is stuck -/

namespace Stage

theorem expected_eq_nil_iff {s : Stage} : s.expected = [] ↔ ∃ m, s = finished m := by
  cases s
  case finished m => exact ⟨fun _ => ⟨m, rfl⟩, fun _ => rfl⟩
  all_goals
    refine iff_of_false (List.cons_ne_nil _ _) ?_
    rintro ⟨m, h⟩
    cases h

section

variable {t : Token} {stuck : Stage}

theorem eq_of_inBodyNext {d : Draft} (h : inBodyNext d t = .error stuck) : stuck = body d := by
  unfold inBodyNext at h
  split at h
  all_goals cases h
  rfl

theorem eq_of_inHooksNext {d : Draft} {s : OpenState} (h : inHooksNext d s t = .error stuck) :
    stuck = hooks d s := by
  unfold inHooksNext at h
  split at h
  all_goals cases h
  rfl

theorem eq_of_inBranchesNext {d : Draft} {c : ChoiceItem}
    (h : inBranchesNext d c t = .error stuck) : stuck = branches d c := by
  unfold inBranchesNext at h
  split at h
  all_goals cases h
  rfl

theorem expected_ne_nil_of_afterActionsNext {site : ActionSite} {done : List Token}
    (h : afterActionsNext site done t = .error stuck) : stuck.expected ≠ [] := by
  cases site with
  | hook d s kind =>
    obtain rfl := eq_of_inHooksNext h
    exact List.cons_ne_nil _ _
  | transition d item =>
    change (if _ then _ else _) = _ at h
    split at h
    · obtain rfl := eq_of_inBodyNext h
      exact List.cons_ne_nil _ _
    · cases h
      exact List.cons_ne_nil _ _
  | branch d c line =>
    change (if _ then _ else _) = _ at h
    split at h
    · obtain rfl := eq_of_inBranchesNext h
      exact List.cons_ne_nil _ _
    · cases h
      exact List.cons_ne_nil _ _

/-- Where reading is stuck over a word, something was expected. -/
theorem expected_ne_nil_of_next {s : Stage} (h : s.next t = .error stuck)
    (hs : s.expected ≠ []) : stuck.expected ≠ [] := by
  have hbody {d : Draft} (h : inBodyNext d t = .error stuck) : stuck.expected ≠ [] :=
    eq_of_inBodyNext h ▸ List.cons_ne_nil _ _
  have hhooks {d : Draft} {o : OpenState} (h : inHooksNext d o t = .error stuck) :
      stuck.expected ≠ [] := eq_of_inHooksNext h ▸ List.cons_ne_nil _ _
  have hbranches {d : Draft} {c : ChoiceItem} (h : inBranchesNext d c t = .error stuck) :
      stuck.expected ≠ [] := eq_of_inBranchesNext h ▸ List.cons_ne_nil _ _
  unfold next at h
  split at h
  -- the word is read, or it is read as after an action list, or the stage itself is stuck
  all_goals first
    | exact hbody h
    | exact hhooks h
    | exact hbranches h
    | exact expected_ne_nil_of_afterActionsNext h
    | exact Except.error.inj h ▸ hs
    | cases h

end

end Stage

/-! ## Errors -/

namespace Ends

variable {s : Stage} {p : Place} {cs : List Char} {e : SyntaxError}

theorem place_eq (h : Ends s p cs (.error e)) : e.place = p := by
  cases h with
  | ended => rfl
  | stuck => rfl
  | stray =>
    unfold strayText
    split <;> rfl

theorem expected_ne_nil (h : Ends s p cs (.error e)) : e.expected ≠ [] := by
  cases h with
  | ended hs =>
    exact describe_ne_nil fun hnil => (Stage.expected_eq_nil_iff.1 hnil).elim hs
  | stuck _ hword hnext =>
    have hs : s.expected ≠ [] :=
      List.ne_nil_of_mem (List.contains_iff_mem.1 (contains_of_lexeme? hword))
    exact describe_ne_nil (Stage.expected_ne_nil_of_next hnext hs)
  | stray =>
    unfold strayText
    split <;> exact describeSearched_ne_nil _

theorem pairwise_expected (h : Ends s p cs (.error e)) : e.expected.Pairwise (· < ·) := by
  cases h with
  | ended => exact pairwise_describe _
  | stuck => exact pairwise_describe _
  | stray =>
    unfold strayText
    split <;> exact pairwise_describeSearched _

/-- A word that is found is a prefix of the text, and is not empty. -/
theorem found_of_lexeme? {wanted : List Terminal} {t : Terminal} {k : Cut}
    (h : lexeme? wanted cs = some (t, k)) :
    String.ofList k.1 ≠ "" ∧ (String.ofList k.1).toList <+: cs := by
  have hne : k.1 ≠ [] := (matches_of_lexeme? h).ne_nil
  refine ⟨fun hempty => hne ?_, ?_⟩
  · simpa using congrArg String.toList hempty
  · rw [String.toList_ofList]
    exact ⟨k.2, (lexeme?_split h).1⟩

theorem found (h : Ends s p cs (.error e)) :
    e.finding.text = "" ∧ cs = [] ∨ e.finding.text ≠ "" ∧ e.finding.text.toList <+: cs := by
  cases h with
  | ended => exact .inl ⟨rfl, rfl⟩
  | stuck _ hword => exact .inr (found_of_lexeme? hword)
  | @stray c cs =>
    unfold strayText
    split
    · rename_i hword
      exact .inr (found_of_lexeme? hword)
    · have htext : (String.singleton c).toList = [c] := String.toList_singleton c
      refine .inr ⟨fun hempty => ?_, ?_⟩
      · cases htext.symm.trans (congrArg String.toList hempty)
      · exact ⟨cs, congrArg (· ++ cs) htext⟩

end Ends

/-! ## The place of an error -/

/-- An error belongs to a place of a text, given by the number of characters before it. -/
structure SyntaxError.PointsAt (e : SyntaxError) (text : List Char) (o : Nat) : Prop where
  le_length : o ≤ text.length
  /-- What stands before the place is passed over or has been read, and reading stops there. -/
  reached : ∃ segments s, segments.flatMap Segment.text = text.take o ∧
    Consumes .start [] segments s ∧ Ends s e.place (text.drop o) (.error e)
  /-- The line and column count what stands before the place. -/
  span_eq : e.place.toSpan = spanAfter (text.take o)
  /-- The offset is the number of bytes before the place. -/
  offset_eq : e.place.offset = (String.ofList (text.take o)).utf8ByteSize
  /-- Nothing is found at the end only, and else what the text goes on with. -/
  found : e.finding.text = "" ∧ o = text.length ∨
    e.finding.text ≠ "" ∧ e.finding.text.toList <+: text.drop o
  expected_ne_nil : e.expected ≠ []
  expected_increasing : e.expected.Pairwise (· < ·)
  /-- No other place of the text has this line and column. -/
  unique : ∀ o' ≤ text.length, spanAfter (text.take o') = e.place.toSpan → o' = o

/-- **A text is refused at one place**: line, column, bytes and the text that was found all give
the place after what has been read, and something was expected there. -/
theorem exists_pointsAt_of_read {text : String} {e : SyntaxError} (h : read text = .error e) :
    ∃ o, e.PointsAt text.toList o := by
  obtain ⟨segments, s, rest, htext, hconsumes, hends⟩ :=
    exists_consumes_readFrom .start .start text.toList [] rfl
  rw [← read, h] at hends
  obtain ⟨before, hbefore⟩ : ∃ before, segments.flatMap Segment.text = before := ⟨_, rfl⟩
  rw [hbefore] at htext hends
  have htake : text.toList.take before.length = before := by rw [← htext, List.take_left]
  have hdrop : text.toList.drop before.length = rest := by rw [← htext, List.drop_left]
  have hplace : e.place = Place.start.advance before := hends.place_eq
  have hspan : e.place.toSpan = spanAfter before := by
    rw [hplace, Place.advance_start_toSpan]
  have hlength : before.length ≤ text.toList.length := by
    rw [← htext, List.length_append]
    exact Nat.le_add_right _ _
  refine ⟨before.length, hlength, ⟨segments, s, ?_, hconsumes, ?_⟩, ?_, ?_, ?_,
    hends.expected_ne_nil, hends.pairwise_expected, fun o' ho' h' => ?_⟩
  · rw [htake, hbefore]
  · rwa [hdrop, hplace]
  · rw [htake, hspan]
  · rw [htake, hplace, Place.advance_offset]
    exact Nat.zero_add _
  · rw [hdrop]
    refine hends.found.imp_left fun hended => ⟨hended.1, ?_⟩
    rw [← htext, hended.2, List.append_nil]
  · refine spanAfter_take_inj ho' hlength ?_
    rw [h', htake, hspan]

end Grammar

/-! ## A semaphore -/

namespace Semaphore

/-- A semaphore, with a carriage return, a comment over two lines and an umlaut that starts no
word. -/
def text : String :=
  "fsm Semaphore \x7b\r\n/* rot,\ngrün */ [*] --> Rot\nstate Rot : \"größe\" ß"

/-- The error at the umlaut. -/
def error : Grammar.SyntaxError where
  finding := .character 'ß'
  place := ⟨⟨4, 21⟩, 68⟩
  expected := ["'[*]'", "'\x7b'", "'\x7d'", "identifier"]

theorem read_text : Grammar.read text = .error error := by decide +kernel

/-- The text of the semaphore is refused at the umlaut. -/
theorem error_pointsAt : ∃ o, error.PointsAt text.toList o :=
  Grammar.exists_pointsAt_of_read read_text

end Semaphore

end Statechart
