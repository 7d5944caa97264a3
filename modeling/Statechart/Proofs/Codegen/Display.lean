import Mathlib
import Statechart.Proofs.Codegen.Generation
import Statechart.Proofs.Text.Characters
import Statechart.Proofs.Text.Written

/-!
# Reading displays

A module writes its data as displays: quoted texts, words and numbers, tuples in round brackets and
dictionaries in braces. A display is read character by character (`Display.step`), with the values
that are still open on a stack; what is no display is not read. Brackets around a single value mean
the value, unless a comma follows it.

A text shows a value if it is read as this value wherever a value is awaited, as long as no letter
or digit follows it (`Display.Shown`).

Main statements: `shown_quote`, a quoted text shows the text, and `shown_tuple`, `shown_rows` and
`shown_dict`, which put displays together.
-/

namespace Statechart.Codegen

open Text (quote quoteChar quoteFor)

/-- A value that a display shows. -/
inductive Display
  /-- A name or a number. -/
  | word (letters : String)
  | text (s : String)
  | tuple (items : List Display)
  | dict (entries : List (Display × Display))

namespace Display

/-! ## Reading -/

/-- A value that has been opened but not closed. -/
inductive Frame
  | tuple (items : List Display)
  | dict (entries : List (Display × Display))
  /-- A dictionary with a key whose value is awaited. -/
  | entry (entries : List (Display × Display)) (key : Display)

/-- What the last character stands within. -/
inductive Within
  | nothing
  | word (letters : List Char)
  | text (quote : Char) (inside : List Char)
  /-- A quoted text, right after a backslash. -/
  | escape (quote : Char) (inside : List Char)

/-- What has been read: the last value, unless another one is awaited, and the open values, the
innermost first. -/
structure Reading where
  within : Within
  value : Option Display
  opened : List Frame

/-- The reading comes to a place where a value is awaited. -/
def awaiting (opened : List Frame) : Reading := ⟨.nothing, none, opened⟩

/-- The reading comes to the end of a value. -/
def standing (value : Display) (opened : List Frame) : Reading := ⟨.nothing, some value, opened⟩

/-- Whether the character can stand in a name or a number. -/
def isWordChar (c : Char) : Bool := c.isAlphanum || c == '_' || c == '-'

/-- Reads a bracket, a comma or a colon. -/
def mark (c : Char) : Option Display → List Frame → Option Reading
  | none, opened =>
    match c, opened with
    | '(', opened => some (awaiting (.tuple [] :: opened))
    | '\x7b', opened => some (awaiting (.dict [] :: opened))
    | ')', .tuple items :: opened => some (standing (.tuple items) opened)
    | '\x7d', .dict entries :: opened => some (standing (.dict entries) opened)
    | _, _ => none
  | some v, opened =>
    match c, opened with
    | ',', .tuple items :: opened => some (awaiting (.tuple (items ++ [v]) :: opened))
    | ',', .entry entries key :: opened =>
      some (awaiting (.dict (entries ++ [(key, v)]) :: opened))
    | ':', .dict entries :: opened => some (awaiting (.entry entries v :: opened))
    | ')', .tuple [] :: opened => some (standing v opened)
    | ')', .tuple items :: opened => some (standing (.tuple (items ++ [v])) opened)
    | '\x7d', .entry entries key :: opened =>
      some (standing (.dict (entries ++ [(key, v)])) opened)
    | _, _ => none

/-- Reads a character outside words and texts. A line may end within brackets and after a
value. -/
def outside (value : Option Display) (opened : List Frame) (c : Char) : Option Reading :=
  if c = ' ' then some ⟨.nothing, value, opened⟩
  else if c = '\n' then
    if value.isNone && opened.isEmpty then none else some ⟨.nothing, value, opened⟩
  else if c = Text.apostrophe ∨ c = Text.doubleQuote then
    if value.isNone then some ⟨.text c [], none, opened⟩ else none
  else if isWordChar c then
    if value.isNone then some ⟨.word [c], none, opened⟩ else none
  else mark c value opened

/-- The text that the inside of a quoted text stands for. -/
def unquote (inside : List Char) : Option String :=
  match Text.unescape (fun _ => none) inside with
  | .ok ps => Text.string? ps
  | .error _ => none

/-- Reads a character. -/
def step (r : Reading) (c : Char) : Option Reading :=
  match r.within with
  | .nothing => outside r.value r.opened c
  | .word letters =>
    if isWordChar c then some { r with within := .word (letters ++ [c]) }
    else outside (some (.word (String.ofList letters))) r.opened c
  | .text q inside =>
    if c = q then (unquote inside).map fun s => standing (.text s) r.opened
    else if c = '\\' then some { r with within := .escape q inside }
    else if c = '\n' ∨ c = '\r' then none
    else some { r with within := .text q (inside ++ [c]) }
  | .escape q inside =>
    if c = '\n' ∨ c = '\r' then none
    else some { r with within := .text q (inside ++ ['\\', c]) }

/-- The value that a text shows. -/
def read (s : String) : Option Display :=
  match (s.toList ++ ['\n']).foldlM step (awaiting []) with
  | some ⟨.nothing, some v, []⟩ => some v
  | _ => none

/-- Reading the characters leads from the one reading to the other. -/
def Leads (r : Reading) (cs : List Char) (s : Reading) : Prop := cs.foldlM step r = some s

namespace Leads

variable {r s t : Reading} {c : Char} {cs ds : List Char}

theorem nil (r : Reading) : Leads r [] r := rfl

theorem cons (hstep : step r c = some s) (h : Leads s cs t) : Leads r (c :: cs) t := by
  rw [Leads, List.foldlM_cons, hstep]
  exact h

theorem single (hstep : step r c = some s) : Leads r [c] s := cons hstep (nil s)

theorem append (h : Leads r cs s) (h' : Leads s ds t) : Leads r (cs ++ ds) t := by
  rw [Leads, List.foldlM_append, h]
  exact h'

end Leads

/-- Where a value is awaited, the text is read as the value, if it is not the beginning of a longer
word. -/
def Shown (cs : List Char) (v : Display) : Prop :=
  ∀ opened c, isWordChar c = false →
    (cs ++ [c]).foldlM step (awaiting opened) = step (standing v opened) c

section

variable {cs : List Char} {v : Display} {r : Reading}

/-- A text that is read up to its end does not depend on what follows it. -/
theorem shown_of_leads (h : ∀ opened, Leads (awaiting opened) cs (standing v opened)) :
    Shown cs v := by
  intro opened c _
  rw [List.foldlM_append, h opened]
  simp

theorem Shown.leads (h : Shown cs v) (opened : List Frame) {c : Char} (hc : isWordChar c = false)
    (hstep : step (standing v opened) c = some r) : Leads (awaiting opened) (cs ++ [c]) r :=
  (h opened c hc).trans hstep

theorem Shown.read_eq {s : String} (h : Shown s.toList v) : read s = some v := by
  rw [read, h [] '\n' (by decide)]
  rfl

end

/-! ## Words -/

theorem leads_word {cs : List Char} (hcs : ∀ c ∈ cs, isWordChar c) (letters : List Char)
    (opened : List Frame) :
    Leads ⟨.word letters, none, opened⟩ cs ⟨.word (letters ++ cs), none, opened⟩ := by
  induction cs generalizing letters with
  | nil => simpa using Leads.nil _
  | cons c cs ih =>
    obtain ⟨hc, hcs⟩ := List.forall_mem_cons.1 hcs
    refine .cons (s := ⟨.word (letters ++ [c]), none, opened⟩) (by simp [step, hc]) ?_
    simpa using ih hcs (letters ++ [c])

/-- A word is read as it stands. -/
theorem shown_word {w : String} (hne : w.toList ≠ []) (hw : ∀ c ∈ w.toList, isWordChar c) :
    Shown w.toList (.word w) := by
  intro opened d hd
  obtain ⟨c, cs, hcs⟩ := List.exists_cons_of_ne_nil hne
  rw [hcs] at hw ⊢
  obtain ⟨hc, hrest⟩ := List.forall_mem_cons.1 hw
  have hfirst : step (awaiting opened) c = some ⟨.word [c], none, opened⟩ := by
    have hspace : c ≠ ' ' := by rintro rfl; exact absurd hc (by decide)
    have hline : c ≠ '\n' := by rintro rfl; exact absurd hc (by decide)
    have hquote : ¬ (c = Text.apostrophe ∨ c = Text.doubleQuote) := by
      rintro (rfl | rfl) <;> exact absurd hc (by decide)
    simp [step, awaiting, outside, hspace, hline, hquote, hc]
  have hword : String.ofList (c :: cs) = w := by rw [← hcs, String.ofList_toList]
  rw [List.foldlM_append, Leads.cons hfirst (leads_word hrest [c] opened)]
  simp [step, standing, hd, hword]

/-- The numeral of an integer is a word. -/
theorem toString_int_word (n : Int) :
    (toString n).toList ≠ [] ∧ ∀ c ∈ (toString n).toList, isWordChar c := by
  have hnat (k : Nat) : k.repr.toList ≠ [] ∧ ∀ c ∈ k.repr.toList, isWordChar c := by
    rw [Nat.toList_repr]
    refine ⟨Nat.toDigits_ne_nil, fun c hc => ?_⟩
    have hdigit : c.isDigit := Nat.isDigit_of_mem_toDigits (by decide) (by decide) hc
    simp [isWordChar, Char.isAlphanum, hdigit]
  cases n with
  | ofNat k => exact hnat k
  | negSucc k =>
    have htext : (toString (Int.negSucc k)).toList = '-' :: (k + 1).repr.toList :=
      String.toList_append
    rw [htext]
    exact ⟨List.cons_ne_nil _ _, List.forall_mem_cons.2 ⟨rfl, (hnat (k + 1)).2⟩⟩

/-- A number is read as it stands. -/
theorem shown_int (n : Int) : Shown (toString n).toList (.word (toString n)) :=
  shown_word (toString_int_word n).1 (toString_int_word n).2

/-! ## Quoted texts -/

section Quoted

variable {q : Char} (hq : q = Text.apostrophe ∨ q = Text.doubleQuote)

/-- The characters go into a quoted text as they stand. -/
theorem leads_inside {cs : List Char} (hcs : ∀ c ∈ cs, c ≠ q ∧ c ≠ '\\' ∧ c ≠ '\n' ∧ c ≠ '\r')
    (inside : List Char) (opened : List Frame) :
    Leads ⟨.text q inside, none, opened⟩ cs ⟨.text q (inside ++ cs), none, opened⟩ := by
  induction cs generalizing inside with
  | nil => simpa using Leads.nil _
  | cons c cs ih =>
    obtain ⟨⟨hquote, hslash, hline, hreturn⟩, hcs⟩ := List.forall_mem_cons.1 hcs
    refine .cons (s := ⟨.text q (inside ++ [c]), none, opened⟩) ?_ ?_
    · simp [step, hquote, hslash, hline, hreturn]
    · simpa using ih hcs (inside ++ [c])

include hq

/-- An escape goes into a quoted text together with what follows it. -/
theorem leads_escape {c : Char} {cs : List Char} (hc : c ≠ '\n' ∧ c ≠ '\r')
    (hcs : ∀ c ∈ cs, c ≠ q ∧ c ≠ '\\' ∧ c ≠ '\n' ∧ c ≠ '\r') (inside : List Char)
    (opened : List Frame) :
    Leads ⟨.text q inside, none, opened⟩ ('\\' :: c :: cs)
      ⟨.text q (inside ++ '\\' :: c :: cs), none, opened⟩ := by
  have hslash : '\\' ≠ q := by rcases hq with rfl | rfl <;> decide
  refine .cons (s := ⟨.escape q inside, none, opened⟩) (by simp [step, hslash]) ?_
  refine .cons (s := ⟨.text q (inside ++ ['\\', c]), none, opened⟩) (by simp [step, hc]) ?_
  simpa using leads_inside hcs (inside ++ ['\\', c]) opened

theorem plain_of_mem_hexDigits {width n : Nat} :
    ∀ c ∈ Text.hexDigits width n, c ≠ q ∧ c ≠ '\\' ∧ c ≠ '\n' ∧ c ≠ '\r' := by
  intro c hc
  have hnone : Text.hexValue? q = none := by rcases hq with rfl | rfl <;> rfl
  exact ⟨Text.ne_of_mem_hexDigits hc hnone, Text.ne_of_mem_hexDigits hc rfl,
    Text.ne_of_mem_hexDigits hc rfl, Text.ne_of_mem_hexDigits hc rfl⟩

theorem leads_quoteChar (c : Char) (inside : List Char) (opened : List Frame) :
    Leads ⟨.text q inside, none, opened⟩ (quoteChar q c)
      ⟨.text q (inside ++ quoteChar q c), none, opened⟩ := by
  have hescape (d : Char) (hd : d ≠ '\n' ∧ d ≠ '\r') :
      Leads ⟨.text q inside, none, opened⟩ ['\\', d]
        ⟨.text q (inside ++ ['\\', d]), none, opened⟩ :=
    leads_escape hq hd (by simp) inside opened
  fun_cases quoteChar q c with
  | case1 hc =>
    refine hescape c ?_
    constructor <;> rintro rfl <;> rcases hq with rfl | rfl <;> exact absurd hc (by decide)
  | case2 => exact hescape 'n' (by decide)
  | case3 => exact hescape 'r' (by decide)
  | case4 => exact hescape 't' (by decide)
  | case5 hplain hline hreturn =>
    simp only [Bool.or_eq_true, beq_iff_eq, not_or] at hplain hline hreturn
    exact leads_inside (by simpa using ⟨hplain.1, hplain.2, hline, hreturn⟩) inside opened
  | case6 => exact leads_escape hq (by decide) (plain_of_mem_hexDigits hq) inside opened
  | case7 => exact leads_escape hq (by decide) (plain_of_mem_hexDigits hq) inside opened
  | case8 => exact leads_escape hq (by decide) (plain_of_mem_hexDigits hq) inside opened

theorem leads_quoteChars (cs inside : List Char) (opened : List Frame) :
    Leads ⟨.text q inside, none, opened⟩ (cs.flatMap (quoteChar q))
      ⟨.text q (inside ++ cs.flatMap (quoteChar q)), none, opened⟩ := by
  induction cs generalizing inside with
  | nil => simpa using Leads.nil _
  | cons c cs ih =>
    rw [List.flatMap_cons, ← List.append_assoc]
    exact (leads_quoteChar hq c inside opened).append (ih _)

theorem unescape_quoteChar (names : Text.CharacterNames) (c : Char) (cs : List Char) :
    Text.unescape names (quoteChar q c ++ cs) =
      (Text.unescape names cs).map (.char c :: ·) := by
  have hhex (letter : Char) (width : Nat) (hc : c.toNat < 16 ^ width)
      (hescape : Text.escape names (letter :: (Text.hexDigits width c.toNat ++ cs)) =
        Text.hexEscape letter width (Text.hexDigits width c.toNat ++ cs)) :
      Text.unescape names ('\\' :: letter :: Text.hexDigits width c.toNat ++ cs) =
        (Text.unescape names cs).map (.char c :: ·) :=
    Text.unescape_escape
      (hescape.trans (Text.hexEscape_hexDigits letter (p := .char c) hc cs))
  fun_cases quoteChar q c with
  | case1 hc =>
    have hescape : Text.escape names (c :: cs) = .ok ([.char c], cs) := by
      simp only [Bool.or_eq_true, beq_iff_eq] at hc
      rcases hc with rfl | rfl
      · rcases hq with rfl | rfl <;> rfl
      · rfl
    exact Text.unescape_escape hescape
  | case2 _ hline =>
    obtain rfl := beq_iff_eq.1 hline
    exact Text.unescape_escape (show Text.escape names ('n' :: cs) = _ from rfl)
  | case3 _ _ hreturn =>
    obtain rfl := beq_iff_eq.1 hreturn
    exact Text.unescape_escape (show Text.escape names ('r' :: cs) = _ from rfl)
  | case4 _ _ _ htab =>
    obtain rfl := beq_iff_eq.1 htab
    exact Text.unescape_escape (show Text.escape names ('t' :: cs) = _ from rfl)
  | case5 hplain =>
    simp only [Bool.or_eq_true, beq_iff_eq, not_or] at hplain
    exact Text.unescape_plain hplain.2 cs
  | case6 _ _ _ _ _ hsmall => exact hhex 'x' 2 (Nat.lt_succ_of_le hsmall) rfl
  | case7 _ _ _ _ _ _ hsmall => exact hhex 'u' 4 (Nat.lt_succ_of_le hsmall) rfl
  | case8 => exact hhex 'U' 8 (Nat.lt_of_lt_of_eq c.val.toNat_lt (by decide)) rfl

theorem unquote_quoteChars (cs : List Char) :
    unquote (cs.flatMap (quoteChar q)) = some (String.ofList cs) := by
  have hunescape : Text.unescape (fun _ => none) (cs.flatMap (quoteChar q)) =
      .ok (cs.map .char) := by
    induction cs with
    | nil => rw [List.flatMap_nil, Text.unescape, List.map_nil]
    | cons c cs ih =>
      rw [List.flatMap_cons, unescape_quoteChar hq, ih]
      rfl
  rw [unquote, hunescape]
  exact Text.string?_eq_some_iff.2 (by rw [Text.codePoints, String.toList_ofList])

end Quoted

theorem quoteFor_eq (cs : List Char) :
    quoteFor cs = Text.apostrophe ∨ quoteFor cs = Text.doubleQuote := by
  unfold quoteFor
  split
  · exact .inr rfl
  · exact .inl rfl

/-- **Quoted texts**: what stands between the quotes is read as the text. -/
theorem shown_quote (s : String) : Shown (quote s).toList (.text s) := by
  refine shown_of_leads fun opened => ?_
  obtain ⟨q, hq⟩ : ∃ q, quoteFor s.toList = q := ⟨_, rfl⟩
  have hquote := quoteFor_eq s.toList
  rw [hq] at hquote
  have hopen : step (awaiting opened) q = some ⟨.text q [], none, opened⟩ := by
    have hspace : q ≠ ' ' := by rcases hquote with rfl | rfl <;> decide
    have hline : q ≠ '\n' := by rcases hquote with rfl | rfl <;> decide
    simp [step, awaiting, outside, hspace, hline, hquote]
  have hclose : step ⟨.text q (s.toList.flatMap (quoteChar q)), none, opened⟩ q =
      some (standing (.text s) opened) := by
    simp [step, unquote_quoteChars hquote]
  have htext : (quote s).toList = q :: (s.toList.flatMap (quoteChar q) ++ [q]) := by
    simp [quote, Text.quoteList, hq]
  rw [htext]
  exact .cons hopen ((leads_quoteChars hquote s.toList [] opened).append (.single hclose))

/-- **A quoted text stands on one line.** -/
theorem unbroken_quote (s : String) : Text.Unbroken (quote s) := by
  have hhex {width n : Nat} : ∀ c ∈ Text.hexDigits width n, Text.isBreak c = false := fun c hc =>
    Text.isBreak_eq_false_of (p := fun c => (Text.hexValue? c).isSome) (by decide)
      (Text.isSome_hexValue?_of_mem_hexDigits hc)
  have hquote : Text.isBreak (quoteFor s.toList) = false := by
    rcases quoteFor_eq s.toList with h | h <;> rw [h] <;> rfl
  have hescape {c : Char} {cs : List Char} (hc : Text.isBreak c = false)
      (hcs : ∀ d ∈ cs, Text.isBreak d = false) : ∀ d ∈ '\\' :: c :: cs, Text.isBreak d = false :=
    List.forall_mem_cons.2 ⟨rfl, List.forall_mem_cons.2 ⟨hc, hcs⟩⟩
  have hchar (c : Char) : ∀ d ∈ quoteChar (quoteFor s.toList) c, Text.isBreak d = false := by
    fun_cases quoteChar (quoteFor s.toList) c with
    | case1 hc =>
      refine hescape ?_ (by simp)
      simp only [Bool.or_eq_true, beq_iff_eq] at hc
      rcases hc with rfl | rfl
      · exact hquote
      · rfl
    | case2 => exact hescape rfl (by simp)
    | case3 => exact hescape rfl (by simp)
    | case4 => exact hescape rfl (by simp)
    | case5 _ _ _ _ hprintable =>
      simpa using Text.isBreak_eq_false_of (by decide +kernel) hprintable
    | case6 => exact hescape rfl hhex
    | case7 => exact hescape rfl hhex
    | case8 => exact hescape rfl hhex
  rw [Text.Unbroken, quote, String.toList_ofList, Text.quoteList]
  simpa [hquote, or_imp, forall_and] using fun d c _ hd => hchar c d hd

/-- An optional text is shown as a text or as the word for none. -/
theorem shown_quote? (s : Option String) :
    Shown (Text.quote? s).toList (s.elim (.word "None") .text) := by
  cases s with
  | none => exact shown_word (w := "None") (by decide) (List.all_eq_true.1 (by decide))
  | some s => exact shown_quote s

/-! ## Tuples -/

/-- The cells of a tuple after the first one. -/
theorem leads_cells {cells : List (List Char)} {vs : List Display}
    (h : List.Forall₂ Shown cells vs) (hcells : cells ≠ []) {items : List Display}
    (hitems : items ≠ []) (opened : List Frame) :
    Leads (awaiting (.tuple items :: opened)) ([',', ' '].intercalate cells ++ [')'])
      (standing (.tuple (items ++ vs)) opened) := by
  induction h generalizing items with
  | nil => exact absurd rfl hcells
  | @cons cell v cells vs hcell hrest ih =>
    cases hrest with
    | nil =>
      obtain ⟨i, is, rfl⟩ := List.exists_cons_of_ne_nil hitems
      simpa using hcell.leads (.tuple (i :: is) :: opened) (c := ')') (by decide) rfl
    | cons =>
      have hcomma := hcell.leads (.tuple items :: opened) (c := ',') (by decide) rfl
      have hspace : Leads (awaiting (.tuple (items ++ [v]) :: opened)) [' '] _ := .single rfl
      have hlast := ih (List.cons_ne_nil _ _)
        (List.append_ne_nil_of_right_ne_nil items (List.cons_ne_nil v []))
      simpa [List.intercalate_cons_cons] using (hcomma.append hspace).append hlast

/-- Two or more cells between brackets. -/
theorem shown_cells {cells : List (List Char)} {vs : List Display}
    (h : List.Forall₂ Shown cells vs) (hcells : 2 ≤ cells.length) :
    Shown ('(' :: ([',', ' '].intercalate cells ++ [')'])) (.tuple vs) := by
  refine shown_of_leads fun opened => ?_
  have hopen : Leads (awaiting opened) ['('] (awaiting (.tuple [] :: opened)) := .single rfl
  cases h with
  | nil => simp at hcells
  | @cons cell v cells vs hcell hrest =>
    have hne : cells ≠ [] := by
      rintro rfl
      simp at hcells
    obtain ⟨c, cs, rfl⟩ := List.exists_cons_of_ne_nil hne
    have hcomma := hcell.leads (.tuple [] :: opened) (c := ',') (by decide) rfl
    have hspace : Leads (awaiting (.tuple [v] :: opened)) [' '] _ := .single rfl
    have hlast := leads_cells hrest hne (List.cons_ne_nil v []) opened
    simpa [List.intercalate_cons_cons] using
      hopen.append ((hcomma.append hspace).append hlast)

/-- **Tuples**: cells that show values, with brackets around them, show the tuple of the values. -/
theorem shown_tuple {cells : List String} {vs : List Display}
    (h : List.Forall₂ (fun cell v => Shown cell.toList v) cells vs) (hcells : 2 ≤ cells.length) :
    Shown ("(" ++ ", ".intercalate cells ++ ")").toList (.tuple vs) := by
  have hlist : List.Forall₂ Shown (cells.map String.toList) vs := by simpa using h
  simpa [String.toList_intercalate] using shown_cells hlist (by simpa using hcells)

/-- Texts in brackets show the tuple of the texts. -/
theorem shown_quoteTuple (ss : List String) :
    Shown (Text.quoteTuple ss).toList (.tuple (ss.map .text)) := by
  match ss with
  | [] => exact shown_of_leads fun opened => rfl
  | [s] =>
    refine shown_of_leads fun opened => ?_
    have hopen : Leads (awaiting opened) ['('] (awaiting (.tuple [] :: opened)) := .single rfl
    have hcomma := (shown_quote s).leads (.tuple [] :: opened) (c := ',') (by decide) rfl
    have hclose : Leads (awaiting (.tuple [.text s] :: opened)) [')']
      (standing (.tuple [.text s]) opened) := .single rfl
    simpa [Text.quoteTuple] using hopen.append (hcomma.append hclose)
  | s :: s' :: ss =>
    have hcells : List.Forall₂ (fun cell v => Shown cell.toList v) ((s :: s' :: ss).map quote)
        ((s :: s' :: ss).map .text) := by
      rw [List.forall₂_map_left_iff, List.forall₂_map_right_iff, List.forall₂_same]
      exact fun s _ => shown_quote s
    exact shown_tuple hcells (by simp)

/-! ## Rows -/

/-- The rows under a key of a table, from bracket to bracket. -/
def rowsText {α : Type} (row : α → List String) (rs : List α) : String :=
  "(\n" ++ joinLines (rs.map fun r => "        (" ++ ", ".intercalate (row r) ++ "),") ++ "    )"

theorem shown_rows {α : Type} {row : α → List String} {display : α → Display}
    (h : ∀ r, Shown ("(" ++ ", ".intercalate (row r) ++ ")").toList (display r)) (rs : List α) :
    Shown (rowsText row rs).toList (.tuple (rs.map display)) := by
  refine shown_of_leads fun opened => ?_
  have hrows (items : List Display) :
      Leads (awaiting (.tuple items :: opened))
        (joinLines (rs.map fun r => "        (" ++ ", ".intercalate (row r) ++ "),")).toList
        (awaiting (.tuple (items ++ rs.map display) :: opened)) := by
    induction rs generalizing items with
    | nil => simpa [joinLines] using Leads.nil _
    | cons r rs ih =>
      have hindent : Leads (awaiting (.tuple items :: opened)) (List.replicate 8 ' ')
          (awaiting (.tuple items :: opened)) := rfl
      have hrow := (h r).leads (.tuple items :: opened) (c := ',') (by decide) rfl
      have hend : Leads (awaiting (.tuple (items ++ [display r]) :: opened)) ['\n'] _ :=
        .single rfl
      have hline := (hindent.append hrow).append hend
      simpa [joinLines_cons, List.replicate] using hline.append (ih (items ++ [display r]))
  have hopen : Leads (awaiting opened) ['(', '\n'] (awaiting (.tuple [] :: opened)) := rfl
  have hindent : Leads (awaiting (.tuple (rs.map display) :: opened)) (List.replicate 4 ' ')
      (awaiting (.tuple (rs.map display) :: opened)) := rfl
  have hclose : Leads (awaiting (.tuple (rs.map display) :: opened)) [')']
      (standing (.tuple (rs.map display)) opened) := .single rfl
  simpa [rowsText, List.replicate] using
    hopen.append ((hrows []).append (hindent.append hclose))

/-! ## Dictionaries -/

/-- Where a dictionary is open and a key is awaited, the lines are read as the entries. -/
def ShowEntries (ls : List String) (entries : List (Display × Display)) : Prop :=
  ∀ before opened, Leads (awaiting (.dict before :: opened)) (joinLines ls).toList
    (awaiting (.dict (before ++ entries) :: opened))

theorem showEntries_entryLine (key : String) {value : String} {v : Display}
    (h : Shown value.toList v) : ShowEntries [entryLine key value] [(.text key, v)] := by
  intro before opened
  have hindent : Leads (awaiting (.dict before :: opened)) (List.replicate 4 ' ')
      (awaiting (.dict before :: opened)) := rfl
  have hkey := (shown_quote key).leads (.dict before :: opened) (c := ':') (by decide) rfl
  have hspace : Leads (awaiting (.entry before (.text key) :: opened)) [' '] _ := .single rfl
  have hvalue := h.leads (.entry before (.text key) :: opened) (c := ',') (by decide) rfl
  have hend : Leads (awaiting (.dict (before ++ [(.text key, v)]) :: opened)) ['\n']
      (awaiting (.dict (before ++ [(.text key, v)]) :: opened)) := .single rfl
  have hline := ((hindent.append hkey).append hspace).append (hvalue.append hend)
  simpa [joinLines, entryLine, List.replicate] using hline

theorem joinLines_groupLines {α : Type} (row : α → List String) (g : String × List α) :
    joinLines (groupLines row g) = joinLines [entryLine g.1 (rowsText row g.2)] := by
  simp [groupLines, entryLine, rowsText, joinLines, ← String.toList_inj]

theorem showEntries_groupLines {α : Type} {row : α → List String} {display : α → Display}
    (h : ∀ r, Shown ("(" ++ ", ".intercalate (row r) ++ ")").toList (display r))
    (g : String × List α) :
    ShowEntries (groupLines row g) [(.text g.1, .tuple (g.2.map display))] := by
  intro before opened
  rw [joinLines_groupLines]
  exact showEntries_entryLine g.1 (shown_rows h g.2) before opened

theorem showEntries_flatMap {α : Type} {ls : α → List String} {entry : α → Display × Display}
    (h : ∀ x, ShowEntries (ls x) [entry x]) (xs : List α) :
    ShowEntries (xs.flatMap ls) (xs.map entry) := by
  intro before opened
  induction xs generalizing before with
  | nil => simpa [joinLines] using Leads.nil _
  | cons x xs ih =>
    simpa [joinLines_append] using (h x before opened).append (ih (before ++ [entry x]))

theorem showEntries_map {α : Type} {line : α → String} {entry : α → Display × Display}
    (h : ∀ x, ShowEntries [line x] [entry x]) (xs : List α) :
    ShowEntries (xs.map line) (xs.map entry) := by
  rw [List.map_eq_flatMap]
  exact showEntries_flatMap h xs

/-- **Dictionaries**: lines that are read as entries, with braces around them, show the dictionary
of the entries. -/
theorem shown_dict {ls : List String} {entries : List (Display × Display)}
    (h : ShowEntries ls entries) : Shown ("\x7b\n" ++ joinLines ls ++ "\x7d").toList
      (.dict entries) := by
  refine shown_of_leads fun opened => ?_
  have hopen : Leads (awaiting opened) ['\x7b', '\n'] (awaiting (.dict [] :: opened)) := rfl
  have hclose : Leads (awaiting (.dict entries :: opened)) ['\x7d']
      (standing (.dict entries) opened) := .single rfl
  simpa using hopen.append ((h [] opened).append hclose)

end Display

end Statechart.Codegen
