import Mathlib
import Statechart.Model.Reading
import Statechart.Proofs.Grammar.Words
import Statechart.Proofs.Text.Written

/-!
# Writing a declaration

A declaration is written one part on a line: the initial markers, the states, the choices, the
transitions and the timers. The words of a line have single spaces between them, and parts that
are empty are left out.

Not every declaration can be written so that it reads back. `Declaration.Writable` says which:
names are identifiers, guards are trimmed and keep to their brackets, and actions are calls.
-/

namespace Statechart

open Grammar (Spaced)

/-! ## The words of a line -/

/-- The words of an action list. -/
def actionWords (actions : List String) : List String := actions.intersperse ";"

/-- The words of the actions of a transition or a branch. -/
def slashWords (actions : List String) : List String :=
  if actions.isEmpty then [] else "/" :: actionWords actions

/-- The keyword of a line of actions. -/
def Grammar.HookKind.keyword : Grammar.HookKind → String
  | .entry => "entry"
  | .exit => "exit"

/-- The words of the actions of entering or leaving a state. -/
def hookWords (kind : Grammar.HookKind) (actions : List String) : List String :=
  if actions.isEmpty then [] else kind.keyword :: "/" :: actionWords actions

/-- A guard in its brackets. -/
def bracketed (guard : String) : String := "[" ++ guard ++ "]"

def InitialMarker.words (m : InitialMarker) : List String := ["[*]", "-->", m.target]

/-- The words of a description. -/
def descriptionWords : Option Text.CodePoints → List String
  | some x => [":", Text.toLiteral x]
  | none => []

/-- The words of the body of a state. -/
def State.bodyWords (s : State) : List String :=
  if s.entry.isEmpty && s.exit.isEmpty then []
  else "\x7b" :: (hookWords .entry s.entry ++ (hookWords .exit s.exit ++ ["\x7d"]))

def State.words (s : State) : List String :=
  "state" :: s.id :: (descriptionWords s.description ++ s.bodyWords)

/-- The word that a branch begins with. -/
def Branch.marker (b : Branch) : String :=
  match b.condition with
  | some c => bracketed c
  | none => bracketed "else"

def Branch.words (b : Branch) : List String :=
  b.marker :: "->" :: b.target :: slashWords b.actions

def Choice.words (c : Choice) : List String :=
  "choice" :: c.id :: "\x7b" :: (c.branches.flatMap Branch.words ++ ["\x7d"])

/-- The words of the trigger of a transition. -/
def Transition.triggerWords (t : Transition) : List String :=
  if t.event.isNone && t.guard.isNone && t.actions.isEmpty then []
  else ":" :: (t.event.toList ++ ((t.guard.map bracketed).toList ++ slashWords t.actions))

def Transition.words (t : Transition) : List String :=
  t.source :: "-->" :: t.target :: t.triggerWords

def Timer.words (t : Timer) : List String :=
  "timer" :: t.id :: "=" :: toString t.duration :: "->" :: t.event ::
    if t.periodic then ["periodic"] else []

namespace Declaration

/-- The words of all lines between the first and the last. -/
def itemLines (d : Declaration) : List (List String) :=
  d.initial.map InitialMarker.words ++ d.states.map State.words ++ d.choices.map Choice.words ++
    d.transitions.map Transition.words ++ d.timers.map Timer.words

/-- The words of all lines. -/
def lines (d : Declaration) : List (List String) :=
  ["fsm", d.name, "\x7b"] :: d.itemLines ++ [["\x7d"]]

/-- A line with its words. -/
def line (words : List String) : String := " ".intercalate words ++ "\n"

/-- The text of a declaration. -/
def write (d : Declaration) : String := String.join (d.lines.map line)

end Declaration

/-! ## What can be written -/

/-- A text that is an identifier. -/
def IsName (s : String) : Prop := Grammar.Terminal.Matches .name s.toList

/-- A text that is one of the seven keywords. -/
def IsKeyword (s : String) : Prop := ∃ p ∈ Grammar.Terminal.keywords, p.2 = s

/-- A text that is an action: a dotted name and its arguments. -/
def IsAction (s : String) : Prop := Grammar.Terminal.Matches .action s.toList

/-- A text that can stand in the brackets of a guard: it is neither empty nor a star, has no
blanks at its ends, stays on its line and nests its own brackets at most one level deep. -/
@[mk_iff]
structure IsGuard (s : String) : Prop where
  ne_empty : s ≠ ""
  ne_star : s ≠ "*"
  trimmed : Text.trim s = s
  nested : Grammar.Nested '[' ']' s.toList

/-- The declarations that can be written. -/
@[mk_iff]
structure Declaration.Writable (d : Declaration) : Prop where
  name : IsName d.name
  initial : ∀ m ∈ d.initial, IsName m.target
  states : ∀ s ∈ d.states, IsName s.id ∧ (∀ a ∈ s.entry, IsAction a) ∧ ∀ a ∈ s.exit, IsAction a
  choices : ∀ c ∈ d.choices, IsName c.id ∧ ∀ b ∈ c.branches,
    (∀ g ∈ b.condition, IsGuard g ∧ g ≠ "else") ∧ IsName b.target ∧ ∀ a ∈ b.actions, IsAction a
  transitions : ∀ t ∈ d.transitions, (IsName t.source ∧ ¬ IsKeyword t.source) ∧ IsName t.target ∧
    (∀ e ∈ t.event, IsName e) ∧ (∀ g ∈ t.guard, IsGuard g) ∧ ∀ a ∈ t.actions, IsAction a
  /-- Durations are natural numbers with no more digits than a numeral may have. -/
  timers : ∀ t ∈ d.timers, IsName t.id ∧ IsName t.event ∧
    ∃ n : Nat, t.duration = n ∧ n.repr.length ≤ Text.digitLimit

/-! ## Deciding what can be written -/

theorem isName_iff {s : String} : IsName s ↔ Grammar.cutName? s.toList = some (s.toList, []) := by
  refine ⟨fun h => ?_, Grammar.matches_of_cutName?⟩
  have hend : ∀ c ∈ ([] : List Char).head?, Grammar.isNameChar c = false := by simp
  have := Grammar.cutName?_of_matches h hend
  rwa [List.append_nil] at this

theorem isAction_iff {s : String} :
    IsAction s ↔ Grammar.cutAction? s.toList = some (s.toList, []) := by
  refine ⟨fun h => ?_, Grammar.matches_of_cutAction?⟩
  have := Grammar.cutAction?_of_matches h []
  rwa [List.append_nil] at this

theorem nested_iff {cs : List Char} : Grammar.Nested '[' ']' cs ↔
    Grammar.cutBracketTail? '[' ']' false (cs ++ [']']) = some (cs ++ [']'], []) := by
  constructor
  · intro h
    exact Grammar.cutBracketTail?_of_nested h (by decide) (by decide) (by decide) []
  · intro h
    obtain ⟨body, hbody, hcs⟩ := Grammar.closed_of_cutBracketTail? h
    rwa [List.append_cancel_right hcs]

theorem exists_natural_iff {i : Int} {limit : Nat} :
    (∃ n : Nat, i = n ∧ n.repr.length ≤ limit) ↔ 0 ≤ i ∧ i.toNat.repr.length ≤ limit := by
  constructor
  · rintro ⟨n, rfl, hn⟩
    exact ⟨Int.natCast_nonneg n, hn⟩
  · rintro ⟨hi, hn⟩
    exact ⟨i.toNat, (Int.toNat_of_nonneg hi).symm, hn⟩

instance decidableIsName (s : String) : Decidable (IsName s) := decidable_of_iff _ isName_iff.symm

instance decidableIsKeyword (s : String) : Decidable (IsKeyword s) :=
  inferInstanceAs (Decidable (∃ p ∈ Grammar.Terminal.keywords, p.2 = s))

instance decidableIsAction (s : String) : Decidable (IsAction s) :=
  decidable_of_iff _ isAction_iff.symm

instance decidableNested (cs : List Char) : Decidable (Grammar.Nested '[' ']' cs) :=
  decidable_of_iff _ nested_iff.symm

instance decidableIsGuard (s : String) : Decidable (IsGuard s) :=
  decidable_of_iff _ (isGuard_iff s).symm

instance decidableNatural (i : Int) (limit : Nat) :
    Decidable (∃ n : Nat, i = n ∧ n.repr.length ≤ limit) :=
  decidable_of_iff _ exists_natural_iff.symm

instance decidableWritable (d : Declaration) : Decidable d.Writable :=
  decidable_of_iff _ (Declaration.writable_iff d).symm

/-! ## Words that are read -/

theorem escaped_escapeChar (c : Char) {cs : List Char} (hcs : Grammar.Escaped cs) :
    Grammar.Escaped (Text.escapeChar c ++ cs) := by
  have hdigit : Grammar.Escaped ('0' :: '0' :: cs) :=
    .char (by decide) (by decide) (by decide) (.char (by decide) (by decide) (by decide) hcs)
  fun_cases Text.escapeChar c with
  | case1 => exact .pair (by decide) hcs
  | case2 => exact .pair (by decide) hcs
  | case3 => exact .pair (by decide) hcs
  | case4 => exact .pair (by decide) hcs
  | case5 => exact .pair (by decide) hdigit
  | case6 c hslash hquote hline => exact .char hquote hslash hline hcs

theorem escaped_hexDigits (width n : Nat) {cs : List Char} (hcs : Grammar.Escaped cs) :
    Grammar.Escaped (Text.hexDigits width n ++ cs) := by
  have hdigits : ∀ c ∈ Text.hexDigits width n, (Text.hexValue? c).isSome := fun _ =>
    Text.isSome_hexValue?_of_mem_hexDigits
  generalize Text.hexDigits width n = ds at hdigits
  induction ds with
  | nil => exact hcs
  | cons d ds ih =>
    obtain ⟨hd, hds⟩ := List.forall_mem_cons.1 hdigits
    refine .char ?_ ?_ ?_ (ih hds) <;>
    · rintro rfl
      exact absurd hd (by decide)

theorem escaped_escapePoint (p : Text.CodePoint) {cs : List Char} (hcs : Grammar.Escaped cs) :
    Grammar.Escaped (Text.escapePoint p ++ cs) := by
  cases p with
  | char c => exact escaped_escapeChar c hcs
  | surrogate n => exact .pair (by decide) (escaped_hexDigits 4 _ hcs)

theorem escaped_escapeList (ps : Text.CodePoints) : Grammar.Escaped (Text.escapeList ps) := by
  induction ps with
  | nil => exact .nil
  | cons p ps ih => exact escaped_escapePoint p ih

theorem matches_toLiteral (ps : Text.CodePoints) :
    Grammar.Terminal.Matches .string (Text.toLiteral ps).toList := by
  rw [Text.toLiteral, String.toList_ofList]
  exact .string (escaped_escapeList ps)

theorem isDigit_of_mem_toDigits {n : Nat} {c : Char} (h : c ∈ Nat.toDigits 10 n) :
    Grammar.isDigit c := by
  have hdigit : c.isDigit := Nat.isDigit_of_mem_toDigits (by decide) (by decide) h
  simpa only [Grammar.isDigit, Char.isDigit, Char.le_def, ge_iff_le] using hdigit

theorem matches_repr (n : Nat) : Grammar.Terminal.Matches .int n.repr.toList := by
  rw [Nat.toList_repr]
  have hdigits : ∀ c ∈ Nat.toDigits 10 n, Grammar.isDigit c := fun _ => isDigit_of_mem_toDigits
  cases hn : Nat.toDigits 10 n with
  | nil => exact absurd hn Nat.toDigits_ne_nil
  | cons c cs =>
    rw [hn] at hdigits
    exact .int (hdigits c (by simp)) fun d hd => hdigits d (List.mem_cons_of_mem _ hd)

theorem toList_bracketed (g : String) : (bracketed g).toList = '[' :: g.toList ++ [']'] := by
  rw [bracketed, String.toList_append, String.toList_append]
  rfl

theorem isBlank_of_isGap {c : Char} (h : Grammar.isGap c) : Text.isBlank c := by
  simp only [Grammar.isGap, Bool.or_eq_true, beq_iff_eq] at h
  rcases h with rfl | rfl
  · rfl
  · rfl

/-- Trimming takes the gaps around a text away. -/
theorem trimList_of_gapped {x : Char} {text cs : List Char} (h : Grammar.Gapped (x :: text) cs)
    (hx : Text.isBlank x = false) :
    Text.trimList cs = Text.dropEndWhile Text.isBlank (x :: text) := by
  obtain ⟨gap, gap', hgap, hgap', rfl⟩ := h
  have hfront : (gap ++ x :: text ++ gap').dropWhile Text.isBlank = x :: text ++ gap' := by
    rw [List.append_assoc, List.dropWhile_append_of_pos fun c hc => isBlank_of_isGap (hgap c hc)]
    exact Text.dropWhile_eq_self_of_head (by simpa using hx)
  have hback : Text.dropEndWhile Text.isBlank (x :: text ++ gap') =
      Text.dropEndWhile Text.isBlank (x :: text) := by
    rw [Text.dropEndWhile, List.reverse_append, List.dropWhile_append_of_pos, Text.dropEndWhile]
    exact fun c hc => isBlank_of_isGap (hgap' c (List.mem_reverse.1 hc))
  rw [Text.trimList, Text.trimWhile, hfront, hback]

/-- A trimmed text with gaps around a text is that text. -/
theorem eq_of_gapped {s : String} (hs : Text.trim s = s) {x : Char} {text : List Char}
    (h : Grammar.Gapped (x :: text) s.toList) (hx : Text.isBlank x = false)
    (htext : Text.dropEndWhile Text.isBlank (x :: text) = x :: text) :
    s = String.ofList (x :: text) := by
  rw [← hs, Text.trim, trimList_of_gapped h hx, htext]

namespace IsGuard

variable {g : String}

theorem matches_bracketed (h : IsGuard g) :
    Grammar.Terminal.Matches .guard (bracketed g).toList := by
  rw [toList_bracketed]
  refine .guard h.nested (fun hnil => h.ne_empty ?_) fun hstar => h.ne_star ?_
  · exact String.toList_eq_nil_iff.1 hnil
  · exact eq_of_gapped h.trimmed hstar rfl rfl

theorem not_matches_elseMark (h : IsGuard g) (hne : g ≠ "else") :
    ¬ Grammar.Terminal.Matches .elseMark (bracketed g).toList := by
  rw [toList_bracketed]
  intro hmark
  generalize hw : '[' :: g.toList ++ [']'] = w at hmark
  cases hmark with
  | @elseMark cs hcs =>
    have hsame : g.toList = cs := by simpa using hw
    have helse : "else".toList = ['e', 'l', 's', 'e'] := by decide
    rw [helse, ← hsame] at hcs
    exact hne (eq_of_gapped h.trimmed hcs rfl rfl)
  | spelled hs => cases hs

/-- The text of a guard is read out of its brackets. -/
theorem condition_bracketed (h : IsGuard g) (k : Grammar.Terminal) (span : Span) :
    Declaration.condition ⟨k, bracketed g, span⟩ = g := by
  have hinside : ((bracketed g).toList.drop 1).dropLast = g.toList := by
    rw [toList_bracketed, List.cons_append, List.drop_one, List.tail_cons, List.dropLast_concat]
  rw [Declaration.condition, hinside]
  exact h.trimmed

end IsGuard

theorem isBlank_of_isNameStart {c : Char} (hc : Grammar.isNameStart c) :
    Text.isBlank c = false := by
  have hrange : 65 ≤ c.toNat ∧ c.toNat ≤ 122 := by
    simp only [Grammar.isNameStart, Bool.or_eq_true, Bool.and_eq_true, decide_eq_true_eq,
      beq_iff_eq, Char.le_def, UInt32.le_iff_toNat_le] at hc
    rcases hc with (⟨hlow, hhigh⟩ | ⟨hlow, hhigh⟩) | rfl
    · exact ⟨hlow, hhigh.trans (by decide)⟩
    · exact ⟨le_trans (by decide) hlow, hhigh⟩
    · decide
  rw [← Bool.not_eq_true]
  intro hblank
  simp only [Text.isBlank, Bool.or_eq_true, Bool.and_eq_true, decide_eq_true_eq, beq_iff_eq]
    at hblank
  omega

/-- An action has no blanks at its ends. -/
theorem IsAction.trim_eq {a : String} (h : IsAction a) : Text.trim a = a := by
  have htrim : Text.trimList a.toList = a.toList := by
    unfold IsAction at h
    generalize a.toList = w at h
    cases h with
    | action hc =>
      exact Text.trimList_eq_self (isBlank_of_isNameStart hc) rfl
    | spelled hs => cases hs
  rw [Text.trim, htrim, String.ofList_toList]

/-! ## The text as words and what stands between them -/

theorem spaced_line {w : String} {ws : List String} :
    Spaced (w :: ws) (Declaration.line (w :: ws)).toList := by
  induction ws generalizing w with
  | nil =>
    have hline : (Declaration.line [w]).toList = w.toList ++ ['\n'] := by
      rw [Declaration.line, String.intercalate_singleton, String.toList_append]
      rfl
    exact hline ▸ .cons (.inr rfl) .nil
  | cons v ws ih =>
    have hline : (Declaration.line (w :: v :: ws)).toList =
        w.toList ++ ' ' :: (Declaration.line (v :: ws)).toList := by
      rw [Declaration.line, String.intercalate_cons_cons, Declaration.line]
      simp [String.toList_append]
    exact hline ▸ .cons (.inl rfl) ih

theorem spaced_lines {lines : List (List String)} (h : ∀ ws ∈ lines, ws ≠ []) :
    Spaced lines.flatten (String.join (lines.map Declaration.line)).toList := by
  induction lines with
  | nil => exact .nil
  | cons ws lines ih =>
    obtain ⟨w, ws, rfl⟩ := List.exists_cons_of_ne_nil (h ws (by simp))
    rw [List.map_cons, String.join_cons, String.toList_append, List.flatten_cons]
    exact spaced_line.append (ih fun vs hvs => h vs (List.mem_cons_of_mem _ hvs))

theorem Declaration.ne_nil_of_mem_lines {d : Declaration} {ws : List String} (h : ws ∈ d.lines) :
    ws ≠ [] := by
  simp only [lines, itemLines, List.cons_append, List.mem_cons, List.mem_append, List.mem_map,
    List.not_mem_nil, or_false] at h
  rcases h with
    rfl | (((((⟨m, -, rfl⟩ | ⟨s, -, rfl⟩) | ⟨c, -, rfl⟩) | ⟨t, -, rfl⟩) | ⟨t, -, rfl⟩) | rfl)
  · exact List.cons_ne_nil _ _
  · exact List.cons_ne_nil _ _
  · exact List.cons_ne_nil _ _
  · exact List.cons_ne_nil _ _
  · exact List.cons_ne_nil _ _
  · exact List.cons_ne_nil _ _
  · exact List.cons_ne_nil _ _

/-- The text of a declaration is made of its words. -/
theorem Declaration.spaced_write (d : Declaration) : Spaced d.lines.flatten d.write.toList :=
  spaced_lines fun _ => ne_nil_of_mem_lines

end Statechart
