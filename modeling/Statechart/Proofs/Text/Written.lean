import Mathlib
import Statechart.Text.Blank
import Statechart.Text.Literal
import Statechart.Text.Numeral

/-!
# Texts that read back

A text is written as a literal by escaping the five characters that cannot stand in one as they
are and all surrogates, and a number by its decimal digits. Both are read back as they were,
whatever names the characters have.

Main statements: `ofLiteral_toLiteral` and `readNat_repr`.
-/

namespace Statechart.Text

/-! ## Code points by number -/

theorem CodePoint.ofNat?_toNat (p : CodePoint) : CodePoint.ofNat? p.toNat = some p := by
  cases p with
  | char c =>
    have hvalid : c.toNat.isValidChar := c.valid
    rw [CodePoint.ofNat?, CodePoint.toNat, if_pos hvalid, Char.ofNat_toNat]
  | surrogate n =>
    have hvalid : ¬ (0xD800 + (n : Nat)).isValidChar := by
      unfold Nat.isValidChar
      omega
    have hrange : 0xD800 ≤ 0xD800 + (n : Nat) ∧ 0xD800 + (n : Nat) < 0xE000 := by omega
    rw [CodePoint.ofNat?, CodePoint.toNat, if_neg hvalid, dif_pos hrange]
    simp

theorem length_hexDigits (width n : Nat) : (hexDigits width n).length = width := by
  induction width generalizing n with
  | zero => rfl
  | succ w ih => simp [hexDigits, ih]

theorem hexValue?_digitChar {d : Nat} (hd : d < 16) : hexValue? d.digitChar = some d := by
  revert d
  decide

theorem isSome_hexValue?_of_mem_hexDigits {width n : Nat} {c : Char} (h : c ∈ hexDigits width n) :
    (hexValue? c).isSome := by
  induction width generalizing n with
  | zero => simp [hexDigits] at h
  | succ w ih =>
    rw [hexDigits, List.mem_append, List.mem_singleton] at h
    rcases h with h | rfl
    · exact ih h
    · rw [hexValue?_digitChar (Nat.mod_lt n (by decide)), Option.isSome_some]

/-- No digit is a character without a value. -/
theorem ne_of_mem_hexDigits {width n : Nat} {c d : Char} (hc : c ∈ hexDigits width n)
    (hd : hexValue? d = none) : c ≠ d := by
  rintro rfl
  have hvalue := isSome_hexValue?_of_mem_hexDigits hc
  rw [hd] at hvalue
  cases hvalue

/-- The digits of a number write it, if there are enough of them. -/
theorem hexNumber_hexDigits {width n : Nat} (hn : n < 16 ^ width) :
    hexNumber (hexDigits width n) = n := by
  induction width generalizing n with
  | zero =>
    rw [Nat.pow_zero, Nat.lt_one_iff] at hn
    subst hn
    rfl
  | succ w ih =>
    have hhigh : hexNumber (hexDigits w (n / 16)) = n / 16 :=
      ih (Nat.div_lt_of_lt_mul (by rwa [Nat.pow_succ, Nat.mul_comm] at hn))
    rw [hexNumber] at hhigh
    rw [hexNumber, hexDigits, List.foldl_append, hhigh]
    simp only [List.foldl_cons, List.foldl_nil, hexValue?_digitChar (Nat.mod_lt n (by decide)),
      Option.getD_some]
    omega

theorem hexRun_hexDigits (width n : Nat) (rest : List Char) :
    hexRun width (hexDigits width n ++ rest) = hexDigits width n := by
  have htake : (hexDigits width n ++ rest).take width = hexDigits width n :=
    List.take_left' (length_hexDigits width n)
  rw [hexRun, htake, List.takeWhile_eq_self_iff]
  exact fun c hc => isSome_hexValue?_of_mem_hexDigits hc

/-- The digits of a code point are read back. -/
theorem hexEscape_hexDigits (letter : Char) {width : Nat} {p : CodePoint}
    (hp : p.toNat < 16 ^ width) (rest : List Char) :
    hexEscape letter width (hexDigits width p.toNat ++ rest) = .ok ([p], rest) := by
  rw [hexEscape, hexRun_hexDigits, length_hexDigits, if_neg (Nat.lt_irrefl width),
    hexNumber_hexDigits hp, CodePoint.ofNat?_toNat, List.drop_left' (length_hexDigits ..)]

/-! ## Literals -/

/-- A character of a text, as a literal shows it. -/
def escapeChar : Char → List Char
  | '\\' => ['\\', '\\']
  | '\x22' => ['\\', '\x22']
  | '\n' => ['\\', 'n']
  | '\r' => ['\\', 'r']
  | '\x00' => ['\\', 'x', '0', '0']
  | c => [c]

/-- A code point of a text, as a literal shows it. -/
def escapePoint : CodePoint → List Char
  | .char c => escapeChar c
  | .surrogate n => '\\' :: 'u' :: hexDigits 4 (CodePoint.surrogate n).toNat

/-- The inside of the literal that stands for a text. -/
def escapeList (ps : CodePoints) : List Char := ps.flatMap escapePoint

/-- The literal that stands for a text. -/
def toLiteral (ps : CodePoints) : String :=
  String.ofList ('\x22' :: escapeList ps ++ ['\x22'])

section

variable {names : CharacterNames}

theorem unescape_escape {cs rest : List Char} {out : CodePoints}
    (h : escape names cs = .ok (out, rest)) :
    unescape names ('\\' :: cs) = (unescape names rest).map (out ++ ·) := by
  rw [unescape]
  split
  · rename_i h'
    rw [h] at h'
    cases h'
  · rename_i h'
    rw [h] at h'
    cases h'
    rfl

theorem unescape_plain {c : Char} (hslash : c ≠ '\\') (cs : List Char) :
    unescape names (c :: cs) = (unescape names cs).map (.char c :: ·) := by
  rw [unescape]
  exact hslash

theorem unescape_escapeChar (c : Char) (cs : List Char) :
    unescape names (escapeChar c ++ cs) = (unescape names cs).map (.char c :: ·) := by
  fun_cases escapeChar c with
  | case1 => exact unescape_escape (show escape names ('\\' :: cs) = _ from rfl)
  | case2 => exact unescape_escape (show escape names ('\x22' :: cs) = _ from rfl)
  | case3 => exact unescape_escape (show escape names ('n' :: cs) = _ from rfl)
  | case4 => exact unescape_escape (show escape names ('r' :: cs) = _ from rfl)
  | case5 =>
    exact unescape_escape (show escape names ('x' :: '0' :: '0' :: cs) = .ok ([.char '\x00'], cs)
      from hexEscape_hexDigits 'x' (show (CodePoint.char '\x00').toNat < 16 ^ 2 by decide) cs)
  | case6 c hslash => exact unescape_plain hslash cs

theorem unescape_escapePoint (p : CodePoint) (cs : List Char) :
    unescape names (escapePoint p ++ cs) = (unescape names cs).map (p :: ·) := by
  cases p with
  | char c => exact unescape_escapeChar c cs
  | surrogate n =>
    have hn : (CodePoint.surrogate n).toNat < 16 ^ 4 := by
      rw [CodePoint.toNat]
      omega
    exact unescape_escape (show escape names ('u' :: (hexDigits 4 _ ++ cs)) = _ from
      hexEscape_hexDigits 'u' hn cs)

theorem unescape_escapeList (ps : CodePoints) : unescape names (escapeList ps) = .ok ps := by
  induction ps with
  | nil => rw [escapeList, List.flatMap_nil, unescape]
  | cons p ps ih =>
    have hcons : escapeList (p :: ps) = escapePoint p ++ escapeList ps := List.flatMap_cons
    rw [hcons, unescape_escapePoint, ih]
    rfl

end

theorem breakOff?_plain {c : Char} (hslash : c ≠ '\\') (hreturn : c ≠ '\r') (line : Nat)
    (cs : List Char) : breakOff? line (c :: cs) = breakOff? line cs := by
  rw [breakOff?, if_neg hreturn]
  · exact fun h _ => hslash h
  · exact fun _ _ h _ => hslash h

theorem breakOff?_pair {c : Char} (hreturn : c ≠ '\r') (line : Nat) (cs : List Char) :
    breakOff? line ('\\' :: c :: cs) = breakOff? line cs := by
  rw [breakOff?, if_neg hreturn]

theorem breakOff?_append {cs : List Char} (hcs : ∀ c ∈ cs, c ≠ '\\' ∧ c ≠ '\r') (line : Nat)
    (rest : List Char) : breakOff? line (cs ++ rest) = breakOff? line rest := by
  induction cs with
  | nil => rfl
  | cons c cs ih =>
    obtain ⟨⟨hslash, hreturn⟩, hcs⟩ := List.forall_mem_cons.1 hcs
    rw [List.cons_append, breakOff?_plain hslash hreturn, ih hcs]

theorem breakOff?_escapePoint (line : Nat) (p : CodePoint) (cs : List Char) :
    breakOff? line (escapePoint p ++ cs) = breakOff? line cs := by
  cases p with
  | char c =>
    rw [escapePoint]
    fun_cases escapeChar c with
    | case5 =>
      have hdigits : ∀ c ∈ ['0', '0'], c ≠ '\\' ∧ c ≠ '\r' := by simp
      exact (breakOff?_pair (show 'x' ≠ '\r' by decide) line _).trans
        (breakOff?_append hdigits line cs)
    | case6 c hslash _ _ hreturn => exact breakOff?_plain hslash hreturn line cs
    | _ => rfl
  | surrogate n =>
    have hdigits : ∀ c ∈ hexDigits 4 (CodePoint.surrogate n).toNat, c ≠ '\\' ∧ c ≠ '\r' :=
      fun c hc => ⟨ne_of_mem_hexDigits hc rfl, ne_of_mem_hexDigits hc rfl⟩
    rw [escapePoint, List.cons_append, List.cons_append, breakOff?_pair (show 'u' ≠ '\r' by decide),
      breakOff?_append hdigits]

theorem breakOff?_escapeList (line : Nat) (ps : CodePoints) :
    breakOff? line (escapeList ps) = none := by
  induction ps with
  | nil => rfl
  | cons p ps ih =>
    have hcons : escapeList (p :: ps) = escapePoint p ++ escapeList ps := List.flatMap_cons
    rw [hcons, breakOff?_escapePoint, ih]

theorem null_notMem_escapePoint (p : CodePoint) : '\x00' ∉ escapePoint p := by
  cases p with
  | char c =>
    rw [escapePoint]
    fun_cases escapeChar c with
    | case6 c _ _ _ _ hnull => simpa using Ne.symm hnull
    | _ => decide
  | surrogate n =>
    rw [escapePoint]
    simp only [List.mem_cons, Char.reduceEq, false_or]
    intro h
    exact ne_of_mem_hexDigits h rfl rfl

theorem null_notMem_escapeList (ps : CodePoints) : '\x00' ∉ escapeList ps := by
  intro h
  obtain ⟨p, -, hp⟩ := List.mem_flatMap.1 h
  exact null_notMem_escapePoint p hp

/-- A text is read back from its literal. -/
theorem ofLiteral_toLiteral (names : CharacterNames) (ps : CodePoints) :
    ofLiteral names (toLiteral ps) = .ok ps := by
  have hinside : ((toLiteral ps).toList.drop 1).dropLast = escapeList ps := by
    rw [toLiteral, String.toList_ofList, List.cons_append, List.drop_one, List.tail_cons,
      List.dropLast_concat]
  have hnull : (escapeList ps).contains '\x00' = false := by
    simpa using null_notMem_escapeList ps
  simp only [ofLiteral, hinside, hnull, breakOff?_escapeList, unescape_escapeList]
  rfl

/-! ## Numerals -/

theorem decimalValue?_digitChar {d : Nat} (hd : d < 10) :
    decimalValue? d.digitChar = some d := by
  revert d
  decide

/-- The digits of a number write it. -/
theorem natOfDigits_toDigits (n : Nat) : natOfDigits (Nat.toDigits 10 n) = n := by
  induction n using Nat.strongRecOn with
  | ind n ih =>
    rcases Nat.lt_or_ge n 10 with hn | hn
    · rw [Nat.toDigits_of_lt_base hn]
      simp [natOfDigits, decimalValue?_digitChar hn]
    · have hlow : natOfDigits [(n % 10).digitChar] = n % 10 := by
        simp [natOfDigits, decimalValue?_digitChar (Nat.mod_lt n (by decide))]
      have hhigh : natOfDigits (Nat.toDigits 10 (n / 10)) = n / 10 := ih _ (by omega)
      rw [Nat.toDigits_of_base_le (by decide) hn, natOfDigits_append, hlow, hhigh]
      simp only [List.length_singleton, tenPower_succ, tenPower_zero]
      omega

/-- A number is read back from its digits, if there are not too many. -/
theorem readNat_repr {n : Nat} (hn : n.repr.length ≤ digitLimit) : readNat n.repr = .ok n := by
  have hlimit : ¬ digitLimit < n.repr.toList.length := by
    rw [String.length_toList]
    omega
  rw [readNat, if_neg hlimit, Nat.toList_repr, natOfDigits_toDigits]

/-! ## Trimmed texts -/

/-- A text is trimmed if no blank stands at either end. -/
theorem trimList_eq_self {c d : Char} {cs : List Char} (hc : isBlank c = false)
    (hd : isBlank d = false) : trimList (c :: cs ++ [d]) = c :: cs ++ [d] := by
  have hfront : (c :: cs ++ [d]).dropWhile isBlank = c :: cs ++ [d] :=
    dropWhile_eq_self_of_head (by simpa using hc)
  have hback : (c :: cs ++ [d]).reverse.dropWhile isBlank = (c :: cs ++ [d]).reverse :=
    dropWhile_eq_self_of_head (by simpa using hd)
  rw [trimList, trimWhile, hfront, dropEndWhile, hback, List.reverse_reverse]

/-- What is trimmed away is of the class. -/
theorem exists_trimWhile_split (p : Char → Bool) (cs : List Char) :
    ∃ front back, (∀ c ∈ front ++ back, p c) ∧ cs = front ++ trimWhile p cs ++ back := by
  obtain ⟨ds, hds⟩ : ∃ ds, cs.dropWhile p = ds := ⟨_, rfl⟩
  refine ⟨cs.takeWhile p, (ds.reverse.takeWhile p).reverse, fun c hc => ?_, ?_⟩
  · rcases List.mem_append.1 hc with hc | hc
    · exact List.mem_takeWhile_imp hc
    · exact List.mem_takeWhile_imp (List.mem_reverse.1 hc)
  · have hback : ds = dropEndWhile p ds ++ (ds.reverse.takeWhile p).reverse := by
      rw [dropEndWhile, ← List.reverse_append, List.takeWhile_append_dropWhile,
        List.reverse_reverse]
    rw [trimWhile, hds, List.append_assoc, ← hback, ← hds, List.takeWhile_append_dropWhile]

end Statechart.Text
