/-!
# Blank characters

Guards, actions and action arguments are trimmed of blanks. A character is blank when Unicode
gives it the property *White_Space* or when it is one of the four information separators
U+001C to U+001F: 29 characters in all. The zero-width space U+200B and the byte order mark
U+FEFF are not blank.

Main statement: `trimList_trimList`, trimming twice is trimming once.
-/

namespace Statechart.Text

/-- The 29 blank characters. -/
def isBlank (c : Char) : Bool :=
  let n := c.toNat
  (9 ≤ n && n ≤ 13) || (28 ≤ n && n ≤ 32) || n == 0x85 || n == 0xA0 || n == 0x1680 ||
    (0x2000 ≤ n && n ≤ 0x200A) || n == 0x2028 || n == 0x2029 || n == 0x202F || n == 0x205F ||
    n == 0x3000

/-- The text without the characters of the class at its end. -/
def dropEndWhile (p : Char → Bool) (cs : List Char) : List Char :=
  (cs.reverse.dropWhile p).reverse

/-- The text without the characters of the class at its two ends. -/
def trimWhile (p : Char → Bool) (cs : List Char) : List Char :=
  dropEndWhile p (cs.dropWhile p)

/-- The text without the blanks at its two ends. -/
def trimList (cs : List Char) : List Char :=
  trimWhile isBlank cs

/-- The text without the blanks at its two ends. -/
def trim (s : String) : String :=
  String.ofList (trimList s.toList)

/-! ## Trimming is idempotent -/

theorem dropWhile_eq_self_of_head {p : Char → Bool} {cs : List Char}
    (h : ∀ c ∈ cs.head?, p c = false) : cs.dropWhile p = cs := by
  cases cs with
  | nil => rfl
  | cons c r => simp [h c (by simp)]

theorem head?_dropWhile_false (p : Char → Bool) (cs : List Char) :
    ∀ c ∈ (cs.dropWhile p).head?, p c = false := by
  induction cs with
  | nil => simp
  | cons c r ih =>
    by_cases h : p c = true
    · simpa [List.dropWhile_cons, h] using ih
    · intro d hd
      simp [h] at hd
      subst hd
      simpa using h

theorem dropEndWhile_dropEndWhile (p : Char → Bool) (cs : List Char) :
    dropEndWhile p (dropEndWhile p cs) = dropEndWhile p cs := by
  unfold dropEndWhile
  rw [List.reverse_reverse, dropWhile_eq_self_of_head (head?_dropWhile_false p _)]

theorem exists_append_dropEndWhile (p : Char → Bool) (cs : List Char) :
    ∃ t, cs = dropEndWhile p cs ++ t := by
  refine ⟨(cs.reverse.takeWhile p).reverse, ?_⟩
  unfold dropEndWhile
  rw [← List.reverse_append, List.takeWhile_append_dropWhile, List.reverse_reverse]

theorem trimWhile_trimWhile (p : Char → Bool) (cs : List Char) :
    trimWhile p (trimWhile p cs) = trimWhile p cs := by
  unfold trimWhile
  generalize hd : cs.dropWhile p = ds
  have hhead : ∀ c ∈ ds.head?, p c = false := hd ▸ head?_dropWhile_false p cs
  obtain ⟨t, ht⟩ := exists_append_dropEndWhile p ds
  have hkeep : (dropEndWhile p ds).dropWhile p = dropEndWhile p ds := by
    apply dropWhile_eq_self_of_head
    intro c hc
    apply hhead c
    rw [ht]
    cases h : dropEndWhile p ds with
    | nil => simp [h] at hc
    | cons a r => simpa [h] using hc
  rw [hkeep, dropEndWhile_dropEndWhile]

theorem trimList_trimList (cs : List Char) : trimList (trimList cs) = trimList cs :=
  trimWhile_trimWhile isBlank cs

end Statechart.Text
