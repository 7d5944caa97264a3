import Mathlib.Data.List.Nodup
import Mathlib.Data.List.Perm.Basic
import Statechart.Proofs.Validation.WellFormed

/-!
# Looking up parts

Parts of a definition are found by their identifiers. Where no two parts of a kind have the same
identifier, what is found is the part that is meant, wherever it stands: the order of the parts
does not matter (`map_find?_eq_of_perm`). In a well-formed machine, what is declared is found.
-/

namespace Statechart

variable {α β : Type} {key : α → String}

/-! ## Parts with distinct keys -/

theorem find?_eq_some_of_nodup {key : α → String} {xs : List α} (h : (xs.map key).Nodup) {x : α}
    (hx : x ∈ xs) : xs.find? (key · == key x) = some x := by
  induction xs with
  | nil => simp at hx
  | cons y ys ih =>
    rw [List.map_cons, List.nodup_cons] at h
    rcases List.mem_cons.1 hx with rfl | hx
    · simp
    · have hne : key y ≠ key x := fun he => h.1 (he ▸ List.mem_map_of_mem hx)
      rw [List.find?_cons_of_neg (by simpa using hne)]
      exact ih h.2 hx

theorem find?_eq_of_perm {xs ys : List α} (h : xs.Perm ys) (hys : (ys.map key).Nodup)
    (id : String) : xs.find? (key · == id) = ys.find? (key · == id) := by
  have hxs : (xs.map key).Nodup := (h.map key).nodup_iff.2 hys
  cases hy : ys.find? (key · == id) with
  | none =>
    rw [List.find?_eq_none] at hy ⊢
    exact fun x hx => hy x (h.subset hx)
  | some y =>
    have hmem : y ∈ xs := h.symm.subset (List.mem_of_find?_eq_some hy)
    obtain rfl : key y = id := by simpa using List.find?_some hy
    exact find?_eq_some_of_nodup hxs hmem

/-- Of parts that are the same in another order when they are seen through `f`, what is found is
the same when it is seen through `f`. -/
theorem map_find?_eq_of_perm (f : α → α) (hf : ∀ a, key (f a) = key a) {xs ys : List α}
    (h : (xs.map f).Perm (ys.map f)) (hys : (ys.map key).Nodup) (id : String) :
    (xs.find? (key · == id)).map f = (ys.find? (key · == id)).map f := by
  have hseen : ∀ zs : List α, (zs.find? (key · == id)).map f = (zs.map f).find? (key · == id) := by
    intro zs
    rw [List.find?_map]
    simp only [Function.comp_def, hf]
  have hkeys : ((ys.map f).map key).Nodup := by
    rw [List.map_map]
    simpa only [Function.comp_def, hf] using hys
  rw [hseen, hseen, find?_eq_of_perm h hkeys]

/-! ## What well-formed machines declare -/

namespace Definition

variable {m : Definition}

theorem exists_state?_of_mem {id : String} (h : id ∈ m.declaration.stateIds) :
    ∃ s ∈ m.states, m.state? id = some s := by
  obtain ⟨s, hs, rfl⟩ := List.mem_map.1 h
  have hsome : (m.state? s.id).isSome := List.find?_isSome.2 ⟨s, hs, beq_self_eq_true s.id⟩
  obtain ⟨s', hs'⟩ := Option.isSome_iff_exists.1 hsome
  exact ⟨s', List.mem_of_find?_eq_some hs', hs'⟩

theorem mem_stateIds_of_choice?_eq_none {id : String} (h : id ∈ m.declaration.nodeIds)
    (hc : m.choice? id = none) : id ∈ m.declaration.stateIds := by
  refine (List.mem_append.1 h).resolve_right fun hid => ?_
  obtain ⟨c, hc', rfl⟩ := List.mem_map.1 hid
  simpa using List.find?_eq_none.1 hc c hc'

theorem isSome_timer?_of_mem {id : String} (h : id ∈ m.declaration.timerIds) :
    (m.timer? id).isSome := by
  obtain ⟨t, ht, rfl⟩ := List.mem_map.1 h
  exact List.find?_isSome.2 ⟨t, ht, beq_self_eq_true t.id⟩

/-- A choice of a well-formed machine can be left. -/
theorem exists_default (hm : m.declaration.WellFormed) {c : Choice} (hc : c ∈ m.choices) :
    ∃ b ∈ c.branches, c.default? = some b := by
  have hpos : 0 < c.branches.countP (·.isDefault) := by
    rw [hm.default_one c hc]
    decide
  have hsome : c.default?.isSome := List.find?_isSome.2 (List.countP_pos_iff.1 hpos)
  obtain ⟨b, hb⟩ := Option.isSome_iff_exists.1 hsome
  exact ⟨b, List.mem_of_find?_eq_some hb, hb⟩

end Definition

end Statechart
