import Mathlib.Data.List.Chain
import Mathlib.Logic.Relation
import Statechart.Validation.Cycles

/-!
# The search for circles is exact

The depth-first search over transient arrows (`Search.explore`) is taken apart into two
invariants.

* `Search.Sound`: the trail is a way along the arrows, and every circle recorded so far is one.
  So whatever `Arrows.cycles` lists is a circle of the arrows (`isCircle_of_mem_cycles`).
* `Search.Explored`: the nodes the search has done with lie on no closed way, and all that can
  be reached from them is done with. This holds of the arrows that have closed no circle
  (`Arrows.unclosed`), because none of these that has been tried leads back to the trail.

So without the arrows that close the circles found, no way leads from a node back to it
(`acyclic_unclosed`).

Main statement: `cycles_eq_nil_iff`, the search finds no circle exactly if no way along the
arrows leads from a node back to it.
-/

namespace Statechart.Validation

open Relation

/-! ## Arrows and circles -/

namespace Arrows

/-- An arrow leads from the first node to the second. -/
def Leads (g : Arrows) (a b : String) : Prop := (a, b) ∈ g

/-- No way along the arrows leads from a node back to it. -/
def Acyclic (g : Arrows) : Prop := ∀ n, ¬ TransGen g.Leads n n

/-- A closed way along the arrows, with its first node again at the end and none but that one
twice. -/
def IsCircle (g : Arrows) (c : List String) : Prop :=
  ∃ n ns, c = n :: ns ++ [n] ∧ (n :: ns).Nodup ∧ c.IsChain g.Leads

theorem mem_successors {g : Arrows} {a b : String} : b ∈ g.successors a ↔ g.Leads a b := by
  simp only [successors, List.mem_map, List.mem_filter, beq_iff_eq, Leads]
  constructor
  · rintro ⟨⟨x, y⟩, ⟨h, rfl⟩, rfl⟩
    exact h
  · intro h
    exact ⟨(a, b), ⟨h, rfl⟩, rfl⟩

theorem mem_sources_of_leads {g : Arrows} {a b : String} (h : g.Leads a b) : a ∈ g.sources :=
  List.mem_eraseDups.2 (List.mem_map.2 ⟨(a, b), h, rfl⟩)

theorem mem_nodes_of_leads {g : Arrows} {a b : String} (h : g.Leads a b) :
    a ∈ g.nodes ∧ b ∈ g.nodes := by
  simp only [nodes, List.mem_eraseDups, List.mem_flatMap]
  exact ⟨⟨(a, b), h, by simp⟩, ⟨(a, b), h, by simp⟩⟩

theorem nodes_subset (g : Arrows) {g' : Arrows} (h : g' ⊆ g) : g'.nodes ⊆ g.nodes := by
  intro n hn
  simp only [nodes, List.mem_eraseDups, List.mem_flatMap] at hn ⊢
  obtain ⟨e, he, hn⟩ := hn
  exact ⟨e, h he, hn⟩

/-! ### Closed ways -/

theorem transGen_of_isChain {r : String → String → Prop} {a b : String} {ns : List String}
    (h : (a :: ns ++ [b]).IsChain r) : TransGen r a b := by
  induction ns generalizing a with
  | nil => exact .single (by simpa using h)
  | cons n ns ih =>
    rw [List.cons_append, List.cons_append, List.isChain_cons_cons] at h
    exact .head h.1 (ih h.2)

theorem IsCircle.transGen {g : Arrows} {c : List String} (h : g.IsCircle c) :
    ∃ n, TransGen g.Leads n n := by
  obtain ⟨n, ns, rfl, -, hc⟩ := h
  exact ⟨n, transGen_of_isChain hc⟩

/-- From each node of a circle, arrows lead to each of its nodes. -/
theorem IsCircle.leads_around {g : Arrows} {c : List String} (h : g.IsCircle c) {a b : String}
    (ha : a ∈ c) (hb : b ∈ c) : TransGen g.Leads a b := by
  obtain ⟨n, ns, rfl, -, hc⟩ := h
  have hround : TransGen g.Leads n n := transGen_of_isChain hc
  have hto : ∀ k ∈ n :: ns, TransGen g.Leads k n :=
    List.IsChain.backwards_concat_induction _ _ hc (fun _ _ hlead hway => .head hlead hway) hround
  have hfrom : ∀ k ∈ ns ++ [n], TransGen g.Leads n k :=
    List.IsChain.cons_induction _ _ hc (fun _ _ hlead hway => .tail hway hlead) hround
  have hton : TransGen g.Leads a n := by
    rcases List.mem_append.1 ha with ha | ha
    · exact hto a ha
    · exact List.mem_singleton.1 ha ▸ hround
  rcases List.mem_cons.1 hb with rfl | hb
  · exact hton
  · exact hton.trans (hfrom b hb)

/-! ### Arrows that close circles -/

/-- The arrows that close none of the circles. A circle is closed by the arrow it ends with. -/
def unclosed (g : Arrows) (cs : List (List String)) : Arrows :=
  g.filter fun e => !cs.any fun c => [e.1, e.2].isSuffixOf c

theorem leads_unclosed {g : Arrows} {cs : List (List String)} {a b : String} :
    (g.unclosed cs).Leads a b ↔ g.Leads a b ∧ ∀ c ∈ cs, ¬ [a, b] <:+ c := by
  simp [Leads, unclosed, List.mem_filter]

theorem unclosed_nil (g : Arrows) : g.unclosed [] = g := by
  simp [unclosed]

theorem unclosed_append_subset (g : Arrows) (cs cs' : List (List String)) :
    g.unclosed (cs ++ cs') ⊆ g.unclosed cs := by
  rintro ⟨a, b⟩ h
  obtain ⟨hg, hcs⟩ := leads_unclosed.1 h
  exact leads_unclosed.2 ⟨hg, fun c hc => hcs c (List.mem_append_left _ hc)⟩

end Arrows

theorem nodup_eraseDups {α : Type} [BEq α] [LawfulBEq α] (xs : List α) :
    xs.eraseDups.Nodup := by
  induction h : xs.length using Nat.strongRecOn generalizing xs with
  | ind n ih =>
    cases xs with
    | nil => simp
    | cons x xs =>
      rw [List.eraseDups_cons, List.nodup_cons]
      have hle := List.length_filter_le (fun b => !b == x) xs
      refine ⟨?_, ih _ (by simp only [List.length_cons] at h; omega) _ rfl⟩
      simp [List.mem_eraseDups]

/-! ## Of circles with the same nodes one is kept -/

theorem subset_foldl_kept (cs kept : List (List String)) :
    kept ⊆ cs.foldl (fun kept c => if kept.any (sameNodes c) then kept else kept ++ [c]) kept := by
  induction cs generalizing kept with
  | nil => simp
  | cons c cs ih =>
    rw [List.foldl_cons]
    refine List.Subset.trans ?_ (ih _)
    split
    · exact List.Subset.refl _
    · exact List.subset_append_left _ _

theorem mem_of_mem_foldl_kept {cs kept : List (List String)} {c : List String}
    (h : c ∈ cs.foldl (fun kept c => if kept.any (sameNodes c) then kept else kept ++ [c]) kept) :
    c ∈ kept ∨ c ∈ cs := by
  induction cs generalizing kept with
  | nil => exact .inl h
  | cons d cs ih =>
    rw [List.foldl_cons] at h
    rcases ih h with h | h
    · split at h
      · exact .inl h
      · rcases List.mem_append.1 h with h | h
        · exact .inl h
        · exact .inr (List.mem_cons.2 (.inl (List.mem_singleton.1 h)))
    · exact .inr (List.mem_cons_of_mem _ h)

theorem sameNodes_iff {c c' : List String} : sameNodes c c' ↔ ∀ n, n ∈ c ↔ n ∈ c' := by
  simp only [sameNodes, Bool.and_eq_true, List.all_eq_true, List.contains_eq_mem,
    decide_eq_true_eq]
  exact ⟨fun h n => ⟨h.1 n, h.2 n⟩, fun h => ⟨fun n => (h n).1, fun n => (h n).2⟩⟩

theorem exists_sameNodes_foldl_kept {cs kept : List (List String)} {c : List String}
    (h : c ∈ cs) : ∃ c' ∈ cs.foldl
      (fun kept c => if kept.any (sameNodes c) then kept else kept ++ [c]) kept,
      sameNodes c c' := by
  induction cs generalizing kept with
  | nil => simp at h
  | cons d cs ih =>
    rw [List.foldl_cons]
    rcases List.mem_cons.1 h with rfl | h
    · split
      · rename_i hany
        obtain ⟨c', hc', hsame⟩ := List.any_eq_true.1 hany
        exact ⟨c', subset_foldl_kept cs _ hc', hsame⟩
      · exact ⟨c, subset_foldl_kept cs _ (by simp), sameNodes_iff.2 fun _ => Iff.rfl⟩
    · exact ih h

theorem pairwise_foldl_kept {cs kept : List (List String)}
    (h : kept.Pairwise fun c c' => ¬ sameNodes c' c) : (cs.foldl
      (fun kept c => if kept.any (sameNodes c) then kept else kept ++ [c]) kept).Pairwise
      fun c c' => ¬ sameNodes c' c := by
  induction cs generalizing kept with
  | nil => exact h
  | cons d cs ih =>
    rw [List.foldl_cons]
    refine ih ?_
    split
    · exact h
    · rename_i hany
      refine List.pairwise_append.2 ⟨h, List.pairwise_singleton _ _, fun c hc c' hc' hsame => ?_⟩
      rw [List.mem_singleton.1 hc'] at hsame
      exact hany (List.any_eq_true.2 ⟨c, hc, hsame⟩)

/-- Of each circle one with the same nodes is kept. -/
theorem exists_sameNodes_firstOfNodes {cs : List (List String)} {c : List String} (h : c ∈ cs) :
    ∃ c' ∈ firstOfNodes cs, ∀ n, n ∈ c ↔ n ∈ c' := by
  have hkept : ∃ c' ∈ firstOfNodes cs, sameNodes c c' := exists_sameNodes_foldl_kept h
  obtain ⟨c', hc', hsame⟩ := hkept
  exact ⟨c', hc', sameNodes_iff.1 hsame⟩

/-- No two circles that are kept have the same nodes. -/
theorem pairwise_firstOfNodes (cs : List (List String)) :
    (firstOfNodes cs).Pairwise fun c c' => ¬ ∀ n, n ∈ c ↔ n ∈ c' :=
  (pairwise_foldl_kept .nil).imp fun hne hsame =>
    hne (sameNodes_iff.2 fun n => (hsame n).symm)

theorem mem_of_mem_firstOfNodes {cs : List (List String)} {c : List String}
    (h : c ∈ firstOfNodes cs) : c ∈ cs := by
  simpa using mem_of_mem_foldl_kept h

theorem firstOfNodes_eq_nil_iff {cs : List (List String)} : firstOfNodes cs = [] ↔ cs = [] := by
  constructor
  · intro h
    cases cs with
    | nil => rfl
    | cons c cs =>
      have hc : c ∈ firstOfNodes (c :: cs) := subset_foldl_kept cs [c] (by simp)
      simp [h] at hc
  · rintro rfl
    rfl

namespace Search

/-! ## Steps of the search -/

/-- One step of an exploration. -/
inductive Step (g : Arrows) : Search → Search → Prop
  /-- All successors of the innermost node have been tried. -/
  | leave {n rest unseen cycles} : Step g ⟨(n, []) :: rest, unseen, cycles⟩ ⟨rest, unseen, cycles⟩
  /-- The arrow leads back to the trail. -/
  | close {n m ms rest unseen cycles} (hm : m ∈ ((n, m :: ms) :: rest).map (·.1)) :
    Step g ⟨(n, m :: ms) :: rest, unseen, cycles⟩
      ⟨(n, ms) :: rest, unseen, cycles ++ [circle ((n, ms) :: rest) m]⟩
  /-- The arrow leads to a node that has not been met. -/
  | enter {n m ms rest unseen cycles} (hm : m ∉ ((n, m :: ms) :: rest).map (·.1))
    (hu : m ∈ unseen) :
    Step g ⟨(n, m :: ms) :: rest, unseen, cycles⟩
      ⟨(m, g.successors m) :: (n, ms) :: rest, unseen.erase m, cycles⟩
  /-- The arrow leads to a node that is done with. -/
  | skip {n m ms rest unseen cycles} (hm : m ∉ ((n, m :: ms) :: rest).map (·.1))
    (hu : m ∉ unseen) :
    Step g ⟨(n, m :: ms) :: rest, unseen, cycles⟩ ⟨(n, ms) :: rest, unseen, cycles⟩

/-- An exploration is a run of steps that uses up the trail. -/
theorem explore_steps (g : Arrows) (s : Search) :
    ReflTransGen (Step g) s (explore g s) ∧ (explore g s).trail = [] := by
  induction s using explore.induct g with
  | case1 unseen cycles =>
    rw [explore]
    exact ⟨.refl, rfl⟩
  | case2 n rest unseen cycles ih =>
    rw [explore]
    exact ⟨.head .leave ih.1, ih.2⟩
  | case3 n m ms rest unseen cycles hm ih =>
    rw [explore, if_pos hm]
    exact ⟨.head (.close hm) ih.1, ih.2⟩
  | case4 n m ms rest unseen cycles hm hu _ _ ih =>
    rw [explore, if_neg hm, dif_pos hu]
    exact ⟨.head (.enter hm hu) ih.1, ih.2⟩
  | case5 n m ms rest unseen cycles hm hu ih =>
    rw [explore, if_neg hm, dif_neg hu]
    exact ⟨.head (.skip hm hu) ih.1, ih.2⟩

/-- What every step keeps, an exploration keeps. -/
theorem explore_keeps {g : Arrows} {P : Search → Prop} (hP : ∀ s s', Step g s s' → P s → P s')
    {s : Search} (h : P s) : P (explore g s) := by
  obtain ⟨hs, -⟩ := explore_steps g s
  generalize explore g s = t at hs
  induction hs with
  | refl => exact h
  | tail _ hstep ih => exact hP _ _ hstep ih

theorem unseen_explore_subset (g : Arrows) (s : Search) : (explore g s).unseen ⊆ s.unseen := by
  refine explore_keeps (P := fun t => t.unseen ⊆ s.unseen) ?_ (List.Subset.refl _)
  intro t t' hstep ht
  cases hstep with
  | enter hm hu => exact List.Subset.trans List.erase_subset ht
  | leave | close | skip => exact ht

/-! ## What is found is a circle -/

/-- A trail is a way along the arrows that meets no node twice, with successors left to try. -/
structure IsWay (g : Arrows) (trail : List (String × List String)) : Prop where
  nodup : (trail.map (·.1)).Nodup
  chain : (trail.map (·.1)).IsChain fun a b => g.Leads b a
  leads : ∀ f ∈ trail, ∀ m ∈ f.2, g.Leads f.1 m

/-- The trail is a way, and all that is recorded is a circle. -/
structure Sound (g : Arrows) (s : Search) : Prop where
  nodup : s.unseen.Nodup
  way : IsWay g s.trail
  circles : ∀ c ∈ s.cycles, g.IsCircle c

theorem IsWay.start (g : Arrows) (n : String) : IsWay g [(n, g.successors n)] where
  nodup := by simp
  chain := by simp
  leads := by
    intro f hf m hm
    obtain rfl := List.mem_singleton.1 hf
    exact Arrows.mem_successors.1 hm

theorem IsWay.drop {g : Arrows} {n : String} {ms : List String}
    {rest : List (String × List String)} (h : IsWay g ((n, ms) :: rest)) : IsWay g rest where
  nodup := (List.nodup_cons.1 h.nodup).2
  chain := (List.isChain_cons.1 h.chain).2
  leads := fun f hf => h.leads f (List.mem_cons_of_mem _ hf)

theorem IsWay.tried {g : Arrows} {n m : String} {ms : List String}
    {rest : List (String × List String)} (h : IsWay g ((n, m :: ms) :: rest)) :
    IsWay g ((n, ms) :: rest) where
  nodup := h.nodup
  chain := h.chain
  leads := by
    intro f hf k hk
    rcases List.mem_cons.1 hf with rfl | hf
    · exact h.leads (n, m :: ms) (by simp) k (List.mem_cons_of_mem _ hk)
    · exact h.leads f (List.mem_cons_of_mem _ hf) k hk

theorem IsWay.enter {g : Arrows} {n m : String} {ms : List String}
    {rest : List (String × List String)} (h : IsWay g ((n, m :: ms) :: rest))
    (hm : m ∉ ((n, m :: ms) :: rest).map (·.1)) :
    IsWay g ((m, g.successors m) :: (n, ms) :: rest) where
  nodup := List.nodup_cons.2 ⟨hm, h.nodup⟩
  chain := List.isChain_cons_cons.2 ⟨h.leads (n, m :: ms) (by simp) m (by simp), h.chain⟩
  leads := by
    intro f hf k hk
    rcases List.mem_cons.1 hf with rfl | hf
    · exact Arrows.mem_successors.1 hk
    · exact h.tried.leads f hf k hk

/-- An arrow from the innermost node of a way back to the way closes a circle. -/
theorem isCircle_circle {g : Arrows} {n m : String} {ms : List String}
    {rest : List (String × List String)} (h : IsWay g ((n, m :: ms) :: rest))
    (hm : m ∈ ((n, m :: ms) :: rest).map (·.1)) :
    g.IsCircle (circle ((n, ms) :: rest) m) := by
  have hnm : g.Leads n m := h.leads (n, m :: ms) (by simp) m (by simp)
  have hchain := h.chain
  have hnodup := h.nodup
  simp only [List.map_cons] at hm hchain hnodup
  -- the trail splits at `m`, and the circle runs through its inner part
  obtain ⟨inner, outer, hsplit⟩ := List.append_of_mem hm
  rw [hsplit] at hchain hnodup
  have hinner : m ∉ inner := fun hmem =>
    (List.nodup_append.1 hnodup).2.2 m hmem m (by simp) rfl
  have hcircle : circle ((n, ms) :: rest) m = m :: inner.reverse ++ [m] := by
    have htake : (inner ++ m :: outer).takeWhile (· != m) = inner := by
      rw [List.takeWhile_append_of_pos (fun a ha => by
        simpa using fun h : a = m => hinner (h ▸ ha)), List.takeWhile_cons_of_neg (by simp),
        List.append_nil]
    simp only [circle, List.map_cons, hsplit, htake]
  have hprefix : (inner ++ [m]).IsChain fun a b => g.Leads b a :=
    hchain.prefix ⟨outer, by simp⟩
  have hback : (m :: (inner ++ [m])).IsChain fun a b => g.Leads b a := by
    refine List.isChain_cons.2 ⟨?_, hprefix⟩
    intro a ha
    -- the inner part begins with the innermost node, unless that is `m` itself
    cases inner with
    | nil => simp_all
    | cons b inner => simp_all
  refine ⟨m, inner.reverse, hcircle, ?_, ?_⟩
  · have := (List.nodup_append.1 hnodup).1
    exact List.nodup_cons.2 ⟨by simpa using hinner, inner.reverse_perm.nodup_iff.2 this⟩
  · rw [hcircle, show m :: inner.reverse ++ [m] = (m :: (inner ++ [m])).reverse by simp,
      List.isChain_reverse]
    exact hback

theorem Sound.step {g : Arrows} {s s' : Search} (h : Step g s s') (hs : Sound g s) :
    Sound g s' := by
  cases h with
  | leave => exact ⟨hs.nodup, hs.way.drop, hs.circles⟩
  | close hm =>
    refine ⟨hs.nodup, hs.way.tried, ?_⟩
    intro c hc
    rcases List.mem_append.1 hc with hc | hc
    · exact hs.circles c hc
    · rw [List.mem_singleton.1 hc]
      exact isCircle_circle hs.way hm
  | enter hm _ => exact ⟨hs.nodup.erase _, hs.way.enter hm, hs.circles⟩
  | skip => exact ⟨hs.nodup, hs.way.tried, hs.circles⟩

theorem Sound.start {g : Arrows} {s : Search} (hs : Sound g s) (n : String) :
    Sound g ⟨[(n, g.successors n)], s.unseen.erase n, s.cycles⟩ :=
  ⟨hs.nodup.erase n, .start g n, hs.circles⟩

/-! ## What is done with lies on no circle -/

/-- A node of the graph is done with: it has been met, and has left the trail. -/
def Done (g : Arrows) (s : Search) (n : String) : Prop :=
  n ∈ g.nodes ∧ n ∉ s.unseen ∧ n ∉ s.trail.map (·.1)

/-- Every arrow from the trail is still to be tried, or leads to a node that has been met and
does not lie before it on the trail. -/
def Tried (g : Arrows) (unseen : List String) : List (String × List String) → Prop
  | [] => True
  | (n, ms) :: rest =>
    (∀ m, g.Leads n m → m ∈ ms ∨ m ∉ unseen ∧ m ∉ n :: rest.map (·.1)) ∧ Tried g unseen rest

/-- What holds of a search, of arrows that have closed no circle in it. -/
structure Explored (g : Arrows) (s : Search) : Prop where
  tried : Tried g s.unseen s.trail
  closed : ∀ n, Done g s n → ∀ m, g.Leads n m → Done g s m
  acyclic : ∀ n, Done g s n → ¬ TransGen g.Leads n n

theorem Tried.mono {g g' : Arrows} (hg : g' ⊆ g) {unseen unseen' : List String}
    (hu : unseen' ⊆ unseen) :
    ∀ {trail : List (String × List String)}, Tried g unseen trail → Tried g' unseen' trail
  | [], _ => trivial
  | (_, _) :: _, h =>
    ⟨fun m hm => (h.1 m (hg hm)).imp_right fun hm => ⟨fun hmem => hm.1 (hu hmem), hm.2⟩,
      Tried.mono hg hu h.2⟩

/-- Of fewer arrows it holds as well. -/
theorem Explored.anti {g g' : Arrows} {s : Search} (h : Explored g s) (hg : g' ⊆ g) :
    Explored g' s := by
  have hdone : ∀ n, Done g' s n → Done g s n := fun n hn => ⟨g.nodes_subset hg hn.1, hn.2⟩
  refine ⟨h.tried.mono hg (List.Subset.refl _), fun n hn m hm => ?_, fun n hn hway => ?_⟩
  · exact ⟨(Arrows.mem_nodes_of_leads hm).2, (h.closed n (hdone n hn) m (hg hm)).2⟩
  · exact h.acyclic n (hdone n hn) (TransGen.mono (fun _ _ hab => hg hab) n n hway)

/-- From a node that is done with, only such nodes are reached. -/
theorem Explored.done_of_reach {g : Arrows} {s : Search} (h : Explored g s) {a b : String}
    (hab : ReflTransGen g.Leads a b) (ha : Done g s a) : Done g s b := by
  induction hab with
  | refl => exact ha
  | tail _ hbc ih => exact h.closed _ ih _ hbc

/-- A node all of whose successors have been tried is done with. -/
theorem Explored.leave {g : Arrows} {n : String} {rest : List (String × List String)}
    {unseen : List String} {cycles : List (List String)}
    (h : Explored g ⟨(n, []) :: rest, unseen, cycles⟩) : Explored g ⟨rest, unseen, cycles⟩ := by
  have hsucc : ∀ m, g.Leads n m → Done g ⟨(n, []) :: rest, unseen, cycles⟩ m := by
    intro m hm
    rcases h.tried.1 m hm with hm' | ⟨hu, ht⟩
    · simp at hm'
    · exact ⟨(Arrows.mem_nodes_of_leads hm).2, hu, ht⟩
  have hout : ∀ m, Done g ⟨(n, []) :: rest, unseen, cycles⟩ m →
      Done g ⟨rest, unseen, cycles⟩ m := fun m hm =>
    ⟨hm.1, hm.2.1, fun hmem => hm.2.2 (List.mem_cons_of_mem _ hmem)⟩
  have hback : ∀ m, Done g ⟨rest, unseen, cycles⟩ m →
      m = n ∨ Done g ⟨(n, []) :: rest, unseen, cycles⟩ m := by
    intro m hm
    by_cases hmn : m = n
    · exact .inl hmn
    · exact .inr ⟨hm.1, hm.2.1, fun hmem => (List.mem_cons.1 hmem).elim hmn hm.2.2⟩
  refine ⟨h.tried.2, ?_, ?_⟩
  · intro m hm k hk
    rcases hback m hm with rfl | hm
    · exact hout k (hsucc k hk)
    · exact hout k (h.closed m hm k hk)
  · intro m hm
    rcases hback m hm with rfl | hm
    · -- a closed way from the node would pass it among nodes that are done with
      intro hcirc
      obtain ⟨k, hk, hkm⟩ := TransGen.head'_iff.1 hcirc
      exact (h.done_of_reach hkm (hsucc k hk)).2.2 (by simp)
    · exact h.acyclic m hm

/-- The circle that an arrow back to the trail closes ends with this arrow. -/
theorem suffix_circle (n m : String) (ms : List String) (rest : List (String × List String)) :
    [n, m] <:+ circle ((n, ms) :: rest) m := by
  by_cases hnm : n = m
  · subst hnm
    exact ⟨[], by simp [circle]⟩
  · exact ⟨m :: ((rest.map (·.1)).takeWhile (· != m)).reverse, by simp [circle, hnm]⟩

theorem Explored.step {g : Arrows} {s s' : Search} (h : Step g s s') (hn : s.unseen.Nodup)
    (hs : Explored (g.unclosed s.cycles) s) : Explored (g.unclosed s'.cycles) s' := by
  cases h with
  | leave => exact hs.leave
  | @close n m ms rest unseen cycles hm =>
    have hs := hs.anti (g.unclosed_append_subset cycles [circle ((n, ms) :: rest) m])
    refine ⟨⟨?_, hs.tried.2⟩, hs.closed, hs.acyclic⟩
    intro k hk
    rcases hs.tried.1 k hk with hk' | hk'
    · rcases List.mem_cons.1 hk' with rfl | hk'
      · exact absurd (suffix_circle n k ms rest) ((Arrows.leads_unclosed.1 hk).2 _ (by simp))
      · exact .inl hk'
    · exact .inr hk'
  | @enter n m ms rest unseen cycles hm hu =>
    have hdone : ∀ k, Done (g.unclosed cycles)
        ⟨(m, g.successors m) :: (n, ms) :: rest, unseen.erase m, cycles⟩ k ↔
        Done (g.unclosed cycles) ⟨(n, m :: ms) :: rest, unseen, cycles⟩ k := by
      intro k
      by_cases hkm : k = m
      · subst hkm
        simp [Done, hu]
      · simp [Done, hkm, List.mem_erase_of_ne hkm]
    have hout : m ∉ unseen.erase m := fun h => (hn.mem_erase_iff.1 h).1 rfl
    refine ⟨⟨?_, ?_, ?_⟩, ?_, ?_⟩
    · exact fun k hk => .inl (Arrows.mem_successors.2 (Arrows.leads_unclosed.1 hk).1)
    · intro k hk
      rcases hs.tried.1 k hk with hk | ⟨hku, hkt⟩
      · rcases List.mem_cons.1 hk with rfl | hk
        · exact .inr ⟨hout, hm⟩
        · exact .inl hk
      · exact .inr ⟨fun hmem => hku (List.mem_of_mem_erase hmem), hkt⟩
    · exact hs.tried.2.mono (List.Subset.refl _) List.erase_subset
    · exact fun k hk j hj => (hdone j).2 (hs.closed k ((hdone k).1 hk) j hj)
    · exact fun k hk => hs.acyclic k ((hdone k).1 hk)
  | @skip n m ms rest unseen cycles hm hu =>
    refine ⟨⟨?_, hs.tried.2⟩, hs.closed, hs.acyclic⟩
    intro k hk
    rcases hs.tried.1 k hk with hk | hk
    · rcases List.mem_cons.1 hk with rfl | hk
      · exact .inr ⟨hu, hm⟩
      · exact .inl hk
    · exact .inr hk

theorem Explored.start {g g' : Arrows} (hg : g' ⊆ g) {s : Search} {n : String}
    (hs : Explored g' s) (ht : s.trail = []) (hn : n ∈ s.unseen) :
    Explored g' ⟨[(n, g.successors n)], s.unseen.erase n, s.cycles⟩ := by
  have hdone : ∀ k, Done g' ⟨[(n, g.successors n)], s.unseen.erase n, s.cycles⟩ k ↔
      Done g' s k := by
    intro k
    by_cases hkn : k = n
    · subst hkn
      simp [Done, hn]
    · simp [Done, ht, hkn, List.mem_erase_of_ne hkn]
  refine ⟨⟨fun k hk => .inl (Arrows.mem_successors.2 (hg hk)), trivial⟩, ?_, ?_⟩
  · exact fun k hk j hj => (hdone j).2 (hs.closed k ((hdone k).1 hk) j hj)
  · exact fun k hk => hs.acyclic k ((hdone k).1 hk)

/-! ## From source to source -/

/-- What holds of a search between two explorations. -/
structure Rested (g : Arrows) (s : Search) : Prop where
  trail : s.trail = []
  sound : Sound g s
  explored : Explored (g.unclosed s.cycles) s

theorem Rested.start (g : Arrows) : Rested g ⟨[], g.nodes, []⟩ where
  trail := rfl
  sound := ⟨nodup_eraseDups _, ⟨by simp, by simp, by simp⟩, by simp⟩
  explored := by
    rw [g.unclosed_nil]
    have hnone : ∀ n, ¬ Done g ⟨[], g.nodes, []⟩ n := fun n hn => hn.2.1 hn.1
    exact ⟨trivial, fun n hn => absurd hn (hnone n), fun n hn => absurd hn (hnone n)⟩

theorem Rested.exploreFrom {g : Arrows} {s : Search} (hs : Rested g s) (n : String) :
    Rested g (exploreFrom g s n) := by
  unfold Search.exploreFrom
  split
  · rename_i hn
    have hkept := explore_keeps (g := g)
      (P := fun t => Sound g t ∧ Explored (g.unclosed t.cycles) t)
      (fun _ _ hstep ht => ⟨ht.1.step hstep, Explored.step hstep ht.1.nodup ht.2⟩)
      ⟨hs.sound.start n, hs.explored.start List.filter_sublist.subset hs.trail hn⟩
    exact ⟨(explore_steps g _).2, hkept.1, hkept.2⟩
  · exact hs

theorem unseen_exploreFrom {g : Arrows} {s : Search} (hs : Rested g s) (n : String) :
    (exploreFrom g s n).unseen ⊆ s.unseen ∧ n ∉ (exploreFrom g s n).unseen := by
  unfold exploreFrom
  split
  · have hsub := unseen_explore_subset g ⟨[(n, g.successors n)], s.unseen.erase n, s.cycles⟩
    exact ⟨List.Subset.trans hsub List.erase_subset,
      fun h => (hs.sound.nodup.mem_erase_iff.1 (hsub h)).1 rfl⟩
  · exact ⟨List.Subset.refl _, by assumption⟩

theorem Rested.foldl {g : Arrows} (ns : List String) {s : Search} (hs : Rested g s) :
    Rested g (ns.foldl (Search.exploreFrom g) s) ∧
      (ns.foldl (Search.exploreFrom g) s).unseen ⊆ s.unseen ∧
      ∀ n ∈ ns, n ∉ (ns.foldl (Search.exploreFrom g) s).unseen := by
  induction ns generalizing s with
  | nil => exact ⟨hs, List.Subset.refl _, by simp⟩
  | cons n ns ih =>
    obtain ⟨hrest, hsub, hseen⟩ := ih (hs.exploreFrom n)
    obtain ⟨hsub', hn⟩ := unseen_exploreFrom hs n
    refine ⟨hrest, List.Subset.trans hsub hsub', ?_⟩
    intro k hk
    rcases List.mem_cons.1 hk with rfl | hk
    · exact fun h => hn (hsub h)
    · exact hseen k hk

end Search

/-! ## The circles listed -/

/-- The circles that the search closes, one after the other. -/
def Arrows.found (g : Arrows) : List (List String) :=
  (g.sources.foldl (Search.exploreFrom g) ⟨[], g.nodes, []⟩).cycles

theorem isCircle_of_mem_found {g : Arrows} {c : List String} (h : c ∈ g.found) :
    g.IsCircle c :=
  ((Search.Rested.start g).foldl g.sources).1.sound.circles c h

/-- Whatever is listed is a circle of the arrows. -/
theorem isCircle_of_mem_cycles {g : Arrows} {c : List String} (h : c ∈ g.cycles) :
    g.IsCircle c :=
  isCircle_of_mem_found (mem_of_mem_firstOfNodes h)

/-- Without the arrows that close the circles found, no way leads from a node back to it. -/
theorem acyclic_unclosed (g : Arrows) : (g.unclosed g.found).Acyclic := by
  intro n hn
  obtain ⟨hrest, -, hseen⟩ := (Search.Rested.start g).foldl g.sources
  obtain ⟨m, hnm, -⟩ := TransGen.head'_iff.1 hn
  -- every source of an arrow has been explored, so the closed way runs among done nodes
  refine hrest.explored.acyclic n ⟨(Arrows.mem_nodes_of_leads hnm).1, ?_, ?_⟩ hn
  · exact hseen n (Arrows.mem_sources_of_leads (Arrows.leads_unclosed.1 hnm).1)
  · simp [hrest.trail]

/-- Of the arrows of a closed way, one closes a circle that is found. -/
theorem exists_closing_arrow {g : Arrows} {n : String} {ns : List String}
    (h : (n :: ns ++ [n]).IsChain g.Leads) :
    ∃ a b, [a, b] <:+: n :: ns ++ [n] ∧ ∃ c ∈ g.found, [a, b] <:+ c := by
  by_contra hnone
  suffices hopen : (n :: ns ++ [n]).IsChain (g.unclosed g.found).Leads from
    acyclic_unclosed g n (Arrows.transGen_of_isChain hopen)
  rw [List.isChain_iff_forall_rel_of_append_cons_cons] at h ⊢
  intro a b before after hsplit
  refine Arrows.leads_unclosed.2 ⟨h hsplit, fun c hc hends => hnone ⟨a, b, ?_, c, hc, hends⟩⟩
  exact ⟨before, after, by simp [hsplit]⟩

/-- **The search is exact**: it finds no circle exactly if there is none. -/
theorem cycles_eq_nil_iff (g : Arrows) : g.cycles = [] ↔ g.Acyclic := by
  constructor
  · intro h
    have hfound : g.found = [] := firstOfNodes_eq_nil_iff.1 h
    have hacyclic := acyclic_unclosed g
    rwa [hfound, g.unclosed_nil] at hacyclic
  · intro h
    refine List.eq_nil_iff_forall_not_mem.2 fun c hc => ?_
    obtain ⟨n, hn⟩ := (isCircle_of_mem_cycles hc).transGen
    exact h n hn

end Statechart.Validation
