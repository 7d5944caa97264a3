import Statechart.Model.Declaration

/-!
# Cycles of transient arrows

An arrow that is followed within one step, a branch of a choice or a completion transition, must
not lead around a circle. The circles are looked for by a depth-first search over these arrows
(`Search`): the trail holds the nodes on the way to the present one, each with the successors
still to be tried, and an arrow back into the trail closes a circle.

The search tries sources in the order of their first arrow and successors in the order of the
arrows. Of circles through the same nodes only the first is reported.
-/

namespace Statechart.Validation

/-- Arrows, each from its first to its second node. -/
abbrev Arrows := List (String × String)

namespace Arrows

/-- The nodes that arrows from a node lead to. -/
def successors (g : Arrows) (n : String) : List String :=
  (g.filter (·.1 == n)).map (·.2)

/-- The nodes that arrows leave, each once. -/
def sources (g : Arrows) : List String := (g.map (·.1)).eraseDups

/-- The nodes at either end of an arrow, each once. -/
def nodes (g : Arrows) : List String := (g.flatMap fun e => [e.1, e.2]).eraseDups

end Arrows

/-- A depth-first search: the trail, innermost node first, the nodes not yet met, and the
circles closed so far. -/
structure Search where
  trail : List (String × List String)
  unseen : List String
  cycles : List (List String)

namespace Search

/-- The work left on the trail: its successors and its nodes. -/
def work : List (String × List String) → Nat
  | [] => 0
  | f :: fs => f.2.length + 1 + work fs

/-- The circle that an arrow from the innermost node of a trail back to `n` closes. -/
def circle (trail : List (String × List String)) (n : String) : List String :=
  n :: ((trail.map (·.1)).takeWhile (· != n)).reverse ++ [n]

/-- Follows the arrows from the trail until it is used up. -/
def explore (g : Arrows) (s : Search) : Search :=
  match s with
  | ⟨[], unseen, cycles⟩ => ⟨[], unseen, cycles⟩
  | ⟨(_, []) :: rest, unseen, cycles⟩ => explore g ⟨rest, unseen, cycles⟩
  | ⟨(n, m :: ms) :: rest, unseen, cycles⟩ =>
    if m ∈ ((n, m :: ms) :: rest).map (·.1) then
      explore g ⟨(n, ms) :: rest, unseen, cycles ++ [circle ((n, ms) :: rest) m]⟩
    else if h : m ∈ unseen then
      have := List.length_erase_of_mem h
      have := List.length_pos_of_mem h
      explore g ⟨(m, g.successors m) :: (n, ms) :: rest, unseen.erase m, cycles⟩
    else explore g ⟨(n, ms) :: rest, unseen, cycles⟩
termination_by (s.unseen.length, work s.trail)
decreasing_by
  · exact Prod.Lex.right _ (by simp [work])
  · exact Prod.Lex.right _ (by simp [work])
  · exact Prod.Lex.left _ _ (by omega)
  · exact Prod.Lex.right _ (by simp [work])

/-- Explores from a node, unless it has been met. -/
def exploreFrom (g : Arrows) (s : Search) (n : String) : Search :=
  if n ∈ s.unseen then explore g ⟨[(n, g.successors n)], s.unseen.erase n, s.cycles⟩ else s

end Search

/-- Whether two circles go through the same nodes. -/
def sameNodes (c c' : List String) : Bool :=
  c.all (c'.contains ·) && c'.all (c.contains ·)

/-- The first circle of each set of nodes. -/
def firstOfNodes (cs : List (List String)) : List (List String) :=
  cs.foldl (fun kept c => if kept.any (sameNodes c) then kept else kept ++ [c]) []

/-- The circles of the arrows, as the search finds them, each set of nodes once. -/
def Arrows.cycles (g : Arrows) : List (List String) :=
  firstOfNodes (g.sources.foldl (Search.exploreFrom g) ⟨[], g.nodes, []⟩).cycles

end Statechart.Validation
