import Mathlib
import Statechart.Proofs.Validation.WellFormed

/-!
# The circles that are reported

Each circle that a check reports is one of the declaration, and of circles through the same nodes
one is reported: `reported_circles_genuine`.

Not every circle is reported. Of the arrows of a circle, one leads back to the trail of the search
(`exists_closing_arrow`), but the circle that it closes there may take another way from the end of
the arrow to its beginning. So a circle of choices may be masked by one that passes a node that is
no choice, and by no other: `choice_circle_reported_or_masked`.
-/

namespace Statechart

open Relation

namespace Declaration

/-- A branch of a choice leads from the first node to the second, which is a choice as well. -/
def Turns (d : Declaration) (a b : String) : Prop :=
  (∃ c ∈ d.choices, c.id = a ∧ ∃ br ∈ c.branches, br.target = b) ∧ b ∈ d.choiceIds

/-- A way along branches from choice to choice, with its first choice again at the end. -/
def IsChoiceCircle (d : Declaration) (c : List String) : Prop :=
  ∃ n ns, c = n :: ns ++ [n] ∧ c.IsChain d.Turns

end Declaration

namespace Validation

/-! ## Flaws that report circles -/

/-- The flaw that reports a circle. -/
def circleFlaw (d : Declaration) (nodes : List String) : Flaw :=
  if nodes.all (d.choiceIds.contains ·) then .choiceCycle nodes else .completionCycle nodes

theorem circle?_circleFlaw (d : Declaration) (nodes : List String) :
    (circleFlaw d nodes).circle? = some nodes := by
  unfold circleFlaw
  split <;> rfl

theorem code_circleFlaw_iff (d : Declaration) (nodes : List String) :
    (circleFlaw d nodes).code = "choice-cycle" ↔ ∀ n ∈ nodes, n ∈ d.choiceIds := by
  unfold circleFlaw
  split
  · rename_i h
    simpa [Flaw.code] using h
  · rename_i h
    simpa [Flaw.code] using h

theorem message_circleFlaw (d : Declaration) (nodes : List String) :
    (circleFlaw d nodes).message = .ok ((if (circleFlaw d nodes).code = "choice-cycle"
      then "choice cycle " else "cycle through completion transitions/choices ") ++
        " -> ".intercalate nodes) := by
  unfold circleFlaw
  split
  · have hcode : (Flaw.choiceCycle nodes).code = "choice-cycle" := rfl
    rw [if_pos hcode]
    rfl
  · have hcode : (Flaw.completionCycle nodes).code ≠ "choice-cycle" := by simp [Flaw.code]
    rw [if_neg hcode]
    rfl

/-- Only the check for circles reports circles. -/
theorem exists_errors_eq_cycleFlaws (d : Declaration) : ∃ before after,
    errors d = before ++ cycleFlaws d ++ after ∧
      (∀ f ∈ before, f.cause.circle? = none) ∧ ∀ f ∈ after, f.cause.circle? = none := by
  obtain ⟨before, herrors, hbefore, hcommands⟩ := exists_errors_eq d
  refine ⟨before, durationFlaws d ++ commandFlaws d, by rw [herrors, List.append_assoc],
    fun f hf => (hbefore f hf).1, fun f hf => ?_⟩
  rcases List.mem_append.1 hf with hf | hf
  · obtain ⟨t, -, rfl⟩ := List.mem_map.1 hf
    rfl
  · exact (hcommands f hf).1

/-- The circles that are reported are those that the search finds, in the same order. -/
theorem filterMap_circle?_errors (d : Declaration) :
    (errors d).filterMap (·.cause.circle?) = d.transientArrows.cycles := by
  obtain ⟨before, after, herrors, hbefore, hafter⟩ := exists_errors_eq_cycleFlaws d
  have hcycles : (cycleFlaws d).filterMap (·.cause.circle?) = d.transientArrows.cycles := by
    rw [cycleFlaws, List.filterMap_map]
    exact (List.filterMap_congr fun nodes _ => circle?_circleFlaw d nodes).trans List.filterMap_some
  rw [herrors, List.filterMap_append, List.filterMap_append, hcycles,
    List.filterMap_eq_nil_iff.2 hbefore, List.filterMap_eq_nil_iff.2 hafter, List.nil_append,
    List.append_nil]

/-- An error that reports a circle is the flaw of one that the search finds. -/
theorem cause_of_circle? {d : Declaration} {f : Located Flaw} (hf : f ∈ errors d)
    {nodes : List String} (hc : f.cause.circle? = some nodes) :
    f.cause = circleFlaw d nodes ∧ nodes ∈ d.transientArrows.cycles := by
  obtain ⟨before, after, herrors, hbefore, hafter⟩ := exists_errors_eq_cycleFlaws d
  rw [herrors, List.append_assoc, List.mem_append, List.mem_append] at hf
  rcases hf with hf | hf | hf
  · simp [hbefore f hf] at hc
  · obtain ⟨found, hfound, rfl⟩ := List.mem_map.1 hf
    obtain rfl : found = nodes := by
      simpa using (circle?_circleFlaw d found).symm.trans hc
    exact ⟨rfl, hfound⟩
  · simp [hafter f hf] at hc

/-! ## Circles of a declaration -/

/-- The nodes on a circle of transient arrows are declared. -/
theorem mem_nodeIds_of_mem_circle {d : Declaration} {n : String} {ns : List String}
    (h : (n :: ns ++ [n]).IsChain d.transientArrows.Leads) : ∀ k ∈ n :: ns, k ∈ d.nodeIds := by
  refine List.IsChain.backwards_concat_induction _ _ h
    (fun a b hab _ => (leads_transientArrows.1 hab).2.1) ?_
  obtain ⟨k, hk, -⟩ := TransGen.head'_iff.1 (Arrows.transGen_of_isChain h)
  exact (leads_transientArrows.1 hk).2.1

/-- **The circles reported are genuine**: an error with one of the codes for circles shows a way
along branches and completion transitions from a node around to it, with no node twice but this
one, between nodes that are declared. The code is the one for circles of choices exactly if all
nodes are choices. No two circles that are reported have the same nodes. A report shows the errors
one by one, each under its code and in its words. -/
theorem reported_circles_genuine (d : Declaration) :
    (∀ f ∈ (check d).errors, f.cause.code = "choice-cycle" ∨ f.cause.code = "completion-cycle" →
      ∃ n ns, f.cause.circle? = some (n :: ns ++ [n]) ∧
        f.cause.message = .ok ((if f.cause.code = "choice-cycle" then "choice cycle "
          else "cycle through completion transitions/choices ") ++
            " -> ".intercalate (n :: ns ++ [n])) ∧
        (n :: ns).Nodup ∧ (∀ k ∈ n :: ns, k ∈ d.nodeIds) ∧ (n :: ns ++ [n]).IsChain d.Leads ∧
        (f.cause.code = "choice-cycle" ↔ ∀ k ∈ n :: ns, k ∈ d.choiceIds)) ∧
      ((check d).errors.filterMap (·.cause.circle?)).Pairwise
        (fun c c' => ¬ ∀ n, n ∈ c ↔ n ∈ c') ∧
      ∀ r, validate d = .ok r →
        List.Forall₂ (fun f i => f.error = .ok i) (check d).errors r.errors := by
  refine ⟨fun f hf hcode => ?_, ?_, fun r hr => ((validate_reports d).2.2 r hr).2.1⟩
  · obtain ⟨nodes, hcircle⟩ :=
      Option.isSome_iff_exists.1 ((Flaw.isSome_circle?_iff f.cause).2 hcode)
    obtain ⟨hcause, hnodes⟩ := cause_of_circle? hf hcircle
    obtain ⟨n, ns, rfl, hnodup, hway⟩ := isCircle_of_mem_cycles hnodes
    refine ⟨n, ns, hcircle, ?_, hnodup, mem_nodeIds_of_mem_circle hway,
      hway.imp fun _ _ hab => (leads_transientArrows.1 hab).1, ?_⟩
    · rw [hcause]
      exact message_circleFlaw d _
    · have hiff := code_circleFlaw_iff d (n :: ns ++ [n])
      have hsame : ∀ k, k ∈ n :: ns ++ [n] ↔ k ∈ n :: ns := by
        simp [or_comm]
      simpa only [hcause, hsame] using hiff
  · have hcircles : (check d).errors.filterMap (·.cause.circle?) = d.transientArrows.cycles :=
      filterMap_circle?_errors d
    rw [hcircles]
    exact pairwise_firstOfNodes _

/-! ## Circles of choices -/

theorem leads_of_turns {d : Declaration} {a b : String} (h : d.Turns a b) :
    d.transientArrows.Leads a b := by
  obtain ⟨⟨c, hc, ha, hbranch⟩, hb⟩ := h
  refine leads_transientArrows.2 ⟨.inl ⟨c, hc, ha, hbranch⟩, ?_, List.mem_append_right _ hb⟩
  exact List.mem_append_right _ (List.mem_map.2 ⟨c, hc, ha⟩)

/-- Of the arrows of a closed way, one has both ends on a circle that is reported. -/
theorem exists_reported_of_isChain {d : Declaration} {n : String} {ns : List String}
    (h : (n :: ns ++ [n]).IsChain d.transientArrows.Leads) :
    ∃ a b, [a, b] <:+: n :: ns ++ [n] ∧
      ∃ c ∈ d.transientArrows.cycles, a ∈ c ∧ b ∈ c := by
  obtain ⟨a, b, hab, c, hc, hends⟩ := exists_closing_arrow h
  obtain ⟨c', hc', hsame⟩ := exists_sameNodes_firstOfNodes hc
  exact ⟨a, b, hab, c', hc', (hsame a).1 (hends.subset (by simp)),
    (hsame b).1 (hends.subset (by simp))⟩

theorem exists_issue_of_report {d : Declaration} {r : Report} (hr : validate d = .ok r)
    {f : Located Flaw} (hf : f ∈ (check d).errors) {code : String} (hcode : f.cause.code = code) :
    ∃ i ∈ r.errors, i.code = code := by
  obtain ⟨i, hi, hshows⟩ := exists_of_mem_of_forall₂ ((validate_reports d).2.2 r hr).2.1 hf
  obtain ⟨message, -, hshows⟩ := exists_of_bind_eq_ok hshows
  cases hshows
  exact ⟨_, hi, hcode⟩

/-- **A circle of choices is reported or masked**: of the branches of such a circle, one has both
ends on a circle that is reported, as a circle of choices or as one that passes a node that is no
choice. So if no arrows lead from the circle to such a node and back, a circle of choices is
reported, and stands in the report if there is one. -/
theorem choice_circle_reported_or_masked {d : Declaration} {c : List String}
    (hc : d.IsChoiceCircle c) :
    (∃ a b, [a, b] <:+: c ∧ ∃ f ∈ (check d).errors, ∃ nodes, f.cause.circle? = some nodes ∧
      a ∈ nodes ∧ b ∈ nodes ∧ (f.cause.code = "choice-cycle" ∨
        f.cause.code = "completion-cycle" ∧ ∃ k ∈ nodes, k ∉ d.choiceIds)) ∧
      ((∀ a ∈ c, ∀ k, k ∉ d.choiceIds → TransGen d.Leads a k → ¬ TransGen d.Leads k a) →
        (∃ f ∈ (check d).errors, f.cause.code = "choice-cycle") ∧
          ∀ r, validate d = .ok r → ∃ i ∈ r.errors, i.code = "choice-cycle") := by
  obtain ⟨n, ns, rfl, hturns⟩ := hc
  obtain ⟨a, b, hab, nodes, hnodes, ha, hb⟩ :=
    exists_reported_of_isChain (hturns.imp fun _ _ => leads_of_turns)
  rw [← filterMap_circle?_errors d] at hnodes
  obtain ⟨f, hf, hcircle⟩ := List.mem_filterMap.1 hnodes
  obtain ⟨hcause, hnodes⟩ := cause_of_circle? hf hcircle
  have hcode : f.cause.code = "choice-cycle" ∨
      f.cause.code = "completion-cycle" ∧ ∃ k ∈ nodes, k ∉ d.choiceIds := by
    by_cases hchoices : ∀ k ∈ nodes, k ∈ d.choiceIds
    · refine .inl ?_
      rw [hcause]
      exact (code_circleFlaw_iff d nodes).2 hchoices
    · have hother : f.cause.code ≠ "choice-cycle" := by
        rw [hcause]
        exact fun h => hchoices ((code_circleFlaw_iff d nodes).1 h)
      have hcodes := (Flaw.isSome_circle?_iff f.cause).1 (by rw [hcircle]; rfl)
      exact .inr ⟨hcodes.resolve_left hother, by simpa using hchoices⟩
  refine ⟨⟨a, b, hab, f, hf, nodes, hcircle, ha, hb, hcode⟩, fun hapart => ?_⟩
  rcases hcode with hchoice | ⟨-, k, hk, hnot⟩
  · exact ⟨⟨f, hf, hchoice⟩, fun r hr => exists_issue_of_report hr hf hchoice⟩
  · have hround := isCircle_of_mem_cycles hnodes
    have hleads : ∀ x y, TransGen d.transientArrows.Leads x y → TransGen d.Leads x y :=
      TransGen.mono fun _ _ h => (leads_transientArrows.1 h).1
    exact absurd (hleads _ _ (hround.leads_around hk ha))
      (hapart a (hab.subset (by simp)) k hnot (hleads _ _ (hround.leads_around ha hk)))

end Validation

/-! ## A depot and a pair of scales -/

namespace Depot

/-- A depot that may measure and weigh an item for ever, and may move it between its ramp and its
dock for ever. -/
def declaration : Declaration where
  name := "depot"
  initial := [⟨"belt", none⟩]
  states := [⟨"belt", none, [], [], none⟩, ⟨"ramp", none, [], [], none⟩,
    ⟨"dock", none, [], [], none⟩]
  choices := [⟨"size", [⟨some "large", "weight", [], none⟩, ⟨none, "ramp", [], none⟩], none⟩,
    ⟨"weight", [⟨some "heavy", "size", [], none⟩, ⟨none, "belt", [], none⟩], none⟩]
  transitions := [⟨"belt", "size", some "item", none, [], none⟩,
    ⟨"ramp", "dock", none, none, [], none⟩, ⟨"dock", "ramp", none, some "full", [], none⟩]
  timers := []
  span := none

theorem errors_eq : Validation.errors declaration =
    [⟨.choiceCycle ["size", "weight", "size"], none⟩,
      ⟨.completionCycle ["ramp", "dock", "ramp"], none⟩] := by
  cbv

/-- The circle between ramp and dock is genuine, and reported as one that passes states. -/
theorem depot_circles_genuine :
    ∃ n ns, ["ramp", "dock", "ramp"] = n :: ns ++ [n] ∧ (n :: ns).Nodup ∧
      (∀ k ∈ n :: ns, k ∈ declaration.nodeIds) ∧ (n :: ns ++ [n]).IsChain declaration.Leads ∧
      ¬ ∀ k ∈ n :: ns, k ∈ declaration.choiceIds := by
  have hmem : ⟨.completionCycle ["ramp", "dock", "ramp"], none⟩ ∈
      (Validation.check declaration).errors := by
    show _ ∈ Validation.errors declaration
    simp [errors_eq]
  obtain ⟨n, ns, hcircle, -, hnodup, hdeclared, hway, hcode⟩ :=
    (Validation.reported_circles_genuine declaration).1 _ hmem (.inr rfl)
  refine ⟨n, ns, Option.some_inj.1 hcircle, hnodup, hdeclared, hway, fun hchoices => ?_⟩
  exact absurd (hcode.2 hchoices) (by simp [Validation.Flaw.code])

/-- The branches from size to weight and back. -/
theorem isChoiceCircle : declaration.IsChoiceCircle ["size", "weight", "size"] :=
  ⟨"size", ["weight"], rfl, by simp [Declaration.Turns, Declaration.choiceIds, declaration]⟩

/-- From ramp and dock no arrow leads to a choice. -/
theorem notMem_choiceIds_of_leads {a b : String} (h : TransGen declaration.Leads a b)
    (ha : a ∉ declaration.choiceIds) : b ∉ declaration.choiceIds := by
  have hstep : ∀ x y, declaration.Leads x y → x ∉ declaration.choiceIds →
      y ∉ declaration.choiceIds := by
    rintro x y (⟨c, hc, rfl, -⟩ | ⟨t, ht, hcompletion, -, rfl⟩) hx
    · exact absurd (List.mem_map_of_mem hc) hx
    · revert t
      decide
  induction h with
  | single hab => exact hstep _ _ hab ha
  | tail _ hbc ih => exact hstep _ _ hbc ih

/-- As nothing leads back from ramp and dock, the circle of size and weight is not masked. -/
theorem depot_choice_circle_reported :
    ∃ f ∈ (Validation.check declaration).errors, f.cause.code = "choice-cycle" := by
  have hchoices : ∀ a ∈ ["size", "weight", "size"], a ∈ declaration.choiceIds := by decide
  have hapart := (Validation.choice_circle_reported_or_masked isChoiceCircle).2
    fun a ha k hk _ hback => notMem_choiceIds_of_leads hback hk (hchoices a ha)
  exact hapart.1

end Depot

namespace Scales

/-- Scales that weigh again as long as they are unsteady, after they have settled or at once. -/
def declaration : Declaration where
  name := "scales"
  initial := [⟨"empty", none⟩]
  states := [⟨"empty", none, [], [], none⟩, ⟨"settling", none, [], [], none⟩]
  choices := [⟨"weigh", [⟨some "shaken", "settling", [], none⟩, ⟨none, "compare", [], none⟩], none⟩,
    ⟨"compare", [⟨some "unsteady", "weigh", [], none⟩, ⟨none, "empty", [], none⟩], none⟩]
  transitions := [⟨"empty", "weigh", some "load", none, [], none⟩,
    ⟨"settling", "compare", none, none, [], none⟩]
  timers := []
  span := none

/-- The two choices of the scales make up a circle that is not reported: the search comes to the
second one through a state, and when it has tried all that leaves the second one, it is done with
it. -/
theorem scales_choice_circle_masked :
    declaration.IsChoiceCircle ["weigh", "compare", "weigh"] ∧
      ¬ ∃ f ∈ (Validation.check declaration).errors, f.cause.code = "choice-cycle" := by
  have herrors : Validation.errors declaration =
      [⟨.completionCycle ["weigh", "settling", "compare", "weigh"], none⟩] := by
    cbv
  refine ⟨⟨"weigh", ["compare"], rfl, ?_⟩, ?_⟩
  · simp [Declaration.Turns, Declaration.choiceIds, declaration]
  · show ¬ ∃ f ∈ Validation.errors declaration, f.cause.code = "choice-cycle"
    simp [herrors, Validation.Flaw.code]

end Scales

end Statechart
