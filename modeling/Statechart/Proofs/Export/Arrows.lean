import Mathlib
import Statechart.Proofs.Export.Closure

/-!
# The arrows of graphs and documents

What a document says of an arrow is read off its transition element: where it starts and leads to,
its event, its condition, and what is done on the way (`ShownArrow`). The document of an accepted
machine shows the transitions that leave states, in their order for each state, and the branches of
choices, each once and with all that belongs to it (`Xml.Shows`).

It does not show transitions that leave choices. An accepted machine may have such transitions, and
its graph shows them, so the two have the same arrows exactly if there are none.

Main statement: `document_shows_arrows`.
-/

namespace Statechart

/-- Picking elements key by key is picking those whose key is among the keys. -/
theorem perm_flatMap_filter {α : Type} (key : α → String) {ids : List String} (h : ids.Nodup)
    (xs : List α) :
    (ids.flatMap fun id => xs.filter (key · == id)).Perm (xs.filter (key · ∈ ids)) := by
  induction ids with
  | nil => simp
  | cons id ids ih =>
    obtain ⟨hid, hids⟩ := List.nodup_cons.1 h
    have hfirst : (xs.filter (key · ∈ id :: ids)).filter (key · == id) =
        xs.filter (key · == id) := by
      rw [List.filter_filter]
      refine List.filter_congr fun x _ => ?_
      by_cases hx : key x = id <;> simp [hx]
    have hothers : (xs.filter (key · ∈ id :: ids)).filter (fun x => !(key x == id)) =
        xs.filter (key · ∈ ids) := by
      rw [List.filter_filter]
      refine List.filter_congr fun x _ => ?_
      by_cases hx : key x = id
      · simp [hx, hid]
      · simp [hx]
    have hsplit := List.filter_append_perm (key · == id) (xs.filter (key · ∈ id :: ids))
    rw [hfirst, hothers] at hsplit
    rw [List.flatMap_cons]
    exact ((ih hids).append_left _).trans hsplit

theorem Definition.isChoice_iff (m : Definition) (id : String) :
    m.isChoice id ↔ id ∈ m.declaration.choiceIds := by
  simp [isChoice, choice?, Declaration.choiceIds, declaration]

namespace Export

/-! ## Arrows as documents show them -/

/-- What a document has to say of an action: a script, or what is sent or cancelled. -/
inductive ShownAction
  | script (text : String)
  | send (timer event delay : Option String)
  | cancel (timer : Option String)
  deriving DecidableEq, Repr

/-- What a document has to say of an arrow. -/
structure ShownArrow where
  source : Option String
  event : Option String
  condition : Option String
  target : Option String
  actions : List ShownAction
  deriving DecidableEq, Repr

/-- Where the arrow starts and where it leads to. -/
def ShownArrow.ends (a : ShownArrow) : Option String × Option String := (a.source, a.target)

/-- Where the edge starts and where it leads to. -/
def GraphEdge.ends (e : GraphEdge) : Option String × Option String := (some e.source, some e.target)

namespace Xml

/-- The action that a node stands for. -/
def action? (x : Xml) : Option ShownAction :=
  match x with
  | textElement "script" text => some (.script text)
  | element "send" _ _ =>
    some (.send (x.attribute? "id") (x.attribute? "event") (x.attribute? "delay"))
  | element "cancel" _ _ => some (.cancel (x.attribute? "sendid"))
  | _ => none

/-- The arrow that a transition element stands for in the element of the given identifier. -/
def arrow (source : Option String) (x : Xml) : ShownArrow where
  source := source
  event := x.attribute? "event"
  condition := x.attribute? "cond"
  target := x.attribute? "target"
  actions := x.children.filterMap action?

/-- The arrows in the state elements of a document. -/
def arrows (r : Xml) : List ShownArrow :=
  (called "state" r.nodes).flatMap fun x =>
    (called "transition" x.children).map (arrow (x.attribute? "id"))

end Xml

namespace Scxml

variable (m : Definition)

/-- How the document shows an action. -/
def shownAction (text : String) : ShownAction :=
  match TimerCommand.ofAction? text with
  | none => .script text
  | some (.start id) =>
    .send (some id) ((m.timer? id).map (·.event))
      ((m.timer? id).map fun t => toString t.duration ++ "ms")
  | some (.stop id) => .cancel (some id)

/-- How the document shows a transition. -/
def shownTransition (t : Transition) : ShownArrow :=
  ⟨some t.source, t.event, t.guard, some t.target, t.actions.map (shownAction m)⟩

/-- How the document shows a branch of a choice. -/
def shownBranch (c : Choice) (b : Branch) : ShownArrow :=
  ⟨some c.id, none, b.condition, some b.target, b.actions.map (shownAction m)⟩

end Scxml

/-- The document with the given root shows, inside the elements of states and choices and nowhere
else, the transitions of each state in their order and the branches of each choice. These are the
transitions that leave no choice, and all branches. -/
structure Xml.Shows (m : Definition) (r : Xml) : Prop where
  inside : called "transition" r.nodes =
    (called "state" r.nodes).flatMap fun x => called "transition" x.children
  arrows : r.arrows =
    (m.states.flatMap fun s => (Scxml.leaving m s).map (Scxml.shownTransition m)) ++
      m.choices.flatMap fun c => (Scxml.shownBranches c).map (Scxml.shownBranch m c)
  transitions : (m.states.flatMap (Scxml.leaving m)).Perm
    (m.transitions.filter fun t => !m.isChoice t.source)
  branches : ∀ c ∈ m.choices, (Scxml.shownBranches c).Perm c.branches

namespace Scxml

variable {m : Definition}

section Actions

variable (hm : m.declaration.WellFormed)
include hm

/-- Of the nodes of an action, one stands for it. -/
theorem action?_actionNodes {text : String} (ha : m.declaration.Acts text) :
    (actionNodes m text).filterMap Xml.action? = [shownAction m text] := by
  unfold actionNodes shownAction
  cases hcommand : TimerCommand.ofAction? text with
  | none => rfl
  | some command =>
    cases command with
    | start id =>
      obtain ⟨t, ht⟩ := Option.isSome_iff_exists.1
        (m.isSome_timer?_of_mem (hm.command_mem text ha _ hcommand))
      simp only [TimerCommand.timer] at ht
      obtain rfl : t.id = id := by simpa using List.find?_some ht
      simp only [ht, Option.map_some]
      cases t.periodic <;> rfl
    | stop id => rfl

theorem actions_arrow {texts : List String} (ha : ∀ a ∈ texts, m.declaration.Acts a) :
    (texts.flatMap (actionNodes m)).filterMap Xml.action? = texts.map (shownAction m) := by
  induction texts with
  | nil => rfl
  | cons text texts ih =>
    rw [List.flatMap_cons, List.filterMap_append,
      action?_actionNodes hm (ha text (List.mem_cons_self ..)),
      ih fun a hmem => ha a (List.mem_cons_of_mem _ hmem)]
    rfl

theorem arrow_arrowElement {event condition : Option String} {target : String}
    {texts : List String} (source : String) (ha : ∀ a ∈ texts, m.declaration.Acts a) :
    (arrowElement m event condition target texts).arrow (some source) =
      ⟨some source, event, condition, some target, texts.map (shownAction m)⟩ := by
  obtain ⟨htarget, hcondition, hevent⟩ := attribute?_arrowElement m event condition target texts
  rw [Xml.arrow, htarget, hcondition, hevent, arrowElement, Xml.children, actions_arrow hm ha]

theorem arrow_transitionElement {s : State} {t : Transition} (ht : t ∈ leaving m s) :
    (transitionElement m t).arrow (some s.id) = shownTransition m t := by
  obtain ⟨hmem, hsource⟩ := List.mem_filter.1 ht
  have hid : t.source = s.id := by simpa using hsource
  rw [← hid]
  exact arrow_arrowElement hm _ fun _ ha => .inr (.inl ⟨t, hmem, ha⟩)

theorem arrow_branchElement {c : Choice} (hc : c ∈ m.choices) {b : Branch}
    (hb : b ∈ shownBranches c) : (branchElement m b).arrow (some c.id) = shownBranch m c b :=
  arrow_arrowElement hm _ fun _ ha => .inr (.inr ⟨c, hc, b, mem_shownBranches hb, ha⟩)

end Actions

/-! ## What a document shows -/

theorem called_children_stateElement (s : State) :
    Xml.called "transition" (stateElement m s).children =
      (leaving m s).map (transitionElement m) := by
  have hnote : Xml.called "transition" (descriptionNodes s.description) = [] := by
    refine Xml.called_eq_nil fun x hx => ?_
    obtain ⟨d, -, rfl⟩ := List.mem_map.1 hx
    simp [Xml.name?]
  have hhook : ∀ name texts, name ≠ "transition" →
      Xml.called "transition" (hookNodes m name texts) = [] := by
    intro name texts hname
    refine Xml.called_eq_nil fun x hx => ?_
    unfold hookNodes at hx
    split at hx
    · simp at hx
    · obtain rfl := List.mem_singleton.1 hx
      simpa [Xml.name?] using hname
  have harrows : Xml.called "transition" ((leaving m s).map (transitionElement m)) =
      (leaving m s).map (transitionElement m) := by
    refine List.filter_eq_self.2 fun x hx => ?_
    obtain ⟨t, -, rfl⟩ := List.mem_map.1 hx
    rfl
  rw [stateElement, Xml.children, Xml.called_append, Xml.called_append, Xml.called_append, hnote,
    hhook "onentry" s.entry (by decide), hhook "onexit" s.exit (by decide), harrows]
  rfl

theorem perm_leaving (hm : m.declaration.WellFormed) : (m.states.flatMap (leaving m)).Perm
    (m.transitions.filter fun t => !m.isChoice t.source) := by
  have hkeys : m.transitions.filter (fun t => !m.isChoice t.source) =
      m.transitions.filter (fun t => t.source ∈ m.declaration.stateIds) := by
    refine List.filter_congr fun t ht => ?_
    have hsource := List.mem_append.1 (hm.source_mem t ht)
    have hdisjoint := hm.disjoint t.source
    have hchoice := m.isChoice_iff t.source
    by_cases hstate : t.source ∈ m.declaration.stateIds
    · simp_all
    · simp_all
  have hflat : m.states.flatMap (leaving m) =
      m.declaration.stateIds.flatMap fun id => m.transitions.filter (·.source == id) := by
    rw [Declaration.stateIds, List.flatMap_map]
    rfl
  rw [hkeys, hflat]
  exact perm_flatMap_filter _ hm.states_nodup m.transitions

theorem shows_tree (hm : m.declaration.WellFormed) : (tree m).Shows m where
  inside := by
    rw [called_transition_tree, called_state_tree, List.flatMap_append, List.flatMap_map,
      List.flatMap_map]
    simp only [called_children_stateElement, called_children_choiceElement]
  arrows := by
    rw [Xml.arrows, called_state_tree, List.flatMap_append, List.flatMap_map, List.flatMap_map]
    simp only [called_children_stateElement, called_children_choiceElement, List.map_map]
    congr 1
    · refine List.flatMap_congr fun s _ => List.map_congr_left fun t ht => ?_
      exact arrow_transitionElement hm ht
    · refine List.flatMap_congr fun c hc => List.map_congr_left fun b hb => ?_
      exact arrow_branchElement hm hc hb
  transitions := perm_leaving hm
  branches _ hc := perm_shownBranches hm hc

end Scxml

/-! ## Graphs and documents side by side -/

/-- The edges of a graph that are missing in the document are those of transitions that leave
choices. -/
theorem perm_ends {m : Definition} {r : Xml} (h : r.Shows m) :
    ((graph m).edges.tail.map (·.ends)).Perm (r.arrows.map (·.ends) ++
      (m.transitions.filter (m.isChoice ·.source)).map fun t => (transitionEdge t).ends) := by
  have htransitions : ((m.states.flatMap fun s =>
      (Scxml.leaving m s).map (Scxml.shownTransition m)).map (·.ends)).Perm
        ((m.transitions.filter fun t => !m.isChoice t.source).map
          fun t => (transitionEdge t).ends) := by
    have hflat : (m.states.flatMap fun s =>
        (Scxml.leaving m s).map (Scxml.shownTransition m)).map (·.ends) =
          (m.states.flatMap (Scxml.leaving m)).map fun t => (transitionEdge t).ends := by
      simp only [List.map_flatMap, List.map_map]
      rfl
    rw [hflat]
    exact h.transitions.map _
  have hbranches : ((m.choices.flatMap fun c =>
      (Scxml.shownBranches c).map (Scxml.shownBranch m c)).map (·.ends)).Perm
        ((m.choices.flatMap branchEdges).map (·.ends)) := by
    simp only [List.map_flatMap, branchEdges, List.map_map]
    exact List.Perm.flatMap_left _ fun c hc => (h.branches c hc).map _
  have hsplit : ((m.transitions.filter fun t => !m.isChoice t.source) ++
      m.transitions.filter (m.isChoice ·.source)).Perm m.transitions := by
    have := List.filter_append_perm (fun t : Transition => !m.isChoice t.source) m.transitions
    simpa only [Bool.not_not] using this
  have hedges : (graph m).edges.tail.map (·.ends) =
      m.transitions.map (fun t => (transitionEdge t).ends) ++
        (m.choices.flatMap branchEdges).map (·.ends) := by
    rw [graph, List.tail_cons, List.map_append, List.map_map]
    rfl
  rw [hedges, h.arrows, List.map_append, List.append_assoc]
  refine ((hsplit.map _).symm.append_right _).trans ?_
  rw [List.map_append, List.append_assoc]
  exact htransitions.symm.append (List.perm_append_comm.trans (hbranches.symm.append_right _))

/-- **Documents show all arrows that graphs show but transitions that leave choices.** A definition
that has come from a check, with texts that XML admits, has a document as long as the timers that
the document starts have durations that can be written; if one of them has too many digits, that is
the error. The document shows the transitions that leave states and the branches of choices
(`Xml.Shows`). The edges of the graph, apart from the initial one, are the arrows of the document
together with the transitions that leave choices. So the two have the same arrows exactly if no
transition leaves a choice. -/
theorem document_shows_arrows {d : Declaration} {m : Definition}
    (hm : (Validation.check d).definition = some m) (hd : AllXml d) :
    (Scxml.HasDelays m → ∃ r, Scxml.root m = .ok r ∧
      scxmlOf (.definition m) = .ok (document r) ∧ r.Shows m ∧
      ((graph m).edges.tail.map (·.ends)).Perm (r.arrows.map (·.ends) ++
        (m.transitions.filter (m.isChoice ·.source)).map fun t => (transitionEdge t).ends) ∧
      (((graph m).edges.tail.map (·.ends)).Perm (r.arrows.map (·.ends)) ↔
        ∀ t ∈ m.transitions, ¬ m.isChoice t.source)) ∧
      (¬ Scxml.HasDelays m → scxmlOf (.definition m) = .error (.duration .tooLarge)) := by
  have hformed : m.declaration.WellFormed := Definition.Accepted.wellFormed ⟨d, hm⟩
  have hroot := Scxml.yields_root hformed (allXml_of_definition hm hd)
  have hshows := Scxml.shows_tree hformed
  have hperm := perm_ends hshows
  refine ⟨fun hdelays => ⟨Scxml.tree m, hroot.ok hdelays, (hroot.map document).ok hdelays, hshows,
    hperm, fun hsame => ?_, fun hnone => ?_⟩, (hroot.map document).error⟩
  · -- the same number of arrows leaves no room for others
    have hlength := hperm.length_eq.symm.trans hsame.length_eq
    rw [List.length_append, Nat.add_eq_left, List.length_map, List.length_eq_zero_iff] at hlength
    exact List.filter_eq_nil_iff.1 hlength
  · have hlost : m.transitions.filter (m.isChoice ·.source) = [] := List.filter_eq_nil_iff.2 hnone
    rwa [hlost, List.map_nil, List.append_nil] at hperm

/-- No transition leaves the choice of the gate, so its document shows all its arrows. -/
theorem Gate.gate_shows_all_arrows : ∃ r, Scxml.root machine = .ok r ∧
    scxmlOf (.definition machine) = .ok (document r) ∧ r.Shows machine ∧
      ((graph machine).edges.tail.map (·.ends)).Perm (r.arrows.map (·.ends)) := by
  obtain ⟨r, hr, htext, hshows, -, hsame⟩ :=
    (document_shows_arrows checked (by decide)).1 hasDelays
  exact ⟨r, hr, htext, hshows, hsame.2 (by decide)⟩

/-! ## A sorter -/

namespace Sorter

/-- A sorter that throws large items into a bin. A transition leaves its choice: an item that jams
there would be thrown into the bin as well. -/
def declaration : Declaration where
  name := "sorter"
  initial := [⟨"belt", none⟩]
  states := [⟨"belt", none, [], [], none⟩, ⟨"bin", none, [], [], none⟩]
  choices := [⟨"size", [⟨some "large", "bin", [], none⟩, ⟨none, "belt", [], none⟩], none⟩]
  transitions := [⟨"belt", "size", some "item", none, [], none⟩,
    ⟨"size", "bin", some "jam", none, [], none⟩]
  timers := []
  span := none

/-- The definition of the sorter. -/
def machine : Definition := .ofDeclaration declaration "belt"

theorem checked : (Validation.check declaration).definition = some machine := by
  have hformed : declaration.WellFormed := (Validation.errors_eq_nil_iff _).1 (by cbv)
  exact (Validation.definition_eq_some_iff declaration machine).2
    ⟨hformed, rfl, rfl, rfl, rfl, rfl, rfl⟩

/-- The graph of the sorter shows the transition that leaves the choice, its document does not. -/
theorem sorter_document_lacks_jam :
    (Validation.check declaration).definition = some machine ∧ AllXml declaration ∧
      ⟨"size", "bin", "jam"⟩ ∈ (graph machine).edges ∧
      ∃ r, Scxml.root machine = .ok r ∧ (∀ a ∈ r.arrows, a.event ≠ some "jam") ∧
        ¬ ((graph machine).edges.tail.map (·.ends)).Perm (r.arrows.map (·.ends)) := by
  have hroot : Scxml.root machine = .ok (Scxml.tree machine) :=
    (Scxml.yields_root (Definition.Accepted.wellFormed ⟨_, checked⟩) (by decide)).ok
      fun _ _ t ht => absurd ht (by simp [machine, Definition.ofDeclaration, declaration])
  exact ⟨checked, by decide, by decide, _, hroot, by decide, by decide⟩

end Sorter

end Export

end Statechart
