import Mathlib
import Statechart.Export.Graph
import Statechart.Proofs.Export.Document

/-!
# Exports of accepted machines are closed

Whatever an export of an accepted machine refers to is in it: the ends of the edges of a graph
(`Graph.Closed`), and in a document the targets of transitions and the timers that are sent or
cancelled (`Xml.Closed`). The graph takes no more than that the declaration has no errors, the
document that XML admits its texts as well, and that the delays of its timers can be written.

Main statement: `exports_closed`.
-/

namespace Statechart.Export

theorem count_nodeIds {d : Declaration} (hd : d.WellFormed) {id : String} (hid : id ∈ d.nodeIds) :
    d.nodeIds.count id = 1 := by
  have hnodup : d.nodeIds.Nodup :=
    List.nodup_append.2 ⟨hd.states_nodup, hd.choices_nodup, fun a ha b hb hab =>
      hd.disjoint a ha (hab ▸ hb)⟩
  exact List.count_eq_one_of_mem hnodup hid

/-! ## Graphs -/

namespace Graph

/-- The number of nodes for states and choices of the identifier. -/
def places (g : Graph) (id : String) : Nat :=
  g.nodes.countP fun n => n.id == id && n.kind != .initial

/-- The first edge leaves the initial node, of which there is one; every other edge leaves one state
or choice, and every edge leads to one. -/
structure Closed (g : Graph) : Prop where
  initial : g.nodes.countP (fun n => n.id == initialNode && n.kind == .initial) = 1
  start : g.edges.head?.map (·.source) = some initialNode
  source : ∀ e ∈ g.edges.tail, g.places e.source = 1
  target : ∀ e ∈ g.edges, g.places e.target = 1

end Graph

theorem places_graph (m : Definition) (id : String) :
    (graph m).places id = m.declaration.nodeIds.count id := by
  have hstate : ∀ s, ((stateNode s).id == id && (stateNode s).kind != .initial) = (s.id == id) :=
    fun _ => Bool.and_true _
  have hchoice : ∀ c, ((choiceNode c).id == id && (choiceNode c).kind != .initial) = (c.id == id) :=
    fun _ => Bool.and_true _
  simp only [Graph.places, graph, List.countP_cons, List.countP_append, List.countP_map,
    Declaration.nodeIds, Declaration.stateIds, Declaration.choiceIds,
    List.count_eq_countP, Function.comp_def, hstate, hchoice]
  simp [Definition.declaration]

theorem mem_ends_of_edge {m : Definition} (hm : m.declaration.WellFormed) {e : GraphEdge}
    (he : e ∈ (graph m).edges.tail) :
    e.source ∈ m.declaration.nodeIds ∧ e.target ∈ m.declaration.nodeIds := by
  rcases List.mem_append.1 he with he | he
  · obtain ⟨t, ht, rfl⟩ := List.mem_map.1 he
    exact ⟨hm.source_mem t ht, hm.target_mem t ht⟩
  · obtain ⟨c, hc, he⟩ := List.mem_flatMap.1 he
    obtain ⟨b, hb, rfl⟩ := List.mem_map.1 he
    exact ⟨List.mem_append_right _ (List.mem_map_of_mem hc), hm.branch_mem c hc b hb⟩

theorem mem_nodeIds_initial {m : Definition} (hm : m.declaration.WellFormed) :
    m.initial ∈ m.declaration.nodeIds := by
  obtain ⟨marker, hmarker, hmem⟩ := hm.initial
  obtain rfl : (⟨m.initial, none⟩ : InitialMarker) = marker := by
    simpa [Definition.declaration] using hmarker
  exact List.mem_append_left _ hmem

theorem closed_graph {m : Definition} (hm : m.declaration.WellFormed) : (graph m).Closed where
  initial := by
    have hothers : (m.states.map stateNode ++ m.choices.map choiceNode).countP
        (fun n => n.id == initialNode && n.kind == .initial) = 0 := by
      rw [List.countP_eq_zero]
      intro n hn
      rcases List.mem_append.1 hn with hn | hn
      · obtain ⟨s, -, rfl⟩ := List.mem_map.1 hn
        simp [stateNode]
      · obtain ⟨c, -, rfl⟩ := List.mem_map.1 hn
        simp [choiceNode]
    rw [graph, List.countP_cons, hothers]
    simp
  start := rfl
  source e he := by
    rw [places_graph]
    exact count_nodeIds hm (mem_ends_of_edge hm he).1
  target e he := by
    rw [places_graph]
    rcases List.mem_cons.1 he with rfl | he
    · exact count_nodeIds hm (mem_nodeIds_initial hm)
    · exact count_nodeIds hm (mem_ends_of_edge hm he).2

/-! ## Documents -/

namespace Xml

/-- The number of state elements of the identifier. -/
def places (r : Xml) (id : String) : Nat :=
  (called "state" r.nodes).countP fun x => x.attribute? "id" == some id

/-- The document with the given root refers only to what it has elements for, and to timers of the
machine. Every state and every choice has its element, and of the transitions of a choice exactly
the last has no condition. -/
structure Closed (m : Definition) (r : Xml) : Prop where
  initial : ∃ id, r.attribute? "initial" = some id ∧ r.places id = 1
  target : ∀ x ∈ called "transition" r.nodes,
    ∃ id, x.attribute? "target" = some id ∧ r.places id = 1
  place : ∀ id ∈ m.declaration.nodeIds, r.places id = 1
  default : ∀ c ∈ m.choices, ∀ x ∈ called "state" r.nodes, x.attribute? "id" = some c.id →
    ∃ ts t, called "transition" x.children = ts ++ [t] ∧
      (∀ t' ∈ ts, (t'.attribute? "cond").isSome) ∧ t.attribute? "cond" = none
  send : ∀ x ∈ called "send" r.nodes, ∃ t ∈ m.timers, x.attribute? "id" = some t.id ∧
    x.attribute? "event" = some t.event ∧
    x.attribute? "delay" = some (toString t.duration ++ "ms")
  cancel : ∀ x ∈ called "cancel" r.nodes, ∃ t ∈ m.timers, x.attribute? "sendid" = some t.id

end Xml

namespace Scxml

variable (m : Definition)

theorem places_tree (id : String) : (tree m).places id = m.declaration.nodeIds.count id := by
  have hstate : ∀ s : State, (stateElement m s).attribute? "id" = some s.id := fun _ => rfl
  have hchoice : ∀ c : Choice, (choiceElement m c).attribute? "id" = some c.id := fun _ => rfl
  simp only [Xml.places, called_state_tree, List.countP_append, List.countP_map,
    Declaration.nodeIds, Declaration.stateIds, Declaration.choiceIds,
    List.count_eq_countP, Function.comp_def, hstate, hchoice]
  simp [Definition.declaration]

theorem attribute?_arrowElement (event condition : Option String) (target : String)
    (texts : List String) :
    (arrowElement m event condition target texts).attribute? "target" = some target ∧
      (arrowElement m event condition target texts).attribute? "cond" = condition ∧
      (arrowElement m event condition target texts).attribute? "event" = event := by
  cases event <;> cases condition <;>
    simp [arrowElement, optional, Xml.attribute?, List.lookup_cons]

theorem called_children_choiceElement (c : Choice) :
    Xml.called "transition" (choiceElement m c).children =
      (shownBranches c).map (branchElement m) := by
  refine List.filter_eq_self.2 fun x hx => ?_
  obtain ⟨b, -, rfl⟩ := List.mem_map.1 hx
  rfl

variable {m} (hm : m.declaration.WellFormed)
include hm

theorem closed_tree : (tree m).Closed m where
  initial := by
    refine ⟨m.initial, rfl, ?_⟩
    rw [places_tree]
    exact count_nodeIds hm (mem_nodeIds_initial hm)
  target x hx := by
    obtain ⟨hmem, hname⟩ := Xml.mem_called.1 hx
    cases node_of_mem_tree hm x hmem with
    | transition ht =>
      refine ⟨_, (attribute?_arrowElement m ..).1, ?_⟩
      rw [places_tree]
      exact count_nodeIds hm (hm.target_mem _ ht)
    | branch hc hb =>
      refine ⟨_, (attribute?_arrowElement m ..).1, ?_⟩
      rw [places_tree]
      exact count_nodeIds hm (hm.branch_mem _ hc _ hb)
    | hook hhook => rcases hhook with rfl | rfl <;> simp [Xml.name?] at hname
    | _ => simp [Xml.name?, tree, stateElement, choiceElement, Scxml.send] at hname
  place id hid := by
    rw [places_tree]
    exact count_nodeIds hm hid
  default c hc x hx hid := by
    rw [called_state_tree] at hx
    rcases List.mem_append.1 hx with hx | hx
    · -- the element of a state does not have the identifier of a choice
      obtain ⟨s, hs, rfl⟩ := List.mem_map.1 hx
      have hsame : s.id = c.id := by simpa [stateElement, Xml.attribute?] using hid
      have hstate : s.id ∈ m.declaration.stateIds := List.mem_map_of_mem hs
      exact absurd (hsame ▸ List.mem_map_of_mem hc) (hm.disjoint s.id hstate)
    · obtain ⟨c', hc', rfl⟩ := List.mem_map.1 hx
      obtain ⟨b, hb, hdefault⟩ := m.exists_default hm hc'
      refine ⟨c'.conditioned.map (branchElement m), branchElement m b, ?_, fun t ht => ?_, ?_⟩
      · rw [called_children_choiceElement, shownBranches, hdefault, List.map_append]
        rfl
      · obtain ⟨b', hb', rfl⟩ := List.mem_map.1 ht
        rw [branchElement, (attribute?_arrowElement m ..).2.1]
        simpa [Branch.isDefault] using (List.mem_filter.1 hb').2
      · have hnone : b.isDefault := List.find?_some hdefault
        rw [branchElement, (attribute?_arrowElement m ..).2.1]
        simpa [Branch.isDefault] using hnone
  send x hx := by
    obtain ⟨hmem, hname⟩ := Xml.mem_called.1 hx
    cases node_of_mem_tree hm x hmem with
    | send ht => exact ⟨_, ht, rfl, rfl, rfl⟩
    | hook hhook => rcases hhook with rfl | rfl <;> simp [Xml.name?] at hname
    | _ =>
      simp [Xml.name?, tree, stateElement, choiceElement, transitionElement, branchElement,
        arrowElement] at hname
  cancel x hx := by
    obtain ⟨hmem, hname⟩ := Xml.mem_called.1 hx
    cases node_of_mem_tree hm x hmem with
    | cancel ht => exact ⟨_, ht, rfl⟩
    | hook hhook => rcases hhook with rfl | rfl <;> simp [Xml.name?] at hname
    | _ =>
      simp [Xml.name?, tree, stateElement, choiceElement, transitionElement, branchElement,
        arrowElement, Scxml.send] at hname

end Scxml

/-- XML admits the texts of a definition if it admits those of the declaration. -/
theorem allXml_of_definition {d : Declaration} {m : Definition}
    (hm : (Validation.check d).definition = some m) (hd : AllXml d) : AllXml m.declaration := by
  obtain ⟨-, hname, hinitial, hstates, hchoices, htransitions, htimers⟩ :=
    (Validation.definition_eq_some_iff d m).1 hm
  have hsame : m.declaration.strings = d.strings := by
    simp only [Declaration.strings, Definition.declaration, hname, hinitial, hstates, hchoices,
      htransitions, htimers, List.map_cons, List.map_nil]
  exact ⟨hsame ▸ hd.strings, fun s hs => hd.descriptions s (hstates ▸ hs)⟩

/-- **Exports of accepted machines are closed**: a definition that has come from a check has a graph
and, if XML admits all texts, a document as long as the timers that the document starts have
durations that can be written; if one of them has too many digits, that is the error. Every edge of
the graph but the first leaves exactly one state or choice, the first leaves the initial node, and
all lead to exactly one state or choice. In the document, the initial attribute and the target of
every transition name exactly one state element, every state and every choice has exactly one, of
the transitions of a choice exactly the last has no condition, and whatever is sent or cancelled is
a timer of the machine. -/
theorem exports_closed {d : Declaration} {m : Definition}
    (hm : (Validation.check d).definition = some m) :
    (∃ g, graphOf (.definition m) = .ok g ∧ g.Closed) ∧
      (AllXml d →
        (Scxml.HasDelays m → ∃ r, Scxml.root m = .ok r ∧
          scxmlOf (.definition m) = .ok (document r) ∧ r.Closed m) ∧
        (¬ Scxml.HasDelays m → scxmlOf (.definition m) = .error (.duration .tooLarge))) := by
  have hformed : m.declaration.WellFormed := Definition.Accepted.wellFormed ⟨d, hm⟩
  refine ⟨⟨graph m, rfl, closed_graph hformed⟩, fun hd => ?_⟩
  have hroot := Scxml.yields_root hformed (allXml_of_definition hm hd)
  exact ⟨fun hdelays => ⟨Scxml.tree m, hroot.ok hdelays, (hroot.map document).ok hdelays,
    Scxml.closed_tree hformed⟩, (hroot.map document).error⟩

/-! ## A gate -/

namespace Gate

/-- A gate that asks for a ticket, and closes again after a while. -/
def declaration : Declaration where
  name := "gate"
  initial := [⟨"shut", none⟩]
  states := [⟨"shut", some "waits -- for a ticket", [], [], none⟩,
    ⟨"open", none, ["start_timer(hold)", "wave()"], ["stop_timer(hold)"], none⟩]
  choices := [⟨"ticket", [⟨none, "shut", ["beep()"], none⟩, ⟨some "valid < 3", "open", [], none⟩],
    none⟩]
  transitions := [⟨"shut", "ticket", some "insert", none, [], none⟩,
    ⟨"open", "shut", some "late", some "clear", [], none⟩]
  timers := [⟨"hold", 30, "late", true, none⟩]
  span := none

/-- The definition of the gate. -/
def machine : Definition := .ofDeclaration declaration "shut"

theorem checked : (Validation.check declaration).definition = some machine := by
  have hformed : declaration.WellFormed := (Validation.errors_eq_nil_iff _).1 (by cbv)
  exact (Validation.definition_eq_some_iff declaration machine).2
    ⟨hformed, rfl, rfl, rfl, rfl, rfl, rfl⟩

theorem hasDelays : Scxml.HasDelays machine := by
  intro text _ t ht _
  obtain rfl := List.mem_singleton.1 ht
  decide +kernel

/-- The graph and the document of the gate. -/
theorem gate_exports_closed :
    (graph machine).Closed ∧ ∃ r, Scxml.root machine = .ok r ∧
      scxmlOf (.definition machine) = .ok (document r) ∧ r.Closed machine := by
  obtain ⟨⟨g, hg, hclosed⟩, hdocument⟩ := exports_closed checked
  obtain rfl : graph machine = g := by simpa [graphOf] using hg
  exact ⟨hclosed, (hdocument (by decide)).1 hasDelays⟩

end Gate

/-! ## A glacier -/

namespace Glacier

/-- A glacier that calves after a time that cannot be written. -/
def declaration : Declaration where
  name := "glacier"
  initial := [⟨"still", none⟩]
  states := [⟨"still", none, ["start_timer(calve)"], [], none⟩]
  choices := []
  transitions := [⟨"still", "still", some "crack", none, [], none⟩]
  timers := [⟨"calve", tenPower Text.digitLimit, "crack", false, none⟩]
  span := none

/-- The definition of the glacier. -/
def machine : Definition := .ofDeclaration declaration "still"

/-- The glacier is accepted, and XML admits its texts, but it has no document. -/
theorem glacier_without_document :
    (Validation.check declaration).definition = some machine ∧ AllXml declaration ∧
      scxmlOf (.definition machine) = .error (.duration .tooLarge) := by
  have hformed : declaration.WellFormed := (Validation.errors_eq_nil_iff _).1 (by decide +kernel)
  have hchecked := (Validation.definition_eq_some_iff declaration machine).2
    ⟨hformed, rfl, rfl, rfl, rfl, rfl, rfl⟩
  have hxml : AllXml declaration := by decide
  refine ⟨hchecked, hxml, ?_⟩
  have hroot := Scxml.yields_root (Definition.Accepted.wellFormed ⟨_, hchecked⟩)
    (allXml_of_definition hchecked hxml)
  refine (hroot.map document).error fun hdelays => ?_
  have hstarted : Scxml.ShowsAction machine "start_timer(calve)" :=
    .inl ⟨_, List.mem_singleton_self _, .inl (List.mem_singleton_self _)⟩
  have hnumeral := hdelays _ hstarted _ (List.mem_singleton_self _) (by decide)
  exact absurd hnumeral (by decide +kernel)

end Glacier

end Statechart.Export
