import Mathlib
import Statechart.Proofs.Model.Parts

/-!
# What a text declares

The declaration of a text says what its syntax tree says. Each of its lists has one part for each
node of a rule, in the order of the text (`Declaration.DeclaredBy`), all that it takes over is
clean, and the parts of a list stand one after the other in the text (`InOrder`).

Main statement: `exists_tree_of_read`.
-/

namespace Statechart

namespace Declaration

open Grammar (Token Tree Rule Item Placed nodesAmong_items wordsAmong_items
  pairwise_before_of_placed)

/-- Each list of a declaration has one part for each node of a rule, in the order of the nodes. -/
structure DeclaredBy (names : Text.CharacterNames) (d : Declaration) (t : Tree) : Prop where
  name : ∃ w, t.words .name = [w] ∧ d.name = w.text ∧ d.span = some w.span
  initial : List.Forall₂ InitialMarker.DeclaredBy d.initial (t.nodes [.initial])
  states : List.Forall₂ (State.DeclaredBy names) d.states (t.nodes [.state])
  choices : List.Forall₂ Choice.DeclaredBy d.choices (t.nodes [.choice])
  transitions : List.Forall₂ Transition.DeclaredBy d.transitions (t.nodes [.transition])
  timers : List.Forall₂ Timer.DeclaredBy d.timers (t.nodes [.timer])

/-- All that a declaration takes over is clean. -/
structure Clean (d : Declaration) : Prop where
  name : IsName d.name
  initial : ∀ m ∈ d.initial, m.Clean
  states : ∀ s ∈ d.states, s.Clean
  choices : ∀ c ∈ d.choices, c.Clean
  transitions : ∀ t ∈ d.transitions, t.Clean
  timers : ∀ t ∈ d.timers, t.Clean

/-- The parts of each list stand one after the other in the text. -/
structure InOrder (d : Declaration) : Prop where
  initial : Increasing (d.initial.map (·.span))
  states : Increasing (d.states.map (·.span))
  choices : Increasing (d.choices.map (·.span))
  branches : ∀ c ∈ d.choices, Increasing (c.branches.map (·.span))
  transitions : Increasing (d.transitions.map (·.span))
  timers : Increasing (d.timers.map (·.span))

variable {names : Text.CharacterNames}

/-! ## Adding items -/

section

variable {α : Type} {P : α → Item → Prop} {r : Rule} {x : α} {xs : List α} {i : Item}
  {items : List Item}

/-- The parts of a list are those of the items with a rule, in their order. -/
def Shows (P : α → Item → Prop) (r : Rule) (xs : List α) (items : List Item) : Prop :=
  List.Forall₂ P xs (items.filter (·.rule = r))

theorem Shows.concat (h : Shows P r xs items) (hi : i.rule = r) (hx : P x i) :
    Shows P r (xs ++ [x]) (items ++ [i]) := by
  have hone : [i].filter (·.rule = r) = [i] := by simp [hi]
  rw [Shows, List.filter_append, hone]
  exact List.rel_append h (.cons hx .nil)

theorem Shows.skip (h : Shows P r xs items) (hi : i.rule ≠ r) :
    Shows P r xs (items ++ [i]) := by
  have hnone : [i].filter (·.rule = r) = [] := by simp [hi]
  rwa [Shows, List.filter_append, hnone, List.append_nil]

variable {declaredBy : α → Tree → Prop} {clean : α → Prop} {span : α → Option Span}

/-- The parts of a list are declared by the nodes of a rule. -/
theorem Shows.forall₂_nodes (h : Shows (Stems declaredBy clean span) r xs items) :
    List.Forall₂ declaredBy xs (Tree.nodesAmong [r] (items.map Item.tree)) := by
  rw [nodesAmong_items, List.forall₂_map_right_iff]
  exact h.imp fun _ _ => Stems.declaredBy

theorem Shows.forall_clean (h : Shows (Stems declaredBy clean span) r xs items) :
    ∀ x ∈ xs, clean x := by
  unfold Shows at h
  generalize items.filter _ = is at h
  induction h with
  | nil => simp
  | cons hx _ ih => exact List.forall_mem_cons.2 ⟨hx.clean, ih⟩

theorem Shows.increasing (h : Shows (Stems declaredBy clean span) r xs items)
    (hitems : Placed (items.flatMap Item.slots)) : Increasing (xs.map span) := by
  have hbefore : items.Pairwise fun i j => i.start.span.Before j.start.span :=
    pairwise_before_of_placed (fun i => by cases i <;> exact ⟨_, List.mem_cons_self ..⟩) hitems
  refine ⟨(items.filter (·.rule = r)).map fun i => i.start.span, ?_,
    List.pairwise_map.2 (hbefore.filter _)⟩
  unfold Shows at h
  generalize items.filter _ = is at h
  induction h with
  | nil => rfl
  | cons hx _ ih => simp [hx.span_eq, ih]

end

/-- A declaration has the name of the machine, and its lists show the items that have been
added. -/
structure Lists (names : Text.CharacterNames) (d : Declaration) (name : Token)
    (items : List Item) : Prop where
  name_eq : d.name = name.text
  span_eq : d.span = some name.span
  initial : Shows (Stems InitialMarker.DeclaredBy InitialMarker.Clean InitialMarker.span) .initial
    d.initial items
  states : Shows (Stems (State.DeclaredBy names) State.Clean State.span) .state d.states items
  choices : Shows (Stems Choice.DeclaredBy
    (fun x => x.Clean ∧ Increasing (x.branches.map (·.span))) Choice.span) .choice d.choices items
  transitions : Shows (Stems Transition.DeclaredBy Transition.Clean Transition.span) .transition
    d.transitions items
  timers : Shows (Stems Timer.DeclaredBy Timer.Clean Timer.span) .timer d.timers items

/-- One more item is one more part of one list. -/
theorem Lists.addItem {d d' : Declaration} {name : Token} {items : List Item} {i : Item}
    (h : d.Lists names name items) (hi : Placed i.slots) (hadd : addItem names d i = .ok d') :
    d'.Lists names name (items ++ [i]) := by
  cases i with
  | initial i =>
    cases hadd
    exact { h with
      initial := h.initial.concat rfl (stems_initial hi)
      states := h.states.skip nofun
      choices := h.choices.skip nofun
      transitions := h.transitions.skip nofun
      timers := h.timers.skip nofun }
  | state s =>
    cases hs : state names s with
    | error e =>
      simp only [Declaration.addItem, hs] at hadd
      cases hadd
    | ok x =>
      simp only [Declaration.addItem, hs] at hadd
      cases hadd
      exact { h with
        initial := h.initial.skip nofun
        states := h.states.concat rfl (stems_state hi hs)
        choices := h.choices.skip nofun
        transitions := h.transitions.skip nofun
        timers := h.timers.skip nofun }
  | transition t =>
    cases hadd
    exact { h with
      initial := h.initial.skip nofun
      states := h.states.skip nofun
      choices := h.choices.skip nofun
      transitions := h.transitions.concat rfl (stems_transition hi)
      timers := h.timers.skip nofun }
  | timer t =>
    cases ht : timer t with
    | error e =>
      simp only [Declaration.addItem, ht] at hadd
      cases hadd
    | ok x =>
      simp only [Declaration.addItem, ht] at hadd
      cases hadd
      exact { h with
        initial := h.initial.skip nofun
        states := h.states.skip nofun
        choices := h.choices.skip nofun
        transitions := h.transitions.skip nofun
        timers := h.timers.concat rfl (stems_timer hi ht) }
  | choice c =>
    cases hadd
    exact { h with
      initial := h.initial.skip nofun
      states := h.states.skip nofun
      choices := h.choices.concat rfl (stems_choice hi)
      transitions := h.transitions.skip nofun
      timers := h.timers.skip nofun }

theorem Lists.foldlM {d d' : Declaration} {name : Token} {before items : List Item}
    (h : d.Lists names name before) (hitems : ∀ i ∈ items, Placed i.slots)
    (hfold : items.foldlM (Declaration.addItem names) d = .ok d') :
    d'.Lists names name (before ++ items) := by
  induction items generalizing d before with
  | nil =>
    cases hfold
    rwa [List.append_nil]
  | cons i items ih =>
    obtain ⟨hi, hrest⟩ := List.forall_mem_cons.1 hitems
    rw [List.foldlM_cons] at hfold
    cases hadd : Declaration.addItem names d i with
    | error e =>
      rw [hadd] at hfold
      cases hfold
    | ok d₁ =>
      rw [hadd] at hfold
      rw [List.append_cons]
      exact ih (h.addItem hi hadd) hrest hfold

theorem lists_of_ofTree {m : Grammar.Machine} {d : Declaration} (hm : Placed m.slots)
    (h : ofTree names m = .ok d) : d.Lists names m.name m.items := by
  have hitems : ∀ i ∈ m.items, Placed i.slots := fun i hi =>
    hm.sublist (List.Sublist.cons _ (List.sublist_flatten_of_mem (List.mem_map_of_mem hi)))
  have hstart : Lists names ⟨m.name.text, [], [], [], [], [], some m.name.span⟩ m.name [] :=
    ⟨rfl, rfl, .nil, .nil, .nil, .nil, .nil⟩
  exact hstart.foldlM hitems h

/-- **What a text declares**: its declaration has the parts that its syntax tree declares, in
their order; all that is taken over is clean, and the parts stand in the order of the text. -/
theorem exists_tree_of_read {text : String} {d : Declaration} (h : read names text = .ok d) :
    ∃ m machine, Grammar.read text = .ok m ∧ m.tree.nodes [.machine] = [machine] ∧
      d.DeclaredBy names machine ∧ d.Clean ∧ d.InOrder := by
  cases hm : Grammar.read text with
  | error e =>
    rw [read, hm] at h
    cases h
  | ok m =>
    rw [read, hm] at h
    have hplaced := Grammar.placed_of_read hm
    obtain ⟨hkind, hname⟩ := hplaced.word (List.mem_cons_self ..)
    have hitems : Placed (m.items.flatMap Item.slots) :=
      hplaced.sublist (List.sublist_cons_self ..)
    have hlists := lists_of_ofTree hplaced h
    refine ⟨m, _, rfl, rfl, ?_, ?_, ?_⟩
    · refine ⟨⟨m.name, ?_, hlists.name_eq, hlists.span_eq⟩, hlists.initial.forall₂_nodes,
        hlists.states.forall₂_nodes, hlists.choices.forall₂_nodes,
        hlists.transitions.forall₂_nodes, hlists.timers.forall₂_nodes⟩
      simp [hkind, wordsAmong_items]
    · exact {
        name := hlists.name_eq ▸ hname
        initial := hlists.initial.forall_clean
        states := hlists.states.forall_clean
        choices := fun c hc => (hlists.choices.forall_clean c hc).1
        transitions := hlists.transitions.forall_clean
        timers := hlists.timers.forall_clean }
    · exact {
        initial := hlists.initial.increasing hitems
        states := hlists.states.increasing hitems
        choices := hlists.choices.increasing hitems
        branches := fun c hc => (hlists.choices.forall_clean c hc).2
        transitions := hlists.transitions.increasing hitems
        timers := hlists.timers.increasing hitems }

end Declaration

/-! ## A greenhouse -/

namespace Greenhouse

/-- A greenhouse, with its items in no particular order and blanks around its guards. -/
def text : String :=
  "fsm Green \x7b [*] --> Cold\nstate Cold : \"5\\u00b0\" \x7b exit / off()\n" ++
    "entry / on(1); log() entry / a() \x7d\nCold --> Pick : t [\u00a0x[0] < 8 ]\n" ++
    "timer t = 50 -> t periodic # ms\n" ++
    "choice Pick \x7b [ x ] -> Warm / air() [else] -> Cold \x7d state Warm\n\x7d"

/-- The greenhouse as it is declared. -/
def declaration : Declaration where
  name := "Green"
  initial := [⟨"Cold", some ⟨1, 13⟩⟩]
  states := [
    ⟨"Cold", some (Text.codePoints "5°"), ["on(1)", "log()", "a()"], ["off()"], some ⟨2, 7⟩⟩,
    ⟨"Warm", none, [], [], some ⟨6, 60⟩⟩]
  choices := [⟨"Pick", [⟨some "x", "Warm", ["air()"], some ⟨6, 15⟩⟩,
    ⟨none, "Cold", [], some ⟨6, 37⟩⟩], some ⟨6, 8⟩⟩]
  transitions := [⟨"Cold", "Pick", some "t", some "x[0] < 8", [], some ⟨4, 1⟩⟩]
  timers := [⟨"t", 50, "t", true, some ⟨5, 7⟩⟩]
  span := some ⟨1, 5⟩

theorem read_text : Declaration.read (fun _ => none) text = .ok declaration := by decide +kernel

/-- The greenhouse is declared by its syntax tree. -/
theorem declared_by_tree :
    ∃ m machine, Grammar.read text = .ok m ∧ m.tree.nodes [.machine] = [machine] ∧
      declaration.DeclaredBy (fun _ => none) machine ∧ declaration.Clean ∧ declaration.InOrder :=
  Declaration.exists_tree_of_read read_text

end Greenhouse

end Statechart
