import Statechart.Export.Scxml
import Statechart.Proofs.Model.Lookup
import Statechart.Proofs.Results
import Statechart.Proofs.Text.Characters

/-!
# The tree of a document

The functions of `Scxml` build a document and look out for what keeps a definition from having one.
An accepted machine whose texts XML admits has one as long as the timers that the document starts
have durations that can be written (`Scxml.yields_root`): the elements are those of `Scxml.tree`,
which is put together without looking out for anything.

What a document says is read off its nodes: their names, attributes and children, and all nodes
within a node (`Xml.nodes`). `Scxml.Node` lists what the nodes of a document can be, and
`Scxml.node_of_mem_tree` says that it lists them all.
-/

namespace Statechart

/-! ## The texts of a machine -/

/-- All texts of the state but its description. -/
def State.strings (s : State) : List String := s.id :: (s.entry ++ s.exit)

/-- All texts of the transition. -/
def Transition.strings (t : Transition) : List String :=
  t.source :: t.target :: (t.event.toList ++ t.guard.toList ++ t.actions)

/-- All texts of the branch. -/
def Branch.strings (b : Branch) : List String := b.target :: (b.condition.toList ++ b.actions)

/-- All texts of the choice. -/
def Choice.strings (c : Choice) : List String := c.id :: c.branches.flatMap Branch.strings

/-- All texts of the timer. -/
def Timer.strings (t : Timer) : List String := [t.id, t.event]

/-- All texts of the declaration but the descriptions of its states. -/
def Declaration.strings (d : Declaration) : List String :=
  d.name :: (d.initial.map (·.target) ++ d.states.flatMap State.strings ++
    d.choices.flatMap Choice.strings ++ d.transitions.flatMap Transition.strings ++
    d.timers.flatMap Timer.strings)

namespace Export

/-- XML admits all code points of the text, so that none is a surrogate. -/
def isXmlPoints (ps : Text.CodePoints) : Bool := ps.all (·.char?.any isXmlChar)

theorem isXmlPoints_iff {ps : Text.CodePoints} :
    isXmlPoints ps ↔ ∃ s, ps = Text.codePoints s ∧ isXmlText s := by
  constructor
  · intro h
    induction ps with
    | nil => exact ⟨"", rfl, rfl⟩
    | cons p ps ih =>
      obtain ⟨hp, hps⟩ := Bool.and_eq_true_iff.1 (List.all_cons.symm.trans h)
      obtain ⟨s, rfl, hs⟩ := ih hps
      cases p with
      | char c =>
        refine ⟨String.ofList (c :: s.toList), by simp [Text.codePoints], ?_⟩
        rw [isXmlText, String.toList_ofList, List.all_cons]
        exact Bool.and_eq_true_iff.2 ⟨hp, hs⟩
      | surrogate n => simp [Text.CodePoint.char?] at hp
  · rintro ⟨s, rfl, hs⟩
    rw [isXmlPoints, Text.codePoints, List.all_map]
    exact hs

/-- XML admits all texts of the machine. -/
structure AllXml (d : Declaration) : Prop where
  strings : ∀ s ∈ d.strings, isXmlText s
  descriptions : ∀ s ∈ d.states, ∀ ps ∈ s.description, isXmlPoints ps

instance (d : Declaration) : Decidable (AllXml d) :=
  decidable_of_iff ((∀ s ∈ d.strings, isXmlText s) ∧
    ∀ s ∈ d.states, ∀ ps ∈ s.description, isXmlPoints ps)
    ⟨fun h => ⟨h.1, h.2⟩, fun h => ⟨h.strings, h.descriptions⟩⟩

/-! ## Nodes -/

namespace Xml

/-- The name of an element. -/
def name? : Xml → Option String
  | element name _ _ => some name
  | textElement name _ => some name
  | comment _ => none

/-- The value of an attribute. -/
def attribute? (key : String) : Xml → Option String
  | element _ attributes _ => attributes.lookup key
  | textElement .. | comment _ => none

/-- The nodes right inside an element. -/
def children : Xml → List Xml
  | element _ _ children => children
  | textElement .. | comment _ => []

mutual

/-- The node and all nodes inside it, in the order of the document. -/
def nodes : Xml → List Xml
  | element name attributes children => element name attributes children :: allNodes children
  | textElement name text => [textElement name text]
  | comment text => [comment text]

/-- The nodes and all nodes inside them. -/
def allNodes : List Xml → List Xml
  | [] => []
  | x :: xs => nodes x ++ allNodes xs

end

theorem allNodes_append (xs ys : List Xml) : allNodes (xs ++ ys) = allNodes xs ++ allNodes ys := by
  induction xs with
  | nil => rfl
  | cons x xs ih => rw [List.cons_append, allNodes, allNodes, ih, List.append_assoc]

theorem nodes_eq (x : Xml) : x.nodes = x :: allNodes x.children := by
  cases x <;> rfl

/-- Nodes with nothing inside them are all that they hold. -/
theorem allNodes_eq_self {xs : List Xml} (h : ∀ x ∈ xs, x.children = []) : allNodes xs = xs := by
  induction xs with
  | nil => rfl
  | cons x xs ih =>
    rw [allNodes, nodes_eq, h x (by simp), ih fun y hy => h y (List.mem_cons_of_mem _ hy)]
    rfl

theorem allNodes_map {α : Type} (f : α → Xml) (as : List α) :
    allNodes (as.map f) = as.flatMap fun a => (f a).nodes := by
  induction as with
  | nil => rfl
  | cons a as ih => rw [List.map_cons, allNodes, ih, List.flatMap_cons]

/-- The elements of a name. -/
def called (name : String) (xs : List Xml) : List Xml := xs.filter (·.name? == some name)

theorem mem_called {name : String} {x : Xml} {xs : List Xml} :
    x ∈ called name xs ↔ x ∈ xs ∧ x.name? = some name := by
  simp [called]

theorem called_append (name : String) (xs ys : List Xml) :
    called name (xs ++ ys) = called name xs ++ called name ys := List.filter_append ..

theorem called_flatMap {α : Type} (name : String) (f : α → List Xml) (as : List α) :
    called name (as.flatMap f) = as.flatMap fun a => called name (f a) := List.filter_flatMap ..

theorem called_eq_nil {name : String} {xs : List Xml} (h : ∀ x ∈ xs, x.name? ≠ some name) :
    called name xs = [] := by
  simpa [called] using h

end Xml

/-! ## The tree -/

namespace Scxml

variable (m : Definition)

/-- An attribute that stands only where there is a value. -/
def optional (name : String) (value : Option String) : List (String × String) :=
  value.toList.map fun v => (name, v)

/-- The element that sends the event of a timer when its time has passed. -/
def send (t : Timer) : Xml :=
  .element "send" [("id", t.id), ("event", t.event), ("delay", toString t.duration ++ "ms")] []

/-- The nodes of an action. -/
def actionNodes (text : String) : List Xml :=
  match TimerCommand.ofAction? text with
  | none => [.textElement "script" text]
  | some (.start id) =>
    match m.timer? id with
    | none => []
    | some t => send t :: if t.periodic then [.comment (" periodic timer " ++ id ++ " ")] else []
  | some (.stop id) => [.element "cancel" [("sendid", id)] []]

/-- The nodes of a description without surrogates. -/
def descriptionNodes (text : Option Text.CodePoints) : List Xml :=
  (text.toList.filter fun d => !d.isEmpty).map fun d =>
    .comment ((Text.string? (commentText d)).getD "")

/-- The nodes of the actions run on entering or leaving a state. -/
def hookNodes (name : String) (texts : List String) : List Xml :=
  if texts.isEmpty then [] else [.element name [] (texts.flatMap (actionNodes m))]

/-- The element of an arrow. -/
def arrowElement (event condition : Option String) (target : String) (texts : List String) : Xml :=
  .element "transition"
    (optional "event" event ++ optional "cond" condition ++ [("target", target)])
    (texts.flatMap (actionNodes m))

/-- The element of a transition. -/
def transitionElement (t : Transition) : Xml := arrowElement m t.event t.guard t.target t.actions

/-- The element of a branch. -/
def branchElement (b : Branch) : Xml := arrowElement m none b.condition b.target b.actions

/-- The branches of a choice in the order of the document, the default last. -/
def shownBranches (c : Choice) : List Branch := c.conditioned ++ c.default?.toList

/-- The transitions that leave a state. -/
def leaving (s : State) : List Transition := m.transitions.filter (·.source == s.id)

/-- The element of a state. -/
def stateElement (s : State) : Xml :=
  .element "state" [("id", s.id)] (descriptionNodes s.description ++
    hookNodes m "onentry" s.entry ++ hookNodes m "onexit" s.exit ++
    (leaving m s).map (transitionElement m))

/-- The element of a choice. -/
def choiceElement (c : Choice) : Xml :=
  .element "state" [("id", c.id)] ((shownBranches c).map (branchElement m))

/-- The root element of the document, if nothing stands in its way. -/
def tree : Xml :=
  .element "scxml" [("xmlns", xmlNamespace), ("version", "1.0"), ("name", m.name),
    ("initial", m.initial)] (m.states.map (stateElement m) ++ m.choices.map (choiceElement m))

/-! ### Delays -/

/-- If the action starts a timer, its duration can be written. -/
def HasDelay (text : String) : Prop :=
  ∀ t ∈ m.timers, TimerCommand.ofAction? text = some (.start t.id) → Text.HasNumeral t.duration

/-- The document shows the action: on entering, leaving or going on from a state, or on a branch. -/
def ShowsAction (text : String) : Prop :=
  (∃ s ∈ m.states, text ∈ s.entry ∨ text ∈ s.exit ∨ ∃ t ∈ leaving m s, text ∈ t.actions) ∨
    ∃ c ∈ m.choices, ∃ b ∈ c.branches, text ∈ b.actions

/-- Every timer that the document starts has a duration that can be written. -/
def HasDelays : Prop := ∀ text, ShowsAction m text → HasDelay m text

/-! ### What can stand in it -/

/-- What the nodes of the document can be. -/
inductive Node : Xml → Prop
  | root : Node (tree m)
  | state {s : State} (hs : s ∈ m.states) : Node (stateElement m s)
  | choice {c : Choice} (hc : c ∈ m.choices) : Node (choiceElement m c)
  | transition {t : Transition} (ht : t ∈ m.transitions) : Node (transitionElement m t)
  | branch {c : Choice} {b : Branch} (hc : c ∈ m.choices) (hb : b ∈ c.branches) :
    Node (branchElement m b)
  | hook {name : String} (hname : name = "onentry" ∨ name = "onexit") (children : List Xml) :
    Node (.element name [] children)
  | script (text : String) : Node (.textElement "script" text)
  | send {t : Timer} (ht : t ∈ m.timers) : Node (send t)
  | cancel {t : Timer} (ht : t ∈ m.timers) : Node (.element "cancel" [("sendid", t.id)] [])
  | note (text : String) : Node (.comment text)

/-- The nodes of actions have nothing inside them, and are neither states nor transitions. -/
theorem actionNodes_flat (text : String) : ∀ x ∈ actionNodes m text, x.children = [] ∧
    x.name? ≠ some "state" ∧ x.name? ≠ some "transition" := by
  intro x hx
  unfold actionNodes at hx
  split at hx
  · obtain rfl := List.mem_singleton.1 hx
    simp [Xml.children, Xml.name?]
  · split at hx
    · simp at hx
    · rcases List.mem_cons.1 hx with rfl | hx
      · simp [Xml.children, Xml.name?, send]
      · split at hx
        · obtain rfl := List.mem_singleton.1 hx
          simp [Xml.children, Xml.name?]
        · simp at hx
  · obtain rfl := List.mem_singleton.1 hx
    simp [Xml.children, Xml.name?]

theorem allNodes_actionNodes (texts : List String) :
    Xml.allNodes (texts.flatMap (actionNodes m)) = texts.flatMap (actionNodes m) := by
  refine Xml.allNodes_eq_self fun x hx => ?_
  obtain ⟨text, -, hx⟩ := List.mem_flatMap.1 hx
  exact (actionNodes_flat m text x hx).1

theorem called_actionNodes {name : String} (hname : name = "state" ∨ name = "transition")
    (texts : List String) : Xml.called name (texts.flatMap (actionNodes m)) = [] := by
  refine Xml.called_eq_nil fun x hx => ?_
  obtain ⟨text, -, hx⟩ := List.mem_flatMap.1 hx
  obtain ⟨-, hstate, htransition⟩ := actionNodes_flat m text x hx
  rcases hname with rfl | rfl
  · exact hstate
  · exact htransition

theorem nodes_arrowElement (event condition : Option String) (target : String)
    (texts : List String) : (arrowElement m event condition target texts).nodes =
      arrowElement m event condition target texts :: texts.flatMap (actionNodes m) := by
  rw [Xml.nodes_eq, arrowElement, Xml.children, allNodes_actionNodes]

theorem called_arrowElement (event condition : Option String) (target : String)
    (texts : List String) :
    Xml.called "transition" (arrowElement m event condition target texts).nodes =
        [arrowElement m event condition target texts] ∧
      Xml.called "state" (arrowElement m event condition target texts).nodes = [] := by
  have hinner := called_actionNodes m (.inr rfl) texts
  have hinner' := called_actionNodes m (.inl rfl) texts
  rw [nodes_arrowElement]
  constructor
  · exact (List.filter_cons_of_pos rfl).trans (congrArg _ hinner)
  · exact (List.filter_cons_of_neg (by simp [arrowElement, Xml.name?])).trans hinner'

/-- Of the nodes of arrows, the elements of the arrows are the transitions. -/
theorem called_arrows {α : Type} {f : α → Xml}
    (hf : ∀ a, ∃ event condition target texts, f a = arrowElement m event condition target texts)
    (as : List α) : Xml.called "transition" (Xml.allNodes (as.map f)) = as.map f ∧
      Xml.called "state" (Xml.allNodes (as.map f)) = [] := by
  have harrow : ∀ a, Xml.called "transition" (f a).nodes = [f a] ∧
      Xml.called "state" (f a).nodes = [] := by
    intro a
    obtain ⟨event, condition, target, texts, hfa⟩ := hf a
    rw [hfa]
    exact called_arrowElement m event condition target texts
  simp only [Xml.allNodes_map, Xml.called_flatMap, (harrow _).1, (harrow _).2]
  exact ⟨List.flatMap_pure_eq_map f as, List.flatMap_eq_nil_iff.2 fun _ _ => rfl⟩

theorem called_hookNodes {name hook : String} (hname : name = "state" ∨ name = "transition")
    (hhook : hook = "onentry" ∨ hook = "onexit") (texts : List String) :
    Xml.called name (Xml.allNodes (hookNodes m hook texts)) = [] := by
  have hinner := called_actionNodes m hname texts
  unfold hookNodes
  split
  · rfl
  · rw [Xml.allNodes, Xml.nodes_eq, Xml.children, allNodes_actionNodes, Xml.allNodes,
      List.append_nil]
    refine (List.filter_cons_of_neg ?_).trans hinner
    rcases hname with rfl | rfl <;> rcases hhook with rfl | rfl <;> simp [Xml.name?]

theorem called_descriptionNodes (name : String) (text : Option Text.CodePoints) :
    Xml.called name (Xml.allNodes (descriptionNodes text)) = [] := by
  rw [descriptionNodes, Xml.allNodes_map]
  refine Xml.called_eq_nil fun x hx => ?_
  obtain ⟨d, -, hx⟩ := List.mem_flatMap.1 hx
  obtain rfl := List.mem_singleton.1 hx
  simp [Xml.name?]

theorem called_stateElement (s : State) :
    Xml.called "transition" (stateElement m s).nodes = (leaving m s).map (transitionElement m) ∧
      Xml.called "state" (stateElement m s).nodes = [stateElement m s] := by
  have harrows := called_arrows m (f := transitionElement m) (fun t => ⟨_, _, _, _, rfl⟩)
    (leaving m s)
  have hinner : ∀ name, name = "state" ∨ name = "transition" →
      Xml.called name (Xml.allNodes (stateElement m s).children) =
        Xml.called name (Xml.allNodes ((leaving m s).map (transitionElement m))) := by
    intro name hname
    simp only [stateElement, Xml.children, Xml.allNodes_append, Xml.called_append,
      called_descriptionNodes, called_hookNodes m hname (.inl rfl),
      called_hookNodes m hname (.inr rfl), List.nil_append]
  rw [Xml.nodes_eq]
  constructor
  · refine (List.filter_cons_of_neg (by simp [stateElement, Xml.name?])).trans ?_
    exact (hinner "transition" (.inr rfl)).trans harrows.1
  · refine (List.filter_cons_of_pos rfl).trans (congrArg _ ?_)
    exact (hinner "state" (.inl rfl)).trans harrows.2

theorem called_choiceElement (c : Choice) :
    Xml.called "transition" (choiceElement m c).nodes = (shownBranches c).map (branchElement m) ∧
      Xml.called "state" (choiceElement m c).nodes = [choiceElement m c] := by
  have harrows := called_arrows m (f := branchElement m) (fun b => ⟨_, _, _, _, rfl⟩)
    (shownBranches c)
  rw [Xml.nodes_eq]
  constructor
  · exact (List.filter_cons_of_neg (by simp [choiceElement, Xml.name?])).trans harrows.1
  · exact (List.filter_cons_of_pos rfl).trans (congrArg _ harrows.2)

/-- The state elements of the document are those of the states and of the choices. -/
theorem called_state_tree : Xml.called "state" (tree m).nodes =
    m.states.map (stateElement m) ++ m.choices.map (choiceElement m) := by
  rw [Xml.nodes_eq]
  refine (List.filter_cons_of_neg (by simp [tree, Xml.name?])).trans ?_
  show Xml.called "state" (Xml.allNodes (tree m).children) = _
  simp only [tree, Xml.children, Xml.allNodes_append, Xml.called_append, Xml.allNodes_map,
    Xml.called_flatMap, (called_stateElement m _).2, (called_choiceElement m _).2]
  congr 1 <;> exact List.flatMap_pure_eq_map _ _

/-- The transition elements of the document are those of the transitions that leave states, and of
the branches. -/
theorem called_transition_tree : Xml.called "transition" (tree m).nodes =
    (m.states.flatMap fun s => (leaving m s).map (transitionElement m)) ++
      m.choices.flatMap fun c => (shownBranches c).map (branchElement m) := by
  rw [Xml.nodes_eq]
  refine (List.filter_cons_of_neg (by simp [tree, Xml.name?])).trans ?_
  show Xml.called "transition" (Xml.allNodes (tree m).children) = _
  simp only [tree, Xml.children, Xml.allNodes_append, Xml.called_append, Xml.allNodes_map,
    Xml.called_flatMap, (called_stateElement m _).1, (called_choiceElement m _).1]

/-! ## An accepted machine has a document -/

theorem admitted_eq_ok {s : String} (h : isXmlText s) : admitted s = .ok s := if_pos h

theorem attr_eq_ok (name : String) {value : String} (h : isXmlText value) :
    attr name value = .ok (name, value) := by
  rw [attr, admitted_eq_ok h]
  rfl

theorem attr?_eq_ok (name : String) {value : Option String} (h : ∀ v ∈ value.toList, isXmlText v) :
    attr? name value = .ok (optional name value) := by
  cases value with
  | none => rfl
  | some v =>
    rw [attr?, attr_eq_ok name (h v (by simp))]
    rfl

/-- The comment of a text that XML admits is one that XML admits. -/
theorem exists_commentText_eq {ps : Text.CodePoints} (h : isXmlPoints ps) :
    ∃ t, commentText ps = Text.codePoints t ∧ isXmlText t := by
  have hspaced : ∀ qs, isXmlPoints qs → isXmlPoints (spaceHyphens qs) := by
    intro qs
    fun_induction spaceHyphens qs with
    | case1 qs ih =>
      intro hqs
      have hrest := ih (by simpa [isXmlPoints] using hqs)
      simpa [isXmlPoints, Text.CodePoint.char?, isXmlChar] using hrest
    | case2 q qs _ ih =>
      intro hqs
      obtain ⟨hq, hqs⟩ := Bool.and_eq_true_iff.1 (List.all_cons.symm.trans hqs)
      exact List.all_cons.trans (Bool.and_eq_true_iff.2 ⟨hq, ih hqs⟩)
    | case3 => exact id
  have hspace : isXmlPoints [.char ' '] := rfl
  refine isXmlPoints_iff.1 ?_
  rw [commentText, isXmlPoints, List.all_cons, List.all_append]
  exact Bool.and_eq_true_iff.2 ⟨rfl, Bool.and_eq_true_iff.2 ⟨hspaced ps h, hspace⟩⟩

theorem description_eq_ok {text : Option Text.CodePoints} (h : ∀ ps ∈ text, isXmlPoints ps) :
    description text = .ok (descriptionNodes text) := by
  cases text with
  | none => rfl
  | some ps =>
    obtain ⟨t, ht, hxml⟩ := exists_commentText_eq (h ps rfl)
    by_cases hps : ps.isEmpty
    · simp only [description, hps, if_true, descriptionNodes, Option.toList_some, List.filter_cons,
        Bool.not_true, Bool.false_eq_true, if_false, List.filter_nil, List.map_nil]
      rfl
    · simp only [description, hps, if_false, ht, Text.encodable_codePoints, descriptionNodes,
        Option.toList_some, List.filter_cons, Bool.not_false, Bool.false_eq_true, if_true,
        List.filter_nil, List.map_cons, List.map_nil, Text.string?_codePoints, Option.getD_some]
      show (do return [Xml.comment (← admitted t)]) = .ok [Xml.comment t]
      rw [admitted_eq_ok hxml]
      rfl

section Strings

variable {d : Declaration}

theorem mem_strings_iff {text : String} : text ∈ d.strings ↔ text = d.name ∨
    (∃ marker ∈ d.initial, marker.target = text) ∨ (∃ s ∈ d.states, text ∈ s.strings) ∨
      (∃ c ∈ d.choices, text ∈ c.strings) ∨ (∃ t ∈ d.transitions, text ∈ t.strings) ∨
        ∃ t ∈ d.timers, text ∈ t.strings := by
  simp only [Declaration.strings, List.mem_cons, List.mem_append, List.mem_map, List.mem_flatMap,
    or_assoc]

theorem mem_strings_of_state {s : State} (hs : s ∈ d.states) {text : String}
    (h : text ∈ s.strings) : text ∈ d.strings :=
  mem_strings_iff.2 (.inr (.inr (.inl ⟨s, hs, h⟩)))

theorem mem_strings_of_choice {c : Choice} (hc : c ∈ d.choices) {text : String}
    (h : text ∈ c.strings) : text ∈ d.strings :=
  mem_strings_iff.2 (.inr (.inr (.inr (.inl ⟨c, hc, h⟩))))

theorem mem_strings_of_transition {t : Transition} (ht : t ∈ d.transitions) {text : String}
    (h : text ∈ t.strings) : text ∈ d.strings :=
  mem_strings_iff.2 (.inr (.inr (.inr (.inr (.inl ⟨t, ht, h⟩)))))

theorem mem_strings_of_timer {t : Timer} (ht : t ∈ d.timers) {text : String}
    (h : text ∈ t.strings) : text ∈ d.strings :=
  mem_strings_iff.2 (.inr (.inr (.inr (.inr (.inr ⟨t, ht, h⟩)))))

theorem mem_strings_of_branch {c : Choice} (hc : c ∈ d.choices) {b : Branch} (hb : b ∈ c.branches)
    {text : String} (h : text ∈ b.strings) : text ∈ d.strings :=
  mem_strings_of_choice hc (List.mem_cons_of_mem _ (List.mem_flatMap.2 ⟨b, hb, h⟩))

theorem mem_strings_of_acts {text : String} (h : d.Acts text) : text ∈ d.strings := by
  rcases h with ⟨s, hs, hmem⟩ | ⟨t, ht, hmem⟩ | ⟨c, hc, b, hb, hmem⟩
  · exact mem_strings_of_state hs (by simp [State.strings, hmem])
  · exact mem_strings_of_transition ht (by simp [Transition.strings, hmem])
  · exact mem_strings_of_branch hc hb (by simp [Branch.strings, hmem])

end Strings

section Lookups

variable {m} (hm : m.declaration.WellFormed)
include hm

/-- A timer that an action names is the one that is found. -/
theorem exists_timer {text : String} (ha : m.declaration.Acts text) {c : TimerCommand}
    (hc : TimerCommand.ofAction? text = some c) :
    ∃ t, m.timer? c.timer = some t ∧ t ∈ m.timers ∧ t.id = c.timer := by
  obtain ⟨t, ht⟩ := Option.isSome_iff_exists.1
    (m.isSome_timer?_of_mem (hm.command_mem text ha c hc))
  exact ⟨t, ht, List.mem_of_find?_eq_some ht, by simpa using List.find?_some ht⟩

/-- The default of a choice that has one is its last branch in the document, whatever its place. -/
theorem perm_shownBranches {c : Choice} (hc : c ∈ m.choices) :
    (shownBranches c).Perm c.branches := by
  have hlength : (c.branches.filter (·.isDefault)).length = 1 := by
    rw [← List.countP_eq_length_filter]
    exact hm.default_one c hc
  obtain ⟨b, hb⟩ := List.length_eq_one_iff.1 hlength
  have hdefault : c.default? = some b := by
    rw [Choice.default?, ← List.head?_filter, hb]
    rfl
  have hsplit := List.filter_append_perm (fun b : Branch => !b.isDefault) c.branches
  simp only [Bool.not_not, hb] at hsplit
  rwa [shownBranches, hdefault]

end Lookups

section Document

variable {m} (hm : m.declaration.WellFormed) (hx : AllXml m.declaration)
include hm hx

theorem yields_action {text : String} (ha : m.declaration.Acts text) :
    Yields (action m text) (HasDelay m text) (actionNodes m text) (.duration .tooLarge) := by
  have hstrings : ∀ t ∈ m.timers, isXmlText t.id ∧ isXmlText t.event := fun t ht =>
    ⟨hx.strings t.id (mem_strings_of_timer ht (by simp [Timer.strings])),
      hx.strings t.event (mem_strings_of_timer ht (by simp [Timer.strings]))⟩
  cases hcommand : TimerCommand.ofAction? text with
  | none =>
    have hdelay : HasDelay m text := fun t _ hstart => by simp [hcommand] at hstart
    refine (Yields.of_eq ?_).congr (iff_of_true trivial hdelay)
    simp only [action, actionNodes, hcommand,
      admitted_eq_ok (hx.strings text (mem_strings_of_acts ha))]
    rfl
  | some c =>
    obtain ⟨t, ht, hmem, hid⟩ := exists_timer hm ha hcommand
    obtain ⟨hidXml, heventXml⟩ := hstrings t hmem
    cases c with
    | start id =>
      obtain rfl : t.id = id := hid
      have ht : m.timer? t.id = some t := ht
      have hdelay : Text.HasNumeral t.duration ↔ HasDelay m text := by
        refine ⟨fun h t' ht' hstart => ?_, fun h => h t hmem hcommand⟩
        obtain rfl : t' = t := by
          have hsame : t.id = t'.id := by simpa [hcommand] using hstart
          exact List.inj_on_of_nodup_map hm.timers_nodup ht' hmem hsame.symm
        exact h
      have haction : action m text = (Text.showInt t.duration).mapError ScxmlError.duration >>=
          fun duration => pure (.element "send" [("id", t.id), ("event", t.event),
            ("delay", duration ++ "ms")] [] ::
              if t.periodic then [.comment (" periodic timer " ++ t.id ++ " ")] else []) := by
        simp only [action, hcommand, ht, attr_eq_ok "id" hidXml, attr_eq_ok "event" heventXml]
        generalize (Text.showInt t.duration).mapError ScxmlError.duration = delay
        rfl
      have hnodes : actionNodes m text = send t ::
          if t.periodic then [.comment (" periodic timer " ++ t.id ++ " ")] else [] := by
        simp only [actionNodes, hcommand, ht]
      rw [haction, hnodes]
      exact (((Text.yields_showInt t.duration).mapError ScxmlError.duration).map _).congr hdelay
    | stop id =>
      obtain rfl : t.id = id := hid
      have hdelay : HasDelay m text := fun t' _ hstart => by simp [hcommand] at hstart
      refine (Yields.of_eq ?_).congr (iff_of_true trivial hdelay)
      simp only [action, actionNodes, hcommand, attr_eq_ok "sendid" hidXml]
      rfl

theorem yields_actions {texts : List String} (h : ∀ a ∈ texts, m.declaration.Acts a) :
    Yields (actions m texts) (∀ a ∈ texts, HasDelay m a) (texts.flatMap (actionNodes m))
      (.duration .tooLarge) := by
  have hall := Yields.mapM fun a ha => yields_action hm hx (h a ha)
  rw [List.flatMap_def]
  exact hall.map List.flatten

theorem yields_hook (name : String) {texts : List String}
    (h : ∀ a ∈ texts, m.declaration.Acts a) :
    Yields (hook m name texts) (∀ a ∈ texts, HasDelay m a) (hookNodes m name texts)
      (.duration .tooLarge) := by
  cases texts with
  | nil => exact (Yields.of_eq rfl).congr (by simp)
  | cons a texts => exact (yields_actions hm hx h).map fun xs => [Xml.element name [] xs]

theorem yields_transition {t : Transition} (ht : t ∈ m.transitions) :
    Yields (transition m t) (∀ a ∈ t.actions, HasDelay m a) (transitionElement m t)
      (.duration .tooLarge) := by
  have hstring : ∀ text ∈ t.strings, isXmlText text := fun text htext =>
    hx.strings text (mem_strings_of_transition ht htext)
  have hactions := yields_actions hm hx fun a ha => .inr (.inl ⟨t, ht, ha⟩)
  exact .bind_ok (attr?_eq_ok "event" fun v hv => hstring v (by simp_all [Transition.strings])) <|
    .bind_ok (attr?_eq_ok "cond" fun v hv => hstring v (by simp_all [Transition.strings])) <|
    .bind_ok (attr_eq_ok "target" (hstring t.target (by simp [Transition.strings]))) <|
    hactions.map _

theorem yields_branch {c : Choice} (hc : c ∈ m.choices) {b : Branch} (hb : b ∈ c.branches) :
    Yields (branch m b) (∀ a ∈ b.actions, HasDelay m a) (branchElement m b)
      (.duration .tooLarge) := by
  have hstring : ∀ text ∈ b.strings, isXmlText text := fun text htext =>
    hx.strings text (mem_strings_of_branch hc hb htext)
  have hactions := yields_actions hm hx fun a ha => .inr (.inr ⟨c, hc, b, hb, ha⟩)
  exact .bind_ok (attr?_eq_ok "cond" fun v hv => hstring v (by simp_all [Branch.strings])) <|
    .bind_ok (attr_eq_ok "target" (hstring b.target (by simp [Branch.strings]))) <|
    hactions.map _

theorem yields_state {s : State} (hs : s ∈ m.states) :
    Yields (state m s) ((∀ a ∈ s.entry, HasDelay m a) ∧ (∀ a ∈ s.exit, HasDelay m a) ∧
      ∀ t ∈ leaving m s, ∀ a ∈ t.actions, HasDelay m a) (stateElement m s)
      (.duration .tooLarge) := by
  have hid : isXmlText s.id :=
    hx.strings s.id (mem_strings_of_state hs (by simp [State.strings]))
  have hleaving := Yields.mapM fun t (ht : t ∈ leaving m s) =>
    yields_transition hm hx (List.mem_filter.1 ht).1
  exact .bind_ok (attr_eq_ok "id" hid) <|
    .bind_ok (description_eq_ok (hx.descriptions s hs)) <|
    (yields_hook hm hx "onentry" fun a ha => .inl ⟨s, hs, .inl ha⟩).bind <|
    (yields_hook hm hx "onexit" fun a ha => .inl ⟨s, hs, .inr ha⟩).bind <|
    hleaving.map _

theorem yields_choice {c : Choice} (hc : c ∈ m.choices) :
    Yields (choice m c) (∀ b ∈ c.branches, ∀ a ∈ b.actions, HasDelay m a) (choiceElement m c)
      (.duration .tooLarge) := by
  have hid : isXmlText c.id := hx.strings c.id (mem_strings_of_choice hc (by simp [Choice.strings]))
  have hconditioned := Yields.mapM fun b (hb : b ∈ c.conditioned) =>
    yields_branch hm hx hc (List.mem_filter.1 hb).1
  obtain ⟨b, hb, hdefault⟩ := m.exists_default hm hc
  have hshown : shownBranches c = c.conditioned ++ [b] := by rw [shownBranches, hdefault]; rfl
  have hchoice : Yields (choice m c) ((∀ b ∈ c.conditioned, ∀ a ∈ b.actions, HasDelay m a) ∧
      ∀ a ∈ b.actions, HasDelay m a) (choiceElement m c) (.duration .tooLarge) := by
    rw [choiceElement, hshown, List.map_append]
    refine .bind_ok (attr_eq_ok "id" hid) (hconditioned.bind ?_)
    simp only [hdefault]
    exact (yields_branch hm hx hc hb).map _
  refine hchoice.congr ?_
  have hmem : ∀ b', b' ∈ c.branches ↔ b' ∈ c.conditioned ∨ b' = b := fun b' => by
    rw [← (perm_shownBranches hm hc).mem_iff, hshown, List.mem_append, List.mem_singleton]
  simp only [hmem, or_imp, forall_and, forall_eq]

/-- **When an accepted machine has a document**: with texts that XML admits, it has one exactly if
all timers that the document starts have durations that can be written. -/
theorem yields_root : Yields (root m) (HasDelays m) (tree m) (.duration .tooLarge) := by
  have hname : isXmlText m.name := hx.strings m.name (List.mem_cons_self ..)
  have hinitial : isXmlText m.initial :=
    hx.strings m.initial (by simp [Declaration.strings, Definition.declaration])
  have hstates := Yields.mapM fun s (hs : s ∈ m.states) => yields_state hm hx hs
  have hchoices := Yields.mapM fun c (hc : c ∈ m.choices) => yields_choice hm hx hc
  have hroot : Yields (root m) _ (tree m) (.duration .tooLarge) :=
    .bind_ok (attr_eq_ok "name" hname) <| .bind_ok (attr_eq_ok "initial" hinitial) <|
      hstates.bind <| hchoices.map _
  refine hroot.congr ?_
  constructor
  · rintro ⟨hstates, hchoices⟩ a (⟨s, hs, ha⟩ | ⟨c, hc, b, hb, ha⟩)
    · obtain ⟨hentry, hexit, hleaving⟩ := hstates s hs
      rcases ha with ha | ha | ⟨t, ht, ha⟩
      · exact hentry a ha
      · exact hexit a ha
      · exact hleaving t ht a ha
    · exact hchoices c hc b hb a ha
  · intro h
    exact ⟨fun s hs => ⟨fun a ha => h a (.inl ⟨s, hs, .inl ha⟩),
      fun a ha => h a (.inl ⟨s, hs, .inr (.inl ha)⟩),
      fun t ht a ha => h a (.inl ⟨s, hs, .inr (.inr ⟨t, ht, ha⟩)⟩)⟩,
      fun c hc b hb a ha => h a (.inr ⟨c, hc, b, hb, ha⟩)⟩

end Document

/-! ## The nodes of the document -/

theorem mem_shownBranches {c : Choice} {b : Branch} (hb : b ∈ shownBranches c) :
    b ∈ c.branches := by
  rcases List.mem_append.1 hb with hb | hb
  · exact (List.mem_filter.1 hb).1
  · exact List.mem_of_find?_eq_some (Option.mem_toList.1 hb)

section Nodes

variable {m} (hm : m.declaration.WellFormed)
include hm

/-- An action starts and stops only timers of the machine. -/
theorem node_of_mem_actionNodes {text : String} (ha : m.declaration.Acts text) :
    ∀ x ∈ actionNodes m text, Node m x := by
  intro x hmem
  unfold actionNodes at hmem
  split at hmem
  · obtain rfl := List.mem_singleton.1 hmem
    exact .script text
  · rename_i id hid
    split at hmem
    · simp at hmem
    · rename_i t ht
      rcases List.mem_cons.1 hmem with rfl | hmem
      · exact .send (List.mem_of_find?_eq_some ht)
      · split at hmem
        · obtain rfl := List.mem_singleton.1 hmem
          exact .note _
        · simp at hmem
  · rename_i id hid
    obtain rfl := List.mem_singleton.1 hmem
    obtain ⟨t, ht, hsame⟩ := List.mem_map.1 (hm.command_mem text ha _ hid)
    obtain rfl : t.id = id := hsame
    exact .cancel ht

theorem node_of_mem_actions {texts : List String} (ha : ∀ a ∈ texts, m.declaration.Acts a) :
    ∀ x ∈ texts.flatMap (actionNodes m), Node m x := by
  intro x hmem
  obtain ⟨text, htext, hmem⟩ := List.mem_flatMap.1 hmem
  exact node_of_mem_actionNodes hm (ha text htext) x hmem

theorem node_of_mem_hook {hook : String} (hhook : hook = "onentry" ∨ hook = "onexit")
    {texts : List String} (ha : ∀ a ∈ texts, m.declaration.Acts a) :
    ∀ x ∈ Xml.allNodes (hookNodes m hook texts), Node m x := by
  intro x hmem
  unfold hookNodes at hmem
  split at hmem
  · simp [Xml.allNodes] at hmem
  · rw [Xml.allNodes, Xml.nodes_eq, Xml.children, allNodes_actionNodes, Xml.allNodes,
      List.append_nil] at hmem
    rcases List.mem_cons.1 hmem with rfl | hmem
    · exact .hook hhook _
    · exact node_of_mem_actions hm ha x hmem

theorem node_of_mem_state {s : State} (hs : s ∈ m.states) :
    ∀ x ∈ (stateElement m s).nodes, Node m x := by
  intro x hmem
  rw [Xml.nodes_eq] at hmem
  simp only [stateElement, Xml.children, Xml.allNodes_append, List.mem_cons, List.mem_append]
    at hmem
  rcases hmem with rfl | ((hnote | hentry) | hexit) | harrow
  · exact .state hs
  · rw [descriptionNodes, Xml.allNodes_map] at hnote
    obtain ⟨d, -, hnote⟩ := List.mem_flatMap.1 hnote
    obtain rfl := List.mem_singleton.1 hnote
    exact .note _
  · exact node_of_mem_hook hm (.inl rfl) (fun a ha => .inl ⟨s, hs, .inl ha⟩) x hentry
  · exact node_of_mem_hook hm (.inr rfl) (fun a ha => .inl ⟨s, hs, .inr ha⟩) x hexit
  · rw [Xml.allNodes_map] at harrow
    obtain ⟨t, ht, harrow⟩ := List.mem_flatMap.1 harrow
    have ht' : t ∈ m.transitions := (List.mem_filter.1 ht).1
    rw [transitionElement, nodes_arrowElement] at harrow
    rcases List.mem_cons.1 harrow with rfl | harrow
    · exact .transition ht'
    · exact node_of_mem_actions hm (fun a ha => .inr (.inl ⟨t, ht', ha⟩)) x harrow

theorem node_of_mem_choice {c : Choice} (hc : c ∈ m.choices) :
    ∀ x ∈ (choiceElement m c).nodes, Node m x := by
  intro x hmem
  rw [Xml.nodes_eq] at hmem
  rcases List.mem_cons.1 hmem with rfl | harrow
  · exact .choice hc
  · rw [choiceElement, Xml.children, Xml.allNodes_map] at harrow
    obtain ⟨b, hb, harrow⟩ := List.mem_flatMap.1 harrow
    rw [branchElement, nodes_arrowElement] at harrow
    rcases List.mem_cons.1 harrow with rfl | harrow
    · exact .branch hc (mem_shownBranches hb)
    · exact node_of_mem_actions hm
        (fun a ha => .inr (.inr ⟨c, hc, b, mem_shownBranches hb, ha⟩)) x harrow

/-- **The nodes of the document** are all of the kinds that `Node` lists. -/
theorem node_of_mem_tree : ∀ x ∈ (tree m).nodes, Node m x := by
  intro x hmem
  rw [Xml.nodes_eq] at hmem
  rcases List.mem_cons.1 hmem with rfl | hmem
  · exact .root
  · simp only [tree, Xml.children, Xml.allNodes_append, Xml.allNodes_map, List.mem_append,
      List.mem_flatMap] at hmem
    rcases hmem with ⟨s, hs, hmem⟩ | ⟨c, hc, hmem⟩
    · exact node_of_mem_state hm hs x hmem
    · exact node_of_mem_choice hm hc x hmem

end Nodes

end Scxml

end Export

end Statechart
