import Mathlib
import Statechart.Proofs.Codegen.Outline
import Statechart.Proofs.Model.Lookup
import Statechart.Proofs.Model.Writing

/-!
# The members of a generated module

A module declares its states and its events as the members of two enumerations. An identifier that
cannot be the name of a member is given another one, so that two identifiers may be given the same;
such a machine is refused, and only such a machine. The members themselves are read from the lines
of the module (`ShowsMembers`).

* `validName_memberName`: the name given to an identifier can be the name of a member.
* `firstSeen_eraseDups`: without repetitions, a list keeps its order of first appearance.

Main statement: `module_declares_members`.
-/

namespace Statechart

/-! ## Order of first appearance -/

/-- The list holds the elements of the other one, each once, in the order in which they appear there
first. -/
structure FirstSeen (ds xs : List String) : Prop where
  mem_iff : ∀ x, x ∈ ds ↔ x ∈ xs
  ordered : ds.Pairwise fun a b => xs.idxOf a < xs.idxOf b

theorem FirstSeen.nodup {ds xs : List String} (h : FirstSeen ds xs) : ds.Nodup :=
  h.ordered.imp fun {a b} hlt heq => by simp [heq] at hlt

/-- Of two elements that are kept, the same one comes first in what is kept. -/
theorem idxOf_filter_lt_iff {p : String → Bool} {a b : String} (ha : p a = true) (hb : p b = true)
    (xs : List String) :
    (xs.filter p).idxOf a < (xs.filter p).idxOf b ↔ xs.idxOf a < xs.idxOf b := by
  induction xs with
  | nil => rfl
  | cons x xs ih =>
    cases hx : p x with
    | true =>
      rw [List.filter_cons_of_pos hx]
      rcases eq_or_ne x a with rfl | hxa
      · rcases eq_or_ne x b with rfl | hxb
        · simp
        · simp [hxb]
      · rcases eq_or_ne x b with rfl | hxb
        · simp
        · simp [hxa, hxb, ih]
    | false =>
      have hne {y : String} (hy : p y = true) : (x == y) = false := by
        rw [beq_eq_false_iff_ne]
        rintro rfl
        rw [hx] at hy
        cases hy
      rw [List.filter_cons_of_neg (by simp [hx]), ih]
      simp [List.idxOf_cons, hne ha, hne hb]

theorem FirstSeen.filter {ds xs : List String} (h : FirstSeen ds xs) (p : String → Bool) :
    FirstSeen (ds.filter p) (xs.filter p) where
  mem_iff x := by rw [List.mem_filter, List.mem_filter, h.mem_iff]
  ordered := by
    rw [List.pairwise_filter]
    exact h.ordered.imp fun hlt ha hb => (idxOf_filter_lt_iff ha hb xs).2 hlt

theorem firstSeen_eraseDups (xs : List String) : FirstSeen xs.eraseDups xs := by
  induction hn : xs.length using Nat.strong_induction_on generalizing xs with
  | h n ih =>
    cases xs with
    | nil => exact ⟨fun x => by simp, .nil⟩
    | cons x xs =>
      have hlen : (xs.filter fun b => !b == x).length < n :=
        hn ▸ Nat.lt_succ_of_le (List.length_filter_le ..)
      have hrest := ih _ hlen (xs.filter fun b => !b == x) rfl
      have hne {y : String} (hy : y ∈ (xs.filter fun b => !b == x).eraseDups) : x ≠ y := by
        have := (List.mem_filter.1 ((hrest.mem_iff y).1 hy)).2
        rintro rfl
        simp at this
      refine ⟨fun y => List.mem_eraseDups, ?_⟩
      rw [List.eraseDups_cons]
      refine .cons (fun y hy => ?_) (hrest.ordered.imp_of_mem fun {a b} ha hb hlt => ?_)
      · simp [hne hy]
      · have hkeep {y : String} (hy : x ≠ y) : (!y == x) = true := by simp [Ne.symm hy]
        have hlt := (idxOf_filter_lt_iff (hkeep (hne ha)) (hkeep (hne hb)) xs).1 hlt
        simp [hne ha, hne hb, hlt]

theorem IsName.forall_isNameChar {s : String} (h : IsName s) :
    ∀ c ∈ s.toList, Grammar.isNameChar c := by
  unfold IsName at h
  generalize s.toList = cs at h
  cases h with
  | name hc hcs => exact List.forall_mem_cons.2 ⟨by simp [Grammar.isNameChar, hc], hcs⟩
  | spelled hs => cases hs

namespace Codegen

/-! ## Names of members -/

/-- The text can be the name of a member: it is an identifier that begins with no underscore, is no
keyword and is not taken by the enumeration itself. -/
structure ValidName (n : String) : Prop where
  name : IsName n
  head_ne : n.toList.head? ≠ some '_'
  notMem_keywords : n ∉ keywords
  notMem_attributes : n ∉ ["name", "value", "mro"]

theorem validName_memberName {id : String} (h : IsName id) : ValidName (memberName id) := by
  unfold memberName
  split
  · -- a marked name begins as no reserved one does
    generalize hn : "X_" ++ String.ofList (id.toList.dropWhile (· == '_')) = n
    have hlist : n.toList = 'X' :: '_' :: id.toList.dropWhile (· == '_') := by
      rw [← hn, String.toList_append]
      simp
    have hhead : n.toList.head? = some 'X' := by rw [hlist, List.head?_cons]
    have hchars : ∀ c ∈ id.toList, Grammar.isNameChar c := h.forall_isNameChar
    have hkeywords : ∀ k ∈ keywords ++ ["name", "value", "mro"], k.toList.head? ≠ some 'X' := by
      decide
    refine ⟨?_, by simp [hhead], fun hmem => ?_, fun hmem => ?_⟩
    · rw [IsName, hlist]
      refine .name rfl (List.forall_mem_cons.2 ⟨rfl, fun c hc => ?_⟩)
      exact hchars c ((List.dropWhile_sublist _).subset hc)
    · exact hkeywords n (List.mem_append_left _ hmem) hhead
    · exact hkeywords n (List.mem_append_right _ hmem) hhead
  · rename_i hfree
    simp only [needsMark, Bool.or_eq_true, List.contains_eq_mem, decide_eq_true_eq, beq_iff_eq,
      not_or] at hfree
    exact ⟨h, hfree.1.2, hfree.1.1, hfree.2⟩

/-! ## Identifiers that are given the same name -/

/-- Two different identifiers of a kind are given the same member name. -/
def Ambiguous (kind : String → Prop) : Prop :=
  ∃ a b, kind a ∧ kind b ∧ a ≠ b ∧ memberName a = memberName b

theorem findClash_eq_none_iff {seen ids : List String} :
    findClash seen ids = none ↔ (∀ a ∈ seen, ∀ b ∈ ids, memberName a ≠ memberName b) ∧
      ids.Pairwise fun a b => memberName a ≠ memberName b := by
  induction ids generalizing seen with
  | nil => simp [findClash]
  | cons id ids ih =>
    rw [findClash]
    cases hfind : seen.find? fun s => memberName s == memberName id with
    | some s =>
      have hs : memberName s = memberName id := by simpa using List.find?_some hfind
      simp only [reduceCtorEq, false_iff]
      rintro ⟨hseen, -⟩
      exact hseen s (List.mem_of_find?_eq_some hfind) id (by simp) hs
    | none =>
      have hid : ∀ s ∈ seen, memberName s ≠ memberName id := by simpa using hfind
      dsimp only
      rw [ih, List.forall_mem_append, List.pairwise_cons]
      constructor
      · rintro ⟨⟨hseen, hlast⟩, hids⟩
        exact ⟨fun a ha => List.forall_mem_cons.2 ⟨hid a ha, hseen a ha⟩, hlast id (by simp), hids⟩
      · rintro ⟨hseen, hlast, hids⟩
        refine ⟨⟨fun a ha b hb => hseen a ha b (List.mem_cons_of_mem _ hb), ?_⟩, hids⟩
        simpa using hlast

theorem findClash_nil_eq_none_iff (ids : List String) :
    findClash [] ids = none ↔ (ids.map memberName).Nodup := by
  rw [findClash_eq_none_iff, List.Nodup, List.pairwise_map]
  simp

/-- Identifiers are refused exactly if two of them are given the same name. -/
theorem exists_checkMembers_eq_error_iff (kind : MemberKind) {ids : List String}
    (hids : ids.Nodup) :
    (∃ e, checkMembers kind ids = .error e) ↔ Ambiguous (· ∈ ids) := by
  have hclash : (∃ e, checkMembers kind ids = .error e) ↔ findClash [] ids ≠ none := by
    unfold checkMembers
    cases findClash [] ids <;> simp
  rw [hclash, Ne, findClash_nil_eq_none_iff, List.nodup_map_iff_inj_on hids]
  simp only [Ambiguous, not_forall]
  constructor
  · rintro ⟨a, ha, b, hb, hname, hne⟩
    exact ⟨a, b, ha, hb, hne, hname⟩
  · rintro ⟨a, b, ha, hb, hne, hname⟩
    exact ⟨a, ha, b, hb, hname, hne⟩

theorem nodup_map_memberName {kind : MemberKind} {ids : List String}
    (h : checkMembers kind ids = .ok ()) : (ids.map memberName).Nodup := by
  rw [← findClash_nil_eq_none_iff]
  unfold checkMembers at h
  split at h
  · cases h
  · assumption

/-! ## The events of a module -/

/-- The event is that of a transition or of a timer. -/
def HasEvent (m : Definition) (e : String) : Prop :=
  (∃ t ∈ m.transitions, t.event = some e) ∨ ∃ t ∈ m.timers, t.event = e

theorem firstSeen_events (m : Definition) :
    FirstSeen m.events (m.transitions.filterMap Transition.event) := firstSeen_eraseDups _

/-- The events of timers that are none of transitions. -/
theorem firstSeen_posted (m : Definition) :
    FirstSeen (m.timerEvents.filter fun e => !m.events.contains e)
      ((m.timers.map Timer.event).filter fun e => !m.events.contains e) :=
  (firstSeen_eraseDups _).filter _

theorem mem_moduleEvents (m : Definition) (e : String) : e ∈ moduleEvents m ↔ HasEvent m e := by
  have htransition : e ∈ m.events ↔ ∃ t ∈ m.transitions, t.event = some e := by
    rw [(firstSeen_events m).mem_iff, List.mem_filterMap]
  have htimer : e ∈ m.timerEvents ↔ ∃ t ∈ m.timers, t.event = e := by
    rw [Definition.timerEvents, List.mem_eraseDups, List.mem_map]
  rw [moduleEvents, List.mem_append, List.mem_filter, htimer, HasEvent, ← htransition]
  by_cases he : e ∈ m.events <;> simp [he]

theorem nodup_moduleEvents (m : Definition) : (moduleEvents m).Nodup := by
  refine List.nodup_append.2 ⟨(firstSeen_events m).nodup, (firstSeen_posted m).nodup, ?_⟩
  intro a ha b hb
  have hb := (List.mem_filter.1 hb).2
  rintro rfl
  simp [ha] at hb

/-! ## Enumerations -/

/-- A member of an enumeration: its name, and the identifier that it stands for. -/
structure Member where
  name : String
  value : String
  deriving DecidableEq, Repr

/-- The line declares the member: it gives the name a text that is read as the identifier. -/
def Declares (line : String) (x : Member) : Prop :=
  ∃ shown, line = "    " ++ x.name ++ " = " ++ shown ∧ Display.read shown = some (.text x.value)

/-- The lines are an enumeration with the members, one on each line. -/
def Enumerates (name : String) (ls : List String) (members : List Member) : Prop :=
  ∃ body, ls = ("class " ++ name ++ "(enum.Enum):") :: body ∧
    if members = [] then body = ["    pass"] else List.Forall₂ Declares body members

/-- The text of the machine's module declares the members: before the initial state, its lines are
an enumeration of states and one of events. After it, no class is declared but that of the machine;
only a name that is not on one line may bring in others. -/
def ShowsMembers (machine text : String) (states events : List Member) : Prop :=
  ∃ before block after ls ls', text = before ++ "\n" ++ block ++ "INITIAL = " ++ after ∧
    Text.lines block = ls ++ ["", ""] ++ ls' ++ ["", ""] ∧
    Enumerates "State" ls states ∧ Enumerates "Event" ls' events ∧
    (Text.Unbroken machine → (Text.lines after).filter (begins "class ") =
      ["class " ++ machine ++ "Machine:"])

/-- The members stand for the identifiers one to one, in their order, under valid names. -/
structure StandFor (members : List Member) (ids : List String) : Prop where
  values_eq : members.map Member.value = ids
  values_nodup : ids.Nodup
  names_nodup : (members.map Member.name).Nodup
  names_valid : ∀ x ∈ members, ValidName x.name

/-- The members for identifiers. -/
def membersOf (ids : List String) : List Member := ids.map fun id => ⟨memberName id, id⟩

theorem standFor_membersOf {kind : MemberKind} {ids : List String}
    (hcheck : checkMembers kind ids = .ok ()) (hids : ids.Nodup) (hnames : ∀ id ∈ ids, IsName id) :
    StandFor (membersOf ids) ids where
  values_eq := by simp [membersOf, Function.comp_def]
  values_nodup := hids
  names_nodup := by
    have h := nodup_map_memberName hcheck
    simpa [membersOf, Function.comp_def] using h
  names_valid x hx := by
    obtain ⟨id, hid, rfl⟩ := List.mem_map.1 hx
    exact validName_memberName (hnames id hid)

theorem declares_memberLine (id : String) : Declares (memberLine id) ⟨memberName id, id⟩ :=
  ⟨Text.quote id, rfl, (Display.shown_quote id).read_eq⟩

/-- The lines that are written for an enumeration. -/
def enumerationLines (name : String) (ids : List String) : List String :=
  ("class " ++ name ++ "(enum.Enum):") :: if ids = [] then ["    pass"] else ids.map memberLine

theorem enumerates_enumerationLines (name : String) (ids : List String) :
    Enumerates name (enumerationLines name ids) (membersOf ids) := by
  refine ⟨_, rfl, ?_⟩
  by_cases hids : ids = []
  · simp [hids, membersOf]
  · rw [if_neg (by simpa [membersOf] using hids), if_neg hids, membersOf,
      List.forall₂_map_left_iff, List.forall₂_map_right_iff, List.forall₂_same]
    exact fun id _ => declares_memberLine id

theorem enumerations_eq {m : Definition} (hm : m.states ≠ []) :
    enumerations m = enumerationLines "State" (m.states.map State.id) ++ ["", ""] ++
      enumerationLines "Event" (moduleEvents m) ++ ["", ""] := by
  have hstates : m.states.map State.id ≠ [] := by simpa using hm
  simp only [enumerations, enumerationLines, if_neg hstates, List.isEmpty_iff, List.map_map]
  split <;> simp [Function.comp_def]

theorem unbroken_of_isName {s : String} (h : IsName s) : Text.Unbroken s := fun c hc =>
  Text.isBreak_eq_false_of (by decide) (h.forall_isNameChar c hc)

theorem unbroken_of_mem_enumerationLines {name : String} (hname : Text.Unbroken name)
    {ids : List String} (hids : ∀ id ∈ ids, IsName id) :
    ∀ l ∈ enumerationLines name ids, Text.Unbroken l := by
  have hhead : Text.Unbroken ("class " ++ name ++ "(enum.Enum):") :=
    (Text.Unbroken.append (by decide) hname).append (by decide)
  refine List.forall_mem_cons.2 ⟨hhead, ?_⟩
  split
  · simpa using show Text.Unbroken "    pass" by decide
  · intro l hl
    obtain ⟨id, hid, rfl⟩ := List.mem_map.1 hl
    have hmember := unbroken_of_isName (validName_memberName (hids id hid)).name
    exact ((Text.Unbroken.append (by decide) hmember).append (by decide)).append
      (Display.unbroken_quote id)

/-! ## Generation -/

section

variable {m : Definition} {target : Option Value} {source : Option String} {text : String}

theorem generateFor_definition (htarget : target = none ∨ target = some (.text standard)) :
    generateFor (.definition m) target source none = generate m source := by
  have hcheck : checkTarget target = .ok () := by
    rcases htarget with rfl | rfl
    · rfl
    · simp [checkTarget]
  simp only [generateFor, hcheck]
  cases generate m source <;> rfl

theorem exists_generate_eq_refused_iff :
    (∃ e, generate m source = .error (.refused e)) ↔ ∃ e, checkNames m = .error e := by
  unfold generate
  cases checkNames m with
  | error e => simp [Except.mapError, bind, Except.bind]
  | ok _ => cases render m source <;> simp [Except.mapError, bind, Except.bind]

theorem exists_checkNames_eq_error_iff :
    (∃ e, checkNames m = .error e) ↔
      (∃ e, checkMembers .state (m.states.map State.id) = .error e) ∨
        ∃ e, checkMembers .event (moduleEvents m) = .error e := by
  unfold checkNames
  cases checkMembers .state (m.states.map State.id) <;> simp [bind, Except.bind]

theorem checkNames_eq_ok_iff :
    checkNames m = .ok () ↔ checkMembers .state (m.states.map State.id) = .ok () ∧
      checkMembers .event (moduleEvents m) = .ok () := by
  unfold checkNames
  cases checkMembers .state (m.states.map State.id) <;> simp [bind, Except.bind]

/-- After the initial state, the only class is that of the machine. -/
theorem filter_class_laterLines {dispatch : List String} (hname : Text.Unbroken m.name)
    (hdispatch : tableLines (tables m) = .ok dispatch) :
    (Text.lines (Text.quote m.initial ++ "\n" ++ joinLines ("" :: laterLines m dispatch))).filter
      (begins "class ") = ["class " ++ m.name ++ "Machine:"] := by
  have hvalue : ∀ l ∈ [Text.quote m.initial, ""], Aside l :=
    List.forall_mem_cons.2 ⟨aside_quote m.initial, by decide⟩
  have houtline := (outlines_of_aside hvalue).append (outlines_laterLines hname hdispatch)
  have hlines :
      Text.lines (Text.quote m.initial ++ "\n" ++ joinLines ("" :: laterLines m dispatch)) =
        [Text.quote m.initial, ""] ++ laterLines m dispatch := by
    obtain ⟨hquote, hlater⟩ := List.forall_mem_cons.1 houtline.unbroken
    exact (Text.lines_append hquote _).trans (congrArg _ (lines_joinLines hlater))
  rw [hlines]
  exact (houtline.filter_begins (by decide)).trans (filter_class_outline m.name)

/-- A module that has been written declares its members. -/
theorem showsMembers_of_generate (hm : m.states ≠ [])
    (hstates : ∀ id ∈ m.states.map State.id, IsName id)
    (hevents : ∀ e ∈ moduleEvents m, IsName e) (h : generate m source = .ok text) :
    ShowsMembers m.name text (membersOf (m.states.map State.id)) (membersOf (moduleEvents m)) := by
  obtain ⟨-, dispatch, hdispatch, rfl⟩ := exists_of_generate_eq_ok h
  have hne : headerLines m.name source ++ ([""] ++ documentation m.name) ≠ [] :=
    List.cons_ne_nil _ _
  obtain ⟨before, hbefore⟩ := exists_joinLines_eq hne
  have hunbroken : ∀ l ∈ enumerations m, Text.Unbroken l := by
    have hblank : ∀ l ∈ ["", ""], Text.Unbroken l := by decide
    rw [enumerations_eq hm]
    simp only [List.forall_mem_append]
    exact ⟨⟨⟨unbroken_of_mem_enumerationLines (by decide) hstates, hblank⟩,
      unbroken_of_mem_enumerationLines (by decide) hevents⟩, hblank⟩
  refine ⟨before, joinLines (enumerations m),
    Text.quote m.initial ++ "\n" ++ joinLines ("" :: laterLines m dispatch), _, _, ?_,
    (lines_joinLines hunbroken).trans (enumerations_eq hm), enumerates_enumerationLines ..,
    enumerates_enumerationLines .., fun hname => filter_class_laterLines hname hdispatch⟩
  rw [joinLines_append, joinLines_append, joinLines_append, hbefore]
  simp only [joinLines_cons, String.append_assoc]
  rfl

end

/-- **A module declares its states and its events.** An accepted machine whose states and events
are identifiers is refused exactly if two different states, or two different events, are given the
same member name. Otherwise it has a module, unless the duration of a timer cannot be written. The
members of the module stand one to one for the states, in the order of their declaration, and for
the events: those of transitions, then those of timers that are none of transitions, each in the
order in which they appear first. All names of members are valid. -/
theorem module_declares_members {m : Definition} (hm : m.Accepted)
    (hstates : ∀ s ∈ m.states, IsName s.id)
    (htransitions : ∀ t ∈ m.transitions, ∀ e ∈ t.event, IsName e)
    (htimers : ∀ t ∈ m.timers, IsName t.event) {target : Option Value}
    (htarget : target = none ∨ target = some (.text standard)) (source : Option String) :
    ((∃ e, generateFor (.definition m) target source none = .error (.refused e)) ↔
      Ambiguous (fun id => ∃ s ∈ m.states, s.id = id) ∨ Ambiguous (HasEvent m)) ∧
    (¬ (Ambiguous (fun id => ∃ s ∈ m.states, s.id = id) ∨ Ambiguous (HasEvent m)) →
      ((∀ t ∈ m.timers, Text.HasNumeral t.duration) →
        ∃ text, generateFor (.definition m) target source none = .ok text) ∧
      (¬ (∀ t ∈ m.timers, Text.HasNumeral t.duration) →
        generateFor (.definition m) target source none = .error (.numeral .tooLarge))) ∧
    ∀ text, generateFor (.definition m) target source none = .ok text →
      ∃ states events triggers posted, ShowsMembers m.name text states events ∧
        StandFor states (m.states.map State.id) ∧ StandFor events (triggers ++ posted) ∧
        FirstSeen triggers (m.transitions.filterMap Transition.event) ∧
        FirstSeen posted ((m.timers.map Timer.event).filter fun e => !triggers.contains e) := by
  have hnames : ∀ id ∈ m.states.map State.id, IsName id := by simpa using hstates
  have hevents : ∀ e ∈ moduleEvents m, IsName e := by
    intro e he
    rcases (mem_moduleEvents m e).1 he with ⟨t, ht, he⟩ | ⟨t, ht, rfl⟩
    · exact htransitions t ht e he
    · exact htimers t ht
  have hnonempty : m.states ≠ [] := by
    obtain ⟨marker, -, hmem⟩ := hm.wellFormed.initial
    exact List.ne_nil_of_mem (List.mem_map.1 hmem).choose_spec.1
  have hrefused : (∃ e, checkNames m = .error e) ↔
      Ambiguous (fun id => ∃ s ∈ m.states, s.id = id) ∨ Ambiguous (HasEvent m) := by
    have hdeclared (id : String) : (∃ s ∈ m.states, s.id = id) ↔ id ∈ m.states.map State.id :=
      List.mem_map.symm
    rw [exists_checkNames_eq_error_iff, exists_checkMembers_eq_error_iff _ m.states_nodup,
      exists_checkMembers_eq_error_iff _ (nodup_moduleEvents m)]
    simp only [hdeclared, mem_moduleEvents]
  rw [generateFor_definition htarget]
  refine ⟨exists_generate_eq_refused_iff.trans hrefused, fun hnot => ?_, fun text htext => ?_⟩
  · have hok : checkNames m = .ok () := by
      cases hcheck : checkNames m with
      | error e => exact absurd (hrefused.1 ⟨e, hcheck⟩) hnot
      | ok _ => rfl
    obtain ⟨text, hyields⟩ := exists_yields_generate hok source
    exact ⟨fun hdurations => ⟨text, hyields.ok hdurations⟩, hyields.error⟩
  · obtain ⟨hcheck, hcheck'⟩ := checkNames_eq_ok_iff.1 (exists_of_generate_eq_ok htext).1
    exact ⟨_, _, _, _, showsMembers_of_generate hnonempty hnames hevents htext,
      standFor_membersOf hcheck m.states_nodup hnames,
      standFor_membersOf hcheck' (nodup_moduleEvents m) hevents, firstSeen_events m,
      firstSeen_posted m⟩

end Codegen

/-! ## A samovar -/

namespace Samovar

/-- A samovar with states and events that cannot be members as they are. -/
def machine : Definition where
  name := "samovar"
  initial := "class"
  states := [⟨"class", none, [], [], none⟩, ⟨"__", none, ["start_timer(t)"], [], none⟩,
    ⟨"X__", none, [], [], none⟩]
  choices := []
  transitions := [⟨"class", "__", some "name", none, [], none⟩,
    ⟨"__", "class", some "stop", none, [], none⟩, ⟨"__", "X__", some "_late", none, [], none⟩,
    ⟨"X__", "class", some "name", none, [], none⟩]
  timers := [⟨"t", 5, "_late", false, none⟩, ⟨"u", 9, "_cold", true, none⟩,
    ⟨"v", 9, "stop", true, none⟩]
  states_nodup := by decide
  choices_nodup := List.nodup_nil

theorem accepted : machine.Accepted :=
  .of_wellFormed ((Validation.errors_eq_nil_iff _).1 (by cbv))

open Codegen in
/-- The samovar has a module, which declares three states and four events. -/
theorem samovar_declares_members :
    ∃ text, generateFor (.definition machine) none none none = .ok text ∧
      ∃ states events triggers posted, ShowsMembers "samovar" text states events ∧
        StandFor states ["class", "__", "X__"] ∧ StandFor events (triggers ++ posted) ∧
        FirstSeen triggers ["name", "stop", "_late", "name"] ∧
        FirstSeen posted (["_late", "_cold", "stop"].filter fun e => !triggers.contains e) := by
  obtain ⟨hrefused, hwritten, hmembers⟩ :=
    module_declares_members accepted (by decide) (by decide) (by decide) (.inl rfl) none
  have hnames : checkNames machine = .ok () := rfl
  have haccepted :
      ¬ ∃ e, generateFor (.definition machine) none none none = .error (.refused e) := by
    rw [generateFor_definition (.inl rfl), exists_generate_eq_refused_iff, hnames]
    rintro ⟨e, he⟩
    cases he
  have hdurations : ∀ t ∈ machine.timers, Text.HasNumeral t.duration := by decide +kernel
  obtain ⟨text, htext⟩ := (hwritten fun h => haccepted (hrefused.2 h)).1 hdurations
  exact ⟨text, htext, hmembers text htext⟩

end Samovar

end Statechart
