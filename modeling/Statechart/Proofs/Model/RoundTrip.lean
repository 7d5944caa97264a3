import Mathlib
import Statechart.Proofs.Model.Writing

/-!
# A declaration that is written reads back

The text of a declaration is read line by line. After each line the reader stands where the next
item may come, and the items read so far declare what has been written (`Stands`).

Main statement: `exists_read_write_same`, the text of a declaration that can be written declares
the same.
-/

namespace Statechart

open Grammar (Stage Draft Token Item Comes AtBody AtHooks AtBranches ActionSite HookKind HookLine
  OpenState ChoiceItem BranchLine TransitionItem)

/-! ## Action lists -/

section

variable {s : Stage} {site : ActionSite} {as : List String} {P : Stage → Prop}

/-- An action list is read action by action. -/
theorem comes_actionWords (hne : as ≠ []) (has : ∀ a ∈ as, IsAction a) (done : List Token) :
    Comes (fun s => ∃ more, s = .actionRead site (done ++ more) ∧ Declaration.actions more = as)
      (.actionWanted site done) (actionWords as) := by
  induction as generalizing done with
  | nil => exact absurd rfl hne
  | cons a rest ih =>
    have ha : IsAction a := has a (by simp)
    have htrim (span : Span) (more : List Token) :
        Declaration.actions (⟨.action, a, span⟩ :: more) = a :: Declaration.actions more := by
      rw [Declaration.actions, List.map_cons, ha.trim_eq]
      rfl
    cases rest with
    | nil =>
      exact .read (Grammar.lexes_action ha) fun span => ⟨_, rfl, [_], rfl, htrim span []⟩
    | cons b rest =>
      refine .read (Grammar.lexes_action ha) fun span => ⟨_, rfl, ?_⟩
      refine .mark (.semicolon, ";") (by decide) rfl fun _ => ⟨_, rfl, ?_⟩
      refine (ih (by simp) (fun x hx => has x (List.mem_cons_of_mem _ hx)) _).mono ?_
      rintro _ ⟨more, rfl, hmore⟩
      refine ⟨⟨.action, a, span⟩ :: more, by simp, ?_⟩
      rw [htrim, hmore]

/-- Actions after a slash, which may be left out. -/
theorem comes_slashWords (hslash : s.expected.contains .slash = true)
    (hnext : ∀ span, s.next ⟨.slash, "/", span⟩ = .ok (.actionWanted site []))
    (has : ∀ a ∈ as, IsAction a) (hnone : as = [] → P s)
    (hsome : ∀ done, Declaration.actions done = as → P (.actionRead site done)) :
    Comes P s (slashWords as) := by
  cases as with
  | nil => exact hnone rfl
  | cons a rest =>
    refine .mark (.slash, "/") (by decide) hslash fun span => ⟨_, hnext span, ?_⟩
    refine (comes_actionWords (by simp) has []).mono ?_
    rintro _ ⟨done, rfl, hdone⟩
    exact hsome done hdone

end

/-! ## States -/

section

variable {s : Stage} {d : Draft} {o : OpenState}

/-- One line of actions, which may be left out. -/
theorem comes_hookWords {as : List String} (kind : HookKind) (h : AtHooks s d o)
    (has : ∀ a ∈ as, IsAction a) :
    Comes (fun s' => ∃ lines, AtHooks s' d { o with hooks := o.hooks ++ lines } ∧
      ∀ k, Declaration.hookActions k lines = if kind = k then as else [])
      s (hookWords kind as) := by
  cases as with
  | nil => exact ⟨[], by rwa [List.append_nil], fun k => (ite_self _).symm⟩
  | cons a rest =>
    have hline (done : List Token) (hdone : Declaration.actions done = a :: rest) (k : HookKind) :
        Declaration.hookActions k [⟨kind, done⟩] = if kind = k then a :: rest else [] := by
      cases kind <;> cases k <;> simp [Declaration.hookActions, hdone]
    have hslash : Comes (fun s' => ∃ lines, AtHooks s' d { o with hooks := o.hooks ++ lines } ∧
        ∀ k, Declaration.hookActions k lines = if kind = k then a :: rest else [])
        (.hookSlash d o kind) ("/" :: actionWords (a :: rest)) := by
      refine .mark (.slash, "/") (by decide) rfl fun _ => ⟨_, rfl, ?_⟩
      refine (comes_actionWords (by simp) has []).mono ?_
      rintro _ ⟨done, rfl, hdone⟩
      exact ⟨[⟨kind, done⟩], .actionRead d o kind done, hline done hdone⟩
    cases kind with
    | entry =>
      exact h.readsAs.keyword (.entry, "entry") (by decide) (by decide) fun _ => ⟨_, rfl, hslash⟩
    | exit =>
      exact h.readsAs.keyword (.exit, "exit") (by decide) (by decide) fun _ => ⟨_, rfl, hslash⟩

theorem hookActions_append (kind : HookKind) (lines lines' : List HookLine) :
    Declaration.hookActions kind (lines ++ lines') =
      Declaration.hookActions kind lines ++ Declaration.hookActions kind lines' := by
  simp only [Declaration.hookActions, List.filter_append, List.flatMap_append]

/-- The body of a state, which may be left out. -/
theorem comes_bodyWords {x : State} {n : Token} {description : Option Token}
    (h : AtBody s (d.add (.state ⟨n, description, none⟩)))
    (hopen : s.expected.contains .openBrace = true)
    (hnext : ∀ span, s.next ⟨.openBrace, "\x7b", span⟩ = .ok (.hooks d ⟨n, description, []⟩))
    (hentry : ∀ a ∈ x.entry, IsAction a) (hexit : ∀ a ∈ x.exit, IsAction a) :
    Comes (fun s' => ∃ hooks, AtBody s' (d.add (.state ⟨n, description, hooks⟩)) ∧
      Declaration.hookActions .entry (hooks.getD []) = x.entry ∧
      Declaration.hookActions .exit (hooks.getD []) = x.exit) s x.bodyWords := by
  unfold State.bodyWords
  split
  · rename_i hempty
    simp only [Bool.and_eq_true, List.isEmpty_iff] at hempty
    obtain ⟨hnoentry, hnoexit⟩ := hempty
    exact ⟨none, h, hnoentry.symm, hnoexit.symm⟩
  · refine .mark (.openBrace, "\x7b") (by decide) hopen fun span => ⟨_, hnext span, ?_⟩
    refine (comes_hookWords .entry (.hooks d ⟨n, description, []⟩) hentry).trans ?_
    rintro s' ⟨lines, hs', hlines⟩
    refine (comes_hookWords .exit hs' hexit).trans ?_
    rintro s'' ⟨lines', hs'', hlines'⟩
    refine hs''.readsAs.mark (.closeBrace, "\x7d") (by decide) (by decide) fun _ => ⟨_, rfl, ?_⟩
    refine ⟨some (lines ++ lines'), .body _, ?_, ?_⟩
    · rw [Option.getD_some, hookActions_append, hlines, hlines', if_pos rfl, if_neg (by decide),
        List.append_nil]
    · rw [Option.getD_some, hookActions_append, hlines, hlines', if_pos rfl, if_neg (by decide),
        List.nil_append]

/-- A state is read, and as it was written. -/
theorem comes_state (names : Text.CharacterNames) (h : AtBody s d) {x : State} (hid : IsName x.id)
    (hentry : ∀ a ∈ x.entry, IsAction a) (hexit : ∀ a ∈ x.exit, IsAction a) :
    Comes (fun s' => ∃ i, AtBody s' (d.add (.state i)) ∧
      ∃ x', Declaration.state names i = .ok x' ∧ x'.bare = x.bare) s x.words := by
  refine h.readsAs.keyword (.state, "state") (by decide) (by decide) fun _ => ⟨_, rfl, ?_⟩
  refine .name rfl hid fun span => ⟨_, rfl, ?_⟩
  cases hx : x.description with
  | none =>
    refine (comes_bodyWords (.stateNamed d _) rfl (fun _ => rfl) hentry hexit).mono ?_
    rintro s' ⟨hooks, hs', hins, hout⟩
    refine ⟨_, hs', _, rfl, ?_⟩
    simp [State.bare, hins, hout, hx]
  | some text =>
    refine .mark (.colon, ":") (by decide) rfl fun _ => ⟨_, rfl, ?_⟩
    refine .read (Grammar.lexes_string (matches_toLiteral text)) fun _ => ⟨_, rfl, ?_⟩
    refine (comes_bodyWords (.stateDescribed d _ _) rfl (fun _ => rfl) hentry hexit).mono ?_
    rintro s' ⟨hooks, hs', hins, hout⟩
    refine ⟨_, hs', ⟨x.id, some text, x.entry, x.exit, some span⟩, ?_, ?_⟩
    · simp only [Declaration.state, Text.ofLiteral_toLiteral, hins, hout]
      rfl
    · simp [State.bare, hx]

end

/-! ## Transitions -/

section

variable {s : Stage} {d : Draft}

/-- The actions of a transition. -/
theorem comes_transitionActions {i : TransitionItem} {as : List String}
    (h : AtBody s (d.add (.transition i))) (hslash : s.expected.contains .slash = true)
    (hnext : ∀ span, s.next ⟨.slash, "/", span⟩ = .ok (.actionWanted (.transition d i) []))
    (hi : i.actions = none) (has : ∀ a ∈ as, IsAction a) :
    Comes (fun s' => ∃ actions, AtBody s' (d.add (.transition { i with actions })) ∧
      (actions.map Declaration.actions).getD [] = as) s (slashWords as) := by
  refine comes_slashWords hslash hnext has (fun hnone => ?_) fun done hdone => ?_
  · refine ⟨none, ?_, hnone.symm⟩
    rwa [← hi]
  · exact ⟨some done, .actionRead d i done, hdone⟩

/-- The guard of a transition and its actions. -/
theorem comes_guardWords {i : TransitionItem} {g : String} {as : List String} (hg : IsGuard g)
    (hguard : s.expected.contains .guard = true) (helse : s.expected.contains .elseMark = false)
    (hnext : ∀ t : Token, t.kind = .guard →
      s.next t = .ok (.guardRead d { i with guard := some t }))
    (hi : i.actions = none) (has : ∀ a ∈ as, IsAction a) :
    Comes (fun s' => ∃ guard actions,
        AtBody s' (d.add (.transition { i with guard := some guard, actions })) ∧
        Declaration.condition guard = g ∧ (actions.map Declaration.actions).getD [] = as) s
      (bracketed g :: slashWords as) := by
  have hlexes : Grammar.Lexes s.expected .guard (bracketed g).toList :=
    Grammar.lexes_guard hg.matches_bracketed hguard (.inl helse)
  refine .read hlexes fun span => ⟨_, hnext _ rfl, ?_⟩
  let i' : TransitionItem := { i with guard := some ⟨.guard, bracketed g, span⟩ }
  refine (comes_transitionActions (i := i') (.guardRead d _) rfl (fun _ => rfl) hi has).mono ?_
  rintro s' ⟨actions, hs', hactions⟩
  exact ⟨_, actions, hs', hg.condition_bracketed _ span, hactions⟩

/-- The trigger of a transition, which may be left out. -/
theorem comes_triggerWords {x : Transition} {a b : Token} (hevent : ∀ e ∈ x.event, IsName e)
    (hguard : ∀ g ∈ x.guard, IsGuard g) (has : ∀ a ∈ x.actions, IsAction a) :
    Comes (fun s' => ∃ event guard actions,
        AtBody s' (d.add (.transition ⟨a, b, event, guard, actions⟩)) ∧
        event.map Token.text = x.event ∧ guard.map Declaration.condition = x.guard ∧
        (actions.map Declaration.actions).getD [] = x.actions)
      (.transitionEnds d a b) x.triggerWords := by
  obtain ⟨source, target, event, guard, as, span⟩ := x
  unfold Transition.triggerWords
  split
  · rename_i hempty
    simp only [Bool.and_eq_true, Option.isNone_iff_eq_none, List.isEmpty_iff] at hempty
    obtain ⟨⟨rfl, rfl⟩, rfl⟩ := hempty
    exact ⟨none, none, none, .transitionEnds d a b, rfl, rfl, rfl⟩
  · rename_i hsome
    refine .mark (.colon, ":") (by decide) rfl fun _ => ⟨_, rfl, ?_⟩
    cases event with
    | some e =>
      refine .read (Grammar.lexes_name (hevent e rfl) rfl rfl rfl) fun span => ⟨_, rfl, ?_⟩
      cases guard with
      | some g =>
        refine (comes_guardWords (d := d) (i := ⟨a, b, some ⟨.name, e, span⟩, none, none⟩)
          (hguard g rfl) rfl rfl ?_ rfl has).mono ?_
        · rintro ⟨_, _, _⟩ rfl
          rfl
        · rintro s' ⟨guard, actions, hs', hcondition, hactions⟩
          exact ⟨_, some guard, actions, hs', rfl, congrArg some hcondition, hactions⟩
      | none =>
        refine (comes_transitionActions (.eventRead d _) rfl (fun _ => rfl) rfl has).mono ?_
        rintro s' ⟨actions, hs', hactions⟩
        exact ⟨_, none, actions, hs', rfl, rfl, hactions⟩
    | none =>
      cases guard with
      | some g =>
        refine (comes_guardWords (d := d) (i := ⟨a, b, none, none, none⟩) (hguard g rfl) rfl rfl
          ?_ rfl has).mono ?_
        · rintro ⟨_, _, _⟩ rfl
          rfl
        · rintro s' ⟨guard, actions, hs', hcondition, hactions⟩
          exact ⟨none, some guard, actions, hs', rfl, congrArg some hcondition, hactions⟩
      | none =>
        refine comes_slashWords rfl (fun _ => rfl) has (fun hnone => ?_) fun done hdone => ?_
        · have hnone : as = [] := hnone
          exact (hsome (by simp [hnone])).elim
        · exact ⟨none, none, some done, .actionRead d ⟨a, b, none, none, none⟩ done, rfl, rfl,
            hdone⟩

/-- A transition is read, and as it was written. -/
theorem comes_transition (h : AtBody s d) {x : Transition} (hsource : IsName x.source)
    (hkeyword : ¬ IsKeyword x.source) (htarget : IsName x.target)
    (hevent : ∀ e ∈ x.event, IsName e) (hguard : ∀ g ∈ x.guard, IsGuard g)
    (has : ∀ a ∈ x.actions, IsAction a) :
    Comes (fun s' => ∃ i, AtBody s' (d.add (.transition i)) ∧
      (Declaration.transition i).bare = x.bare) s x.words := by
  have hword : Grammar.wordTerminal s.expected x.source.toList = .name :=
    Grammar.wordTerminal_of_not_keyword _ fun p hp heq =>
      hkeyword ⟨p, hp, String.toList_inj.1 heq⟩
  refine .read (Grammar.lexes_name hsource (h.readsAs.expects _ (by decide)) h.readsAs.no_action
    hword) fun span => ⟨_, h.readsAs.next _ (by decide) _ _, ?_⟩
  refine .mark (.longArrow, "-->") (by decide) rfl fun _ => ⟨_, rfl, ?_⟩
  refine .name rfl htarget fun _ => ⟨_, rfl, ?_⟩
  refine (comes_triggerWords hevent hguard has).mono ?_
  rintro s' ⟨event, guard, actions, hs', he, hg, ha⟩
  refine ⟨_, hs', ?_⟩
  simp [Declaration.transition, Transition.bare, he, hg, ha]

end

/-! ## Timers -/

section

variable {s : Stage} {d : Draft}

/-- A timer is read, and as it was written. -/
theorem comes_timer (h : AtBody s d) {x : Timer} (hid : IsName x.id) (hevent : IsName x.event)
    {n : Nat} (hn : x.duration = n) (hdigits : n.repr.length ≤ Text.digitLimit) :
    Comes (fun s' => ∃ i, AtBody s' (d.add (.timer i)) ∧
      ∃ x', Declaration.timer i = .ok x' ∧ x'.bare = x.bare) s x.words := by
  have hduration : toString x.duration = n.repr := by
    rw [hn]
    rfl
  have htimer (id event : Token) (span : Span) (periodic : Option Token) :
      Declaration.timer ⟨id, ⟨.int, n.repr, span⟩, event, periodic⟩ =
        .ok ⟨id.text, n, event.text, periodic.isSome, some id.span⟩ := by
    simp only [Declaration.timer, Text.readNat_repr hdigits]
    rfl
  refine h.readsAs.keyword (.timer, "timer") (by decide) (by decide) fun _ => ⟨_, rfl, ?_⟩
  refine .name rfl hid fun spanId => ⟨_, rfl, ?_⟩
  refine .mark (.equals, "=") (by decide) rfl fun _ => ⟨_, rfl, ?_⟩
  rw [hduration]
  refine .read (Grammar.lexes_int (matches_repr n)) fun _ => ⟨_, rfl, ?_⟩
  refine .mark (.arrow, "->") (by decide) rfl fun _ => ⟨_, rfl, ?_⟩
  refine .name rfl hevent fun _ => ⟨_, rfl, ?_⟩
  cases hperiodic : x.periodic with
  | false =>
    refine ⟨_, .timerRead d _ _ _, _, htimer .., ?_⟩
    simp [Timer.bare, hn, hperiodic]
  | true =>
    refine .read (Grammar.lexes_keyword (.periodic, "periodic") (by decide) rfl rfl) fun _ =>
      ⟨_, rfl, ?_⟩
    refine ⟨_, .body _, _, htimer .., ?_⟩
    simp [Timer.bare, hn, hperiodic]

end

/-! ## Choices -/

theorem matches_bracketed_else :
    Grammar.Terminal.Matches .elseMark (bracketed "else").toList := by
  rw [toList_bracketed]
  exact .elseMark ⟨[], [], by simp, by simp, by simp⟩

section

variable {s : Stage} {d : Draft} {c : ChoiceItem}

/-- A branch is read, and as it was written. -/
theorem comes_branch (h : AtBranches s d c) {x : Branch}
    (hcondition : ∀ g ∈ x.condition, IsGuard g ∧ g ≠ "else") (htarget : IsName x.target)
    (has : ∀ a ∈ x.actions, IsAction a) :
    Comes (fun s' => ∃ l, AtBranches s' d (Stage.addBranch c l) ∧
      (Declaration.branch l).bare = x.bare) s x.words := by
  -- From the marker on, a condition and the default mark are read alike.
  have hmarked (marker : Token)
      (hmarker : (if marker.kind = .elseMark then none else some (Declaration.condition marker)) =
        x.condition) :
      Comes (fun s' => ∃ l, AtBranches s' d (Stage.addBranch c l) ∧
        (Declaration.branch l).bare = x.bare) (.branchArrow d c marker)
        ("->" :: x.target :: slashWords x.actions) := by
    refine .mark (.arrow, "->") (by decide) rfl fun _ => ⟨_, rfl, ?_⟩
    refine .name rfl htarget fun _ => ⟨_, rfl, ?_⟩
    refine comes_slashWords rfl (fun _ => rfl) has (fun hnone => ?_) fun done hdone => ?_
    · refine ⟨_, .branchEnds d c _, ?_⟩
      simp [Declaration.branch, Branch.bare, hmarker, hnone]
    · refine ⟨_, .actionRead d c _ done, ?_⟩
      simp [Declaration.branch, Branch.bare, hmarker, hdone]
  cases hx : x.condition with
  | some g =>
    obtain ⟨hg, hne⟩ := hcondition g hx
    have hwords : x.words = bracketed g :: "->" :: x.target :: slashWords x.actions := by
      rw [Branch.words, Branch.marker, hx]
    rw [hwords]
    refine .read (Grammar.lexes_guard hg.matches_bracketed (h.readsAs.expects _ (by decide))
      (.inr (hg.not_matches_elseMark hne))) fun span =>
        ⟨_, h.readsAs.next _ (by decide) _ _, hmarked _ ?_⟩
    rw [if_neg (by simp), hg.condition_bracketed, hx]
  | none =>
    have hwords : x.words = bracketed "else" :: "->" :: x.target :: slashWords x.actions := by
      rw [Branch.words, Branch.marker, hx]
    rw [hwords]
    refine .read (Grammar.lexes_elseMark matches_bracketed_else (h.readsAs.expects _ (by decide)))
      fun span => ⟨_, h.readsAs.next _ (by decide) _ _, hmarked _ ?_⟩
    rw [if_pos rfl, hx]

/-- The branches of a choice are read one after the other. -/
theorem comes_branches (h : AtBranches s d c) {xs : List Branch}
    (hxs : ∀ b ∈ xs, (∀ g ∈ b.condition, IsGuard g ∧ g ≠ "else") ∧ IsName b.target ∧
      ∀ a ∈ b.actions, IsAction a) :
    Comes (fun s' => ∃ ls, AtBranches s' d { c with branches := c.branches ++ ls } ∧
      (ls.map Declaration.branch).map Branch.bare = xs.map Branch.bare) s
      (xs.flatMap Branch.words) := by
  induction xs generalizing s c with
  | nil => exact ⟨[], by rwa [List.append_nil], rfl⟩
  | cons x xs ih =>
    obtain ⟨hcondition, htarget, has⟩ := hxs x (by simp)
    rw [List.flatMap_cons]
    refine (comes_branch h hcondition htarget has).trans ?_
    rintro s' ⟨l, hs', hl⟩
    refine (ih hs' fun b hb => hxs b (List.mem_cons_of_mem _ hb)).mono ?_
    rintro s'' ⟨ls, hs'', hls⟩
    refine ⟨l :: ls, ?_, ?_⟩
    · rwa [Stage.addBranch, List.append_assoc] at hs''
    · rw [List.map_cons, List.map_cons, List.map_cons, hl, hls]

/-- A choice is read, and as it was written. -/
theorem comes_choice (h : AtBody s d) {x : Choice} (hid : IsName x.id)
    (hbranches : ∀ b ∈ x.branches, (∀ g ∈ b.condition, IsGuard g ∧ g ≠ "else") ∧
      IsName b.target ∧ ∀ a ∈ b.actions, IsAction a) :
    Comes (fun s' => ∃ i, AtBody s' (d.add (.choice i)) ∧
      (Declaration.choice i).bare = x.bare) s x.words := by
  refine h.readsAs.keyword (.choice, "choice") (by decide) (by decide) fun _ => ⟨_, rfl, ?_⟩
  refine .name rfl hid fun _ => ⟨_, rfl, ?_⟩
  refine .mark (.openBrace, "\x7b") (by decide) rfl fun _ => ⟨_, rfl, ?_⟩
  refine (comes_branches (.branches d _) hbranches).trans ?_
  rintro s' ⟨ls, hs', hls⟩
  refine hs'.readsAs.mark (.closeBrace, "\x7d") (by decide) (by decide) fun _ => ⟨_, rfl, ?_⟩
  refine ⟨_, .body _, ?_⟩
  simpa [Declaration.choice, Choice.bare] using hls

end

/-! ## Declarations -/

section

variable (names : Text.CharacterNames)

/-- The items of a draft declare the same as a declaration. -/
def Declares (draft : Draft) (d : Declaration) : Prop :=
  ∃ d', Declaration.ofTree names ⟨draft.name, draft.items⟩ = .ok d' ∧ d'.Same d

/-- The stage may read the next item, and what has been read declares the same as a
declaration. -/
def Stands (d : Declaration) (s : Stage) : Prop :=
  ∃ draft, AtBody s draft ∧ Declares names draft d

end

section

variable {names : Text.CharacterNames} {s : Stage} {d : Declaration}

theorem Declares.add {draft : Draft} {e : Declaration} {i : Item}
    (h : Declares names draft d)
    (hi : ∀ d', d'.Same d → ∃ e', Declaration.addItem names d' i = .ok e' ∧ e'.Same e) :
    Declares names (draft.add i) e := by
  obtain ⟨d', hd', hsame⟩ := h
  obtain ⟨e', he', hsame'⟩ := hi d' hsame
  refine ⟨e', ?_, hsame'⟩
  rw [Declaration.ofTree] at hd' ⊢
  simp only [Draft.add, List.foldlM_append, List.foldlM_cons, List.foldlM_nil, hd']
  exact (congrArg (· >>= pure) he').trans rfl

theorem Stands.initial (h : Stands names d s) {m : InitialMarker} (hm : IsName m.target) :
    Comes (Stands names { d with initial := d.initial ++ [m] }) s m.words := by
  obtain ⟨draft, hbody, hdeclares⟩ := h
  refine hbody.readsAs.mark (.initialMark, "[*]") (by decide) (by decide) fun _ => ⟨_, rfl, ?_⟩
  refine .mark (.longArrow, "-->") (by decide) rfl fun _ => ⟨_, rfl, ?_⟩
  refine .name rfl hm fun _ => ⟨_, rfl, _, .body _, hdeclares.add fun d' hd' => ⟨_, rfl, ?_⟩⟩
  simp_all [Declaration.Same, Declaration.bare, InitialMarker.bare]

theorem Stands.state (h : Stands names d s) {x : State}
    (hx : IsName x.id ∧ (∀ a ∈ x.entry, IsAction a) ∧ ∀ a ∈ x.exit, IsAction a) :
    Comes (Stands names { d with states := d.states ++ [x] }) s x.words := by
  obtain ⟨draft, hbody, hdeclares⟩ := h
  refine (comes_state names hbody hx.1 hx.2.1 hx.2.2).mono ?_
  rintro s' ⟨i, hs', x', hx', hsame⟩
  refine ⟨_, hs', hdeclares.add fun d' hd' => ⟨{ d' with states := d'.states ++ [x'] }, ?_, ?_⟩⟩
  · rw [Declaration.addItem, hx']
    rfl
  · simp_all [Declaration.Same, Declaration.bare]

theorem Stands.choice (h : Stands names d s) {x : Choice}
    (hx : IsName x.id ∧ ∀ b ∈ x.branches, (∀ g ∈ b.condition, IsGuard g ∧ g ≠ "else") ∧
      IsName b.target ∧ ∀ a ∈ b.actions, IsAction a) :
    Comes (Stands names { d with choices := d.choices ++ [x] }) s x.words := by
  obtain ⟨draft, hbody, hdeclares⟩ := h
  refine (comes_choice hbody hx.1 hx.2).mono ?_
  rintro s' ⟨i, hs', hsame⟩
  refine ⟨_, hs', hdeclares.add fun d' hd' => ⟨_, rfl, ?_⟩⟩
  simp_all [Declaration.Same, Declaration.bare]

theorem Stands.transition (h : Stands names d s) {x : Transition}
    (hx : (IsName x.source ∧ ¬ IsKeyword x.source) ∧ IsName x.target ∧
      (∀ e ∈ x.event, IsName e) ∧ (∀ g ∈ x.guard, IsGuard g) ∧ ∀ a ∈ x.actions, IsAction a) :
    Comes (Stands names { d with transitions := d.transitions ++ [x] }) s x.words := by
  obtain ⟨draft, hbody, hdeclares⟩ := h
  obtain ⟨⟨hsource, hkeyword⟩, htarget, hevent, hguard, has⟩ := hx
  refine (comes_transition hbody hsource hkeyword htarget hevent hguard has).mono ?_
  rintro s' ⟨i, hs', hsame⟩
  refine ⟨_, hs', hdeclares.add fun d' hd' => ⟨_, rfl, ?_⟩⟩
  simp_all [Declaration.Same, Declaration.bare]

theorem Stands.timer (h : Stands names d s) {x : Timer}
    (hx : IsName x.id ∧ IsName x.event ∧
      ∃ n : Nat, x.duration = n ∧ n.repr.length ≤ Text.digitLimit) :
    Comes (Stands names { d with timers := d.timers ++ [x] }) s x.words := by
  obtain ⟨draft, hbody, hdeclares⟩ := h
  obtain ⟨hid, hevent, n, hn, hdigits⟩ := hx
  refine (comes_timer hbody hid hevent hn hdigits).mono ?_
  rintro s' ⟨i, hs', x', hx', hsame⟩
  refine ⟨_, hs', hdeclares.add fun d' hd' => ⟨{ d' with timers := d'.timers ++ [x'] }, ?_, ?_⟩⟩
  · rw [Declaration.addItem, hx']
    rfl
  · simp_all [Declaration.Same, Declaration.bare]

/-- Lines of one kind are read one after the other. -/
theorem Stands.lines {α : Type} (grow : Declaration → List α → Declaration)
    (hnil : ∀ d, grow d [] = d) (hcons : ∀ d x xs, grow (grow d [x]) xs = grow d (x :: xs))
    {words : α → List String} {xs : List α}
    (hline : ∀ x ∈ xs, ∀ s d, Stands names d s → Comes (Stands names (grow d [x])) s (words x))
    (h : Stands names d s) : Comes (Stands names (grow d xs)) s (xs.map words).flatten := by
  induction xs generalizing s d with
  | nil =>
    rw [hnil]
    exact h
  | cons x xs ih =>
    rw [List.map_cons, List.flatten_cons]
    refine (hline x (by simp) s d h).trans fun s' hs' => ?_
    rw [← hcons]
    exact ih (fun y hy => hline y (List.mem_cons_of_mem _ hy)) hs'

end

/-- The words of a declaration are read, and declare the same. -/
theorem Declaration.Writable.comes (names : Text.CharacterNames) {d : Declaration}
    (h : d.Writable) :
    Comes (fun s => ∃ m, s = .finished m ∧ ∃ d', ofTree names m = .ok d' ∧ d'.Same d) .start
      d.lines.flatten := by
  have hlines : d.lines.flatten = "fsm" :: d.name :: "\x7b" ::
      ((d.initial.map InitialMarker.words).flatten ++ ((d.states.map State.words).flatten ++
        ((d.choices.map Choice.words).flatten ++ ((d.transitions.map Transition.words).flatten ++
          ((d.timers.map Timer.words).flatten ++ ["\x7d"]))))) := by
    simp [lines, itemLines]
  rw [hlines]
  refine .read (Grammar.lexes_keyword (.fsm, "fsm") (by decide) rfl rfl) fun _ => ⟨_, rfl, ?_⟩
  refine .name rfl h.name fun span => ⟨_, rfl, ?_⟩
  refine .mark (.openBrace, "\x7b") (by decide) rfl fun _ => ⟨_, rfl, ?_⟩
  have hstart : Stands names ⟨d.name, [], [], [], [], [], none⟩
      (.body ⟨⟨.name, d.name, span⟩, []⟩) :=
    ⟨_, .body _, _, rfl, rfl⟩
  refine (hstart.lines (fun d xs => { d with initial := d.initial ++ xs }) (by simp) (by simp)
    fun m hm s d hs => hs.initial (h.initial m hm)).trans fun s hs => ?_
  refine (hs.lines (fun d xs => { d with states := d.states ++ xs }) (by simp) (by simp)
    fun x hx s d hs => hs.state (h.states x hx)).trans fun s hs => ?_
  refine (hs.lines (fun d xs => { d with choices := d.choices ++ xs }) (by simp) (by simp)
    fun x hx s d hs => hs.choice (h.choices x hx)).trans fun s hs => ?_
  refine (hs.lines (fun d xs => { d with transitions := d.transitions ++ xs }) (by simp) (by simp)
    fun x hx s d hs => hs.transition (h.transitions x hx)).trans fun s hs => ?_
  refine (hs.lines (fun d xs => { d with timers := d.timers ++ xs }) (by simp) (by simp)
    fun x hx s d hs => hs.timer (h.timers x hx)).trans fun s hs => ?_
  obtain ⟨draft, hbody, d', hd', hsame⟩ := hs
  refine hbody.readsAs.mark (.closeBrace, "\x7d") (by decide) (by decide) fun _ => ⟨_, rfl, ?_⟩
  refine ⟨_, rfl, d', hd', ?_⟩
  simpa [Same, bare] using hsame

/-- **Writing and reading is the identity**: the text of a declaration that can be written is
read, and declares the same. -/
theorem exists_read_write_same (names : Text.CharacterNames) {d : Declaration} (h : d.Writable) :
    ∃ d', Declaration.read names d.write = .ok d' ∧ d'.Same d := by
  obtain ⟨s, p, ⟨m, rfl, d', hd', hsame⟩, hread⟩ :=
    Grammar.exists_readFrom_eq d.spaced_write (h.comes names) .start
  refine ⟨d', ?_, hsame⟩
  have hm : Grammar.read d.write = .ok m := by
    rw [Grammar.read, hread, Grammar.readFrom]
  rw [Declaration.read, hm]
  exact hd'

/-! ## A lift -/

namespace Lift

/-- A lift with a quoted description, a keyword as a name and brackets in a guard. -/
def declaration : Declaration where
  name := "Lift"
  initial := [⟨"idle", none⟩]
  states := [⟨"idle", some "the \"lift\"\nrests", [], [], none⟩,
    ⟨"exit", none, ["open(1, (2))", "hum()"], ["close()"], none⟩]
  choices := [⟨"pick", [⟨some "calls[0] > 1", "exit", ["log()"], none⟩, ⟨none, "idle", [], none⟩],
    none⟩]
  transitions := [⟨"idle", "pick", some "call", some "else", ["note(a)"], none⟩,
    ⟨"idle", "exit", none, none, [], none⟩]
  timers := [⟨"t", 500, "tick", true, none⟩]
  span := none

theorem writable : declaration.Writable := by decide +kernel

/-- The lift is written on eight lines, which read back. -/
theorem text_reads_back :
    declaration.write = String.join ["fsm Lift \x7b\n", "[*] --> idle\n",
      "state idle : \"the \\\"lift\\\"\\nrests\"\n",
      "state exit \x7b entry / open(1, (2)) ; hum() exit / close() \x7d\n",
      "choice pick \x7b [calls[0] > 1] -> exit / log() [else] -> idle \x7d\n",
      "idle --> pick : call [else] / note(a)\n", "idle --> exit\n",
      "timer t = 500 -> tick periodic\n", "\x7d\n"] ∧
      ∃ d', Declaration.read (fun _ => none) declaration.write = .ok d' ∧ d'.Same declaration :=
  ⟨by decide +kernel, exists_read_write_same _ writable⟩

end Lift

end Statechart
