import Mathlib
import Statechart.Proofs.Grammar.Soundness
import Statechart.Proofs.Grammar.Words

/-!
# Reading does not depend on places

A stage holds the words that have been read with the places where they stand, but what it reads
next, and what comes of it, is the same wherever they stand. `bare` takes the spans out of words,
trees and stages.

* `next_bare`: reading one word is the same with and without spans;
* `exists_readFrom_bare_eq`: from stages that differ in spans only, and from any two places, the
  same text is read with trees that differ in spans only.
-/

namespace Statechart.Grammar

/-! ## Without spans -/

/-- The word without its span. -/
def Token.bare (t : Token) : Token := { t with span := default }

/-- The initial arrow without spans. -/
def InitialItem.bare (i : InitialItem) : InitialItem := ⟨i.mark.bare, i.target.bare⟩

/-- The line without spans. -/
def HookLine.bare (l : HookLine) : HookLine := { l with actions := l.actions.map Token.bare }

/-- The state without spans. -/
def StateItem.bare (s : StateItem) : StateItem :=
  ⟨s.id.bare, s.description.map Token.bare, s.hooks.map fun ls => ls.map HookLine.bare⟩

/-- The transition without spans. -/
def TransitionItem.bare (t : TransitionItem) : TransitionItem :=
  ⟨t.source.bare, t.target.bare, t.event.map Token.bare, t.guard.map Token.bare,
    t.actions.map fun ts => ts.map Token.bare⟩

/-- The timer without spans. -/
def TimerItem.bare (t : TimerItem) : TimerItem :=
  ⟨t.id.bare, t.duration.bare, t.event.bare, t.periodic.map Token.bare⟩

/-- The branch without spans. -/
def BranchLine.bare (b : BranchLine) : BranchLine :=
  ⟨b.marker.bare, b.target.bare, b.actions.map fun ts => ts.map Token.bare⟩

/-- The choice without spans. -/
def ChoiceItem.bare (c : ChoiceItem) : ChoiceItem := ⟨c.id.bare, c.branches.map BranchLine.bare⟩

/-- The item without spans. -/
def Item.bare : Item → Item
  | .initial i => .initial i.bare
  | .state s => .state s.bare
  | .transition t => .transition t.bare
  | .timer t => .timer t.bare
  | .choice c => .choice c.bare

/-- The machine without spans. -/
def Machine.bare (m : Machine) : Machine := ⟨m.name.bare, m.items.map Item.bare⟩

/-- The draft without spans. -/
def Draft.bare (d : Draft) : Draft := ⟨d.name.bare, d.items.map Item.bare⟩

/-- The state that is being read, without spans. -/
def OpenState.bare (s : OpenState) : OpenState :=
  ⟨s.id.bare, s.description.map Token.bare, s.hooks.map HookLine.bare⟩

/-- The construct without spans. -/
def ActionSite.bare : ActionSite → ActionSite
  | .hook d s kind => .hook d.bare s.bare kind
  | .transition d t => .transition d.bare t.bare
  | .branch d c b => .branch d.bare c.bare b.bare

/-- The stage without spans. -/
def Stage.bare : Stage → Stage
  | start => start
  | machineName => machineName
  | machineOpen n => machineOpen n.bare
  | body d => body d.bare
  | initialArrow d m => initialArrow d.bare m.bare
  | initialTarget d m => initialTarget d.bare m.bare
  | stateName d => stateName d.bare
  | stateNamed d n => stateNamed d.bare n.bare
  | stateColon d n => stateColon d.bare n.bare
  | stateDescribed d n x => stateDescribed d.bare n.bare x.bare
  | hooks d s => hooks d.bare s.bare
  | hookSlash d s kind => hookSlash d.bare s.bare kind
  | transitionArrow d a => transitionArrow d.bare a.bare
  | transitionTarget d a => transitionTarget d.bare a.bare
  | transitionEnds d a b => transitionEnds d.bare a.bare b.bare
  | trigger d a b => trigger d.bare a.bare b.bare
  | eventRead d i => eventRead d.bare i.bare
  | guardRead d i => guardRead d.bare i.bare
  | transitionActed d i => transitionActed d.bare i.bare
  | timerName d => timerName d.bare
  | timerEquals d n => timerEquals d.bare n.bare
  | timerDuration d n => timerDuration d.bare n.bare
  | timerArrow d n x => timerArrow d.bare n.bare x.bare
  | timerEvent d n x => timerEvent d.bare n.bare x.bare
  | timerRead d n x e => timerRead d.bare n.bare x.bare e.bare
  | choiceName d => choiceName d.bare
  | choiceOpen d n => choiceOpen d.bare n.bare
  | branches d c => branches d.bare c.bare
  | branchArrow d c m => branchArrow d.bare c.bare m.bare
  | branchTarget d c m => branchTarget d.bare c.bare m.bare
  | branchEnds d c b => branchEnds d.bare c.bare b.bare
  | branchActed d c b => branchActed d.bare c.bare b.bare
  | actionWanted site done => actionWanted site.bare (done.map Token.bare)
  | actionRead site done => actionRead site.bare (done.map Token.bare)
  | finished m => finished m.bare

theorem Draft.bare_add (d : Draft) (i : Item) : (d.add i).bare = d.bare.add i.bare := by
  simp [Draft.bare, Draft.add]

theorem ChoiceItem.bare_addBranch (c : ChoiceItem) (b : BranchLine) :
    (Stage.addBranch c b).bare = Stage.addBranch c.bare b.bare := by
  simp [ChoiceItem.bare, Stage.addBranch]

namespace Stage

/-! ## Reading one word -/

theorem expected_bare (s : Stage) : s.bare.expected = s.expected := by
  cases s <;> rfl

/-- The stage that is reached, or in which reading is stuck, without spans. -/
def bareResult : Except Stage Stage → Except Stage Stage
  | .ok s => .ok s.bare
  | .error s => .error s.bare

section

variable (t : Token)

theorem inBodyNext_bare {d e : Draft} (h : d.bare = e) :
    inBodyNext e t.bare = bareResult (inBodyNext d t) := by
  subst h
  obtain ⟨kind, text, span⟩ := t
  cases kind <;> rfl

theorem inHooksNext_bare (d : Draft) {s u : OpenState} (h : s.bare = u) :
    inHooksNext d.bare u t.bare = bareResult (inHooksNext d s t) := by
  subst h
  obtain ⟨kind, text, span⟩ := t
  cases kind
  case closeBrace => exact congrArg (Except.ok ∘ body) (Draft.bare_add d s.close).symm
  all_goals rfl

theorem inBranchesNext_bare (d : Draft) {c e : ChoiceItem} (h : c.bare = e) :
    inBranchesNext d.bare e t.bare = bareResult (inBranchesNext d c t) := by
  subst h
  obtain ⟨kind, text, span⟩ := t
  cases kind
  case closeBrace => exact congrArg (Except.ok ∘ body) (Draft.bare_add d (.choice c)).symm
  all_goals rfl

theorem afterActionsNext_bare (site : ActionSite) (done : List Token) :
    afterActionsNext site.bare (done.map Token.bare) t.bare =
      bareResult (afterActionsNext site done t) := by
  cases site with
  | hook d s kind =>
    exact inHooksNext_bare t d (by simp [OpenState.bare, HookLine.bare])
  | transition d i =>
    show (if afterActions.contains t.kind then _ else _) = bareResult (if _ then _ else _)
    split
    · exact inBodyNext_bare t (Draft.bare_add d _)
    · rfl
  | branch d c b =>
    show (if afterActions.contains t.kind then _ else _) = bareResult (if _ then _ else _)
    split
    · exact inBranchesNext_bare t d (ChoiceItem.bare_addBranch c _)
    · rfl

/-- **One word is read alike with and without spans.** -/
theorem next_bare (s : Stage) : s.bare.next t.bare = bareResult (s.next t) := by
  have hitem (d : Draft) (i : Item) :
      inBodyNext (d.bare.add i.bare) t.bare = bareResult (inBodyNext (d.add i) t) :=
    inBodyNext_bare t (Draft.bare_add d i)
  have hadd (d : Draft) (i : Item) :
      Except.ok (body (d.bare.add i.bare)) = bareResult (.ok (body (d.add i))) :=
    congrArg (Except.ok ∘ body) (Draft.bare_add d i).symm
  have hline (d : Draft) (c : ChoiceItem) (b : BranchLine) :
      inBranchesNext d.bare (addBranch c.bare b.bare) t.bare =
        bareResult (inBranchesNext d (addBranch c b) t) :=
    inBranchesNext_bare t d (ChoiceItem.bare_addBranch c b)
  have hread (site : ActionSite) (done : List Token) (x : Token) :
      Except.ok (actionRead site.bare (done.map Token.bare ++ [x.bare])) =
        bareResult (.ok (actionRead site (done ++ [x]))) := by
    simp [bareResult, bare]
  have hafter := afterActionsNext_bare t
  cases s
  -- in these stages every word is read as between items, lines or branches
  case body d => exact inBodyNext_bare t rfl
  case hooks d s => exact inHooksNext_bare t d rfl
  case branches d c => exact inBranchesNext_bare t d rfl
  all_goals obtain ⟨kind, text, span⟩ := t
  -- in these, all words but some are
  case stateNamed d n =>
    cases kind
    case colon | openBrace => rfl
    all_goals exact hitem d (.state ⟨n, none, none⟩)
  case stateDescribed d n x =>
    cases kind
    case openBrace => rfl
    all_goals exact hitem d (.state ⟨n, some x, none⟩)
  case transitionEnds d a b =>
    cases kind
    case colon => rfl
    all_goals exact hitem d (.transition ⟨a, b, none, none, none⟩)
  case eventRead d i =>
    cases kind
    case guard | slash => rfl
    all_goals exact hitem d (.transition i)
  case guardRead d i =>
    cases kind
    case slash => rfl
    all_goals exact hitem d (.transition i)
  case timerRead d n x e =>
    cases kind
    case periodic => exact hadd d (.timer ⟨n, x, e, some _⟩)
    all_goals exact hitem d (.timer ⟨n, x, e, none⟩)
  case branchEnds d c b =>
    cases kind
    case slash => rfl
    all_goals exact hline d c b
  case actionRead site done =>
    cases kind
    case semicolon | comma => rfl
    all_goals exact hafter site done
  -- in the others, only some words fit
  case initialTarget d m =>
    cases kind
    case name => exact hadd d (.initial ⟨m, _⟩)
    all_goals rfl
  case actionWanted site done =>
    cases kind
    case action => exact hread site done _
    all_goals rfl
  all_goals cases kind <;> rfl

end

/-- Stages that differ in spans only read words that do alike. -/
theorem exists_next_bare_eq {s u v : Stage} {t w : Token} (h : s.next t = .ok v)
    (hstage : u.bare = s.bare) (htoken : w.bare = t.bare) :
    ∃ x, u.next w = .ok x ∧ x.bare = v.bare := by
  have hresult : bareResult (u.next w) = bareResult (.ok v) := by
    rw [← next_bare, hstage, htoken, next_bare, h]
  cases hx : u.next w with
  | error x =>
    rw [hx] at hresult
    cases hresult
  | ok x =>
    rw [hx] at hresult
    exact ⟨x, rfl, Except.ok.inj hresult⟩

end Stage

/-! ## Reading a text -/

/-- **Reading does not depend on places**: what is read from one stage and place is read, but for
spans, from a stage that is the same but for spans, and from any other place. -/
theorem exists_readFrom_bare_eq {s u : Stage} {p q : Place} {cs : List Char} {m : Machine}
    (h : readFrom s p cs = .ok m) (hstage : u.bare = s.bare) :
    ∃ m', readFrom u q cs = .ok m' ∧ m'.bare = m.bare := by
  have hexpected : u.expected = s.expected := by
    rw [← u.expected_bare, hstage, s.expected_bare]
  fun_induction readFrom s p cs generalizing u q with
  | case1 p m' =>
    cases h
    cases u
    case finished m'' => exact ⟨m'', by rw [readFrom], Stage.finished.inj hstage⟩
    all_goals cases hstage
  | case2 => cases h
  | case3 s p c r k hskip _ ih =>
    rw [readFrom_of_skip? hskip]
    exact ih h hstage hexpected
  | case4 s p c r hskip t k hword s' hnext _ ih =>
    obtain ⟨u', hu', hbare⟩ := Stage.exists_next_bare_eq
      (w := ⟨t, String.ofList k.1, q.toSpan⟩) hnext hstage rfl
    rw [readFrom_of_lexeme? hskip (hexpected ▸ hword) hu']
    exact ih h hbare (by rw [← u'.expected_bare, hbare, s'.expected_bare])
  | case5 => cases h
  | case6 => cases h

end Statechart.Grammar
