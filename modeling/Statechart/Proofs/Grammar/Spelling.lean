import Mathlib
import Statechart.Grammar.Stage
import Statechart.Proofs.Grammar.Derivation

/-!
# What has been read

At each stage of reading, the words read so far make up the constructs that are open, one inside
the other: the machine with its finished items, and what has been read of the next one. The
language `Stage.words` says so, as a product with one factor for each part; a stage that reading
never comes to has the empty language.

Main statement: `Stage.words_mul_le_of_next`, a word that the grammar lets through takes what has
been read at one stage to what has been read at the next.
-/

namespace Statechart.Grammar

/-! ## Reading a word -/

section

variable {L : Language Token} {t : Token} {k : Terminal} {fs : List Form} {ts : List Tree}

theorem singleton_le_word (ht : t.kind = k) :
    ({[t]} : Language Token) ≤ (Form.word k).words t.leaves := by
  rintro ws rfl
  exact .word ht

theorem leaves_of_kept (ht : t.kind = k) (hk : k.isKept = true) : t.leaves = [.leaf t] := by
  rw [Token.leaves, ht, if_pos hk]

theorem leaves_of_dropped (ht : t.kind = k) (hk : k.isKept = false) : t.leaves = [] := by
  rw [Token.leaves, ht, if_neg (by simp [hk])]

theorem front_mul_kept (ht : t.kind = k) (hk : k.isKept = true) :
    front fs ts * {[t]} ≤ front (fs ++ [.word k]) (ts ++ [.leaf t]) := by
  rw [← leaves_of_kept ht hk]
  exact (mul_le_mul_right (singleton_le_word ht) _).trans (front_mul_words ..)

theorem front_mul_dropped (ht : t.kind = k) (hk : k.isKept = false) :
    front fs ts * {[t]} ≤ front (fs ++ [.word k]) ts := by
  have h := (mul_le_mul_right (singleton_le_word ht) _).trans
    (front_mul_words fs (.word k) ts t.leaves)
  rwa [leaves_of_dropped ht hk, List.append_nil] at h

/-- A kept word goes on with a sequence. -/
theorem read_kept (ht : t.kind = k) (hk : k.isKept = true) :
    L * front fs ts * {[t]} ≤ L * front (fs ++ [.word k]) (ts ++ [.leaf t]) :=
  (mul_assoc ..).trans_le (mul_le_mul_right (front_mul_kept ht hk) _)

/-- A word without information goes on with a sequence. -/
theorem read_dropped (ht : t.kind = k) (hk : k.isKept = false) :
    L * front fs ts * {[t]} ≤ L * front (fs ++ [.word k]) ts :=
  (mul_assoc ..).trans_le (mul_le_mul_right (front_mul_dropped ht hk) _)

/-- A kept word begins a sequence. -/
theorem begin_kept (ht : t.kind = k) (hk : k.isKept = true) :
    L * {[t]} ≤ L * front [.word k] [.leaf t] := by
  rw [← leaves_of_kept ht hk]
  exact mul_le_mul_right ((singleton_le_word ht).trans (words_le_front ..)) _

/-- A word without information begins a sequence. -/
theorem begin_dropped (ht : t.kind = k) (hk : k.isKept = false) :
    L * {[t]} ≤ L * front [.word k] [] := by
  have h := mul_le_mul_right ((singleton_le_word ht).trans (words_le_front ..)) L
  rwa [leaves_of_dropped ht hk] at h

/-- An optional part may be left out. -/
theorem le_mul_opt (f : Form) : L ≤ L * (Form.opt f).words [] :=
  le_mul_of_one_le_right' (one_le_opt f)

end

/-! ## Parts of trees -/

/-- The leaf of a word that may be absent. -/
def leafPart (w : Option Token) : List Tree := (w.map .leaf).toList

/-- The node of a word that may be absent. -/
def nodePart (r : Rule) (w : Option Token) : List Tree := (w.map fun w => .node r [.leaf w]).toList

/-- The body of a state that may be absent. -/
def bodyPart (hooks : Option (List HookLine)) : List Tree :=
  (hooks.map fun hs => .node .stateBody (hs.map HookLine.tree)).toList

/-- The terminal of the word that a branch begins with. -/
def markerTerminal (marker : Token) : Terminal :=
  if marker.kind = .elseMark then .elseMark else .guard

/-- The keyword that a line of actions begins with. -/
def HookKind.terminal : HookKind → Terminal
  | .entry => .entry
  | .exit => .exit

/-- The form of a description. -/
def descriptionForm : Form := .all [.word .colon, .word .string]

/-- The form of one more action of a list. -/
def moreActions : Form := .all [.any [.word .semicolon, .word .comma], .word .action]

/-! ## What has been read at a stage -/

/-- The head of a machine and its items. -/
def Draft.words (d : Draft) : Language Token :=
  front [.word .fsm, .word .name, .word .openBrace] [.leaf d.name] *
    (Form.many (.hidden .item)).words (d.items.map Item.tree)

/-- The head of a state, up to its description. -/
def stateHead (id : Token) (description : Option Token) : Language Token :=
  front [.word .state, .word .name] [.leaf id] *
    (Form.opt descriptionForm).words (leafPart description)

/-- The head of a state and the lines of its body. -/
def OpenState.words (s : OpenState) : Language Token :=
  stateHead s.id s.description *
    (front [.word .openBrace] [] * (Form.many (.hidden .hook)).words (s.hooks.map HookLine.tree))

/-- The ends of a transition, up to the colon. -/
def transitionHead (source target : Token) : Language Token :=
  front [.word .name, .word .longArrow, .word .name] [.leaf source, .leaf target] *
    front [.word .colon] []

/-- What a transition waits for. -/
def triggerWords (event guard : Option Token) : Language Token :=
  (Form.opt (.rule .event)).words (nodePart .event event) *
    (Form.opt (.rule .guard)).words (nodePart .guard guard)

/-- The head of a choice and its branches. -/
def ChoiceItem.words (c : ChoiceItem) : Language Token :=
  front [.word .choice, .word .name, .word .openBrace] [.leaf c.id] *
    (Form.many (.hidden .branch)).words (c.branches.map BranchLine.tree)

/-- A branch up to its target. -/
def branchHead (marker target : Token) : Language Token :=
  front [.word (markerTerminal marker), .word .arrow, .word .name] [.leaf marker, .leaf target]

/-- What comes before an action list. -/
def ActionSite.words : ActionSite → Language Token
  | .hook d s kind => d.words * s.words * front [.word kind.terminal, .word .slash] []
  | .transition d ⟨source, target, event, guard, none⟩ =>
    d.words * transitionHead source target * triggerWords event guard * front [.word .slash] []
  | .branch d c ⟨marker, target, none⟩ =>
    d.words * c.words * branchHead marker target * front [.word .slash] []
  | _ => 0

/-- The actions of a list. -/
def listWords : List Token → Language Token
  | [] => 0
  | action :: more => front [.word .action] [.leaf action] *
    (Form.many moreActions).words (more.map .leaf)

/-- The actions of a list, up to the mark before the next one. -/
def listWordsOpen : List Token → Language Token
  | [] => 1
  | actions => listWords actions * front [.any [.word .semicolon, .word .comma]] []

/-- What has been read at a stage. -/
def Stage.words : Stage → Language Token
  | start => 1
  | machineName => front [.word .fsm] []
  | machineOpen n => front [.word .fsm, .word .name] [.leaf n]
  | body d => d.words
  | initialArrow d _ => d.words * front [.word .initialMark] []
  | initialTarget d _ => d.words * front [.word .initialMark, .word .longArrow] []
  | stateName d => d.words * front [.word .state] []
  | stateNamed d n => d.words * front [.word .state, .word .name] [.leaf n]
  | stateColon d n =>
    d.words * front [.word .state, .word .name] [.leaf n] * front [.word .colon] []
  | stateDescribed d n x => d.words * stateHead n (some x)
  | hooks d s => d.words * s.words
  | hookSlash d s kind => d.words * s.words * front [.word kind.terminal] []
  | transitionArrow d a => d.words * front [.word .name] [.leaf a]
  | transitionTarget d a => d.words * front [.word .name, .word .longArrow] [.leaf a]
  | transitionEnds d a b =>
    d.words * front [.word .name, .word .longArrow, .word .name] [.leaf a, .leaf b]
  | trigger d a b => d.words * transitionHead a b
  | eventRead d ⟨a, b, some e, none, none⟩ =>
    d.words * transitionHead a b * triggerWords (some e) none
  | guardRead d ⟨a, b, e, some g, none⟩ => d.words * transitionHead a b * triggerWords e (some g)
  | timerName d => d.words * front [.word .timer] []
  | timerEquals d n => d.words * front [.word .timer, .word .name] [.leaf n]
  | timerDuration d n => d.words * front [.word .timer, .word .name, .word .equals] [.leaf n]
  | timerArrow d n x =>
    d.words * front [.word .timer, .word .name, .word .equals, .word .int] [.leaf n, .leaf x]
  | timerEvent d n x =>
    d.words * front [.word .timer, .word .name, .word .equals, .word .int, .word .arrow]
      [.leaf n, .leaf x]
  | timerRead d n x e =>
    d.words * front
      [.word .timer, .word .name, .word .equals, .word .int, .word .arrow, .word .name]
      [.leaf n, .leaf x, .leaf e]
  | choiceName d => d.words * front [.word .choice] []
  | choiceOpen d n => d.words * front [.word .choice, .word .name] [.leaf n]
  | branches d c => d.words * c.words
  | branchArrow d c m => d.words * c.words * front [.word (markerTerminal m)] [.leaf m]
  | branchTarget d c m =>
    d.words * c.words * front [.word (markerTerminal m), .word .arrow] [.leaf m]
  | branchEnds d c ⟨m, x, none⟩ => d.words * c.words * branchHead m x
  | actionWanted site done => site.words * listWordsOpen done
  | actionRead site done => site.words * listWords done
  | finished m => (Form.rule .start).words [m.tree]
  | _ => 0

/-! ## Constructs that are over -/

theorem Draft.mul_le_add {d : Draft} {i : Item} {L : Language Token} {r : Rule}
    (hr : Form.rule r ∈ [Form.rule .initial, .rule .state, .rule .transition, .rule .timer,
      .rule .choice]) (hL : L ≤ (Form.rule r).words [i.tree]) :
    d.words * L ≤ (d.add i).words := by
  have hitem : L ≤ (Form.hidden .item).words [i.tree] := hL.trans (words_le_hidden rfl hr _)
  simp only [Draft.words, Draft.add, List.map_append, mul_assoc]
  exact mul_le_mul_right ((mul_le_mul_right hitem _).trans (many_mul_words _ _ [i.tree])) _

theorem front_le_initial (mark target : Token) :
    front [.word .initialMark, .word .longArrow, .word .name] [.leaf target] ≤
      (Form.rule .initial).words [(Item.initial ⟨mark, target⟩).tree] :=
  front_le_rule rfl _

theorem stateHead_mul_le (s : StateItem) :
    stateHead s.id s.description * (Form.opt (.rule .stateBody)).words (bodyPart s.hooks) ≤
      (Form.rule .state).words [(Item.state s).tree] :=
  calc stateHead s.id s.description * (Form.opt (.rule .stateBody)).words (bodyPart s.hooks)
    _ ≤ front [.word .state, .word .name, .opt descriptionForm]
          ([.leaf s.id] ++ leafPart s.description) *
        (Form.opt (.rule .stateBody)).words (bodyPart s.hooks) :=
      mul_le_mul_left (front_mul_words ..) _
    _ ≤ front [.word .state, .word .name, .opt descriptionForm, .opt (.rule .stateBody)]
          ([.leaf s.id] ++ leafPart s.description ++ bodyPart s.hooks) := front_mul_words ..
    _ ≤ (Form.rule .state).words [(Item.state s).tree] := front_le_rule rfl _

/-- A state without a body is over where its head is. -/
theorem stateHead_le (id : Token) (description : Option Token) :
    stateHead id description ≤
      (Form.rule .state).words [(Item.state ⟨id, description, none⟩).tree] :=
  (le_mul_opt _).trans (stateHead_mul_le ⟨id, description, none⟩)

/-- A state with a body is over at the closing brace. -/
theorem OpenState.words_mul_le {s : OpenState} {t : Token} (ht : t.kind = .closeBrace) :
    s.words * {[t]} ≤ (Form.rule .state).words [s.close.tree] := by
  have hbody : front [.word .openBrace] [] * (Form.many (.hidden .hook)).words
        (s.hooks.map HookLine.tree) * {[t]} ≤
      (Form.rule .stateBody).words [.node .stateBody (s.hooks.map HookLine.tree)] :=
    calc front [.word .openBrace] [] * (Form.many (.hidden .hook)).words
          (s.hooks.map HookLine.tree) * {[t]}
      _ ≤ front [.word .openBrace, .many (.hidden .hook)] (s.hooks.map HookLine.tree) * {[t]} :=
        mul_le_mul_left (front_mul_words ..) _
      _ ≤ front [.word .openBrace, .many (.hidden .hook), .word .closeBrace]
          (s.hooks.map HookLine.tree) := front_mul_dropped ht rfl
      _ ≤ (Form.rule .stateBody).words [.node .stateBody (s.hooks.map HookLine.tree)] :=
        front_le_rule rfl _
  rw [OpenState.words, mul_assoc]
  exact (mul_le_mul_right (hbody.trans (words_le_opt _ _)) _).trans
    (stateHead_mul_le ⟨s.id, s.description, some s.hooks⟩)

/-- An optional part that has a tree is present. -/
theorem opt_words_cons_le (f : Form) (t : Tree) (ts : List Tree) :
    (Form.opt f).words (t :: ts) ≤ f.words (t :: ts) := by
  intro ws h
  cases Form.mem_words.1 h with
  | present h => exact h

/-- An optional node without a tree is absent. -/
theorem opt_rule_words_nil_le (r : Rule) : (Form.opt (.rule r)).words [] ≤ 1 := by
  intro ws h
  cases Form.mem_words.1 h with
  | absent => rfl
  | present h => cases h

theorem triggerWords_mul_le {event guard : Option Token} {actions : Option (List Token)}
    (hsome : event.isSome ∨ guard.isSome ∨ actions.isSome) :
    triggerWords event guard * (Form.opt (.rule .actions)).words (actionsPart actions) ≤
      (Form.hidden .trigger).words
        (nodePart .event event ++ nodePart .guard guard ++ actionsPart actions) := by
  cases event with
  | some e =>
    calc triggerWords (some e) guard * (Form.opt (.rule .actions)).words (actionsPart actions)
      _ ≤ front [.rule .event] [.node .event [.leaf e]] *
            (Form.opt (.rule .guard)).words (nodePart .guard guard) *
            (Form.opt (.rule .actions)).words (actionsPart actions) :=
        mul_le_mul_left (mul_le_mul_left ((opt_words_cons_le ..).trans (words_le_front ..)) _) _
      _ ≤ front [.rule .event, .opt (.rule .guard)]
            ([.node .event [.leaf e]] ++ nodePart .guard guard) *
            (Form.opt (.rule .actions)).words (actionsPart actions) :=
        mul_le_mul_left (front_mul_words ..) _
      _ ≤ front [.rule .event, .opt (.rule .guard), .opt (.rule .actions)]
            ([.node .event [.leaf e]] ++ nodePart .guard guard ++ actionsPart actions) :=
        front_mul_words ..
      _ ≤ (Form.hidden .trigger).words _ := words_le_hidden rfl (by simp) _
  | none =>
    have hevent : (Form.opt (.rule .event)).words [] ≤ 1 := opt_rule_words_nil_le _
    cases guard with
    | some g =>
      calc triggerWords none (some g) * (Form.opt (.rule .actions)).words (actionsPart actions)
        _ ≤ 1 * front [.rule .guard] [.node .guard [.leaf g]] *
              (Form.opt (.rule .actions)).words (actionsPart actions) :=
          mul_le_mul_left (mul_le_mul' hevent
            ((opt_words_cons_le ..).trans (words_le_front ..))) _
        _ ≤ front [.rule .guard, .opt (.rule .actions)]
              ([.node .guard [.leaf g]] ++ actionsPart actions) := by
          rw [one_mul]
          exact front_mul_words ..
        _ ≤ (Form.hidden .trigger).words _ := words_le_hidden rfl (by simp) _
    | none =>
      obtain ⟨as, rfl⟩ : ∃ as, actions = some as := by
        simpa [Option.isSome_iff_exists] using hsome
      calc triggerWords none none * (Form.opt (.rule .actions)).words (actionsPart (some as))
        _ ≤ 1 * 1 * (Form.rule .actions).words (actionsPart (some as)) :=
          mul_le_mul' (mul_le_mul' hevent (opt_rule_words_nil_le _)) (opt_words_cons_le ..)
        _ ≤ (Form.hidden .trigger).words _ := by
          rw [one_mul, one_mul]
          exact words_le_hidden rfl (by simp) _

/-- A transition with a trigger. -/
theorem transitionHead_mul_le (i : TransitionItem)
    (hsome : i.event.isSome ∨ i.guard.isSome ∨ i.actions.isSome) :
    transitionHead i.source i.target * triggerWords i.event i.guard *
        (Form.opt (.rule .actions)).words (actionsPart i.actions) ≤
      (Form.rule .transition).words [(Item.transition i).tree] := by
  obtain ⟨a, b, e, g, acts⟩ := i
  have htrigger : front [.word .colon] [] *
        (triggerWords e g * (Form.opt (.rule .actions)).words (actionsPart acts)) ≤
      (Form.opt (.all [.word .colon, .hidden .trigger])).words
        (nodePart .event e ++ nodePart .guard g ++ actionsPart acts) :=
    (mul_le_mul_right (triggerWords_mul_le hsome) _).trans
      ((front_mul_words ..).trans (words_le_opt ..))
  calc transitionHead a b * triggerWords e g * (Form.opt (.rule .actions)).words (actionsPart acts)
    _ = front [.word .name, .word .longArrow, .word .name] [.leaf a, .leaf b] *
          (front [.word .colon] [] *
            (triggerWords e g * (Form.opt (.rule .actions)).words (actionsPart acts))) := by
      rw [transitionHead, mul_assoc, mul_assoc]
    _ ≤ front [.word .name, .word .longArrow, .word .name,
          .opt (.all [.word .colon, .hidden .trigger])]
          ([.leaf a, .leaf b] ++ (nodePart .event e ++ nodePart .guard g ++ actionsPart acts)) :=
      (mul_le_mul_right htrigger _).trans (front_mul_words ..)
    _ ≤ (Form.rule .transition).words [(Item.transition ⟨a, b, e, g, acts⟩).tree] := by
      simp only [Item.tree, ← List.append_assoc]
      exact front_le_rule rfl _

theorem Draft.mul_transition_le (d : Draft) (i : TransitionItem)
    (hsome : i.event.isSome ∨ i.guard.isSome ∨ i.actions.isSome) :
    d.words * transitionHead i.source i.target * triggerWords i.event i.guard *
        (Form.opt (.rule .actions)).words (actionsPart i.actions) ≤
      (d.add (.transition i)).words := by
  have h := Draft.mul_le_add (d := d) (by simp) (transitionHead_mul_le i hsome)
  rwa [← mul_assoc, ← mul_assoc] at h

/-- A transition without a trigger. -/
theorem transitionEnds_le (a b : Token) :
    front [.word .name, .word .longArrow, .word .name] [.leaf a, .leaf b] ≤
      (Form.rule .transition).words [(Item.transition ⟨a, b, none, none, none⟩).tree] :=
  (le_mul_opt _).trans ((front_mul_words ..).trans (front_le_rule rfl _))

theorem timer_le (i : TimerItem) :
    front [.word .timer, .word .name, .word .equals, .word .int, .word .arrow, .word .name]
        [.leaf i.id, .leaf i.duration, .leaf i.event] *
        (Form.opt (.word .periodic)).words (leafPart i.periodic) ≤
      (Form.rule .timer).words [(Item.timer i).tree] :=
  (front_mul_words ..).trans (front_le_rule rfl _)

theorem ChoiceItem.words_mul_le {c : ChoiceItem} {t : Token} (ht : t.kind = .closeBrace) :
    c.words * {[t]} ≤ (Form.rule .choice).words [(Item.choice c).tree] := by
  calc c.words * {[t]}
    _ ≤ front [.word .choice, .word .name, .word .openBrace, .many (.hidden .branch)]
          ([.leaf c.id] ++ c.branches.map BranchLine.tree) * {[t]} :=
      mul_le_mul_left (front_mul_words ..) _
    _ ≤ front [.word .choice, .word .name, .word .openBrace, .many (.hidden .branch),
          .word .closeBrace] ([.leaf c.id] ++ c.branches.map BranchLine.tree) :=
      front_mul_dropped ht rfl
    _ ≤ (Form.rule .choice).words [(Item.choice c).tree] := front_le_rule rfl _

theorem branchHead_mul_le (b : BranchLine) :
    branchHead b.marker b.target * (Form.opt (.rule .actions)).words (actionsPart b.actions) ≤
      (Form.hidden .branch).words [b.tree] := by
  refine (front_mul_words ..).trans ?_
  unfold BranchLine.tree markerTerminal
  split
  · exact (front_le_rule rfl _).trans (words_le_hidden rfl (by simp) _)
  · exact (front_le_rule rfl _).trans (words_le_hidden rfl (by simp) _)

theorem ChoiceItem.mul_le_addBranch (c : ChoiceItem) (b : BranchLine) :
    c.words * (branchHead b.marker b.target *
        (Form.opt (.rule .actions)).words (actionsPart b.actions)) ≤
      (Stage.addBranch c b).words := by
  simp only [ChoiceItem.words, Stage.addBranch, List.map_append, mul_assoc]
  exact mul_le_mul_right ((mul_le_mul_right (branchHead_mul_le b) _).trans
    (many_mul_words _ _ [b.tree])) _

theorem listWords_le (actions : List Token) :
    listWords actions ≤ (Form.rule .actionList).words [actionList actions] := by
  cases actions with
  | nil => exact bot_le
  | cons a more => exact (front_mul_words ..).trans (front_le_rule rfl _)

/-- An action list after a slash. -/
theorem slash_mul_listWords_le (actions : List Token) :
    front [.word .slash] [] * listWords actions ≤
      (Form.opt (.rule .actions)).words (actionsPart (some actions)) :=
  calc front [.word .slash] [] * listWords actions
    _ ≤ front [.word .slash, .rule .actionList] [actionList actions] :=
      (mul_le_mul_right (listWords_le actions) _).trans (front_mul_words ..)
    _ ≤ (Form.rule .actions).words (actionsPart (some actions)) := front_le_rule rfl _
    _ ≤ (Form.opt (.rule .actions)).words (actionsPart (some actions)) := words_le_opt ..

theorem hookLine_le (l : HookLine) :
    front [.word l.kind.terminal, .word .slash] [] * listWords l.actions ≤
      (Form.hidden .hook).words [l.tree] := by
  refine (mul_le_mul_right (listWords_le l.actions) _).trans ((front_mul_words ..).trans ?_)
  obtain ⟨_ | _, actions⟩ := l
  · exact (front_le_rule rfl _).trans (words_le_hidden rfl (by simp) _)
  · exact (front_le_rule rfl _).trans (words_le_hidden rfl (by simp) _)

theorem OpenState.mul_le_addHook (s : OpenState) (l : HookLine) :
    s.words * (front [.word l.kind.terminal, .word .slash] [] * listWords l.actions) ≤
      OpenState.words { s with hooks := s.hooks ++ [l] } := by
  simp only [OpenState.words, List.map_append, mul_assoc]
  exact mul_le_mul_right (mul_le_mul_right ((mul_le_mul_right (hookLine_le l) _).trans
    (many_mul_words _ _ [l.tree])) _) _

/-- A machine is over at its closing brace. -/
theorem Draft.words_mul_le {d : Draft} {t : Token} (ht : t.kind = .closeBrace) :
    d.words * {[t]} ≤ (Form.rule .start).words [(Machine.mk d.name d.items).tree] := by
  calc d.words * {[t]}
    _ ≤ front [.word .fsm, .word .name, .word .openBrace, .many (.hidden .item)]
          ([.leaf d.name] ++ d.items.map Item.tree) * {[t]} :=
      mul_le_mul_left (front_mul_words ..) _
    _ ≤ front [.word .fsm, .word .name, .word .openBrace, .many (.hidden .item),
          .word .closeBrace] ([.leaf d.name] ++ d.items.map Item.tree) := front_mul_dropped ht rfl
    _ ≤ (Form.rule .machine).words [.node .machine (.leaf d.name :: d.items.map Item.tree)] :=
      front_le_rule rfl _
    _ ≤ (Form.rule .start).words [(Machine.mk d.name d.items).tree] :=
      (words_le_front ..).trans (front_le_rule rfl _)

/-! ## Reading the next word -/

namespace Stage

variable {d : Draft} {s s' : Stage} {t : Token}

theorem words_mul_le_of_inBodyNext (h : inBodyNext d t = .ok s') :
    d.words * {[t]} ≤ s'.words := by
  unfold inBodyNext at h
  split at h
  case h_1 ht => cases h; exact begin_dropped ht rfl
  case h_2 ht => cases h; exact begin_dropped ht rfl
  case h_3 ht => cases h; exact begin_kept ht rfl
  case h_4 ht => cases h; exact begin_dropped ht rfl
  case h_5 ht => cases h; exact begin_dropped ht rfl
  case h_6 ht => cases h; exact Draft.words_mul_le ht
  case h_7 => cases h

/-- A word after an item that is over. -/
theorem mul_singleton_le_of_inBodyNext {i : Item} {L : Language Token}
    (hL : L ≤ (d.add i).words) (h : inBodyNext (d.add i) t = .ok s') : L * {[t]} ≤ s'.words :=
  (mul_le_mul_left hL _).trans (words_mul_le_of_inBodyNext h)

theorem words_mul_le_of_inHooksNext {o : OpenState} (h : inHooksNext d o t = .ok s') :
    d.words * o.words * {[t]} ≤ s'.words := by
  unfold inHooksNext at h
  split at h
  case h_1 ht => cases h; exact begin_dropped ht rfl
  case h_2 ht => cases h; exact begin_dropped ht rfl
  case h_3 ht =>
    cases h
    rw [mul_assoc]
    exact Draft.mul_le_add (by simp) (OpenState.words_mul_le ht)
  case h_4 => cases h

theorem words_mul_le_of_inBranchesNext {c : ChoiceItem} (h : inBranchesNext d c t = .ok s') :
    d.words * c.words * {[t]} ≤ s'.words := by
  unfold inBranchesNext at h
  split at h
  case h_1 ht =>
    cases h
    have hmarker : markerTerminal t = .guard := by rw [markerTerminal, ht, if_neg (by decide)]
    rw [words, hmarker]
    exact begin_kept ht rfl
  case h_2 ht =>
    cases h
    have hmarker : markerTerminal t = .elseMark := by rw [markerTerminal, ht, if_pos rfl]
    rw [words, hmarker]
    exact begin_kept ht rfl
  case h_3 ht =>
    cases h
    rw [mul_assoc]
    exact Draft.mul_le_add (by simp) (ChoiceItem.words_mul_le ht)
  case h_4 => cases h

theorem words_mul_le_of_afterActionsNext {site : ActionSite} {actions : List Token}
    (h : afterActionsNext site actions t = .ok s') :
    site.words * listWords actions * {[t]} ≤ s'.words := by
  unfold afterActionsNext at h
  split at h
  case h_1 d o kind =>
    refine (mul_le_mul_left ?_ _).trans (words_mul_le_of_inHooksNext h)
    rw [ActionSite.words, mul_assoc, mul_assoc]
    exact mul_le_mul_right (OpenState.mul_le_addHook o ⟨kind, actions⟩) _
  case h_2 d i =>
    split at h
    case isFalse => cases h
    case isTrue =>
      obtain ⟨a, b, e, g, _ | _⟩ := i
      · refine mul_singleton_le_of_inBodyNext ?_ h
        rw [ActionSite.words, mul_assoc]
        exact (mul_le_mul_right (slash_mul_listWords_le actions) _).trans
          (d.mul_transition_le ⟨a, b, e, g, some actions⟩ (by simp))
      · simp [ActionSite.words]
  case h_3 d c l =>
    split at h
    case isFalse => cases h
    case isTrue =>
      obtain ⟨m, x, _ | _⟩ := l
      · refine (mul_le_mul_left ?_ _).trans (words_mul_le_of_inBranchesNext h)
        rw [ActionSite.words, mul_assoc, mul_assoc, mul_assoc]
        refine mul_le_mul_right ((mul_le_mul_right (mul_le_mul_right
          (slash_mul_listWords_le actions) _) _).trans ?_) _
        exact ChoiceItem.mul_le_addBranch c ⟨m, x, some actions⟩
      · simp [ActionSite.words]

/-- A mark between two actions. -/
theorem listWords_mul_le {actions : List Token} (ht : t.kind = .semicolon ∨ t.kind = .comma) :
    listWords actions * {[t]} ≤ listWordsOpen actions := by
  cases actions with
  | nil => simp [listWords]
  | cons a more =>
    refine mul_le_mul_right (LE.le.trans ?_ (words_le_front ..)) _
    rintro ws rfl
    rcases ht with ht | ht
    · exact leaves_of_dropped ht rfl ▸ Derives.any (by simp) (.word ht)
    · exact leaves_of_dropped ht rfl ▸ Derives.any (by simp) (.word ht)

/-- One more action. -/
theorem listWordsOpen_mul_le {actions : List Token} (ht : t.kind = .action) :
    listWordsOpen actions * {[t]} ≤ listWords (actions ++ [t]) := by
  cases actions with
  | nil =>
    calc 1 * {[t]}
      _ ≤ 1 * front [.word .action] [.leaf t] := begin_kept ht rfl
      _ ≤ front [.word .action] [.leaf t] * (Form.many moreActions).words [] := by
        rw [one_mul]
        exact le_mul_of_one_le_right' (one_le_many _)
  | cons a more =>
    calc listWords (a :: more) * front [.any [.word .semicolon, .word .comma]] [] * {[t]}
      _ ≤ listWords (a :: more) * moreActions.words [.leaf t] := read_kept ht rfl
      _ ≤ listWords (a :: more ++ [t]) := by
        simp only [listWords, List.cons_append, List.map_append, mul_assoc]
        exact mul_le_mul_right (many_mul_words _ _ [.leaf t]) _

/-- The brace that opens the body of a state. -/
theorem stateHead_mul_singleton_le (ht : t.kind = .openBrace) (id : Token)
    (description : Option Token) :
    stateHead id description * {[t]} ≤ OpenState.words ⟨id, description, []⟩ :=
  (begin_dropped ht rfl).trans
    (mul_le_mul_right (le_mul_of_one_le_right' (one_le_many _)) _)

theorem singleton_le_triggerWords (ht : t.kind = .name) : {[t]} ≤ triggerWords (some t) none :=
  calc ({[t]} : Language Token)
    _ ≤ 1 * front [.word .name] [.leaf t] := by
      rw [← one_mul {[t]}]
      exact begin_kept ht rfl
    _ ≤ (Form.opt (.rule .event)).words (nodePart .event (some t)) := by
      rw [one_mul]
      exact (front_le_rule rfl _).trans (words_le_opt ..)
    _ ≤ triggerWords (some t) none := le_mul_opt _

theorem triggerWords_mul_singleton_le (ht : t.kind = .guard) (event : Option Token) :
    triggerWords event none * {[t]} ≤ triggerWords event (some t) := by
  rw [triggerWords, mul_assoc]
  refine mul_le_mul_right ?_ _
  calc (Form.opt (.rule .guard)).words (nodePart .guard none) * {[t]}
    _ ≤ 1 * {[t]} := mul_le_mul_left (opt_rule_words_nil_le _) _
    _ ≤ 1 * front [.word .guard] [.leaf t] := begin_kept ht rfl
    _ ≤ (Form.opt (.rule .guard)).words (nodePart .guard (some t)) := by
      rw [one_mul]
      exact (front_le_rule rfl _).trans (words_le_opt ..)

theorem one_le_triggerWords : 1 ≤ triggerWords none none :=
  (one_le_opt _).trans (le_mul_opt _)

theorem mul_le_of_eq_zero {L M N : Language Token} (h : L = 0) : L * M ≤ N := by
  rw [h, zero_mul]
  exact bot_le

theorem eventRead_cases (d : Draft) (i : TransitionItem) :
    (eventRead d i).words = 0 ∨ ∃ a b e, i = ⟨a, b, some e, none, none⟩ := by
  obtain ⟨a, b, _ | e, _ | g, _ | acts⟩ := i <;> simp [words]

theorem guardRead_cases (d : Draft) (i : TransitionItem) :
    (guardRead d i).words = 0 ∨ ∃ a b e g, i = ⟨a, b, e, some g, none⟩ := by
  obtain ⟨a, b, e, _ | g, _ | acts⟩ := i <;> simp [words]

theorem branchEnds_cases (d : Draft) (c : ChoiceItem) (l : BranchLine) :
    (branchEnds d c l).words = 0 ∨ ∃ m x, l = ⟨m, x, none⟩ := by
  obtain ⟨m, x, _ | acts⟩ := l <;> simp [words]

/-- What has been read of a choice whose last branch is over. -/
theorem mul_branchHead_le (d : Draft) (c : ChoiceItem) (l : BranchLine) :
    d.words * c.words * (branchHead l.marker l.target *
        (Form.opt (.rule .actions)).words (actionsPart l.actions)) ≤
      d.words * (addBranch c l).words :=
  (mul_assoc ..).trans_le (mul_le_mul_right (ChoiceItem.mul_le_addBranch c l) _)

/-- A word that the grammar lets through takes what has been read at one stage to what has been
read at the next. -/
theorem words_mul_le_of_next (h : s.next t = .ok s') : s.words * {[t]} ≤ s'.words := by
  unfold next at h
  -- One case for each line of `next`, in groups by the construct that is open.
  split at h
  case h_1 ht => cases h; exact (begin_dropped ht rfl).trans_eq (one_mul _)
  case h_2 ht => cases h; exact front_mul_kept ht rfl
  case h_3 ht =>
    cases h
    exact (front_mul_dropped ht rfl).trans (le_mul_of_one_le_right' (one_le_many _))
  case h_4 => exact words_mul_le_of_inBodyNext h
  -- The initial marker.
  case h_5 ht => cases h; exact read_dropped ht rfl
  case h_6 ht =>
    cases h
    exact (read_kept ht rfl).trans (Draft.mul_le_add (by simp) (front_le_initial ..))
  -- A state: a head that is over is a state without a body.
  case h_7 ht => cases h; exact read_kept ht rfl
  case h_8 ht => cases h; exact begin_dropped ht rfl
  case h_9 ht =>
    cases h
    exact (mul_assoc ..).trans_le (mul_le_mul_right ((mul_le_mul_left (le_mul_opt _) _).trans
      (stateHead_mul_singleton_le ht _ none)) _)
  case h_10 =>
    exact mul_singleton_le_of_inBodyNext
      (Draft.mul_le_add (by simp) ((le_mul_opt _).trans (stateHead_le _ none))) h
  case h_11 ht =>
    cases h
    refine (read_kept ht rfl).trans ((mul_assoc ..).trans_le ?_)
    exact mul_le_mul_right (mul_le_mul_right (words_le_opt descriptionForm _) _) _
  case h_12 ht =>
    cases h
    exact (mul_assoc ..).trans_le (mul_le_mul_right (stateHead_mul_singleton_le ht ..) _)
  case h_13 => exact mul_singleton_le_of_inBodyNext (Draft.mul_le_add (by simp) (stateHead_le ..)) h
  case h_14 => exact words_mul_le_of_inHooksNext h
  case h_15 ht => cases h; exact (read_dropped ht rfl).trans_eq (mul_one _).symm
  -- A transition: the parts of its trigger that do not come are absent.
  case h_16 ht => cases h; exact read_dropped ht rfl
  case h_17 ht => cases h; exact read_kept ht rfl
  case h_18 ht => cases h; exact (begin_dropped ht rfl).trans_eq (mul_assoc ..)
  case h_19 =>
    exact mul_singleton_le_of_inBodyNext (Draft.mul_le_add (by simp) (transitionEnds_le ..)) h
  case h_20 ht => cases h; exact mul_le_mul_right (singleton_le_triggerWords ht) _
  case h_21 ht =>
    cases h
    refine (mul_le_mul_left (le_mul_of_one_le_right' one_le_triggerWords) _).trans ?_
    exact (mul_assoc ..).trans_le (mul_le_mul_right (triggerWords_mul_singleton_le ht _) _)
  case h_22 ht =>
    cases h
    refine (mul_le_mul_left (le_mul_of_one_le_right' one_le_triggerWords) _).trans ?_
    exact (begin_dropped ht rfl).trans_eq (mul_one _).symm
  case h_23 d i ht =>
    cases h
    rcases eventRead_cases d i with hi | ⟨a, b, e, rfl⟩
    · exact mul_le_of_eq_zero hi
    · exact (mul_assoc ..).trans_le (mul_le_mul_right (triggerWords_mul_singleton_le ht _) _)
  case h_24 d i ht =>
    cases h
    rcases eventRead_cases d i with hi | ⟨a, b, e, rfl⟩
    · exact mul_le_of_eq_zero hi
    · exact (begin_dropped ht rfl).trans_eq (mul_one _).symm
  case h_25 d i hguard hslash =>
    rcases eventRead_cases d i with hi | ⟨a, b, e, rfl⟩
    · exact mul_le_of_eq_zero hi
    · exact mul_singleton_le_of_inBodyNext
        ((le_mul_opt _).trans (d.mul_transition_le ⟨a, b, some e, none, none⟩ (by simp))) h
  case h_26 d i ht =>
    cases h
    rcases guardRead_cases d i with hi | ⟨a, b, e, g, rfl⟩
    · exact mul_le_of_eq_zero hi
    · exact (begin_dropped ht rfl).trans_eq (mul_one _).symm
  case h_27 d i hslash =>
    rcases guardRead_cases d i with hi | ⟨a, b, e, g, rfl⟩
    · exact mul_le_of_eq_zero hi
    · exact mul_singleton_le_of_inBodyNext
        ((le_mul_opt _).trans (d.mul_transition_le ⟨a, b, e, some g, none⟩ (by simp))) h
  -- A timer.
  case h_28 ht => cases h; exact read_kept ht rfl
  case h_29 ht => cases h; exact read_dropped ht rfl
  case h_30 ht => cases h; exact read_kept ht rfl
  case h_31 ht => cases h; exact read_dropped ht rfl
  case h_32 ht => cases h; exact read_kept ht rfl
  case h_33 n x e ht =>
    cases h
    have hperiodic := (singleton_le_word ht).trans (words_le_opt ..)
    rw [leaves_of_kept ht rfl] at hperiodic
    refine (mul_assoc ..).trans_le (Draft.mul_le_add (r := .timer) (by simp) ?_)
    exact (mul_le_mul_right hperiodic _).trans (timer_le ⟨n, x, e, some t⟩)
  case h_34 n x e hperiodic =>
    exact mul_singleton_le_of_inBodyNext
      (Draft.mul_le_add (by simp) ((le_mul_opt _).trans (timer_le ⟨n, x, e, none⟩))) h
  -- A choice and its branches.
  case h_35 ht => cases h; exact read_kept ht rfl
  case h_36 ht =>
    cases h
    exact (read_dropped ht rfl).trans
      (mul_le_mul_right (le_mul_of_one_le_right' (one_le_many _)) _)
  case h_37 => exact words_mul_le_of_inBranchesNext h
  case h_38 ht => cases h; exact read_dropped ht rfl
  case h_39 ht => cases h; exact read_kept ht rfl
  case h_40 d c l ht =>
    cases h
    rcases branchEnds_cases d c l with hl | ⟨m, x, rfl⟩
    · exact mul_le_of_eq_zero hl
    · exact (begin_dropped ht rfl).trans_eq (mul_one _).symm
  case h_41 d c l hslash =>
    rcases branchEnds_cases d c l with hl | ⟨m, x, rfl⟩
    · exact mul_le_of_eq_zero hl
    · refine (mul_le_mul_left ?_ _).trans (words_mul_le_of_inBranchesNext h)
      exact (mul_le_mul_right (le_mul_opt _) _).trans (mul_branchHead_le d c ⟨m, x, none⟩)
  -- An action list, wherever it stands.
  case h_42 ht =>
    cases h
    exact (mul_assoc ..).trans_le (mul_le_mul_right (listWordsOpen_mul_le ht) _)
  case h_43 ht =>
    cases h
    exact (mul_assoc ..).trans_le (mul_le_mul_right (listWords_mul_le (.inl ht)) _)
  case h_44 ht =>
    cases h
    exact (mul_assoc ..).trans_le (mul_le_mul_right (listWords_mul_le (.inr ht)) _)
  case h_45 => exact words_mul_le_of_afterActionsNext h
  case h_46 => cases h

end Stage

end Statechart.Grammar
