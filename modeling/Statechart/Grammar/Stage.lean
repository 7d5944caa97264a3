import Statechart.Grammar.Tree

/-!
# Stages of reading

A description is read word by word. A stage holds what has been read and so which words may
come next (`Stage.expected`); `Stage.next` reads one word. Where the word does not fit, `next`
gives the stage in which reading is stuck: an action list, once over, may only then turn out to
be followed by a word that its own surroundings do not allow.

Action lists are read the same way wherever they stand, so after an action any word is expected
that may follow an action list anywhere.
-/

namespace Statechart.Grammar

/-- A machine of which some items have been read. -/
structure Draft where
  name : Token
  items : List Item
  deriving DecidableEq, Repr

/-- The draft with one more item. -/
def Draft.add (d : Draft) (i : Item) : Draft := { d with items := d.items ++ [i] }

/-- A state of which the head and some lines of actions have been read. -/
structure OpenState where
  id : Token
  description : Option Token
  hooks : List HookLine
  deriving DecidableEq, Repr

/-- The state, once its body is closed. -/
def OpenState.close (s : OpenState) : Item := .state ⟨s.id, s.description, some s.hooks⟩

/-- The construct that an action list belongs to. -/
inductive ActionSite
  | hook (draft : Draft) (state : OpenState) (kind : HookKind)
  | transition (draft : Draft) (item : TransitionItem)
  | branch (draft : Draft) (choice : ChoiceItem) (line : BranchLine)
  deriving DecidableEq, Repr

/-- What has been read, and so what comes next. -/
inductive Stage
  | start
  | machineName
  | machineOpen (name : Token)
  | body (draft : Draft)
  | initialArrow (draft : Draft) (mark : Token)
  | initialTarget (draft : Draft) (mark : Token)
  | stateName (draft : Draft)
  | stateNamed (draft : Draft) (id : Token)
  | stateColon (draft : Draft) (id : Token)
  | stateDescribed (draft : Draft) (id description : Token)
  | hooks (draft : Draft) (state : OpenState)
  | hookSlash (draft : Draft) (state : OpenState) (kind : HookKind)
  | transitionArrow (draft : Draft) (source : Token)
  | transitionTarget (draft : Draft) (source : Token)
  | transitionEnds (draft : Draft) (source target : Token)
  | trigger (draft : Draft) (source target : Token)
  | eventRead (draft : Draft) (item : TransitionItem)
  | guardRead (draft : Draft) (item : TransitionItem)
  | transitionActed (draft : Draft) (item : TransitionItem)
  | timerName (draft : Draft)
  | timerEquals (draft : Draft) (id : Token)
  | timerDuration (draft : Draft) (id : Token)
  | timerArrow (draft : Draft) (id duration : Token)
  | timerEvent (draft : Draft) (id duration : Token)
  | timerRead (draft : Draft) (id duration event : Token)
  | choiceName (draft : Draft)
  | choiceOpen (draft : Draft) (id : Token)
  | branches (draft : Draft) (choice : ChoiceItem)
  | branchArrow (draft : Draft) (choice : ChoiceItem) (marker : Token)
  | branchTarget (draft : Draft) (choice : ChoiceItem) (marker : Token)
  | branchEnds (draft : Draft) (choice : ChoiceItem) (line : BranchLine)
  | branchActed (draft : Draft) (choice : ChoiceItem) (line : BranchLine)
  | actionWanted (site : ActionSite) (done : List Token)
  | actionRead (site : ActionSite) (done : List Token)
  | finished (machine : Machine)
  deriving DecidableEq, Repr

namespace Stage

/-- The words that may stand between the items of a machine. -/
def inBody : List Terminal := [.initialMark, .state, .name, .timer, .choice, .closeBrace]

/-- The words that may stand between the lines of a state. -/
def inHooks : List Terminal := [.entry, .exit, .closeBrace]

/-- The words that may stand between the branches of a choice. -/
def inBranches : List Terminal := [.guard, .elseMark, .closeBrace]

/-- The words that may follow the actions of a transition or a branch. -/
def afterActions : List Terminal := inBody ++ [.guard, .elseMark]

/-- The words that may come next. -/
def expected : Stage → List Terminal
  | start => [.fsm]
  | machineName => [.name]
  | machineOpen _ => [.openBrace]
  | body _ => inBody
  | initialArrow .. => [.longArrow]
  | initialTarget .. => [.name]
  | stateName _ => [.name]
  | stateNamed .. => .colon :: .openBrace :: inBody
  | stateColon .. => [.string]
  | stateDescribed .. => .openBrace :: inBody
  | hooks .. => inHooks
  | hookSlash .. => [.slash]
  | transitionArrow .. => [.longArrow]
  | transitionTarget .. => [.name]
  | transitionEnds .. => .colon :: inBody
  | trigger .. => [.name, .guard, .slash]
  | eventRead .. => .guard :: .slash :: inBody
  | guardRead .. => .slash :: inBody
  | transitionActed .. => afterActions
  | timerName _ => [.name]
  | timerEquals .. => [.equals]
  | timerDuration .. => [.int]
  | timerArrow .. => [.arrow]
  | timerEvent .. => [.name]
  | timerRead .. => .periodic :: inBody
  | choiceName _ => [.name]
  | choiceOpen .. => [.openBrace]
  | branches .. => inBranches
  | branchArrow .. => [.arrow]
  | branchTarget .. => [.name]
  | branchEnds .. => .slash :: inBranches
  | branchActed .. => afterActions
  | actionWanted .. => [.action]
  | actionRead .. => [.semicolon, .comma, .entry, .exit] ++ afterActions
  | finished _ => []

/-! ## Reading one word -/

/-- Reads a word between the items of a machine. -/
def inBodyNext (d : Draft) (t : Token) : Except Stage Stage :=
  match t.kind with
  | .initialMark => .ok (initialArrow d t)
  | .state => .ok (stateName d)
  | .name => .ok (transitionArrow d t)
  | .timer => .ok (timerName d)
  | .choice => .ok (choiceName d)
  | .closeBrace => .ok (finished ⟨d.name, d.items⟩)
  | _ => .error (body d)

/-- Reads a word between the lines of a state. -/
def inHooksNext (d : Draft) (s : OpenState) (t : Token) : Except Stage Stage :=
  match t.kind with
  | .entry => .ok (hookSlash d s .entry)
  | .exit => .ok (hookSlash d s .exit)
  | .closeBrace => .ok (body (d.add s.close))
  | _ => .error (hooks d s)

/-- Reads a word between the branches of a choice. -/
def inBranchesNext (d : Draft) (c : ChoiceItem) (t : Token) : Except Stage Stage :=
  match t.kind with
  | .guard | .elseMark => .ok (branchArrow d c t)
  | .closeBrace => .ok (body (d.add (.choice c)))
  | _ => .error (branches d c)

/-- The choice with one more branch. -/
def addBranch (c : ChoiceItem) (b : BranchLine) : ChoiceItem :=
  { c with branches := c.branches ++ [b] }

/-- Reads the word after an action list that is over. -/
def afterActionsNext (site : ActionSite) (actions : List Token) (t : Token) :
    Except Stage Stage :=
  match site with
  | .hook d s kind => inHooksNext d { s with hooks := s.hooks ++ [⟨kind, actions⟩] } t
  | .transition d item =>
    let item := { item with actions := some actions }
    if afterActions.contains t.kind then inBodyNext (d.add (.transition item)) t
    else .error (transitionActed d item)
  | .branch d c line =>
    let line := { line with actions := some actions }
    if afterActions.contains t.kind then inBranchesNext d (addBranch c line) t
    else .error (branchActed d c line)

/-- Reads one word: the next stage, or the one in which the word does not fit. -/
def next (s : Stage) (t : Token) : Except Stage Stage :=
  match s, t.kind with
  | start, .fsm => .ok machineName
  | machineName, .name => .ok (machineOpen t)
  | machineOpen n, .openBrace => .ok (body ⟨n, []⟩)
  | body d, _ => inBodyNext d t
  | initialArrow d m, .longArrow => .ok (initialTarget d m)
  | initialTarget d m, .name => .ok (body (d.add (.initial ⟨m, t⟩)))
  | stateName d, .name => .ok (stateNamed d t)
  | stateNamed d n, .colon => .ok (stateColon d n)
  | stateNamed d n, .openBrace => .ok (hooks d ⟨n, none, []⟩)
  | stateNamed d n, _ => inBodyNext (d.add (.state ⟨n, none, none⟩)) t
  | stateColon d n, .string => .ok (stateDescribed d n t)
  | stateDescribed d n x, .openBrace => .ok (hooks d ⟨n, some x, []⟩)
  | stateDescribed d n x, _ => inBodyNext (d.add (.state ⟨n, some x, none⟩)) t
  | hooks d h, _ => inHooksNext d h t
  | hookSlash d h k, .slash => .ok (actionWanted (.hook d h k) [])
  | transitionArrow d a, .longArrow => .ok (transitionTarget d a)
  | transitionTarget d a, .name => .ok (transitionEnds d a t)
  | transitionEnds d a b, .colon => .ok (trigger d a b)
  | transitionEnds d a b, _ => inBodyNext (d.add (.transition ⟨a, b, none, none, none⟩)) t
  | trigger d a b, .name => .ok (eventRead d ⟨a, b, some t, none, none⟩)
  | trigger d a b, .guard => .ok (guardRead d ⟨a, b, none, some t, none⟩)
  | trigger d a b, .slash => .ok (actionWanted (.transition d ⟨a, b, none, none, none⟩) [])
  | eventRead d i, .guard => .ok (guardRead d { i with guard := some t })
  | eventRead d i, .slash => .ok (actionWanted (.transition d i) [])
  | eventRead d i, _ => inBodyNext (d.add (.transition i)) t
  | guardRead d i, .slash => .ok (actionWanted (.transition d i) [])
  | guardRead d i, _ => inBodyNext (d.add (.transition i)) t
  | timerName d, .name => .ok (timerEquals d t)
  | timerEquals d n, .equals => .ok (timerDuration d n)
  | timerDuration d n, .int => .ok (timerArrow d n t)
  | timerArrow d n x, .arrow => .ok (timerEvent d n x)
  | timerEvent d n x, .name => .ok (timerRead d n x t)
  | timerRead d n x e, .periodic => .ok (body (d.add (.timer ⟨n, x, e, some t⟩)))
  | timerRead d n x e, _ => inBodyNext (d.add (.timer ⟨n, x, e, none⟩)) t
  | choiceName d, .name => .ok (choiceOpen d t)
  | choiceOpen d n, .openBrace => .ok (branches d ⟨n, []⟩)
  | branches d c, _ => inBranchesNext d c t
  | branchArrow d c m, .arrow => .ok (branchTarget d c m)
  | branchTarget d c m, .name => .ok (branchEnds d c ⟨m, t, none⟩)
  | branchEnds d c b, .slash => .ok (actionWanted (.branch d c b) [])
  | branchEnds d c b, _ => inBranchesNext d (addBranch c b) t
  | actionWanted site done, .action => .ok (actionRead site (done ++ [t]))
  | actionRead site done, .semicolon => .ok (actionWanted site done)
  | actionRead site done, .comma => .ok (actionWanted site done)
  | actionRead site done, _ => afterActionsNext site done t
  | s, _ => .error s

end Stage

end Statechart.Grammar
