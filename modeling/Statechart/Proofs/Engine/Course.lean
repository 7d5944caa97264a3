import Mathlib
import Statechart.Proofs.Engine.FailedLoad
import Statechart.Proofs.Engine.Retention

/-!
# The course of a step

Where a step goes and what it runs, as rules that know of no engine: which of several arrows is the
first whose condition is met (`First`), how choices lead on to a state (`Definition.Threads`), what
one transition passes and runs (`Definition.Crosses`), and how completion transitions are followed
until none is enabled (`Definition.Settles`). A transition and what it settles to are a
`Definition.Course`. For given answers of the guards there is one course at most
(`Definition.Course.unique`).

A walk through the machine keeps what it has passed and run in a `Progress`. The invariant looks
ahead (`Outlook`): whatever the rules allow for the rest of the way, put behind what has been done,
is what the rules allow for the whole. Each stage of the walk uses up one rule. That the host has
been shown what an entry tells is said apart (`Statechart.Proofs.Engine.Showing`).

Main statement: `step_follows_course`.
-/

namespace Statechart

variable {σ π ε α : Type}

/-! ## The first arrow -/

/-- There is no condition, or it holds. -/
def Met (holds : String → Prop) (condition : Option String) : Prop := ∀ text ∈ condition, holds text

/-- The arrow is the first whose condition is met. -/
def First (holds : String → Prop) (condition : α → Option String) (arrows : List α) (a : α) :
    Prop :=
  ∃ earlier later, arrows = earlier ++ a :: later ∧ Met holds (condition a) ∧
    ∀ b ∈ earlier, ¬ Met holds (condition b)

section First

variable {holds : String → Prop} {condition : α → Option String} {arrows : List α} {a b : α}

theorem First.mem (h : First holds condition arrows a) : a ∈ arrows := by
  obtain ⟨earlier, later, rfl, -, -⟩ := h
  simp

theorem First.met (h : First holds condition arrows a) : Met holds (condition a) := by
  obtain ⟨-, -, -, hmet, -⟩ := h
  exact hmet

theorem First.unique (ha : First holds condition arrows a) (hb : First holds condition arrows b) :
    b = a := by
  obtain ⟨earlier, later, rfl, hmet, hearlier⟩ := ha
  obtain ⟨earlier', later', heq, hmet', hearlier'⟩ := hb
  rcases List.append_eq_append_iff.1 heq with ⟨between, rfl, hrest⟩ | ⟨between, rfl, hrest⟩
  · cases between with
    | nil => exact (List.cons.inj hrest).1.symm
    | cons x xs =>
      obtain rfl : a = x := (List.cons.inj hrest).1
      exact absurd hmet (hearlier' a (by simp))
  · cases between with
    | nil => exact (List.cons.inj hrest).1
    | cons x xs =>
      obtain rfl : b = x := (List.cons.inj hrest).1
      exact absurd hmet' (hearlier b (by simp))

theorem First.cons (hb : ¬ Met holds (condition b)) (h : First holds condition arrows a) :
    First holds condition (b :: arrows) a := by
  obtain ⟨earlier, later, rfl, hmet, hearlier⟩ := h
  exact ⟨b :: earlier, later, rfl, hmet, by simpa using ⟨hb, hearlier⟩⟩

/-- The arrow that is chosen is the first, and none is if no condition is met. -/
theorem firstEnabled_spec {guard : Guard σ π} {event : Option String} {payload : Option π}
    (hguard : ∀ text s, (guard text event payload s).1 = some true ↔ holds text)
    (condition : α → Option String) (arrows : List α) (s : σ) :
    match (firstEnabled guard condition event payload arrows s).1 with
    | none => ∀ a ∈ arrows, ¬ Met holds (condition a)
    | some a => First holds condition arrows a := by
  induction arrows generalizing s with
  | nil => simp [firstEnabled]
  | cons b bs ih =>
    simp only [firstEnabled]
    cases hb : condition b with
    | none => exact ⟨[], bs, rfl, by simp [Met, hb], by simp⟩
    | some text =>
      have hasked := hguard text s
      by_cases hholds : holds text
      · simp only [hasked.2 hholds, Option.getD_some, if_true]
        exact ⟨[], bs, rfl, by simpa [Met, hb] using hholds, by simp⟩
      · have hfalse : (guard text event payload s).1.getD false = false := by
          rcases h : (guard text event payload s).1 with _ | _ | _
          · rfl
          · rfl
          · exact absurd (hasked.1 h) hholds
        have hunmet : ¬ Met holds (condition b) := by simpa [Met, hb] using hholds
        have hrest := ih (guard text event payload s).2
        simp only [hfalse, Bool.false_eq_true, if_false]
        split at hrest
        · simpa using ⟨hunmet, hrest⟩
        · exact hrest.cons hunmet

end First

/-! ## The rules -/

/-- The choice is left by the first of its branches whose condition holds, else by its default. -/
def Choice.Picks (c : Choice) (holds : String → Prop) (b : Branch) : Prop :=
  First holds Branch.condition c.conditioned b ∨
    (∀ b' ∈ c.conditioned, ¬ Met holds b'.condition) ∧ c.default? = some b

theorem Choice.Picks.unique {c : Choice} {holds : String → Prop} {b b' : Branch}
    (h : c.Picks holds b) (h' : c.Picks holds b') : b' = b := by
  rcases h with h | ⟨hnone, h⟩ <;> rcases h' with h' | ⟨hnone', h'⟩
  · exact h.unique h'
  · exact absurd h.met (hnone' b h.mem)
  · exact absurd h'.met (hnone b' h'.mem)
  · exact Option.some_inj.1 (h'.symm.trans h)

namespace Definition

variable (m : Definition) (holds : String → Prop)

/-- Choices lead from a node on to a state: the choices that are passed, the actions of the branches
taken, and the state. -/
inductive Threads : String → List String → List String → State → Prop
  | arrive {node : String} {s : State} (hchoice : m.choice? node = none)
    (hstate : m.state? node = some s) : Threads node [] [] s
  | choose {node : String} {c : Choice} {b : Branch} {choices actions : List String} {s : State}
    (hchoice : m.choice? node = some c) (hbranch : c.Picks holds b)
    (hrest : Threads b.target choices actions s) :
    Threads node (node :: choices) (b.actions ++ actions) s

/-- A transition is taken from a state to the next one: the nodes that are passed, the last of them
the state that is entered, and the actions that are run. -/
inductive Crosses (s : State) (t : Transition) : List String → List String → State → Prop
  | intro {choices actions : List String} {next : State}
    (hthreads : m.Threads holds t.target choices actions next) :
    Crosses s t (choices ++ [next.id]) (s.exit ++ t.actions ++ actions ++ next.entry) next

/-- Completion transitions are followed from a state, each the first that is enabled, until none is:
the nodes that are passed, the actions that are run, and the state at the end. -/
inductive Settles : State → List String → List String → State → Prop
  | rest {s : State} (hnone : ∀ t ∈ m.completionsFrom s.id, ¬ Met holds t.guard) :
    Settles s [] [] s
  | follow {s next final : State} {t : Transition} {nodes actions nodes' actions' : List String}
    (hfirst : First holds Transition.guard (m.completionsFrom s.id) t)
    (hcross : m.Crosses holds s t nodes actions next) (hrest : Settles next nodes' actions' final) :
    Settles s (nodes ++ nodes') (actions ++ actions') final

/-- A transition is taken from a state, and completion transitions are followed from where it
leads. -/
inductive Course (s : State) (t : Transition) : List String → List String → State → Prop
  | intro {next final : State} {nodes actions nodes' actions' : List String}
    (hcross : m.Crosses holds s t nodes actions next)
    (hrest : m.Settles holds next nodes' actions' final) :
    Course s t (nodes ++ nodes') (actions ++ actions') final

/-! ## The rules leave no choice -/

variable {m holds} {s final final' : State} {t : Transition}
  {node : String} {nodes actions nodes' actions' : List String}

theorem Threads.unique (h : m.Threads holds node nodes actions final)
    (h' : m.Threads holds node nodes' actions' final') :
    nodes' = nodes ∧ actions' = actions ∧ final' = final := by
  induction h generalizing nodes' actions' final' with
  | arrive hchoice hstate =>
    cases h' with
    | arrive _ hstate' => exact ⟨rfl, rfl, Option.some_inj.1 (hstate'.symm.trans hstate)⟩
    | choose hchoice' => simp [hchoice] at hchoice'
  | choose hchoice hbranch _ ih =>
    cases h' with
    | arrive hchoice' => simp [hchoice] at hchoice'
    | choose hchoice' hbranch' hrest' =>
      obtain rfl := Option.some_inj.1 (hchoice'.symm.trans hchoice)
      obtain rfl := hbranch.unique hbranch'
      obtain ⟨rfl, rfl, rfl⟩ := ih hrest'
      exact ⟨rfl, rfl, rfl⟩

theorem Crosses.unique (h : m.Crosses holds s t nodes actions final)
    (h' : m.Crosses holds s t nodes' actions' final') :
    nodes' = nodes ∧ actions' = actions ∧ final' = final := by
  obtain ⟨hthreads⟩ := h
  obtain ⟨hthreads'⟩ := h'
  obtain ⟨rfl, rfl, rfl⟩ := hthreads.unique hthreads'
  exact ⟨rfl, rfl, rfl⟩

theorem Settles.unique (h : m.Settles holds s nodes actions final)
    (h' : m.Settles holds s nodes' actions' final') :
    nodes' = nodes ∧ actions' = actions ∧ final' = final := by
  induction h generalizing nodes' actions' final' with
  | rest hnone =>
    cases h' with
    | rest => exact ⟨rfl, rfl, rfl⟩
    | follow hfirst => exact absurd hfirst.met (hnone _ hfirst.mem)
  | follow hfirst hcross _ ih =>
    cases h' with
    | rest hnone => exact absurd hfirst.met (hnone _ hfirst.mem)
    | follow hfirst' hcross' hrest' =>
      obtain rfl := hfirst.unique hfirst'
      obtain ⟨rfl, rfl, rfl⟩ := hcross.unique hcross'
      obtain ⟨rfl, rfl, rfl⟩ := ih hrest'
      exact ⟨rfl, rfl, rfl⟩

theorem Course.unique (h : m.Course holds s t nodes actions final)
    (h' : m.Course holds s t nodes' actions' final') :
    nodes' = nodes ∧ actions' = actions ∧ final' = final := by
  obtain ⟨hcross, hrest⟩ := h
  obtain ⟨hcross', hrest'⟩ := h'
  obtain ⟨rfl, rfl, rfl⟩ := hcross.unique hcross'
  obtain ⟨rfl, rfl, rfl⟩ := hrest.unique hrest'
  exact ⟨rfl, rfl, rfl⟩

end Definition

/-! ## The walk follows the rules -/

namespace Progress

/-- More nodes passed and more actions run. -/
def extend (p : Progress) (nodes actions : List String) : Progress :=
  ⟨p.origin, p.visited ++ nodes, p.executed ++ actions⟩

@[simp] theorem extend_nil (p : Progress) : p.extend [] [] = p := by simp [extend]

@[simp] theorem extend_run (p : Progress) (ran nodes actions : List String) :
    (p.run ran).extend nodes actions = p.extend nodes (ran ++ actions) := by
  simp [extend, run]

@[simp] theorem extend_visit (p : Progress) (node : String) (nodes actions : List String) :
    (p.visit node).extend nodes actions = p.extend (node :: nodes) actions := by
  simp [extend, visit]

end Progress

namespace Engine

/-- Whatever the rules allow from this stage on, put behind what has been done, meets the goal. -/
def Outlook (m : Definition) (holds : String → Prop) (goal : Progress → State → Prop)
    (phase : Phase) (p : Progress) (w : World σ π) : Prop :=
  match phase with
  | .take id t => ∃ s, m.state? id = some s ∧ ∀ nodes actions final,
      m.Course holds s t nodes actions final → goal (p.extend nodes actions) final
  | .resolve node => ∀ choices ran s nodes actions final, m.Threads holds node choices ran s →
      m.Settles holds s nodes actions final →
      goal (p.extend (choices ++ s.id :: nodes) (ran ++ s.entry ++ actions)) final
  | .enter id => ∀ s nodes actions final, m.state? id = some s →
      m.Settles holds s nodes actions final →
      goal (p.extend (s.id :: nodes) (s.entry ++ actions)) final
  | .settle => ∃ s, w.engine.current = some s.id ∧ m.state? s.id = some s ∧
      ∀ nodes actions final, m.Settles holds s nodes actions final →
      goal (p.extend nodes actions) final

section Walk

variable {h : Host σ π ε} (hh : h.Only Call.IsPostOrTick) (depth : Nat) {m : Definition}
  {event : Option String} {payload : Option π} {holds : String → Prop}
  (hguard : ∀ text s, ((h.environment depth).guard text event payload s).1 = some true ↔ holds text)

include hguard in
theorem ends_choose_first {condition : α → Option String} {arrows : List α} {w : World σ π}
    {ok : Option α → World σ π → Prop} {broken : Fault ε → World σ π → Prop}
    (hnone : (∀ a ∈ arrows, ¬ Met holds (condition a)) → ∀ s, ok none { w with host := s })
    (hsome : ∀ a, First holds condition arrows a → ∀ s, ok (some a) { w with host := s }) :
    Ends (choose (h.environment depth) condition event payload arrows) w ok broken := by
  have hspec := firstEnabled_spec hguard condition arrows w.host
  rw [ends_choose_iff]
  split at hspec
  · rename_i hchosen
    rw [hchosen]
    exact hnone hspec _
  · rename_i a hchosen
    rw [hchosen]
    exact hsome a hspec _

/-- Leaving a state runs its exit actions. -/
theorem ends_leave_exits (env : Environment σ π ε) {id : String} {s : State}
    (hs : m.state? id = some s) (w : World σ π) :
    Ends (leave env m id) w (fun exits _ => exits = s.exit) fun _ _ => True := by
  simp only [leave, ends_bind, ends_update, hs, ends_pure]
  exact .of_forall (fun _ _ => trivial) fun _ _ => trivial

include hh hguard in
/-- **A walk follows the rules** as far as it gets. -/
theorem stages_outlook (goal : Progress → State → Prop) :
    Stages (h.environment depth) m event payload (Outlook m holds goal)
      (fun p w => ∃ final, w.engine.current = some final.id ∧ goal p final)
      fun _ _ => True := by
  constructor
  case take =>
    rintro id t p w ⟨s, hs, hgoal⟩
    refine (ends_leave_exits _ hs w).mono (fun exits v hexits => ?_) fun _ _ hb => hb
    subst hexits
    refine .of_forall (fun _ u => ?_) fun _ _ => trivial
    intro choices ran next nodes actions final hthreads hsettles
    simpa using hgoal _ _ _ (.intro (.intro hthreads) hsettles)
  case arrive =>
    intro node p w hchoice hgoal s nodes actions final hs hsettles
    simpa using hgoal [] [] s nodes actions final (.arrive hchoice hs) hsettles
  case rechoose => exact fun _ _ _ _ _ _ => trivial
  case choose =>
    intro node p w c hchoice _ hgoal
    have hbranch : ∀ (b : Branch) (s : σ), c.Picks holds b →
        Ends (perform (h.environment depth) m b.actions) { w with host := s }
          (fun _ v => Outlook m holds goal (.resolve b.target) ((p.visit node).run b.actions) v)
          fun _ _ => True := by
      intro b s hb
      refine .of_forall (fun _ v => ?_) fun _ _ => trivial
      intro choices ran next nodes actions final hthreads hsettles
      simpa using hgoal _ _ next nodes actions final (.choose hchoice hb hthreads) hsettles
    refine ends_choose_first depth hguard (fun hnone s => ?_) fun b hfirst s =>
      hbranch b s (.inl hfirst)
    rw [Option.none_or]
    cases hdefault : c.default? with
    | none => trivial
    | some b => exact hbranch b s (.inr ⟨hnone, hdefault⟩)
  case reenter => exact fun _ _ _ _ _ => trivial
  case enter =>
    intro id p w _ hgoal
    cases hs : m.state? id with
    | none => trivial
    | some s =>
      obtain rfl : s.id = id := by simpa using List.find?_some hs
      refine (ends_perform_stays hh depth m s.entry _).mono (fun _ v hv => ?_) fun _ _ _ => trivial
      refine ⟨s, hv.2.current, hs, fun nodes actions final hsettles => ?_⟩
      simpa using hgoal s nodes actions final hs hsettles
  case settle =>
    rintro p w ⟨s, hcurrent, hs, hgoal⟩
    rw [hcurrent]
    refine ends_choose_first depth hguard (fun hnone _ => ?_) fun t hfirst _ => ?_
    · exact ⟨s, hcurrent, by simpa using hgoal [] [] s (.rest hnone)⟩
    · refine ⟨s, hs, fun nodes actions final hcourse => ?_⟩
      obtain ⟨hcross, hrest⟩ := hcourse
      exact hgoal _ _ _ (.follow hfirst hcross hrest)

include hh hguard in
/-- An event for which a transition is enabled sends the machine on a course. -/
theorem ends_dispatch_course {ev : PendingEvent π} (hevent : event = some ev.name)
    (hpayload : payload = ev.payload) {w : World σ π} {s : State}
    (hcurrent : w.engine.current = some s.id) (hs : m.state? s.id = some s)
    (hmet : ∃ t ∈ m.transitionsFrom s.id (some ev.name), Met holds t.guard) :
    Ends (dispatch (h.environment depth) m ev) w
      (fun entry v => ∃ t nodes actions final,
        First holds Transition.guard (m.transitionsFrom s.id (some ev.name)) t ∧
        m.Course holds s t nodes actions final ∧ v.engine.current = some final.id ∧
        entry = ⟨entry.sequence, some s.id, some final.id, ev.name, actions, .transition,
          (s.id :: nodes).map some⟩) fun _ _ => True := by
  subst hevent hpayload
  rw [ends_dispatch_of_current hcurrent]
  refine ends_choose_first depth hguard (fun hnone _ => ?_) fun t hfirst host => ?_
  · obtain ⟨t, ht, hmet⟩ := hmet
    exact absurd hmet (hnone t ht)
  · let goal : Progress → State → Prop := fun p final =>
      p.origin = [s.id] ∧ m.Course holds s t p.visited p.executed final
    have hstart : Outlook m holds goal (.take s.id t) (.start [s.id])
        (⟨{ w.engine with sequence := w.engine.sequence + 1 }, host⟩ : World σ π) :=
      ⟨s, hs, fun nodes actions final hcourse => ⟨rfl, hcourse⟩⟩
    refine ((stages_outlook hh depth hguard goal).ends _ _ hstart).mono (fun p v hv => ?_)
      fun _ _ hb => hb
    obtain ⟨final, hfinal, horigin, hcourse⟩ := hv
    refine ⟨t, p.visited, p.executed, final, hfirst, hcourse, hfinal, ?_⟩
    rw [hfinal, Progress.path, horigin]
    rfl

end Walk

/-- A step for whose event no transition is enabled does not come to any action. -/
theorem step_of_unmet {env : Environment σ π ε} {m : Definition} {w : World σ π}
    (hmachine : w.engine.machine = some m) {id : String} (hcurrent : w.engine.current = some id)
    {ev : PendingEvent π} {rest : List (PendingEvent π)} (hqueue : w.engine.queue = ev :: rest)
    {host : σ} (hnone : firstEnabled env.guard Transition.guard (some ev.name) ev.payload
      (m.transitionsFrom id (some ev.name)) w.host = (none, host)) :
    let entry : TraceEntry :=
      ⟨w.engine.sequence + 1, some id, some id, ev.name, [], .unmatched, [some id]⟩
    step env w = .ok (some entry) ⟨record { w.engine with
      queue := rest, status := .ready, sequence := w.engine.sequence + 1 } entry, host⟩ := by
  intro entry
  suffices hends : Ends (step env) w (fun answer v => answer = some entry ∧
      v = ⟨record { w.engine with
        queue := rest, status := .ready, sequence := w.engine.sequence + 1 } entry, host⟩)
      fun _ _ => False by
    obtain ⟨_, _, hstep, rfl, rfl⟩ := hends.exists_ok
    exact hstep
  refine ends_step_of_queue hmachine hqueue ((ends_dispatch_of_current
    (w := ⟨{ w.engine with queue := rest, status := .running }, w.host⟩) hcurrent).2 ?_)
  rw [ends_choose_iff, hnone]
  exact ⟨rfl, rfl⟩

end Engine

/-! ## Where steps begin -/

/-- A host that posts and ticks, and does not fail on any action while the machine is loaded, keeps
the timers that are armed the machine's own. -/
theorem Host.Only.steady {h : Host σ π ε} (hh : h.Only Call.IsPostOrTick) (depth : Nat)
    {m : Definition} (hreturns : ∀ a w, w.engine.machine = some m →
      ∃ v, (h.environment depth).react a w = .ok () v) : (h.environment depth).Steady m := by
  have hkeeps : (h.environment depth).Keeps fun w v =>
      w.engine.Fits m → v.engine.Fits m ∧ v.engine.current = w.engine.current := by
    refine Host.Only.keeps (fun w _ hw => ⟨hw, rfl⟩) (fun huv hvw hu => ?_)
      (fun env _ c w hc => ?_) hh depth
    · exact ⟨(hvw (huv hu).1).1, (hvw (huv hu).1).2.trans (huv hu).2⟩
    · cases c with
      | post name payload =>
        rw [Call.run, ends_bind, Engine.ends_postEvent]
        split
        · exact fun hw => ⟨hw.of_subset rfl (List.Subset.refl _), rfl⟩
        · exact fun hw => ⟨hw, rfl⟩
      | tick elapsed =>
        rw [Call.run, ends_map, Engine.ends_tick]
        split
        · exact fun hw => ⟨hw, rfl⟩
        · split
          · exact fun hw => ⟨hw, rfl⟩
          · exact fun hw => ⟨⟨hw.machine, (expiry_expire _ hw.timers).2⟩, rfl⟩
      | _ => exact hc.elim
  intro a w hw
  obtain ⟨v, hv⟩ := hreturns a w hw.machine
  have hends := hkeeps a w
  unfold Ends at hends ⊢
  rw [hv] at hends ⊢
  exact hends hw

/-! ## Steps -/

namespace Engine

theorem getLast?_trace_record (e : Engine π) (entry : TraceEntry) :
    (e.record entry).trace.getLast? = some entry := by
  unfold record
  split <;> simp

theorem current_record (e : Engine π) (entry : TraceEntry) :
    (e.record entry).current = e.current := by
  obtain ⟨_, _, he⟩ := exists_record_eq e entry
  rw [he]

/-- A step for whose event a transition is enabled sends the machine on a course, and tells of
it. -/
theorem ends_step_course {h : Host σ π ε} (hh : h.Only Call.IsPostOrTick) (depth : Nat)
    {m : Definition} (hm : m.declaration.WellFormed) (henv : (h.environment depth).Steady m)
    {holds : String → Prop} {ev : PendingEvent π} {rest : List (PendingEvent π)}
    (hguard : ∀ text s,
      ((h.environment depth).guard text (some ev.name) ev.payload s).1 = some true ↔ holds text)
    {w : World σ π} (hw : w.engine.AtRest m) (hqueue : w.engine.queue = ev :: rest) {s : State}
    (hcurrent : w.engine.current = some s.id) (hs : m.state? s.id = some s)
    (hmet : ∃ t ∈ m.transitionsFrom s.id (some ev.name), Met holds t.guard) :
    Ends (step (h.environment depth)) w
      (fun answer v => ∃ t nodes actions final,
        First holds Transition.guard (m.transitionsFrom s.id (some ev.name)) t ∧
        m.Course holds s t nodes actions final ∧ v.engine.current = some final.id ∧
        answer = some ⟨w.engine.sequence + 1, some s.id, some final.id, ev.name, actions,
          .transition, (s.id :: nodes).map some⟩ ∧ v.engine.trace.getLast? = answer)
      fun _ _ => False := by
  have hstart : AtRest m { w.engine with queue := rest, status := .running } :=
    hw.of_subset rfl rfl (List.Subset.refl _)
  have hends := ends_dispatch henv hm ev (w := ⟨_, w.host⟩) hstart
  have hcourse := ends_dispatch_course hh depth hguard rfl rfl
    (w := ⟨{ w.engine with queue := rest, status := .running }, w.host⟩) hcurrent hs hmet
  have hjournal := ends_dispatch_journal (hh.respects_journal depth) m ev
    ⟨{ w.engine with queue := rest, status := .running }, w.host⟩
  refine ends_step_of_queue hw.fits.machine hqueue
    (((hends.and hcourse).and hjournal).mono (fun entry v hv => ?_) fun _ _ hb => hb.1.1)
  obtain ⟨⟨-, t, nodes, actions, final, hfirst, hcourse, hfinal, hentry⟩, -, hsequence⟩ := hv
  refine ⟨t, nodes, actions, final, hfirst, hcourse, ?_, ?_, ?_⟩
  · rw [current_record]
    exact hfinal
  · rw [hentry, hsequence]
  · exact getLast?_trace_record _ entry

end Engine

/-- **A step follows the rules**: after a load of an accepted machine that succeeds, and any
operations but loads of definitions, let an event wait first. The host posts and ticks and does not
fail, and it decides guards by their texts, the event and its payload alone; a guard holds if it is
found to be true. Then the machine is in a state. If no transition for the event is enabled there,
the step says so, and nothing has been shown to the host: whatever it might do on actions, the step
ends in the same way, with the event gone, and the machine, the timers and the clock as they were.
Otherwise the step takes the first transition that is enabled on its course, the only one that the
rules allow, and its entry tells of this course. -/
theorem step_follows_course {m : Definition} (hm : m.Accepted) {h : Host σ π ε}
    (hh : h.Only Call.IsPostOrTick) (depth : Nat)
    (hreturns : ∀ a v, v.engine.machine = some m →
      ∃ u, (h.environment depth).react a v = .ok () u)
    {answers : String → Option String → Option π → Option Bool}
    (hguard : ∀ text event payload s,
      (h.guard text event payload s).1 = answers text event payload)
    {w₀ w₁ : World σ π} {ran : List String}
    (hload : Engine.load (h.environment depth) (.definition m) w₀ = .ok ran w₁)
    (ops : List (Operation π)) (hops : ∀ op ∈ ops, ∀ m', op ≠ .load (.definition m'))
    {w : World σ π} (hw : w = worldAfter (h.environment depth) w₁ ops)
    {ev : PendingEvent π} {rest : List (PendingEvent π)} (hqueue : w.engine.queue = ev :: rest) :
    let holds : String → Prop := fun text => answers text (some ev.name) ev.payload = some true
    ∃ s ∈ m.states, w.engine.current = some s.id ∧
      let arrows := m.transitionsFrom s.id (some ev.name)
      ((∀ t ∈ arrows, ¬ Met holds t.guard) →
        let entry : TraceEntry :=
          ⟨w.engine.sequence + 1, some s.id, some s.id, ev.name, [], .unmatched, [some s.id]⟩
        ∃ host, ∀ env : Environment σ π ε, env.guard = h.guard →
          Engine.step env w = .ok (some entry) ⟨Engine.record { w.engine with
            queue := rest, status := .ready, sequence := w.engine.sequence + 1 } entry, host⟩) ∧
      ((∃ t ∈ arrows, Met holds t.guard) → ∃ t nodes actions final v,
        First holds Transition.guard arrows t ∧ m.Course holds s t nodes actions final ∧
        (∀ t' nodes' actions' final', First holds Transition.guard arrows t' →
          m.Course holds s t' nodes' actions' final' →
          t' = t ∧ nodes' = nodes ∧ actions' = actions ∧ final' = final) ∧
        let entry : TraceEntry := ⟨w.engine.sequence + 1, some s.id, some final.id, ev.name,
          actions, .transition, (s.id :: nodes).map some⟩
        Engine.step (h.environment depth) w = .ok (some entry) v ∧
          v.engine.current = some final.id ∧ v.engine.trace.getLast? = some entry) := by
  intro holds
  have hwf := hm.wellFormed
  have henv := hh.steady depth hreturns
  have hloaded : w₁.engine.AtRest m :=
    ((Engine.ends_enterMachine_of_wellFormed henv hwf w₀).of_ok hload).1
  have hrest : w.engine.AtRest m :=
    hw ▸ (keeps_atRest_of_steady henv hwf).worldAfter hops hloaded
  obtain ⟨id, hid, hcurrent⟩ := hrest.current
  obtain ⟨s, hs, hstate⟩ := m.exists_state?_of_mem hid
  obtain rfl : s.id = id := by simpa using List.find?_some hstate
  have hsame : (h.environment depth).guard = h.guard := by cases depth <;> rfl
  have hholds : ∀ text s, (h.guard text (some ev.name) ev.payload s).1 = some true ↔
      holds text := fun text s => by rw [hguard]
  refine ⟨s, hs, hcurrent, ?_, ?_⟩
  · intro hunmet entry
    have hspec := firstEnabled_spec hholds Transition.guard
      (m.transitionsFrom s.id (some ev.name)) w.host
    generalize hr : firstEnabled h.guard Transition.guard (some ev.name) ev.payload
      (m.transitionsFrom s.id (some ev.name)) w.host = r at hspec
    obtain ⟨chosen, host⟩ := r
    cases chosen with
    | some t => exact absurd (First.met hspec) (hunmet t (First.mem hspec))
    | none =>
      refine ⟨host, fun env hask => Engine.step_of_unmet hrest.fits.machine hcurrent hqueue ?_⟩
      rw [hask, hr]
  · intro hmet
    obtain ⟨_, v, hstep, t, nodes, actions, final, hfirst, hcourse, hfinal, rfl, hlast⟩ :=
      (Engine.ends_step_course hh depth hwf henv (hsame ▸ hholds) hrest hqueue hcurrent hstate
        hmet).exists_ok
    refine ⟨t, nodes, actions, final, v, hfirst, hcourse, ?_, hstep, hfinal, hlast⟩
    intro t' nodes' actions' final' hfirst' hcourse'
    obtain rfl := hfirst.unique hfirst'
    exact ⟨rfl, hcourse.unique hcourse'⟩

/-! ## A ferry -/

namespace Ferry

/-- The ferry at the quay. -/
def moored : State := ⟨"moored", none, ["tie"], ["cast off"], none⟩

/-- The ferry with its ramp down. -/
def boarding : State := ⟨"boarding", none, ["ring"], ["shut"], none⟩

/-- The ferry on its way. -/
def crossing : State := ⟨"crossing", none, ["hum"], [], none⟩

/-- The way out, unless there is a storm. -/
def weather : Choice :=
  ⟨"weather", [⟨some "storm", "moored", ["warn"], none⟩, ⟨none, "boarding", ["wave"], none⟩], none⟩

/-- The way across, which takes longer against the tide. -/
def tide : Choice :=
  ⟨"tide", [⟨some "ebb", "crossing", ["hurry"], none⟩, ⟨none, "crossing", [], none⟩], none⟩

/-- The ferry leaves with its crew. -/
def leaving : Transition := ⟨"moored", "weather", some "depart", some "crew", ["whistle"], none⟩

/-- The ferry crosses as soon as it is full. -/
def filling : Transition := ⟨"boarding", "tide", none, some "full", [], none⟩

/-- A ferry that stays where it is in the fog, and waits for its crew. -/
def machine : Definition where
  name := "ferry"
  initial := "moored"
  states := [moored, boarding, crossing]
  choices := [weather, tide]
  transitions := [⟨"moored", "moored", some "depart", some "fog", [], none⟩, leaving,
    ⟨"moored", "moored", some "depart", none, [], none⟩, filling,
    ⟨"crossing", "moored", some "arrive", none, [], none⟩]
  timers := []
  states_nodup := by decide
  choices_nodup := by decide

/-- Nobody can see the fog, and of all others only the storm is not there. -/
def answers (text : String) (_ : Option String) (_ : Option Unit) : Option Bool :=
  if text = "fog" then none else some (text != "storm")

/-- A host that counts the guards it is asked, and waits when it rings. -/
def host : Host Nat Unit String where
  guard text event payload s := (answers text event payload, s + 1)
  act a s := if a = "ring" then .call s (.tick (some 2)) fun s _ => .done s else .done s

theorem host_only : host.Only Call.IsPostOrTick := by
  intro a s
  simp only [host]
  split
  · exact ⟨trivial, fun _ _ => trivial⟩
  · trivial

theorem host_returns (a : String) (v : World Nat Unit) (_ : v.engine.machine = some machine) :
    ∃ u, (host.environment 0).react a v = .ok () u := by
  suffices hends : Ends ((host.environment 0).react a) v (fun _ _ => True) fun _ _ => False by
    obtain ⟨_, u, hu, -⟩ := hends.exists_ok
    exact ⟨u, hu⟩
  show Ends ((host.act a v.host).run (Call.run none)) v _ _
  simp only [host]
  split
  · rw [ends_script_call]
    exact .of_forall (fun _ _ => trivial) fun _ _ => trivial
  · trivial

theorem accepted : machine.Accepted :=
  .of_wellFormed ((Validation.errors_eq_nil_iff _).1 (by cbv))

/-- The ferry at the quay, with the events that wait, the entries, and the guards asked so far. -/
def atQuay (queue : List (PendingEvent Unit)) (trace : List TraceEntry) (asked : Nat) :
    World Nat Unit :=
  ⟨⟨some machine, .ready, some "moored", queue, [], 0, 0, trace, 1, trace.length, 0, Nat.one_pos⟩,
    asked⟩

/-- What the guards are when the ferry is to depart. -/
def holds (text : String) : Prop := answers text (some "depart") none = some true

/-- The course of the ferry when it departs. -/
theorem course : machine.Course holds moored leaving ["weather", "boarding", "tide", "crossing"]
    ["cast off", "whistle", "wave", "ring", "shut", "hurry", "hum"] crossing := by
  have hcalm : ∀ b ∈ weather.conditioned, ¬ Met holds b.condition := by
    simp [weather, Choice.conditioned, Branch.isDefault, Met, holds, answers]
  have hebb : First holds Branch.condition tide.conditioned
      ⟨some "ebb", "crossing", ["hurry"], none⟩ :=
    ⟨[], [], rfl, by simp [Met, holds, answers], by simp⟩
  have hfull : First holds Transition.guard (machine.completionsFrom "boarding") filling :=
    ⟨[], [], by cbv, by simp [Met, holds, answers, filling], by simp⟩
  have hout := Definition.Crosses.intro (s := moored) (t := leaving)
    (.choose (c := weather) (by cbv) (.inr ⟨hcalm, rfl⟩)
      (.arrive (m := machine) (s := boarding) (by cbv) (by cbv)))
  have hover := Definition.Crosses.intro (s := boarding) (t := filling)
    (.choose (c := tide) (by cbv) (.inl hebb)
      (.arrive (m := machine) (s := crossing) (by cbv) (by cbv)))
  have hnone : machine.completionsFrom crossing.id = [] := by cbv
  exact .intro hout (.follow hfull hover (.rest (by simp [hnone])))

/-- The transition that the ferry departs by. -/
theorem first_leaving :
    First holds Transition.guard (machine.transitionsFrom moored.id (some "depart")) leaving :=
  ⟨[⟨"moored", "moored", some "depart", some "fog", [], none⟩],
    [⟨"moored", "moored", some "depart", none, [], none⟩], by cbv,
    by simp [Met, holds, answers, leaving], by simp [Met, holds, answers]⟩

theorem eq_moored {s : State} (hs : s ∈ machine.states) (hid : s.id = "moored") : s = moored := by
  have hs : s = moored ∨ s = boarding ∨ s = crossing := by simpa [machine] using hs
  rcases hs with rfl | rfl | rfl
  · rfl
  · simp [boarding] at hid
  · simp [crossing] at hid

/-- The entry of what no ferry does. -/
def rowing : TraceEntry :=
  ⟨1, some "moored", some "moored", "row", [], .unmatched, [some "moored"]⟩

/-- The entry of the departure. -/
def departing : TraceEntry :=
  ⟨2, some "moored", some "crossing", "depart",
    ["cast off", "whistle", "wave", "ring", "shut", "hurry", "hum"], .transition,
    [some "moored", some "weather", some "boarding", some "tide", some "crossing"]⟩

/-- The ferry does not row, whoever does what on its actions, and departs when it is told to. -/
theorem ferry_departs :
    (∃ asked, ∀ env : Environment Nat Unit String, env.guard = host.guard →
      Engine.step env (atQuay [⟨"row", none, none⟩, ⟨"depart", none, none⟩] [] 0) =
        .ok (some rowing) (atQuay [⟨"depart", none, none⟩] [rowing] asked)) ∧
      ∃ v, Engine.step (host.environment 0) (atQuay [⟨"depart", none, none⟩] [rowing] 0) =
        .ok (some departing) v := by
  have hload : Engine.load (host.environment 0) (.definition machine) (.blank 0) =
    .ok ["tie"] (atQuay [] [] 0) := by cbv
  have hguard : ∀ text event payload s, (host.guard text event payload s).1 =
    answers text event payload := fun _ _ _ _ => rfl
  have hrow := step_follows_course accepted host_only 0 host_returns hguard hload
    [.post "row" none, .post "depart" none] (by simp)
    (w := atQuay [⟨"row", none, none⟩, ⟨"depart", none, none⟩] [] 0) (by cbv) rfl
  have hdepart := step_follows_course accepted host_only 0 host_returns hguard hload
    [.post "row" none, .step, .post "depart" none] (by simp)
    (w := atQuay [⟨"depart", none, none⟩] [rowing] 0) (by cbv) rfl
  constructor
  · obtain ⟨s, hs, hcurrent, hunmet, -⟩ := hrow
    obtain rfl := eq_moored hs (Option.some_inj.1 hcurrent.symm)
    have hnone : machine.transitionsFrom moored.id (some "row") = [] := by cbv
    exact hunmet (by simp [hnone])
  · obtain ⟨s, hs, hcurrent, -, hmet⟩ := hdepart
    obtain rfl := eq_moored hs (Option.some_inj.1 hcurrent.symm)
    obtain ⟨t, nodes, actions, final, v, -, -, hunique, hstep, -⟩ :=
      hmet ⟨leaving, first_leaving.mem, first_leaving.met⟩
    obtain ⟨rfl, rfl, rfl, rfl⟩ := hunique _ _ _ _ first_leaving course
    exact ⟨v, hstep⟩

end Ferry

end Statechart
