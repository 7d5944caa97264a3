import Mathlib
import Statechart.Proofs.Engine.Loading
import Statechart.Proofs.Engine.Posting
import Statechart.Proofs.Engine.Walk

/-!
# What a host is shown

A walk keeps the actions that it has run in its `Progress`, and the entry of a step takes them from
there. That they have been shown to the host is another matter. It is seen from the log of a host
that keeps one (`Host.logged`): as long as the host asks for no step and no load itself, what has
been added to the log since the walk began is what its progress says (`stages_shown`).

Main statement: `step_tells_what_was_shown`.
-/

namespace Statechart

variable {σ π ε : Type}

/-- The actions that a host with a log has been shown. -/
def World.shown (w : World (σ × List (Asked π)) π) : List String :=
  w.host.2.filterMap fun
    | .action a => some a
    | .guard .. => none

namespace Engine

section Logged

variable {h : Host σ π ε} (hh : h.Only Call.IsPostOrTick) (depth : Nat)
include hh

/-- On an action, the host is shown this action, and no other one. -/
theorem ends_react_shown (a : String) (w : World (σ × List (Asked π)) π) :
    Ends ((h.logged.environment depth).react a) w (fun _ v => v.shown = w.shown ++ [a])
      fun _ v => v.shown = w.shown ++ [a] := by
  have hlog (env : Option (Environment (σ × List (Asked π)) π ε)) (c : Call π)
      (w : World (σ × List (Asked π)) π) (hc : c.IsPostOrTick) :
      Ends (c.run env) w (fun _ v => v.host.2 = w.host.2) fun _ v => v.host.2 = w.host.2 := by
    cases c with
    | post name payload =>
      rw [Call.run, ends_bind, ends_postEvent]
      split <;> rfl
    | tick elapsed =>
      rw [Call.run, ends_map, ends_tick]
      split
      · rfl
      · split <;> rfl
    | _ => exact hc.elim
  have hscript (env : Option (Environment (σ × List (Asked π)) π ε)) :
      Ends (h.logged.react (Call.run env) a) w
        (fun _ v => v.host.2 = w.host.2 ++ [.action a])
        fun _ v => v.host.2 = w.host.2 ++ [.action a] := by
    show Ends (((h.act a w.host.1).beside (fun _ _ log => log)
      (w.host.2 ++ [.action a])).run (Call.run env)) w _ _
    refine Script.Only.ends_beside (R := fun u v => v.host.2 = u.host.2) (fun _ _ => rfl)
      (fun huv hvw => hvw.trans huv) ?_ (hh a w.host.1) (w.host.2 ++ [.action a]) w
    exact hlog env
  have hshown {v : World (σ × List (Asked π)) π} (hv : v.host.2 = w.host.2 ++ [.action a]) :
      v.shown = w.shown ++ [a] := by
    rw [World.shown, hv, List.filterMap_append]
    rfl
  have hends : Ends ((h.logged.environment depth).react a) w
      (fun _ v => v.host.2 = w.host.2 ++ [.action a])
      fun _ v => v.host.2 = w.host.2 ++ [.action a] := by
    cases depth with
    | zero => exact hscript none
    | succ depth => exact hscript (some _)
  exact hends.mono (fun _ _ hv => hshown hv) fun _ _ hv => hshown hv

theorem ends_perform_shown (m : Definition) (actions : List String)
    (w : World (σ × List (Asked π)) π) :
    Ends (perform (h.logged.environment depth) m actions) w
      (fun _ v => v.shown = w.shown ++ actions) fun _ v => w.shown <+: v.shown := by
  induction actions generalizing w with
  | nil => exact (List.append_nil w.shown).symm
  | cons a as ih =>
    simp only [perform, ends_bind, ends_update]
    refine (ends_react_shown hh depth a w).mono (fun _ v hv => ?_) fun _ v hv => ?_
    · refine (ih ⟨command m a v.engine, v.host⟩).mono (fun _ u hu => ?_) fun _ u hu => ?_
      · rw [hu, show World.shown ⟨command m a v.engine, v.host⟩ = v.shown from rfl, hv,
          List.append_assoc, List.singleton_append]
      · exact (List.prefix_append w.shown [a]).trans (hv ▸ hu)
    · exact hv ▸ List.prefix_append w.shown [a]

omit hh in
/-- Guards that are asked are no actions. -/
theorem ends_choose_shown {α : Type} (condition : α → Option String) (event : Option String)
    (payload : Option π) (arrows : List α) (w : World (σ × List (Asked π)) π) :
    Ends (choose (h.logged.environment depth) condition event payload arrows) w
      (fun _ v => v.shown = w.shown) fun _ v => v.shown = w.shown := by
  have hsame : (h.logged.environment depth).guard = h.logged.guard := by cases depth <;> rfl
  refine ends_choose_of_guard (fun text event payload v hv => ?_) condition event payload arrows rfl
  rw [← hv, hsame, World.shown, World.shown]
  simp [Host.logged]

/-- **Through a walk**, the progress holds what the host has been shown since it began. -/
theorem stages_shown (m : Definition) (event : Option String) (payload : Option π)
    (before : List String) :
    Stages (h.logged.environment depth) m event payload
      (fun _ p w => w.shown = before ++ p.executed) (fun p w => w.shown = before ++ p.executed)
      fun _ w => before <+: w.shown := by
  have hstart {w : World (σ × List (Asked π)) π} {done : List String}
      (hw : w.shown = before ++ done) : before <+: w.shown :=
    hw ▸ List.prefix_append before done
  have hperform {actions done : List String} {w : World (σ × List (Asked π)) π}
      (hw : w.shown = before ++ done) :
      Ends (perform (h.logged.environment depth) m actions) w
        (fun _ v => v.shown = before ++ (done ++ actions)) fun _ v => before <+: v.shown :=
    (ends_perform_shown hh depth m actions w).mono
      (fun _ v hv => by rw [hv, hw, List.append_assoc]) fun _ _ hv => (hstart hw).trans hv
  constructor
  case take =>
    intro id t p w hw
    simp only [leave, ends_bind, ends_update]
    cases m.state? id with
    | none => exact hstart hw
    | some s =>
      simp only [ends_bind, ends_update, ends_pure]
      refine (hperform (w := ⟨{ w.engine with current := none }, w.host⟩) hw).mono
        (fun _ v hv => ?_) fun _ _ hv => hv
      refine (hperform (w := ⟨v.engine.disarmOwned id, v.host⟩) hv).mono (fun _ u hu => ?_)
        fun _ _ hu => hu
      rw [hu, Progress.run, List.append_assoc]
  case arrive => exact fun _ _ _ _ hw => hw
  case rechoose => exact fun _ _ _ _ _ hw => hstart hw
  case choose =>
    intro target p w c _ _ hw
    refine (ends_choose_shown depth _ event payload _ w).mono (fun chosen v hv => ?_)
      fun _ _ hv => hstart (hv.trans hw)
    cases chosen.or c.default? with
    | none => exact hstart (hv.trans hw)
    | some b => exact hperform (hv.trans hw)
  case reenter => exact fun _ _ _ _ hw => hstart hw
  case enter =>
    intro id p w _ hw
    cases m.state? id with
    | none => exact hstart hw
    | some s => exact hperform (w := ⟨{ w.engine with current := some id }, w.host⟩) hw
  case settle =>
    intro p w hw
    cases w.engine.current with
    | none => exact hw
    | some id =>
      refine (ends_choose_shown depth _ event payload _ w).mono (fun chosen v hv => ?_)
        fun _ _ hv => hstart (hv.trans hw)
      cases chosen with
      | none => exact hv.trans hw
      | some t => exact hv.trans hw

theorem ends_walk_shown (m : Definition) (event : Option String) (payload : Option π)
    (phase : Phase) (origin : List String) (w : World (σ × List (Asked π)) π) :
    Ends (walk (h.logged.environment depth) m event payload phase (.start origin)) w
      (fun p v => v.shown = w.shown ++ p.executed) fun _ v => w.shown <+: v.shown :=
  (stages_shown hh depth m event payload w.shown).ends phase (.start origin)
    (List.append_nil w.shown).symm

theorem ends_dispatch_shown (m : Definition) (ev : PendingEvent π)
    (w : World (σ × List (Asked π)) π) :
    Ends (dispatch (h.logged.environment depth) m ev) w
      (fun entry v => v.shown = w.shown ++ entry.actions) fun _ v => w.shown <+: v.shown := by
  cases hcurrent : w.engine.current with
  | none =>
    simp only [dispatch, ends_bind, ends_update, ends_get, hcurrent, ends_pure]
    exact (List.append_nil w.shown).symm
  | some id =>
    rw [ends_dispatch_of_current hcurrent]
    have hsame {v : World (σ × List (Asked π)) π} (hv : v.shown = w.shown) :
        w.shown <+: v.shown := hv ▸ List.prefix_rfl
    refine (ends_choose_shown depth _ _ _ _ _).mono (fun chosen v hv => ?_) fun _ _ hv => hsame hv
    have hv : v.shown = w.shown := hv
    cases chosen with
    | none => exact hv.trans (List.append_nil w.shown).symm
    | some t =>
      rw [← hv]
      exact ends_walk_shown hh depth m _ _ _ _ v

end Logged

end Engine

/-- **Entries tell what the host was shown**: a host that at most posts and ticks, and keeps a log,
has been shown in a step the actions of the step's entry, in their order, and no others. In a load
these are the actions that the load answers with. What has been shown in a step or a load that
fails stays in the log. -/
theorem step_tells_what_was_shown {h : Host σ π ε} (hh : h.Only Call.IsPostOrTick) (depth : Nat)
    (w : World (σ × List (Asked π)) π) :
    Ends (Engine.step (h.logged.environment depth)) w
        (fun entry v => v.shown = w.shown ++ entry.elim [] TraceEntry.actions)
        (fun _ v => w.shown <+: v.shown) ∧
      ∀ m, Ends (Engine.enterMachine (h.logged.environment depth) m) w
        (fun actions v => v.shown = w.shown ++ actions) fun _ v => w.shown <+: v.shown := by
  refine ⟨?_, fun m => ?_⟩
  · rw [Engine.ends_step]
    cases w.engine.machine with
    | none => exact List.prefix_rfl
    | some m =>
      cases w.engine.queue with
      | nil => exact (List.append_nil w.shown).symm
      | cons ev rest => exact Engine.ends_dispatch_shown hh depth m ev _
  · rw [Engine.ends_enterMachine]
    exact Engine.ends_walk_shown hh depth m none none _ _ _

end Statechart
