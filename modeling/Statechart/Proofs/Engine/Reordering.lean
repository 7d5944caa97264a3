import Mathlib
import Statechart.Proofs.Engine.Loading
import Statechart.Proofs.Engine.View
import Statechart.Proofs.Model.Lookup

/-!
# Only the order within a group matters

The transitions that leave a node on a trigger are a group, and are tried in the order of their
declaration. No other order in a definition matters: with the states, choices and timers in another
order, and the transitions of different groups interleaved in another way, an engine cannot be told
from one that runs the first definition. Both are compared as in `load_forgets_history`, by all
outcomes and by the log of what the host was asked, but for the machine that is loaded and for where
timers were written.

A host that looks at the machine itself could tell the order of its parts. So the host has to be
`Host.Discreet`: what it does may depend on all it sees of the engine but that.

Main statement: `order_matters_only_within_groups`.
-/

namespace Statechart

variable {σ π ε α β : Type}

theorem rel_of_map_eq {f : α → β} {R : α → α → Prop} (hR : ∀ a' a, f a' = f a → R a' a)
    {x' x : Option α} (h : x'.map f = x.map f) : Option.Rel R x' x := by
  cases x' <;> cases x <;> simp only [Option.map_none, Option.map_some] at h
  · exact .none
  · cases h
  · cases h
  · exact .some (hR _ _ (Option.some_inj.1 h))

theorem forall₂_of_map_eq {f : α → β} {R : α → α → Prop} (hR : ∀ a' a, f a' = f a → R a' a)
    {xs' xs : List α} (h : xs'.map f = xs.map f) : List.Forall₂ R xs' xs := by
  have hequal : List.Forall₂ Eq (xs'.map f) (xs.map f) := by rw [List.forall₂_eq_eq_eq, h]
  rw [List.forall₂_map_left_iff, List.forall₂_map_right_iff] at hequal
  exact hequal.imp hR

/-! ## Definitions in another order -/

namespace Definition

/-- The first machine has the parts of the second in another order, in which transitions with the
same source and trigger follow each other as before. Where parts were written does not count. -/
structure Reordered (m' m : Definition) : Prop where
  name : m'.name = m.name
  initial : m'.initial = m.initial
  states : (m'.states.map State.bare).Perm (m.states.map State.bare)
  choices : (m'.choices.map Choice.bare).Perm (m.choices.map Choice.bare)
  timers : (m'.timers.map Timer.bare).Perm (m.timers.map Timer.bare)
  transitions : (m'.transitions.map Transition.bare).Perm (m.transitions.map Transition.bare)
  order : ∀ t ∈ m.transitions, (m'.transitionsFrom t.source t.event).map Transition.bare =
    (m.transitionsFrom t.source t.event).map Transition.bare

namespace Reordered

variable {m' m : Definition} (h : m'.Reordered m)
include h

/-- Every group is the same, also one that no transition is in. -/
theorem map_bare_transitionsFrom (source : String) (trigger : Option String) :
    (m'.transitionsFrom source trigger).map Transition.bare =
      (m.transitionsFrom source trigger).map Transition.bare := by
  by_cases hgroup : ∃ t ∈ m.transitions, t.source = source ∧ t.event = trigger
  · obtain ⟨t, ht, rfl, rfl⟩ := hgroup
    exact h.order t ht
  · have hnone : m.transitionsFrom source trigger = [] := by
      simp only [transitionsFrom, List.filter_eq_nil_iff, Bool.and_eq_true, beq_iff_eq]
      exact fun t ht hsame => hgroup ⟨t, ht, hsame⟩
    have hnone' : m'.transitionsFrom source trigger = [] := by
      simp only [transitionsFrom, List.filter_eq_nil_iff, Bool.and_eq_true, beq_iff_eq]
      intro t' ht' hsame
      obtain ⟨t, ht, hbare⟩ :=
        List.mem_map.1 (h.transitions.subset (List.mem_map_of_mem ht'))
      simp only [Transition.bare, Transition.mk.injEq] at hbare
      exact hgroup ⟨t, ht, hbare.1.trans hsame.1, hbare.2.2.1.trans hsame.2⟩
    rw [hnone, hnone']

theorem alike : m'.Alike (fun _ => True) m where
  initial := h.initial
  node_initial := trivial
  state id _ := by
    have hfound := map_find?_eq_of_perm State.bare (fun _ => rfl) h.states m.states_nodup id
    refine rel_of_map_eq (fun s' s hbare => ?_) hfound
    simp only [State.bare, State.mk.injEq] at hbare
    exact ⟨hbare.2.2.1, hbare.2.2.2.1⟩
  choice id _ := by
    have hfound := map_find?_eq_of_perm Choice.bare (fun _ => rfl) h.choices m.choices_nodup id
    refine rel_of_map_eq (fun c' c hbare => ?_) hfound
    simp only [Choice.bare, Choice.mk.injEq] at hbare
    exact forall₂_of_map_eq (fun _ _ hb => ⟨hb, trivial⟩) hbare.2.1
  transitions id trigger _ :=
    forall₂_of_map_eq (fun _ _ ht => ⟨ht, trivial⟩) (h.map_bare_transitionsFrom id trigger)

theorem map_bare_timer? (hm : m.Accepted) (id : String) :
    (m'.timer? id).map Timer.bare = (m.timer? id).map Timer.bare :=
  map_find?_eq_of_perm Timer.bare (fun _ => rfl) h.timers hm.wellFormed.timers_nodup id

end Reordered

end Definition

/-! ## Hosts that do not look at the machine -/

/-- What the script does depends only on what the view shows of the engine. -/
def Script.Discreet (v : TimerView) : Script σ π ε → Prop
  | .done _ => True
  | .fail _ _ => True
  | .look next => (∀ e' e, e'.seen v = e.seen v → next e' = next e) ∧ ∀ e, (next e).Discreet v
  | .call _ _ next => ∀ s r, (next s r).Discreet v

/-- What the host does on an action depends only on what the view shows of the engine. -/
def Host.Discreet (v : TimerView) (h : Host σ π ε) : Prop := ∀ a s, (h.act a s).Discreet v

theorem Script.Discreet.beside {v : TimerView} {s : Script σ π ε} (hs : s.Discreet v)
    (note : Call π → Except (Fault ε) (Reply π) → β → β) (b : β) :
    (s.beside note b).Discreet v := by
  induction s generalizing b with
  | done s => trivial
  | fail f s => trivial
  | look next ih => exact ⟨fun e' e he => by simp only [hs.1 e' e he], fun e => ih e (hs.2 e) b⟩
  | call s c next ih => exact fun s r => ih s.1 r (hs s.1 r) _

theorem Host.Discreet.logged {v : TimerView} {h : Host σ π ε} (hh : h.Discreet v) :
    h.logged.Discreet v := fun a s => (hh a s.1).beside _ _

section Discreet

variable {v : TimerView} {C : Correspondence π}
  (hC : ∀ {e' e}, C.engines e' e → e'.seen v = e.seen v)
include hC

theorem Script.Discreet.alike {s : Script σ π ε} (hs : s.Discreet v) :
    Script.Alike C Eq s s := by
  induction s with
  | done s => exact .done rfl
  | fail f s => exact .fail f rfl
  | look next ih => exact .look fun e' e he => hs.1 e' e (hC he) ▸ ih e' (hs.2 e')
  | call s c next ih => exact .call c rfl fun s' s r hstates => hstates ▸ ih s' r (hs s' r)

/-- A discreet host does the same with engines that look alike. -/
theorem Host.Discreet.alike {h : Host σ π ε} (hh : h.Discreet v) :
    Host.Alike C Eq h h where
  guard _ _ _ _ _ hs := hs ▸ ⟨rfl, rfl⟩
  act a s' _ hs := hs ▸ (hh a s').alike hC

end Discreet

/-! ## Engines that run either -/

/-- Walks through the machines go the same way, and their timers are the same but for where they
were written. -/
def Definition.Interchangeable (m' m : Definition) : Prop :=
  m'.Alike (fun _ => True) m ∧ ∀ id, (m'.timer? id).map Timer.bare = (m.timer? id).map Timer.bare

/-- Engines correspond if they look alike, but for where timers were written, and run machines that
are interchangeable. -/
def Correspondence.interchange : Correspondence π :=
  .ofView .bare (fun h : Definition.Interchangeable _ _ => h.1) fun h => h.2

/-- **Only the order within a group matters**: where a definition has the parts of an accepted one
in another order, in which transitions with the same source and trigger follow each other as before,
all operations on a new engine end in the same way with either of them, with equal answers or
faults, equal states of the engine and of the host, and equal logs of the guards and actions that
the host was asked. The host may make any calls, but is not to look at the machine itself. -/
theorem order_matters_only_within_groups {m m' : Definition} (hm : m.Accepted)
    (hreordered : m'.Reordered m) {h : Host σ π ε} (hh : h.Discreet .bare) (depth limit : Nat)
    (hlimit : 0 < limit) (s : σ) (ops : List (Operation π)) :
    (outcomes (h.logged.environment depth) ⟨.fresh limit hlimit, (s, [])⟩
        (ops.map (.exchange m m'))).map (seenOutcome .bare) =
      (outcomes (h.logged.environment depth) ⟨.fresh limit hlimit, (s, [])⟩ ops).map
        (seenOutcome .bare) := by
  have hsame : m'.Interchangeable m := ⟨hreordered.alike, hreordered.map_bare_timer? hm⟩
  have hloads : ∀ x, (if x = m then m' else x).Interchangeable x := by
    intro x
    split
    · rename_i hx
      exact hx ▸ hsame
    · exact ⟨.refl x, fun _ => rfl⟩
  have hseen : ∀ {e' e : Engine π}, Correspondence.interchange.engines e' e →
      e'.seen .bare = e.seen .bare := fun he => he.seen
  have henv := (hh.logged.alike hseen).environment depth
  have hops : List.Forall₂ Correspondence.interchange.operations (ops.map (.exchange m m')) ops :=
    List.forall₂_map_left_iff.2
      (List.forall₂_same.2 fun op _ => Correspondence.operations_exchange fun x _ => hloads x)
  have hstart : Correspondence.interchange.worlds Eq
      (⟨.fresh limit hlimit, (s, [])⟩ : World (σ × List (Asked π)) π)
      ⟨.fresh limit hlimit, (s, [])⟩ := ⟨.fresh limit hlimit, rfl⟩
  exact map_seenOutcome_eq hseen (fun _ _ hanswers => hanswers.1)
    (Simulates.outcomes henv hops hstart)

/-! ## A crossing -/

namespace Crossing

/-- A crossing that is green for a while after its button has been pressed, unless it is broken. -/
def machine : Definition where
  name := "crossing"
  initial := "red"
  states := [⟨"red", none, [], [], none⟩, ⟨"green", none, ["start_timer(walk)"], ["click"], none⟩,
    ⟨"dark", none, ["start_timer(repair)"], [], none⟩]
  choices := []
  transitions := [⟨"red", "green", some "press", some "clear", [], none⟩,
    ⟨"red", "dark", some "press", some "broken", ["report"], none⟩,
    ⟨"green", "red", some "over", none, [], none⟩, ⟨"dark", "red", some "mended", none, [], none⟩]
  timers := [⟨"walk", 5, "over", false, none⟩, ⟨"repair", 90, "mended", false, none⟩]
  states_nodup := by decide
  choices_nodup := List.nodup_nil

/-- The same crossing, written down in another order. -/
def rearranged : Definition where
  name := "crossing"
  initial := "red"
  states := [⟨"dark", none, ["start_timer(repair)"], [], some ⟨2, 3⟩⟩,
    ⟨"green", none, ["start_timer(walk)"], ["click"], some ⟨3, 3⟩⟩,
    ⟨"red", none, [], [], some ⟨4, 3⟩⟩]
  choices := []
  transitions := [⟨"dark", "red", some "mended", none, [], some ⟨5, 3⟩⟩,
    ⟨"red", "green", some "press", some "clear", [], some ⟨6, 3⟩⟩,
    ⟨"green", "red", some "over", none, [], some ⟨7, 3⟩⟩,
    ⟨"red", "dark", some "press", some "broken", ["report"], some ⟨8, 3⟩⟩]
  timers := [⟨"repair", 90, "mended", false, some ⟨9, 3⟩⟩, ⟨"walk", 5, "over", false, some ⟨10, 3⟩⟩]
  states_nodup := by decide
  choices_nodup := List.nodup_nil

/-- A host that says of every second guard that it holds, and on each action counts the events that
wait. -/
def host : Host Nat Unit String where
  guard _ _ _ count := (some (count % 2 == 0), count + 1)
  act _ count := .look fun e => .done (count + e.queue.length)

theorem host_discreet : host.Discreet .bare := by
  intro a count
  refine ⟨fun e' e he => ?_, fun _ => trivial⟩
  have hqueue : (e'.seen .bare).queue = (e.seen .bare).queue := congrArg Engine.queue he
  exact congrArg (fun queue : List (PendingEvent Unit) => Script.done (count + queue.length)) hqueue

theorem accepted : machine.Accepted :=
  .of_wellFormed ((Validation.errors_eq_nil_iff _).1 (by cbv))

theorem rearranged_reordered : rearranged.Reordered machine where
  name := rfl
  initial := rfl
  states := by decide
  choices := .nil
  timers := by decide
  transitions := by decide
  order := by decide

/-- The crossing is pressed, left alone and pressed again. -/
theorem rearranged_runs_alike :
    (outcomes (host.logged.environment 1) ⟨.fresh 2 Nat.two_pos, (0, [])⟩
        [.load (.definition rearranged), .post "press" none, .step, .tick (some 7), .run 2]).map
        (seenOutcome .bare) =
      (outcomes (host.logged.environment 1) ⟨.fresh 2 Nat.two_pos, (0, [])⟩
        [.load (.definition machine), .post "press" none, .step, .tick (some 7), .run 2]).map
        (seenOutcome .bare) :=
  order_matters_only_within_groups accepted rearranged_reordered host_discreet 1 2 Nat.two_pos 0
    [.load (.definition machine), .post "press" none, .step, .tick (some 7), .run 2]

end Crossing

end Statechart
