import Statechart.Model.Declaration

/-!
# Definitions

A definition is a machine ready to be run or shown: one initial state, states and choices of
pairwise distinct identifiers, and transitions and timers in the order of their declaration.
It need not be well formed: references may dangle where a definition is put together by hand.

Main statement: `latest_eq_self`, parts with distinct identifiers are kept as they are.
-/

namespace Statechart

/-! ## Parts by identifier -/

section Latest

variable {α : Type} (key : α → String)

/-- Puts a part in the place of the one with the same key, or at the end. -/
def putByKey (x : α) : List α → List α
  | [] => [x]
  | y :: ys => if key y = key x then x :: ys else y :: putByKey x ys

/-- One part for each key, the latest, at the place of the first. -/
def latest (xs : List α) : List α := xs.foldl (fun acc x => putByKey key x acc) []

theorem map_putByKey_of_mem {x : α} {ys : List α} (h : key x ∈ ys.map key) :
    (putByKey key x ys).map key = ys.map key := by
  induction ys with
  | nil => simp at h
  | cons y ys ih =>
    by_cases hy : key y = key x
    · simp [putByKey, hy]
    · have hx : key x ∈ ys.map key := by simpa [Ne.symm hy] using h
      simp only [putByKey, hy, if_false, List.map_cons, ih hx]

theorem putByKey_of_notMem {x : α} {ys : List α} (h : key x ∉ ys.map key) :
    putByKey key x ys = ys ++ [x] := by
  induction ys with
  | nil => rfl
  | cons y ys ih =>
    simp only [List.map_cons, List.mem_cons, not_or] at h
    simp [putByKey, Ne.symm h.1, ih h.2]

theorem nodup_putByKey (x : α) {ys : List α} (h : (ys.map key).Nodup) :
    ((putByKey key x ys).map key).Nodup := by
  by_cases hx : key x ∈ ys.map key
  · rwa [map_putByKey_of_mem key hx]
  · rw [putByKey_of_notMem key hx, List.map_append, List.nodup_append]
    refine ⟨h, by simp, ?_⟩
    intro a ha b hb
    simp only [List.map_cons, List.map_nil, List.mem_singleton] at hb
    rintro rfl
    exact hx (hb ▸ ha)

theorem nodup_foldl_putByKey (xs : List α) {ys : List α} (h : (ys.map key).Nodup) :
    ((xs.foldl (fun acc x => putByKey key x acc) ys).map key).Nodup := by
  induction xs generalizing ys with
  | nil => exact h
  | cons x xs ih => exact ih (nodup_putByKey key x h)

theorem nodup_latest (xs : List α) : ((latest key xs).map key).Nodup :=
  nodup_foldl_putByKey key xs (by simp)

theorem foldl_putByKey_of_nodup {xs ys : List α} (h : ((ys ++ xs).map key).Nodup) :
    xs.foldl (fun acc x => putByKey key x acc) ys = ys ++ xs := by
  induction xs generalizing ys with
  | nil => simp
  | cons x xs ih =>
    have hx : key x ∉ ys.map key := by
      intro hmem
      rw [List.map_append, List.nodup_append] at h
      exact h.2.2 _ hmem (key x) (by simp) rfl
    rw [List.foldl_cons, putByKey_of_notMem key hx, ih (by simpa using h)]
    simp

theorem latest_eq_self {xs : List α} (h : (xs.map key).Nodup) : latest key xs = xs :=
  foldl_putByKey_of_nodup key (show ([] ++ xs |>.map key).Nodup by simpa using h)

end Latest

/-! ## Definitions -/

/-- A machine ready to be run or shown. -/
structure Definition where
  name : String
  initial : String
  states : List State
  choices : List Choice
  transitions : List Transition
  timers : List Timer
  states_nodup : (states.map State.id).Nodup
  choices_nodup : (choices.map Choice.id).Nodup
  deriving DecidableEq, Repr

namespace Definition

/-- The definition made of a declaration's parts, starting in the given state. -/
def ofDeclaration (d : Declaration) (initial : String) : Definition where
  name := d.name
  initial := initial
  states := latest State.id d.states
  choices := latest Choice.id d.choices
  transitions := d.transitions
  timers := d.timers
  states_nodup := nodup_latest State.id d.states
  choices_nodup := nodup_latest Choice.id d.choices

/-- The state of an identifier. -/
def state? (m : Definition) (id : String) : Option State := m.states.find? (·.id == id)

/-- The choice of an identifier. -/
def choice? (m : Definition) (id : String) : Option Choice := m.choices.find? (·.id == id)

/-- The first timer of an identifier. -/
def timer? (m : Definition) (id : String) : Option Timer := m.timers.find? (·.id == id)

/-- Whether the identifier is that of a state. -/
def isState (m : Definition) (id : String) : Bool := (m.state? id).isSome

/-- Whether the identifier is that of a choice. -/
def isChoice (m : Definition) (id : String) : Bool := (m.choice? id).isSome

/-- The transitions that leave a node on a trigger, in the order in which they are tried. The
trigger is an event, or none for completion transitions. -/
def transitionsFrom (m : Definition) (source : String) (trigger : Option String) :
    List Transition :=
  m.transitions.filter fun t => t.source == source && t.event == trigger

/-- The completion transitions that leave a node. -/
def completionsFrom (m : Definition) (source : String) : List Transition :=
  m.transitionsFrom source none

/-- The events that transitions wait for, each once, in the order of appearance. -/
def events (m : Definition) : List String := (m.transitions.filterMap (·.event)).eraseDups

/-- The events that timers post, each once, in the order of appearance. -/
def timerEvents (m : Definition) : List String := (m.timers.map (·.event)).eraseDups

/-- Whether two definitions agree, spans and the order of states and choices aside. -/
def sameParts (m m' : Definition) : Bool :=
  m.name == m'.name && m.initial == m'.initial &&
    (m.states.map State.bare).isPerm (m'.states.map State.bare) &&
    (m.choices.map Choice.bare).isPerm (m'.choices.map Choice.bare) &&
    m.transitions.map Transition.bare == m'.transitions.map Transition.bare &&
    m.timers.map Timer.bare == m'.timers.map Timer.bare

end Definition

end Statechart
