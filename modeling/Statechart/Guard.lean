import Statechart.Model.Definition
import Statechart.Text.Blank
import Statechart.Value

/-!
# Guards

Guard texts are host code: what decides them is given from outside. A `Guard` answers for every
text, event and payload, may keep state of its own, and may fail to answer, which counts as
*false*. `firstEnabled` finds the first of several arrows whose guard holds, which is how both
transitions and branches are chosen.

A `GuardRegistry` is a guard put together from predicates, one for each text, with an optional
answer for all other texts. Texts are compared without the blanks around them.
-/

namespace Statechart

/-- What decides guards, with state `σ` and payloads `π`: the answer to a text, given the event
under way and its payload. No answer counts as *false*. -/
abbrev Guard (σ π : Type) := String → Option String → Option π → σ → Option Bool × σ

/-! ## Choosing an arrow -/

section Choosing

variable {σ π α : Type}

/-- The first arrow that has no guard or whose guard holds. Later guards are not asked. -/
def firstEnabled (guard : Guard σ π) (condition : α → Option String) (event : Option String)
    (payload : Option π) : List α → σ → Option α × σ
  | [], s => (none, s)
  | a :: as, s =>
    match condition a with
    | none => (some a, s)
    | some g =>
      let (holds, s) := guard g event payload s
      if holds.getD false then (some a, s)
      else firstEnabled guard condition event payload as s

theorem mem_of_firstEnabled {guard : Guard σ π} {condition : α → Option String}
    {event : Option String} {payload : Option π} {as : List α} {s s' : σ} {a : α}
    (h : firstEnabled guard condition event payload as s = (some a, s')) : a ∈ as := by
  induction as generalizing s with
  | nil => simp [firstEnabled] at h
  | cons b bs ih =>
    simp only [firstEnabled] at h
    split at h
    · simp only [Prod.mk.injEq, Option.some.injEq] at h
      simp [h.1]
    · split at h
      · simp only [Prod.mk.injEq, Option.some.injEq] at h
        simp [h.1]
      · exact List.mem_cons_of_mem _ (ih h)

end Choosing

/-! ## Registries -/

/-- A predicate of the host: the value it gives for an event and a payload, or its error. -/
abbrev Predicate (σ π ε : Type) := Option String → Option π → σ → Except ε Value × σ

/-- Predicates by guard text, in the order of their first registration, and the answer for
texts without one. -/
structure GuardRegistry (σ π ε : Type) where
  entries : List (String × Predicate σ π ε)
  default : Option Bool

/-- Why a registry gives no answer. -/
inductive GuardError (ε : Type)
  /-- The text has no predicate and there is no default. -/
  | unregistered (guard : String)
  /-- The predicate failed. -/
  | host (error : ε)
  deriving DecidableEq, Repr

namespace GuardRegistry

variable {σ π ε : Type}

/-- A registry without predicates. -/
def empty (default : Option Bool) : GuardRegistry σ π ε := ⟨[], default⟩

/-- Gives a text its predicate, in place of an earlier one. -/
def register (r : GuardRegistry σ π ε) (guard : String) (p : Predicate σ π ε) :
    GuardRegistry σ π ε :=
  { r with entries := putByKey (·.1) (Text.trim guard, p) r.entries }

/-- Gives a text a fixed answer. -/
def set (r : GuardRegistry σ π ε) (guard : String) (value : Value) : GuardRegistry σ π ε :=
  r.register guard fun _ _ s => (.ok value, s)

/-- The predicate of a text. -/
def predicate? (r : GuardRegistry σ π ε) (guard : String) : Option (Predicate σ π ε) :=
  (r.entries.find? fun e => e.1 == Text.trim guard).map (·.2)

/-- Whether a text has a predicate. -/
def has (r : GuardRegistry σ π ε) (guard : String) : Bool := (r.predicate? guard).isSome

/-- The texts that have predicates. -/
def names (r : GuardRegistry σ π ε) : List String := r.entries.map (·.1)

/-- The answer to a text: whether the value that its predicate gives counts as true. -/
def check (r : GuardRegistry σ π ε) (guard : String) (event : Option String)
    (payload : Option π) (s : σ) : Except (GuardError ε) Bool × σ :=
  match r.predicate? guard with
  | some p =>
    match p event payload s with
    | (.ok v, s) => (.ok v.truthy, s)
    | (.error e, s) => (.error (.host e), s)
  | none =>
    match r.default with
    | some b => (.ok b, s)
    | none => (.error (.unregistered guard), s)

/-- The guard that a registry makes. -/
def guard (r : GuardRegistry σ π ε) : Guard σ π := fun text event payload s =>
  match r.check text event payload s with
  | (.ok b, s) => (some b, s)
  | (.error _, s) => (none, s)

end GuardRegistry

end Statechart
