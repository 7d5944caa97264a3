import Mathlib
import Statechart.Codegen.Module
import Statechart.Proofs.Results
import Statechart.Proofs.Text.Lines

/-!
# What a generation comes to

A definition is refused for its names before anything of its module is written. After that only a
duration can keep the module from being written (`exists_yields_generate`), and the text of a
module that has been written is made of its parts, line by line (`exists_of_generate_eq_ok`).
-/

namespace Statechart.Codegen

open Text (HasNumeral Unbroken lines quote)

/-! ## Lines put together -/

theorem joinLines_cons (l : String) (ls : List String) :
    joinLines (l :: ls) = l ++ "\n" ++ joinLines ls := by
  simp only [joinLines, List.map_cons, String.join_cons]

theorem joinLines_append (ls ls' : List String) :
    joinLines (ls ++ ls') = joinLines ls ++ joinLines ls' := by
  rw [joinLines, List.map_append, String.join_append]
  rfl

theorem exists_joinLines_eq {ls : List String} (h : ls ≠ []) : ∃ s, joinLines ls = s ++ "\n" := by
  obtain ⟨init, l, rfl⟩ := (List.eq_nil_or_concat ls).resolve_left h
  refine ⟨joinLines init ++ l, ?_⟩
  rw [List.concat_eq_append, joinLines_append, joinLines_cons, String.append_assoc]
  simp [joinLines, String.append_assoc]

/-- Lines that are put together before a text are its first lines. -/
theorem lines_joinLines_append {ls : List String} (hls : ∀ l ∈ ls, Unbroken l) (s : String) :
    lines (joinLines ls ++ s) = ls ++ lines s := by
  induction ls with
  | nil => simp [joinLines]
  | cons l ls ih =>
    obtain ⟨hl, hls⟩ := List.forall_mem_cons.1 hls
    rw [joinLines_cons, String.append_assoc, Text.lines_append hl, ih hls, List.cons_append]

theorem lines_joinLines {ls : List String} (hls : ∀ l ∈ ls, Unbroken l) :
    lines (joinLines ls) = ls := by
  have h := lines_joinLines_append hls ""
  rw [String.append_empty] at h
  exact h.trans (List.append_nil ls)

/-! ## Outcomes -/

/-- The cells of a timer whose duration can be written. -/
def timerText (t : Timer) : String :=
  "(" ++ toString t.duration ++ ", " ++ quote t.event ++ ", " ++
    (if t.periodic then "True" else "False") ++ ")"

theorem yields_timerLine (t : Timer) :
    Yields (timerLine t) (HasNumeral t.duration) (entryLine t.id (timerText t)) .tooLarge :=
  have hcells : Yields (timerCells t) (HasNumeral t.duration) (timerText t) .tooLarge :=
    (Text.yields_showInt t.duration).map _
  hcells.map _

variable {m : Definition} {source : Option String}

/-- A module whose names are in order is written if all durations can be. -/
theorem exists_yields_generate (hnames : checkNames m = .ok ()) (source : Option String) :
    ∃ text, Yields (generate m source) (∀ t ∈ m.timers, HasNumeral t.duration) text
      (.numeral .tooLarge) := by
  have htimers := Yields.mapM fun t (_ : t ∈ m.timers) => yields_timerLine t
  obtain ⟨dispatch, hdispatch⟩ : ∃ ls, Yields (tableLines (tables m)) _ ls _ :=
    ⟨_, htimers.map _⟩
  obtain ⟨ls, hlines⟩ : ∃ ls, Yields (moduleLines m) _ ls _ := ⟨_, hdispatch.map _⟩
  have hrender : Yields (render m source) _ (joinLines (headerLines m.name source ++ ls)) _ :=
    hlines.map _
  exact ⟨_, .bind_ok (congrArg (Except.mapError _) hnames) (hrender.mapError _)⟩

/-- The lines of a module that has been written. -/
theorem exists_moduleLines_of_generate {text : String} (h : generate m source = .ok text) :
    checkNames m = .ok () ∧ ∃ ls, moduleLines m = .ok ls ∧
      text = joinLines (headerLines m.name source ++ ls) := by
  obtain ⟨_, hnames, h⟩ := exists_of_bind_eq_ok h
  obtain ⟨ls, hlines, h⟩ := exists_of_bind_eq_ok (mapError_eq_ok_iff.1 h)
  exact ⟨mapError_eq_ok_iff.1 hnames, ls, hlines, (Except.ok.inj h).symm⟩

/-- The lines of a module after its initial state, with those of the dispatch tables among them. -/
def laterLines (m : Definition) (dispatch : List String) : List String :=
  actionTable "ENTRY_ACTIONS" State.entry m ++ actionTable "EXIT_ACTIONS" State.exit m ++
    dispatch ++ [""] ++ dispatcher (m.name ++ "Machine") m.name

/-- The parts of a module that has been written. -/
theorem exists_of_generate_eq_ok {text : String} (h : generate m source = .ok text) :
    checkNames m = .ok () ∧ ∃ dispatch, tableLines (tables m) = .ok dispatch ∧
      text = joinLines (headerLines m.name source ++ ([""] ++ documentation m.name) ++
        enumerations m ++ ["INITIAL = " ++ quote m.initial, ""] ++ laterLines m dispatch) := by
  obtain ⟨hnames, ls, hlines, rfl⟩ := exists_moduleLines_of_generate h
  obtain ⟨dispatch, hdispatch, hlines⟩ := exists_of_bind_eq_ok hlines
  cases hlines
  refine ⟨hnames, dispatch, hdispatch, ?_⟩
  simp only [laterLines, List.append_assoc]

end Statechart.Codegen
