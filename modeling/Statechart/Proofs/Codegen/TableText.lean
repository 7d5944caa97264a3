import Mathlib
import Statechart.Proofs.Codegen.Outline

/-!
# The tables in the text of a module

A module gives each of its dispatch tables its rows, in a dictionary that is read from the text
(`ShowsTables`). What is assigned to the name of a table lasts: no later line begins with the name.

Main statement: `showsTables_of_generate`.
-/

namespace Statechart.Codegen

variable {α : Type}

/-! ## Displays of rows -/

/-- A row as it is displayed. -/
def Row.display (r : Row) : List Display :=
  [r.condition.elim (.word "None") .text, .tuple (r.actions.map .text), .text r.target]

/-- A row for an event as it is displayed. -/
def EventRow.display (r : EventRow) : Display := .tuple (.text r.event :: r.row.display)

/-- A row of a choice as it is displayed, or the gap in place of one. -/
def gapDisplay : Option Row → Display
  | some r => .tuple r.display
  | none => .tuple (List.replicate 3 (.word "Undefined"))

/-- A timer as it is displayed. -/
def timerDisplay (t : Timer) : Display :=
  .tuple [.word (toString t.duration), .text t.event,
    .word (if t.periodic then "True" else "False")]

/-- A timer command as it is displayed. -/
def commandDisplay (c : TimerCommand) : Display := .tuple [.text c.verb, .text c.timer]

/-- On a line of the text the name is given the value, and on no line after this value another one.
A machine whose name is not on one line may bring in such a line. -/
def Assigns (machine text name : String) (v : Display) : Prop :=
  ∃ before shown after, text = before ++ "\n" ++ name ++ " = " ++ shown ++ "\n" ++ after ∧
    Display.read shown = some v ∧
    (Text.Unbroken machine → ∀ l ∈ Text.lines after, begins name l = false)

/-- A dictionary with several rows for a key. -/
def groupsDisplay (display : α → Display) (groups : List (String × List α)) : Display :=
  .dict (groups.map fun g => (.text g.1, .tuple (g.2.map display)))

/-- The text of the machine's module gives each table its rows. -/
structure ShowsTables (machine text : String) (t : Tables) : Prop where
  transitions : Assigns machine text "TRANSITIONS" (groupsDisplay EventRow.display t.transitions)
  completions : Assigns machine text "COMPLETIONS" (groupsDisplay (.tuple ·.display) t.completions)
  choices : Assigns machine text "CHOICES" (groupsDisplay gapDisplay t.choices)
  timers : Assigns machine text "TIMERS"
    (.dict (t.timers.map fun x => (.text x.id, timerDisplay x)))
  commands : Assigns machine text "TIMER_COMMANDS"
    (.dict (t.commands.map fun c => (.text c.1, commandDisplay c.2)))

section

open Display

theorem shown_cells_row (r : Row) :
    List.Forall₂ (fun cell v => Shown cell.toList v) r.cells r.display :=
  .cons (shown_quote? r.condition)
    (.cons (shown_quoteTuple r.actions) (.cons (shown_quote r.target) .nil))

theorem shown_row (r : Row) :
    Shown ("(" ++ ", ".intercalate r.cells ++ ")").toList (.tuple r.display) :=
  shown_tuple (shown_cells_row r) (by simp [Row.cells])

theorem shown_eventRow (r : EventRow) :
    Shown ("(" ++ ", ".intercalate r.cells ++ ")").toList r.display :=
  shown_tuple (.cons (shown_quote r.event) (shown_cells_row r.row))
    (by simp [EventRow.cells, Row.cells])

theorem shown_gapRow (r : Option Row) :
    Shown ("(" ++ ", ".intercalate (gapCells r) ++ ")").toList (gapDisplay r) := by
  cases r with
  | some r => exact shown_row r
  | none =>
    have hgap : Shown "Undefined".toList (.word "Undefined") :=
      shown_word (by decide) (List.all_eq_true.1 (by decide))
    exact shown_tuple (.cons hgap (.cons hgap (.cons hgap .nil))) (by decide)

theorem shown_timerText (t : Timer) : Shown (timerText t).toList (timerDisplay t) := by
  have hperiodic : Shown (if t.periodic then "True" else "False").toList
      (.word (if t.periodic then "True" else "False")) := by
    cases t.periodic with
    | true => exact shown_word (by decide) (List.all_eq_true.1 (by decide))
    | false => exact shown_word (by decide) (List.all_eq_true.1 (by decide))
  have h := shown_tuple (.cons (shown_int t.duration) (.cons (shown_quote t.event)
    (.cons hperiodic .nil))) (by simp)
  simpa [timerText, timerDisplay, String.append_assoc] using h

/-- A table among the lines of a module is assigned there. -/
theorem assigns_tableOf {m : Definition} {dispatch entries first : List String} {name : String}
    {values : List (Display × Display)} (hdispatch : tableLines (tables m) = .ok dispatch)
    (hname : name ∈ tableNames) (hfirst : first ≠ []) (hentries : ShowEntries entries values)
    (htable : tableOf name entries <:+: dispatch) :
    Assigns m.name (joinLines (first ++ laterLines m dispatch)) name (.dict values) := by
  have hdispatchLines : dispatch <:+: laterLines m dispatch := by
    refine ⟨actionTable "ENTRY_ACTIONS" State.entry m ++ actionTable "EXIT_ACTIONS" State.exit m,
      [""] ++ dispatcher (m.name ++ "Machine") m.name, ?_⟩
    simp only [laterLines, List.append_assoc]
  obtain ⟨before, after, hlines⟩ := htable.trans hdispatchLines
  obtain ⟨s, hs⟩ := exists_joinLines_eq (List.append_ne_nil_of_left_ne_nil hfirst before)
  refine ⟨s, _, joinLines ("" :: after), ?_, (shown_dict hentries).read_eq, fun hmachine => ?_⟩
  · rw [← hlines, List.append_assoc, ← List.append_assoc first, joinLines_append, hs]
    simp [joinLines_append, joinLines_cons, tableOf, ← String.toList_inj]
  · have houtline := outlines_laterLines hmachine hdispatch
    rw [← hlines, List.append_assoc] at houtline
    have hletter : isLettered name := by
      have hall : ∀ name ∈ tableNames, isLettered name := by decide
      exact hall name hname
    have hbegins : begins name (name ++ " = \x7b") := by
      simp [begins, String.toList_append, List.isPrefixOf_iff_prefix]
    have hlater := houtline.begins_eq_false hletter hbegins (filter_outline hname m.name)
    have hunbroken : ∀ l ∈ after, Text.Unbroken l := fun l hl =>
      houtline.unbroken l (by simp [tableOf, hl])
    rw [lines_joinLines (List.forall_mem_cons.2 ⟨by decide, hunbroken⟩)]
    exact fun l hl => hlater l (by simp [List.mem_cons.1 hl])

/-- The tables of a module that has been written. -/
theorem showsTables_of_generate {m : Definition} {source : Option String} {text : String}
    (h : generate m source = .ok text) : ShowsTables m.name text (tables m) := by
  obtain ⟨-, dispatch, hdispatch, rfl⟩ := exists_of_generate_eq_ok h
  have hassigns {name : String} {entries : List String} {values : List (Display × Display)}
      (hname : name ∈ tableNames) (hentries : ShowEntries entries values)
      (htable : tableOf name entries <:+: dispatch) :
      Assigns m.name (joinLines (headerLines m.name source ++ ([""] ++ documentation m.name) ++
        enumerations m ++ ["INITIAL = " ++ Text.quote m.initial, ""] ++ laterLines m dispatch))
        name (.dict values) :=
    assigns_tableOf hdispatch hname (List.cons_ne_nil _ _) hentries htable
  obtain ⟨timers, htimers, hlines⟩ := exists_of_bind_eq_ok hdispatch
  have hyields := Yields.mapM fun x (_ : x ∈ (tables m).timers) => yields_timerLine x
  obtain ⟨-, rfl⟩ := hyields.eq_of_eq_ok htimers
  cases hlines
  have hblock {table : List String} {blocks : List (List String)} (hmem : table ∈ blocks) :
      table <:+: blocks.flatten := List.infix_of_mem_flatten hmem
  constructor
  · exact hassigns (by decide)
      (showEntries_flatMap (showEntries_groupLines shown_eventRow) _) (hblock (by simp))
  · exact hassigns (by decide)
      (showEntries_flatMap (showEntries_groupLines shown_row) _) (hblock (by simp))
  · exact hassigns (by decide)
      (showEntries_flatMap (showEntries_groupLines shown_gapRow) _) (hblock (by simp))
  · have htimer (x : Timer) := showEntries_entryLine x.id (shown_timerText x)
    exact hassigns (by decide) (showEntries_map htimer _) (hblock (by simp))
  · have hcommand (c : String × TimerCommand) : ShowEntries [entryLine c.1 (commandCells c.2)]
        [(.text c.1, commandDisplay c.2)] :=
      showEntries_entryLine c.1 (shown_quoteTuple [c.2.verb, c.2.timer])
    exact hassigns (by decide) (showEntries_map hcommand _) (hblock (by simp))

end

end Statechart.Codegen
