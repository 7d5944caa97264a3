import Mathlib
import Statechart.Proofs.Codegen.Display

/-!
# The outline of a module

Of the lines of a module, those that begin with a letter are its outline: an assignment or a
declaration begins on each of them, and what belongs to it stands on the lines after it, which begin
with a blank or a mark. After the initial state the outline is that of every other module, but for
the name of the machine (`outlines_laterLines`), so that a table is given no second value there and
no second class of the same name is declared.

Main statement: `outlines_laterLines`.
-/

namespace Statechart.Codegen

open Text (Unbroken quote quote? quoteTuple)
open Display (unbroken_quote)

/-- The line begins with a letter. -/
def isLettered (l : String) : Bool := l.toList.head?.any Char.isAlpha

/-- The line begins with the word. -/
def begins (word l : String) : Bool := word.toList.isPrefixOf l.toList

theorem isLettered_of_begins {word l : String} (h : begins word l) (hword : isLettered word) :
    isLettered l := by
  obtain ⟨rest, hrest⟩ := List.isPrefixOf_iff_prefix.1 h
  cases hchars : word.toList with
  | nil => simp [isLettered, hchars] at hword
  | cons c cs =>
    rw [isLettered, ← hrest, hchars]
    simpa [isLettered, hchars] using hword

/-! ## Lines and their outline -/

/-- The lines are unbroken, and the heads are those of them that begin with a letter. -/
structure Outlines (ls heads : List String) : Prop where
  unbroken : ∀ l ∈ ls, Unbroken l
  heads_eq : ls.filter isLettered = heads

/-- The line is unbroken and begins with no letter. -/
def Aside (l : String) : Prop := Unbroken l ∧ isLettered l = false

instance (l : String) : Decidable (Aside l) := inferInstanceAs (Decidable (_ ∧ _))

section

variable {ls ls' heads heads' : List String} {l value word : String}

theorem Outlines.append (h : Outlines ls heads) (h' : Outlines ls' heads') :
    Outlines (ls ++ ls') (heads ++ heads') where
  unbroken := List.forall_mem_append.2 ⟨h.unbroken, h'.unbroken⟩
  heads_eq := by rw [List.filter_append, h.heads_eq, h'.heads_eq]

theorem outlines_of_aside (h : ∀ l ∈ ls, Aside l) : Outlines ls [] where
  unbroken l hl := (h l hl).1
  heads_eq := List.filter_eq_nil_iff.2 fun l hl => by simp [(h l hl).2]

/-- A line that is written out is checked by its characters. -/
theorem aside_ofList {cs : List Char}
    (h : (cs.all fun c => !Text.isBreak c) && !cs.head?.any Char.isAlpha) :
    Aside (String.ofList cs) := by
  simp only [Bool.and_eq_true, List.all_eq_true, Bool.not_eq_true'] at h
  rw [Aside, Unbroken, isLettered, String.toList_ofList]
  exact h

theorem aside_ofList_append {cs ds : List Char}
    (h : ((cs ++ ds).all fun c => !Text.isBreak c) && !(cs ++ ds).head?.any Char.isAlpha) :
    Aside (String.ofList cs ++ String.ofList ds) := by
  rw [← String.ofList_append]
  exact aside_ofList h

theorem outlines_head (h : Unbroken l) (hl : isLettered l) : Outlines [l] [l] where
  unbroken := List.forall_mem_singleton.2 h
  heads_eq := by rw [List.filter_cons_of_pos hl, List.filter_nil]

theorem outlines_flatten {blocks outlines : List (List String)}
    (h : List.Forall₂ Outlines blocks outlines) : Outlines blocks.flatten outlines.flatten := by
  induction h with
  | nil => exact outlines_of_aside (by simp)
  | cons hblock _ ih => exact hblock.append ih

/-- A word that begins with a letter is looked for in the outline. -/
theorem Outlines.filter_begins (h : Outlines ls heads) (hword : isLettered word) :
    ls.filter (begins word) = heads.filter (begins word) := by
  rw [← h.heads_eq, List.filter_filter]
  refine List.filter_congr fun l _ => ?_
  cases hbegins : begins word l with
  | false => rfl
  | true => rw [isLettered_of_begins hbegins hword, Bool.and_true]

/-- After a line that begins with a word there is no other one, if the outline has none. -/
theorem Outlines.begins_eq_false {before after : List String}
    (h : Outlines (before ++ l :: after) heads) (hword : isLettered word) (hl : begins word l)
    (hheads : heads.filter (begins word) = [l]) : ∀ l ∈ after, begins word l = false := by
  have hfilter := (h.filter_begins hword).trans hheads
  rw [List.filter_append, List.filter_cons_of_pos hl] at hfilter
  have hlength := congrArg List.length hfilter
  simp only [List.length_append, List.length_cons, List.length_nil] at hlength
  have hnone : after.filter (begins word) = [] := List.eq_nil_of_length_eq_zero (by omega)
  simpa using List.filter_eq_nil_iff.1 hnone

/-! ## Cells -/

theorem unbroken_word (h : ∀ c ∈ word.toList, Display.isWordChar c) : Unbroken word := fun c hc =>
  Text.isBreak_eq_false_of (by decide) (h c hc)

theorem unbroken_intercalate {s : String} (hs : Unbroken s) (h : ∀ l ∈ ls, Unbroken l) :
    Unbroken (s.intercalate ls) := by
  induction ls with
  | nil => exact fun c hc => by simp at hc
  | cons l ls ih =>
    obtain ⟨hl, hls⟩ := List.forall_mem_cons.1 h
    cases ls with
    | nil => simpa using hl
    | cons l' ls =>
      rw [String.intercalate_cons_cons]
      exact (hl.append hs).append (ih hls)

/-- A quoted text begins with its quote. -/
theorem aside_quote (s : String) : Aside (quote s) := by
  refine ⟨unbroken_quote s, ?_⟩
  rw [isLettered, quote, String.toList_ofList, Text.quoteList]
  rcases Display.quoteFor_eq s.toList with h | h <;> simp [h, Text.apostrophe, Text.doubleQuote]

theorem unbroken_quote? (s : Option String) : Unbroken (quote? s) := by
  cases s with
  | none => exact show Unbroken "None" by decide
  | some s => exact unbroken_quote s

theorem unbroken_quoteTuple (ss : List String) : Unbroken (quoteTuple ss) := by
  have hopen : Unbroken "(" := by decide
  have hquotes : ∀ l ∈ ss.map quote, Unbroken l :=
    List.forall_mem_map.2 fun s _ => unbroken_quote s
  fun_cases quoteTuple ss with
  | case1 s => exact (hopen.append (unbroken_quote s)).append (by decide)
  | case2 => exact (hopen.append (unbroken_intercalate (by decide) hquotes)).append (by decide)

theorem unbroken_cells (r : Row) : ∀ cell ∈ r.cells, Unbroken cell := by
  simp [Row.cells, unbroken_quote?, unbroken_quoteTuple, unbroken_quote]

theorem unbroken_eventCells (r : EventRow) : ∀ cell ∈ r.cells, Unbroken cell :=
  List.forall_mem_cons.2 ⟨unbroken_quote r.event, unbroken_cells r.row⟩

theorem unbroken_gapCells (r : Option Row) : ∀ cell ∈ gapCells r, Unbroken cell := by
  cases r with
  | none => exact show ∀ cell ∈ ["Undefined", "Undefined", "Undefined"], Unbroken cell by decide
  | some r => exact unbroken_cells r

theorem unbroken_timerText (t : Timer) : Unbroken (timerText t) := by
  have hduration : Unbroken (toString t.duration) :=
    unbroken_word (Display.toString_int_word t.duration).2
  have hperiodic : Unbroken (if t.periodic then "True" else "False") := by
    cases t.periodic <;> decide
  have hopen : Unbroken "(" := by decide
  exact (((((hopen.append hduration).append (by decide)).append (unbroken_quote t.event)).append
    (by decide)).append hperiodic).append (by decide)

/-! ## The lines of tables -/

theorem aside_indented (h : Unbroken l) : Aside ("    " ++ l) := by
  refine ⟨.append (by decide) h, ?_⟩
  simp [isLettered, String.toList_append]

theorem aside_entryLine (key : String) (h : Unbroken value) : Aside (entryLine key value) := by
  have hcolon : Unbroken ": " := by decide
  have hcomma : Unbroken "," := by decide
  have hindented := aside_indented ((((unbroken_quote key).append hcolon).append h).append hcomma)
  simpa [entryLine, String.append_assoc] using hindented

theorem aside_of_mem_groupLines {α : Type} {row : α → List String}
    (h : ∀ r, ∀ cell ∈ row r, Unbroken cell) (g : String × List α) :
    ∀ l ∈ groupLines row g, Aside l := by
  have hkey : Aside ("    " ++ quote g.1 ++ ": (") := by
    have hopen : Unbroken ": (" := by decide
    have hindented := aside_indented ((unbroken_quote g.1).append hopen)
    rwa [← String.append_assoc] at hindented
  have hrow (r : α) : Aside ("        (" ++ ", ".intercalate (row r) ++ "),") := by
    have hopen : Unbroken "    (" := by decide
    have hclose : Unbroken ")," := by decide
    have hcells := unbroken_intercalate (s := ", ") (by decide) (h r)
    have hindented := aside_indented ((hopen.append hcells).append hclose)
    rwa [← String.append_assoc, ← String.append_assoc] at hindented
  have hend : Aside "    )," := by decide
  simp only [groupLines, List.mem_append, List.mem_singleton, List.mem_map]
  rintro l ((rfl | ⟨r, -, rfl⟩) | rfl)
  · exact hkey
  · exact hrow r
  · exact hend

theorem outlines_tableOf (name : String)
    (hname : Unbroken (name ++ " = \x7b") ∧ isLettered (name ++ " = \x7b"))
    (h : ∀ l ∈ ls, Aside l) : Outlines (tableOf name ls) [name ++ " = \x7b"] := by
  have hend : ∀ l ∈ ["\x7d", ""], Aside l := by decide
  exact (outlines_head hname.1 hname.2).append
    (outlines_of_aside (List.forall_mem_append.2 ⟨h, hend⟩))

theorem outlines_actionTable (name : String)
    (hname : Unbroken (name ++ " = \x7b") ∧ isLettered (name ++ " = \x7b"))
    (actions : State → List String) (m : Definition) :
    Outlines (actionTable name actions m) [name ++ " = \x7b"] := by
  refine outlines_tableOf name hname (List.forall_mem_map.2 fun s _ => ?_)
  exact aside_entryLine s.id (unbroken_quoteTuple (actions s))

end

/-! ## The lines after the initial state -/

/-- The names of the dispatch tables, in their order. -/
def tableNames : List String :=
  ["TRANSITIONS", "COMPLETIONS", "CHOICES", "TIMERS", "TIMER_COMMANDS"]

/-- The outline of a module after its initial state: the tables one after the other, what stands
for a guard that is not given, and the class that runs the machine. -/
def outline (machine : String) : List String :=
  (["ENTRY_ACTIONS", "EXIT_ACTIONS"] ++ tableNames).map (· ++ " = \x7b") ++
    ["def _unresolved_guard(guard, event, payload):", "class " ++ machine ++ "Machine:"]

theorem outlines_tableLines {t : Tables} {ls : List String} (h : tableLines t = .ok ls) :
    Outlines ls (tableNames.map (· ++ " = \x7b")) := by
  obtain ⟨timers, htimers, h⟩ := exists_of_bind_eq_ok h
  have hyields := Yields.mapM fun x (_ : x ∈ t.timers) => yields_timerLine x
  obtain ⟨-, rfl⟩ := hyields.eq_of_eq_ok htimers
  cases h
  have hgroups {α : Type} {row : α → List String} (hrow : ∀ r, ∀ cell ∈ row r, Unbroken cell)
      (groups : List (String × List α)) : ∀ l ∈ groups.flatMap (groupLines row), Aside l :=
    List.forall_mem_flatMap.2 fun g _ => aside_of_mem_groupLines hrow g
  have htransitions := outlines_tableOf "TRANSITIONS" (by decide)
    (hgroups unbroken_eventCells t.transitions)
  have hcompletions := outlines_tableOf "COMPLETIONS" (by decide)
    (hgroups unbroken_cells t.completions)
  have hchoices := outlines_tableOf "CHOICES" (by decide)
    (hgroups unbroken_gapCells t.choices)
  have htimers := outlines_tableOf "TIMERS" (by decide)
    (List.forall_mem_map.2 fun x (_ : x ∈ t.timers) => aside_entryLine x.id (unbroken_timerText x))
  have hcommands := outlines_tableOf "TIMER_COMMANDS" (by decide)
    (List.forall_mem_map.2 fun c (_ : c ∈ t.commands) =>
      aside_entryLine c.1 (unbroken_quoteTuple [c.2.verb, c.2.timer]))
  have hcomment (l : String) (hl : Aside l) : Outlines [l] [] :=
    outlines_of_aside (List.forall_mem_singleton.2 hl)
  exact outlines_flatten (.cons (hcomment _ (by decide)) (.cons htransitions
    (.cons (hcomment _ (by decide)) (.cons hcompletions
    (.cons (hcomment _ (by decide)) (.cons hchoices
    (.cons (hcomment _ (by decide)) (.cons htimers
    (.cons (hcomment _ (by decide)) (.cons hcommands .nil))))))))))

/-- The lines of the class after the one that mentions the machine. -/
theorem aside_of_mem_body : ∀ l ∈ classHeadRest ++ constructorLines ++ startLines ++ stepLines ++
    tickLines ++ takeLines ++ enterLines ++ runLines, Aside l := by
  simp only [List.forall_mem_append, and_assoc]
  unfold classHeadRest constructorLines startLines stepLines tickLines takeLines enterLines runLines
  refine ⟨?_, ?_, ?_, ?_, ?_, ?_, ?_, ?_⟩
  -- each line is a list of characters as it stands; unfolded, it would be made of its bytes
  all_goals
    repeat
      refine List.forall_mem_cons.2 ⟨?_, ?_⟩
      · with_reducible
          first
            | exact aside_ofList (by decide +kernel)
            | exact aside_ofList_append (by decide +kernel)
    simp

theorem outlines_dispatcher {machine : String} (hmachine : Unbroken machine) :
    Outlines (dispatcher (machine ++ "Machine") machine)
      ["def _unresolved_guard(guard, event, payload):", "class " ++ machine ++ "Machine:"] := by
  have hguard : Outlines ["def _unresolved_guard(guard, event, payload):",
      "    raise KeyError(guard)", "", ""] ["def _unresolved_guard(guard, event, payload):"] :=
    ⟨by decide +kernel, by decide +kernel⟩
  have hclass : Outlines ["class " ++ (machine ++ "Machine") ++ ":"]
      ["class " ++ machine ++ "Machine:"] := by
    have htext : "class " ++ (machine ++ "Machine") ++ ":" = "class " ++ machine ++ "Machine:" := by
      simp only [← String.toList_inj, String.toList_append, List.append_assoc]
      rfl
    rw [htext]
    refine outlines_head (.append (.append (by decide) hmachine) (by decide)) ?_
    simp [isLettered, String.toList_append, Char.isAlpha]
  have hmention : Aside ("    \"\"\"Run-to-completion dispatcher for ``" ++ machine ++ "``.") := by
    refine ⟨.append (.append (by decide) hmachine) (by decide), ?_⟩
    simp [isLettered, String.toList_append]
  have hbody : Outlines _ [] :=
    outlines_of_aside (List.forall_mem_cons.2 ⟨hmention, aside_of_mem_body⟩)
  have h := (hguard.append hclass).append hbody
  simpa only [dispatcher, List.append_assoc, List.cons_append, List.nil_append] using h

/-- Each table has one line in the outline. -/
theorem filter_outline {name : String} (h : name ∈ tableNames) (machine : String) :
    (outline machine).filter (begins name) = [name ++ " = \x7b"] := by
  have htables : ∀ name ∈ tableNames, ((["ENTRY_ACTIONS", "EXIT_ACTIONS"] ++ tableNames).map
      (· ++ " = \x7b")).filter (begins name) = [name ++ " = \x7b"] := by decide +kernel
  have hothers : ["def _unresolved_guard(guard, event, payload):",
      "class " ++ machine ++ "Machine:"].filter (begins name) = [] := by
    simp only [tableNames, List.mem_cons, List.not_mem_nil, or_false] at h
    rcases h with rfl | rfl | rfl | rfl | rfl <;> simp [begins, String.toList_append]
  rw [outline, List.filter_append, htables name h, hothers, List.append_nil]

/-- The only class in the outline is that of the machine. -/
theorem filter_class_outline (machine : String) :
    (outline machine).filter (begins "class ") = ["class " ++ machine ++ "Machine:"] := by
  have htables : ((["ENTRY_ACTIONS", "EXIT_ACTIONS"] ++ tableNames).map (· ++ " = \x7b")).filter
      (begins "class ") = [] := by decide +kernel
  have hclass : begins "class " ("class " ++ machine ++ "Machine:") := by
    simp [begins, String.toList_append]
  have hguard : ¬ begins "class " "def _unresolved_guard(guard, event, payload):" := by decide
  rw [outline, List.filter_append, htables, List.nil_append, List.filter_cons_of_neg hguard,
    List.filter_cons_of_pos hclass, List.filter_nil]

/-- **The outline of a module after its initial state.** -/
theorem outlines_laterLines {m : Definition} (hname : Unbroken m.name) {dispatch : List String}
    (hdispatch : tableLines (tables m) = .ok dispatch) :
    Outlines (laterLines m dispatch) (outline m.name) := by
  have hblank : Outlines [""] [] := outlines_of_aside (by decide)
  have hentry := outlines_actionTable "ENTRY_ACTIONS" (by decide) State.entry m
  have hexit := outlines_actionTable "EXIT_ACTIONS" (by decide) State.exit m
  exact (((hentry.append hexit).append (outlines_tableLines hdispatch)).append hblank).append
    (outlines_dispatcher hname)

end Statechart.Codegen
