import Statechart.Text.Lines

/-!
# The header of a generated module

A generated module opens with eight comment lines, which name the machine and the file it comes
from. A file name is put on one line, whatever it holds: each line boundary in it becomes a
space.
-/

namespace Statechart.Codegen

/-- The name that stands for a source without one. -/
def unnamedSource : String := "unknown.fsm"

/-- The name of a source on one line. -/
def sourceLine (source : Option String) : String :=
  let name := match source with
    | some s => if s.isEmpty then unnamedSource else s
    | none => unnamedSource
  " ".intercalate (Text.lines name)

/-- The lines of the header. -/
def headerLines (machine : String) (source : Option String) : List String := [
  "# SPDX-License-Identifier: MIT",
  "#",
  "# Generated by fsmdsl Code Generator 0.4.0",
  "# Machine: " ++ machine,
  "# From: " ++ sourceLine source,
  "#",
  "# Generated code may be used in open source and commercial projects without restriction.",
  "# Do not edit: regenerate from the FSM DSL source instead."]

/-- Lines with their ends. -/
def joinLines (lines : List String) : String := String.join (lines.map (· ++ "\n"))

/-- The header of the module for a machine. -/
def header (machine : String) (source : Option String) : String :=
  joinLines (headerLines machine source)

end Statechart.Codegen
