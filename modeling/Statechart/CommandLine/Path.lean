/-!
# Paths

A path leads through folders, from the top (`/`) or from where the program runs. Empty parts and
parts that are a single point say nothing and are left out; parts of two points are kept, as they
lead back.
-/

namespace Statechart.CommandLine

/-- An address of a file or folder: the names that lead there straight from the top. -/
abbrev Address := List String

/-- The address that a name leads to from another one. Two points lead back; at the top they lead
nowhere else. -/
def Address.next (a : Address) (name : String) : Address :=
  if name = ".." then a.dropLast else a ++ [name]

/-- A path: what it begins with, and the names on it. -/
structure Path where
  root : String
  names : List String
  deriving DecidableEq, Repr

namespace Path

/-- The pieces between slashes. -/
def pieces : List Char → List (List Char)
  | [] => [[]]
  | '/' :: cs => [] :: pieces cs
  | c :: cs =>
    match pieces cs with
    | p :: ps => (c :: p) :: ps
    | [] => [[c]]

/-- What a path begins with: two slashes are kept, more are one. -/
def rootOf (cs : List Char) : String :=
  match (cs.takeWhile (· == '/')).length with
  | 0 => ""
  | 2 => "//"
  | _ => "/"

/-- The path that a text writes. -/
def ofText (s : String) : Path :=
  { root := rootOf s.toList
    names := ((pieces s.toList).map String.ofList).filter fun p => p != "" && p != "." }

/-- The path as it is written; the place where the program runs is a point. -/
def text (p : Path) : String :=
  match p.root ++ "/".intercalate p.names with
  | "" => "."
  | s => s

/-- The last name of a path. -/
def name (p : Path) : String := p.names.getLast?.getD ""

/-- The path without its last name. -/
def parent (p : Path) : Path := { p with names := p.names.dropLast }

/-- Where a path begins, given the folder in which the program runs. -/
def start (here : Address) (p : Path) : Address := if p.root = "" then here else []

/-- The address that a path leads to, given the folder in which the program runs. -/
def address (here : Address) (p : Path) : Address := p.names.foldl Address.next (p.start here)

/-- The addresses that names lead over from an address, with the first one and the last one. -/
def addressesFrom (a : Address) : List String → List Address
  | [] => [a]
  | n :: ns => a :: addressesFrom (a.next n) ns

/-- The addresses that a path leads over, given the folder in which the program runs. -/
def addresses (here : Address) (p : Path) : List Address := addressesFrom (p.start here) p.names

end Path

end Statechart.CommandLine
