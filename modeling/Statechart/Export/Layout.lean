import Statechart.Number.Reading
import Statechart.Value

/-!
# Layouts

The reply of a layout service: a position for each node and a route for each edge. It comes as a
record with the fields `positions`, a record of points with the fields `x` and `y`, and
`routes`, a list of lists of pairs; both may be absent. A coordinate may be an integer, a truth
value or a text that writes a number.

Anything that can be gone through may stand for a list: a text gives its characters and a record
its names. Positions are read before routes, and the first value that does not fit is the error.
-/

namespace Statechart.Export

/-- A point of the plane. -/
structure Point where
  x : Binary64
  y : Binary64
  deriving DecidableEq, Repr

/-- Positions of nodes and routes of edges. -/
structure Layout where
  positions : List (String × Point)
  routes : List (List Point)
  deriving DecidableEq, Repr

/-- Why a reply is no layout. -/
inductive LayoutError
  /-- A value that is no record stands where one is due, and lacks the operation asked of it. -/
  | notRecord (kind operation : String)
  /-- A point lacks a coordinate. -/
  | missingCoordinate (name : String)
  /-- A list stands where a point is due. -/
  | listPoint
  /-- A text stands where a point is due. -/
  | textPoint
  /-- A value without parts stands where a point is due. -/
  | plainPoint (kind : String)
  /-- A value without parts stands where a list is due. -/
  | notList (kind : String)
  /-- A value without parts stands where a pair is due. -/
  | notPair (kind : String)
  /-- A pair has too few parts. -/
  | shortPair (count : Nat)
  /-- A pair has too many parts. -/
  | longPair
  /-- An integer is too large for a coordinate. -/
  | overflow
  /-- A text writes no number. -/
  | notNumber (text : String)
  /-- A coordinate is neither a number nor a text. -/
  | notCoordinate (kind : String)
  deriving DecidableEq, Repr

/-- The error in words. -/
def LayoutError.message : LayoutError → String
  | notRecord k operation => "'" ++ k ++ "' object has no attribute '" ++ operation ++ "'"
  | missingCoordinate name => Text.quote name
  | listPoint => "list indices must be integers or slices, not str"
  | textPoint => "string indices must be integers, not 'str'"
  | plainPoint k => "'" ++ k ++ "' object is not subscriptable"
  | notList k => "'" ++ k ++ "' object is not iterable"
  | notPair k => "cannot unpack non-iterable " ++ k ++ " object"
  | shortPair n => "not enough values to unpack (expected 2, got " ++ toString n ++ ")"
  | longPair => "too many values to unpack (expected 2)"
  | overflow => "int too large to convert to float"
  | notNumber s => "could not convert string to float: " ++ Text.quote s
  | notCoordinate k => "float() argument must be a string or a real number, not '" ++ k ++ "'"

namespace Layout

/-- The number that a value gives. -/
def coordinate : Value → Except LayoutError Binary64
  | .real x => .ok x
  | .bool b => .ok (if b then .one else .zero)
  | .int n =>
    match Binary64.ofInt? n with
    | some x => .ok x
    | none => .error .overflow
  | .text s =>
    match Binary64.read? s with
    | some x => .ok x
    | none => .error (.notNumber s)
  | v => .error (.notCoordinate v.kind)

/-- The part of a point with the given name. -/
def part (point : Value) (name : String) : Except LayoutError Value :=
  match point with
  | .record fields =>
    match Value.field? name fields with
    | some v => .ok v
    | none => .error (.missingCoordinate name)
  | .list _ => .error .listPoint
  | .text _ => .error .textPoint
  | v => .error (.plainPoint v.kind)

/-- A position. -/
def position (entry : String × Value) : Except LayoutError (String × Point) := do
  let x ← coordinate (← part entry.2 "x")
  let y ← coordinate (← part entry.2 "y")
  return (entry.1, ⟨x, y⟩)

/-- The parts of a value that can be gone through. -/
def parts? : Value → Option (List Value)
  | .list items => some items
  | .text s => some (s.toList.map fun c => .text (String.singleton c))
  | .record fields => some (fields.map fun f => .text f.1)
  | _ => none

/-- A point of a route. -/
def routePoint (v : Value) : Except LayoutError Point :=
  match parts? v with
  | none => .error (.notPair v.kind)
  | some [x, y] => do return ⟨← coordinate x, ← coordinate y⟩
  | some ps => .error (if ps.length < 2 then .shortPair ps.length else .longPair)

/-- The parts of a value that stands where a list is due. -/
def parts (v : Value) : Except LayoutError (List Value) :=
  match parts? v with
  | some ps => .ok ps
  | none => .error (.notList v.kind)

/-- A route. -/
def route (v : Value) : Except LayoutError (List Point) := do
  (← parts v).mapM routePoint

/-- The layout that a reply gives. -/
def ofValue : Value → Except LayoutError Layout
  | .record fields => do
    let entries ← match (Value.field? "positions" fields).getD (.record []) with
      | .record entries => .ok entries
      | v => .error (LayoutError.notRecord v.kind "items")
    let positions ← entries.mapM position
    let routes ← (← parts ((Value.field? "routes" fields).getD (.list []))).mapM route
    return ⟨positions, routes⟩
  | v => .error (.notRecord v.kind "get")

end Layout

end Statechart.Export
