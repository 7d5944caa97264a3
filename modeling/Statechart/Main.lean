import Statechart.CommandLine.Outcome

/-!
# The program

The command line of the library: looks at the files that an invocation is about, prints what
comes of it, writes files and gives the exit code. It knows the names of no characters.
-/

namespace Statechart

open CommandLine

/-- The code of the system's error for a folder in place of a file. -/
def folderCode : UInt32 := 21

/-- Looks at what lies at an address. -/
def look (a : Address) : IO (Option Entry) := do
  try
    let bytes ← IO.FS.readBinFile ("/" ++ "/".intercalate a)
    return some (.file bytes.toList)
  catch
    | .inappropriateType _ code _ => return if code = folderCode then some (.folder []) else none
    | _ => return none

/-- What lies at the addresses that paths lead over. -/
def lookAll (paths : List Path) : IO FileTree := do
  let here := (Path.ofText (← IO.currentDir).toString).names
  let addresses := (paths.flatMap (Path.addresses here)).eraseDups
  let seen ← addresses.mapM fun a => return (← look a).map (a, ·)
  return .ofEntries here (seen.filterMap id)

/-- Writes a file, with the folders on the way. -/
def write (p : Path) (text : String) : IO Unit := do
  IO.FS.createDirAll p.parent.text
  IO.FS.writeFile p.text text

/-- Carries out what the arguments ask for: the exit code. -/
def carryOut (arguments : List String) : IO UInt32 := do
  let paths := match Invocation.read arguments with
    | .ok i => i.paths
    | .error _ => []
  let o := outcome (fun _ => none) (← lookAll paths) arguments
  IO.eprint o.err
  o.written.forM fun (p, text) => write p text
  IO.print o.out
  match o.ending with
  | .ok code => return code.toUInt32
  | .error b =>
    IO.eprintln b.message
    return 1

end Statechart

/-- The program. -/
def main (arguments : List String) : IO UInt32 := Statechart.carryOut arguments
