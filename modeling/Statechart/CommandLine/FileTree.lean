import Statechart.CommandLine.Path
import Statechart.Text.Quote

/-!
# Trees of files and folders

What lies where the program can look, and what keeps it from reading or writing there. The names
on a path are followed one after the other, and they lead on only from folders. A folder that has
been created on the way to a file can be walked through at once, also by the rest of the same
path.

* `FileTree.find` looks at what a path leads to.
* `FileTree.createFolders` creates a folder with all that are missing on the way to it.
* `FileTree.write` writes a file, with the folders on the way.
-/

namespace Statechart.CommandLine

/-- What lies at an address: a file, or a folder with what lies in it by name. -/
inductive Entry
  | file (bytes : List UInt8)
  | folder (contents : List (String × Entry))

namespace Entry

/-- What lies at an address below an entry. -/
def at? : Entry → Address → Option Entry
  | e, [] => some e
  | file _, _ :: _ => none
  | folder contents, name :: names =>
    match contents.lookup name with
    | some e => e.at? names
    | none => none

/-- Puts an entry at an address below another one, creating the folders on the way. Nothing is put
below files. -/
def put (new : Entry) : Entry → Address → Entry
  | _, [] => new
  | file bytes, _ :: _ => file bytes
  | folder contents, name :: names =>
    folder ((name, new.put ((contents.lookup name).getD (folder [])) names) :: contents)

end Entry

/-- What is wrong with a path. -/
inductive FileProblem
  /-- Nothing lies there. -/
  | missing
  /-- Something lies there already. -/
  | taken
  /-- The way leads through a file. -/
  | throughFile
  /-- A folder lies there. -/
  | isFolder
  /-- The path is too long, or a name on it. -/
  | tooLong
  /-- The path holds the character of number zero. -/
  | nullCharacter
  /-- Too many folders are missing on the way. -/
  | tooDeep
  deriving DecidableEq, Repr

/-- Why a file cannot be read or written. -/
structure FileError where
  problem : FileProblem
  path : Path
  deriving DecidableEq, Repr

/-- The words for a path that the system refuses with a number. -/
def refusedPath (number : Nat) (words : String) (p : Path) : String :=
  "[Errno " ++ toString number ++ "] " ++ words ++ ": " ++ Text.quote p.text

/-- The error in words. -/
def FileError.message : FileError → String
  | ⟨.missing, p⟩ => refusedPath 2 "No such file or directory" p
  | ⟨.taken, p⟩ => refusedPath 17 "File exists" p
  | ⟨.throughFile, p⟩ => refusedPath 20 "Not a directory" p
  | ⟨.isFolder, p⟩ => refusedPath 21 "Is a directory" p
  | ⟨.tooLong, p⟩ => refusedPath 36 "File name too long" p
  | ⟨.nullCharacter, _⟩ => "embedded null byte"
  | ⟨.tooDeep, _⟩ => "maximum recursion depth exceeded while calling a Python object"

/-- All files and folders, and the folder in which the program runs. -/
structure FileTree where
  top : Entry
  here : Address

namespace FileTree

/-! ## Looking -/

/-- What lies at an address. -/
def entryAt (t : FileTree) (a : Address) : Option Entry := t.top.at? a

/-- The most bytes in a name. -/
def nameLimit : Nat := 255

/-- The most bytes in a path. -/
def pathLimit : Nat := 4095

/-- Follows a name from an address. -/
def follow (t : FileTree) (a : Address) (name : String) : Except FileProblem Address :=
  match t.entryAt a with
  | none => .error .missing
  | some (.file _) => .error .throughFile
  | some (.folder _) => if nameLimit < name.utf8ByteSize then .error .tooLong else .ok (a.next name)

/-- The address that a path leads to; whether anything lies there is left open. -/
def locate (t : FileTree) (p : Path) : Except FileProblem Address :=
  if p.text.toList.contains '\x00' then .error .nullCharacter
  else if pathLimit < p.text.utf8ByteSize then .error .tooLong
  else p.names.foldlM t.follow (p.start t.here)

/-- What a path leads to. -/
def find (t : FileTree) (p : Path) : Except FileProblem Entry := do
  match t.entryAt (← t.locate p) with
  | some e => return e
  | none => throw .missing

/-- Whether a path leads to a folder. -/
def hasFolder (t : FileTree) (p : Path) : Bool :=
  match t.find p with
  | .ok (.folder _) => true
  | _ => false

/-! ## Changing -/

/-- Puts an entry at an address. -/
def put (t : FileTree) (a : Address) (e : Entry) : FileTree := { t with top := e.put t.top a }

/-- Creates a folder where nothing lies. -/
def createFolder (t : FileTree) (p : Path) : Except FileProblem FileTree := do
  let a ← t.locate p
  match t.entryAt a with
  | some _ => throw .taken
  | none => return t.put a (.folder [])

/-- Creates a folder unless there is one. -/
def ensureFolder (t : FileTree) (p : Path) : Except FileProblem FileTree :=
  match t.createFolder p with
  | .ok t => .ok t
  | .error e => if t.hasFolder p then .ok t else .error e

/-- How many folders can be created one inside the other. -/
def nestingLimit : Nat := 988

/-- Creates a folder unless there is one, and the folder that it lies in if that is missing, at
most the given number of folders in all. -/
def createNested (t : FileTree) (p : Path) : Nat → Except FileError FileTree
  | 0 => .error ⟨.tooDeep, p⟩
  | n + 1 =>
    match t.ensureFolder p with
    | .error .missing =>
      if p.names.isEmpty then .error ⟨.missing, p⟩
      else do
        let t ← t.createNested p.parent n
        (t.ensureFolder p).mapError (⟨·, p⟩)
    | r => r.mapError (⟨·, p⟩)

/-- Creates a folder unless there is one, and all that are missing on the way. -/
def createFolders (t : FileTree) (p : Path) : Except FileError FileTree :=
  t.createNested p nestingLimit

/-- Writes a file in a folder that is there. -/
def writeFile (t : FileTree) (p : Path) (bytes : List UInt8) : Except FileProblem FileTree := do
  let a ← t.locate p
  match t.entryAt a with
  | some (.folder _) => throw .isFolder
  | _ => return t.put a (.file bytes)

/-- Writes a file, with the folders on the way. -/
def write (t : FileTree) (p : Path) (bytes : List UInt8) : Except FileError FileTree := do
  let t ← t.createFolders p.parent
  (t.writeFile p bytes).mapError (⟨·, p⟩)

/-! ## Building -/

/-- Adds what is known to lie at an address. A folder that is known already keeps what lies in
it. -/
def add (t : FileTree) (a : Address) (e : Entry) : FileTree :=
  match t.entryAt a, e with
  | some (.folder _), .folder _ => t
  | _, e => t.put a e

/-- The tree of all that is known to lie at addresses, with folders on the way there and to the
folder in which the program runs. -/
def ofEntries (here : Address) (entries : List (Address × Entry)) : FileTree :=
  entries.foldl (fun t e => t.add e.1 e.2) ⟨(Entry.folder []).put (.folder []) here, here⟩

end FileTree

end Statechart.CommandLine
