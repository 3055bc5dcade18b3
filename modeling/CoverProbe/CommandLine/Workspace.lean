import CoverProbe.CommandLine.Host
import CoverProbe.CommandLine.Path

set_option relaxedAutoImplicit false
set_option autoImplicit false

/-!
# A host in memory

A host whose files, directories and streams are values, so that a whole run is a function.

## Main definitions

* `CoverProbe.Workspace` — the state of the host.
* `CoverProbe.Workspace.locate` — what a path leads to.
* The instance of `CoverProbe.Host` for `StateM Workspace`.

## Implementation notes

A place is the list of the names that lead to it from the root. Every name on the way to a place
must be a directory, also those that a double dot takes back.
-/

namespace CoverProbe

/-- The state of a host in memory. -/
structure Workspace where
  /-- The current directory. -/
  current : List String
  directories : List (List String)
  files : List (List String × List UInt8)
  input : List UInt8 := []
  output : List UInt8 := []
  errors : String := ""
  seed : UInt64 := 0

namespace Workspace

/-! ## Places -/

/-- What is at a place. -/
inductive Entry
  | file (bytes : List UInt8)
  | directory

/-- What is at a place; the root is a directory. -/
def entry? (w : Workspace) (place : List String) : Option Entry :=
  match w.files.lookup place with
  | some bytes => some (.file bytes)
  | none => if place.isEmpty || w.directories.contains place then some .directory else none

/-- The place that names lead to from a place. -/
def descend (w : Workspace) (place : List String) : List String → Except FileFault (List String)
  | [] => .ok place
  | name :: rest =>
    match w.entry? place with
    | none => .error .notFound
    | some (.file _) => .error .notDirectory
    | some .directory =>
      if name = "" ∨ name = "." then descend w place rest
      else if name = ".." then descend w place.dropLast rest
      else descend w (place ++ [name]) rest

/-- The place where a path begins. -/
def start (w : Workspace) (path : String) : List String :=
  if Path.isAbsolute path then [] else w.current

/-- The place that a path leads to. -/
def locate (w : Workspace) (path : String) : Except FileFault (List String) :=
  w.descend (w.start path) (Path.parts path)

/-- What is at the end of a path. -/
def find? (w : Workspace) (path : String) : Option Entry :=
  match w.locate path with
  | .ok place => w.entry? place
  | .error _ => none

/-- The place of a file that a path names by its last part. A path that ends in a slash or in dots
names a directory. -/
def locateFile (w : Workspace) (path : String) : Except FileFault (List String) := do
  let parts := (Path.parts path).reverse
  match parts.dropWhile (· = "") with
  | [] => throw .isDirectory
  | name :: outer =>
    let place ← w.descend (w.start path) (outer.reverse ++ [name])
    if name = "." ∨ name = ".." ∨ parts.head? = some "" then throw .isDirectory
    match w.entry? place with
    | some .directory => throw .isDirectory
    | _ => return place

/-! ## Operations -/

/-- The bytes of the file at the end of a path. -/
def read (w : Workspace) (path : String) : Except FileFault (List UInt8) := do
  match w.entry? (← w.locate path) with
  | some (.file bytes) => return bytes
  | some .directory => throw .isDirectory
  | none => throw .notFound

/-- The workspace with the bytes at a place. -/
def put (w : Workspace) (place : List String) (bytes : List UInt8) : Workspace :=
  { w with files := (place, bytes) :: w.files.filter (·.1 ≠ place) }

/-- The workspace without the file at a place. -/
def drop (w : Workspace) (place : List String) : Workspace :=
  { w with files := w.files.filter (·.1 ≠ place) }

/-- The workspace with a file written. -/
def write (path : String) (bytes : List UInt8) (w : Workspace) : Except FileFault Workspace := do
  return w.put (← w.locateFile path) bytes

/-- The workspace with a file removed. -/
def remove (path : String) (w : Workspace) : Except FileFault Workspace := do
  let place ← w.locateFile path
  if (w.entry? place).isNone then throw .notFound
  return w.drop place

/-- The workspace with a file moved. -/
def move (source target : String) (w : Workspace) : Except FileFault Workspace := do
  let bytes ← w.read source
  let place ← w.locateFile target
  let origin ← w.locate source
  return (w.drop origin).put place bytes

/-- An operation that changes the workspace if it succeeds. -/
def change (operation : Workspace → Except FileFault Workspace) :
    StateM Workspace (Except FileFault Unit) := fun w =>
  match operation w with
  | .ok w => (.ok (), w)
  | .error cause => (.error cause, w)

/-- The host in memory. -/
instance : Host (StateM Workspace) where
  currentDirectory := do return Path.ofNames true (← get).current
  isPresent path := do return ((← get).find? path).isSome
  isFile path := do
    match (← get).find? path with
    | some (.file _) => return true
    | _ => return false
  readFile path := do return (← get).read path
  writeFile path bytes := change (write path bytes)
  removeFile path := change (remove path)
  rename source target := change (move source target)
  readInput := do return (← get).input
  writeOutput bytes := modify fun w => { w with output := w.output ++ bytes }
  writeError text := modify fun w => { w with errors := w.errors ++ text }
  freshSeed := do return (← get).seed

end Workspace

end CoverProbe
