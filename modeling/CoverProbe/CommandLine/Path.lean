set_option relaxedAutoImplicit false
set_option autoImplicit false

/-!
# Paths

Paths of files as texts with slashes between their parts.

## Main definitions

* `CoverProbe.Path.parts` — the texts between the slashes.
* `CoverProbe.Path.fileName`, `CoverProbe.Path.parent` — the last name of a path, and what precedes
  it.
* `CoverProbe.Path.upward` — a directory and all that contain it.
-/

namespace CoverProbe.Path

/-- The texts between the slashes; `part` is the one being read, its last character first. -/
def partsFrom (part : List Char) : List Char → List String
  | [] => [String.ofList part.reverse]
  | c :: rest =>
    if c = '/' then String.ofList part.reverse :: partsFrom [] rest else partsFrom (c :: part) rest

/-- The texts between the slashes. -/
def parts (path : String) : List String :=
  partsFrom [] path.toList

/-- Does the path begin at the root? -/
def isAbsolute (path : String) : Bool :=
  path.toList.head? = some '/'

/-- The parts that name something: all but empty ones and single dots. -/
def names (path : String) : List String :=
  (parts path).filter fun part => part ≠ "" ∧ part ≠ "."

/-- The path of names below the root or below the current directory. -/
def ofNames (absolute : Bool) (names : List String) : String :=
  if absolute then "/" ++ "/".intercalate names
  else if names.isEmpty then "." else "/".intercalate names

/-- The last name of a path, empty if it has none. -/
def fileName (path : String) : String :=
  match (names path).getLast? with
  | some name => if name = ".." then "" else name
  | none => ""

/-- The directory that holds what a path names. -/
def parent (path : String) : String :=
  if (names path).isEmpty then "." else ofNames (isAbsolute path) (names path).dropLast

/-- The path of a file in a directory. -/
def join (directory name : String) : String :=
  if directory.toList.getLast? = some '/' then directory ++ name else directory ++ "/" ++ name

/-- The paths of the names in `inner`, the innermost first, and of all that contain them. -/
def upwardFrom (absolute : Bool) : (inner : List String) → List String
  | [] => [ofNames absolute []]
  | name :: outer => ofNames absolute (name :: outer).reverse :: upwardFrom absolute outer

/-- A directory and all that contain it, the innermost first. -/
def upward (directory : String) : List String :=
  upwardFrom (isAbsolute directory) (names directory).reverse

end CoverProbe.Path
