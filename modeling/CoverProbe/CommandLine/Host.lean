set_option relaxedAutoImplicit false
set_option autoImplicit false

/-!
# Hosts

What a command needs of the world: files, the standard streams, and a seed that differs from run to
run. Commands are written over any host.

## Main definitions

* `CoverProbe.FileFault` — why a file cannot be used.
* `CoverProbe.Host` — the operations.
-/

namespace CoverProbe

/-- Why a file cannot be used. -/
inductive FileFault
  | notFound
  | notDirectory
  | isDirectory
  /-- Another failure, with the system's number and text. -/
  | other (code : Nat) (text : String)
deriving DecidableEq, Repr

/-- The text of a file fault. -/
def FileFault.message : FileFault → String
  | notFound => "No such file or directory (os error 2)"
  | notDirectory => "Not a directory (os error 20)"
  | isDirectory => "Is a directory (os error 21)"
  | other code text => s!"{text} (os error {code})"

/-- The operations of a host. -/
class Host (m : Type → Type) where
  currentDirectory : m String
  /-- Is there anything at a path? -/
  isPresent : (path : String) → m Bool
  /-- Is there a file at a path? -/
  isFile : (path : String) → m Bool
  readFile : (path : String) → m (Except FileFault (List UInt8))
  /-- Writes a file, in place of the one that is there. -/
  writeFile : (path : String) → (bytes : List UInt8) → m (Except FileFault Unit)
  removeFile : (path : String) → m (Except FileFault Unit)
  /-- Moves a file, in place of the one that is there. -/
  rename : (source target : String) → m (Except FileFault Unit)
  readInput : m (List UInt8)
  writeOutput : (bytes : List UInt8) → m Unit
  writeError : (text : String) → m Unit
  /-- A seed that differs from run to run. -/
  freshSeed : m UInt64

end CoverProbe
