import CoverProbe.CommandLine.Run

set_option relaxedAutoImplicit false
set_option autoImplicit false

/-!
# The program

The commands over the files and streams of the system.
-/

namespace CoverProbe.System

/-- The system's number of a failure. Some operations report it as a negative word. -/
def number (code : UInt32) : Nat :=
  if code < 0x80000000 then code.toNat else (0 - code).toNat

/-- The fault that the system's number and text describe. -/
def faultOf (code : UInt32) (text : String) : FileFault :=
  match number code with
  | 2 => .notFound
  | 20 => .notDirectory
  | 21 => .isDirectory
  | n => .other n text

/-- The fault that an exception describes. -/
def fault : IO.Error → FileFault
  | .noFileOrDirectory _ code text => faultOf code text
  | .inappropriateType _ code text => faultOf code text
  | .permissionDenied _ code text => faultOf code text
  | .alreadyExists _ code text => faultOf code text
  | .invalidArgument _ code text => faultOf code text
  | .resourceExhausted _ code text => faultOf code text
  | .noSuchThing _ code text => faultOf code text
  | .otherError code text => faultOf code text
  | e => .other 0 (toString e)

/-- The result of an action on a file. -/
def attempt {α : Type} (action : IO α) : IO (Except FileFault α) := do
  try
    return .ok (← action)
  catch e =>
    return .error (fault e)

/-- Does an action succeed? -/
def succeeds {α : Type} (action : IO α) : IO Bool := do
  return (← attempt action).toBool

/-- The bytes of a stream up to its end, behind those in `found`. -/
partial def readAll (stream : IO.FS.Stream) (found : ByteArray) : IO ByteArray := do
  let chunk ← stream.read 65536
  if chunk.isEmpty then return found else readAll stream (found ++ chunk)

/-- The host that the system is. -/
instance : Host IO where
  currentDirectory := do return toString (← IO.currentDir)
  isPresent path := succeeds (IO.FS.Handle.mk path .read)
  isFile path := succeeds (IO.FS.readBinFile path)
  readFile path := attempt do return (← IO.FS.readBinFile path).data.toList
  writeFile path bytes := attempt (IO.FS.writeBinFile path ⟨bytes.toArray⟩)
  removeFile path := attempt (IO.FS.removeFile path)
  rename source target := attempt (IO.FS.rename source target)
  readInput := do return (← readAll (← IO.getStdin) .empty).data.toList
  writeOutput bytes := do
    let stream ← IO.getStdout
    stream.write ⟨bytes.toArray⟩
    stream.flush
  writeError text := do (← IO.getStderr).putStr text
  freshSeed := do
    let bytes ← IO.getRandomBytes 8
    return UInt64.ofNat (Word.value bytes.data.toList)

end CoverProbe.System

/-- Runs the command line. -/
def main (args : List String) : IO UInt32 :=
  CoverProbe.Commands.run args
