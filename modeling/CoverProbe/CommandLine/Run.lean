import CoverProbe.CommandLine.Host
import CoverProbe.CommandLine.Path
import CoverProbe.CommandLine.Request
import CoverProbe.Json.Writer
import CoverProbe.Random.ChaCha
import CoverProbe.Random.Generator
import CoverProbe.Weave.Tree
import CoverProbe.Text.Column
import CoverProbe.Unit.Json
import CoverProbe.Unit.Listing
import CoverProbe.Unit.TreeFile
import CoverProbe.Unit.Validity

set_option relaxedAutoImplicit false
set_option autoImplicit false

/-!
# Running commands

The commands over a host. Settings come from the file named on the command line, else from the
nearest `.tracerw.toml` in the current directory or above it, else from the defaults.

## Main definitions

* `CoverProbe.CommandFault` — why a command fails.
* `CoverProbe.Commands.loadSettings` — the settings in force.
* `CoverProbe.Commands.execute` — one command.
* `CoverProbe.Commands.run` — a whole run, with its exit code.

## Implementation notes

Output is written to a new file beside the one asked for and moved there, so a failed run leaves no
half-written file under that name.
-/

namespace CoverProbe

/-! ## Faults -/

/-- Why settings cannot be loaded from a file. -/
inductive SettingsFileFault
  | unreadable (cause : FileFault)
  | encoding
  /-- The text is no TOML, or describes no settings. -/
  | invalid
  | rejected (cause : SettingsFault)
deriving DecidableEq, Repr

/-- The text of a settings-file fault. -/
def SettingsFileFault.message (path : String) : SettingsFileFault → String
  | unreadable cause => s!"lecture config {path}: {cause.message}"
  | encoding => s!"lecture config {path}: stream did not contain valid UTF-8"
  | invalid => s!"TOML invalide: {path}"
  | rejected cause => s!"config invalide: {path}: {cause.message}"

/-- Why a command fails. -/
inductive CommandFault
  /-- A file of settings is refused. -/
  | settingsFile (path : String) (cause : SettingsFileFault)
  | input (path : String) (cause : FileFault)
  | output (path : String) (cause : FileFault)
  | tree (cause : TreeFault)
  /-- A tree cannot be written as a container, or cannot be listed. -/
  | unit (cause : Fault)
  | invalidTree (cause : Fault)
  /-- The settings, with what the command line adds, are refused. -/
  | settings (cause : SettingsFault)
  | weave (cause : WeaveFault)
deriving DecidableEq, Repr

namespace CommandFault

/-- The text of a failure while a command runs. Failed weaving repeats its cause. -/
def detail : CommandFault → String
  | settingsFile path cause => cause.message path
  | input path cause => s!"ouverture: {path}: {cause.message}"
  | output path cause => s!"écriture de {path}: {cause.message}"
  | tree cause => cause.message
  | unit cause => cause.message
  | invalidTree cause => s!"arbre invalide: {cause.message}"
  | settings cause => s!"configuration rejetée: {cause.message}"
  | weave cause => s!"échec de réécriture: {cause.message}: {cause.cause.message}"

/-- The text of a failure. Settings are loaded before the command runs. -/
def message : CommandFault → String
  | settingsFile path cause => cause.message path
  | f => s!"échec d'exécution de la commande: {f.detail}"

end CommandFault

namespace Commands

/-- The version that the program answers with. -/
def version : String := "tracerw 0.1.0\n"

/-- What the program answers when asked for help. -/
def help : String :=
  "Usage: tracerw [-v] [-q] [--config FILE] <asm|rewrite|dump|verify> [options] [input]\n"

/-- The name of the file that settings are looked for in. -/
def settingsName : String := ".tracerw.toml"

/-- The settings that the bytes of a file describe. -/
def settingsOf (bs : List UInt8) : Except SettingsFileFault Settings :=
  match Utf8.decode bs with
  | .error _ => .error .encoding
  | .ok text =>
    match Settings.ofToml? text with
    | none => .error .invalid
    | some s =>
      match s.validate with
      | .ok () => .ok s
      | .error cause => .error (.rejected cause)

/-- The lines of a report, one for each unit. -/
def reportText (report : WeaveReport) : String :=
  String.join (report.units.map fun u =>
    s!"{Column.left 40 u.path} {Column.right 5 (toString u.probes)} / " ++
      s!"{Column.left 5 (toString u.candidates)} {Column.right 7 (toString u.bytesBefore)} -> " ++
      s!"{Column.left 7 (toString u.bytesAfter)}\n")

/-- The settings with what the command line adds to them. -/
def overridden (s : Settings) (request : WeaveRequest) : Settings :=
  { s with
    candidates := request.candidates.getD s.candidates
    sampling := request.sampling.getD s.sampling }

/-- The text that shows a tree. -/
def shown (sign : SignConvention) (json : Bool) (root : CodeUnit) : Except Fault String := do
  if json then return root.toJson.pretty ++ "\n"
  else return (← root.treeListing .standard sign) ++ "\n"

variable {m : Type → Type} [Monad m] [Host m]

/-- A command under way. -/
abbrev Run (m : Type → Type) := ExceptT CommandFault m

/-- The result of a computation that needs no host. -/
def pureRun {ε α : Type} (fault : ε → CommandFault) (result : Except ε α) : Run m α :=
  ExceptT.mk (pure (result.mapError fault))

/-- The result of an operation on a file. -/
def fileRun {α : Type} (fault : FileFault → CommandFault) (operation : m (Except FileFault α)) :
    Run m α :=
  ExceptT.mk (Except.mapError fault <$> operation)

/-! ## Settings -/

/-- The settings in a file. -/
def readSettings (path : String) : Run m Settings := do
  let bs ← fileRun (fun cause => .settingsFile path (.unreadable cause)) (Host.readFile path)
  pureRun (.settingsFile path) (settingsOf bs)

/-- The first of the directories that holds a file of settings. -/
def findSettings : List String → m (Option String)
  | [] => pure none
  | directory :: outer => do
    let path := Path.join directory settingsName
    if ← Host.isFile path then return some path else findSettings outer

/-- The settings in force. -/
def loadSettings (named : Option String) : Run m Settings := do
  match named with
  | some path => readSettings path
  | none =>
    let directory ← (Host.currentDirectory : m String)
    match ← (findSettings (Path.upward directory) : m (Option String)) with
    | some path => readSettings path
    | none => return {}

/-! ## Files -/

/-- The bytes of the input; a hyphen, or no name, is the standard input. -/
def readInput (input : Option String) : Run m (List UInt8) := do
  match input.filter (· ≠ "-") with
  | none => (Host.readInput : m (List UInt8))
  | some path => fileRun (.input path) (Host.readFile path)

/-- A free name in a directory: the given one with a number, counted from `number`. `fuel` bounds
the numbers tried. -/
def freeName (directory name : String) : (fuel number : Nat) → m String
  | 0, number => pure (Path.join directory s!"{name}.tmp{number}")
  | fuel + 1, number => do
    let path := Path.join directory s!"{name}.tmp{number}"
    if ← Host.isPresent path then freeName directory name fuel (number + 1) else return path

/-- Copies a file and removes the source. -/
def moveByCopy (source target : String) : m (Except FileFault Unit) := ExceptT.run do
  let bs ← ExceptT.mk (Host.readFile source)
  ExceptT.mk (Host.writeFile target bs)
  ExceptT.mk (Host.removeFile source)

/-- Writes a file under a free name beside it and moves it into place. -/
def replaceFile (path : String) (bs : List UInt8) : m (Except FileFault Unit) := do
  let fresh ← freeName (Path.parent path) (Path.fileName path) 4294967295 0
  match ← Host.writeFile fresh bs with
  | .error cause => return .error cause
  | .ok () =>
    if ← Host.isPresent path then
      let _ ← Host.removeFile path
    match ← Host.rename fresh path with
    | .ok () => return .ok ()
    | .error _ => moveByCopy fresh path

/-- Writes the output to a file or to the standard output. -/
def writeOutput (output : Option String) (bs : List UInt8) : Run m Unit := do
  match output with
  | none => (Host.writeOutput bs : m Unit)
  | some path => fileRun (.output path) (replaceFile path bs)

/-! ## Commands -/

/-- The tree in the input. -/
def loadTree (s : Settings) (input : Option String) : Run m CodeUnit := do
  let bs ← readInput input
  pureRun .tree (TreeFile.read s.sign bs)

/-- Turns assembly text into a container. -/
def assemble (s : Settings) (input output : Option String) : Run m Unit := do
  let bs ← readInput input
  let root ← pureRun .tree (TreeFile.assemble s.sign bs)
  writeOutput output (← pureRun .unit (Container.encode root))

/-- Puts probes into a tree. -/
def weave (s : Settings) (request : WeaveRequest) : Run m Unit := do
  let chosen := overridden s request
  pureRun .settings chosen.validate
  let root ← loadTree s request.input
  let seed ←
    match request.seed with
    | some seed => pure seed
    | none => (Host.freshSeed : m UInt64)
  let weaver : Weaver ChaCha := chosen.weaver .standard
  let outcome := ((weaver.treeWithReport root (!request.nested)).run (ChaCha.ofSeed seed)).1
  let (result, report) ← pureRun .weave outcome
  writeOutput request.output (← pureRun .unit (Container.encode result))
  if request.report then (Host.writeError (reportText report) : m Unit)

/-- Shows a tree. -/
def dump (s : Settings) (input : Option String) (json : Bool) : Run m Unit := do
  let root ← loadTree s input
  let text ← pureRun .unit (shown s.sign json root)
  (Host.writeOutput (Utf8.encode text) : m Unit)

/-- Looks for faults in a tree. -/
def verify (s : Settings) (input : Option String) : Run m Unit := do
  let root ← loadTree s input
  pureRun .invalidTree (root.validateTree .standard s.sign)
  (Host.writeOutput (Utf8.encode s!"OK {root.treeLength} unit(s)\n") : m Unit)

/-- Runs a command. -/
def execute (s : Settings) : Command → Run m Unit
  | .assemble input output => assemble s input output
  | .weave request => weave s request
  | .dump input json => dump s input json
  | .verify input => verify s input

/-- Loads the settings and runs a command. -/
def serve (named : Option String) (command : Command) : Run m Unit := do
  execute (← loadSettings named) command

/-- A whole run and its exit code: zero if all went well, one if the command failed, two if the
arguments are not understood. -/
def run (args : List String) : m UInt32 := do
  match Request.parse args with
  | none =>
    Host.writeError help
    return 2
  | some .version =>
    Host.writeOutput (Utf8.encode version)
    return 0
  | some .help =>
    Host.writeOutput (Utf8.encode help)
    return 0
  | some (.run named command) =>
    match ← (serve named command).run with
    | .ok () => return 0
    | .error f =>
      Host.writeError s!"error: {f.message}\n"
      return 1

end Commands

end CoverProbe
