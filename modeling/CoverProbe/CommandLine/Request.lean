import CoverProbe.Decimal.Reading
import CoverProbe.Document.Settings

set_option relaxedAutoImplicit false
set_option autoImplicit false

/-!
# Requests

What the arguments of a command line ask for.

Arguments are read from left to right at two levels: before the command and behind it. Options begin
with a hyphen; a lone hyphen is a plain word, and behind two hyphens all arguments are. An option
takes its value behind an equals sign or from the next argument, which must not look like an option.
At each level an option with a value, and a flag other than the one for verbosity, stands at most
once.

## Main definitions

* `CoverProbe.Command` — the commands and what is told to them.
* `CoverProbe.Request` — a command, or a question about the program itself.
* `CoverProbe.Request.parse` — the request of a list of arguments.
-/

namespace CoverProbe

/-! ## Commands -/

/-- What is told to the command that weaves. -/
structure WeaveRequest where
  input : Option String := none
  output : Option String := none
  seed : Option UInt64 := none
  /-- Is the root nested in a module, not a module itself? -/
  nested : Bool := false
  candidates : Option CandidatePolicy := none
  sampling : Option Sampling := none
  report : Bool := false

/-- The commands and what is told to them. -/
inductive Command
  /-- Turns assembly text into a container. -/
  | assemble (input output : Option String)
  /-- Puts probes into a tree. -/
  | weave (request : WeaveRequest)
  /-- Shows a tree. -/
  | dump (input : Option String) (json : Bool)
  /-- Looks for faults in a tree. -/
  | verify (input : Option String)

/-- What a command line asks for. -/
inductive Request
  | run (config : Option String) (command : Command)
  | version
  | help

/-- Why reading of the arguments stops before their end. -/
inductive Stop
  /-- The arguments are not understood. -/
  | usage
  | version
  | help
deriving DecidableEq

namespace Request

/-! ## Options -/

/-- The names of the commands. -/
inductive Verb
  | assemble
  | weave
  | dump
  | verify
deriving DecidableEq

/-- Options without a value. -/
inductive Flag
  | verbose
  | quiet
  | nested
  | all
  | report
  | json
  | help
  | version
deriving DecidableEq

/-- Options with a value. -/
inductive Setting
  | config
  | output
  | seed
  | candidates
  | keep
deriving DecidableEq

/-- An option of either kind. -/
inductive Choice
  | flag (f : Flag)
  | setting (s : Setting)

/-- The options of a level with their long names; `none` is the level before the command. -/
def longNames (verb : Option Verb) : List (String × Choice) :=
  let shared := [("verbose", .flag .verbose), ("quiet", .flag .quiet), ("help", .flag .help),
    ("config", .setting .config)]
  match verb with
  | none => ("version", .flag .version) :: shared
  | some .assemble => ("output", .setting .output) :: shared
  | some .weave =>
    [("output", .setting .output), ("seed", .setting .seed), ("nested", .flag .nested),
      ("candidates", .setting .candidates), ("all", .flag .all), ("keep", .setting .keep),
      ("report", .flag .report)] ++ shared
  | some .dump => ("json", .flag .json) :: shared
  | some .verify => shared

/-- The options of a level with their short names. -/
def shortNames (verb : Option Verb) : List (Char × Choice) :=
  let shared := [('v', .flag .verbose), ('q', .flag .quiet), ('h', .flag .help)]
  match verb with
  | none => ('V', .flag .version) :: shared
  | some .assemble | some .weave => ('o', .setting .output) :: shared
  | some .dump | some .verify => shared

/-- The commands by name. -/
def verbs : List (String × Verb) :=
  [("asm", .assemble), ("rewrite", .weave), ("dump", .dump), ("verify", .verify)]

/-! ## Levels -/

/-- What was said at one level. -/
structure Level where
  flags : List Flag := []
  config : Option String := none
  output : Option String := none
  seed : Option UInt64 := none
  candidates : Option CandidatePolicy := none
  keep : Option Binary64 := none
  input : Option String := none

namespace Level

/-- Puts a value where none is yet. -/
def once {α : Type} (old : Option α) (value? : Option α) : Except Stop (Option α) :=
  match old, value? with
  | none, some value => .ok (some value)
  | _, _ => .error .usage

/-- A path, which is not empty. -/
def path? (text : String) : Option String :=
  if text.isEmpty then none else some text

/-- The level after one more flag. -/
def raise (l : Level) : Flag → Except Stop Level
  | .help => .error .help
  | .version => .error .version
  | .verbose => .ok l
  | flag => if l.flags.contains flag then .error .usage else .ok { l with flags := flag :: l.flags }

/-- The level after one more option with a value. -/
def assign (l : Level) (setting : Setting) (text : String) : Except Stop Level := do
  match setting with
  | .config => return { l with config := ← once l.config (path? text) }
  | .output => return { l with output := ← once l.output (path? text) }
  | .seed => return { l with seed := ← once l.seed (Decimal.longWord text.toList).toOption }
  | .candidates =>
    return { l with candidates := ← once l.candidates (CandidatePolicy.names.lookup text) }
  | .keep => return { l with keep := ← once l.keep (Decimal.float text.toList).toOption }

/-- The level after a plain word. -/
def name (l : Level) (text : String) : Except Stop Level := do
  return { l with input := ← once l.input (path? text) }

end Level

/-! ## Arguments -/

/-- Does the argument look like an option? -/
def isOption (arg : String) : Bool :=
  match arg.toList with
  | '-' :: _ :: _ => true
  | _ => false

/-- What one argument leads to. -/
inductive Reaction
  /-- It is complete. -/
  | done (l : Level)
  /-- Its last option takes the next argument for a value. -/
  | wanting (l : Level) (setting : Setting)

/-- Reads the text behind two hyphens. -/
def long (verb : Option Verb) (l : Level) (text : List Char) : Except Stop Reaction := do
  let name := String.ofList (text.takeWhile (· ≠ '='))
  match (longNames verb).lookup name, text.dropWhile (· ≠ '=') with
  | some (.flag flag), [] => return .done (← l.raise flag)
  | some (.setting setting), [] => return .wanting l setting
  | some (.setting setting), _ :: value => return .done (← l.assign setting (String.ofList value))
  | _, _ => throw .usage

/-- Reads the letters behind one hyphen. The letters behind one that takes a value are that value,
and an equals sign before them is left out. -/
def short (verb : Option Verb) (l : Level) : List Char → Except Stop Reaction
  | [] => .ok (.done l)
  | c :: rest =>
    match (shortNames verb).lookup c with
    | some (.flag flag) => do
      let l ← l.raise flag
      short verb l rest
    | some (.setting setting) =>
      match rest with
      | [] => .ok (.wanting l setting)
      | '=' :: value => return .done (← l.assign setting (String.ofList value))
      | value => return .done (← l.assign setting (String.ofList value))
    | none => .error .usage

/-- Reads an argument that looks like an option. -/
def option (verb : Option Verb) (l : Level) (arg : String) : Except Stop Reaction :=
  match arg.toList with
  | '-' :: '-' :: text => long verb l text
  | '-' :: letters => short verb l letters
  | _ => .error .usage

/-- Reads the arguments behind a command. -/
def inner (verb : Verb) (l : Level) : List String → Except Stop Level
  | [] => .ok l
  | arg :: rest =>
    if arg = "--" then rest.foldlM Level.name l
    else if isOption arg then do
      match ← option (some verb) l arg with
      | .done l => inner verb l rest
      | .wanting l setting =>
        match rest with
        | value :: rest =>
          if isOption value then throw .usage
          else do
            let l ← l.assign setting value
            inner verb l rest
        | [] => throw .usage
    else do
      let l ← l.name arg
      inner verb l rest

/-- Reads all arguments: the level before the command, the command, and the level behind it. -/
def outer (l : Level) : List String → Except Stop (Level × Verb × Level)
  | [] => .error .usage
  | arg :: rest =>
    if arg = "--" then .error .usage
    else if isOption arg then do
      match ← option none l arg with
      | .done l => outer l rest
      | .wanting l setting =>
        match rest with
        | value :: rest =>
          if isOption value then throw .usage
          else do
            let l ← l.assign setting value
            outer l rest
        | [] => throw .usage
    else if arg = "help" then
      match rest with
      | [] => .error .help
      | [name] => .error (if name = "help" ∨ (verbs.lookup name).isSome then .help else .usage)
      | _ => .error .usage
    else
      match verbs.lookup arg with
      | some verb => do return (l, verb, ← inner verb {} rest)
      | none => .error .usage

/-- The sampling asked for. All candidates and a probability exclude each other. -/
def samplingOf (l : Level) : Except Stop (Option Sampling) :=
  if l.flags.contains .all then if l.keep.isSome then .error .usage else .ok (some .all)
  else .ok (l.keep.map .bernoulli)

/-- The command of a level. -/
def commandOf (verb : Verb) (l : Level) : Except Stop Command := do
  match verb with
  | .assemble => return .assemble l.input l.output
  | .weave =>
    let sampling ← samplingOf l
    return .weave { l with
      sampling, nested := l.flags.contains .nested, report := l.flags.contains .report }
  | .dump => return .dump l.input (l.flags.contains .json)
  | .verify => return .verify l.input

/-- The request of a list of arguments, unless they are not understood. A configuration named behind
the command is preferred. -/
def parse (args : List String) : Option Request :=
  let found : Except Stop Request := do
    let (before, verb, behind) ← outer {} args
    let command ← commandOf verb behind
    return .run (behind.config.orElse fun _ => before.config) command
  match found with
  | .ok request => some request
  | .error .version => some .version
  | .error .help => some .help
  | .error .usage => none

end Request

end CoverProbe
