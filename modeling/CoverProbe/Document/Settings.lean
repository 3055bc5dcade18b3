import CoverProbe.Document.Basic
import CoverProbe.Weave.Settings
import CoverProbe.Toml.Reader

set_option relaxedAutoImplicit false
set_option autoImplicit false

/-!
# Settings in a document

Settings are a table with the keys `candidates`, `sampling`, `probe-entry`, `mark-top-level`,
`top-level` and `sign`; what is not said keeps its default, and no other key is allowed. They may
also be a list of the values in that order.

A choice is a name, or a table whose only key is the name and whose value is empty. `sampling` is a
table whose key `mode` names the mode and which may hold more than the mode needs, or a list of the
mode and what it needs.

## Main definitions

* `CoverProbe.Settings.ofDocument?` — the settings that a document describes.
* `CoverProbe.Settings.ofJson?`, `CoverProbe.Settings.ofToml?` — the settings of a JSON value and of
  a TOML text.
-/

namespace CoverProbe

/-! ## Names -/

/-- The names of the candidate policies. -/
def CandidatePolicy.names : List (String × CandidatePolicy) :=
  [("distinct-lines", .distinctLines), ("line-starts", .lineStarts),
    ("block-leaders", .blockLeaders)]

/-- The names of the top-level policies. -/
def TopLevelPolicy.names : List (String × TopLevelPolicy) :=
  [("full", .full), ("entry-only", .entryOnly)]

/-- The names of the sign conventions. -/
def SignConvention.names : List (String × SignConvention) :=
  [("signed", .signed), ("unsigned", .unsigned)]

namespace Settings

/-- The keys of settings, in their order. -/
def keys : List String :=
  ["candidates", "sampling", "probe-entry", "mark-top-level", "top-level", "sign"]

/-! ## Reading -/

/-- The choice that a value names. `isEmpty` says which values are empty. -/
def choice? {α : Type} (isEmpty : Document → Bool) (names : List (String × α)) :
    Document → Option α
  | .text name => names.lookup name
  | .table [(name, payload)] => if isEmpty payload then names.lookup name else none
  | _ => none

/-- The truth value of a document. -/
def bool? : Document → Option Bool
  | .bool b => some b
  | _ => none

/-- The sampling in a table with the key `mode`. -/
def samplingOfTable? (members : List (String × Document)) : Option Sampling := do
  let number (name : String) : Option Binary64 :=
    (Document.member? members name).bind Document.number?
  match ← Document.member? members "mode" with
  | .text "all" => return .all
  | .text "bernoulli" => return .bernoulli (← number "keep")
  | .text "density" => return .density (← number "min") (← number "max")
  | _ => none

/-- The sampling in a list that begins with the mode. -/
def samplingOfList? : List Document → Option Sampling
  | [.text "all"] => some .all
  | [.text "bernoulli", keep] => keep.number?.map .bernoulli
  | [.text "density", low, high] => do return .density (← low.number?) (← high.number?)
  | _ => none

/-- The sampling of a document. -/
def sampling? : Document → Option Sampling
  | .table members => samplingOfTable? members
  | .list items => samplingOfList? items
  | _ => none

/-- The settings whose values `field?` yields, by key; where it yields none, the default holds. -/
def ofFields? (isEmpty : Document → Bool) (field? : String → Option Document) :
    Option Settings := do
  let defaults : Settings := {}
  let read {α : Type} (name : String) (default : α) (value? : Document → Option α) : Option α :=
    match field? name with
    | some value => value? value
    | none => some default
  return {
    candidates := ← read "candidates" defaults.candidates (choice? isEmpty CandidatePolicy.names)
    sampling := ← read "sampling" defaults.sampling sampling?
    probeEntry := ← read "probe-entry" defaults.probeEntry bool?
    markTopLevel := ← read "mark-top-level" defaults.markTopLevel bool?
    topLevel := ← read "top-level" defaults.topLevel (choice? isEmpty TopLevelPolicy.names)
    sign := ← read "sign" defaults.sign (choice? isEmpty SignConvention.names) }

/-- The settings that a document describes. `isEmpty` says which values are empty. -/
def ofDocument? (isEmpty : Document → Bool) : Document → Option Settings
  | .table members => do
    guard (members.all fun (name, _) => keys.contains name)
    ofFields? isEmpty (Document.member? members)
  | .list items => do
    guard (items.length ≤ keys.length)
    ofFields? isEmpty (Document.member? (keys.zip items))
  | _ => none

/-- The settings that a JSON value describes. -/
def ofJson? (j : Json) : Option Settings := do
  let isEmpty : Document → Bool := fun
    | .null => true
    | _ => false
  ofDocument? isEmpty (← Document.ofJson? j)

/-- The settings that a TOML text describes. -/
def ofToml? (text : String) : Option Settings := do
  let isEmpty : Document → Bool := fun
    | .list [] | .table [] => true
    | _ => false
  ofDocument? isEmpty (← Toml.parse? text)

end Settings

end CoverProbe
