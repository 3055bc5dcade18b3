import CoverProbe.Assembly.Source
import CoverProbe.Text.Utf8
import CoverProbe.Unit.Container

set_option relaxedAutoImplicit false
set_option autoImplicit false

/-!
# Tree files

A tree of units is kept in a file as a container or as assembly text. A file is taken for a
container if it begins like one.

## Main definitions

* `CoverProbe.TreeFault` — why a file holds no tree.
* `CoverProbe.TreeFile.read` — the tree in a file of either kind.
* `CoverProbe.TreeFile.assemble` — the tree in a file of assembly text.
-/

namespace CoverProbe

/-- Why a file holds no tree. -/
inductive TreeFault
  | container (cause : Fault)
  | source (cause : SourceFault)
  /-- The bytes of a source are no text. -/
  | encoding (cause : Utf8Fault)
  /-- The bytes are neither a container nor text. -/
  | neither
deriving DecidableEq, Repr

/-- The text of a tree fault. -/
def TreeFault.message : TreeFault → String
  | container cause => s!"conteneur illisible: {cause.message}"
  | source cause => s!"échec d'assemblage: {cause.message}"
  | encoding cause => s!"source assembleur non UTF-8: {cause.message}"
  | neither => "ni conteneur TRUT ni source UTF-8"

namespace TreeFile

/-- Do the bytes begin like a container? -/
def isContainer (bs : List UInt8) : Bool :=
  Container.magic.isPrefixOf bs

/-- The tree in a file of either kind. `sign` says how the line tables of a source are written. -/
def read (sign : SignConvention) (bs : List UInt8) : Except TreeFault CodeUnit :=
  if isContainer bs then (Container.decode bs).mapError .container
  else
    match Utf8.decode bs with
    | .ok text => (Source.assemble sign text).mapError .source
    | .error _ => .error .neither

/-- The tree in a file of assembly text. -/
def assemble (sign : SignConvention) (bs : List UInt8) : Except TreeFault CodeUnit := do
  let text ← (Utf8.decode bs).mapError .encoding
  (Source.assemble sign text).mapError .source

end TreeFile

end CoverProbe
