import CoverProbe.Assembly.Builder
import CoverProbe.Assembly.Statement
import CoverProbe.Instruction.Standard

set_option relaxedAutoImplicit false
set_option autoImplicit false

/-!
# Assembly text

A source text describes one tree of units for the standard instruction set. Units nest like
brackets: `.unit` opens one, `.end` closes it and puts it into the next slot of the unit around it.

## Main definitions

* `CoverProbe.SourceFault` — the first line that is refused, and why.
* `CoverProbe.Assembly` — the units that are open, and the root once it is closed.
* `CoverProbe.Source.assemble` — the tree of a text.
-/

namespace CoverProbe

/-- Why a source text is refused. -/
structure SourceFault where
  /-- The line at which it is, counted from one; zero if no line is to blame. -/
  line : Nat
  cause : SyntaxFault
deriving DecidableEq, Repr

/-- The text of a source fault. -/
def SourceFault.message (f : SourceFault) : String :=
  s!"asm line {f.line}: {f.cause.message}"

/-- An open unit, with the source line of its next instruction. -/
structure OpenUnit where
  builder : Builder
  line : UInt32

namespace OpenUnit

/-- The unit after one more clause. -/
def say (u : OpenUnit) : Clause → Except SyntaxFault OpenUnit
  | .constant value => .ok { u with builder := u.builder.addConstant value }
  | .label name =>
    match u.builder.label name with
    | (.ok (), builder) => .ok { u with builder }
    | (.error cause, _) => .error (.unit cause)
  | .line number => .ok { u with line := number }
  | .plain op arg => .ok { u with builder := u.builder.emit u.line op.byte arg }
  | .jump op name => .ok { u with builder := u.builder.jump u.line op.byte name }
  | .malformed cause => .error cause

end OpenUnit

/-- The part of a tree that a text has described so far. -/
inductive Assembly
  /-- The units that are open, the innermost first. -/
  | within (units : List OpenUnit)
  /-- The root is closed. -/
  | complete (root : CodeUnit)

namespace Assembly

/-- The part described after one more statement. -/
def say (sign : SignConvention) : Assembly → Statement → Except SyntaxFault Assembly
  | complete _, _ => .error .contentAfterEnd
  | within units, .open (.ok (name, firstLine)) =>
    .ok (within (⟨{ name, firstLine, sign }, firstLine⟩ :: units))
  | within _, .open (.error cause) => .error cause
  | within [], .close => .error .endOutside
  | within (u :: outer), .close =>
    match u.builder.finish .standard, outer with
    | .error cause, _ => .error (.unit cause)
    | .ok root, [] => .ok (complete root)
    | .ok nested, parent :: above =>
      .ok (within ({ parent with builder := parent.builder.addConstant (.unit nested) } :: above))
  | within [], .body _ => .error .outside
  | within (u :: outer), .body clauses => do
    let u ← clauses.foldlM OpenUnit.say u
    return within (u :: outer)

end Assembly

namespace Source

/-- The part described after the lines `lines`, the first of which has number `number`. -/
def readLines (sign : SignConvention) (number : Nat) (part : Assembly) :
    List (List Char) → Except SourceFault Assembly
  | [] => .ok part
  | line :: rest =>
    let text := Text.trim (Literal.withoutComment false line)
    if text = [] then readLines sign (number + 1) part rest
    else
      match part.say sign (.ofLine text) with
      | .ok part => readLines sign (number + 1) part rest
      | .error cause => .error ⟨number, cause⟩

/-- The tree that a source text describes, its line tables written by `sign`. -/
def assemble (sign : SignConvention) (source : String) : Except SourceFault CodeUnit := do
  let lines := Text.lines source.toList
  match ← readLines sign 1 (.within []) lines with
  | .complete root => return root
  | .within [] => throw ⟨0, .noUnit⟩
  | .within (_ :: _) => throw ⟨lines.length, .missingEnd⟩

end Source

end CoverProbe
