import CoverProbe.Instruction.Standard

set_option relaxedAutoImplicit false
set_option autoImplicit false

/-!
# Variants of the standard instruction set

A variant keeps the encoding and the names of the standard set and changes what analyses see of
single instructions: widths, classes, the probe. It models dialects in which an instruction's width
depends on its operand, or in which other opcodes jump. A variant names no pool slots.

## Main definitions

* `CoverProbe.Variant` — the changes.
* `CoverProbe.Variant.instructionSet` — the standard set with the changes made.
-/

namespace CoverProbe

/-- Changes to what the standard set says of single instructions. -/
structure Variant where
  /-- Widths in place of the standard ones. -/
  width? : Opcode → Option Nat := fun _ => none
  /-- Classes in place of the standard ones. -/
  class? : Opcode → Option OpClass := fun _ => none
  /-- Bytes that a jump takes in addition when its operand exceeds 255. -/
  wideJump : Nat := 0
  /-- Another probe: its opcode, and whether the token is its operand. -/
  probe? : Option (UInt8 × Bool) := none

namespace Variant

/-- The class of an instruction in a variant. -/
def classOf (v : Variant) (i : Instruction) : OpClass :=
  ((Opcode.ofByte? i.opcode).bind v.class?).getD (Standard.classOf i)

/-- The number of bytes that an instruction takes in a variant. -/
def width (v : Variant) (i : Instruction) : Nat :=
  ((Opcode.ofByte? i.opcode).bind v.width?).getD (Standard.width i) +
    if (v.classOf i).isJump ∧ i.arg.any (255 < ·) then v.wideJump else 0

/-- The probe of a variant. -/
def probe (v : Variant) (token : UInt32) : Instruction :=
  match v.probe? with
  | some (opcode, withToken) => ⟨opcode, if withToken then some token else none, 0, 0⟩
  | none => Standard.probe token

/-- Is this a probe of the variant? -/
def isProbe (v : Variant) (i : Instruction) : Bool :=
  match v.probe? with
  | some (opcode, _) => i.opcode = opcode
  | none => Standard.isProbe i

/-- The standard set with the changes of a variant made. -/
def instructionSet (v : Variant) : InstructionSet where
  decode := Standard.decodeFrom 0
  encode := Standard.encode
  width := v.width
  classOf := v.classOf
  probe := v.probe
  isProbe := v.isProbe
  mnemonic := Standard.mnemonic

end Variant

end CoverProbe
