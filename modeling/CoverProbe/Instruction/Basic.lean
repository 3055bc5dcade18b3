import CoverProbe.Fault

set_option relaxedAutoImplicit false
set_option autoImplicit false

/-!
# Instructions

A decoded instruction, the class that says what happens to it when code moves, and the capability
through which every analysis of this library looks at instructions.

## Main definitions

* `CoverProbe.Instruction` — one decoded instruction with its position and source line.
* `CoverProbe.OpClass` — what moving code means for an instruction.
* `CoverProbe.InstructionSet` — a decoder, an encoder and the facts about single instructions.
* `CoverProbe.InstructionSet.encodeAll` — the bytes of a list of instructions.

## Implementation notes

Offsets, operands and lines are 32-bit words. Widths and jump targets are natural numbers: a target
may lie beyond every offset that a word can name.
-/

namespace CoverProbe

/-- One decoded instruction. -/
structure Instruction where
  opcode : UInt8
  arg : Option UInt32
  /-- Byte offset in its stream. -/
  offset : UInt32
  /-- Source line, zero until attributed. -/
  line : UInt32
deriving DecidableEq, Repr

namespace Instruction

/-- The instruction moved to an offset and a line. -/
def place (i : Instruction) (offset line : UInt32) : Instruction :=
  { i with offset, line }

end Instruction

/-! ## Classes -/

/-- How a jump's operand names its target. -/
inductive JumpKind
  /-- The operand is the target's offset. -/
  | absolute
  /-- The operand is the distance from the end of the jump. -/
  | relative
deriving DecidableEq, Repr

/-- What moving code means for an instruction. -/
inductive OpClass
  /-- The operand does not depend on offsets. -/
  | plain
  /-- The operand must follow its target. -/
  | jump (kind : JumpKind)
  /-- The instruction must stay in the prologue of its unit. -/
  | pinned
  /-- The target is computed at run time and cannot be followed. -/
  | indirect
deriving DecidableEq, Repr

namespace OpClass

/-- Is this a jump whose target is known? -/
def isJump : OpClass → Bool
  | jump _ => true
  | _ => false

/-- The target of an instruction of this class that ends at `stop` and has operand `arg`. -/
def target (cls : OpClass) (stop : Nat) (arg : Option UInt32) : Option Nat :=
  match cls, arg with
  | jump .absolute, some a => some a.toNat
  | jump .relative, some a => some (stop + a.toNat)
  | _, _ => none

end OpClass

/-- A reference to a slot of the constant pool. -/
structure ConstantOperand where
  slot : UInt32
  /-- Must the slot hold a nested unit? -/
  expectsUnit : Bool
deriving DecidableEq, Repr

/-! ## Instruction sets -/

/-- A decoder, an encoder and the facts about single instructions of a bytecode dialect. -/
structure InstructionSet where
  /-- The instructions of a stream, with line zero. -/
  decode : List UInt8 → Except Fault (List Instruction)
  /-- The bytes of an instruction. -/
  encode : Instruction → Except Fault (List UInt8)
  /-- The number of bytes that an instruction takes. -/
  width : Instruction → Nat
  classOf : Instruction → OpClass
  /-- The probe that carries a token. -/
  probe : UInt32 → Instruction
  /-- Is this one of the instructions that `probe` makes? -/
  isProbe : Instruction → Bool
  /-- The name of an opcode. -/
  mnemonic : UInt8 → String
  /-- The pool slot that an operand names, if it names one. -/
  constantOperand : Instruction → Option ConstantOperand := fun _ => none
  /-- The offset that a jump leads to. -/
  jumpTarget : Instruction → Option Nat :=
    fun i => (classOf i).target (i.offset.toNat + width i) i.arg

namespace InstructionSet

/-- The bytes of a list of instructions. -/
def encodeAll (isa : InstructionSet) (insns : List Instruction) : Except Fault (List UInt8) := do
  return (← insns.mapM isa.encode).flatten

end InstructionSet

end CoverProbe
