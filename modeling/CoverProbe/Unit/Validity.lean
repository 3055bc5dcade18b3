import CoverProbe.Unit.PostOrder

set_option relaxedAutoImplicit false
set_option autoImplicit false

/-!
# Validity of units

A unit is valid if its code and its line table decode, every line starts at an instruction, every
jump leads to an instruction or to the end of the code, and every operand that names a constant
names one that is there, a nested unit where one is needed. An empty code may have a line start at
offset zero.

## Main definitions

* `CoverProbe.CodeUnit.validate` — the first fault of a unit, if it has one.
* `CoverProbe.CodeUnit.validateTree` — the first fault of a tree, nested units first.
-/

namespace CoverProbe

namespace Validity

/-- Is this the offset of an instruction? -/
def isBoundary (insns : List Instruction) (offset : Nat) : Bool :=
  insns.any (·.offset.toNat = offset)

/-- Refuses a line start that is not at an instruction. -/
def checkStart (u : CodeUnit) (insns : List Instruction) (s : LineStart) : Except Fault Unit :=
  if isBoundary insns s.offset.toNat || (insns.isEmpty && s.offset = 0) then .ok ()
  else .error (.corrupt (.lineOffBoundary u.name s.line s.offset))

/-- Refuses a jump that leads neither to an instruction nor to the end. -/
def checkTarget (isa : InstructionSet) (u : CodeUnit) (insns : List Instruction)
    (i : Instruction) : Except Fault Unit :=
  match isa.jumpTarget i with
  | none => .ok ()
  | some target =>
    if target = u.code.length || isBoundary insns target then .ok ()
    else .error (.corrupt (.jumpOffBoundary u.name (isa.mnemonic i.opcode) i.offset target))

/-- Refuses an operand that names no constant, or not the kind of constant that it needs. -/
def checkConstant (isa : InstructionSet) (u : CodeUnit) (i : Instruction) : Except Fault Unit :=
  match isa.constantOperand i with
  | none => .ok ()
  | some operand =>
    match Pool.get? u.consts operand.slot with
    | none =>
      .error (.corrupt (.slotOutOfRange u.name (isa.mnemonic i.opcode) i.offset operand.slot
        u.consts.length))
    | some c =>
      if operand.expectsUnit && c.unit?.isNone then
        .error (.corrupt (.unitExpected u.name (isa.mnemonic i.opcode) i.offset operand.slot))
      else .ok ()

/-- Refuses an instruction for its target or its constant. -/
def checkInstruction (isa : InstructionSet) (u : CodeUnit) (insns : List Instruction)
    (i : Instruction) : Except Fault Unit := do
  checkTarget isa u insns i
  checkConstant isa u i

end Validity

namespace CodeUnit

/-- The first fault of a unit; nested units are not looked at. -/
def validate (isa : InstructionSet) (sign : SignConvention) (u : CodeUnit) :
    Except Fault Unit := do
  let insns ← isa.decode u.code
  let starts ← u.lineStarts sign
  starts.forM (Validity.checkStart u insns)
  insns.forM (Validity.checkInstruction isa u insns)

/-- The first fault of a tree, nested units first. -/
def validateTree (isa : InstructionSet) (sign : SignConvention) (root : CodeUnit) :
    Except Fault Unit :=
  root.postOrder.forM (validate isa sign)

end CodeUnit

end CoverProbe
