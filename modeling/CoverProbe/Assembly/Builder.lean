import CoverProbe.Unit.Basic

set_option relaxedAutoImplicit false
set_option autoImplicit false

/-!
# Building units

A builder collects constants, instructions and labels, and lays them out as a unit. Instructions may
name a label in place of an operand; the label stands for the offset of the instruction that it was
bound before, or for the end of the code.

## Main definitions

* `CoverProbe.Builder` — a unit under construction.
* `CoverProbe.Builder.addConstant`, `CoverProbe.Builder.label`, `CoverProbe.Builder.emit`,
  `CoverProbe.Builder.jump` — its growth.
* `CoverProbe.Builder.layout` — instructions at their offsets, labels not yet resolved.
* `CoverProbe.Builder.finish` — the unit.

## Implementation notes

While instructions are laid out a label counts as operand zero, so widths are those of the
unresolved instructions.
-/

namespace CoverProbe

namespace Builder

/-- What an instruction under construction has for an operand. -/
inductive Operand
  | none
  | immediate (value : UInt32)
  | label (name : String)
deriving DecidableEq, Repr

/-- An instruction under construction. -/
structure Item where
  opcode : UInt8
  operand : Operand
  line : UInt32
deriving DecidableEq, Repr

end Builder

/-- A unit under construction. -/
structure Builder where
  name : String
  firstLine : UInt32
  /-- How the line table will be written. -/
  sign : SignConvention := .signed
  consts : Pool := []
  items : Array Builder.Item := #[]
  /-- Names with the number of instructions before them, the newest binding first. -/
  labels : List (String × Nat) := []

namespace Builder

/-! ## Growth -/

/-- The slot of the next constant. -/
def nextSlot (b : Builder) : UInt32 :=
  UInt32.ofNat b.consts.length

/-- Adds a constant in the next slot. -/
def addConstant (b : Builder) (value : Constant CodeUnit) : Builder :=
  { b with consts := b.consts.add value }

/-- Binds a name to the next instruction. -/
def bind (b : Builder) (name : String) : Builder :=
  { b with labels := (name, b.items.size) :: b.labels }

/-- Binds a name to the next instruction. A name bound before is a fault, yet its new binding
counts. -/
def label (b : Builder) (name : String) : Except Fault Unit × Builder :=
  match b.labels.lookup name with
  | some _ => (.error (.corrupt (.duplicateLabel name)), b.bind name)
  | none => (.ok (), b.bind name)

/-- Adds an instruction. -/
def push (b : Builder) (item : Item) : Builder :=
  { b with items := b.items.push item }

/-- Adds an instruction with an operand or without one. -/
def emit (b : Builder) (line : UInt32) (opcode : UInt8) (arg : Option UInt32) : Builder :=
  b.push ⟨opcode, (arg.map Operand.immediate).getD .none, line⟩

/-- Adds an instruction that jumps to a label. -/
def jump (b : Builder) (line : UInt32) (opcode : UInt8) (name : String) : Builder :=
  b.push ⟨opcode, .label name, line⟩

/-! ## Layout -/

/-- The operand that an instruction is laid out with. -/
def Operand.provisional : Operand → Option UInt32
  | none => Option.none
  | immediate value => some value
  | label _ => some 0

/-- The instruction that an item is laid out as. -/
def Item.provisional (item : Item) (offset : UInt32) : Instruction :=
  ⟨item.opcode, item.operand.provisional, offset, item.line⟩

/-- The items laid out from `offset` on, and the offset behind them. -/
def layout (isa : InstructionSet) (offset : UInt32) :
    List Item → Except Fault (List Instruction × UInt32)
  | [] => .ok ([], offset)
  | item :: rest =>
    let insn := item.provisional offset
    match Word.ofNat? (offset.toNat + isa.width insn) with
    | none => .error (.range .unitLength)
    | some next => do
      let (more, stop) ← layout isa next rest
      return (insn :: more, stop)

/-- The operand that makes an instruction jump to `target`, the offset of label `name`. -/
def reach (isa : InstructionSet) (name : String) (target : UInt32) (insn : Instruction) :
    Except Fault UInt32 :=
  match isa.classOf insn with
  | .jump .absolute => .ok target
  | .jump .relative =>
    let stop := insn.offset.toNat + isa.width insn
    if stop ≤ target.toNat then .ok (UInt32.ofNat (target.toNat - stop))
    else .error (.corrupt (.backwardJump name))
  | _ => .error (.corrupt (.labelOperand (isa.mnemonic insn.opcode)))

/-- The instruction of an item with its label resolved, if it has one. -/
def resolve (isa : InstructionSet) (target? : String → Option UInt32) (item : Item)
    (insn : Instruction) : Except Fault Instruction :=
  match item.operand with
  | .label name =>
    match target? name with
    | some target => do
      let arg ← reach isa name target insn
      return { insn with arg := some arg }
    | none => .error (.corrupt (.undefinedLabel name))
  | _ => .ok insn

/-- The offset of a label among instructions that end at `stop`. -/
def target? (b : Builder) (placed : List Instruction) (stop : UInt32) (name : String) :
    Option UInt32 :=
  (b.labels.lookup name).map fun index => (placed[index]?.map (·.offset)).getD stop

/-- The instructions of a unit, with offsets and labels resolved. -/
def instructions (b : Builder) (isa : InstructionSet) : Except Fault (List Instruction) := do
  let (placed, stop) ← layout isa 0 b.items.toList
  (b.items.toList.zip placed).mapM fun (item, insn) =>
    resolve isa (b.target? placed stop) item insn

/-- The unit built. -/
def finish (b : Builder) (isa : InstructionSet) : Except Fault CodeUnit := do
  let insns ← b.instructions isa
  let code ← isa.encodeAll insns
  let lineTable ← LineTable.encode b.sign (Instruction.lineRuns insns) b.firstLine
  return ⟨b.name, b.firstLine, code, b.consts, lineTable⟩

end Builder

end CoverProbe
