import CoverProbe.Instruction.Basic

set_option relaxedAutoImplicit false
set_option autoImplicit false

/-!
# Standard opcodes

The opcodes of the standard instruction set, their bytes, names and classes.

## Main definitions

* `CoverProbe.Opcode` — the opcodes.
* `CoverProbe.Opcode.byte`, `CoverProbe.Opcode.ofByte?` — their encoding.
* `CoverProbe.Opcode.mnemonic`, `CoverProbe.Opcode.ofMnemonic?` — their names, read in any case.
* `CoverProbe.Opcode.hasArg`, `CoverProbe.Opcode.classOf` — their operands and classes.

## Main results

* `CoverProbe.Opcode.ofByte?_byte`, `CoverProbe.Opcode.ofMnemonic?_mnemonic` — both encodings read
  back.
-/

namespace CoverProbe

/-- The opcodes of the standard instruction set. -/
inductive Opcode
  | nop
  /-- Opens a generator; belongs to the prologue. -/
  | genStart
  /-- Pushes a constant. -/
  | loadConst
  | print
  | ret
  | pop
  | loadName
  | storeName
  | loadAttr
  | binaryOp
  | compare
  | call
  /-- Makes a closure of the nested unit in a slot. -/
  | makeClosure
  | yield
  | raise
  | jump
  | jumpIfFalse
  | jumpIfTrue
  /-- Advances an iterator, or jumps forward when it is exhausted. -/
  | forIter
  /-- Pushes a handler that lies ahead. -/
  | setupFinally
  | popBlock
  /-- Jumps to an offset found at run time. -/
  | jumpIndirect
  /-- Reports a coverage token. -/
  | probe
deriving DecidableEq, Repr

namespace Opcode

/-- Every opcode, by increasing byte. -/
def all : List Opcode :=
  [nop, genStart, loadConst, print, ret, pop, loadName, storeName, loadAttr, binaryOp, compare,
    call, makeClosure, yield, raise, jump, jumpIfFalse, jumpIfTrue, forIter, setupFinally,
    popBlock, jumpIndirect, probe]

/-- The byte of an opcode. -/
def byte : Opcode → UInt8
  | nop => 0x00
  | genStart => 0x01
  | loadConst => 0x10
  | print => 0x11
  | ret => 0x12
  | pop => 0x13
  | loadName => 0x14
  | storeName => 0x15
  | loadAttr => 0x16
  | binaryOp => 0x17
  | compare => 0x18
  | call => 0x19
  | makeClosure => 0x1A
  | yield => 0x1B
  | raise => 0x1C
  | jump => 0x20
  | jumpIfFalse => 0x21
  | jumpIfTrue => 0x22
  | forIter => 0x23
  | setupFinally => 0x24
  | popBlock => 0x25
  | jumpIndirect => 0x2F
  | probe => 0x40

/-- The name of an opcode. -/
def mnemonic : Opcode → String
  | nop => "NOP"
  | genStart => "GEN_START"
  | loadConst => "LOAD_CONST"
  | print => "PRINT"
  | ret => "RETURN"
  | pop => "POP"
  | loadName => "LOAD_NAME"
  | storeName => "STORE_NAME"
  | loadAttr => "LOAD_ATTR"
  | binaryOp => "BINARY_OP"
  | compare => "COMPARE"
  | call => "CALL"
  | makeClosure => "MAKE_CLOSURE"
  | yield => "YIELD"
  | raise => "RAISE"
  | jump => "JUMP"
  | jumpIfFalse => "JUMP_IF_FALSE"
  | jumpIfTrue => "JUMP_IF_TRUE"
  | forIter => "FOR_ITER"
  | setupFinally => "SETUP_FINALLY"
  | popBlock => "POP_BLOCK"
  | jumpIndirect => "JUMP_INDIRECT"
  | probe => "PROBE"

/-- Does the opcode take an operand? -/
def hasArg : Opcode → Bool
  | nop | genStart | print | ret | pop | yield | raise | popBlock | jumpIndirect => false
  | _ => true

/-- The class of an opcode. -/
def classOf : Opcode → OpClass
  | jump | jumpIfFalse | jumpIfTrue => .jump .absolute
  | forIter | setupFinally => .jump .relative
  | genStart => .pinned
  | jumpIndirect => .indirect
  | _ => .plain

/-- The number of bytes of an instruction with this opcode: the opcode and a four-byte operand. -/
def width (op : Opcode) : Nat :=
  if op.hasArg then 5 else 1

/-- The opcode of a byte. -/
def ofByte? (b : UInt8) : Option Opcode :=
  all.find? (·.byte = b)

/-- The opcode of a name, in any case of its ASCII letters. -/
def ofMnemonic? (name : List Char) : Option Opcode :=
  all.find? (·.mnemonic.toList.map Char.toLower = name.map Char.toLower)

theorem ofByte?_byte (op : Opcode) : ofByte? op.byte = some op := by
  cases op <;> rfl

theorem byte_of_ofByte? {b : UInt8} {op : Opcode} (h : ofByte? b = some op) : op.byte = b := by
  simpa using List.find?_some h

theorem ofMnemonic?_mnemonic (op : Opcode) : ofMnemonic? op.mnemonic.toList = some op := by
  cases op <;> decide

end Opcode

end CoverProbe
