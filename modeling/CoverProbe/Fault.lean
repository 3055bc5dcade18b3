import CoverProbe.Text.Hex

set_option relaxedAutoImplicit false
set_option autoImplicit false

/-!
# Faults of code units

Why a line table, an instruction stream, a container or a unit is refused. A fault is a cause with
the values that show it; its wording is in one place, `CoverProbe.Fault.message`.

## Main definitions

* `CoverProbe.LineTableFault` — a line table, or a list of line starts, that breaks its rules.
* `CoverProbe.RangeFault` — a value that the encoding cannot carry.
* `CoverProbe.CorruptFault` — data that contradict themselves.
* `CoverProbe.Fault` — any of these, and the ways in which a byte stream ends or goes astray.
* `CoverProbe.Fault.message` — the text of a fault.
-/

namespace CoverProbe

/-! ## Causes -/

/-- A line table, or a list of line starts, that breaks its rules. -/
inductive LineTableFault
  /-- The table is not made of byte pairs. -/
  | oddLength (length : Nat)
  /-- A run lies on a line that is no 32-bit word. -/
  | lineOutOfRange (line : Int) (offset : UInt32)
  /-- The advances add up to more than a 32-bit word. -/
  | offsetOutOfRange
  /-- The first line start is not at offset zero. -/
  | firstStart (offset : UInt32)
  /-- A line start does not lie behind the one before it. -/
  | unordered (offset previous : UInt32)
deriving DecidableEq, Repr

/-- The text of a line-table fault. -/
def LineTableFault.message : LineTableFault → String
  | oddLength n => s!"odd table length {n}"
  | lineOutOfRange line offset => s!"line {line} at offset {offset} out of range"
  | offsetOutOfRange => "offset exceeds u32"
  | firstStart offset => s!"first line start at offset {offset}, expected 0"
  | unordered offset previous => s!"offset {offset} after {previous} does not increase"

/-- A value that the encoding cannot carry. -/
inductive RangeFault
  /-- A table of unsigned line bytes is asked to step back. -/
  | negativeLineDelta (delta : Int)
  /-- The offset deltas add up to more than a 32-bit word. -/
  | offset
  /-- The line deltas lead to a line that is no 32-bit word. -/
  | line (line : Int)
  /-- An instruction lies beyond the offsets a 32-bit word can name. -/
  | streamLength
  /-- A unit under construction outgrows 32-bit offsets. -/
  | unitLength
  /-- A length that does not fit its 32-bit field. -/
  | fieldLength
deriving DecidableEq, Repr

/-- The text of a range fault. -/
def RangeFault.message : RangeFault → String
  | negativeLineDelta delta => s!"negative line delta {delta} with unsigned line bytes"
  | offset => "offset exceeds u32"
  | line l => s!"line {l} out of range"
  | streamLength => "code stream longer than u32"
  | unitLength => "unit larger than u32"
  | fieldLength => "length exceeds u32"

/-- Data that contradict themselves. -/
inductive CorruptFault
  /-- A fixed-width field reaches past the end of the container. -/
  | shortRead
  | unsupportedVersion (version : Nat)
  | trailingBytes
  | invalidUtf8
  | invalidBool
  | unknownConstantTag (tag : UInt8)
  /-- An opcode that takes an operand has none. -/
  | operandMissing (mnemonic : String)
  /-- An opcode that takes no operand has one. -/
  | operandUnexpected (mnemonic : String)
  | duplicateLabel (name : String)
  | undefinedLabel (name : String)
  /-- A relative jump can only reach forward. -/
  | backwardJump (label : String)
  /-- Only jumps take labels. -/
  | labelOperand (mnemonic : String)
  /-- A line of unit `unit` starts inside an instruction or beyond the code. -/
  | lineOffBoundary (unit : String) (line offset : UInt32)
  /-- A jump of unit `unit` lands inside an instruction or beyond the code. -/
  | jumpOffBoundary (unit mnemonic : String) (offset : UInt32) (target : Nat)
  /-- An operand names a slot that the pool does not have. -/
  | slotOutOfRange (unit mnemonic : String) (offset slot : UInt32) (poolSize : Nat)
  /-- An operand needs a nested unit and its slot holds something else. -/
  | unitExpected (unit mnemonic : String) (offset slot : UInt32)
deriving DecidableEq, Repr

/-- The text of a corruption. -/
def CorruptFault.message : CorruptFault → String
  | shortRead => "i/o: failed to fill whole buffer"
  | unsupportedVersion v => s!"unsupported container version {v}"
  | trailingBytes => "trailing bytes"
  | invalidUtf8 => "utf8"
  | invalidBool => "invalid bool"
  | unknownConstantTag tag => s!"unknown const tag 0x{Hex.upper 2 tag.toNat}"
  | operandMissing mnemonic => s!"{mnemonic} requires an operand"
  | operandUnexpected mnemonic => s!"{mnemonic} takes no operand"
  | duplicateLabel name => s!"duplicate label `{name}`"
  | undefinedLabel name => s!"undefined label `{name}`"
  | backwardJump label => s!"backward relative jump to `{label}`"
  | labelOperand mnemonic => s!"{mnemonic} cannot take a label operand"
  | lineOffBoundary unit line offset =>
    s!"{unit}: line {line} starts at offset {offset}, not an instruction boundary"
  | jumpOffBoundary unit mnemonic offset target =>
    s!"{unit}: {mnemonic} at {offset} jumps to {target}, not an instruction boundary"
  | slotOutOfRange unit mnemonic offset slot size =>
    s!"{unit}: {mnemonic} at {offset} references const {slot} but pool size is {size}"
  | unitExpected unit mnemonic offset slot =>
    s!"{unit}: {mnemonic} at {offset} expects a code unit in const {slot}"

/-- Why a line table, an instruction stream, a container or a unit is refused. -/
inductive Fault
  /-- The stream ends where `needed` more bytes should follow offset `offset`. -/
  | endOfInput (needed offset : Nat)
  | unknownOpcode (opcode : UInt8) (offset : UInt32)
  | lineTable (cause : LineTableFault)
  | range (cause : RangeFault)
  /-- The bytes do not begin like a container. -/
  | magic
  /-- The checksum `found` in the container is not the one computed. -/
  | checksum (expected found : UInt32)
  | corrupt (cause : CorruptFault)
deriving DecidableEq, Repr

namespace Fault

/-- The text of a fault. -/
def message : Fault → String
  | endOfInput needed offset => s!"unexpected EOF: need {needed} bytes at {offset}"
  | unknownOpcode opcode offset =>
    s!"unknown opcode 0x{Hex.upper 2 opcode.toNat} at offset {offset}"
  | lineTable cause => s!"malformed line table: {cause.message}"
  | range cause => s!"value out of encodable range: {cause.message}"
  | magic => "invalid unit container magic"
  | checksum expected found =>
    s!"hash mismatch (crc32): expected=0x{Hex.upper 8 expected.toNat}, " ++
      s!"found=0x{Hex.upper 8 found.toNat}"
  | corrupt cause => s!"corrupted: {cause.message}"

/-- Does the fault lie in the encoding's range, not in the data? -/
def isRange : Fault → Bool
  | range _ => true
  | _ => false

end Fault

end CoverProbe
