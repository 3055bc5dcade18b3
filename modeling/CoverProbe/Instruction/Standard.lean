import CoverProbe.Word
import CoverProbe.Instruction.Opcode

set_option relaxedAutoImplicit false
set_option autoImplicit false

/-!
# The standard instruction set

One opcode byte, followed by a four-byte operand, least significant byte first, where the opcode
takes one. `LOAD_CONST` and `MAKE_CLOSURE` name pool slots; a probe is `PROBE` with its token.

## Main definitions

* `CoverProbe.Standard.decodeFrom`, `CoverProbe.Standard.encode` — the codec.
* `CoverProbe.InstructionSet.standard` — the instruction set.
-/

namespace CoverProbe.Standard

/-! ## Codec -/

/-- The instructions of a stream whose first byte is at offset `offset`. -/
def decodeFrom (offset : Nat) : List UInt8 → Except Fault (List Instruction)
  | [] => .ok []
  | b :: rest =>
    match Word.ofNat? offset with
    | none => .error (.range .streamLength)
    | some start =>
      match Opcode.ofByte? b with
      | none => .error (.unknownOpcode b start)
      | some op =>
        if op.hasArg then
          match rest with
          | b₀ :: b₁ :: b₂ :: b₃ :: rest => do
            let arg := UInt32.ofNat (Word.value [b₀, b₁, b₂, b₃])
            let tail ← decodeFrom (offset + 5) rest
            return ⟨b, some arg, start, 0⟩ :: tail
          | _ => .error (.endOfInput 4 (offset + 1))
        else do
          let tail ← decodeFrom (offset + 1) rest
          return ⟨b, none, start, 0⟩ :: tail

/-- The bytes of an instruction. Its operand is present exactly when the opcode takes one. -/
def encode (i : Instruction) : Except Fault (List UInt8) :=
  match Opcode.ofByte? i.opcode with
  | none => .error (.unknownOpcode i.opcode i.offset)
  | some op =>
    match op.hasArg, i.arg with
    | true, some arg => .ok (op.byte :: Word.bytes 4 arg.toNat)
    | false, none => .ok [op.byte]
    | true, none => .error (.corrupt (.operandMissing op.mnemonic))
    | false, some _ => .error (.corrupt (.operandUnexpected op.mnemonic))

/-! ## Single instructions -/

/-- The number of bytes of an instruction; an unknown opcode counts as one byte. -/
def width (i : Instruction) : Nat :=
  ((Opcode.ofByte? i.opcode).map Opcode.width).getD 1

/-- The class of an instruction; an unknown opcode is plain. -/
def classOf (i : Instruction) : OpClass :=
  ((Opcode.ofByte? i.opcode).map Opcode.classOf).getD .plain

/-- The pool slot that the operand names. -/
def constantOperand (i : Instruction) : Option ConstantOperand :=
  match Opcode.ofByte? i.opcode with
  | some .loadConst => i.arg.map fun slot => ⟨slot, false⟩
  | some .makeClosure => i.arg.map fun slot => ⟨slot, true⟩
  | _ => none

/-- The probe with token `token`. -/
def probe (token : UInt32) : Instruction :=
  ⟨Opcode.probe.byte, some token, 0, 0⟩

/-- Is this a probe? -/
def isProbe (i : Instruction) : Bool :=
  i.opcode = Opcode.probe.byte

/-- The name of an opcode byte. -/
def mnemonic (opcode : UInt8) : String :=
  ((Opcode.ofByte? opcode).map Opcode.mnemonic).getD "???"

end CoverProbe.Standard

namespace CoverProbe.InstructionSet

/-- The standard instruction set. -/
def standard : InstructionSet where
  decode := Standard.decodeFrom 0
  encode := Standard.encode
  width := Standard.width
  classOf := Standard.classOf
  probe := Standard.probe
  isProbe := Standard.isProbe
  mnemonic := Standard.mnemonic
  constantOperand := Standard.constantOperand

end CoverProbe.InstructionSet
