import CoverProbe.Decimal.Layout
import CoverProbe.Text.Column
import CoverProbe.Text.Quoted
import CoverProbe.Unit.PostOrder

set_option relaxedAutoImplicit false
set_option autoImplicit false

/-!
# Listings

A readable listing of a unit: a headline, the constants, the instructions with their lines, and the
line starts. The listing of a tree is that of its units, nested units first.

## Main definitions

* `CoverProbe.Constant.render` — a constant on one line.
* `CoverProbe.CodeUnit.listing` — the listing of one unit.
* `CoverProbe.CodeUnit.treeListing` — the listing of a tree.

## Implementation notes

The line number stands only beside the first of the instructions that share it. Probes are marked
with a star and show their token in hexadecimal.
-/

namespace CoverProbe

/-- Floating-point constants are written with the fewest digits that read back, of two equally near
decimals the greater, without an exponent between `0.0001` and `10 ^ 16`, and with at least one
digit behind the point. -/
def Listing.float : FloatLayout where
  tie := .up
  positional := some (-3, 16)
  wholePoint := true
  plusExponent := false

/-- A constant on one line. -/
def Constant.render : Constant CodeUnit → String
  | null => "none"
  | bool true => "true"
  | bool false => "false"
  | int z => toString z.toInt
  | float x => Listing.float.render x
  | str s => Quoted.string s
  | bytes bs => s!"bytes[{bs.length}]"
  | unit u => s!"<code {u.name}>"

namespace Listing

/-! ## Parts of a listing -/

/-- The headline of a unit with its instructions. -/
def headline (isa : InstructionSet) (u : CodeUnit) (insns : List Instruction) : String :=
  s!"== {u.name} == (first_line={u.firstLine}, bytes={u.code.length}, insns={insns.length}, " ++
    s!"probes={insns.countP isa.isProbe}, consts={u.consts.length})"

/-- The lines of a pool whose first slot is `slot`. -/
def constants (slot : Nat) : Pool → List String
  | [] => []
  | c :: rest => s!"const[{Column.zeros 4 slot}] = {c.render}" :: constants (slot + 1) rest

/-- What is said of the operand of an instruction: where a jump leads, or which constant it
names. -/
def remark (isa : InstructionSet) (u : CodeUnit) (i : Instruction) : String :=
  if (isa.classOf i).isJump then
    match isa.jumpTarget i with
    | some target => s!" (to {target})"
    | none => ""
  else
    match (isa.constantOperand i).bind fun operand => Pool.get? u.consts operand.slot with
    | some c => s!" ;; {c.render}"
    | none => ""

/-- An instruction with its operand. -/
def operation (isa : InstructionSet) (i : Instruction) : String :=
  match i.arg with
  | none => isa.mnemonic i.opcode
  | some arg =>
    if isa.isProbe i then s!"{isa.mnemonic i.opcode} 0x{Hex.upper 8 arg.toNat}"
    else s!"{isa.mnemonic i.opcode} {arg}"

/-- The lines of the instructions behind one on line `last`. -/
def code (isa : InstructionSet) (u : CodeUnit) (last : Option UInt32) :
    List Instruction → List String
  | [] => []
  | i :: rest =>
    let line := if last = some i.line then "" else toString i.line
    let marker := if isa.isProbe i then "*" else " "
    let place := s!"{Column.right 5 line} {marker} {Column.zeros 6 i.offset.toNat} "
    (place ++ operation isa i ++ remark isa u i) :: code isa u (some i.line) rest

/-- The line starts on one line. -/
def table (starts : List LineStart) : String :=
  " ".intercalate (starts.map fun s => s!"{s.offset}:{s.line}")

/-- The lines of a listing. -/
def lines (isa : InstructionSet) (u : CodeUnit) (insns : List Instruction)
    (starts : List LineStart) : List String :=
  let slots := if u.consts.isEmpty then [] else ";; constants" :: constants 0 u.consts
  headline isa u insns :: slots ++ ";; code" :: code isa u none insns ++ [";; lines", table starts]

end Listing

namespace CodeUnit

/-- The listing of one unit; nested units are named only. -/
def listing (isa : InstructionSet) (sign : SignConvention) (u : CodeUnit) :
    Except Fault String := do
  let insns ← u.instructions isa sign
  let starts ← u.lineStarts sign
  return String.join ((Listing.lines isa u insns starts).map (· ++ "\n"))

/-- The listings of a tree, nested units first, with a blank line between them. -/
def treeListing (isa : InstructionSet) (sign : SignConvention) (root : CodeUnit) :
    Except Fault String := do
  return "\n".intercalate (← root.postOrder.mapM (listing isa sign))

end CodeUnit

end CoverProbe
