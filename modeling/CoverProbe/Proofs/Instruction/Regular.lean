import CoverProbe.Instruction.Variant
import CoverProbe.Proofs.Instruction.StandardCodec

set_option relaxedAutoImplicit false
set_option autoImplicit false

/-!
# Regular instruction sets

An instruction may be wider for a larger operand, and a dialect may let other opcodes jump. Laying
code out relies on less: an instruction is as wide wherever it stands, and a jump leads where its
operand says. Relocating code relies, moreover, on probes that are equally wide for all tokens, and
on decoded offsets that name one instruction each. A variant of the standard set is regular,
whatever it changes, and relocatable unless its probe is a jump that may be wide.

## Main definitions

* `CoverProbe.InstructionSet.Regular` — sets whose instructions can be laid out.
* `CoverProbe.InstructionSet.ClassedByOpcode` — sets whose classes are told by opcodes.
* `CoverProbe.InstructionSet.Relocatable` — sets whose decoded instructions can be relocated.
* `CoverProbe.Variant.wideJumps` — a variant in which jumps may be wide.

## Main results

* `CoverProbe.InstructionSet.Lands.unique_of_increasing` — increasing offsets name one instruction
  each.
* `CoverProbe.Variant.regular`, `CoverProbe.Variant.relocatable` — variants are such sets.
-/

namespace CoverProbe

namespace InstructionSet

/-- Sets whose instructions are as wide wherever they stand, and whose jumps lead where their
operands say. Widths may depend on operands. -/
structure Regular (isa : InstructionSet) : Prop where
  width_place : ∀ (i : Instruction) (offset line : UInt32),
    isa.width (i.place offset line) = isa.width i
  jumpTarget_eq : ∀ i : Instruction,
    isa.jumpTarget i = (isa.classOf i).target (i.offset.toNat + isa.width i) i.arg

/-- Sets in which the class of an instruction is that of its opcode. -/
def ClassedByOpcode (isa : InstructionSet) : Prop :=
  ∀ {i j : Instruction}, i.opcode = j.opcode → isa.classOf i = isa.classOf j

/-- Regular sets whose probes are all as wide, and whose decoder finds instructions in the order of
their offsets, all of them before the end of the code. -/
structure Relocatable (isa : InstructionSet) : Prop extends isa.Regular where
  width_probe : ∀ token : UInt32, isa.width (isa.probe token) = isa.width (isa.probe 0)
  increasing : ∀ {code : List UInt8} {insns : List Instruction}, isa.decode code = .ok insns →
    Instruction.Increasing insns
  lt_length : ∀ {code : List UInt8} {insns : List Instruction}, isa.decode code = .ok insns →
    ∀ i ∈ insns, i.offset.toNat < code.length

variable {isa : InstructionSet} {insns : List Instruction}

/-- Increasing offsets before the end name one instruction each, and the end none. -/
lemma Lands.unique_of_increasing (h : Instruction.Increasing insns) {stop : Nat}
    (hstop : ∀ i ∈ insns, i.offset.toNat < stop) {target j k : Nat}
    (hj : Lands insns stop target j) (hk : Lands insns stop target k) : j = k := by
  rcases hj with ⟨i, hi, hit⟩ | ⟨rfl, hjt⟩
  · have hlt := hstop i (List.mem_of_getElem? hi)
    rcases hk with ⟨o, ho, hot⟩ | ⟨rfl, hkt⟩
    · rcases Nat.lt_trichotomy j k with hjk | heq | hkj
      · have := h.offset_lt hi ho hjk
        omega
      · exact heq
      · have := h.offset_lt ho hi hkj
        omega
    · omega
  · rcases hk with ⟨o, ho, hot⟩ | ⟨rfl, -⟩
    · have hlt := hstop o (List.mem_of_getElem? ho)
      omega
    · rfl

/-- Where every instruction takes a byte, the instructions of a stream laid out begin before its
end. -/
lemma LaidOut.lt_of_mem (hw : ∀ i, 0 < isa.width i) {start : Nat} (h : isa.LaidOut start insns)
    {i : Instruction} (hi : i ∈ insns) : i.offset.toNat < start + isa.extent insns := by
  obtain ⟨k, hk⟩ := List.getElem?_of_mem hi
  obtain ⟨hlt, -⟩ := List.getElem?_eq_some_iff.1 hk
  have hend := offsetAt_lt hw start hlt (Nat.le_refl insns.length)
  rw [h.offset_eq hk]
  rwa [offsetAt, offsetAt, List.take_length] at hend

end InstructionSet

/-! ## Variants -/

namespace Variant

variable (v : Variant)

/-- The class of an instruction is that of its opcode. -/
lemma classOf_congr : v.instructionSet.ClassedByOpcode := by
  intro i j h
  show v.classOf i = v.classOf j
  rw [classOf, classOf, Standard.classOf, Standard.classOf, h]

/-- **A variant is regular**, whatever it changes. -/
theorem regular : v.instructionSet.Regular where
  width_place _ _ _ := rfl
  jumpTarget_eq _ := rfl

/-- All probes of a variant have one opcode. -/
lemma opcode_probe (token : UInt32) : (v.probe token).opcode = (v.probe 0).opcode := by
  rw [probe, probe]
  cases v.probe? with
  | none => rfl
  | some shape => rfl

/-- The probes of a variant are equally wide, unless they are jumps that may be wide. -/
lemma width_probe (h : v.wideJump = 0 ∨ (v.classOf (v.probe 0)).isJump = false) (token : UInt32) :
    v.width (v.probe token) = v.width (v.probe 0) := by
  have hop := v.opcode_probe token
  have hclass : v.classOf (v.probe token) = v.classOf (v.probe 0) := v.classOf_congr hop
  rw [width, width, hclass, Standard.width, Standard.width, hop]
  rcases h with hnarrow | hplain
  · simp only [hnarrow, ite_self]
  · simp only [hplain, Bool.false_eq_true, false_and, if_false]

/-- **A variant is relocatable**, unless its probes are jumps that may be wide. -/
theorem relocatable (h : v.wideJump = 0 ∨ (v.classOf (v.probe 0)).isJump = false) :
    v.instructionSet.Relocatable where
  toRegular := v.regular
  width_probe := v.width_probe h
  increasing hdecode :=
    (Standard.laidOut_of_decodeFrom hdecode).1.increasing Standard.width_pos
  lt_length hdecode i hi := by
    obtain ⟨hlaid, hextent⟩ := Standard.laidOut_of_decodeFrom hdecode
    have hlt := hlaid.lt_of_mem Standard.width_pos hi
    rwa [Nat.zero_add, hextent] at hlt

/-- The standard set with jumps that take four more bytes if their operand exceeds 255. -/
def wideJumps : Variant where
  wideJump := 4

end Variant

end CoverProbe
