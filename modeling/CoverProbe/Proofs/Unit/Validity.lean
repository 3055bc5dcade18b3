import Mathlib.Tactic.MkIffOfInductiveProp
import CoverProbe.Proofs.Checked
import CoverProbe.Proofs.Unit.PostOrder
import CoverProbe.Unit.Validity

set_option relaxedAutoImplicit false
set_option autoImplicit false

/-!
# What validity comes to

A unit is valid exactly if it decodes and is sound: its lines start at instructions, its jumps lead
to instructions or to the end of the code, and its operands name constants of its pool. A tree is
valid exactly if all its units are.

## Main definitions

* `CoverProbe.Validity.Founded` — line starts that lie at instructions.
* `CoverProbe.Validity.IsTarget` — offsets that a jump may lead to.
* `CoverProbe.Validity.Names` — operands that name a constant of a pool.
* `CoverProbe.Validity.Sound` — units with all three.

## Main results

* `CoverProbe.CodeUnit.validate_eq_ok` — valid units are those that decode and are sound.
* `CoverProbe.CodeUnit.validateTree_eq_ok` — valid trees are those of valid units.
-/

namespace CoverProbe

namespace Validity

/-- The line start lies at an instruction. Without instructions it lies at offset zero. -/
def Founded (insns : List Instruction) (s : LineStart) : Prop :=
  (∃ i ∈ insns, i.offset = s.offset) ∨ (insns = [] ∧ s.offset = 0)

/-- The offset is one of an instruction, or that of the end of the code. -/
def IsTarget (u : CodeUnit) (insns : List Instruction) (target : Nat) : Prop :=
  target = u.code.length ∨ ∃ i ∈ insns, i.offset.toNat = target

/-- The operand names a constant of the pool, a nested unit where one is needed. -/
def Names (pool : Pool) (operand : ConstantOperand) : Prop :=
  ∃ c, pool.get? operand.slot = some c ∧ (operand.expectsUnit = true → c.unit?.isSome = true)

/-- The lines of the unit start at instructions, its jumps lead to instructions or to the end, and
its operands name constants. -/
@[mk_iff]
structure Sound (isa : InstructionSet) (u : CodeUnit) (insns : List Instruction)
    (starts : List LineStart) : Prop where
  founded : ∀ s ∈ starts, Founded insns s
  targets : ∀ i ∈ insns, ∀ target, isa.jumpTarget i = some target → IsTarget u insns target
  constants : ∀ i ∈ insns, ∀ operand, isa.constantOperand i = some operand →
    Names u.consts operand

variable {isa : InstructionSet} {u : CodeUnit} {insns : List Instruction} {i : Instruction}

/-- Boundaries are the offsets of instructions. -/
lemma isBoundary_iff {offset : Nat} :
    isBoundary insns offset = true ↔ ∃ i ∈ insns, i.offset.toNat = offset := by
  rw [isBoundary, List.any_eq_true]
  simp only [decide_eq_true_eq]

/-- The check of a line start. -/
lemma checkStart_eq_ok {s : LineStart} : checkStart u insns s = .ok () ↔ Founded insns s := by
  have hcond : (isBoundary insns s.offset.toNat || (insns.isEmpty && s.offset = 0)) = true ↔
      Founded insns s := by
    simp only [Bool.or_eq_true, Bool.and_eq_true, isBoundary_iff, List.isEmpty_iff,
      decide_eq_true_eq, UInt32.toNat_inj, Founded]
  rw [checkStart, ← hcond]
  split_ifs with h <;> simp [h]

/-- The check of a jump's target. -/
lemma checkTarget_eq_ok : checkTarget isa u insns i = .ok () ↔
    ∀ target, isa.jumpTarget i = some target → IsTarget u insns target := by
  rw [checkTarget]
  cases isa.jumpTarget i with
  | none => simp
  | some target =>
    have hcond : (target = u.code.length || isBoundary insns target) = true ↔
        IsTarget u insns target := by
      simp only [Bool.or_eq_true, isBoundary_iff, decide_eq_true_eq, IsTarget]
    simp only [Option.some.injEq, forall_eq', ← hcond]
    split_ifs with h <;> simp [h]

/-- The check of an operand that names a constant. -/
lemma checkConstant_eq_ok : checkConstant isa u i = .ok () ↔
    ∀ operand, isa.constantOperand i = some operand → Names u.consts operand := by
  rw [checkConstant]
  cases isa.constantOperand i with
  | none => simp
  | some operand =>
    simp only [Option.some.injEq, forall_eq', Names]
    cases Pool.get? u.consts operand.slot with
    | none => simp
    | some c =>
      simp only [Option.some.injEq, exists_eq_left']
      have hcond : (operand.expectsUnit && c.unit?.isNone) = true ↔
          ¬ (operand.expectsUnit = true → c.unit?.isSome = true) := by
        cases operand.expectsUnit <;> cases c.unit? <;> simp
      split_ifs with h
      · exact iff_of_false (by simp) (hcond.1 h)
      · exact iff_of_true rfl (not_not.1 (mt hcond.2 h))

/-- The check of an instruction. -/
lemma checkInstruction_eq_ok : checkInstruction isa u insns i = .ok () ↔
    (∀ target, isa.jumpTarget i = some target → IsTarget u insns target) ∧
      ∀ operand, isa.constantOperand i = some operand → Names u.consts operand := by
  rw [checkInstruction, Checked.bind_eq_ok, ← checkTarget_eq_ok, ← checkConstant_eq_ok]
  constructor
  · rintro ⟨_, htarget, hconstant⟩
    exact ⟨htarget, hconstant⟩
  · rintro ⟨htarget, hconstant⟩
    exact ⟨(), htarget, hconstant⟩

end Validity

namespace CodeUnit

open Validity

variable {isa : InstructionSet} {sign : SignConvention} {u : CodeUnit}

/-- **Valid units are those that decode and are sound.** -/
theorem validate_eq_ok : u.validate isa sign = .ok () ↔ ∃ insns starts,
    isa.decode u.code = .ok insns ∧ u.lineStarts sign = .ok starts ∧
      Sound isa u insns starts := by
  rw [validate]
  simp only [Checked.bind_eq_ok, Checked.forM_eq_ok, checkInstruction_eq_ok]
  constructor
  · rintro ⟨insns, hinsns, starts, hstarts, _, hchecked, hall⟩
    have hfounded := Checked.forM_eq_ok.1 hchecked
    exact ⟨insns, starts, hinsns, hstarts, fun s hs => checkStart_eq_ok.1 (hfounded s hs),
      fun i hi => (hall i hi).1, fun i hi => (hall i hi).2⟩
  · rintro ⟨insns, starts, hinsns, hstarts, hfounded, htargets, hconstants⟩
    have hchecked : starts.forM (checkStart u insns) = .ok () :=
      Checked.forM_eq_ok.2 fun s hs => checkStart_eq_ok.2 (hfounded s hs)
    exact ⟨insns, hinsns, starts, hstarts, (), hchecked,
      fun i hi => ⟨htargets i hi, hconstants i hi⟩⟩

/-- **Valid trees are those of valid units.** -/
theorem validateTree_eq_ok {root : CodeUnit} : root.validateTree isa sign = .ok () ↔
    ∀ u ∈ root.nestedOrder, u.validate isa sign = .ok () := by
  rw [validateTree, postOrder_eq_nestedOrder, Checked.forM_eq_ok]

end CodeUnit

end CoverProbe
