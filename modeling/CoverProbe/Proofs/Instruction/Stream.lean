import Mathlib.Order.Basic
import CoverProbe.Instruction.Basic
import CoverProbe.Proofs.Checked

set_option relaxedAutoImplicit false
set_option autoImplicit false

/-!
# Instruction streams

The instructions of a stream stand one behind the other: each begins where the one before it ends.
So the offset of an instruction is the sum of the widths before it, and where every instruction
takes a byte, offsets name instructions.

## Main definitions

* `CoverProbe.Instruction.unattributed` — an instruction before it gets a line.
* `CoverProbe.Instruction.Increasing` — instructions whose offsets increase.
* `CoverProbe.InstructionSet.LaidOut` — instructions that stand one behind the other.
* `CoverProbe.InstructionSet.offsetAt` — the offset of an instruction by its number.
* `CoverProbe.InstructionSet.Lands` — an offset names an instruction, or the end of the stream.

## Main results

* `CoverProbe.InstructionSet.LaidOut.increasing` — offsets increase in a stream laid out.
* `CoverProbe.InstructionSet.lands_iff` — in a stream laid out, an offset names the instruction
  that begins there.
* `CoverProbe.InstructionSet.Lands.unique` — and no other.
-/

namespace CoverProbe

namespace Instruction

/-- The instruction before it gets a line. -/
def unattributed (i : Instruction) : Instruction :=
  { i with line := 0 }

/-- Instructions whose offsets increase. -/
def Increasing (insns : List Instruction) : Prop :=
  insns.Pairwise fun i j => i.offset < j.offset

/-- Of two instructions whose offsets increase, the later one has the greater. -/
lemma Increasing.offset_lt {insns : List Instruction} (h : Increasing insns) {j k : Nat}
    {i o : Instruction} (hi : insns[j]? = some i) (ho : insns[k]? = some o) (hjk : j < k) :
    i.offset.toNat < o.offset.toNat := by
  obtain ⟨hj, rfl⟩ := List.getElem?_eq_some_iff.1 hi
  obtain ⟨hk, rfl⟩ := List.getElem?_eq_some_iff.1 ho
  exact UInt32.lt_iff_toNat_lt.1 (List.pairwise_iff_getElem.1 h j k hj hk hjk)

end Instruction

namespace InstructionSet

variable {isa : InstructionSet} {start : Nat} {insns : List Instruction}

/-- Instructions that stand one behind the other, the first at offset `start`. -/
def LaidOut (isa : InstructionSet) : Nat → List Instruction → Prop
  | _, [] => True
  | start, i :: rest => i.offset.toNat = start ∧ LaidOut isa (start + isa.width i) rest

/-- The number of bytes that instructions take. -/
def extent (isa : InstructionSet) : List Instruction → Nat
  | [] => 0
  | i :: rest => isa.width i + extent isa rest

/-- The offset of instruction number `k` of a stream that begins at `start`, and of the end of the
stream for its length. -/
def offsetAt (isa : InstructionSet) (start : Nat) (insns : List Instruction) (k : Nat) : Nat :=
  start + isa.extent (insns.take k)

/-- An offset names instruction number `k` of a stream, or its end for the number of
instructions. -/
def Lands (insns : List Instruction) (stop target k : Nat) : Prop :=
  (∃ i, insns[k]? = some i ∧ i.offset.toNat = target) ∨ (k = insns.length ∧ target = stop)

@[simp] lemma extent_nil : isa.extent [] = 0 := rfl

@[simp] lemma extent_cons (i : Instruction) :
    isa.extent (i :: insns) = isa.width i + isa.extent insns := rfl

/-- Two streams take their bytes one behind the other. -/
lemma extent_append (insns more : List Instruction) :
    isa.extent (insns ++ more) = isa.extent insns + isa.extent more := by
  induction insns with
  | nil => rw [List.nil_append, extent_nil, Nat.zero_add]
  | cons i rest ih => rw [List.cons_append, extent_cons, extent_cons, ih, Nat.add_assoc]

/-- An instruction of a stream laid out has its offset. -/
lemma LaidOut.offset_eq (h : isa.LaidOut start insns) {k : Nat} {i : Instruction}
    (hk : insns[k]? = some i) : i.offset.toNat = isa.offsetAt start insns k := by
  induction insns generalizing start k with
  | nil => simp at hk
  | cons j rest ih =>
    cases k with
    | zero =>
      obtain rfl : j = i := by simpa using hk
      simpa [offsetAt] using h.1
    | succ k =>
      rw [ih h.2 (by simpa using hk)]
      simp only [offsetAt, List.take_succ_cons, extent_cons]
      omega

/-- The instructions of a stream laid out begin at or behind its start. -/
lemma LaidOut.le_of_mem (h : isa.LaidOut start insns) {i : Instruction} (hi : i ∈ insns) :
    start ≤ i.offset.toNat := by
  obtain ⟨k, hk⟩ := List.getElem?_of_mem hi
  rw [h.offset_eq hk, offsetAt]
  exact Nat.le_add_right _ _

/-- Where every instruction takes a byte, the offsets of a stream laid out increase. -/
theorem LaidOut.increasing (hw : ∀ i, 0 < isa.width i) (h : isa.LaidOut start insns) :
    Instruction.Increasing insns := by
  induction insns generalizing start with
  | nil => exact List.Pairwise.nil
  | cons i rest ih =>
    refine List.pairwise_cons.2 ⟨fun j hj => ?_, ih h.2⟩
    have hj' := h.2.le_of_mem hj
    have hi := h.1
    have hpos := hw i
    rw [UInt32.lt_iff_toNat_lt]
    omega

/-- The next instruction stands behind this one. -/
lemma offsetAt_succ (start : Nat) {k : Nat} (hk : k < insns.length) :
    isa.offsetAt start insns (k + 1) = isa.offsetAt start insns k + isa.width insns[k] := by
  rw [offsetAt, offsetAt, List.take_succ_eq_append_getElem hk, extent_append, extent_cons,
    extent_nil]
  omega

/-- Where every instruction takes a byte, offsets increase with the number. -/
lemma offsetAt_lt (hw : ∀ i, 0 < isa.width i) (start : Nat) {j k : Nat} (hjk : j < k)
    (hk : k ≤ insns.length) :
    isa.offsetAt start insns j < isa.offsetAt start insns k := by
  induction hjk with
  | refl =>
    rw [offsetAt_succ start hk]
    exact Nat.lt_add_of_pos_right (hw _)
  | @step k _ ih =>
    rw [offsetAt_succ start hk]
    exact Nat.lt_of_lt_of_le (ih (by omega)) (Nat.le_add_right _ _)

/-- **In a stream laid out, an offset names the instruction that begins there.** -/
theorem lands_iff (h : isa.LaidOut 0 insns) {target k : Nat} :
    Lands insns (isa.extent insns) target k ↔
      k ≤ insns.length ∧ target = isa.offsetAt 0 insns k := by
  constructor
  · rintro (⟨i, hi, rfl⟩ | ⟨rfl, rfl⟩)
    · obtain ⟨hk, -⟩ := List.getElem?_eq_some_iff.1 hi
      exact ⟨Nat.le_of_lt hk, h.offset_eq hi⟩
    · exact ⟨Nat.le_refl _, by simp [offsetAt]⟩
  · rintro ⟨hk, rfl⟩
    rcases Nat.lt_or_eq_of_le hk with hk | rfl
    · exact .inl ⟨insns[k], List.getElem?_eq_getElem hk, h.offset_eq (List.getElem?_eq_getElem hk)⟩
    · exact .inr ⟨rfl, by simp [offsetAt]⟩

/-- In a stream laid out whose instructions all take a byte, an offset names one instruction. -/
theorem Lands.unique (hw : ∀ i, 0 < isa.width i) (h : isa.LaidOut 0 insns) {target j k : Nat}
    (hj : Lands insns (isa.extent insns) target j) (hk : Lands insns (isa.extent insns) target k) :
    j = k := by
  obtain ⟨hj, hjt⟩ := (lands_iff h).1 hj
  obtain ⟨hk, hkt⟩ := (lands_iff h).1 hk
  rcases Nat.lt_trichotomy j k with hlt | heq | hlt
  · have := offsetAt_lt hw 0 hlt hk
    omega
  · exact heq
  · have := offsetAt_lt hw 0 hlt hj
    omega

/-! ## Encoding -/

/-- A stream encodes to the bytes of its first instruction, then those of the rest. -/
lemma encodeAll_eq_cons {i : Instruction} {rest : List Instruction} {code : List UInt8}
    (h : isa.encodeAll (i :: rest) = .ok code) :
    ∃ bs more, isa.encode i = .ok bs ∧ isa.encodeAll rest = .ok more ∧ code = bs ++ more := by
  obtain ⟨bss, hbss, h⟩ := Checked.bind_eq_ok.1 h
  rw [List.mapM_cons] at hbss
  obtain ⟨bs, hbs, hbss⟩ := Checked.bind_eq_ok.1 hbss
  obtain ⟨mores, hmores, hbss⟩ := Checked.bind_eq_ok.1 hbss
  obtain rfl := Except.ok.inj hbss
  obtain rfl := Except.ok.inj h
  exact ⟨bs, mores.flatten, hbs, Checked.bind_eq_ok.2 ⟨mores, hmores, rfl⟩, rfl⟩

end InstructionSet

end CoverProbe
