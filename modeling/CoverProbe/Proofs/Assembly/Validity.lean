import CoverProbe.Proofs.Assembly.Consistency
import CoverProbe.Proofs.Assembly.Drafts
import CoverProbe.Proofs.Unit.Validity

set_option relaxedAutoImplicit false
set_option autoImplicit false

/-!
# Validity of built units

A unit that is built decodes to what was emitted, its lines start at its instructions, and its labels
lead to some or to the end. So only an operand that was given as a number can make it invalid: one of
a jump that leads elsewhere, or one that names no constant, or no unit where one is needed.

## Main definitions

* `CoverProbe.Validity.Admissible` — an instruction that keeps its unit valid.
* `CoverProbe.Builder.Upright` — an operand, given as a number, that is right where it stands.

## Main results

* `CoverProbe.Builder.admissible_iff_upright` — what each item does to the validity of its unit.
* `CoverProbe.Builder.validate_of_finish` — when a unit that is built or assembled is valid.
-/

namespace CoverProbe

open Validity

/-- An instruction among the instructions `insns` of a unit keeps it valid: its jump leads to one of
them or to the end of the code, and its constant is in the pool, a unit if it must be one. -/
structure Validity.Admissible (u : CodeUnit) (insns : List Instruction) (i : Instruction) : Prop where
  lands : ∀ target, InstructionSet.standard.jumpTarget i = some target → IsTarget u insns target
  names : ∀ operand, InstructionSet.standard.constantOperand i = some operand →
    Names u.consts operand

/-- A unit that is encoded from instructions is valid exactly if these are admissible: its lines start
at them. -/
lemma CodeUnit.validate_of_encodeAll {u : CodeUnit} {sign : SignConvention}
    {insns : List Instruction} (hlaid : InstructionSet.standard.LaidOut 0 insns)
    (hcode : InstructionSet.standard.encodeAll insns = .ok u.code)
    (htable : LineTable.encode sign (Instruction.lineRuns insns) u.firstLine = .ok u.lineTable) :
    u.validate .standard sign = .ok () ↔ ∀ i ∈ insns, Admissible u insns i := by
  have hdecode : InstructionSet.standard.decode u.code = .ok (insns.map Instruction.unattributed) :=
    Standard.decodeFrom_encodeAll hcode hlaid
  have hstarts := lineStarts_of_encode htable
  have hfounded : ∀ s ∈ if insns.isEmpty then [⟨0, u.firstLine⟩] else Instruction.lineRuns insns,
      Founded (insns.map Instruction.unattributed) s := by
    intro s hs
    cases insns with
    | nil =>
      obtain rfl := List.mem_singleton.1 hs
      exact .inr ⟨rfl, rfl⟩
    | cons i rest =>
      obtain ⟨j, hj, hoffset⟩ := Instruction.anchored_lineRunsFrom none (i :: rest) s hs
      exact .inl ⟨j.unattributed, List.mem_map_of_mem hj, hoffset⟩
  have htarget : ∀ target, IsTarget u (insns.map Instruction.unattributed) target ↔
      IsTarget u insns target := by
    intro target
    simp only [IsTarget, List.mem_map, exists_exists_and_eq_and]
    rfl
  rw [validate_eq_ok]
  constructor
  · rintro ⟨raw, starts, hraw, -, -, htargets, hconstants⟩
    obtain rfl := Except.ok.inj (hdecode.symm.trans hraw)
    refine fun i hi => ⟨fun target h => ?_, fun operand h => ?_⟩
    · exact (htarget target).1 (htargets _ (List.mem_map_of_mem hi) target h)
    · exact hconstants _ (List.mem_map_of_mem hi) operand h
  · intro h
    refine ⟨_, _, hdecode, hstarts, hfounded, ?_, ?_⟩
    · refine List.forall_mem_map.2 fun i hi target hi' => ?_
      exact (htarget target).2 ((h i hi).lands target hi')
    · exact List.forall_mem_map.2 fun i hi operand hi' => (h i hi).names operand hi'

namespace Builder

/-! ## Items -/

/-- The operand `value` of item number `k` is right: with it a jump leads to an item or behind the
last one, a constant that is loaded was added, and so was the unit of a closure. -/
structure Upright (calls : List Call) (k : Nat) (item : Item) (value : UInt32) : Prop where
  jump : ∀ op kind, Opcode.ofByte? item.opcode = some op → op.classOf = .jump kind →
    ∃ j ≤ (emitted calls).length,
      (OpClass.jump kind).target (offsetOf .standard (emitted calls) (k + 1)) (some value) =
        some (offsetOf .standard (emitted calls) j)
  constant : item.opcode = Opcode.loadConst.byte → value.toNat < (added calls).length
  closure : item.opcode = Opcode.makeClosure.byte →
    ∃ nested, (added calls)[value.toNat]? = some (.unit nested)

variable {calls : List Call} {insns : List Instruction} {u : CodeUnit}

/-- Jumps may lead to items, and behind the last one. -/
lemma isTarget_iff (hlen : insns.length = (emitted calls).length)
    (hemitted : ∀ k item i, (emitted calls)[k]? = some item → insns[k]? = some i →
      Emitted calls k item i)
    (hcode : u.code.length = offsetOf .standard (emitted calls) (emitted calls).length)
    {target : Nat} :
    IsTarget u insns target ↔
      ∃ j ≤ (emitted calls).length, target = offsetOf .standard (emitted calls) j := by
  constructor
  · rintro (rfl | ⟨i, hi, rfl⟩)
    · exact ⟨_, Nat.le_refl _, hcode⟩
    · obtain ⟨k, hk⟩ := List.getElem?_of_mem hi
      obtain ⟨hlt, -⟩ := List.getElem?_eq_some_iff.1 hk
      rw [hlen] at hlt
      exact ⟨k, Nat.le_of_lt hlt, (hemitted k _ i (List.getElem?_eq_getElem hlt) hk).offset⟩
  · rintro ⟨j, hj, rfl⟩
    rcases Nat.lt_or_eq_of_le hj with hlt | rfl
    · have hk := List.getElem?_eq_getElem (hlen.symm ▸ hlt : j < insns.length)
      exact .inr ⟨_, List.mem_of_getElem? hk,
        (hemitted j _ _ (List.getElem?_eq_getElem hlt) hk).offset⟩
    · exact .inl hcode.symm

/-- A slot that may hold any constant names one if the pool has it. -/
lemma names_constant {pool : Pool} {slot : UInt32} :
    Names pool ⟨slot, false⟩ ↔ slot.toNat < pool.length := by
  have hget : Pool.get? pool slot = pool[slot.toNat]? := rfl
  rw [Names, hget]
  constructor
  · rintro ⟨c, hc, -⟩
    exact (List.getElem?_eq_some_iff.1 hc).1
  · intro hlt
    exact ⟨_, List.getElem?_eq_getElem hlt, by simp⟩

/-- A slot that must hold a unit names one if it does. -/
lemma names_unit {pool : Pool} {slot : UInt32} :
    Names pool ⟨slot, true⟩ ↔ ∃ nested, pool[slot.toNat]? = some (.unit nested) := by
  have hget : Pool.get? pool slot = pool[slot.toNat]? := rfl
  rw [Names, hget]
  constructor
  · rintro ⟨c, hc, hunit⟩
    cases c with
    | unit nested => exact ⟨nested, hc⟩
    | null | bool | int | float | str | bytes => exact absurd (hunit rfl) (by simp [Constant.unit?])
  · rintro ⟨nested, hnested⟩
    exact ⟨_, hnested, fun _ => rfl⟩

section

variable {k : Nat} {item : Item} {i : Instruction}

/-- Where a jump leads whose operand was given as a number. -/
lemma jumpTarget_of_immediate (hitem : (emitted calls)[k]? = some item)
    (hi : Emitted calls k item i) {value : UInt32} (harg : i.arg = some value) {op : Opcode}
    (hop : Opcode.ofByte? item.opcode = some op) :
    InstructionSet.standard.jumpTarget i =
      op.classOf.target (offsetOf .standard (emitted calls) (k + 1)) (some value) := by
  have hknown : Opcode.ofByte? i.opcode = some op := by rw [hi.opcode, hop]
  have hwidth : Standard.width i = itemWidth .standard item := by
    show ((Opcode.ofByte? i.opcode).map Opcode.width).getD 1 = _
    rw [hi.opcode]
    rfl
  have hstop : i.offset.toNat + Standard.width i = offsetOf .standard (emitted calls) (k + 1) := by
    rw [hi.offset, hwidth, offsetOf_succ hitem]
  show (Standard.classOf i).target (i.offset.toNat + Standard.width i) i.arg = _
  rw [Standard.classOf_eq hknown, hstop, harg]

/-- Without an operand an instruction leads nowhere and names nothing. -/
lemma admissible_of_arg_eq_none (harg : i.arg = none) : Admissible u insns i := by
  refine ⟨fun target htarget => ?_, fun operand hname => ?_⟩
  · have hnone : (Standard.classOf i).target (i.offset.toNat + Standard.width i) i.arg =
        some target := htarget
    rw [harg] at hnone
    simp [OpClass.target] at hnone
  · obtain ⟨slot, hslot, -⟩ := Standard.constantOperand_eq_some.1 hname
    rw [harg] at hslot
    cases hslot

/-- An instruction that jumps names no constant. -/
lemma admissible_of_jumpTarget {target : Nat}
    (htarget : InstructionSet.standard.jumpTarget i = some target)
    (hlands : IsTarget u insns target) : Admissible u insns i := by
  refine ⟨fun target' htarget' => ?_, fun operand hname => ?_⟩
  · obtain rfl := Option.some.inj (htarget.symm.trans htarget')
    exact hlands
  · obtain ⟨op, kind, hknown, hclass⟩ := Standard.exists_jump_of_jumpTarget htarget
    have hjump : Standard.classOf i = .jump kind := (Standard.classOf_eq hknown).trans hclass
    have hnone := Standard.constantOperand_of_jump hjump
    exact absurd (hnone.symm.trans hname) (by simp)

/-- An operand that was given as a number keeps its unit valid exactly if it is right. -/
lemma admissible_iff_of_immediate (hlen : insns.length = (emitted calls).length)
    (hemitted : ∀ k item i, (emitted calls)[k]? = some item → insns[k]? = some i →
      Emitted calls k item i)
    (hcode : u.code.length = offsetOf .standard (emitted calls) (emitted calls).length)
    (hconsts : u.consts = added calls) (hitem : (emitted calls)[k]? = some item)
    (hi : Emitted calls k item i) {value : UInt32} (harg : i.arg = some value) :
    Admissible u insns i ↔ Upright calls k item value := by
  have htargets := @isTarget_iff calls insns u hlen hemitted hcode
  constructor
  · rintro ⟨hjumps, hnames⟩
    refine ⟨fun op kind hknown hclass => ?_, fun hload => ?_, fun hclosure => ?_⟩
    · have htarget := jumpTarget_of_immediate hitem hi harg hknown
      rw [hclass] at htarget
      cases hsome : (OpClass.jump kind).target (offsetOf .standard (emitted calls) (k + 1))
          (some value) with
      | none => cases kind <;> simp [OpClass.target] at hsome
      | some target =>
        obtain ⟨j, hj, rfl⟩ := htargets.1 (hjumps target (htarget.trans hsome))
        exact ⟨j, hj, rfl⟩
    · have hname := hnames ⟨value, false⟩
        (Standard.constantOperand_eq_some.2 ⟨value, harg, .inl ⟨hi.opcode.trans hload, rfl⟩⟩)
      rwa [hconsts, names_constant] at hname
    · have hname := hnames ⟨value, true⟩
        (Standard.constantOperand_eq_some.2 ⟨value, harg, .inr ⟨hi.opcode.trans hclosure, rfl⟩⟩)
      rwa [hconsts, names_unit] at hname
  · rintro ⟨hjump, hconstant, hclosure⟩
    refine ⟨fun target htarget => ?_, fun operand hname => ?_⟩
    · obtain ⟨op, kind, hknown, hclass⟩ := Standard.exists_jump_of_jumpTarget htarget
      rw [hi.opcode] at hknown
      obtain ⟨j, hj, hlands⟩ := hjump op kind hknown hclass
      rw [jumpTarget_of_immediate hitem hi harg hknown, hclass, hlands] at htarget
      exact htargets.2 ⟨j, hj, (Option.some.inj htarget).symm⟩
    · obtain ⟨slot, hslot, hnamed⟩ := Standard.constantOperand_eq_some.1 hname
      obtain rfl := Option.some.inj (harg.symm.trans hslot)
      rw [hi.opcode] at hnamed
      rw [hconsts]
      rcases hnamed with ⟨hload, rfl⟩ | ⟨hmake, rfl⟩
      · exact names_constant.2 (hconstant hload)
      · exact names_unit.2 (hclosure hmake)

/-- **An item makes its unit invalid exactly by an operand that was given as a number** and is not
right.

**Proof sketch.** Without an operand an item leads nowhere and names nothing. A label is the operand
of a jump, which names no constant and leads where the label is bound. -/
lemma admissible_iff_upright (hlen : insns.length = (emitted calls).length)
    (hemitted : ∀ k item i, (emitted calls)[k]? = some item → insns[k]? = some i →
      Emitted calls k item i)
    (hcode : u.code.length = offsetOf .standard (emitted calls) (emitted calls).length)
    (hconsts : u.consts = added calls) (hitem : (emitted calls)[k]? = some item)
    (hi : Emitted calls k item i) :
    Admissible u insns i ↔ ∀ value, item.operand = .immediate value → Upright calls k item value := by
  have hoperand := hi.operand
  cases hop : item.operand with
  | none =>
    rw [hop] at hoperand
    exact iff_of_true (admissible_of_arg_eq_none hoperand) fun _ h => by cases h
  | label name =>
    rw [hop] at hoperand
    obtain ⟨j, hbinds, hj⟩ := hoperand
    have hlands := (isTarget_iff hlen hemitted hcode).2 ⟨j, hbinds.le, rfl⟩
    exact iff_of_true (admissible_of_jumpTarget hj hlands) fun _ h => by cases h
  | immediate value =>
    rw [hop] at hoperand
    rw [admissible_iff_of_immediate hlen hemitted hcode hconsts hitem hi hoperand]
    constructor
    · rintro hupright _ ⟨⟩
      exact hupright
    · exact fun h => h value rfl

end

/-! ## Units -/

variable {name : String} {firstLine : UInt32} {sign : SignConvention}

/-- A unit that is built is valid exactly if the operands given as numbers are right. -/
lemma validate_iff_upright
    (h : (build name firstLine sign calls).finish .standard = .ok u) :
    u.validate .standard sign = .ok () ↔
      ∀ k item value, (emitted calls)[k]? = some item → item.operand = .immediate value →
        Upright calls k item value := by
  obtain ⟨-, hfirst, hsign⟩ := head_build name firstLine sign calls
  obtain ⟨insns, hinsns, hcode, htable, -, hufirst, hconsts⟩ := finish_eq_ok.1 h
  obtain ⟨-, hlen, hemitted⟩ := instructions_build hinsns
  obtain ⟨hlaid, hextent⟩ := laidOut_of_emitted hlen hemitted
  rw [hsign, ← hufirst] at htable
  rw [consts_build] at hconsts
  have hend := (Standard.length_encodeAll hcode).trans hextent
  rw [CodeUnit.validate_of_encodeAll hlaid hcode htable]
  constructor
  · intro hall k item value hitem hvalue
    have hk := List.getElem?_eq_getElem
      (hlen.symm ▸ (List.getElem?_eq_some_iff.1 hitem).1 : k < insns.length)
    exact (admissible_iff_upright hlen hemitted hend hconsts hitem (hemitted k item _ hitem hk)).1
      (hall _ (List.mem_of_getElem? hk)) value hvalue
  · intro hupright i hi
    obtain ⟨k, hk⟩ := List.getElem?_of_mem hi
    have hitem := List.getElem?_eq_getElem
      (hlen ▸ (List.getElem?_eq_some_iff.1 hk).1 : k < (emitted calls).length)
    exact (admissible_iff_upright hlen hemitted hend hconsts hitem (hemitted k _ i hitem hk)).2
      fun value hvalue => hupright k _ value hitem hvalue

/-- **When a unit that is built is valid**, whether calls build it or a text is assembled: exactly if
each operand that was given as a number is right. Labels, lines and missing instructions make no unit
invalid.

**Proof sketch.** The unit decodes to what was emitted, and its lines start there
(`CodeUnit.validate_of_encodeAll`); what is left of its validity is told item by item
(`admissible_iff_upright`). Every unit that is assembled is built by the calls of its part of the text
(`Source.spoken_of_assemble`). -/
theorem validate_of_finish (sign : SignConvention) :
    (∀ name firstLine calls u, (build name firstLine sign calls).finish .standard = .ok u →
      (u.validate .standard sign = .ok () ↔
        ∀ k item value, (emitted calls)[k]? = some item → item.operand = .immediate value →
          Upright calls k item value) ∧
      ((∀ item ∈ emitted calls, ∀ value, item.operand ≠ .immediate value) →
        u.validate .standard sign = .ok ())) ∧
    ∀ source root, Source.assemble sign source = .ok root → ∀ u ∈ root.nestedOrder,
      ∃ calls, Source.Spoken sign (Source.statements source) u calls ∧
        (u.validate .standard sign = .ok () ↔
          ∀ k item value, (emitted calls)[k]? = some item → item.operand = .immediate value →
            Upright calls k item value) := by
  refine ⟨fun name firstLine calls u hu => ⟨validate_iff_upright hu, fun hlabels => ?_⟩,
    fun source root hroot u hu => ?_⟩
  · refine (validate_iff_upright hu).2 fun k item value hitem hvalue => ?_
    exact absurd hvalue (hlabels item (List.mem_of_getElem? hitem) value)
  · obtain ⟨calls, hspoken⟩ := Source.spoken_of_assemble hroot u hu
    obtain ⟨-, -, -, -, -, -, hfinish⟩ := id hspoken
    exact ⟨calls, hspoken, validate_iff_upright hfinish⟩

/-- A jump into its own operand. -/
def leap : List Call :=
  [.emit 1 Opcode.jump.byte (some 3), .emit 1 Opcode.ret.byte none]

end Builder

/-- The unit with that jump. -/
def CodeUnit.leap : CodeUnit :=
  ⟨"leap", 1, [0x20, 3, 0, 0, 0, 0x12], [], []⟩

/-- A text of that unit. -/
def Source.leap : String :=
  ".unit leap 1\nJUMP 3\nRETURN\n.end"

namespace Builder

/-- Nothing stands at offset three, so the unit is not valid; and it is the same if a text says
it. -/
theorem validate_of_finish_leap :
    (build "leap" 1 .signed leap).finish .standard = .ok .leap ∧
      CodeUnit.leap.validate .standard .signed ≠ .ok () ∧
      Source.assemble .signed Source.leap = .ok .leap ∧
      ∃ calls, Source.Spoken .signed (Source.statements Source.leap) .leap calls ∧
        ¬ ∀ k item value, (emitted calls)[k]? = some item → item.operand = .immediate value →
          Upright calls k item value := by
  obtain ⟨hbuilt, htext⟩ := validate_of_finish .signed
  have hfinish : (build "leap" 1 .signed leap).finish .standard = .ok .leap := rfl
  have hassemble : Source.assemble .signed Source.leap = .ok .leap := rfl
  have hinvalid : CodeUnit.leap.validate .standard .signed ≠ .ok () := by
    intro hvalid
    obtain ⟨j, hj, htarget⟩ := (((hbuilt _ _ _ _ hfinish).1.1 hvalid) 0 _ 3 rfl rfl).jump .jump
      .absolute (by decide) rfl
    have hoffsets : ∀ j ≤ 2, (OpClass.jump .absolute).target 5 (some 3) ≠
        some (offsetOf .standard (emitted leap) j) := by decide
    exact hoffsets j hj htarget
  obtain ⟨calls, hspoken, hvalid⟩ := htext _ _ hassemble .leap (by decide)
  exact ⟨hfinish, hinvalid, hassemble, calls, hspoken, fun h => hinvalid (hvalid.2 h)⟩

end Builder

end CoverProbe
