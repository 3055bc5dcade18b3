import CoverProbe.Instruction.Standard
import CoverProbe.Proofs.Checked
import CoverProbe.Proofs.Instruction.Stream
import CoverProbe.Proofs.Word

set_option relaxedAutoImplicit false
set_option autoImplicit false

/-!
# The standard codec

What the bytes of standard instructions say. A stream decodes to instructions laid out one behind
the other over all its bytes, and the bytes of instructions laid out decode back to them, lines
apart.

## Main definitions

* `CoverProbe.Standard.Encodes` — bytes that encode an instruction.
* `CoverProbe.Standard.Encodable` — instructions that have bytes.

## Main results

* `CoverProbe.Standard.laidOut_of_decodeFrom` — decoding lays out.
* `CoverProbe.Standard.decodeFrom_encodeAll` — decoding inverts encoding.
* `CoverProbe.Standard.encodable_of_decodeFrom`, `encodeAll_of_encodable` — decoded instructions
  have bytes, and so has a stream of instructions that have.
* `CoverProbe.Standard.classOf_eq_pinned_iff`, `classOf_eq_indirect_iff` — the opcodes of these
  classes.
-/

namespace CoverProbe.Standard

/-! ## Single instructions -/

/-- The bytes encode the instruction: its opcode is known, and the operand stands behind it exactly
when the opcode takes one. -/
inductive Encodes (i : Instruction) : List UInt8 → Prop
  | bare {op : Opcode} (hop : Opcode.ofByte? i.opcode = some op) (harg : op.hasArg = false)
      (hi : i.arg = none) : Encodes i [op.byte]
  | withArg {op : Opcode} {arg : UInt32} (hop : Opcode.ofByte? i.opcode = some op)
      (harg : op.hasArg = true) (hi : i.arg = some arg) :
      Encodes i (op.byte :: Word.bytes 4 arg.toNat)

/-- Encoding succeeds exactly with the bytes that encode. -/
lemma encode_eq_ok {i : Instruction} {bs : List UInt8} : encode i = .ok bs ↔ Encodes i bs := by
  constructor
  · intro h
    rw [encode] at h
    split at h
    · simp at h
    · rename_i op hop
      split at h <;> first | (obtain rfl := Except.ok.inj h) | simp at h
      · exact .withArg hop ‹_› ‹_›
      · exact .bare hop ‹_› ‹_›
  · rintro (⟨hop, harg, hi⟩ | ⟨hop, harg, hi⟩)
    · simp only [encode, hop, harg, hi]
    · simp only [encode, hop, harg, hi]

/-- The width of an instruction with a known opcode. -/
lemma width_eq {i : Instruction} {op : Opcode} (h : Opcode.ofByte? i.opcode = some op) :
    width i = op.width := by
  rw [width, h]
  rfl

/-- Every instruction takes a byte. -/
lemma width_pos (i : Instruction) : 0 < width i := by
  rw [width]
  cases Opcode.ofByte? i.opcode with
  | none => exact Nat.one_pos
  | some op => cases op <;> decide

/-- An instruction takes as many bytes as encode it. -/
lemma Encodes.length_eq {i : Instruction} {bs : List UInt8} (h : Encodes i bs) :
    bs.length = width i := by
  cases h with
  | bare hop harg hi => simp [width_eq hop, Opcode.width, harg]
  | withArg hop harg hi => simp [width_eq hop, Opcode.width, harg]

/-- The bytes of an instruction are decoded to it. -/
lemma Encodes.decodeFrom_append {i : Instruction} {bs : List UInt8} (h : Encodes i bs)
    {offset : Nat} (ho : i.offset.toNat = offset) (rest : List UInt8) :
    decodeFrom offset (bs ++ rest) = do
      let tail ← decodeFrom (offset + width i) rest
      return i.unattributed :: tail := by
  have hword : Word.ofNat? offset = some i.offset := Word.ofNat?_eq_some_iff.2 ho.symm
  obtain ⟨opcode, arg, at', line⟩ := i
  cases h with
  | @bare op hop harg hi =>
    obtain rfl := Opcode.byte_of_ofByte? hop
    obtain rfl : arg = none := hi
    rw [width_eq hop, List.singleton_append, decodeFrom]
    simp only [hword, Opcode.ofByte?_byte, harg, Opcode.width]
    rfl
  | @withArg op arg' hop harg hi =>
    obtain rfl := Opcode.byte_of_ofByte? hop
    obtain rfl : arg = some arg' := hi
    have hval : UInt32.ofNat (Word.value (Word.bytes 4 arg'.toNat)) = arg' := by
      rw [Word.value_bytes arg'.toNat_lt, UInt32.ofNat_toNat]
    rw [width_eq hop, List.cons_append, decodeFrom]
    simp only [hword, Opcode.ofByte?_byte, harg, Opcode.width]
    simp only [Word.bytes] at hval ⊢
    simp only [List.cons_append, List.nil_append, hval]
    rfl

/-! ## Streams -/

/-- The bytes of instructions are the bytes of the first, then those of the rest. -/
lemma encodeAll_cons {i : Instruction} {rest : List Instruction} {code : List UInt8}
    (h : InstructionSet.standard.encodeAll (i :: rest) = .ok code) :
    ∃ bs more, Encodes i bs ∧ InstructionSet.standard.encodeAll rest = .ok more ∧
      code = bs ++ more := by
  obtain ⟨bs, more, hbs, hmore, hcode⟩ := InstructionSet.encodeAll_eq_cons h
  exact ⟨bs, more, encode_eq_ok.1 hbs, hmore, hcode⟩

/-- **Decoding inverts encoding**: the bytes of instructions laid out decode to them, lines
apart. -/
theorem decodeFrom_encodeAll {insns : List Instruction} {code : List UInt8} {offset : Nat}
    (h : InstructionSet.standard.encodeAll insns = .ok code)
    (hl : InstructionSet.standard.LaidOut offset insns) :
    decodeFrom offset code = .ok (insns.map Instruction.unattributed) := by
  induction insns generalizing code offset with
  | nil =>
    obtain rfl : [] = code := Except.ok.inj h
    rfl
  | cons i rest ih =>
    obtain ⟨bs, more, hbs, hmore, rfl⟩ := encodeAll_cons h
    have htail : decodeFrom (offset + width i) more = _ := ih hmore hl.2
    rw [hbs.decodeFrom_append hl.1, htail]
    rfl

/-- Instructions encode to as many bytes as they take. -/
lemma length_encodeAll {insns : List Instruction} {code : List UInt8}
    (h : InstructionSet.standard.encodeAll insns = .ok code) :
    code.length = InstructionSet.standard.extent insns := by
  induction insns generalizing code with
  | nil =>
    obtain rfl : [] = code := Except.ok.inj h
    rfl
  | cons i rest ih =>
    obtain ⟨bs, more, hbs, hmore, rfl⟩ := encodeAll_cons h
    rw [List.length_append, hbs.length_eq, ih hmore, InstructionSet.extent_cons]
    rfl

/-- An instruction decoded in front of instructions laid out is laid out with them. -/
lemma laidOut_cons {offset size : Nat} {start : UInt32} (hstart : Word.ofNat? offset = some start)
    {b : UInt8} {op : Opcode} (hop : Opcode.ofByte? b = some op) (arg : Option UInt32)
    {tail : List Instruction}
    (h : InstructionSet.standard.LaidOut (offset + op.width) tail ∧
      InstructionSet.standard.extent tail = size) :
    InstructionSet.standard.LaidOut offset (⟨b, arg, start, 0⟩ :: tail) ∧
      InstructionSet.standard.extent (⟨b, arg, start, 0⟩ :: tail) = op.width + size := by
  have hw : InstructionSet.standard.width ⟨b, arg, start, 0⟩ = op.width := width_eq hop
  refine ⟨⟨(Word.ofNat?_eq_some_iff.1 hstart).symm, ?_⟩, ?_⟩
  · rw [hw]
    exact h.1
  · rw [InstructionSet.extent_cons, hw, h.2]

/-- **Decoding lays out**: the instructions of a stream stand one behind the other and take all its
bytes. -/
theorem laidOut_of_decodeFrom {offset : Nat} {code : List UInt8} {insns : List Instruction}
    (h : decodeFrom offset code = .ok insns) :
    InstructionSet.standard.LaidOut offset insns ∧
      InstructionSet.standard.extent insns = code.length := by
  fun_induction decodeFrom offset code generalizing insns with
  | case1 offset =>
    obtain rfl : [] = insns := Except.ok.inj h
    exact ⟨trivial, rfl⟩
  | case2 => simp at h
  | case3 => simp at h
  | case4 offset b start hstart op hop harg b₀ b₁ b₂ b₃ rest arg =>
    rename_i ih
    obtain ⟨tail, htail, h⟩ := Checked.bind_eq_ok.1 h
    obtain rfl := Except.ok.inj h
    have hw : op.width = 5 := by simp [Opcode.width, harg]
    obtain ⟨hl, hext⟩ := laidOut_cons hstart hop (some arg) (hw ▸ ih htail)
    refine ⟨hl, hext.trans ?_⟩
    simp only [hw, List.length_cons]
    omega
  | case5 => simp at h
  | case6 offset b rest start hstart op hop harg ih =>
    obtain ⟨tail, htail, h⟩ := Checked.bind_eq_ok.1 h
    obtain rfl := Except.ok.inj h
    have hw : op.width = 1 := by simp [Opcode.width, harg]
    obtain ⟨hl, hext⟩ := laidOut_cons hstart hop none (hw ▸ ih htail)
    refine ⟨hl, hext.trans ?_⟩
    rw [hw, List.length_cons, Nat.add_comm]

/-! ## Instructions that have bytes -/

/-- An instruction that has bytes: its opcode is known, and it has an operand exactly when the
opcode takes one. -/
def Encodable (i : Instruction) : Prop :=
  ∃ op, Opcode.ofByte? i.opcode = some op ∧ i.arg.isSome = op.hasArg

/-- Decoded instructions have bytes. -/
theorem encodable_of_decodeFrom {offset : Nat} {code : List UInt8} {insns : List Instruction}
    (h : decodeFrom offset code = .ok insns) : ∀ i ∈ insns, Encodable i := by
  fun_induction decodeFrom offset code generalizing insns with
  | case1 offset =>
    obtain rfl : [] = insns := Except.ok.inj h
    simp
  | case2 => simp at h
  | case3 => simp at h
  | case4 offset b start hstart op hop harg b₀ b₁ b₂ b₃ rest arg =>
    rename_i ih
    obtain ⟨tail, htail, h⟩ := Checked.bind_eq_ok.1 h
    obtain rfl := Except.ok.inj h
    exact List.forall_mem_cons.2 ⟨⟨op, hop, harg.symm⟩, ih htail⟩
  | case5 => simp at h
  | case6 offset b rest start hstart op hop harg ih =>
    obtain ⟨tail, htail, h⟩ := Checked.bind_eq_ok.1 h
    obtain rfl := Except.ok.inj h
    exact List.forall_mem_cons.2 ⟨⟨op, hop, (Bool.eq_false_iff.2 harg).symm⟩, ih htail⟩

/-- **A stream of instructions that have bytes has bytes.** -/
theorem encodeAll_of_encodable {insns : List Instruction} (h : ∀ i ∈ insns, Encodable i) :
    ∃ code, InstructionSet.standard.encodeAll insns = .ok code := by
  have hone : ∀ i ∈ insns, ∃ bs, encode i = .ok bs := by
    intro i hi
    obtain ⟨op, hop, harg⟩ := h i hi
    cases ha : i.arg with
    | none => exact ⟨_, encode_eq_ok.2 (.bare hop (by rw [← harg, ha]; rfl) ha)⟩
    | some arg => exact ⟨_, encode_eq_ok.2 (.withArg hop (by rw [← harg, ha]; rfl) ha)⟩
  have hall : ∃ bss, insns.mapM encode = .ok bss := by
    clear h
    induction insns with
    | nil => exact ⟨[], rfl⟩
    | cons i rest ih =>
      obtain ⟨bs, hbs⟩ := hone i List.mem_cons_self
      obtain ⟨bss, hbss⟩ := ih fun j hj => hone j (List.mem_cons_of_mem i hj)
      exact ⟨bs :: bss, Checked.mapM_eq_ok.2 (.cons hbs (Checked.mapM_eq_ok.1 hbss))⟩
  obtain ⟨bss, hbss⟩ := hall
  exact ⟨bss.flatten, Checked.bind_eq_ok.2 ⟨bss, hbss, rfl⟩⟩

/-- Instructions that encode have bytes each. -/
lemma encodable_of_encodeAll {insns : List Instruction} {code : List UInt8}
    (h : InstructionSet.standard.encodeAll insns = .ok code) : ∀ i ∈ insns, Encodable i := by
  induction insns generalizing code with
  | nil => simp
  | cons i rest ih =>
    obtain ⟨bs, more, hbs, hmore, -⟩ := encodeAll_cons h
    refine List.forall_mem_cons.2 ⟨?_, ih hmore⟩
    cases hbs with
    | bare hop harg hi => exact ⟨_, hop, by rw [hi, harg]; rfl⟩
    | withArg hop harg hi => exact ⟨_, hop, by rw [hi, harg]; rfl⟩

/-! ## Classes -/

/-- An instruction has the class of its opcode. -/
lemma classOf_eq {i : Instruction} {op : Opcode} (h : Opcode.ofByte? i.opcode = some op) :
    classOf i = op.classOf := by
  rw [classOf, h]
  rfl

/-- A class other than plain that one opcode has alone is the class of its instructions alone. -/
lemma classOf_eq_iff (op : Opcode) (hplain : op.classOf ≠ .plain)
    (halone : ∀ other : Opcode, other.classOf = op.classOf → other = op) (i : Instruction) :
    classOf i = op.classOf ↔ i.opcode = op.byte := by
  constructor
  · intro h
    cases ho : Opcode.ofByte? i.opcode with
    | none =>
      rw [classOf, ho] at h
      exact absurd h.symm hplain
    | some other =>
      rw [classOf_eq ho] at h
      rw [← halone other h]
      exact (Opcode.byte_of_ofByte? ho).symm
  · intro h
    exact classOf_eq (h ▸ Opcode.ofByte?_byte op)

/-- Only `GEN_START` is pinned. -/
lemma classOf_eq_pinned_iff (i : Instruction) :
    classOf i = .pinned ↔ i.opcode = Opcode.genStart.byte :=
  classOf_eq_iff .genStart (by decide) (fun other => by cases other <;> decide) i

/-- Only `JUMP_INDIRECT` jumps indirectly. -/
lemma classOf_eq_indirect_iff (i : Instruction) :
    classOf i = .indirect ↔ i.opcode = Opcode.jumpIndirect.byte :=
  classOf_eq_iff .jumpIndirect (by decide) (fun other => by cases other <;> decide) i

/-- What leads somewhere is a jump. -/
lemma exists_jump_of_jumpTarget {i : Instruction} {target : Nat}
    (h : InstructionSet.standard.jumpTarget i = some target) :
    ∃ op kind, Opcode.ofByte? i.opcode = some op ∧ op.classOf = .jump kind := by
  have htarget : (classOf i).target (i.offset.toNat + width i) i.arg = some target := h
  cases ho : Opcode.ofByte? i.opcode with
  | none =>
    rw [classOf, ho] at htarget
    simp [OpClass.target] at htarget
  | some op =>
    rw [classOf_eq ho] at htarget
    cases hclass : op.classOf with
    | jump kind => exact ⟨op, kind, rfl, hclass⟩
    | plain => simp [hclass, OpClass.target] at htarget
    | pinned => simp [hclass, OpClass.target] at htarget
    | indirect => simp [hclass, OpClass.target] at htarget

/-- Every jump takes an operand. -/
lemma hasArg_of_isJump {op : Opcode} (h : op.classOf.isJump = true) : op.hasArg = true := by
  cases op <;> first | rfl | exact absurd h (by decide)

/-- A jump that has bytes has an operand. -/
lemma Encodable.exists_arg {i : Instruction} (h : Encodable i) {kind : JumpKind}
    (hc : classOf i = .jump kind) : ∃ arg, i.arg = some arg := by
  obtain ⟨op, hop, harg⟩ := h
  rw [classOf_eq hop] at hc
  rw [hasArg_of_isJump (by rw [hc]; rfl)] at harg
  exact Option.isSome_iff_exists.1 harg

/-- A jump that has bytes has a target: where its operand says. -/
lemma Encodable.exists_target {i : Instruction} (h : Encodable i) {kind : JumpKind}
    (hc : classOf i = .jump kind) :
    ∃ target, InstructionSet.standard.jumpTarget i = some target ∧
      (kind = .relative → i.offset.toNat + width i ≤ target) := by
  obtain ⟨arg, harg⟩ := h.exists_arg hc
  have htarget : InstructionSet.standard.jumpTarget i =
      (OpClass.jump kind).target (i.offset.toNat + width i) (some arg) := by
    rw [← hc, ← harg]
    rfl
  cases kind with
  | absolute => exact ⟨arg.toNat, htarget, by simp⟩
  | relative => exact ⟨_, htarget, fun _ => Nat.le_add_right _ _⟩

/-! ## Operands that name constants -/

/-- Constants are named by loads, and units by closures. -/
lemma constantOperand_eq_some {i : Instruction} {operand : ConstantOperand} :
    constantOperand i = some operand ↔ ∃ slot, i.arg = some slot ∧
      ((i.opcode = Opcode.loadConst.byte ∧ operand = ⟨slot, false⟩) ∨
        (i.opcode = Opcode.makeClosure.byte ∧ operand = ⟨slot, true⟩)) := by
  have hbyte : ∀ op : Opcode, i.opcode = op.byte ↔ Opcode.ofByte? i.opcode = some op := fun op =>
    ⟨fun h => h ▸ Opcode.ofByte?_byte op, fun h => (Opcode.byte_of_ofByte? h).symm⟩
  rw [hbyte, hbyte, constantOperand]
  split
  · rename_i ho
    simp [ho, eq_comm]
  · rename_i ho
    simp [ho, eq_comm]
  · rename_i hload hclosure
    constructor
    · intro h
      cases h
    · rintro ⟨slot, -, ⟨ho, -⟩ | ⟨ho, -⟩⟩
      · exact absurd ho hload
      · exact absurd ho hclosure

/-- Jumps name no constants. -/
lemma constantOperand_of_jump {i : Instruction} {kind : JumpKind}
    (h : classOf i = .jump kind) : constantOperand i = none := by
  rw [constantOperand]
  cases ho : Opcode.ofByte? i.opcode with
  | none => rfl
  | some op =>
    rw [classOf_eq ho] at h
    cases op <;> first | rfl | exact absurd h (by simp [Opcode.classOf])

end CoverProbe.Standard
