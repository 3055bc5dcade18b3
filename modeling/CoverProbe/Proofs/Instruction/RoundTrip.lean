import CoverProbe.Proofs.Instruction.StandardCodec

set_option relaxedAutoImplicit false
set_option autoImplicit false

/-!
# Bytes and instructions are the same

The standard codec loses nothing in either direction. What decodes was the bytes of what it decodes
to; what can be encoded is decoded to itself, laid out from offset zero on. So the byte strings that
decode are those made of complete instructions.

## Main definitions

* `CoverProbe.InstructionSet.relaid` — instructions laid out anew, lines forgotten.
* `CoverProbe.Standard.Complete` — the bytes of one instruction.

## Main results

* `CoverProbe.Standard.encodeAll_of_decodeFrom` — encoding inverts decoding.
* `CoverProbe.Standard.decodeFrom_of_encodeAll` — what can be encoded is decoded, laid out anew.
* `CoverProbe.Standard.codec_bijective` — decoding and encoding are inverse to each other.
-/

namespace CoverProbe

/-! ## Laying out anew -/

namespace InstructionSet

/-- The instructions one behind the other from offset `start` on, with line zero. -/
def relaid (isa : InstructionSet) : (start : Nat) → List Instruction → List Instruction
  | _, [] => []
  | start, i :: rest => i.place (UInt32.ofNat start) 0 :: relaid isa (start + isa.width i) rest

end InstructionSet

namespace Standard

/-- Instructions laid out anew stand one behind the other, if the last begins at a 32-bit word. -/
lemma laidOut_relaid {start : Nat} {insns : List Instruction}
    (h : start + InstructionSet.standard.extent insns ≤ 4294967296) :
    InstructionSet.standard.LaidOut start (InstructionSet.standard.relaid start insns) := by
  induction insns generalizing start with
  | nil => trivial
  | cons i rest ih =>
    have hpos := width_pos i
    rw [InstructionSet.extent_cons] at h
    change start + (width i + _) ≤ _ at h
    constructor
    · exact Word.toNat_ofNat_of_fits (by omega)
    · apply ih
      change start + width i + _ ≤ _
      omega

/-- Instructions laid out anew have lost their lines. -/
lemma map_unattributed_relaid (start : Nat) (insns : List Instruction) :
    (InstructionSet.standard.relaid start insns).map Instruction.unattributed =
      InstructionSet.standard.relaid start insns := by
  induction insns generalizing start with
  | nil => rfl
  | cons i rest ih =>
    rw [InstructionSet.relaid, List.map_cons, ih]
    rfl

/-! ## Encoding after decoding -/

/-- The bytes of instructions begin with those of the first. -/
lemma encodeAll_cons_of_encodes {i : Instruction} {rest : List Instruction} {bs more : List UInt8}
    (hi : Encodes i bs) (hrest : InstructionSet.standard.encodeAll rest = .ok more) :
    InstructionSet.standard.encodeAll (i :: rest) = .ok (bs ++ more) := by
  obtain ⟨bss, hbss, h⟩ := Checked.bind_eq_ok.1 hrest
  obtain rfl := Except.ok.inj h
  refine Checked.bind_eq_ok.2 ⟨bs :: bss, ?_, rfl⟩
  rw [Checked.mapM_eq_ok] at hbss ⊢
  exact .cons (encode_eq_ok.2 hi) hbss

/-- Four bytes are those of the word they spell. -/
lemma bytes_word (b₀ b₁ b₂ b₃ : UInt8) :
    Word.bytes 4 (UInt32.ofNat (Word.value [b₀, b₁, b₂, b₃])).toNat = [b₀, b₁, b₂, b₃] := by
  have hlt : Word.value [b₀, b₁, b₂, b₃] < 256 ^ 4 := Word.value_lt _
  rw [Word.toNat_ofNat_of_fits (by omega)]
  exact Word.bytes_value [b₀, b₁, b₂, b₃]

/-- **Encoding inverts decoding**: a stream is the bytes of what it decodes to. -/
theorem encodeAll_of_decodeFrom {offset : Nat} {code : List UInt8} {insns : List Instruction}
    (h : decodeFrom offset code = .ok insns) :
    InstructionSet.standard.encodeAll insns = .ok code := by
  fun_induction decodeFrom offset code generalizing insns with
  | case1 offset =>
    obtain rfl : [] = insns := Except.ok.inj h
    rfl
  | case2 => simp at h
  | case3 => simp at h
  | case4 offset b start hstart op hop harg b₀ b₁ b₂ b₃ rest arg =>
    rename_i ih
    obtain ⟨tail, htail, h⟩ := Checked.bind_eq_ok.1 h
    obtain rfl := Except.ok.inj h
    have hi : Encodes ⟨b, some arg, start, 0⟩ (op.byte :: Word.bytes 4 arg.toNat) :=
      .withArg hop harg rfl
    rw [bytes_word, Opcode.byte_of_ofByte? hop] at hi
    exact encodeAll_cons_of_encodes hi (ih htail)
  | case5 => simp at h
  | case6 offset b rest start hstart op hop harg ih =>
    obtain ⟨tail, htail, h⟩ := Checked.bind_eq_ok.1 h
    obtain rfl := Except.ok.inj h
    have hi : Encodes ⟨b, none, start, 0⟩ [op.byte] := .bare hop (Bool.eq_false_iff.2 harg) rfl
    rw [Opcode.byte_of_ofByte? hop] at hi
    exact encodeAll_cons_of_encodes hi (ih htail)

/-! ## Decoding after encoding -/

/-- Where an instruction stands, and its line, do not bear on its bytes. -/
lemma Encodes.place {i : Instruction} {bs : List UInt8} (h : Encodes i bs)
    (offset line : UInt32) : Encodes (i.place offset line) bs := by
  cases h with
  | bare hop harg hi => exact .bare hop harg hi
  | withArg hop harg hi => exact .withArg hop harg hi

/-- Instructions laid out anew have the bytes that they had. -/
lemma encodeAll_relaid {insns : List Instruction} {code : List UInt8}
    (h : InstructionSet.standard.encodeAll insns = .ok code) (start : Nat) :
    InstructionSet.standard.encodeAll (InstructionSet.standard.relaid start insns) = .ok code := by
  induction insns generalizing code start with
  | nil => exact h
  | cons i rest ih =>
    obtain ⟨bs, more, hbs, hmore, rfl⟩ := encodeAll_cons h
    exact encodeAll_cons_of_encodes (hbs.place _ _) (ih hmore _)

/-- **What can be encoded is decoded**, laid out anew from offset `start` on. -/
theorem decodeFrom_of_encodeAll {insns : List Instruction} {code : List UInt8} {start : Nat}
    (h : InstructionSet.standard.encodeAll insns = .ok code)
    (hfits : start + InstructionSet.standard.extent insns ≤ 4294967296) :
    decodeFrom start code = .ok (InstructionSet.standard.relaid start insns) := by
  rw [decodeFrom_encodeAll (encodeAll_relaid h start) (laidOut_relaid hfits),
    map_unattributed_relaid]

/-! ## Complete instructions -/

/-- The bytes of one instruction: that of an opcode, and four more exactly when it takes an
operand. -/
def Complete (bs : List UInt8) : Prop :=
  ∃ (op : Opcode) (operand : List UInt8), bs = op.byte :: operand ∧
    operand.length = if op.hasArg then 4 else 0

/-- The bytes of an instruction are complete. -/
lemma Encodes.complete {i : Instruction} {bs : List UInt8} (h : Encodes i bs) : Complete bs := by
  cases h with
  | @bare op hop harg hi => exact ⟨op, [], rfl, by simp [harg]⟩
  | @withArg op arg hop harg hi => exact ⟨op, Word.bytes 4 arg.toNat, rfl, by simp [harg]⟩

/-- Complete bytes are those of an instruction. -/
lemma Complete.exists_encodes {bs : List UInt8} (h : Complete bs) : ∃ i, Encodes i bs := by
  obtain ⟨op, operand, rfl, hlen⟩ := h
  have hop := Opcode.ofByte?_byte op
  by_cases harg : op.hasArg = true
  · rw [if_pos harg] at hlen
    have hoperand : Word.bytes 4 (UInt32.ofNat (Word.value operand)).toNat = operand := by
      have hlt := Word.value_lt operand
      rw [hlen] at hlt
      rw [Word.toNat_ofNat_of_fits (by omega), ← hlen]
      exact Word.bytes_value operand
    refine ⟨⟨op.byte, some (UInt32.ofNat (Word.value operand)), 0, 0⟩, ?_⟩
    have hi : Encodes ⟨op.byte, some (UInt32.ofNat (Word.value operand)), 0, 0⟩ _ :=
      .withArg hop harg rfl
    rw [hoperand] at hi
    exact hi
  · rw [if_neg harg, List.length_eq_zero_iff] at hlen
    subst hlen
    exact ⟨⟨op.byte, none, 0, 0⟩, .bare hop (Bool.eq_false_iff.2 harg) rfl⟩

/-- **Instructions encode exactly to complete parts**, one for each. -/
lemma exists_encodeAll_iff (code : List UInt8) :
    (∃ insns, InstructionSet.standard.encodeAll insns = .ok code) ↔
      ∃ parts : List (List UInt8), code = parts.flatten ∧ ∀ part ∈ parts, Complete part := by
  constructor
  · rintro ⟨insns, h⟩
    induction insns generalizing code with
    | nil =>
      obtain rfl : [] = code := Except.ok.inj h
      exact ⟨[], rfl, by simp⟩
    | cons i rest ih =>
      obtain ⟨bs, more, hbs, hmore, rfl⟩ := encodeAll_cons h
      obtain ⟨parts, rfl, hparts⟩ := ih more hmore
      exact ⟨bs :: parts, rfl, List.forall_mem_cons.2 ⟨hbs.complete, hparts⟩⟩
  · rintro ⟨parts, rfl, hparts⟩
    induction parts with
    | nil => exact ⟨[], rfl⟩
    | cons part rest ih =>
      obtain ⟨hpart, hrest⟩ := List.forall_mem_cons.1 hparts
      obtain ⟨i, hi⟩ := hpart.exists_encodes
      obtain ⟨insns, hinsns⟩ := ih hrest
      exact ⟨i :: insns, encodeAll_cons_of_encodes hi hinsns⟩

/-- **Decoding and encoding are inverse to each other.** What decodes is laid out from offset zero
over all its bytes, and encodes to them. A stream can be encoded exactly if every opcode in it is
known and has an operand exactly when it takes one; if its widths add up to a 32-bit word, its bytes
decode to the same opcodes and operands, laid out from offset zero on and without lines. So a byte
string decodes exactly if it is made of complete instructions. -/
theorem codec_bijective :
    (∀ code insns, InstructionSet.standard.decode code = .ok insns →
      InstructionSet.standard.LaidOut 0 insns ∧
        InstructionSet.standard.extent insns = code.length ∧
        InstructionSet.standard.encodeAll insns = .ok code) ∧
    (∀ insns, InstructionSet.standard.extent insns < 4294967296 →
      ((∃ code, InstructionSet.standard.encodeAll insns = .ok code) ↔
          ∀ i ∈ insns, ∃ op, Opcode.ofByte? i.opcode = some op ∧ i.arg.isSome = op.hasArg) ∧
        ∀ code, InstructionSet.standard.encodeAll insns = .ok code →
          InstructionSet.standard.decode code =
            .ok (InstructionSet.standard.relaid 0 insns)) ∧
    ∀ code : List UInt8, code.length < 4294967296 →
      ((∃ insns, InstructionSet.standard.decode code = .ok insns) ↔
        ∃ parts : List (List UInt8), code = parts.flatten ∧ ∀ part ∈ parts, Complete part) := by
  refine ⟨fun code insns h => ?_, fun insns hfits => ⟨?_, fun code h => ?_⟩, fun code hfits => ?_⟩
  · obtain ⟨hlaid, hextent⟩ := laidOut_of_decodeFrom h
    exact ⟨hlaid, hextent, encodeAll_of_decodeFrom h⟩
  · exact ⟨fun ⟨_, h⟩ => encodable_of_encodeAll h, encodeAll_of_encodable⟩
  · apply decodeFrom_of_encodeAll h
    omega
  · rw [← exists_encodeAll_iff]
    constructor
    · rintro ⟨insns, h⟩
      exact ⟨insns, encodeAll_of_decodeFrom h⟩
    · rintro ⟨insns, h⟩
      have hextent := length_encodeAll h
      exact ⟨_, decodeFrom_of_encodeAll h (by omega)⟩

/-- A constant pushed and returned goes both ways. -/
theorem codec_bijective_return :
    InstructionSet.standard.decode [0x10, 1, 0, 0, 0, 0x12] =
        .ok [⟨0x10, some 1, 0, 0⟩, ⟨0x12, none, 5, 0⟩] ∧
      InstructionSet.standard.encodeAll [⟨0x10, some 1, 0, 0⟩, ⟨0x12, none, 5, 0⟩] =
        .ok [0x10, 1, 0, 0, 0, 0x12] ∧
      ∃ parts : List (List UInt8), [0x10, 1, 0, 0, 0, 0x12] = parts.flatten ∧
        ∀ part ∈ parts, Complete part := by
  have hdecode : InstructionSet.standard.decode [0x10, 1, 0, 0, 0, 0x12] =
      .ok [⟨0x10, some 1, 0, 0⟩, ⟨0x12, none, 5, 0⟩] := by rfl
  obtain ⟨hback, -, hparts⟩ := codec_bijective
  exact ⟨hdecode, (hback _ _ hdecode).2.2, (hparts _ (by decide)).1 ⟨_, hdecode⟩⟩

end Standard

end CoverProbe
