import CoverProbe.Proofs.Assembly.Calls
import CoverProbe.Proofs.Assembly.Layout
import CoverProbe.Proofs.Instruction.StandardCodec
import CoverProbe.Proofs.LineTable.Attribution

set_option relaxedAutoImplicit false
set_option autoImplicit false

/-!
# Building standard units

A unit of standard instructions is built exactly if its instructions have bytes, its labels can be
reached, it is not too long and, where line bytes are unsigned, its lines never step back. What is
built decodes to the instructions that were added, every label at the instruction that it was bound
to.

## Main definitions

* `CoverProbe.Builder.Sound` — an item that can be built where it stands.
* `CoverProbe.Builder.Buildable` — calls that build a unit.
* `CoverProbe.Builder.Emitted` — a decoded instruction that an item stands for.

## Main results

* `CoverProbe.CodeUnit.instructions_of_encodeAll` — a unit decodes to the instructions it was
  encoded from.
* `CoverProbe.Builder.finish_outcome` — when a unit is built, and what it decodes to.
-/

namespace CoverProbe

/-! ## Units encoded from instructions -/

/-- The lines of instructions laid out have a table, unless they step back and line bytes are
unsigned. -/
lemma LineTable.exists_encode_lineRuns_iff {sign : SignConvention} {firstLine : UInt32}
    {insns : List Instruction} (hlaid : InstructionSet.standard.LaidOut 0 insns) :
    (∃ table, LineTable.encode sign (Instruction.lineRuns insns) firstLine = .ok table) ↔
      (sign = .unsigned → (firstLine :: insns.map (·.line)).IsChain (· ≤ ·)) := by
  have hordered : LineStart.Ordered (Instruction.lineRuns insns) := by
    refine Instruction.ordered_lineRuns (hlaid.increasing Standard.width_pos) fun i hi => ?_
    cases insns with
    | nil => simp at hi
    | cons o rest =>
      obtain rfl := Option.some.inj hi
      exact UInt32.toNat_inj.1 hlaid.1
  rw [← Instruction.forward_lineRuns]
  constructor
  · rintro ⟨table, htable⟩ rfl
    by_contra hback
    obtain ⟨cause, hcause⟩ := LineTable.encode_of_backward hordered hback
    exact absurd (htable.symm.trans hcause) (by simp)
  · intro hforward
    obtain ⟨table, htable, -⟩ := LineTable.decode_encode hordered hforward
    exact ⟨table, htable⟩

/-- The lines of a unit start where the lines of the instructions begin from which its table was
made; the empty table stands for the base line. -/
lemma CodeUnit.lineStarts_of_encode {u : CodeUnit} {sign : SignConvention}
    {insns : List Instruction}
    (htable : LineTable.encode sign (Instruction.lineRuns insns) u.firstLine = .ok u.lineTable) :
    u.lineStarts sign =
      .ok (if insns.isEmpty then [⟨0, u.firstLine⟩] else Instruction.lineRuns insns) := by
  cases insns with
  | nil =>
    have hempty : u.lineTable = [] := (Except.ok.inj htable).symm
    obtain ⟨table, hencode, hdecoded⟩ := @LineTable.decode_encode sign u.firstLine []
      (by simp [LineStart.Ordered]) (fun _ => by simp [LineStart.Forward])
    obtain rfl : [] = table := Except.ok.inj hencode
    rw [CodeUnit.lineStarts, hempty, hdecoded, if_pos rfl]
    rfl
  | cons i rest =>
    refine LineTable.decode_of_encode htable ?_ (Instruction.isChain_lineRunsFrom none _).1
    rw [Instruction.lineRuns, Instruction.lineRunsFrom, if_neg (by simp)]
    exact List.cons_ne_nil _ _

/-- **A unit decodes to the instructions it was encoded from**, with their lines. -/
theorem CodeUnit.instructions_of_encodeAll {u : CodeUnit} {sign : SignConvention}
    {insns : List Instruction} (hlaid : InstructionSet.standard.LaidOut 0 insns)
    (hcode : InstructionSet.standard.encodeAll insns = .ok u.code)
    (htable : LineTable.encode sign (Instruction.lineRuns insns) u.firstLine = .ok u.lineTable) :
    u.instructions .standard sign = .ok insns := by
  have hdecode : InstructionSet.standard.decode u.code = .ok (insns.map Instruction.unattributed) :=
    Standard.decodeFrom_encodeAll hcode hlaid
  rw [CodeUnit.instructions, hdecode, lineStarts_of_encode htable]
  cases insns with
  | nil => rfl
  | cons i rest =>
    exact congrArg Except.ok (Instruction.withLines_lineRuns (hlaid.increasing Standard.width_pos))

namespace Builder

/-! ## Items -/

/-- An item that can be built as number `k`: its opcode is known; it has an operand exactly when the
opcode takes one; and a label belongs to a jump and is bound, for a relative jump not before the end
of that. -/
def Sound (calls : List Call) (k : Nat) (item : Item) : Prop :=
  ∃ op, Opcode.ofByte? item.opcode = some op ∧
    match item.operand with
    | .none => op.hasArg = false
    | .immediate _ => op.hasArg = true
    | .label name => ∃ kind target, op.classOf = .jump kind ∧ Binds calls name target ∧
        (kind = .relative → offsetOf .standard (emitted calls) (k + 1) ≤
          offsetOf .standard (emitted calls) target)

/-- The instruction that item number `k` stands for: it stands behind the items before it, and an
operand that was a label makes it jump to the item that the label is bound to. -/
structure Emitted (calls : List Call) (k : Nat) (item : Item) (i : Instruction) : Prop where
  opcode : i.opcode = item.opcode
  line : i.line = item.line
  offset : i.offset.toNat = offsetOf .standard (emitted calls) k
  operand : match item.operand with
    | .none => i.arg = none
    | .immediate value => i.arg = some value
    | .label name => ∃ target, Binds calls name target ∧
        InstructionSet.standard.jumpTarget i = some (offsetOf .standard (emitted calls) target)

variable {name : String} {firstLine : UInt32} {sign : SignConvention} {calls : List Call}

/-! ## Labels of jumps -/

/-- An operand that reaches a target can be found for a jump, for a relative one if the target does
not lie before its end; and with that operand, as the jump was laid out, it leads there. -/
lemma reach_ofNat_eq_ok {isa : InstructionSet} {insn : Instruction} {target : Nat}
    (htarget : target < 4294967296) {arg : UInt32} :
    reach isa name (UInt32.ofNat target) insn = .ok arg ↔
      (∃ kind, isa.classOf insn = .jump kind ∧
        (kind = .relative → insn.offset.toNat + isa.width insn ≤ target)) ∧
      (isa.classOf insn).target (insn.offset.toNat + isa.width insn) (some arg) = some target := by
  have hword := Word.toNat_ofNat_of_fits htarget
  rw [reach_eq_ok, hword]
  cases hclass : isa.classOf insn with
  | jump kind =>
    cases kind with
    | absolute =>
      simp only [OpClass.target, OpClass.jump.injEq, Option.some.injEq, true_and, reduceCtorEq,
        false_and, or_false, exists_eq_left', false_implies]
      constructor
      · rintro rfl
        exact hword
      · intro h
        rw [← h, UInt32.ofNat_toNat]
    | relative =>
      simp only [OpClass.target, OpClass.jump.injEq, Option.some.injEq, true_and, reduceCtorEq,
        false_and, false_or, exists_eq_left', forall_const]
      refine and_congr_right fun hle => ?_
      constructor
      · rintro rfl
        rw [Word.toNat_ofNat_of_fits (by omega)]
        omega
      · intro h
        rw [← h, Nat.add_sub_cancel_left, UInt32.ofNat_toNat]
  | plain => simp
  | pinned => simp
  | indirect => simp

/-- An operand reaches a target with a standard jump exactly if it makes the jump lead there. -/
lemma reach_standard {insn : Instruction} {target : Nat} (htarget : target < 4294967296)
    {arg : UInt32} :
    reach .standard name (UInt32.ofNat target) insn = .ok arg ↔
      (∃ kind, Standard.classOf insn = .jump kind ∧
        (kind = .relative → insn.offset.toNat + Standard.width insn ≤ target)) ∧
      InstructionSet.standard.jumpTarget { insn with arg := some arg } = some target :=
  reach_ofNat_eq_ok htarget

/-- Of a jump and a target that it reaches, the operand is determined and can be found. -/
lemma exists_reach_standard {insn : Instruction} {target : Nat} (htarget : target < 4294967296) :
    (∃ arg, reach .standard name (UInt32.ofNat target) insn = .ok arg) ↔
      ∃ kind, Standard.classOf insn = .jump kind ∧
        (kind = .relative → insn.offset.toNat + Standard.width insn ≤ target) := by
  constructor
  · rintro ⟨arg, harg⟩
    exact ((reach_standard htarget).1 harg).1
  · intro h
    obtain ⟨kind, hclass, hahead⟩ := id h
    cases kind with
    | absolute => exact ⟨_, reach_eq_ok.2 (.inl ⟨hclass, rfl⟩)⟩
    | relative =>
      refine ⟨_, reach_eq_ok.2 (.inr ⟨hclass, ?_, rfl⟩)⟩
      rw [Word.toNat_ofNat_of_fits htarget]
      exact hahead rfl

/-! ## Resolved items -/

section

variable {isa : InstructionSet}

/-- The offset of a label is that of the item it is bound to. -/
lemma labelOffset?_build (wanted : String) (offset : UInt32) :
    (build name firstLine sign calls).labelOffset? isa wanted = some offset ↔
      ∃ target, Binds calls wanted target ∧
        UInt32.ofNat (offsetOf isa (emitted calls) target) = offset := by
  rw [labelOffset?, Option.map_eq_some_iff, toList_items_build]
  simp only [lookup_build]

/-- The offsets of items are words if the end is. -/
lemma toNat_ofNat_offsetOf {items : List Item}
    (hsize : offsetOf isa items items.length < 4294967296) (k : Nat) :
    (UInt32.ofNat (offsetOf isa items k)).toNat = offsetOf isa items k :=
  Word.toNat_ofNat_of_fits (Nat.lt_of_le_of_lt (offsetOf_le items k) hsize)

/-- An item without a label is resolved as it was laid out. -/
lemma resolveAt_build_of_not_label {k : Nat} {item : Item}
    (hlabel : ∀ wanted, item.operand ≠ .label wanted) :
    (build name firstLine sign calls).resolveAt isa k item =
      .ok (item.provisional (UInt32.ofNat (offsetOf isa (emitted calls) k))) := by
  rw [resolveAt, toList_items_build]
  exact resolve_eq_ok.2 (.inl ⟨hlabel, rfl⟩)

/-- A label is resolved to the operand that reaches the item it is bound to. -/
lemma resolveAt_build_label {k : Nat} {item : Item} {wanted : String}
    (hlabel : item.operand = .label wanted) {i : Instruction} :
    (build name firstLine sign calls).resolveAt isa k item = .ok i ↔
      ∃ target arg, Binds calls wanted target ∧
        reach isa wanted (UInt32.ofNat (offsetOf isa (emitted calls) target))
          (item.provisional (UInt32.ofNat (offsetOf isa (emitted calls) k))) = .ok arg ∧
        i = { item.provisional (UInt32.ofNat (offsetOf isa (emitted calls) k)) with
          arg := some arg } := by
  rw [resolveAt, toList_items_build, resolve_eq_ok]
  constructor
  · rintro (⟨hno, -⟩ | ⟨wanted', offset, arg, hlabel', hoffset, harg, rfl⟩)
    · exact absurd hlabel (hno wanted)
    · obtain rfl := Operand.label.inj (hlabel.symm.trans hlabel')
      obtain ⟨target, hbinds, rfl⟩ := (labelOffset?_build _ _).1 hoffset
      exact ⟨target, arg, hbinds, harg, rfl⟩
  · rintro ⟨target, arg, hbinds, harg, rfl⟩
    exact .inr ⟨wanted, _, arg, hlabel, (labelOffset?_build _ _).2 ⟨target, hbinds, rfl⟩, harg,
      rfl⟩

end

/-- An item where it stands, its label not yet resolved. -/
def placed (calls : List Call) (k : Nat) (item : Item) : Instruction :=
  item.provisional (UInt32.ofNat (offsetOf .standard (emitted calls) k))

section

variable {k : Nat} {item : Item}
  (hsize : offsetOf .standard (emitted calls) (emitted calls).length < 4294967296)
  (hitem : (emitted calls)[k]? = some item)

include hsize hitem in
/-- An item ends where the next one begins. -/
lemma stop_placed : (placed calls k item).offset.toNat + Standard.width (placed calls k item) =
    offsetOf .standard (emitted calls) (k + 1) := by
  have hoffset : (placed calls k item).offset.toNat = offsetOf .standard (emitted calls) k :=
    toNat_ofNat_offsetOf hsize k
  rw [hoffset, offsetOf_succ hitem]
  rfl

include hsize in
/-- **A resolved item is what was emitted.** -/
lemma emitted_of_resolveAt {i : Instruction}
    (h : (build name firstLine sign calls).resolveAt .standard k item = .ok i) :
    Emitted calls k item i := by
  have hoffset := toNat_ofNat_offsetOf hsize k
  cases hop : item.operand with
  | none =>
    rw [resolveAt_build_of_not_label (by simp [hop])] at h
    obtain rfl := Except.ok.inj h
    refine ⟨rfl, rfl, hoffset, ?_⟩
    rw [hop]
    show item.operand.provisional = none
    rw [hop]
    rfl
  | immediate value =>
    rw [resolveAt_build_of_not_label (by simp [hop])] at h
    obtain rfl := Except.ok.inj h
    refine ⟨rfl, rfl, hoffset, ?_⟩
    rw [hop]
    show item.operand.provisional = some value
    rw [hop]
    rfl
  | label wanted =>
    obtain ⟨target, arg, hbinds, harg, rfl⟩ := (resolveAt_build_label hop).1 h
    have htarget := Nat.lt_of_le_of_lt (offsetOf_le (emitted calls) target) hsize
    refine ⟨rfl, rfl, hoffset, ?_⟩
    rw [hop]
    exact ⟨target, hbinds, ((reach_standard htarget).1 harg).2⟩

include hsize hitem in
/-- **An item is sound exactly if it can be resolved and then has bytes.** -/
lemma sound_iff : Sound calls k item ↔
    ∃ i, (build name firstLine sign calls).resolveAt .standard k item = .ok i ∧
      Standard.Encodable i := by
  have hstop := stop_placed hsize hitem
  have hbare : (∀ wanted, item.operand ≠ .label wanted) →
      ((∃ i, (build name firstLine sign calls).resolveAt .standard k item = .ok i ∧
        Standard.Encodable i) ↔ ∃ op, Opcode.ofByte? item.opcode = some op ∧
          item.operand.provisional.isSome = op.hasArg) := by
    intro hlabel
    rw [resolveAt_build_of_not_label hlabel]
    constructor
    · rintro ⟨i, h, henc⟩
      obtain rfl := Except.ok.inj h
      exact henc
    · intro henc
      exact ⟨_, rfl, henc⟩
  cases hop : item.operand with
  | none =>
    rw [hbare (by simp [hop]), Sound, hop]
    simp only [Operand.provisional, Option.isSome_none, eq_comm]
  | immediate value =>
    rw [hbare (by simp [hop]), Sound, hop]
    simp only [Operand.provisional, Option.isSome_some, eq_comm]
  | label wanted =>
    rw [Sound, hop]
    constructor
    · rintro ⟨op, hknown, kind, target, hclass, hbinds, hahead⟩
      have htarget := Nat.lt_of_le_of_lt (offsetOf_le (emitted calls) target) hsize
      have hjump : Standard.classOf (placed calls k item) = .jump kind :=
        (Standard.classOf_eq hknown).trans hclass
      obtain ⟨arg, harg⟩ :=
        (exists_reach_standard htarget).2 ⟨kind, hjump, fun h => hstop.trans_le (hahead h)⟩
      exact ⟨_, (resolveAt_build_label hop).2 ⟨target, arg, hbinds, harg, rfl⟩, op, hknown,
        (Standard.hasArg_of_isJump (by rw [hclass]; rfl)).symm⟩
    · rintro ⟨i, h, op, hknown, -⟩
      obtain ⟨target, arg, hbinds, harg, rfl⟩ := (resolveAt_build_label hop).1 h
      have htarget := Nat.lt_of_le_of_lt (offsetOf_le (emitted calls) target) hsize
      obtain ⟨⟨kind, hjump, hahead⟩, -⟩ := (reach_standard htarget).1 harg
      exact ⟨op, hknown, kind, target, (Standard.classOf_eq hknown).symm.trans hjump, hbinds,
        fun h => hstop.symm.trans_le (hahead h)⟩

end

/-! ## Units -/

/-- Calls that build a unit: every item can be built, the items end at a 32-bit word, and where line
bytes are unsigned the lines never step back from the first line on. -/
structure Buildable (sign : SignConvention) (firstLine : UInt32) (calls : List Call) : Prop where
  items : ∀ k item, (emitted calls)[k]? = some item → Sound calls k item
  size : offsetOf .standard (emitted calls) (emitted calls).length < 4294967296
  lines : sign = .unsigned → (firstLine :: (emitted calls).map (·.line)).IsChain (· ≤ ·)

/-- A unit is finished from its instructions, their bytes and their line table. -/
lemma finish_eq_ok {b : Builder} {isa : InstructionSet} {u : CodeUnit} :
    b.finish isa = .ok u ↔ ∃ insns, b.instructions isa = .ok insns ∧
      isa.encodeAll insns = .ok u.code ∧
      LineTable.encode b.sign (Instruction.lineRuns insns) b.firstLine = .ok u.lineTable ∧
      u.name = b.name ∧ u.firstLine = b.firstLine ∧ u.consts = b.consts := by
  rw [finish]
  simp only [Checked.bind_eq_ok]
  constructor
  · rintro ⟨insns, hinsns, code, hcode, table, htable, h⟩
    obtain rfl := Except.ok.inj h
    exact ⟨insns, hinsns, hcode, htable, rfl, rfl, rfl⟩
  · rintro ⟨insns, hinsns, hcode, htable, hname, hfirst, hconsts⟩
    refine ⟨insns, hinsns, u.code, hcode, u.lineTable, htable, ?_⟩
    rw [← hname, ← hfirst, ← hconsts]
    cases u
    rfl

/-- Instructions that are what was emitted lie on the lines that were given. -/
lemma map_line_of_emitted {insns : List Instruction} (hlen : insns.length = (emitted calls).length)
    (h : ∀ k item i, (emitted calls)[k]? = some item → insns[k]? = some i →
      Emitted calls k item i) :
    insns.map (·.line) = (emitted calls).map (·.line) := by
  refine List.ext_getElem (by simpa using hlen) fun k hk hk' => ?_
  rw [List.length_map] at hk hk'
  rw [List.getElem_map, List.getElem_map]
  exact (h k _ _ (List.getElem?_eq_getElem hk') (List.getElem?_eq_getElem hk)).line

/-- Instructions that are what was emitted stand one behind the other, as far as the items do. -/
lemma laidOut_of_emitted {insns : List Instruction} (hlen : insns.length = (emitted calls).length)
    (h : ∀ k item i, (emitted calls)[k]? = some item → insns[k]? = some i →
      Emitted calls k item i) :
    InstructionSet.standard.LaidOut 0 insns ∧ InstructionSet.standard.extent insns =
      offsetOf .standard (emitted calls) (emitted calls).length := by
  refine laidOut_of_offsets hlen fun k item i hitem hi => ?_
  have hthis := h k item i hitem hi
  refine ⟨by rw [hthis.offset, Nat.zero_add], ?_⟩
  show ((Opcode.ofByte? i.opcode).map Opcode.width).getD 1 = _
  rw [hthis.opcode]
  rfl

/-- Instructions of a builder are what was emitted, one by one. -/
lemma instructions_build {insns : List Instruction}
    (h : (build name firstLine sign calls).instructions .standard = .ok insns) :
    offsetOf .standard (emitted calls) (emitted calls).length < 4294967296 ∧
      insns.length = (emitted calls).length ∧
      ∀ k item i, (emitted calls)[k]? = some item → insns[k]? = some i →
        Emitted calls k item i := by
  rw [instructions_eq_ok (fun _ _ _ => rfl), toList_items_build] at h
  obtain ⟨hsize, hlen, hresolve⟩ := h
  exact ⟨hsize, hlen, fun k item i hitem hi =>
    emitted_of_resolveAt hsize (hresolve k item i hitem hi)⟩

/-- Calls that build a unit are buildable. -/
lemma buildable_of_finish {u : CodeUnit}
    (h : (build name firstLine sign calls).finish .standard = .ok u) :
    Buildable sign firstLine calls := by
  obtain ⟨-, hfirst, hsign⟩ := head_build name firstLine sign calls
  obtain ⟨insns, hinsns, hcode, htable, -⟩ := finish_eq_ok.1 h
  obtain ⟨hsize, hlen, hemitted⟩ := instructions_build hinsns
  rw [hsign, hfirst] at htable
  refine ⟨fun k item hitem => ?_, hsize, ?_⟩
  · obtain ⟨hk, -⟩ := List.getElem?_eq_some_iff.1 hitem
    have hi := List.getElem?_eq_getElem (hlen.symm ▸ hk : k < insns.length)
    rw [instructions_eq_ok (fun _ _ _ => rfl), toList_items_build] at hinsns
    exact (sound_iff hsize hitem).2 ⟨_, hinsns.2.2 k item _ hitem hi,
      Standard.encodable_of_encodeAll hcode _ (List.mem_of_getElem? hi)⟩
  · rw [← map_line_of_emitted hlen hemitted]
    exact (LineTable.exists_encode_lineRuns_iff (laidOut_of_emitted hlen hemitted).1).1
      ⟨_, htable⟩

/-- Buildable calls have instructions, and these have bytes. -/
lemma Buildable.exists_instructions (h : Buildable sign firstLine calls) (name : String) :
    ∃ insns, (build name firstLine sign calls).instructions .standard = .ok insns ∧
      ∀ i ∈ insns, Standard.Encodable i := by
  have hresolve : ∀ k item, (emitted calls)[k]? = some item →
      ∃ i, (build name firstLine sign calls).resolveAt .standard k item = .ok i ∧
        Standard.Encodable i := fun k item hitem =>
    (sound_iff h.size hitem).1 (h.items k item hitem)
  obtain ⟨insns, hinsns⟩ := Builder.exists_instructions (fun _ _ _ => rfl)
    (build name firstLine sign calls) (by rw [toList_items_build]; exact h.size)
    (by
      rw [toList_items_build]
      exact fun k item hitem => (hresolve k item hitem).imp fun _ hi => hi.1)
  refine ⟨insns, hinsns, fun i hi => ?_⟩
  obtain ⟨-, hlen, -⟩ := instructions_build hinsns
  obtain ⟨k, hk⟩ := List.getElem?_of_mem hi
  obtain ⟨hlt, -⟩ := List.getElem?_eq_some_iff.1 hk
  have hitem := List.getElem?_eq_getElem (hlen ▸ hlt : k < (emitted calls).length)
  obtain ⟨i', hi', henc⟩ := hresolve k _ hitem
  rw [instructions_eq_ok (fun _ _ _ => rfl), toList_items_build] at hinsns
  rwa [Except.ok.inj ((hinsns.2.2 k _ i hitem hk).symm.trans hi')]

/-- Buildable calls build a unit. -/
lemma Buildable.exists_finish (h : Buildable sign firstLine calls) (name : String) :
    ∃ u, (build name firstLine sign calls).finish .standard = .ok u := by
  obtain ⟨hname, hfirst, hsign⟩ := head_build name firstLine sign calls
  obtain ⟨insns, hinsns, henc⟩ := h.exists_instructions name
  obtain ⟨-, hlen, hemitted⟩ := instructions_build hinsns
  have hlines := map_line_of_emitted hlen hemitted
  obtain ⟨code, hcode⟩ := Standard.encodeAll_of_encodable henc
  obtain ⟨table, htable⟩ := (LineTable.exists_encode_lineRuns_iff
    (laidOut_of_emitted hlen hemitted).1).2 fun hs => hlines ▸ h.lines hs
  refine ⟨⟨name, firstLine, code, added calls, table⟩, finish_eq_ok.2
    ⟨insns, hinsns, hcode, ?_, hname.symm, hfirst.symm, consts_build.symm⟩⟩
  rw [hsign, hfirst]
  exact htable

/-- **When a unit is built, and what it decodes to.** A builder finishes exactly if the calls to it
are buildable. The unit then has the constants added in their order, and decodes to the instructions
emitted in their order, laid out one behind the other over all its code, each with its opcode,
operand and line; what was a label makes a jump to the instruction that it was bound to, or to the
end of the code.

**Proof sketch.** An item is sound exactly if it is resolved to an instruction with bytes
(`sound_iff`), so items have bytes if all are sound. They stand one behind the other, so they have a
line table unless lines step back (`LineTable.exists_encode_lineRuns_iff`), and code and table decode
to them (`CodeUnit.instructions_of_encodeAll`). -/
theorem finish_outcome (name : String) (firstLine : UInt32) (sign : SignConvention)
    (calls : List Call) :
    ((∃ u, (build name firstLine sign calls).finish .standard = .ok u) ↔
        Buildable sign firstLine calls) ∧
      ∀ u, (build name firstLine sign calls).finish .standard = .ok u →
        u.name = name ∧ u.firstLine = firstLine ∧ u.consts = added calls ∧
        u.code.length = offsetOf .standard (emitted calls) (emitted calls).length ∧
        ∃ insns, u.instructions .standard sign = .ok insns ∧
          InstructionSet.standard.LaidOut 0 insns ∧ insns.length = (emitted calls).length ∧
          ∀ k item i, (emitted calls)[k]? = some item → insns[k]? = some i →
            Emitted calls k item i := by
  constructor
  · exact ⟨fun ⟨_, hu⟩ => buildable_of_finish hu, fun h => h.exists_finish name⟩
  · intro u hu
    obtain ⟨hname, hfirst, hsign⟩ := head_build name firstLine sign calls
    obtain ⟨insns, hinsns, hcode, htable, huname, hufirst, hconsts⟩ := finish_eq_ok.1 hu
    obtain ⟨-, hlen, hemitted⟩ := instructions_build hinsns
    obtain ⟨hlaid, hextent⟩ := laidOut_of_emitted hlen hemitted
    rw [hsign, ← hufirst] at htable
    exact ⟨huname.trans hname, hufirst.trans hfirst, hconsts.trans consts_build,
      (Standard.length_encodeAll hcode).trans hextent, insns,
      CodeUnit.instructions_of_encodeAll hlaid hcode htable, hlaid, hlen, hemitted⟩

/-- A loop with a label ahead and a label behind. -/
example : (build "loop" 2 .signed
      [.label "again", .jump 2 Opcode.forIter.byte "done", .jump 2 Opcode.jump.byte "again",
        .label "done", .emit 3 Opcode.ret.byte none]).finish .standard =
    .ok ⟨"loop", 2, [0x23, 5, 0, 0, 0, 0x20, 0, 0, 0, 0, 0x12], [], [10, 1]⟩ := by
  rfl

end Builder

end CoverProbe
