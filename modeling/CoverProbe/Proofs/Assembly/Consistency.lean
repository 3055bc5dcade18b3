import CoverProbe.Proofs.Assembly.Finish
import CoverProbe.Proofs.Instruction.Regular

set_option relaxedAutoImplicit false
set_option autoImplicit false

/-!
# Layout before labels are known

A builder lays its items out before it resolves their labels, and looks at no width again. So what
it writes stands where the items stood, and a resolved jump leads where its label is bound as long
as resolving has left it as wide as it was. Where the width of a jump depends on its operand this
can fail, and then nothing reports it.

## Main definitions

* `CoverProbe.Builder.Written` — what an item is written as.
* `CoverProbe.Builder.Settled` — an instruction that resolving has left as it was laid out.
* `CoverProbe.Builder.Arranged` — what a finished unit says of its instructions.

## Main results

* `CoverProbe.Builder.arranged_of_finish` — the instructions of a finished unit, for every regular
  set: they stand one behind the other exactly if no label changed a width.
* `CoverProbe.Builder.finish_farJump` — a label that changes a width goes unnoticed.
-/

namespace CoverProbe.Builder

/-! ## Resolved items -/

/-- What item number `k` is written as: it stands where it was laid out, with its own operand; if
that is a label, the operand leads from there to the item that the label is bound to. -/
structure Written (isa : InstructionSet) (calls : List Call) (k : Nat) (item : Item)
    (i : Instruction) : Prop where
  opcode : i.opcode = item.opcode
  line : i.line = item.line
  offset : i.offset.toNat = offsetOf isa (emitted calls) k
  arg : (∀ wanted, item.operand ≠ .label wanted) → i.arg = item.operand.provisional
  aim : ∀ wanted, item.operand = .label wanted → ∃ kind target,
    isa.classOf (item.provisional i.offset) = .jump kind ∧ Binds calls wanted target ∧
      (OpClass.jump kind).target (offsetOf isa (emitted calls) (k + 1)) i.arg =
        some (offsetOf isa (emitted calls) target)

/-- Resolving has left an item as it was laid out: as wide, and of the same class. -/
structure Settled (isa : InstructionSet) (item : Item) (i : Instruction) : Prop where
  width : isa.width i = itemWidth isa item
  classOf : isa.classOf i = isa.classOf (item.provisional i.offset)

/-- What the instructions `insns` of a finished unit are. They stand where the items were laid out,
which is one behind the other exactly if all are as wide as they were laid out; and a jump to a
label leads to the item that the label is bound to, or to the end, if resolving has settled it. -/
structure Arranged (isa : InstructionSet) (calls : List Call) (insns : List Instruction) :
    Prop where
  length : insns.length = (emitted calls).length
  written : ∀ k item i, (emitted calls)[k]? = some item → insns[k]? = some i →
    Written isa calls k item i
  consistent : (isa.LaidOut 0 insns ∧
      isa.extent insns = offsetOf isa (emitted calls) (emitted calls).length) ↔
    ∀ (k : Nat) item i, (emitted calls)[k]? = some item → insns[k]? = some i →
      isa.width i = itemWidth isa item
  jumps : ∀ (k : Nat) item i wanted, (emitted calls)[k]? = some item → insns[k]? = some i →
    item.operand = .label wanted → Settled isa item i → ∃ target, Binds calls wanted target ∧
      isa.jumpTarget i = some (offsetOf isa (emitted calls) target) ∧
      InstructionSet.Lands insns (offsetOf isa (emitted calls) (emitted calls).length)
        (offsetOf isa (emitted calls) target) target

variable {isa : InstructionSet} {name : String} {firstLine : UInt32} {sign : SignConvention}
  {calls : List Call} {insns : List Instruction}

/-- A name is bound to an item, or behind the last one. -/
lemma Binds.le {k : Nat} (h : Binds calls name k) : k ≤ (emitted calls).length := by
  obtain ⟨before, after, rfl, -, rfl⟩ := h
  rw [emitted, emitted, List.filterMap_append, List.length_append]
  exact Nat.le_add_right _ _

/-- **A resolved item stands where it was laid out.** -/
lemma written_of_resolveAt (hisa : isa.Regular)
    (hsize : offsetOf isa (emitted calls) (emitted calls).length < 4294967296) {k : Nat}
    {item : Item} (hitem : (emitted calls)[k]? = some item) {i : Instruction}
    (h : (build name firstLine sign calls).resolveAt isa k item = .ok i) :
    Written isa calls k item i := by
  have hoffset := toNat_ofNat_offsetOf hsize k
  by_cases hlabel : ∃ wanted, item.operand = .label wanted
  · obtain ⟨wanted, hlabel⟩ := hlabel
    obtain ⟨target, arg, hbinds, hreach, rfl⟩ := (resolveAt_build_label hlabel).1 h
    have htarget := Nat.lt_of_le_of_lt (offsetOf_le (emitted calls) target) hsize
    obtain ⟨⟨kind, hclass, -⟩, haim⟩ := (reach_ofNat_eq_ok htarget).1 hreach
    refine ⟨rfl, rfl, hoffset, fun hno => absurd hlabel (hno wanted), ?_⟩
    intro wanted' hlabel'
    obtain rfl := Operand.label.inj (hlabel.symm.trans hlabel')
    refine ⟨kind, target, hclass, hbinds, ?_⟩
    -- The jump was laid out to end where the next item begins.
    have hstop : (UInt32.ofNat (offsetOf isa (emitted calls) k)).toNat + itemWidth isa item =
        offsetOf isa (emitted calls) (k + 1) := by
      rw [hoffset, offsetOf_succ hitem]
    rw [hclass, width_provisional hisa.width_place] at haim
    rw [← hstop]
    exact haim
  · have hno : ∀ wanted, item.operand ≠ .label wanted := fun wanted h => hlabel ⟨wanted, h⟩
    rw [resolveAt_build_of_not_label hno] at h
    obtain rfl := Except.ok.inj h
    exact ⟨rfl, rfl, hoffset, fun _ => rfl, fun wanted h => absurd h (hno wanted)⟩

/-- Instructions that stand where the items were laid out stand one behind the other only if they
are as wide. -/
lemma width_eq_of_laidOut (hlen : insns.length = (emitted calls).length)
    (hwritten : ∀ k item i, (emitted calls)[k]? = some item → insns[k]? = some i →
      Written isa calls k item i)
    (hlaid : isa.LaidOut 0 insns)
    (hextent : isa.extent insns = offsetOf isa (emitted calls) (emitted calls).length) {k : Nat}
    {item : Item} {i : Instruction} (hitem : (emitted calls)[k]? = some item)
    (hi : insns[k]? = some i) : isa.width i = itemWidth isa item := by
  -- Offsets agree with the sums of the items' widths, also at the end.
  have hsum : ∀ j ≤ insns.length, isa.offsetAt 0 insns j = offsetOf isa (emitted calls) j := by
    intro j hj
    by_cases hlt : j < insns.length
    · have hget := List.getElem?_eq_getElem hlt
      rw [← hlaid.offset_eq hget]
      exact (hwritten j _ _ (List.getElem?_eq_getElem (hlen ▸ hlt)) hget).offset
    · obtain rfl := Nat.le_antisymm hj (Nat.not_lt.1 hlt)
      rw [InstructionSet.offsetAt, List.take_length, Nat.zero_add, hextent, hlen]
  obtain ⟨hk, rfl⟩ := List.getElem?_eq_some_iff.1 hi
  have hnext := hsum (k + 1) hk
  rw [InstructionSet.offsetAt_succ 0 hk, hsum k (Nat.le_of_lt hk), offsetOf_succ hitem] at hnext
  exact Nat.add_left_cancel hnext

/-- An item that a name is bound to begins where it was laid out, and the end where the items
end. -/
lemma lands_offsetOf (hlen : insns.length = (emitted calls).length)
    (hwritten : ∀ k item i, (emitted calls)[k]? = some item → insns[k]? = some i →
      Written isa calls k item i) {wanted : String} {target : Nat}
    (hbinds : Binds calls wanted target) :
    InstructionSet.Lands insns (offsetOf isa (emitted calls) (emitted calls).length)
      (offsetOf isa (emitted calls) target) target := by
  by_cases hlt : target < insns.length
  · have hget := List.getElem?_eq_getElem hlt
    exact .inl ⟨_, hget, (hwritten target _ _ (List.getElem?_eq_getElem (hlen ▸ hlt)) hget).offset⟩
  · have hend : target = insns.length :=
      Nat.le_antisymm (hlen ▸ hbinds.le) (Nat.not_lt.1 hlt)
    exact .inr ⟨hend, by rw [hend, hlen]⟩

/-- A settled jump leads where its operand was aimed when it was laid out. -/
lemma jumpTarget_of_settled (hisa : isa.Regular) {k : Nat} {item : Item} {i : Instruction}
    (hitem : (emitted calls)[k]? = some item) (hwritten : Written isa calls k item i)
    (hsettled : Settled isa item i) {wanted : String} (hlabel : item.operand = .label wanted) :
    ∃ target, Binds calls wanted target ∧
      isa.jumpTarget i = some (offsetOf isa (emitted calls) target) := by
  obtain ⟨kind, target, hclass, hbinds, haim⟩ := hwritten.aim wanted hlabel
  refine ⟨target, hbinds, ?_⟩
  rw [hisa.jumpTarget_eq, hsettled.classOf, hclass, hsettled.width, hwritten.offset,
    ← offsetOf_succ hitem]
  exact haim

/-! ## Finished units -/

/-- **What the instructions of a finished unit are**, for every regular instruction set, also if
widths depend on operands.

**Proof sketch.** Every item is resolved where it was laid out (`written_of_resolveAt`), so offsets
are sums of the widths with labels unresolved. They are the sums of the final widths exactly if
these agree one by one (`width_eq_of_laidOut`). An operand was computed from where its jump was laid
out to end, so the jump leads to its label if it still ends there (`jumpTarget_of_settled`). -/
theorem arranged_of_finish (hisa : isa.Regular) {u : CodeUnit}
    (h : (build name firstLine sign calls).finish isa = .ok u) :
    ∃ insns, (build name firstLine sign calls).instructions isa = .ok insns ∧
      isa.encodeAll insns = .ok u.code ∧
      LineTable.encode sign (Instruction.lineRuns insns) firstLine = .ok u.lineTable ∧
      Arranged isa calls insns := by
  obtain ⟨-, hfirst, hsign⟩ := head_build name firstLine sign calls
  obtain ⟨insns, hinsns, hcode, htable, -⟩ := finish_eq_ok.1 h
  rw [hsign, hfirst] at htable
  have hresolved := hinsns
  rw [instructions_eq_ok hisa.width_place, toList_items_build] at hresolved
  obtain ⟨hsize, hlen, hresolve⟩ := hresolved
  have hwritten : ∀ k item i, (emitted calls)[k]? = some item → insns[k]? = some i →
      Written isa calls k item i := fun k item i hitem hi =>
    written_of_resolveAt hisa hsize hitem (hresolve k item i hitem hi)
  refine ⟨insns, hinsns, hcode, htable, hlen, hwritten, ⟨?_, ?_⟩, ?_⟩
  · rintro ⟨hlaid, hextent⟩ k item i hitem hi
    exact width_eq_of_laidOut hlen hwritten hlaid hextent hitem hi
  · intro hwidth
    refine laidOut_of_offsets hlen fun k item i hitem hi => ⟨?_, hwidth k item i hitem hi⟩
    rw [Nat.zero_add]
    exact (hwritten k item i hitem hi).offset
  · intro k item i wanted hitem hi hlabel hsettled
    obtain ⟨target, hbinds, htarget⟩ :=
      jumpTarget_of_settled hisa hitem (hwritten k item i hitem hi) hsettled hlabel
    exact ⟨target, hbinds, htarget, lands_offsetOf hlen hwritten hbinds⟩

/-- A wide jump to an offset, and a narrow one to a label. -/
def nearJump : List Call :=
  [.emit 2 Opcode.jump.byte (some 300), .jump 2 Opcode.jump.byte "done", .label "done",
    .emit 3 Opcode.ret.byte none]

/-- A jump over 255 bytes of code. -/
def farJump : List Call :=
  .jump 2 Opcode.jump.byte "end" :: List.replicate 51 (.emit 2 Opcode.loadName.byte (some 0)) ++
    [.label "end", .emit 2 Opcode.ret.byte none]

/-- Where the label is near, the layout is that of the final instructions. -/
theorem arranged_nearJump : Variant.wideJumps.instructionSet.Regular ∧
    ∃ u insns, (build "near" 1 .signed nearJump).finish Variant.wideJumps.instructionSet = .ok u ∧
      (build "near" 1 .signed nearJump).instructions Variant.wideJumps.instructionSet = .ok insns ∧
      Variant.wideJumps.instructionSet.encodeAll insns = .ok u.code ∧
      Arranged Variant.wideJumps.instructionSet nearJump insns ∧
      insns = [⟨0x20, some 300, 0, 2⟩, ⟨0x20, some 14, 9, 2⟩, ⟨0x12, none, 14, 3⟩] := by
  have hfinish : (build "near" 1 .signed nearJump).finish Variant.wideJumps.instructionSet =
      .ok ⟨"near", 1, [0x20, 44, 1, 0, 0, 0x20, 14, 0, 0, 0, 0x12], [], [0, 1, 14, 1]⟩ := by rfl
  have hinsns : (build "near" 1 .signed nearJump).instructions Variant.wideJumps.instructionSet =
      .ok [⟨0x20, some 300, 0, 2⟩, ⟨0x20, some 14, 9, 2⟩, ⟨0x12, none, 14, 3⟩] := by rfl
  obtain ⟨insns, hinsns', hcode, -, harranged⟩ := arranged_of_finish Variant.wideJumps.regular hfinish
  obtain rfl := Except.ok.inj (hinsns'.symm.trans hinsns)
  exact ⟨Variant.wideJumps.regular, _, _, hfinish, hinsns, hcode, harranged, rfl⟩

/-- **A label that changes a width goes unnoticed.** The label of the jump is bound 260 bytes on, and
so makes the jump wide; the unit is finished, yet its second instruction is said to stand where the
jump ended when it was narrow. -/
theorem finish_farJump : Variant.wideJumps.instructionSet.Regular ∧
    (∃ u, (build "far" 1 .signed farJump).finish Variant.wideJumps.instructionSet = .ok u) ∧
    ∃ insns i, (build "far" 1 .signed farJump).instructions Variant.wideJumps.instructionSet = .ok insns ∧
      insns[1]? = some i ∧ i.offset = 5 ∧ Variant.wideJumps.instructionSet.offsetAt 0 insns 1 = 9 ∧
      ¬ Variant.wideJumps.instructionSet.LaidOut 0 insns := by
  have hinsns : (build "far" 1 .signed farJump).instructions Variant.wideJumps.instructionSet = .ok
      (⟨0x20, some 260, 0, 2⟩ :: (List.range 51).map (fun k =>
        ⟨0x14, some 0, UInt32.ofNat (5 * k + 5), 2⟩) ++ [⟨0x12, none, 260, 2⟩]) := by
    decide +kernel
  have hfinish : ((build "far" 1 .signed farJump).finish Variant.wideJumps.instructionSet).isOk = true := by
    decide +kernel
  refine ⟨Variant.wideJumps.regular, ?_, _, ⟨0x14, some 0, 5, 2⟩, hinsns, rfl, rfl, rfl, ?_⟩
  · cases hu : (build "far" 1 .signed farJump).finish Variant.wideJumps.instructionSet with
    | error fault =>
      rw [hu] at hfinish
      exact absurd hfinish Bool.false_ne_true
    | ok u => exact ⟨u, rfl⟩
  · rintro ⟨-, hsecond, -⟩
    exact absurd hsecond (by decide)

end CoverProbe.Builder
