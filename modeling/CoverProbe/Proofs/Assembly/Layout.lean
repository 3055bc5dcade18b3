import Mathlib.Algebra.BigOperators.Group.List.Basic
import CoverProbe.Assembly.Builder
import CoverProbe.Proofs.Checked
import CoverProbe.Proofs.Instruction.Stream
import CoverProbe.Proofs.Word

set_option relaxedAutoImplicit false
set_option autoImplicit false

/-!
# Laying out items

The items of a builder are laid out one behind the other, by the widths of the instructions with
their labels not yet resolved. So the offset of an item is the sum of the widths before it, and a
label stands for the offset of the item that it is bound to, or for the end.

## Main definitions

* `CoverProbe.Builder.itemWidth`, `CoverProbe.Builder.offsetOf` — the width of an item, and its
  offset by its number.
* `CoverProbe.Builder.placedFrom` — items at their offsets.
* `CoverProbe.Builder.labelOffset?`, `CoverProbe.Builder.resolveAt` — the offset of a label, and an
  item with its label resolved.

## Main results

* `CoverProbe.Builder.layout_eq` — layout succeeds exactly if the items end at a 32-bit word.
* `CoverProbe.Builder.target?_eq` — the offset of a label.
* `CoverProbe.Builder.instructions_eq_ok` — which instructions a builder has.
-/

namespace CoverProbe.Builder

/-! ## Offsets -/

/-- The number of bytes that an item is laid out with. -/
def itemWidth (isa : InstructionSet) (item : Item) : Nat :=
  isa.width (item.provisional 0)

/-- The offset of item number `k`, and of the end for the number of items: the sum of the widths
before it. -/
def offsetOf (isa : InstructionSet) (items : List Item) (k : Nat) : Nat :=
  ((items.take k).map (itemWidth isa)).sum

/-- The items as instructions one behind the other, the first at offset `start`. -/
def placedFrom (isa : InstructionSet) (start : Nat) : List Item → List Instruction
  | [] => []
  | item :: rest =>
    item.provisional (UInt32.ofNat start) :: placedFrom isa (start + itemWidth isa item) rest

variable {isa : InstructionSet}

@[simp] lemma offsetOf_zero (items : List Item) : offsetOf isa items 0 = 0 := by
  simp [offsetOf]

@[simp] lemma offsetOf_cons_succ (item : Item) (rest : List Item) (k : Nat) :
    offsetOf isa (item :: rest) (k + 1) = itemWidth isa item + offsetOf isa rest k := by
  simp [offsetOf]

/-- The next item stands behind this one. -/
lemma offsetOf_succ {items : List Item} {k : Nat} {item : Item} (h : items[k]? = some item) :
    offsetOf isa items (k + 1) = offsetOf isa items k + itemWidth isa item := by
  obtain ⟨hk, rfl⟩ := List.getElem?_eq_some_iff.1 h
  rw [offsetOf, offsetOf, List.take_succ_eq_append_getElem hk, List.map_append, List.sum_append]
  simp only [List.map_cons, List.map_nil, List.sum_singleton]

/-- Nothing stands behind the end. -/
lemma offsetOf_of_le {items : List Item} {k : Nat} (h : items.length ≤ k) :
    offsetOf isa items k = offsetOf isa items items.length := by
  rw [offsetOf, offsetOf, List.take_of_length_le h, List.take_length]

/-- All items stand before the end. -/
lemma offsetOf_le (items : List Item) (k : Nat) :
    offsetOf isa items k ≤ offsetOf isa items items.length := by
  induction items generalizing k with
  | nil => simp [offsetOf]
  | cons item rest ih =>
    cases k with
    | zero => simp
    | succ k =>
      rw [List.length_cons, offsetOf_cons_succ, offsetOf_cons_succ]
      exact Nat.add_le_add_left (ih k) _

@[simp] lemma length_placedFrom (start : Nat) (items : List Item) :
    (placedFrom isa start items).length = items.length := by
  induction items generalizing start with
  | nil => rfl
  | cons item rest ih => simp [placedFrom, ih]

/-- An item stands at its offset. -/
lemma getElem?_placedFrom (start : Nat) (items : List Item) (k : Nat) :
    (placedFrom isa start items)[k]? =
      items[k]?.map fun item => item.provisional (UInt32.ofNat (start + offsetOf isa items k)) := by
  induction items generalizing start k with
  | nil => rfl
  | cons item rest ih =>
    cases k with
    | zero => simp [placedFrom]
    | succ k => simp [placedFrom, ih, Nat.add_assoc]

/-! ## Laying out -/

section

variable (hw : ∀ (i : Instruction) (offset line : UInt32),
  isa.width (i.place offset line) = isa.width i)

include hw in
/-- Where an item stands does not bear on its width. -/
lemma width_provisional (item : Item) (offset : UInt32) :
    isa.width (item.provisional offset) = itemWidth isa item :=
  hw (item.provisional 0) offset item.line

include hw in
/-- **Layout succeeds exactly if the items end at a 32-bit word**, with every item at its offset. -/
theorem layout_eq (offset : UInt32) (items : List Item) :
    layout isa offset items =
      if offset.toNat + offsetOf isa items items.length < 4294967296 then
        .ok (placedFrom isa offset.toNat items,
          UInt32.ofNat (offset.toNat + offsetOf isa items items.length))
      else .error (.range .unitLength) := by
  induction items generalizing offset with
  | nil =>
    have hlt := offset.toNat_lt
    rw [layout, List.length_nil, offsetOf_zero, Nat.add_zero, if_pos hlt, UInt32.ofNat_toNat]
    rfl
  | cons item rest ih =>
    rw [layout, List.length_cons, offsetOf_cons_succ, ← Nat.add_assoc, width_provisional hw]
    cases hnext : Word.ofNat? (offset.toNat + itemWidth isa item) with
    | none =>
      have hge : ¬ offset.toNat + itemWidth isa item < 4294967296 := by
        intro hlt
        rw [Word.ofNat?, if_pos hlt] at hnext
        simp at hnext
      rw [if_neg (by omega)]
    | some next =>
      rw [Word.ofNat?_eq_some_iff.1 hnext]
      dsimp only
      rw [ih next]
      split_ifs
      · rw [placedFrom, Word.ofNat?_eq_some_iff.1 hnext, UInt32.ofNat_toNat]
        rfl
      · rfl

/-- Items stand one behind the other, and stay so with other operands and lines: what counts are
offsets and widths. -/
lemma laidOut_of_offsets {start : Nat} {items : List Item} {insns : List Instruction}
    (hlen : insns.length = items.length)
    (h : ∀ k item i, items[k]? = some item → insns[k]? = some i →
      i.offset.toNat = start + offsetOf isa items k ∧ isa.width i = itemWidth isa item) :
    isa.LaidOut start insns ∧ isa.extent insns = offsetOf isa items items.length := by
  induction items generalizing start insns with
  | nil =>
    obtain rfl := List.eq_nil_of_length_eq_zero hlen
    exact ⟨trivial, rfl⟩
  | cons item rest ih =>
    obtain ⟨i, more, rfl⟩ := List.exists_cons_of_length_eq_add_one hlen
    obtain ⟨hoffset, hwidth⟩ := h 0 item i rfl rfl
    obtain ⟨hlaid, hextent⟩ := @ih (start + itemWidth isa item) _ (Nat.succ.inj hlen)
      fun k item' i' hk hk' => by
        have := h (k + 1) item' i' hk hk'
        rwa [offsetOf_cons_succ, ← Nat.add_assoc] at this
    refine ⟨⟨hoffset, ?_⟩, ?_⟩
    · rw [hwidth]
      exact hlaid
    · rw [InstructionSet.extent_cons, hwidth, hextent, List.length_cons, offsetOf_cons_succ]

end

/-! ## Labels -/

/-- The offset of a label is that of the item it is bound to. -/
def labelOffset? (isa : InstructionSet) (b : Builder) (name : String) : Option UInt32 :=
  (b.labels.lookup name).map fun k => UInt32.ofNat (offsetOf isa b.items.toList k)

/-- Among the items at their offsets, a label has its offset. -/
lemma target?_eq (b : Builder) (name : String) :
    b.target? (placedFrom isa 0 b.items.toList)
      (UInt32.ofNat (offsetOf isa b.items.toList b.items.toList.length)) name =
      b.labelOffset? isa name := by
  rw [target?, labelOffset?]
  congr 1
  funext k
  rw [getElem?_placedFrom, Nat.zero_add]
  cases hk : b.items.toList[k]? with
  | some item => rfl
  | none =>
    rw [offsetOf_of_le (List.getElem?_eq_none_iff.1 hk)]
    rfl

/-- A jump reaches a target if its operand can name it: an offset always, a distance only if the
target does not lie before the end of the jump. -/
lemma reach_eq_ok {name : String} {target arg : UInt32} {insn : Instruction} :
    reach isa name target insn = .ok arg ↔
      (isa.classOf insn = .jump .absolute ∧ arg = target) ∨
        (isa.classOf insn = .jump .relative ∧
          insn.offset.toNat + isa.width insn ≤ target.toNat ∧
          arg = UInt32.ofNat (target.toNat - (insn.offset.toNat + isa.width insn))) := by
  rw [reach]
  split
  · rename_i hc
    simp [hc, eq_comm]
  · rename_i hc
    dsimp only
    split_ifs with hle
    · simp [hc, hle, eq_comm]
    · simp [hc, hle]
  · rename_i habs hrel
    constructor
    · intro h
      simp at h
    · rintro (⟨h, -⟩ | ⟨h, -, -⟩)
      · exact absurd h habs
      · exact absurd h hrel

/-- An item without a label is kept; a label becomes the operand that reaches its target. -/
lemma resolve_eq_ok {target? : String → Option UInt32} {item : Item} {insn i : Instruction} :
    resolve isa target? item insn = .ok i ↔
      ((∀ name, item.operand ≠ .label name) ∧ i = insn) ∨
        ∃ name target arg, item.operand = .label name ∧ target? name = some target ∧
          reach isa name target insn = .ok arg ∧ i = { insn with arg := some arg } := by
  rw [resolve]
  split
  · rename_i name hname
    rw [hname]
    cases htarget : target? name with
    | none => simp [htarget]
    | some target =>
      dsimp only
      rw [Checked.bind_eq_ok]
      constructor
      · rintro ⟨arg, harg, h⟩
        exact .inr ⟨name, target, arg, rfl, htarget, harg, (Except.ok.inj h).symm⟩
      · rintro (⟨hno, -⟩ | ⟨name', target', arg, hname', htarget', harg, rfl⟩)
        · exact absurd rfl (hno name)
        · obtain rfl := Operand.label.inj hname'
          obtain rfl := Option.some.inj (htarget.symm.trans htarget')
          exact ⟨arg, harg, rfl⟩
  · rename_i hno
    constructor
    · intro h
      exact .inl ⟨hno, (Except.ok.inj h).symm⟩
    · rintro (⟨-, rfl⟩ | ⟨name, _, _, hname, -⟩)
      · rfl
      · exact absurd hname (hno name)

/-! ## Instructions -/

section

variable (hw : ∀ (i : Instruction) (offset line : UInt32),
  isa.width (i.place offset line) = isa.width i)

/-- An item number `k` has its label resolved where it stands. -/
def resolveAt (isa : InstructionSet) (b : Builder) (k : Nat) (item : Item) :
    Except Fault Instruction :=
  resolve isa (b.labelOffset? isa) item
    (item.provisional (UInt32.ofNat (offsetOf isa b.items.toList k)))

include hw in
/-- A builder lays out its items and resolves them one by one, if they end at a 32-bit word. -/
lemma instructions_eq (b : Builder) :
    b.instructions isa =
      if offsetOf isa b.items.toList b.items.toList.length < 4294967296 then
        (b.items.toList.zip (placedFrom isa 0 b.items.toList)).mapM fun p =>
          resolve isa (b.labelOffset? isa) p.1 p.2
      else .error (.range .unitLength) := by
  have htarget : b.target? (placedFrom isa 0 b.items.toList)
      (UInt32.ofNat (offsetOf isa b.items.toList b.items.toList.length)) = b.labelOffset? isa := by
    funext name
    exact target?_eq b name
  rw [instructions, layout_eq hw]
  simp only [UInt32.toNat_zero, Nat.zero_add]
  split_ifs with hfits
  · rw [← htarget]
    rfl
  · rfl

/-- Item number `k` is resolved where it stands. -/
lemma getElem?_zip_placedFrom (items : List Item) (k : Nat) (item : Item) (insn : Instruction) :
    (items.zip (placedFrom isa 0 items))[k]? = some (item, insn) ↔
      items[k]? = some item ∧ insn = item.provisional (UInt32.ofNat (offsetOf isa items k)) := by
  rw [List.getElem?_zip_eq_some, getElem?_placedFrom, Nat.zero_add]
  refine and_congr_right fun hk => ?_
  rw [hk, Option.map_some, Option.some.injEq, eq_comm]

include hw in
/-- **Which instructions a builder has**: its items, each resolved where it stands, if they end at a
32-bit word. -/
theorem instructions_eq_ok (b : Builder) {insns : List Instruction} :
    b.instructions isa = .ok insns ↔
      offsetOf isa b.items.toList b.items.toList.length < 4294967296 ∧
        insns.length = b.items.toList.length ∧
          ∀ k item i, b.items.toList[k]? = some item → insns[k]? = some i →
            b.resolveAt isa k item = .ok i := by
  rw [instructions_eq hw]
  split_ifs with hfits
  · rw [and_iff_right hfits, Checked.mapM_eq_ok_iff_getElem?, List.length_zip, length_placedFrom,
      Nat.min_self]
    refine and_congr_right fun _ => ⟨fun h k item i hk hi => ?_, ?_⟩
    · exact h k _ i ((getElem?_zip_placedFrom _ k item _).2 ⟨hk, rfl⟩) hi
    · rintro h k ⟨item, insn⟩ i hk hi
      obtain ⟨hitem, rfl⟩ := (getElem?_zip_placedFrom _ k item insn).1 hk
      exact h k item i hitem hi
  · constructor
    · intro h
      simp at h
    · rintro ⟨h, -⟩
      exact absurd h hfits

include hw in
/-- A builder has instructions if its items can all be resolved and end at a 32-bit word. -/
lemma exists_instructions (b : Builder)
    (hfits : offsetOf isa b.items.toList b.items.toList.length < 4294967296)
    (h : ∀ k item, b.items.toList[k]? = some item → ∃ i, b.resolveAt isa k item = .ok i) :
    ∃ insns, b.instructions isa = .ok insns := by
  rw [instructions_eq hw, if_pos hfits, Checked.exists_mapM_eq_ok]
  rintro ⟨item, insn⟩ hp
  obtain ⟨k, hk⟩ := List.getElem?_of_mem hp
  obtain ⟨hitem, rfl⟩ := (getElem?_zip_placedFrom _ k item insn).1 hk
  exact h k item hitem

end

end CoverProbe.Builder
