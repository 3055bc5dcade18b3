import CoverProbe.Proofs.LineTable.Attribution

set_option relaxedAutoImplicit false
set_option autoImplicit false

/-!
# Attribution by lookup

Instructions in order get the lines that looking up their offsets gives, one by one: the cursor that
moves along the line starts passes none that is still in force.

## Main definitions

* `CoverProbe.LineStart.InForce` — the line in force at an offset.

## Main results

* `CoverProbe.LineStart.inForce_iff` — looking up an offset finds the one line in force there.
* `CoverProbe.LineStart.lineAt_seek` — a cursor moved to an offset tells the lines from there on.
* `CoverProbe.Instruction.withLines_eq_map` — attribution is lookup.
* `CoverProbe.Instruction.eq_withLines_iff` — attribution gives every instruction the line in force.
-/

namespace CoverProbe

namespace LineStart

/-! ## Lines in force -/

/-- The line in force at an offset: that of the last start at or before it, that of the first start
where all lie behind it, and zero where there are none. -/
inductive InForce : List LineStart → (offset line : UInt32) → Prop
  | last {passed ahead : List LineStart} {s : LineStart} {offset : UInt32} (hs : s.offset ≤ offset)
      (hahead : ∀ t ∈ ahead, offset < t.offset) : InForce (passed ++ s :: ahead) offset s.line
  | first {s : LineStart} {rest : List LineStart} {offset : UInt32}
      (h : ∀ t ∈ s :: rest, offset < t.offset) : InForce (s :: rest) offset s.line
  | none {offset : UInt32} : InForce [] offset 0

/-- Starts behind an offset are not found there. -/
lemma filter_of_behind {starts : List LineStart} {offset : UInt32}
    (h : ∀ t ∈ starts, offset < t.offset) : starts.filter (·.offset ≤ offset) = [] := by
  rw [List.filter_eq_nil_iff]
  intro t ht hle
  exact UInt32.not_le.2 (h t ht) (of_decide_eq_true hle)

/-- Looking up an offset finds the line that is in force there. -/
lemma InForce.lineAt_eq {starts : List LineStart} {offset line : UInt32}
    (h : InForce starts offset line) : lineAt starts offset = line := by
  cases h with
  | last hs hahead =>
    unfold lineAt
    rw [List.filter_append, List.filter_cons_of_pos (by simpa using hs), filter_of_behind hahead,
      List.getLast?_concat]
  | first h =>
    unfold lineAt
    rw [filter_of_behind h]
    rfl
  | none => rfl

/-- Some line is in force at every offset.

**Proof sketch.** Induction along the starts. What is in force behind the first start stays in
force, unless that is a first start that lies ahead; then the first start of all takes its place. -/
lemma exists_inForce (starts : List LineStart) (offset : UInt32) :
    ∃ line, InForce starts offset line := by
  induction starts with
  | nil => exact ⟨0, .none⟩
  | cons s rest ih =>
    -- Without a start at or before the offset behind it, the first start is in force.
    have hfirst : (∀ t ∈ rest, offset < t.offset) → ∃ line, InForce (s :: rest) offset line := by
      intro hrest
      by_cases hs : s.offset ≤ offset
      · exact ⟨s.line, @InForce.last [] rest s _ hs hrest⟩
      · exact ⟨s.line, .first (List.forall_mem_cons.2 ⟨UInt32.not_le.1 hs, hrest⟩)⟩
    obtain ⟨line, hline⟩ := ih
    cases hline with
    | @last passed ahead t _ ht hahead =>
      exact ⟨t.line, @InForce.last (s :: passed) ahead t _ ht hahead⟩
    | first h => exact hfirst h
    | none => exact hfirst (List.forall_mem_nil _)

/-- **Looking up an offset finds the one line in force there.** -/
theorem inForce_iff {starts : List LineStart} {offset line : UInt32} :
    InForce starts offset line ↔ lineAt starts offset = line := by
  refine ⟨InForce.lineAt_eq, ?_⟩
  rintro rfl
  obtain ⟨line, hline⟩ := exists_inForce starts offset
  rw [hline.lineAt_eq]
  exact hline

/-! ## Cursors -/

/-- Before the second start the first is in force. -/
lemma lineAt_of_lt {s : LineStart} {rest : List LineStart} {offset : UInt32}
    (h : ∀ t ∈ rest, offset < t.offset) : lineAt (s :: rest) offset = s.line := by
  unfold lineAt
  rw [List.filter_cons, filter_of_behind h]
  split_ifs
  · rfl
  · rfl

/-- From the second start on the first is out of force. -/
lemma lineAt_of_le {s t : LineStart} {rest : List LineStart} {offset : UInt32}
    (h : t.offset ≤ offset) : lineAt (s :: t :: rest) offset = lineAt (t :: rest) offset := by
  have htail : (t :: rest).filter (·.offset ≤ offset) = t :: rest.filter (·.offset ≤ offset) :=
    List.filter_cons_of_pos (by simpa using h)
  have hlast : ((s :: t :: rest).filter (·.offset ≤ offset)).getLast? =
      ((t :: rest).filter (·.offset ≤ offset)).getLast? := by
    rw [List.filter_cons, htail]
    split_ifs
    · exact List.getLast?_cons_cons
    · rfl
  have hsome : ∃ last, ((t :: rest).filter (·.offset ≤ offset)).getLast? = some last := by
    rw [htail]
    exact ⟨_, List.getLast?_cons⟩
  obtain ⟨last, hs⟩ := hsome
  unfold lineAt
  rw [hlast, hs]

/-- A cursor moved to an offset stands at the start in force there. -/
lemma head?_seek {starts : List LineStart} (h : starts.Pairwise fun s t => s.offset < t.offset)
    (offset : UInt32) :
    ((seek offset starts).head?.map (·.line)).getD 0 = lineAt starts offset := by
  fun_induction seek offset starts with
  | case1 s next rest hle ih =>
    rw [lineAt_of_le hle]
    exact ih (List.pairwise_cons.1 h).2
  | case2 s next rest hlt =>
    obtain ⟨-, hrest⟩ := List.pairwise_cons.1 h
    obtain ⟨hbehind, -⟩ := List.pairwise_cons.1 hrest
    have hnext : offset < next.offset := UInt32.not_le.1 hlt
    refine (lineAt_of_lt (List.forall_mem_cons.2 ⟨hnext, fun t ht => ?_⟩)).symm
    exact UInt32.lt_trans hnext (hbehind t ht)
  | case3 starts hshort =>
    cases starts with
    | nil => rfl
    | cons s rest =>
      cases rest with
      | nil => exact (lineAt_of_lt (by simp)).symm
      | cons t more => exact absurd rfl (hshort s t more)

/-- **A cursor moved to an offset tells the lines from there on.** -/
theorem lineAt_seek {starts : List LineStart} {offset later : UInt32} (h : offset ≤ later) :
    lineAt (seek offset starts) later = lineAt starts later := by
  fun_induction seek offset starts with
  | case1 s next rest hle ih => rw [ih, lineAt_of_le (UInt32.le_trans hle h)]
  | case2 s next rest hlt => rfl
  | case3 starts hshort => rfl

/-- A moved cursor passes starts, and adds none. -/
lemma seek_sublist (offset : UInt32) (starts : List LineStart) :
    (seek offset starts).Sublist starts := by
  fun_induction seek offset starts with
  | case1 s next rest hle ih => exact ih.cons s
  | case2 s next rest hlt => exact List.Sublist.refl _
  | case3 starts hshort => exact List.Sublist.refl _

end LineStart

namespace Instruction

open LineStart

/-- **Attribution is lookup**: where starts are sorted and instructions in order, every instruction
gets the line in force at its offset, and keeps all else.

**Proof sketch.** Induction on the instructions, for any cursor. It moves to the start in force at
the first (`head?_seek`), and from there on tells the lines that all the starts tell
(`lineAt_seek`). -/
theorem withLines_eq_map {starts : List LineStart} {insns : List Instruction}
    (hs : starts.Pairwise fun s t => s.offset < t.offset)
    (hi : insns.Pairwise fun i j => i.offset ≤ j.offset) :
    withLines starts insns = insns.map fun i => { i with line := lineAt starts i.offset } := by
  induction insns generalizing starts with
  | nil => rfl
  | cons i rest ih =>
    obtain ⟨hbehind, hrest⟩ := List.pairwise_cons.1 hi
    have htail := ih (hs.sublist (seek_sublist i.offset starts)) hrest
    rw [withLines, List.map_cons, head?_seek hs, htail]
    refine congrArg _ (List.map_congr_left fun j hj => ?_)
    rw [lineAt_seek (hbehind j hj)]

/-- An instruction that keeps opcode, operand and offset differs in its line at most. -/
lemma eq_with_line {i j : Instruction} {line : UInt32} :
    j = { i with line } ↔
      j.opcode = i.opcode ∧ j.arg = i.arg ∧ j.offset = i.offset ∧ j.line = line := by
  cases j
  simp only [Instruction.mk.injEq]

/-- **Attribution gives every instruction the line in force at its offset** and keeps its opcode,
its operand and its offset: for starts that increase and instructions in order, the list with this
property is the one that attribution returns, and there is no other. -/
theorem eq_withLines_iff {starts : List LineStart} {insns attributed : List Instruction}
    (hs : starts.Pairwise fun s t => s.offset < t.offset)
    (hi : insns.Pairwise fun i j => i.offset ≤ j.offset) :
    attributed = withLines starts insns ↔
      List.Forall₂ (fun i j => j.opcode = i.opcode ∧ j.arg = i.arg ∧ j.offset = i.offset ∧
        InForce starts i.offset j.line) insns attributed := by
  have hlookup : ∀ i j : Instruction, (j = { i with line := lineAt starts i.offset }) ↔
      (j.opcode = i.opcode ∧ j.arg = i.arg ∧ j.offset = i.offset ∧
        InForce starts i.offset j.line) := by
    intro i j
    rw [eq_with_line, inForce_iff, eq_comm (a := lineAt starts i.offset)]
  simp only [← hlookup]
  rw [withLines_eq_map hs hi, ← List.forall₂_eq_eq_eq, List.forall₂_map_right_iff]
  exact ⟨List.Forall₂.flip, List.Forall₂.flip⟩

/-- Starts that leave a gap before the first instruction and two that lie between the others. -/
def leap : List LineStart :=
  [⟨2, 7⟩, ⟨4, 3⟩, ⟨6, 9⟩]

/-- Instructions before the first start, at it, and behind the last, which is reached by a leap. -/
def leapt : List Instruction :=
  [⟨0x12, none, 0, 0⟩, ⟨0x14, some 5, 2, 0⟩, ⟨0x12, none, 7, 0⟩, ⟨0x12, none, 7, 0⟩]

/-- The first start serves for what lies before it, and the start leapt over for nothing. -/
theorem eq_withLines_iff_leap :
    (leap.Pairwise fun s t => s.offset < t.offset) ∧
      (leapt.Pairwise fun i j => i.offset ≤ j.offset) ∧
      (withLines leap leapt).map (·.line) = [7, 7, 9, 9] ∧
      List.Forall₂ (fun i j => j.opcode = i.opcode ∧ j.arg = i.arg ∧ j.offset = i.offset ∧
        InForce leap i.offset j.line) leapt (withLines leap leapt) :=
  have hs : leap.Pairwise fun s t => s.offset < t.offset := by decide
  have hi : leapt.Pairwise fun i j => i.offset ≤ j.offset := by decide
  ⟨hs, hi, by decide, (eq_withLines_iff hs hi).1 rfl⟩

end Instruction

end CoverProbe
