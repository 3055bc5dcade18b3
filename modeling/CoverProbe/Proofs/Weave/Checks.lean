import Mathlib.Data.List.TakeWhile
import CoverProbe.Proofs.Unit.Validity
import CoverProbe.Proofs.Weave.Body

set_option relaxedAutoImplicit false
set_option autoImplicit false

/-!
# Checks of a unit

The checks that a unit has to pass before its sites are drawn, told by what they find. Passing line
starts and instructions side by side finds a start at which no instruction lies exactly if there is
one, and looking for pinned instructions behind the prologue finds one exactly if there is one.

## Main definitions

* `CoverProbe.Weaver.Readable` — units whose code and lines can be read.
* `CoverProbe.Weaver.Prepared` — readable units whose pinned instructions stand in front.

## Main results

* `CoverProbe.WeaveCheck.starts_outcome` — what the check of line starts finds.
* `CoverProbe.Weaver.prepare_of_prepared`, `prepare_of_misplaced`, `prepare_of_unreadable` — what
  preparing a unit comes to.
-/

namespace CoverProbe

/-! ## Line starts at instructions -/

open Validity

namespace Instruction

/-- What does not depend on lines holds of attributed instructions if it did before. -/
lemma forall_mem_withLines {P : Instruction → Prop} (hP : ∀ i, P i.unattributed ↔ P i)
    (starts : List LineStart) (insns : List Instruction) :
    (∀ i ∈ withLines starts insns, P i) ↔ ∀ i ∈ insns, P i := by
  have hmap : ∀ l : List Instruction, (∀ i ∈ l.map unattributed, P i) ↔ ∀ i ∈ l, P i := by
    intro l
    rw [List.forall_mem_map]
    exact forall₂_congr fun i _ => hP i
  rw [← hmap, map_unattributed_withLines, hmap]

/-- Attribution changes no offsets. -/
lemma map_offset_withLines (starts : List LineStart) (insns : List Instruction) :
    (withLines starts insns).map (·.offset) = insns.map (·.offset) := by
  have hoff : ∀ l : List Instruction, l.map (·.offset) = (l.map unattributed).map (·.offset) := by
    intro l
    rw [List.map_map]
    rfl
  rw [hoff, map_unattributed_withLines, ← hoff]

/-- Attribution changes nothing at which lines start. -/
lemma founded_withLines (starts : List LineStart) (insns : List Instruction) (s : LineStart) :
    Founded (withLines starts insns) s ↔ Founded insns s := by
  have hoffsets := map_offset_withLines starts insns
  have hmem : ∀ l : List Instruction,
      (∃ i ∈ l, i.offset = s.offset) ↔ s.offset ∈ l.map (·.offset) := fun l => List.mem_map.symm
  have hnil : ∀ l : List Instruction, l = [] ↔ l.map (·.offset) = [] := fun l =>
    List.map_eq_nil_iff.symm
  rw [Founded, Founded, hmem, hmem, hnil, hoffsets, ← hnil]

end Instruction

namespace WeaveCheck

/-- Passing the instructions before an offset leads to the instruction there, if there is one. -/
lemma any_head?_dropWhile_iff {insns : List Instruction} (h : Instruction.Increasing insns)
    (offset : UInt32) :
    ((insns.dropWhile fun i => i.offset < offset).head?.any fun i => i.offset = offset) = true ↔
      ∃ i ∈ insns, i.offset = offset := by
  induction insns with
  | nil => simp
  | cons i rest ih =>
    obtain ⟨hbehind, hrest⟩ := List.pairwise_cons.1 h
    by_cases hi : i.offset < offset
    · rw [List.dropWhile_cons_of_pos (by simpa using hi), ih hrest]
      have hne : i.offset ≠ offset := fun heq => UInt32.lt_irrefl _ (heq ▸ hi)
      simp [hne]
    · rw [List.dropWhile_cons_of_neg (by simpa using hi)]
      have hlater : ∀ j ∈ rest, j.offset ≠ offset := fun j hj heq => hi (heq ▸ hbehind j hj)
      simp only [List.head?_cons, Option.any_some, decide_eq_true_eq, List.mem_cons]
      constructor
      · intro heq
        exact ⟨i, .inl rfl, heq⟩
      · rintro ⟨j, rfl | hj, heq⟩
        · exact heq
        · exact absurd heq (hlater j hj)

/-- Passing the instructions before an offset passes none of those behind it. -/
lemma mem_dropWhile_of_lt {insns : List Instruction} {i : Instruction} (hi : i ∈ insns)
    {offset : UInt32} (hlt : offset < i.offset) :
    i ∈ insns.dropWhile fun i => i.offset < offset := by
  rw [← List.takeWhile_append_dropWhile (p := fun i : Instruction => i.offset < offset)
    (l := insns), List.mem_append] at hi
  refine hi.resolve_left fun hbefore => ?_
  have hbefore := List.mem_takeWhile_imp hbefore
  exact UInt32.lt_irrefl _ (UInt32.lt_trans hlt (of_decide_eq_true hbefore))

/-- **What passing line starts and instructions side by side finds**: the first start at which no
instruction lies.

**Proof sketch.** Induction along the starts. The instructions passed lie before the start, so all
later starts lie at instructions exactly if they do at those that are left. -/
theorem startsOnInstructions_outcome {insns : List Instruction} {found : List LineStart}
    (h : Instruction.Increasing insns) (hs : found.Pairwise fun s t => s.offset < t.offset) :
    (startsOnInstructions insns found = .ok () ∧
        ∀ s ∈ found, ∃ i ∈ insns, i.offset = s.offset) ∨
      ∃ s ∈ found, (¬ ∃ i ∈ insns, i.offset = s.offset) ∧
        startsOnInstructions insns found =
          .error (.malformed (.lineOffBoundary s.line s.offset)) := by
  induction found generalizing insns with
  | nil => exact .inl ⟨rfl, by simp⟩
  | cons s rest ih =>
    obtain ⟨hafter, hrest⟩ := List.pairwise_cons.1 hs
    rw [startsOnInstructions]
    by_cases hhere : ∃ i ∈ insns, i.offset = s.offset
    · simp only [(any_head?_dropWhile_iff h s.offset).2 hhere, if_true]
      -- What lies at a later start is left.
      have hleft : ∀ t ∈ rest, (∃ i ∈ insns.dropWhile fun i => i.offset < s.offset,
          i.offset = t.offset) ↔ ∃ i ∈ insns, i.offset = t.offset := by
        intro t ht
        constructor
        · rintro ⟨i, hi, heq⟩
          exact ⟨i, (List.dropWhile_sublist _).mem hi, heq⟩
        · rintro ⟨i, hi, heq⟩
          exact ⟨i, mem_dropWhile_of_lt hi (heq ▸ hafter t ht), heq⟩
      have hincreasing : Instruction.Increasing (insns.dropWhile fun i => i.offset < s.offset) :=
        List.Pairwise.sublist (List.dropWhile_sublist _) h
      rcases ih hincreasing hrest with ⟨hok, hall⟩ | ⟨t, ht, hnone, herr⟩
      · refine .inl ⟨hok, List.forall_mem_cons.2 ⟨hhere, fun t ht => ?_⟩⟩
        exact (hleft t ht).1 (hall t ht)
      · refine .inr ⟨t, List.mem_cons_of_mem s ht, ?_, herr⟩
        rwa [hleft t ht] at hnone
    · have hany := (any_head?_dropWhile_iff h s.offset).not.2 hhere
      simp only [hany]
      exact .inr ⟨s, List.mem_cons_self, hhere, rfl⟩

/-- **What the check of line starts finds**: a start at which no instruction lies, if there is
one. -/
theorem starts_outcome {insns : List Instruction} {found : List LineStart}
    (h : Instruction.Increasing insns) (hs : found.Pairwise fun s t => s.offset < t.offset) :
    (starts insns found = .ok () ∧ ∀ s ∈ found, Founded insns s) ∨
      ∃ s ∈ found, ¬ Founded insns s ∧
        starts insns found = .error (.malformed (.lineOffBoundary s.line s.offset)) := by
  cases insns with
  | nil =>
    rw [starts, if_pos List.isEmpty_nil]
    cases hf : found.find? fun s => s.offset ≠ 0 with
    | none =>
      refine .inl ⟨rfl, fun s hs => .inr ⟨rfl, ?_⟩⟩
      simpa using List.find?_eq_none.1 hf s hs
    | some s =>
      refine .inr ⟨s, List.mem_of_find?_eq_some hf, ?_, rfl⟩
      have hs0 := List.find?_some hf
      simpa [Founded] using hs0
  | cons i rest =>
    have hfounded : ∀ s, Founded (i :: rest) s ↔ ∃ j ∈ i :: rest, j.offset = s.offset := by
      simp [Founded]
    simp only [hfounded]
    rw [starts, if_neg (by simp)]
    exact startsOnInstructions_outcome h hs

/-- What looking for instructions of a class finds. -/
lemma without_outcome (isa : InstructionSet) (cls : OpClass) (obstacle : Obstacle)
    (insns : List Instruction) :
    (without isa cls obstacle insns = .ok () ∧ ∀ i ∈ insns, isa.classOf i ≠ cls) ∨
      ∃ i ∈ insns, isa.classOf i = cls ∧
        without isa cls obstacle insns =
          .error (.unsupported (isa.mnemonic i.opcode) i.offset obstacle) := by
  rw [without]
  cases hf : insns.find? fun i => isa.classOf i = cls with
  | none =>
    refine .inl ⟨rfl, fun i hi => ?_⟩
    simpa using List.find?_eq_none.1 hf i hi
  | some i =>
    refine .inr ⟨i, List.mem_of_find?_eq_some hf, ?_, rfl⟩
    simpa using List.find?_some hf

end WeaveCheck

/-! ## Preparing a unit -/

namespace Weaver

variable {ρ : Type} {r : Weaver ρ} {u : CodeUnit} {insns : List Instruction}

/-- The unit can be read: its code decodes to `insns`, its line table decodes, and every line starts
at an instruction. -/
structure Readable (r : Weaver ρ) (u : CodeUnit) (insns : List Instruction) : Prop where
  instructions : u.instructions r.isa r.sign = .ok insns
  founded : ∃ starts, u.lineStarts r.sign = .ok starts ∧ ∀ s ∈ starts, Founded insns s

/-- The unit can be read, and no `GEN_START` comes behind the leading run of them. -/
structure Prepared (r : Weaver ρ) (u : CodeUnit) (insns : List Instruction) : Prop
    extends Readable r u insns where
  pinned : ∀ i ∈ insns.dropWhile fun i => i.opcode = Opcode.genStart.byte,
    i.opcode ≠ Opcode.genStart.byte

/-- A unit decodes to its instructions with the lines of its table. -/
lemma instructions_eq_ok :
    u.instructions r.isa r.sign = .ok insns ↔ ∃ raw starts, r.isa.decode u.code = .ok raw ∧
      u.lineStarts r.sign = .ok starts ∧ insns = Instruction.withLines starts raw := by
  rw [CodeUnit.instructions]
  simp only [Checked.bind_eq_ok]
  constructor
  · rintro ⟨raw, hraw, starts, hstarts, h⟩
    exact ⟨raw, starts, hraw, hstarts, (Except.ok.inj h).symm⟩
  · rintro ⟨raw, starts, hraw, hstarts, rfl⟩
    exact ⟨raw, hraw, starts, hstarts, rfl⟩

/-- The instructions behind the prologue. -/
lemma drop_prologueLength (hisa : r.isa = .standard) (insns : List Instruction) :
    insns.drop (prologueLength r.isa insns) =
      insns.dropWhile fun i => i.opcode = Opcode.genStart.byte := by
  have hpinned : (fun i : Instruction => decide (r.isa.classOf i = .pinned)) =
      fun i => decide (i.opcode = Opcode.genStart.byte) := by
    funext i
    rw [hisa]
    exact decide_eq_decide.2 (Standard.classOf_eq_pinned_iff i)
  have hsplit := List.takeWhile_append_dropWhile
    (p := fun i : Instruction => decide (i.opcode = Opcode.genStart.byte)) (l := insns)
  rw [prologueLength, hpinned]
  calc insns.drop (insns.takeWhile fun i => i.opcode = Opcode.genStart.byte).length
      = ((insns.takeWhile fun i => i.opcode = Opcode.genStart.byte) ++
          insns.dropWhile fun i => i.opcode = Opcode.genStart.byte).drop
            (insns.takeWhile fun i => i.opcode = Opcode.genStart.byte).length := by rw [hsplit]
    _ = _ := List.drop_left

/-- What the check of line starts finds in a unit whose code and line table decode. -/
lemma checked_starts (hisa : r.isa = .standard) {raw : List Instruction} {starts : List LineStart}
    (hraw : r.isa.decode u.code = .ok raw) (hstarts : u.lineStarts r.sign = .ok starts) :
    (WeaveCheck.starts raw starts = .ok () ∧
        ∀ s ∈ starts, Founded (Instruction.withLines starts raw) s) ∨
      ∃ s ∈ starts, ¬ Founded (Instruction.withLines starts raw) s ∧
        WeaveCheck.starts raw starts =
          .error (.malformed (.lineOffBoundary s.line s.offset)) := by
  rw [hisa] at hraw
  have hincreasing := (Standard.laidOut_of_decodeFrom hraw).1.increasing Standard.width_pos
  have hpairwise := LineStart.pairwise_of_isChain (LineTable.canonical_of_decode hstarts).advances
  simp only [Instruction.founded_withLines]
  exact WeaveCheck.starts_outcome hincreasing hpairwise

/-- What preparing a unit comes to when its code and its line table decode. -/
lemma prepare_of_decode {raw : List Instruction} {starts : List LineStart}
    (hraw : r.isa.decode u.code = .ok raw) (hstarts : u.lineStarts r.sign = .ok starts) :
    r.prepare u = do
      WeaveCheck.starts raw starts
      let insns := Instruction.withLines starts raw
      WeaveCheck.without r.isa .pinned .pinned (insns.drop (prologueLength r.isa insns))
      return insns := by
  rw [prepare, hraw, hstarts]
  rfl

/-- A readable unit passes the check of its line starts. -/
lemma Readable.prepare_eq (hisa : r.isa = .standard) (h : Readable r u insns) :
    r.prepare u = do
      WeaveCheck.without r.isa .pinned .pinned
        (insns.dropWhile fun i => i.opcode = Opcode.genStart.byte)
      return insns := by
  obtain ⟨raw, starts, hraw, hstarts, rfl⟩ := instructions_eq_ok.1 h.instructions
  obtain ⟨starts', hstarts', hfounded⟩ := h.founded
  obtain rfl := Except.ok.inj (hstarts.symm.trans hstarts')
  have hok : WeaveCheck.starts raw starts = .ok () := by
    rcases checked_starts hisa hraw hstarts with ⟨hok, -⟩ | ⟨s, hs, hnot, -⟩
    · exact hok
    · exact absurd (hfounded s hs) hnot
  rw [prepare_of_decode hraw hstarts, hok, ← drop_prologueLength hisa]
  rfl

/-- **A prepared unit is prepared.** -/
theorem prepare_of_prepared (hisa : r.isa = .standard) (h : Prepared r u insns) :
    r.prepare u = .ok insns := by
  rw [h.toReadable.prepare_eq hisa]
  rcases WeaveCheck.without_outcome r.isa .pinned .pinned
    (insns.dropWhile fun i => i.opcode = Opcode.genStart.byte) with ⟨hok, -⟩ | ⟨i, hi, hc, -⟩
  · rw [hok]
    rfl
  · rw [hisa] at hc
    exact absurd ((Standard.classOf_eq_pinned_iff i).1 hc) (h.pinned i hi)

/-- **A readable unit with a pinned instruction behind its prologue is refused** for one of
these. -/
theorem prepare_of_misplaced (hisa : r.isa = .standard) (h : Readable r u insns)
    (hn : ¬ Prepared r u insns) :
    ∃ i ∈ insns.dropWhile fun i => i.opcode = Opcode.genStart.byte,
      i.opcode = Opcode.genStart.byte ∧
        r.prepare u = .error (.unsupported Opcode.genStart.mnemonic i.offset .pinned) := by
  rw [h.prepare_eq hisa]
  rcases WeaveCheck.without_outcome r.isa .pinned .pinned
    (insns.dropWhile fun i => i.opcode = Opcode.genStart.byte) with ⟨-, hall⟩ | ⟨i, hi, hc, herr⟩
  · refine absurd ⟨h, fun i hi hop => hall i hi ?_⟩ hn
    rw [hisa]
    exact (Standard.classOf_eq_pinned_iff i).2 hop
  · have hop : i.opcode = Opcode.genStart.byte := by
      rw [hisa] at hc
      exact (Standard.classOf_eq_pinned_iff i).1 hc
    have hname : r.isa.mnemonic i.opcode = Opcode.genStart.mnemonic := by
      rw [hisa, hop]
      rfl
    refine ⟨i, hi, hop, ?_⟩
    rw [herr, hname]
    rfl

/-- **A unit that cannot be read is refused** for its code, for its line table, or for a line that
starts at no instruction. -/
theorem prepare_of_unreadable (hisa : r.isa = .standard) (h : ∀ insns, ¬ Readable r u insns) :
    (∃ fault, r.isa.decode u.code = .error fault ∧
        r.prepare u = .error (.malformed (.fault fault))) ∨
      (∃ raw fault, r.isa.decode u.code = .ok raw ∧ u.lineStarts r.sign = .error fault ∧
        r.prepare u = .error (.malformed (.fault fault))) ∨
      ∃ insns starts s, u.instructions r.isa r.sign = .ok insns ∧
        u.lineStarts r.sign = .ok starts ∧ s ∈ starts ∧ ¬ Founded insns s ∧
        r.prepare u = .error (.malformed (.lineOffBoundary s.line s.offset)) := by
  cases hraw : r.isa.decode u.code with
  | error fault =>
    refine .inl ⟨fault, rfl, ?_⟩
    rw [prepare, hraw]
    rfl
  | ok raw =>
    right
    cases hstarts : u.lineStarts r.sign with
    | error fault =>
      refine .inl ⟨raw, fault, rfl, rfl, ?_⟩
      rw [prepare, hraw, hstarts]
      rfl
    | ok starts =>
      right
      have hinsns := instructions_eq_ok.2 ⟨raw, starts, hraw, hstarts, rfl⟩
      rcases checked_starts hisa hraw hstarts with ⟨-, hall⟩ | ⟨s, hs, hnot, herr⟩
      · exact absurd ⟨hinsns, starts, hstarts, hall⟩ (h _)
      · refine ⟨_, starts, s, hinsns, rfl, hs, hnot, ?_⟩
        rw [prepare_of_decode hraw hstarts, herr]
        rfl

end Weaver

end CoverProbe
