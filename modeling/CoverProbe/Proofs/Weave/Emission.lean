import CoverProbe.Proofs.LineTable.Canonical
import CoverProbe.Proofs.Weave.Checks
import CoverProbe.Proofs.Weave.Lines

set_option relaxedAutoImplicit false
set_option autoImplicit false

/-!
# When emission succeeds

Probes can be put before the sites of decoded instructions, and the new code can be written, unless
it gets too long or a jump leads to no instruction. In particular a relative jump never has to lead
backwards: what lay behind it still does.

## Main results

* `CoverProbe.Weaver.move_outcome`, `emit_outcome`, `insert_outcome` — what moving one instruction,
  emitting the code and inserting the probes comes to.
* `CoverProbe.Weaver.Emits.exists_encodeAll`, `Emits.exists_encode_lineRuns` — new code has bytes,
  and its line starts have a table.
-/

namespace CoverProbe

namespace Weaver

open Weave Validity

variable {ρ : Type} {isa : InstructionSet} {sites : List Nat} {index position : Nat}
  {insns out : List Instruction} {p q : Placement}

/-! ## The order of placements -/

/-- Nothing lands before the first placement. -/
lemma le_landing {k : Nat}
    (hp : (Placement.ofSitesFrom isa sites index position insns)[k]? = some p) :
    position ≤ p.landing := by
  induction insns generalizing index position k with
  | nil => simp [Placement.ofSitesFrom] at hp
  | cons i rest ih =>
    rw [ofSitesFrom_cons] at hp
    cases k with
    | zero =>
      obtain rfl := Option.some.inj hp
      by_cases hs : index ∈ sites
      · simp [Placement.landing, hs]
      · simp [Placement.landing, hs]
    | succ k =>
      have hle := ih hp
      omega

/-- A later instruction lands behind an earlier one. -/
lemma stop_le_landing {j k : Nat}
    (hp : (Placement.ofSitesFrom isa sites index position insns)[j]? = some p)
    (hq : (Placement.ofSitesFrom isa sites index position insns)[k]? = some q) (h : j < k) :
    p.position + isa.width p.insn ≤ q.landing := by
  induction insns generalizing index position j k with
  | nil => simp [Placement.ofSitesFrom] at hp
  | cons i rest ih =>
    rw [ofSitesFrom_cons] at hp hq
    obtain ⟨k, rfl⟩ : ∃ l, k = l + 1 := ⟨k - 1, by omega⟩
    rw [List.getElem?_cons_succ] at hq
    cases j with
    | zero =>
      obtain rfl := Option.some.inj hp
      exact le_landing hq
    | succ j => exact ih hp hq (Nat.lt_of_succ_lt_succ h)

/-- A placed instruction is one of the stream. -/
lemma mem_of_placement {k : Nat}
    (hp : (Placement.ofSitesFrom isa sites index position insns)[k]? = some p) : p.insn ∈ insns :=
  List.mem_of_getElem? (placement_eq hp).1

/-! ## Moving -/

variable {r : Weaver ρ} {u : CodeUnit} {unitIndex : UInt32} {topLevel : Bool}

/-- Where an offset of the old code leads: the end to the end, the offset of an instruction to the
landing of one there, and any other nowhere. -/
lemma find?_relocationOf (r : Weaver ρ) (u : CodeUnit) (sites : List Nat)
    (insns : List Instruction) (target : Nat) :
    (target = u.code.length ∧
        (r.relocationOf u sites insns).find? target = some (newExtent r.isa sites 0 insns)) ∨
      (∃ (k : Nat) (q : Placement), (Placement.ofSites r.isa sites insns)[k]? = some q ∧
        q.insn.offset.toNat = target ∧
        (r.relocationOf u sites insns).find? target = some q.landing) ∨
      (¬ IsTarget u insns target ∧ (r.relocationOf u sites insns).find? target = none) := by
  rw [Relocation.find?, relocationOf]
  by_cases hstop : target = u.code.length
  · exact .inl ⟨hstop, if_pos hstop⟩
  · right
    simp only [if_neg hstop]
    cases hf : ((Placement.ofSites r.isa sites insns).filter
        fun p => p.insn.offset.toNat = target).getLast? with
    | some q =>
      obtain ⟨hmem, hoff⟩ := List.mem_filter.1 (List.mem_of_getLast? hf)
      obtain ⟨k, hk⟩ := List.getElem?_of_mem hmem
      exact .inl ⟨k, q, hk, of_decide_eq_true hoff, rfl⟩
    | none =>
      refine .inr ⟨?_, rfl⟩
      rw [List.getLast?_eq_none_iff, List.filter_eq_nil_iff] at hf
      rintro (hend | ⟨i, hi, hoff⟩)
      · exact hstop hend
      · obtain ⟨k, hk⟩ := List.getElem?_of_mem hi
        obtain ⟨p, hp, rfl⟩ := exists_placement r.isa sites 0 0 hk
        exact hf p (List.mem_of_getElem? hp) (decide_eq_true hoff)

/-- An offset leads somewhere exactly if a jump may lead to it. -/
lemma isSome_find?_iff (r : Weaver ρ) (sites : List Nat) {target : Nat} :
    ((r.relocationOf u sites insns).find? target).isSome = true ↔ IsTarget u insns target := by
  rcases find?_relocationOf r u sites insns target with
    ⟨hend, heq⟩ | ⟨k, q, hq, hoff, heq⟩ | ⟨hnot, heq⟩
  · exact iff_of_true (by rw [heq]; rfl) (.inl hend)
  · exact iff_of_true (by rw [heq]; rfl) (.inr ⟨q.insn, mem_of_placement hq, hoff⟩)
  · exact iff_of_false (by simp [heq]) hnot

/-- **What lay behind an instruction lands behind it.** -/
lemma stop_le_of_find? (hw : ∀ i, 0 < r.isa.width i) (hlaid : r.isa.LaidOut 0 insns) {k : Nat}
    (hp : (Placement.ofSites r.isa sites insns)[k]? = some p) {target landing : Nat}
    (hbehind : p.insn.offset.toNat + r.isa.width p.insn ≤ target)
    (hf : (r.relocationOf u sites insns).find? target = some landing) :
    p.position + r.isa.width p.insn ≤ landing := by
  rcases find?_relocationOf r u sites insns target with
    ⟨-, heq⟩ | ⟨l, q, hq, hoff, heq⟩ | ⟨-, heq⟩
  · obtain rfl := Option.some.inj (hf.symm.trans heq)
    have hle := (placement_le hp).2
    omega
  · obtain rfl := Option.some.inj (hf.symm.trans heq)
    -- The instruction at the target comes later in the stream.
    refine stop_le_landing hp hq (Nat.lt_of_not_le fun hle => ?_)
    have hpo := hlaid.offset_eq (placement_eq hp).1
    have hqo := hlaid.offset_eq (placement_eq hq).1
    have hpos := hw p.insn
    rcases Nat.lt_or_eq_of_le hle with hlt | rfl
    · have hk := (List.getElem?_eq_some_iff.1 (placement_eq hp).1).1
      have : r.isa.offsetAt 0 insns l < r.isa.offsetAt 0 insns k :=
        InstructionSet.offsetAt_lt hw 0 hlt (Nat.le_of_lt hk)
      omega
    · omega
  · rw [heq] at hf
    exact absurd hf (by simp)

/-- A jump is moved if an operand leads where its target went. -/
lemma exists_move_of_operand (hisa : isa = .standard) {relocation : Relocation} {kind : JumpKind}
    {target landing arg : Nat} (hc : isa.classOf p.insn = .jump kind)
    (htarget : isa.jumpTarget p.insn = some target)
    (hf : relocation.find? target = some landing)
    (harg : operand isa kind p landing = .ok arg) :
    ∃ moved, move isa relocation p = .ok moved := by
  have hwidth : isa.width { p.insn.place (UInt32.ofNat p.position) p.insn.line with
      arg := some (UInt32.ofNat arg) } = isa.width p.insn := by
    rw [hisa]
    rfl
  refine ⟨{ p.insn.place (UInt32.ofNat p.position) p.insn.line with
    arg := some (UInt32.ofNat arg) }, ?_⟩
  simp only [move, hc, htarget, hf, harg]
  exact if_pos hwidth

/-- **What moving an instruction comes to**: it succeeds, unless the instruction jumps to no
target.

**Proof sketch.** A jump that has bytes has a target. Where the relocation leads that, an absolute
jump takes the new offset, and a relative one the way to it, which leads ahead (`stop_le_of_find?`).
Operands do not bear on widths. -/
theorem move_outcome (hisa : r.isa = .standard) (hlaid : r.isa.LaidOut 0 insns)
    {k : Nat} (hp : (Placement.ofSites r.isa sites insns)[k]? = some p)
    (henc : Standard.Encodable p.insn) :
    ((∃ moved, move r.isa (r.relocationOf u sites insns) p = .ok moved) ∧
        ∀ target, r.isa.jumpTarget p.insn = some target → IsTarget u insns target) ∨
      ∃ target, r.isa.jumpTarget p.insn = some target ∧ ¬ IsTarget u insns target ∧
        move r.isa (r.relocationOf u sites insns) p =
          .error (.malformed
            (.jumpOffBoundary (r.isa.mnemonic p.insn.opcode) p.insn.offset target)) := by
  cases hc : r.isa.classOf p.insn with
  | jump kind =>
    obtain ⟨target, htarget, hahead⟩ : ∃ target, r.isa.jumpTarget p.insn = some target ∧
        (kind = .relative → p.insn.offset.toNat + r.isa.width p.insn ≤ target) := by
      rw [hisa] at hc ⊢
      exact henc.exists_target hc
    rcases hf : (r.relocationOf u sites insns).find? target with _ | landing
    · have hnot : ¬ IsTarget u insns target := by
        rw [← isSome_find?_iff r sites, hf]
        simp
      refine .inr ⟨target, htarget, hnot, ?_⟩
      simp only [move, hc, htarget, hf]
    · obtain ⟨arg, harg⟩ : ∃ arg, operand r.isa kind p landing = .ok arg := by
        cases kind with
        | absolute => exact ⟨landing, rfl⟩
        | relative =>
          have hpos := InstructionSet.width_pos_of_standard hisa
          exact ⟨_, if_pos (stop_le_of_find? hpos hlaid hp (hahead rfl) hf)⟩
      refine .inl ⟨exists_move_of_operand hisa hc htarget hf harg, fun target' htarget' => ?_⟩
      obtain rfl := Option.some.inj (htarget.symm.trans htarget')
      rw [← isSome_find?_iff r sites, hf]
      rfl
  | plain | pinned | indirect =>
    refine .inl ⟨⟨_, by simp only [move, hc]; rfl⟩, fun target htarget => ?_⟩
    rw [(InstructionSet.followable_of_standard hisa).jumpTarget_eq, hc] at htarget
    exact absurd htarget (by simp [OpClass.target])

/-! ## Emitting -/

/-- Emission succeeds when all instructions are moved, and fails with the first that is not. -/
lemma emit_outcome (r : Weaver ρ) (u : CodeUnit) (unitIndex : UInt32) (topLevel : Bool)
    (relocation : Relocation) (ps : List Placement) :
    ((∃ out, emit r u unitIndex topLevel relocation ps = .ok out) ∧
        ∀ p ∈ ps, ∃ moved, move r.isa relocation p = .ok moved) ∨
      ∃ p ∈ ps, ∃ cause, move r.isa relocation p = .error cause ∧
        emit r u unitIndex topLevel relocation ps = .error cause := by
  induction ps with
  | nil => exact .inl ⟨⟨[], rfl⟩, by simp⟩
  | cons p rest ih =>
    cases hm : move r.isa relocation p with
    | error cause =>
      refine .inr ⟨p, List.mem_cons_self, cause, hm, ?_⟩
      rw [emit, hm]
      rfl
    | ok moved =>
      rcases ih with ⟨⟨more, hmore⟩, hall⟩ | ⟨q, hq, cause, hcause, herr⟩
      · refine .inl ⟨?_, List.forall_mem_cons.2 ⟨⟨moved, hm⟩, hall⟩⟩
        rw [emit, hm, hmore]
        cases p.probe with
        | none => exact ⟨_, rfl⟩
        | some at? => exact ⟨_, rfl⟩
      · refine .inr ⟨q, List.mem_cons_of_mem p hq, cause, hcause, ?_⟩
        rw [emit, hm, herr]
        rfl

/-- New code that ends at no 32-bit word is refused. -/
lemma insert_of_overflow (h : 4294967296 ≤ newExtent r.isa sites 0 insns) :
    r.insert u unitIndex topLevel insns sites =
      .error (.overflow (.codeEnd (newExtent r.isa sites 0 insns))) := by
  have hword : Word.ofNat? (newExtent r.isa sites 0 insns) = none := by
    rw [Option.eq_none_iff_forall_ne_some]
    intro w hw
    have hlt := w.toNat_lt
    have heq := Word.ofNat?_eq_some_iff.1 hw
    omega
  rw [insert]
  simp only [stop_ofSites, hword]
  rfl

/-- **What inserting probes comes to** when the new code ends at a 32-bit word: it succeeds, unless
an instruction jumps to no target. -/
theorem insert_outcome (hisa : r.isa = .standard) (unitIndex : UInt32) (topLevel : Bool)
    (hlaid : r.isa.LaidOut 0 insns) (henc : ∀ i ∈ insns, Standard.Encodable i)
    (hfits : newExtent r.isa sites 0 insns < 4294967296) :
    ((∃ out, r.insert u unitIndex topLevel insns sites = .ok out) ∧
        ∀ i ∈ insns, ∀ target, r.isa.jumpTarget i = some target → IsTarget u insns target) ∨
      ∃ i ∈ insns, ∃ target, r.isa.jumpTarget i = some target ∧ ¬ IsTarget u insns target ∧
        r.insert u unitIndex topLevel insns sites =
          .error (.malformed (.jumpOffBoundary (r.isa.mnemonic i.opcode) i.offset target)) := by
  have hword : Word.ofNat? (newExtent r.isa sites 0 insns) =
      some (UInt32.ofNat (newExtent r.isa sites 0 insns)) :=
    Word.ofNat?_eq_some_iff.2 (Word.toNat_ofNat_of_fits hfits).symm
  have hinsert : r.insert u unitIndex topLevel insns sites =
      emit r u unitIndex topLevel (r.relocationOf u sites insns)
        (Placement.ofSites r.isa sites insns) := by
    rw [insert]
    simp only [stop_ofSites, hword]
    rfl
  rw [hinsert]
  rcases emit_outcome r u unitIndex topLevel (r.relocationOf u sites insns)
    (Placement.ofSites r.isa sites insns) with ⟨hok, hall⟩ | ⟨p, hp, cause, hcause, herr⟩
  · refine .inl ⟨hok, fun i hi => ?_⟩
    obtain ⟨k, hk⟩ := List.getElem?_of_mem hi
    obtain ⟨p, hp, rfl⟩ := exists_placement r.isa sites 0 0 hk
    obtain ⟨moved, hm⟩ := hall p (List.mem_of_getElem? hp)
    rcases move_outcome (u := u) hisa hlaid hp (henc _ hi) with
      ⟨-, htargets⟩ | ⟨target, -, -, herr⟩
    · exact htargets
    · exact absurd (hm.symm.trans herr) (by simp)
  · obtain ⟨k, hk⟩ := List.getElem?_of_mem hp
    have hi := mem_of_placement hk
    rcases move_outcome (u := u) hisa hlaid hk (henc _ hi) with
      ⟨⟨moved, hm⟩, -⟩ | ⟨target, htarget, hnot, hm⟩
    · exact absurd (hm.symm.trans hcause) (by simp)
    · obtain rfl := Except.error.inj (hcause.symm.trans hm)
      exact .inr ⟨p.insn, hi, target, htarget, hnot, herr⟩

/-! ## Writing the new code -/

/-- A moved instruction has bytes if the old one had. -/
lemma encodable_move (hisa : r.isa = .standard) {relocation : Relocation} {moved : Instruction}
    (h : move r.isa relocation p = .ok moved) (henc : Standard.Encodable p.insn) :
    Standard.Encodable moved := by
  rcases move_cases h with ⟨-, rfl⟩ | ⟨kind, target, landing, arg, hc, -, -, -, rfl, -⟩
  · exact henc
  · rw [hisa] at hc
    obtain ⟨old, hold⟩ := henc.exists_arg hc
    obtain ⟨op, hop, harg⟩ := henc
    refine ⟨op, hop, ?_⟩
    rw [← harg, hold]
    rfl

/-- Probes have bytes. -/
lemma encodable_probeAt (hisa : r.isa = .standard) (position : Nat) (line : UInt32) :
    Standard.Encodable (r.probeAt u unitIndex topLevel position line) := by
  rw [probeAt, hisa]
  exact ⟨.probe, rfl, rfl⟩

/-- **New code has bytes** if the old instructions had. -/
theorem Emits.exists_encodeAll (hisa : r.isa = .standard) {relocation : Relocation}
    (h : Emits r u unitIndex topLevel sites relocation index position insns out)
    (henc : ∀ i ∈ insns, Standard.Encodable i) : ∃ code, r.isa.encodeAll out = .ok code := by
  have hnew : ∀ o ∈ out, Standard.Encodable o := by
    induction h with
    | nil => simp
    | probed hs hm rest ih =>
      obtain ⟨hi, hrest⟩ := List.forall_mem_cons.1 henc
      exact List.forall_mem_cons.2 ⟨encodable_probeAt hisa _ _,
        List.forall_mem_cons.2 ⟨encodable_move hisa hm hi, ih hrest⟩⟩
    | bare hs hm rest ih =>
      obtain ⟨hi, hrest⟩ := List.forall_mem_cons.1 henc
      exact List.forall_mem_cons.2 ⟨encodable_move hisa hm hi, ih hrest⟩
  rw [hisa]
  exact Standard.encodeAll_of_encodable hnew

/-- **The line starts of new code have a table** if those of the old code were decoded from one: they
have the same lines in the same order. -/
theorem Emits.exists_encode_lineRuns (hisa : r.isa = .standard) {relocation : Relocation}
    (h : Emits r u unitIndex topLevel sites relocation 0 0 insns out)
    (hfits : newExtent r.isa sites 0 insns < 4294967296)
    (hlines : u.lineStarts r.sign = .ok (Instruction.lineRuns insns)) :
    ∃ table, LineTable.encode r.sign (Instruction.lineRuns out) u.firstLine = .ok table := by
  have hplace := (InstructionSet.followable_of_standard hisa).toPlaceable
  have hlaid := h.laidOut hplace (by omega)
  have hordered : LineStart.Ordered (Instruction.lineRuns out) := by
    refine Instruction.ordered_lineRuns
      (hlaid.increasing (InstructionSet.width_pos_of_standard hisa)) fun i hi => ?_
    cases out with
    | nil => simp at hi
    | cons o rest =>
      obtain rfl := Option.some.inj hi
      exact UInt32.toNat_inj.1 hlaid.1
  have hforward : r.sign = .unsigned →
      LineStart.Forward u.firstLine (Instruction.lineRuns out) := by
    intro hsign
    rw [CodeUnit.lineStarts, hsign] at hlines
    have hold := LineTable.forward_of_decode hlines
    rw [LineStart.Forward] at hold ⊢
    rwa [Instruction.lineRuns, map_line_of_carried (h.carried none)]
  obtain ⟨table, htable, -⟩ := LineTable.decode_encode hordered hforward
  exact ⟨table, htable⟩

end Weaver

end CoverProbe
