import CoverProbe.Proofs.Unit.Validity
import CoverProbe.Proofs.Weave.Acceptance
import CoverProbe.Proofs.Weave.Control
import CoverProbe.Proofs.Weave.Counterpart

set_option relaxedAutoImplicit false
set_option autoImplicit false

/-!
# Validity of woven trees

Weaving makes no tree valid or invalid. That the lines of a unit start at instructions and that its
jumps lead to instructions is checked before it is woven, and stays true; and its new code names the
same constants as the old, in a pool that keeps their kinds.

## Main results

* `CoverProbe.Weaver.Emits.constantOperands` — new code names the constants of the old.
* `CoverProbe.Weaver.validate_of_body` — a woven unit is valid exactly if the old one is.
* `CoverProbe.Weaver.validity_preserved` — a woven tree is valid exactly if the old one is.
-/

namespace CoverProbe

open Validity

/-! ## Operands that name constants -/

/-- Pools that keep kinds have the same constants for operands. -/
lemma Validity.names_iff {pool woven : Pool} (h : List.Forall₂ Pool.KeepsKind pool woven)
    (operand : ConstantOperand) : Names woven operand ↔ Names pool operand := by
  have hslot : ∀ n : Nat, (woven[n]?).map (·.unit?.isSome) = (pool[n]?).map (·.unit?.isSome) := by
    induction h with
    | nil => simp
    | cons hkind _ ih =>
      rintro (_ | n)
      · cases hkind with
        | unit u v => rfl
        | plain hplain => rfl
      · exact ih n
  have hnames : ∀ pool : Pool, Names pool operand ↔
      ∃ isUnit, (pool[operand.slot.toNat]?).map (·.unit?.isSome) = some isUnit ∧
        (operand.expectsUnit = true → isUnit = true) := by
    intro pool
    simp only [Names, Pool.get?, Option.map_eq_some_iff, exists_exists_and_eq_and]
  rw [hnames, hnames, hslot]

namespace Weaver

variable {ρ : Type} {r : Weaver ρ} {u : CodeUnit} {unitIndex : UInt32} {topLevel : Bool}

/-- A moved instruction names the constant that it named. -/
lemma constantOperand_move (hisa : r.isa = .standard) {relocation : Relocation} {p : Placement}
    {moved : Instruction} (h : move r.isa relocation p = .ok moved) :
    r.isa.constantOperand moved = r.isa.constantOperand p.insn := by
  have hclass := (InstructionSet.followable_of_standard hisa).classOf_congr _ _ (move_keeps h).1
  rcases move_cases h with ⟨-, rfl⟩ | ⟨kind, target, landing, arg, hc, -, -, -, -, -⟩
  · rw [hisa]
    rfl
  · rw [hc] at hclass
    rw [hisa] at hc hclass ⊢
    exact (Standard.constantOperand_of_jump hclass).trans
      (Standard.constantOperand_of_jump hc).symm

/-- **New code names the constants of the old**, in the same order. -/
theorem Emits.constantOperands (hisa : r.isa = .standard) {sites : List Nat}
    {relocation : Relocation} {index position : Nat} {insns out : List Instruction}
    (h : Emits r u unitIndex topLevel sites relocation index position insns out) :
    out.filterMap r.isa.constantOperand = insns.filterMap r.isa.constantOperand := by
  induction h with
  | nil => rfl
  | @probed index position i moved insns out hs hm rest ih =>
    have hprobe : r.isa.constantOperand (r.probeAt u unitIndex topLevel position i.line) =
        none := by
      rw [probeAt, hisa]
      rfl
    rw [List.filterMap_cons_none hprobe, List.filterMap_cons, List.filterMap_cons,
      constantOperand_move hisa hm, ih]
  | bare hs hm rest ih =>
    rw [List.filterMap_cons, List.filterMap_cons, constantOperand_move hisa hm, ih]

/-! ## Woven units -/

section

variable {body : WovenBody} {sites : List Nat} {insns out : List Instruction}

/-- The jumps of new code lead to its instructions, or to its end. -/
lemma Woven.targets (hisa : r.isa = .standard)
    (hw : Woven r u unitIndex topLevel body sites insns out)
    (hsites : ∀ k ∈ sites, k < insns.length) (consts : Pool) :
    ∀ o ∈ out, ∀ target, r.isa.jumpTarget o = some target →
      IsTarget (rebuild u body consts) out target := by
  intro o ho target htarget
  have hr := hw.rewired hisa hsites
  obtain ⟨v, hv⟩ := List.getElem?_of_mem ho
  have hlt := (List.getElem?_eq_some_iff.1 hv).1
  rw [hr.length_eq] at hlt
  rcases Weave.seat_or_probe sites hlt with ⟨k, hk, rfl⟩ | ⟨k, hk, hs, rfl⟩
  · obtain ⟨moved, hseated, hjump⟩ := hr.follows (List.getElem?_eq_getElem hk)
    obtain rfl := Option.some.inj (hseated.seat.symm.trans hv)
    rcases hjump with ⟨-, hnone⟩ | ⟨_, landing, j, -, hlanding, -, hland⟩
    · exact absurd (hnone.symm.trans htarget) (by simp)
    · obtain rfl := Option.some.inj (hlanding.symm.trans htarget)
      rcases hland with ⟨i, hi, hoff⟩ | ⟨-, hend⟩
      · exact .inr ⟨i, List.mem_of_getElem? hi, hoff⟩
      · exact .inl hend
  · obtain ⟨moved, hseated, -⟩ := hr.follows (List.getElem?_eq_getElem hk)
    obtain ⟨token, offset, hprobe⟩ := hseated.probe hs
    obtain rfl := Option.some.inj (hprobe.symm.trans hv)
    rw [hr.probe_bare] at htarget
    exact absurd htarget (by simp)

/-- The lines of new code start at its instructions. -/
lemma Woven.founded (hw : Woven r u unitIndex topLevel body sites insns out)
    (hread : Readable r u insns) (consts : Pool) :
    ∃ starts, (rebuild u body consts).lineStarts r.sign = .ok starts ∧
      ∀ s ∈ starts, Founded out s := by
  by_cases hne : insns = []
  · subst hne
    have hout : out = [] := List.length_eq_zero_iff.1 hw.emits.length_eq
    obtain ⟨starts, hstarts, hfounded⟩ := hread.founded
    refine ⟨starts, ?_, hout ▸ hfounded⟩
    rw [← hstarts, CodeUnit.lineStarts, CodeUnit.lineStarts, rebuild, hw.emptied rfl]
  · refine ⟨_, hw.newLines hne, fun s hs => .inl ?_⟩
    exact Instruction.anchored_lineRunsFrom none out s hs

end

/-- Lines do not bear on the soundness of standard instructions. -/
lemma sound_withLines (hisa : r.isa = .standard) (raw : List Instruction)
    (starts : List LineStart) :
    Sound r.isa u (Instruction.withLines starts raw) starts ↔ Sound r.isa u raw starts := by
  have htarget : ∀ target, IsTarget u (Instruction.withLines starts raw) target ↔
      IsTarget u raw target := by
    intro target
    have hmem : ∀ l : List Instruction, (∃ i ∈ l, i.offset.toNat = target) ↔
        ∃ offset ∈ l.map (·.offset), offset.toNat = target := by
      simp
    rw [IsTarget, IsTarget, hmem, Instruction.map_offset_withLines, ← hmem]
  have hjump : ∀ i : Instruction, r.isa.jumpTarget i.unattributed = r.isa.jumpTarget i := by
    rw [hisa]
    exact fun _ => rfl
  have hoperand : ∀ i : Instruction,
      r.isa.constantOperand i.unattributed = r.isa.constantOperand i := by
    rw [hisa]
    exact fun _ => rfl
  simp only [sound_iff, htarget, Instruction.founded_withLines]
  rw [Instruction.forall_mem_withLines fun i => by rw [hjump],
    Instruction.forall_mem_withLines fun i => by rw [hoperand]]

/-- For the standard set, valid units are those whose instructions with lines are sound. -/
lemma validate_iff_sound (hisa : r.isa = .standard) {insns : List Instruction}
    {starts : List LineStart} (hinsns : u.instructions r.isa r.sign = .ok insns)
    (hstarts : u.lineStarts r.sign = .ok starts) :
    u.validate r.isa r.sign = .ok () ↔ Sound r.isa u insns starts := by
  obtain ⟨raw, starts', hraw, hstarts', rfl⟩ := instructions_eq_ok.1 hinsns
  obtain rfl := Except.ok.inj (hstarts.symm.trans hstarts')
  rw [CodeUnit.validate_eq_ok, sound_withLines hisa]
  constructor
  · rintro ⟨raw', starts', hraw', hstarts', h⟩
    obtain rfl := Except.ok.inj (hraw.symm.trans hraw')
    obtain rfl := Except.ok.inj (hstarts.symm.trans hstarts')
    exact h
  · exact fun h => ⟨raw, starts, hraw, hstarts, h⟩

/-- **A woven unit is valid exactly if the old one is**, when its pool keeps the kinds of its
constants.

**Proof sketch.** A unit that is woven is weavable, so its lines start at instructions and its jumps
lead to some or to the end; the same is true of the new code (`Woven.founded`, `Woven.targets`). So
either is valid exactly if its operands name constants. These are the same operands
(`Emits.constantOperands`), and the pools have the same constants for them. -/
theorem validate_of_body (hisa : r.isa = .standard) {s s' : ρ} {body : WovenBody}
    (h : (r.body u unitIndex topLevel).run.run s = (.ok body, s')) {consts : Pool}
    (hslots : List.Forall₂ Pool.KeepsKind u.consts consts) :
    (rebuild u body consts).validate r.isa r.sign = .ok () ↔
      u.validate r.isa r.sign = .ok () := by
  obtain ⟨insns, out, hw⟩ := woven_of_body hisa h
  obtain ⟨insns', hweavable⟩ := weavable_of_ok hisa (congrArg Prod.fst h)
  obtain rfl := Except.ok.inj (hw.instructions.symm.trans hweavable.instructions)
  obtain ⟨starts, hstarts, hfounded⟩ := hweavable.founded
  obtain ⟨new, hnew, hnewFounded⟩ := hw.founded hweavable.toReadable consts
  have htargets := hw.targets hisa (fun k hk => lt_of_mem_sitesOf hk) consts
  have hinsns : (rebuild u body consts).instructions r.isa r.sign = .ok out := hw.newInstructions
  -- Operands are told by the list of them.
  have hoperands : ∀ (l : List Instruction) (pool : Pool),
      (∀ i ∈ l, ∀ operand, r.isa.constantOperand i = some operand → Names pool operand) ↔
        ∀ operand ∈ l.filterMap r.isa.constantOperand, Names pool operand := by
    intro l pool
    simp only [List.mem_filterMap]
    exact ⟨fun hl operand ⟨i, hi, heq⟩ => hl i hi operand heq,
      fun hl i hi operand heq => hl operand ⟨i, hi, heq⟩⟩
  have hsame : (∀ i ∈ out, ∀ operand, r.isa.constantOperand i = some operand →
      Names consts operand) ↔ ∀ i ∈ insns, ∀ operand, r.isa.constantOperand i = some operand →
        Names u.consts operand := by
    rw [hoperands, hoperands, hw.emits.constantOperands hisa]
    simp only [Validity.names_iff hslots]
  rw [validate_iff_sound hisa hw.instructions hstarts, validate_iff_sound hisa hinsns hnew]
  constructor
  · exact fun hsound => ⟨hfounded, hweavable.targets, hsame.1 hsound.constants⟩
  · exact fun hsound => ⟨hnewFounded, htargets, hsame.2 hsound.constants⟩

/-! ## Woven trees -/

/-- **A woven tree is valid exactly if the old one is.**

**Proof sketch.** A tree is valid if the units at its places are. Each place of the woven tree is
the counterpart of one of the old (`counterparts_of_tree`), and so is valid exactly if that is
(`validate_of_body`). -/
theorem validity_preserved (hisa : r.isa = .standard) {root out : CodeUnit} {s s' : ρ}
    (h : (r.tree root topLevel).run.run s = (.ok out, s')) :
    out.validateTree r.isa r.sign = .ok () ↔ root.validateTree r.isa r.sign = .ok () := by
  rw [CodeUnit.validateTree_eq_ok, CodeUnit.validateTree_eq_ok,
    ← CodeUnit.forall_mem_places out topLevel, ← CodeUnit.forall_mem_places root topLevel]
  refine (counterparts_of_tree h).forall_mem_iff (P := fun u => u.validate r.isa r.sign = .ok ()) ?_
  intro k p q hcounter
  obtain ⟨body, s₁, s₂, hbody, hunit⟩ := hcounter.woven
  rw [hunit]
  exact validate_of_body hisa hbody hcounter.slots

/-- The loop with another in its pool is valid; so it is when woven, with probes in both loops. -/
theorem validity_preserved_nestedLoop :
    (threeRuns.tree .nestedLoop true).run.run () = (.ok .wovenLoop, ()) ∧
      (∀ p ∈ CodeUnit.wovenLoop.places true, ∃ insns,
        InstructionSet.standard.decode p.unit.code = .ok insns ∧
          ∃ i ∈ insns, InstructionSet.standard.isProbe i = true) ∧
      CodeUnit.validateTree .standard .signed .wovenLoop = .ok () := by
  have hvalid : CodeUnit.validateTree .standard .signed .nestedLoop = .ok () := by
    rw [CodeUnit.validateTree, CodeUnit.postOrder_eq_nestedOrder]
    rfl
  exact ⟨run_nestedLoop, CodeUnit.exists_probe_wovenLoop,
    (validity_preserved (r := threeRuns) rfl run_nestedLoop).2 hvalid⟩

end Weaver

end CoverProbe
