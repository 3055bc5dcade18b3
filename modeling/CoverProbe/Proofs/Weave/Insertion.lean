import CoverProbe.Proofs.Instruction.RoundTrip
import CoverProbe.Proofs.Weave.Emission

set_option relaxedAutoImplicit false
set_option autoImplicit false

/-!
# Nothing but probes is inserted

Woven code is the old code with a probe before each site and new operands for its jumps. No
instruction is lost, added, reordered or put on another line, and the new code is longer by five
bytes for each probe. Without sites it is the old code to the byte, since every jump then leads to
where it led.

## Main definitions

* `CoverProbe.Weave.Inserted` — a stream with probes before its sites.
* `CoverProbe.Weaver.Framed` — what weaving a body leaves alone, and what it adds.

## Main results

* `CoverProbe.Weaver.Emits.inserted` — emission inserts probes and nothing else.
* `CoverProbe.Weaver.Emits.eq_self` — without sites emission changes nothing.
* `CoverProbe.Weaver.frame_preserved` — weaving a body inserts probes and nothing else.
-/

namespace CoverProbe

namespace Weave

/-- The stream `out` is `insns`, each instruction kept in its place, with a probe immediately before
each site, on the line of that. Instructions are counted from number `index` on. -/
inductive Inserted (isa : InstructionSet) (sites : List Nat) :
    (index : Nat) → (insns out : List Instruction) → Prop
  | nil {index : Nat} : Inserted isa sites index [] []
  | probed {index : Nat} {i moved : Instruction} {insns out : List Instruction}
      (hs : index ∈ sites) (token offset : UInt32) (hkept : Kept isa i moved)
      (rest : Inserted isa sites (index + 1) insns out) :
      Inserted isa sites index (i :: insns)
        ((isa.probe token).place offset i.line :: moved :: out)
  | bare {index : Nat} {i moved : Instruction} {insns out : List Instruction}
      (hs : index ∉ sites) (hkept : Kept isa i moved)
      (rest : Inserted isa sites (index + 1) insns out) :
      Inserted isa sites index (i :: insns) (moved :: out)

end Weave

/-! ## Bytes of attributed instructions -/

namespace Standard

/-- Lines do not bear on the bytes of instructions. -/
lemma encodeAll_map_unattributed (insns : List Instruction) :
    InstructionSet.standard.encodeAll (insns.map Instruction.unattributed) =
      InstructionSet.standard.encodeAll insns := by
  unfold InstructionSet.encodeAll
  rw [List.mapM_map]
  rfl

end Standard

/-- The instructions of a unit encode to its code. -/
lemma CodeUnit.encodeAll_of_instructions {u : CodeUnit} {sign : SignConvention}
    {insns : List Instruction} (h : u.instructions .standard sign = .ok insns) :
    InstructionSet.standard.encodeAll insns = .ok u.code := by
  unfold CodeUnit.instructions at h
  obtain ⟨raw, hraw, h⟩ := Checked.bind_eq_ok.1 h
  obtain ⟨starts, -, h⟩ := Checked.bind_eq_ok.1 h
  obtain rfl := Except.ok.inj h
  rw [← Standard.encodeAll_map_unattributed, Instruction.map_unattributed_withLines,
    Standard.encodeAll_map_unattributed]
  exact Standard.encodeAll_of_decodeFrom hraw

namespace Weaver

open Weave

variable {ρ : Type} {r : Weaver ρ} {u : CodeUnit} {unitIndex : UInt32} {topLevel : Bool}
  {isa : InstructionSet} {relocation : Relocation} {p : Placement} {moved : Instruction}
  {sites : List Nat} {index position : Nat} {insns out : List Instruction}

/-! ## Emission inserts -/

/-- **Emission inserts probes and nothing else.** -/
theorem Emits.inserted
    (h : Emits r u unitIndex topLevel sites relocation index position insns out) :
    Inserted r.isa sites index insns out := by
  induction h with
  | nil => exact .nil
  | probed hs hm rest ih => exact .probed hs _ _ (kept_of_move hm) ih
  | bare hs hm rest ih => exact .bare hs (kept_of_move hm) ih

/-! ## Emission without sites -/

/-- Without sites, instructions laid out land at the offsets that they have. -/
lemma landing_eq_offset (hlaid : isa.LaidOut position insns) {k : Nat}
    (hp : (Placement.ofSitesFrom isa [] index position insns)[k]? = some p) :
    p.landing = p.insn.offset.toNat := by
  induction insns generalizing index position k with
  | nil => simp [Placement.ofSitesFrom] at hp
  | cons i rest ih =>
    rw [ofSitesFrom_cons] at hp
    simp only [List.not_mem_nil, if_false, Nat.add_zero] at hp
    cases k with
    | zero =>
      obtain rfl := Option.some.inj hp
      exact hlaid.1.symm
    | succ k => exact ih hlaid.2 hp

/-- Without sites, every offset leads to itself if it leads anywhere. -/
lemma eq_of_find? (hlaid : r.isa.LaidOut 0 insns) (hext : r.isa.extent insns = u.code.length)
    {target landing : Nat}
    (hf : (r.relocationOf u [] insns).find? target = some landing) : landing = target := by
  rcases find?_relocationOf r u [] insns target with
    ⟨rfl, heq⟩ | ⟨k, q, hq, hoff, heq⟩ | ⟨-, heq⟩
  · have hnone : sitesIn [] 0 insns.length = 0 := sitesIn_eq_length List.Pairwise.nil (by simp)
    obtain rfl := Option.some.inj (heq.symm.trans hf)
    rw [newExtent, hnone, Nat.mul_zero, Nat.add_zero, hext]
  · obtain rfl := Option.some.inj (heq.symm.trans hf)
    rw [landing_eq_offset hlaid hq, hoff]
  · rw [heq] at hf
    exact absurd hf (by simp)

/-- The operand with which a jump that stays leads to its old target is its old one. -/
lemma arg_eq_of_operand (hisa : isa.Followable) (hposition : p.position = p.insn.offset.toNat)
    {kind : JumpKind} {target arg : Nat} (hc : isa.classOf p.insn = .jump kind)
    (htarget : isa.jumpTarget p.insn = some target) (harg : operand isa kind p target = .ok arg) :
    p.insn.arg = some (UInt32.ofNat arg) := by
  rw [hisa.jumpTarget_eq, hc] at htarget
  cases ha : p.insn.arg with
  | none =>
    rw [ha] at htarget
    cases kind with
    | absolute | relative => simp [OpClass.target] at htarget
  | some old =>
    rw [ha] at htarget
    cases kind with
    | absolute =>
      obtain rfl : old.toNat = target := Option.some.inj htarget
      obtain rfl : old.toNat = arg := Except.ok.inj harg
      rw [UInt32.ofNat_toNat]
    | relative =>
      have hbehind : p.insn.offset.toNat + isa.width p.insn + old.toNat = target :=
        Option.some.inj htarget
      rw [operand] at harg
      split_ifs at harg with hle
      obtain rfl : target - (p.position + isa.width p.insn) = arg := Except.ok.inj harg
      rw [hposition, ← hbehind, Nat.add_sub_cancel_left, UInt32.ofNat_toNat]

/-- An instruction that stays where it is does not change, if its target stays too. -/
lemma move_eq_self (hisa : isa.Followable) (h : move isa relocation p = .ok moved)
    (hposition : p.position = p.insn.offset.toNat)
    (hstays : ∀ target landing, relocation.find? target = some landing → landing = target) :
    moved = p.insn := by
  have hoffset : UInt32.ofNat p.position = p.insn.offset := by
    rw [hposition, UInt32.ofNat_toNat]
  rcases move_cases h with ⟨-, rfl⟩ | ⟨kind, target, landing, arg, hc, htarget, hf, harg, rfl, -⟩
  · rw [hoffset]
    rfl
  · obtain rfl := hstays _ _ hf
    rw [hoffset, ← arg_eq_of_operand hisa hposition hc htarget harg]
    rfl

/-- **Without sites emission changes nothing**, if every offset leads to itself. -/
theorem Emits.eq_self (hisa : r.isa.Followable)
    (h : Emits r u unitIndex topLevel [] relocation index position insns out)
    (hlaid : r.isa.LaidOut position insns)
    (hstays : ∀ target landing, relocation.find? target = some landing → landing = target) :
    out = insns := by
  induction h with
  | nil => rfl
  | probed hs => simp at hs
  | bare hs hm rest ih =>
    obtain ⟨hoffset, hrest⟩ := hlaid
    rw [ih hrest, move_eq_self hisa hm hoffset.symm hstays]

/-- Without sites, new code is the old code to the byte. -/
lemma Woven.code_eq (hisa : r.isa = .standard) {body : WovenBody}
    (hw : Woven r u unitIndex topLevel body [] insns out) : body.code = u.code := by
  have hsame : out = insns := hw.emits.eq_self (InstructionSet.followable_of_standard hisa)
    hw.laidOut fun _ _ hf => eq_of_find? hw.laidOut hw.extent hf
  have hold := hw.instructions
  have hnew := hw.newInstructions
  rw [hisa] at hold hnew
  have holdCode := CodeUnit.encodeAll_of_instructions hold
  have hnewCode := CodeUnit.encodeAll_of_instructions hnew
  rw [hsame, holdCode] at hnewCode
  exact (Except.ok.inj hnewCode).symm

/-! ## Bodies -/

/-- The sites of a weaver are those that it selects, without instructions too. -/
lemma sitesOf_eq (r : Weaver ρ) (topLevel : Bool) (insns : List Instruction) (s : ρ) :
    r.sitesOf topLevel insns s = ((selectSites r.isa insns r.policy
      (topLevel && r.topLevel = .entryOnly) r.sampler).run s).1.2 := by
  unfold sitesOf
  split_ifs with hempty
  · obtain rfl := List.isEmpty_iff.1 hempty
    rw [selectSites_nil]
  · rfl

/-- A woven body counts the candidates and the sites selected. -/
lemma counts_of_body (hisa : r.isa = .standard) {s s' : ρ} {body : WovenBody}
    (h : (r.body u unitIndex topLevel).run.run s = (.ok body, s'))
    (hinsns : u.instructions r.isa r.sign = .ok insns) :
    (body.candidates, body.probes) =
      (((selectSites r.isa insns r.policy (topLevel && r.topLevel = .entryOnly)
          r.sampler).run s).1.1, (r.sitesOf topLevel insns s).length) := by
  obtain ⟨prepared, hprep, -⟩ := body_eq_ok h
  obtain rfl : prepared = insns :=
    Except.ok.inj ((standard_prepare hisa hprep).1.symm.trans hinsns)
  rw [run_body, hprep] at h
  dsimp only at h
  rw [sitesOf_eq]
  split_ifs at h with hempty
  · obtain rfl := List.isEmpty_iff.1 hempty
    obtain rfl := Except.ok.inj (Prod.mk.inj h).1
    rw [selectSites_nil]
    rfl
  · obtain ⟨-, -, -, -, hcandidates, hprobes⟩ := bodyWith_eq_ok (Prod.mk.inj h).1
    rw [hcandidates, hprobes]

/-- A woven body is longer by five bytes for each probe. -/
lemma length_code_of_body (hisa : r.isa = .standard) {s s' : ρ} {body : WovenBody}
    (h : (r.body u unitIndex topLevel).run.run s = (.ok body, s')) :
    body.code.length = u.code.length + 5 * body.probes := by
  obtain ⟨insns, out, hw⟩ := woven_of_body hisa h
  obtain ⟨-, hprobes⟩ := Prod.mk.inj (counts_of_body hisa h hw.instructions)
  have hextent := newExtent_sitesOf hisa topLevel insns s
  rw [hw.codeEnd, hw.extent, ← hprobes] at hextent
  exact hextent

/-- What weaving a body leaves alone, and what it adds: the new code is `out`, the old `insns`, the
candidates are counted and the sites listed in `drawn`. -/
structure Framed (r : Weaver ρ) (u : CodeUnit) (body : WovenBody) (drawn : Nat × List Nat)
    (insns out : List Instruction) : Prop where
  instructions : u.instructions r.isa r.sign = .ok insns
  newInstructions : (rebuild u body u.consts).instructions r.isa r.sign = .ok out
  inserted : Inserted r.isa drawn.2 0 insns out
  laidOut : r.isa.LaidOut 0 out
  candidates : body.candidates = drawn.1
  probes : body.probes = drawn.2.length
  probes_le : body.probes ≤ body.candidates
  length : body.code.length = u.code.length + 5 * body.probes
  unchanged : drawn.2 = [] → body.code = u.code

/-- **Weaving a body inserts probes and nothing else.** The new code, decoded with the new line
table, is the old code, decoded with the old one, with one probe immediately before each site that
was selected on that; every instruction keeps its opcode and its line, and its operand unless it
jumps. The new code is laid out from offset zero on and longer by five bytes for each probe, and
there are no more probes than candidates. If no site is selected, the code does not change.

**Proof sketch.** The new code is what was emitted (`woven_of_body`), and emission inserts
(`Emits.inserted`). Its length is counted by the sites (`newExtent_sitesOf`). Without sites all
offsets lead to themselves, so no operand changes (`Emits.eq_self`), and what instructions encode to
is determined. -/
theorem frame_preserved (hisa : r.isa = .standard) {s s' : ρ} {body : WovenBody}
    (h : (r.body u unitIndex topLevel).run.run s = (.ok body, s')) :
    ∃ insns out, Framed r u body ((selectSites r.isa insns r.policy
      (topLevel && r.topLevel = .entryOnly) r.sampler).run s).1 insns out := by
  obtain ⟨insns, out, hw⟩ := woven_of_body hisa h
  obtain ⟨hcandidates, hprobes⟩ := Prod.mk.inj (counts_of_body hisa h hw.instructions)
  have hextent := newExtent_sitesOf hisa topLevel insns s
  rw [hw.codeEnd, hw.extent, ← hprobes] at hextent
  rw [sitesOf_eq] at hw hprobes
  refine ⟨insns, out, hw.instructions, hw.newInstructions, hw.emits.inserted, hw.newLaidOut,
    hcandidates, hprobes, ?_, hextent, fun hnone => ?_⟩
  · rw [hcandidates, hprobes]
    apply length_sites_le
  · rw [hnone] at hw
    exact hw.code_eq hisa

/-- Three probes are inserted into a loop, and nothing else. -/
theorem frame_preserved_loop :
    (threeRuns.body .loop 0 false).run.run () = (.ok .loop, ()) ∧
      ∃ insns out, CodeUnit.loop.instructions .standard .signed = .ok insns ∧
        Inserted .standard [0, 1, 3] 0 insns out ∧
        WovenBody.loop.code.length = CodeUnit.loop.code.length + 5 * 3 := by
  have hrun : (threeRuns.body .loop 0 false).run.run () = (.ok .loop, ()) := by rfl
  obtain ⟨insns, out, hframed⟩ := frame_preserved (r := threeRuns) (u := .loop) rfl hrun
  have hinsns : CodeUnit.loop.instructions .standard .signed = .ok
    [⟨0x23, some 6, 0, 2⟩, ⟨0x11, none, 5, 3⟩, ⟨0x20, some 0, 6, 3⟩, ⟨0x12, none, 11, 4⟩] := by rfl
  obtain rfl := Except.ok.inj (hframed.instructions.symm.trans hinsns)
  exact ⟨hrun, _, out, hinsns, hframed.inserted, hframed.length⟩

end Weaver

end CoverProbe
