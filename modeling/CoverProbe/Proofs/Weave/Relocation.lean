import CoverProbe.Proofs.Instruction.Regular
import CoverProbe.Proofs.Weave.Body

set_option relaxedAutoImplicit false
set_option autoImplicit false

/-!
# Relocation in other dialects

Where instructions go is computed from their old widths, and jumps get their new operands after
that. In a dialect with wide jumps the two could disagree, so a jump that a new operand would make
wider or narrower is refused. What is woven is therefore laid out with its final widths, and the
operands of its jumps lead where these led, in every relocatable set. So do the jumps themselves,
unless a new operand makes one of them a jump of another kind; where classes are told by opcodes, it
never does.

## Main definitions

* `CoverProbe.Weave.landingOf` — the new position of what a jump to an old instruction leads to.
* `CoverProbe.Weave.Jumps`, `CoverProbe.Weave.newOperand?` — a jump, and the operand that it needs.
* `CoverProbe.Weave.Unrelocatable` — sites whose probes cannot be put in.
* `CoverProbe.Weave.Relocated` — new code whose layout is consistent.
* `CoverProbe.Weave.Follows` — new code whose jumps lead where the old ones led.

## Main results

* `CoverProbe.Weaver.Emits.relocated` — emitted code is laid out with its final widths.
* `CoverProbe.Weaver.insert_of_unrelocatable` — sites that cannot be relocated are refused.
* `CoverProbe.Weaver.layout_consistent` — both, for bodies.
* `CoverProbe.Weaver.jump_astray` — a jump that a new operand turns into one of another kind.
-/

namespace CoverProbe

namespace Weave

open Weaver

/-- The new position of what a jump to old instruction `k` leads to, or of the end for the number of
instructions: the bytes that the instructions before it take with their probes. -/
def landingOf (isa : InstructionSet) (sites : List Nat) (insns : List Instruction) (k : Nat) : Nat :=
  newExtent isa sites 0 (insns.take k)

/-- Instruction number `k` of a stream that ends at `stop`, `i`, jumps to instruction number `j`, or
to the end for the number of instructions. -/
structure Jumps (isa : InstructionSet) (insns : List Instruction) (stop k : Nat) (i : Instruction)
    (kind : JumpKind) (j : Nat) : Prop where
  insn : insns[k]? = some i
  classOf : isa.classOf i = .jump kind
  lands : ∃ target, isa.jumpTarget i = some target ∧ InstructionSet.Lands insns stop target j

/-- The operand that jump `k` to `j` needs in the new code. A relative jump cannot lead back. -/
def newOperand? (isa : InstructionSet) (sites : List Nat) (insns : List Instruction)
    (kind : JumpKind) (k j : Nat) : Option Nat :=
  match kind with
  | .absolute => some (landingOf isa sites insns j)
  | .relative =>
    if landingOf isa sites insns (k + 1) ≤ landingOf isa sites insns j then
      some (landingOf isa sites insns j - landingOf isa sites insns (k + 1))
    else none

/-- Sites whose probes cannot be put in: the new code would end at no 32-bit word, or some jump
would have to lead back, would need an operand that is no word, or would change its width. -/
inductive Unrelocatable (isa : InstructionSet) (sites : List Nat) (insns : List Instruction)
    (stop : Nat) : Prop
  | codeEnd (h : 4294967296 ≤ newExtent isa sites 0 insns)
  | backward {k j : Nat} {i : Instruction} {kind : JumpKind}
      (hjump : Jumps isa insns stop k i kind j) (h : newOperand? isa sites insns kind k j = none)
  | operand {k j arg : Nat} {i : Instruction} {kind : JumpKind}
      (hjump : Jumps isa insns stop k i kind j)
      (harg : newOperand? isa sites insns kind k j = some arg) (h : 4294967296 ≤ arg)
  | width {k j arg : Nat} {i : Instruction} {kind : JumpKind}
      (hjump : Jumps isa insns stop k i kind j)
      (harg : newOperand? isa sites insns kind k j = some arg)
      (h : isa.width { i with arg := some (UInt32.ofNat arg) } ≠ isa.width i)

/-- New code `out` for the instructions `insns` of a stream that ends at `stop`, with probes before
the sites `sites`, is consistent. Its instructions stand one behind the other from offset zero on,
by the widths that they have there, and end at a 32-bit word. Every old instruction is seated in it;
and the operand of a jump leads to the probe of what the jump led to, to that itself if it has none,
or to the new end for the old one. So does the jump, if it still is one of that kind. -/
structure Relocated (isa : InstructionSet) (sites : List Nat) (insns out : List Instruction)
    (stop : Nat) : Prop where
  laidOut : isa.LaidOut 0 out
  fits : isa.extent out < 4294967296
  length : out.length = landAt sites insns.length
  follows : ∀ (k : Nat) i, insns[k]? = some i → ∃ moved, Seated isa sites out k i moved ∧
    ∀ kind, isa.classOf i = .jump kind → ∃ j landing,
      (∀ j', Jumps isa insns stop k i kind j' ↔ j' = j) ∧
      InstructionSet.Lands out (isa.extent out) landing (landAt sites j) ∧
      (OpClass.jump kind).target (moved.offset.toNat + isa.width moved) moved.arg =
        some landing ∧
      (isa.classOf moved = isa.classOf i → isa.jumpTarget moved = some landing)

/-- Every jump of the old code, in its place in the new code, leads to the probe of what it led to,
to that itself if it has none, or to the new end for the old one. -/
def Follows (isa : InstructionSet) (sites : List Nat) (insns out : List Instruction)
    (stop : Nat) : Prop :=
  ∀ {k j : Nat} {i : Instruction} {kind : JumpKind}, Jumps isa insns stop k i kind j →
    ∃ moved landing, out[seatAt sites k]? = some moved ∧ isa.jumpTarget moved = some landing ∧
      InstructionSet.Lands out (isa.extent out) landing (landAt sites j)

/-- **Where classes are told by opcodes, jumps lead where they led**: no jump changes its kind. -/
theorem Relocated.leads {isa : InstructionSet} {sites : List Nat} {insns out : List Instruction}
    {stop : Nat} (h : Relocated isa sites insns out stop) (hclass : isa.ClassedByOpcode) :
    Follows isa sites insns out stop := by
  intro k j i kind hjump
  obtain ⟨moved, hseat, hmoved⟩ := h.follows k i hjump.insn
  obtain ⟨j', landing, hunique, hlands, -, htarget⟩ := hmoved kind hjump.classOf
  obtain rfl := (hunique j).1 hjump
  exact ⟨moved, landing, hseat.seat, htarget (hclass hseat.opcode), hlands⟩

end Weave

namespace InstructionSet

/-- Relocatable sets have instructions that can be placed. -/
lemma Relocatable.toPlaceable {isa : InstructionSet} (h : isa.Relocatable) : isa.Placeable :=
  ⟨h.width_place, h.width_probe⟩

end InstructionSet

namespace Weaver

open Weave

variable {ρ : Type} {r : Weaver ρ} {u : CodeUnit} {unitIndex : UInt32} {topLevel : Bool}
  {isa : InstructionSet} {sites : List Nat} {index position : Nat} {insns out : List Instruction}
  {p : Placement}

/-! ## Landings -/

/-- An instruction is placed behind those before it and their probes. -/
lemma landing_eq {k : Nat}
    (hp : (Placement.ofSitesFrom isa sites index position insns)[k]? = some p) :
    p.landing = position + newExtent isa sites index (insns.take k) ∧
      p.position + isa.width p.insn =
        position + newExtent isa sites index (insns.take (k + 1)) := by
  induction insns generalizing index position k with
  | nil => simp [Placement.ofSitesFrom] at hp
  | cons i rest ih =>
    rw [ofSitesFrom_cons] at hp
    rw [List.take_succ_cons, newExtent_cons]
    cases k with
    | zero =>
      obtain rfl := Option.some.inj hp
      by_cases hs : index ∈ sites
      · simp [Placement.landing, hs, newExtent, Nat.add_assoc]
      · simp [Placement.landing, hs, newExtent]
    | succ k =>
      rw [List.take_succ_cons, newExtent_cons]
      have hrest := ih hp
      omega

/-- Where an offset of the old code leads is the landing of what it names. -/
lemma landingOf_of_find? {target landing : Nat}
    (hf : (r.relocationOf u sites insns).find? target = some landing) :
    ∃ j, InstructionSet.Lands insns u.code.length target j ∧
      landing = landingOf r.isa sites insns j := by
  rw [Relocation.find?, relocationOf] at hf
  split_ifs at hf with hstop
  · obtain rfl := Option.some.inj hf
    refine ⟨insns.length, .inr ⟨rfl, hstop⟩, ?_⟩
    rw [landingOf, List.take_length]
  · rw [Option.map_eq_some_iff] at hf
    obtain ⟨p, hp, rfl⟩ := hf
    obtain ⟨hmem, hoff⟩ := List.mem_filter.1 (List.mem_of_getLast? hp)
    obtain ⟨k, hk⟩ := List.getElem?_of_mem hmem
    refine ⟨k, .inl ⟨p.insn, (placement_eq hk).1, of_decide_eq_true hoff⟩, ?_⟩
    rw [(landing_eq hk).1, Nat.zero_add, landingOf]

/-- The operand of a moved jump is the one that it needs, and leaves its width alone. -/
lemma newOperand?_of_move (hisa : r.isa.Relocatable) {k j : Nat} {kind : JumpKind}
    (hunique : ∀ {target j k : Nat}, InstructionSet.Lands insns u.code.length target j →
      InstructionSet.Lands insns u.code.length target k → j = k)
    (hp : (Placement.ofSites r.isa sites insns)[k]? = some p) {moved : Instruction}
    (hm : move r.isa (r.relocationOf u sites insns) p = .ok moved)
    (hjump : Jumps r.isa insns u.code.length k p.insn kind j) :
    ∃ arg ≤ landingOf r.isa sites insns j,
      newOperand? r.isa sites insns kind k j = some arg ∧
      r.isa.width { p.insn with arg := some (UInt32.ofNat arg) } = r.isa.width p.insn := by
  obtain ⟨target, htarget, hlands⟩ := hjump.lands
  rcases move_cases hm with ⟨hno, -⟩ | ⟨kind', target', landing, arg, hc, htarget', hf, harg, rfl, hw⟩
  · exact absurd hjump.classOf (hno kind)
  obtain rfl := OpClass.jump.inj (hjump.classOf.symm.trans hc)
  obtain rfl := Option.some.inj (htarget.symm.trans htarget')
  obtain ⟨j', hlands', rfl⟩ := landingOf_of_find? hf
  obtain rfl := hunique hlands hlands'
  have hwidth : r.isa.width { p.insn with arg := some (UInt32.ofNat arg) } =
      r.isa.width p.insn := by
    rw [← hw]
    exact (hisa.width_place { p.insn with arg := some (UInt32.ofNat arg) } _ _).symm
  have hbehind : p.position + r.isa.width p.insn = landingOf r.isa sites insns (k + 1) := by
    rw [(landing_eq hp).2, Nat.zero_add, landingOf]
  cases kind with
  | absolute =>
    obtain rfl : landingOf r.isa sites insns j = arg := Except.ok.inj harg
    exact ⟨_, Nat.le_refl _, rfl, hwidth⟩
  | relative =>
    simp only [Weaver.operand, hbehind] at harg
    split_ifs at harg with hle
    obtain rfl := Except.ok.inj harg
    exact ⟨_, Nat.sub_le _ _, if_pos hle, hwidth⟩

/-- Nothing lands behind the end. -/
lemma landingOf_le (isa : InstructionSet) (sites : List Nat) (insns : List Instruction) (j : Nat) :
    landingOf isa sites insns j ≤ newExtent isa sites 0 insns := by
  rw [landingOf]
  generalize 0 = index
  induction insns generalizing index j with
  | nil => rw [List.take_nil]
  | cons i rest ih =>
    cases j with
    | zero => simp [newExtent]
    | succ j =>
      rw [List.take_succ_cons, newExtent_cons, newExtent_cons]
      exact Nat.add_le_add_left (ih j (index + 1)) _

/-! ## Emission in relocatable sets -/

section

variable (hisa : r.isa.Relocatable)
  (hunique : ∀ {target j k : Nat}, InstructionSet.Lands insns u.code.length target j →
    InstructionSet.Lands insns u.code.length target k → j = k)

include hisa hunique in
/-- **Sites that cannot be relocated are refused.**

**Proof sketch.** If probes are put in, the new code ends at a 32-bit word and every jump was moved;
so each has the operand that it needs, which is no greater than the end, and its old width
(`newOperand?_of_move`). -/
theorem insert_of_unrelocatable (h : Unrelocatable r.isa sites insns u.code.length) :
    r.insert u unitIndex topLevel insns sites ≠ .ok out := by
  intro hout
  obtain ⟨hfits, hemits⟩ := emits_of_insert hout
  -- Every jump was moved, with the operand that it needs.
  have hmoved : ∀ {k j i kind}, Jumps r.isa insns u.code.length k i kind j →
      ∃ arg ≤ landingOf r.isa sites insns j, newOperand? r.isa sites insns kind k j = some arg ∧
        r.isa.width { i with arg := some (UInt32.ofNat arg) } = r.isa.width i := by
    intro k j i kind hjump
    obtain ⟨p, hp, rfl⟩ := exists_placement r.isa sites 0 0 hjump.insn
    obtain ⟨moved, hm, -⟩ := hemits.at_placement hp
    exact newOperand?_of_move hisa hunique hp hm hjump
  cases h with
  | codeEnd h => omega
  | backward hjump h =>
    obtain ⟨arg, -, harg, -⟩ := hmoved hjump
    exact absurd (h.symm.trans harg) (by simp)
  | @operand k j arg i kind hjump harg h =>
    obtain ⟨arg', hle, harg', -⟩ := hmoved hjump
    obtain rfl := Option.some.inj (harg.symm.trans harg')
    have := landingOf_le r.isa sites insns j
    omega
  | width hjump harg h =>
    obtain ⟨arg', -, harg', hw⟩ := hmoved hjump
    obtain rfl := Option.some.inj (harg.symm.trans harg')
    exact h hw

include hisa hunique in
/-- **Emitted code is laid out with its final widths**, and operands of jumps lead where these led. -/
theorem Emits.relocated
    (h : Emits r u unitIndex topLevel sites (r.relocationOf u sites insns) 0 0 insns out)
    (hfits : newExtent r.isa sites 0 insns < 4294967296) :
    Relocated r.isa sites insns out u.code.length := by
  have hextent := h.extent_eq hisa.toPlaceable
  refine ⟨h.laidOut hisa.toPlaceable (by omega), hextent ▸ hfits, h.length_eq, ?_⟩
  intro k i hk
  obtain ⟨moved, hseat, hjump⟩ := h.relocates hfits hk
  refine ⟨moved, hseat, fun kind hc => ?_⟩
  obtain ⟨target, landing, j, htarget, hmoved, hold, hnew⟩ := hjump kind hc
  refine ⟨j, landing, fun j' => ⟨?_, ?_⟩, hextent ▸ hnew, hmoved, fun hclass => ?_⟩
  · rintro ⟨-, -, target', htarget', hlands⟩
    obtain rfl := Option.some.inj (htarget.symm.trans htarget')
    exact hunique hlands hold
  · rintro rfl
    exact ⟨hk, hc, target, htarget, hold⟩
  · rw [hisa.jumpTarget_eq, hclass, hc]
    exact hmoved

end

/-! ## Bodies -/

/-- The offsets of prepared instructions name one instruction each. -/
lemma lands_unique_of_prepare (hisa : r.isa.Relocatable) (h : r.prepare u = .ok insns)
    {target j k : Nat} (hj : InstructionSet.Lands insns u.code.length target j)
    (hk : InstructionSet.Lands insns u.code.length target k) : j = k := by
  obtain ⟨raw, starts, hraw, -, -, rfl⟩ := prepare_eq_ok h
  -- Attribution changes no offset.
  have hoffsets : (Instruction.withLines starts raw).map (·.offset) = raw.map (·.offset) := by
    have := congrArg (List.map (·.offset)) (Instruction.map_unattributed_withLines starts raw)
    rwa [List.map_map, List.map_map] at this
  have hincreasing : Instruction.Increasing (Instruction.withLines starts raw) := by
    have := hisa.increasing hraw
    rw [Instruction.Increasing, ← List.pairwise_map (f := Instruction.offset)
      (R := fun a b => a < b)] at this ⊢
    rwa [hoffsets]
  have hlt : ∀ i ∈ Instruction.withLines starts raw, i.offset.toNat < u.code.length := by
    intro i hi
    have hmem := List.mem_map_of_mem (f := Instruction.offset) hi
    rw [hoffsets] at hmem
    obtain ⟨o, ho, heq⟩ := List.mem_map.1 hmem
    exact heq ▸ hisa.lt_length hraw o ho
  exact InstructionSet.Lands.unique_of_increasing hincreasing hlt hj hk

/-- **The layout of woven code is consistent**, for every relocatable instruction set. What a woven
body encodes is laid out from offset zero on with its final widths, and the operands of its jumps
lead to what these led to, or to the probe of that; so do the jumps, where classes are told by
opcodes. A unit whose sites cannot be relocated is not woven.

**Proof sketch.** Instructions are placed by their old widths, and the check on moved jumps makes
these the final ones (`Emits.relocated`). The same check, with those on operands and on the end of
the code, refuses what cannot be relocated (`insert_of_unrelocatable`). -/
theorem layout_consistent (hisa : r.isa.Relocatable) (u : CodeUnit) (unitIndex : UInt32)
    (topLevel : Bool) (s : ρ) :
    (∀ body s', (r.body u unitIndex topLevel).run.run s = (.ok body, s') →
      ∃ insns out, r.prepare u = .ok insns ∧
        r.insert u unitIndex topLevel insns (r.sitesOf topLevel insns s) = .ok out ∧
        r.isa.encodeAll out = .ok body.code ∧
        Relocated r.isa (r.sitesOf topLevel insns s) insns out u.code.length ∧
        (r.isa.ClassedByOpcode →
          Follows r.isa (r.sitesOf topLevel insns s) insns out u.code.length)) ∧
      ∀ insns, r.prepare u = .ok insns →
        Unrelocatable r.isa (r.sitesOf topLevel insns s) insns u.code.length →
        ∀ body s', (r.body u unitIndex topLevel).run.run s ≠ (.ok body, s') := by
  have hinserted : ∀ body s', (r.body u unitIndex topLevel).run.run s = (.ok body, s') →
      ∃ insns out, r.prepare u = .ok insns ∧
        r.insert u unitIndex topLevel insns (r.sitesOf topLevel insns s) = .ok out ∧
        r.isa.encodeAll out = .ok body.code := by
    intro body s' h
    obtain ⟨insns, hprep, ⟨rfl, rfl⟩ | ⟨-, candidates, hbody⟩⟩ := body_eq_ok h
    · exact ⟨[], [], hprep, rfl, rfl⟩
    · obtain ⟨out, hout, hcode, -⟩ := bodyWith_eq_ok hbody
      exact ⟨insns, out, hprep, hout, hcode⟩
  constructor
  · intro body s' h
    obtain ⟨insns, out, hprep, hout, hcode⟩ := hinserted body s' h
    obtain ⟨hfits, hemits⟩ := emits_of_insert hout
    have hrelocated := hemits.relocated hisa (lands_unique_of_prepare hisa hprep) hfits
    exact ⟨insns, out, hprep, hout, hcode, hrelocated, hrelocated.leads⟩
  · intro insns hprep hun body s' h
    obtain ⟨insns', out, hprep', hout, -⟩ := hinserted body s' h
    obtain rfl := Except.ok.inj (hprep.symm.trans hprep')
    exact insert_of_unrelocatable hisa (lands_unique_of_prepare hisa hprep) hun hout

/-- A weaver that puts a probe before the first three line runs of every unit, where jumps may be
wide. -/
def wideRuns : Weaver Unit :=
  { threeRuns with isa := Variant.wideJumps.instructionSet }

end Weaver

/-- A jump to offset 255, the last one for which it is narrow. -/
def CodeUnit.brink : CodeUnit where
  name := "brink"
  firstLine := 1
  code := [0x20, 255, 0, 0, 0] ++ (List.replicate 50 [0x14, 0, 0, 0, 0]).flatten ++ [0x12]
  consts := []
  lineTable := []

/-- The instructions of that unit. -/
def Instruction.brink : List Instruction :=
  ⟨0x20, some 255, 0, 1⟩ :: (List.range 50).map (fun k =>
    ⟨0x14, some 0, UInt32.ofNat (5 * k + 5), 1⟩) ++ [⟨0x12, none, 255, 1⟩]

namespace Weaver

/-- Behind a probe, the jump of that unit would be wide. -/
lemma unrelocatable_brink : Weave.Unrelocatable wideRuns.isa
    (wideRuns.sitesOf false Instruction.brink ()) Instruction.brink CodeUnit.brink.code.length := by
  have hjump : Weave.Jumps wideRuns.isa Instruction.brink CodeUnit.brink.code.length 0
      ⟨0x20, some 255, 0, 1⟩ .absolute 51 :=
    ⟨rfl, rfl, 255, rfl, .inl ⟨⟨0x12, none, 255, 1⟩, rfl, rfl⟩⟩
  have harg : Weave.newOperand? wideRuns.isa (wideRuns.sitesOf false Instruction.brink ())
      Instruction.brink .absolute 0 51 = some 260 := by
    decide +kernel
  exact .width hjump harg (by decide)

/-- Where jumps may be wide, the loop is woven consistently; the unit whose jump a probe would make
wide is not woven. -/
theorem layout_consistent_brink : Variant.wideJumps.instructionSet.Relocatable ∧
    (wideRuns.body .loop 0 false).run.run () = (.ok .loop, ()) ∧
    (∃ insns out, wideRuns.prepare .loop = .ok insns ∧
      wideRuns.insert .loop 0 false insns (wideRuns.sitesOf false insns ()) = .ok out ∧
      wideRuns.isa.encodeAll out = .ok WovenBody.loop.code ∧
      Weave.Relocated wideRuns.isa (wideRuns.sitesOf false insns ()) insns out 12 ∧
      Weave.Follows wideRuns.isa (wideRuns.sitesOf false insns ()) insns out 12) ∧
    wideRuns.prepare .brink = .ok Instruction.brink ∧
    Weave.Unrelocatable wideRuns.isa (wideRuns.sitesOf false Instruction.brink ())
      Instruction.brink CodeUnit.brink.code.length ∧
    ∀ body s', (wideRuns.body .brink 0 false).run.run () ≠ (.ok body, s') := by
  have hisa : Variant.wideJumps.instructionSet.Relocatable :=
    Variant.wideJumps.relocatable (.inr (by decide))
  have hclass : Variant.wideJumps.instructionSet.ClassedByOpcode := Variant.wideJumps.classOf_congr
  have hrun : (wideRuns.body .loop 0 false).run.run () = (.ok .loop, ()) := by rfl
  have hprep : wideRuns.prepare .brink = .ok Instruction.brink := by decide +kernel
  obtain ⟨hwoven, -⟩ := layout_consistent (r := wideRuns) hisa .loop 0 false ()
  obtain ⟨insns, out, hinsns, hout, hcode, hrelocated, hfollows⟩ := hwoven _ _ hrun
  exact ⟨hisa, hrun, ⟨insns, out, hinsns, hout, hcode, hrelocated, hfollows hclass⟩, hprep,
    unrelocatable_brink,
    (layout_consistent (r := wideRuns) hisa .brink 0 false ()).2 _ hprep unrelocatable_brink⟩

/-! ## Classes told by operands -/

/-- The standard set, but that a jump to an offset above 255 is read as a relative one. -/
def turningJumps : InstructionSet where
  decode := Standard.decodeFrom 0
  encode := Standard.encode
  width := Standard.width
  classOf i :=
    if i.opcode = Opcode.jump.byte ∧ i.arg.any (255 < ·) then .jump .relative
    else Standard.classOf i
  probe := Standard.probe
  isProbe := Standard.isProbe
  mnemonic := Standard.mnemonic

/-- In that set code can be relocated as in the standard one. -/
lemma relocatable_turningJumps : turningJumps.Relocatable where
  width_place _ _ _ := rfl
  jumpTarget_eq _ := rfl
  width_probe _ := rfl
  increasing := Variant.wideJumps.relocatable (.inr (by decide)) |>.increasing
  lt_length := Variant.wideJumps.relocatable (.inr (by decide)) |>.lt_length

/-- A weaver that puts a probe before the first three line runs of every unit, in that set. -/
def turningRuns : Weaver Unit :=
  { threeRuns with isa := turningJumps }

end Weaver

/-- The instructions of the unit `brink` behind a probe. -/
def Instruction.probedBrink : List Instruction :=
  ⟨0x40, some 0, 0, 1⟩ :: ⟨0x20, some 260, 5, 1⟩ :: (List.range 50).map (fun k =>
    ⟨0x14, some 0, UInt32.ofNat (5 * k + 10), 1⟩) ++ [⟨0x12, none, 260, 1⟩]

/-- The body that they make. -/
def WovenBody.brink : WovenBody where
  code := [0x40, 0, 0, 0, 0, 0x20, 4, 1, 0, 0] ++
    (List.replicate 50 [0x14, 0, 0, 0, 0]).flatten ++ [0x12]
  lineTable := []
  candidates := 1
  probes := 1

/-- **A jump goes astray**, if its new operand makes it one of another kind. The unit is woven; its
jump led to the last instruction, which stands at offset 260 behind the probe, and now leads to
offset 270. -/
theorem Weaver.jump_astray : turningJumps.Relocatable ∧
    (turningRuns.body .brink 0 false).run.run () = (.ok .brink, ()) ∧
    turningRuns.prepare .brink = .ok Instruction.brink ∧
    turningRuns.insert .brink 0 false Instruction.brink
      (turningRuns.sitesOf false Instruction.brink ()) = .ok Instruction.probedBrink ∧
    turningJumps.encodeAll Instruction.probedBrink = .ok WovenBody.brink.code ∧
    Weave.Jumps turningJumps Instruction.brink CodeUnit.brink.code.length 0
      ⟨0x20, some 255, 0, 1⟩ .absolute 51 ∧
    Instruction.probedBrink[1]? = some ⟨0x20, some 260, 5, 1⟩ ∧
    turningJumps.jumpTarget ⟨0x20, some 260, 5, 1⟩ = some 270 ∧
    Instruction.probedBrink[52]? = some ⟨0x12, none, 260, 1⟩ ∧
    ¬ Weave.Follows turningJumps (turningRuns.sitesOf false Instruction.brink ())
      Instruction.brink Instruction.probedBrink CodeUnit.brink.code.length := by
  have hsites : turningRuns.sitesOf false Instruction.brink () = [0] := by decide +kernel
  have hjump : Weave.Jumps turningJumps Instruction.brink CodeUnit.brink.code.length 0
      ⟨0x20, some 255, 0, 1⟩ .absolute 51 :=
    ⟨rfl, rfl, 255, rfl, .inl ⟨⟨0x12, none, 255, 1⟩, rfl, rfl⟩⟩
  have hrun : (turningRuns.body .brink 0 false).run.run () = (.ok .brink, ()) := by
    show (_ : Except WeaveCause WovenBody × Unit) = _
    decide +kernel
  refine ⟨relocatable_turningJumps, hrun, by decide +kernel, by decide +kernel,
    by decide +kernel, hjump, rfl, rfl, rfl, fun hfollows => ?_⟩
  obtain ⟨moved, landing, hmoved, htarget, hlands⟩ := hfollows hjump
  rw [hsites] at hmoved hlands
  obtain rfl : ⟨0x20, some 260, 5, 1⟩ = moved := Option.some.inj hmoved
  obtain rfl : 270 = landing := Option.some.inj htarget
  rcases hlands with ⟨i, hi, hoffset⟩ | ⟨hend, -⟩
  · obtain rfl : ⟨0x12, none, 260, 1⟩ = i := Option.some.inj hi
    exact absurd hoffset (by decide)
  · exact absurd hend (by decide)

end CoverProbe
