import Mathlib.Data.List.Forall2
import Mathlib.Order.Monotone.Basic
import CoverProbe.Proofs.Checked
import CoverProbe.Proofs.Instruction.Stream
import CoverProbe.Proofs.Word
import CoverProbe.Weave.Body

set_option relaxedAutoImplicit false
set_option autoImplicit false

/-!
# The layout of woven code

Woven code holds the old instructions in their order, each behind its probe if it has one. So an
old instruction is found by its number and by the number of sites before it, and a jump to it leads
to what stands `landAt` that number. Emission is told here once, by `CoverProbe.Weaver.Emits`; what
the new code looks like follows by induction on it.

## Main definitions

* `CoverProbe.Weave.landAt`, `CoverProbe.Weave.seatAt` — the number in the new code of what a jump
  to an old instruction leads to, and of the instruction itself.
* `CoverProbe.Weave.Kept`, `CoverProbe.Weave.Seated` — an instruction and what it may become.
* `CoverProbe.InstructionSet.Placeable`, `CoverProbe.InstructionSet.Followable` — sets whose
  instructions keep their widths, and their jumps, when they move.
* `CoverProbe.Weaver.Emits` — the new code of a list of instructions.

## Main results

* `CoverProbe.Weaver.emits_of_insert` — inserting probes emits.
* `CoverProbe.Weaver.Emits.laidOut` — new code is laid out.
* `CoverProbe.Weaver.Emits.at_placement` — where an old instruction and its probe are found.
* `CoverProbe.Weaver.Emits.relocates`, `Emits.follows` — jumps lead to what they led to, or to its
  probe.
-/

namespace CoverProbe

/-! ## Counting probes -/

namespace Weave

/-- The number of sites among `count` instructions from number `index` on. -/
def sitesIn (sites : List Nat) (index count : Nat) : Nat :=
  (List.range' index count).countP (sites.contains ·)

/-- The number in the new code of what a jump to old instruction `k` leads to. -/
def landAt (sites : List Nat) (k : Nat) : Nat :=
  k + sitesIn sites 0 k

/-- The number of old instruction `k` in the new code: behind its probe, if it has one. -/
def seatAt (sites : List Nat) (k : Nat) : Nat :=
  landAt sites k + if k ∈ sites then 1 else 0

variable (sites : List Nat) (index count : Nat)

@[simp] lemma sitesIn_zero : sitesIn sites index 0 = 0 := rfl

/-- The first instruction counts if it is a site. -/
lemma sitesIn_succ : sitesIn sites index (count + 1) =
    (if index ∈ sites then 1 else 0) + sitesIn sites (index + 1) count := by
  rw [sitesIn, List.range'_succ, List.countP_cons, Nat.add_comm, sitesIn]
  simp

/-- The last instruction counts if it is a site. -/
lemma sitesIn_succ_last : sitesIn sites index (count + 1) =
    sitesIn sites index count + if index + count ∈ sites then 1 else 0 := by
  rw [sitesIn, List.range'_1_concat, List.countP_append, sitesIn]
  simp

/-- Sites in order, all in the stream, are counted by their number. -/
lemma sitesIn_eq_length {sites : List Nat} (h : sites.Pairwise (· < ·)) {count : Nat}
    (hlt : ∀ k ∈ sites, k < count) : sitesIn sites 0 count = sites.length := by
  have hnodup : ((List.range' 0 count).filter (sites.contains ·)).Nodup :=
    List.filter_sublist.nodup List.nodup_range'
  have hperm : ((List.range' 0 count).filter (sites.contains ·)).Perm sites := by
    refine (List.perm_ext_iff_of_nodup hnodup (h.imp Nat.ne_of_lt)).2 fun k => ?_
    rw [List.mem_filter, List.contains_iff_mem, List.mem_range'_1]
    refine ⟨fun hk => hk.2, fun hk => ⟨⟨Nat.zero_le k, ?_⟩, hk⟩⟩
    rw [Nat.zero_add]
    exact hlt k hk
  rw [sitesIn, List.countP_eq_length_filter]
  exact hperm.length_eq

/-- Behind a site the new code is two instructions further on. -/
lemma add_sitesIn_of_mem {sites : List Nat} {index : Nat} (hs : index ∈ sites) (k count : Nat) :
    k + 1 + sitesIn sites index (count + 1) = k + sitesIn sites (index + 1) count + 2 := by
  rw [sitesIn_succ, if_pos hs]
  omega

/-- Behind any other instruction it is one instruction further on. -/
lemma add_sitesIn_of_not_mem {sites : List Nat} {index : Nat} (hs : index ∉ sites)
    (k count : Nat) :
    k + 1 + sitesIn sites index (count + 1) = k + sitesIn sites (index + 1) count + 1 := by
  rw [sitesIn_succ, if_neg hs]
  omega

/-- Old instruction `k` stands behind the sites up to it. -/
lemma seatAt_eq (k : Nat) : seatAt sites k = k + sitesIn sites 0 (k + 1) := by
  rw [sitesIn_succ_last, seatAt, landAt, Nat.zero_add, Nat.add_assoc]

/-- A jump to the next instruction leads right behind this one. -/
lemma landAt_succ (k : Nat) : landAt sites (k + 1) = seatAt sites k + 1 := by
  rw [landAt, seatAt_eq]
  omega

/-- A site stands right behind its probe. -/
lemma seatAt_of_mem {k : Nat} (hk : k ∈ sites) : seatAt sites k = landAt sites k + 1 := by
  rw [seatAt, if_pos hk]

/-- Any other instruction stands where a jump to it leads. -/
lemma seatAt_of_not_mem {k : Nat} (hk : k ∉ sites) : seatAt sites k = landAt sites k := by
  rw [seatAt, if_neg hk, Nat.add_zero]

/-- An instruction stands where a jump to it leads, or behind. -/
lemma landAt_le_seatAt (k : Nat) : landAt sites k ≤ seatAt sites k :=
  Nat.le_add_right _ _

/-- A jump to an instruction leads behind the instructions before it. -/
lemma seatAt_lt_landAt {j k : Nat} (h : j < k) : seatAt sites j < landAt sites k := by
  induction h with
  | refl =>
    rw [landAt_succ]
    exact Nat.lt_succ_self _
  | @step k _ ih =>
    rw [landAt_succ]
    exact Nat.lt_succ_of_le (Nat.le_trans (Nat.le_of_lt ih) (landAt_le_seatAt sites k))

/-- Instructions stand in their order. -/
lemma seatAt_lt_seatAt {j k : Nat} (h : j < k) : seatAt sites j < seatAt sites k :=
  Nat.lt_of_lt_of_le (seatAt_lt_landAt sites h) (landAt_le_seatAt sites k)

/-- Jumps lead to places in the order of their targets. -/
lemma landAt_strictMono : StrictMono (landAt sites) := by
  intro j k h
  exact Nat.lt_of_le_of_lt (landAt_le_seatAt sites j) (seatAt_lt_landAt sites h)

/-- No two instructions stand at one place. -/
lemma seatAt_inj {j k : Nat} (h : seatAt sites j = seatAt sites k) : j = k := by
  rcases Nat.lt_trichotomy j k with hlt | heq | hlt
  · exact absurd h (Nat.ne_of_lt (seatAt_lt_seatAt sites hlt))
  · exact heq
  · exact absurd h.symm (Nat.ne_of_lt (seatAt_lt_seatAt sites hlt))

/-- Where the probe of a site stands, no instruction does. -/
lemma seatAt_ne_landAt {k : Nat} (hk : k ∈ sites) (j : Nat) : seatAt sites j ≠ landAt sites k := by
  have hseat := seatAt_of_mem sites hk
  rcases Nat.lt_or_ge j k with hlt | hge
  · exact Nat.ne_of_lt (seatAt_lt_landAt sites hlt)
  · rcases Nat.eq_or_lt_of_le hge with rfl | hlt
    · omega
    · have := seatAt_lt_seatAt sites hlt
      omega

/-- Every place holds an instruction or the probe of a site. -/
lemma seat_or_probe {n v : Nat} (hv : v < landAt sites n) :
    (∃ k < n, v = seatAt sites k) ∨ ∃ k < n, k ∈ sites ∧ v = landAt sites k := by
  induction n with
  | zero => exact absurd hv (Nat.not_lt_zero v)
  | succ n ih =>
    rw [landAt_succ] at hv
    by_cases hn : v < landAt sites n
    · rcases ih hn with ⟨k, hk, hkv⟩ | ⟨k, hk, hkv⟩
      · exact .inl ⟨k, Nat.lt_succ_of_lt hk, hkv⟩
      · exact .inr ⟨k, Nat.lt_succ_of_lt hk, hkv⟩
    · by_cases hs : n ∈ sites
      · have hseat := seatAt_of_mem sites hs
        rcases Nat.lt_or_ge (landAt sites n) v with hlt | hge
        · exact .inl ⟨n, Nat.lt_succ_self n, by omega⟩
        · exact .inr ⟨n, Nat.lt_succ_self n, hs, by omega⟩
      · have hseat := seatAt_of_not_mem sites hs
        exact .inl ⟨n, Nat.lt_succ_self n, by omega⟩

/-- The instruction `i` has become `moved`: with its opcode and its line, and with its operand unless
it is a jump. -/
structure Kept (isa : InstructionSet) (i moved : Instruction) : Prop where
  opcode : moved.opcode = i.opcode
  line : moved.line = i.line
  arg : (∀ kind, isa.classOf i ≠ .jump kind) → moved.arg = i.arg

/-- Old instruction number `k`, `i`, has become `moved` in the new code `out`, behind a probe on its
line if it is a site. -/
structure Seated (isa : InstructionSet) (sites : List Nat) (out : List Instruction) (k : Nat)
    (i moved : Instruction) : Prop extends Kept isa i moved where
  seat : out[seatAt sites k]? = some moved
  probe : k ∈ sites →
    ∃ token offset, out[landAt sites k]? = some ((isa.probe token).place offset i.line)

end Weave

/-! ## Moving single instructions -/

namespace InstructionSet

/-- Instruction sets in which an instruction is as wide wherever it stands, and all probes are as
wide. -/
structure Placeable (isa : InstructionSet) : Prop where
  width_place : ∀ (i : Instruction) (offset line : UInt32),
    isa.width (i.place offset line) = isa.width i
  width_probe : ∀ token : UInt32, isa.width (isa.probe token) = isa.width (isa.probe 0)

/-- Instruction sets whose jumps are told by their opcodes, and lead where their operands say. -/
structure Followable (isa : InstructionSet) : Prop extends isa.Placeable where
  classOf_congr : ∀ i j : Instruction, i.opcode = j.opcode → isa.classOf i = isa.classOf j
  jumpTarget_eq : ∀ i : Instruction,
    isa.jumpTarget i = (isa.classOf i).target (i.offset.toNat + isa.width i) i.arg

end InstructionSet

/-- Only jumps have targets. -/
lemma OpClass.target_eq_none {cls : OpClass} (h : ∀ kind, cls ≠ .jump kind) (stop : Nat)
    (arg : Option UInt32) : cls.target stop arg = none := by
  cases cls with
  | jump kind => exact absurd rfl (h kind)
  | plain | pinned | indirect => rfl

namespace Weaver

open Weave

variable {ρ : Type} {isa : InstructionSet} {relocation : Relocation} {p : Placement}
  {moved : Instruction}

/-- What a moved instruction is: the old one at its position, with a new operand if it jumps. -/
lemma move_cases (h : move isa relocation p = .ok moved) :
    ((∀ kind, isa.classOf p.insn ≠ .jump kind) ∧
        moved = p.insn.place (UInt32.ofNat p.position) p.insn.line) ∨
      ∃ kind target landing arg, isa.classOf p.insn = .jump kind ∧
        isa.jumpTarget p.insn = some target ∧ relocation.find? target = some landing ∧
        operand isa kind p landing = .ok arg ∧
        moved = { p.insn.place (UInt32.ofNat p.position) p.insn.line with
          arg := some (UInt32.ofNat arg) } ∧
        isa.width moved = isa.width p.insn := by
  rw [move] at h
  cases hc : isa.classOf p.insn with
  | jump kind =>
    right
    simp only [hc] at h
    split at h
    · simp at h
    rename_i target htarget
    split at h
    · simp at h
    rename_i landing hlanding
    obtain ⟨arg, harg, h⟩ := Checked.bind_eq_ok.1 h
    split_ifs at h with hw
    · obtain rfl := Except.ok.inj h
      exact ⟨kind, target, landing, arg, rfl, htarget, hlanding, harg, rfl, hw⟩
  | plain =>
    simp only [hc] at h
    exact .inl ⟨by simp, (Except.ok.inj h).symm⟩
  | pinned =>
    simp only [hc] at h
    exact .inl ⟨by simp, (Except.ok.inj h).symm⟩
  | indirect =>
    simp only [hc] at h
    exact .inl ⟨by simp, (Except.ok.inj h).symm⟩

/-- A moved instruction keeps its opcode and its line, and stands at its position. -/
lemma move_keeps (h : move isa relocation p = .ok moved) :
    moved.opcode = p.insn.opcode ∧ moved.line = p.insn.line ∧
      moved.offset = UInt32.ofNat p.position := by
  rcases move_cases h with ⟨-, rfl⟩ | ⟨kind, target, landing, arg, -, -, -, -, rfl, -⟩
  · exact ⟨rfl, rfl, rfl⟩
  · exact ⟨rfl, rfl, rfl⟩

/-- A moved instruction is kept. -/
lemma kept_of_move (h : move isa relocation p = .ok moved) : Kept isa p.insn moved := by
  refine ⟨(move_keeps h).1, (move_keeps h).2.1, fun hc => ?_⟩
  rcases move_cases h with ⟨-, rfl⟩ | ⟨kind, target, landing, arg, hj, -⟩
  · rfl
  · exact absurd hj (hc kind)

/-- A moved instruction is as wide as it was. -/
lemma width_move (hisa : isa.Placeable) (h : move isa relocation p = .ok moved) :
    isa.width moved = isa.width p.insn := by
  rcases move_cases h with ⟨-, rfl⟩ | ⟨kind, target, landing, arg, -, -, -, -, -, hw⟩
  · exact hisa.width_place p.insn _ _
  · exact hw

/-- **A moved jump leads to the new place of its target**, if positions are 32-bit words: its new
operand, read as its kind of jump reads operands, names that. -/
theorem target_move (h : move isa relocation p = .ok moved)
    (hp : p.position + isa.width p.insn < 4294967296)
    (hr : ∀ target landing, relocation.find? target = some landing → landing < 4294967296)
    {kind : JumpKind} (hc : isa.classOf p.insn = .jump kind) :
    ∃ target landing, isa.jumpTarget p.insn = some target ∧
      relocation.find? target = some landing ∧
      (OpClass.jump kind).target (moved.offset.toNat + isa.width moved) moved.arg =
        some landing := by
  rcases move_cases h with ⟨hno, -⟩ | ⟨kind', target, landing, arg, hc', htarget, hlanding, harg,
    hm, hw⟩
  · exact absurd hc (hno kind)
  · obtain rfl := OpClass.jump.inj (hc.symm.trans hc')
    refine ⟨target, landing, htarget, hlanding, ?_⟩
    have hoff : moved.offset.toNat = p.position := by
      rw [(move_keeps h).2.2, Word.toNat_ofNat_of_fits (by omega)]
    have hl := hr target landing hlanding
    have harg' : moved.arg = some (UInt32.ofNat arg) := by rw [hm]
    rw [harg', hoff, hw]
    cases kind with
    | absolute =>
      obtain rfl : landing = arg := Except.ok.inj harg
      show some (UInt32.ofNat landing).toNat = some landing
      rw [Word.toNat_ofNat_of_fits hl]
    | relative =>
      rw [operand] at harg
      split_ifs at harg with hle
      · obtain rfl : landing - (p.position + isa.width p.insn) = arg := Except.ok.inj harg
        show some (p.position + isa.width p.insn + _) = some landing
        rw [Word.toNat_ofNat_of_fits (by omega)]
        exact congrArg some (by omega)

/-! ## Placements -/

variable {sites : List Nat} {index position : Nat} {insns out : List Instruction}

/-- The first instruction stands behind its probe, if it is a site, and the others behind it. -/
lemma ofSitesFrom_cons (i : Instruction) :
    Placement.ofSitesFrom isa sites index position (i :: insns) =
      ⟨i, if index ∈ sites then some position else none,
        position + if index ∈ sites then isa.width (isa.probe 0) else 0⟩ ::
        Placement.ofSitesFrom isa sites (index + 1)
          (position + (if index ∈ sites then isa.width (isa.probe 0) else 0) + isa.width i)
          insns := by
  rw [Placement.ofSitesFrom]
  by_cases hs : index ∈ sites
  · simp [hs]
  · simp [hs]

/-- Every instruction has its placement: at its landing, or behind it by the width of its probe. -/
lemma placement_eq {k : Nat}
    (hp : (Placement.ofSitesFrom isa sites index position insns)[k]? = some p) :
    insns[k]? = some p.insn ∧
      p.probe = (if index + k ∈ sites then some p.landing else none) ∧
      p.position = p.landing + if index + k ∈ sites then isa.width (isa.probe 0) else 0 := by
  induction insns generalizing index position k with
  | nil => simp [Placement.ofSitesFrom] at hp
  | cons i rest ih =>
    rw [ofSitesFrom_cons] at hp
    cases k with
    | zero =>
      obtain rfl := Option.some.inj hp
      by_cases hs : index ∈ sites
      · simp [Placement.landing, hs]
      · simp [Placement.landing, hs]
    | succ k =>
      rw [List.getElem?_cons_succ] at hp ⊢
      rw [Nat.add_comm k 1, ← Nat.add_assoc]
      exact ih hp

/-- The number of bytes that the new code takes. -/
def newExtent (isa : InstructionSet) (sites : List Nat) (index : Nat) (insns : List Instruction) :
    Nat :=
  isa.extent insns + isa.width (isa.probe 0) * sitesIn sites index insns.length

/-- The first instruction takes its own bytes and those of its probe. -/
lemma newExtent_cons (i : Instruction) :
    newExtent isa sites index (i :: insns) =
      (if index ∈ sites then isa.width (isa.probe 0) else 0) + isa.width i +
        newExtent isa sites (index + 1) insns := by
  rw [newExtent, newExtent, InstructionSet.extent_cons, List.length_cons, sitesIn_succ, Nat.mul_add]
  by_cases hs : index ∈ sites
  · simp only [hs, if_true, Nat.mul_one]
    omega
  · simp only [hs, if_false, Nat.mul_zero]
    omega

/-- Placements lie in the new code. -/
lemma placement_le {k : Nat}
    (hp : (Placement.ofSitesFrom isa sites index position insns)[k]? = some p) :
    p.landing ≤ p.position ∧
      p.position + isa.width p.insn ≤ position + newExtent isa sites index insns := by
  refine ⟨by rw [(placement_eq hp).2.2]; exact Nat.le_add_right _ _, ?_⟩
  induction insns generalizing index position k with
  | nil => simp [Placement.ofSitesFrom] at hp
  | cons i rest ih =>
    rw [ofSitesFrom_cons] at hp
    rw [newExtent_cons]
    cases k with
    | zero =>
      obtain rfl := Option.some.inj hp
      dsimp only
      omega
    | succ k =>
      have hle := ih hp
      omega

/-- The new code ends behind the last placement. -/
lemma stop_ofSitesFrom (hne : insns ≠ []) :
    Placement.stop isa (Placement.ofSitesFrom isa sites index position insns) =
      position + newExtent isa sites index insns := by
  induction insns generalizing index position with
  | nil => exact absurd rfl hne
  | cons i rest ih =>
    rw [ofSitesFrom_cons, newExtent_cons]
    cases rest with
    | nil =>
      simp only [Placement.ofSitesFrom, Placement.stop, List.getLast?_singleton, newExtent,
        InstructionSet.extent_nil, List.length_nil, sitesIn_zero, Nat.mul_zero]
      omega
    | cons j rest =>
      have hlast : ∀ p : Placement, ∀ ps, ps ≠ [] →
          Placement.stop isa (p :: ps) = Placement.stop isa ps := by
        intro p ps hps
        rw [Placement.stop, List.getLast?_cons_of_ne_nil hps, Placement.stop]
      rw [hlast _ _ (by rw [ofSitesFrom_cons]; simp), ih (by simp)]
      omega

/-- The new code ends behind the last placement, and an empty one at offset zero. -/
lemma stop_ofSites :
    Placement.stop isa (Placement.ofSites isa sites insns) = newExtent isa sites 0 insns := by
  by_cases hne : insns = []
  · subst hne
    rfl
  · rw [Placement.ofSites, stop_ofSitesFrom hne, Nat.zero_add]

/-! ## Emission -/

/-- The new code of the instructions from number `index` on, the first of them, or its probe, at
`position`. -/
inductive Emits (r : Weaver ρ) (u : CodeUnit) (unitIndex : UInt32) (topLevel : Bool)
    (sites : List Nat) (relocation : Relocation) :
    (index position : Nat) → (insns out : List Instruction) → Prop
  | nil {index position : Nat} : Emits r u unitIndex topLevel sites relocation index position [] []
  | probed {index position : Nat} {i moved : Instruction} {insns out : List Instruction}
      (hs : index ∈ sites)
      (hm : move r.isa relocation
        ⟨i, some position, position + r.isa.width (r.isa.probe 0)⟩ = .ok moved)
      (rest : Emits r u unitIndex topLevel sites relocation (index + 1)
        (position + r.isa.width (r.isa.probe 0) + r.isa.width i) insns out) :
      Emits r u unitIndex topLevel sites relocation index position (i :: insns)
        (r.probeAt u unitIndex topLevel position i.line :: moved :: out)
  | bare {index position : Nat} {i moved : Instruction} {insns out : List Instruction}
      (hs : index ∉ sites) (hm : move r.isa relocation ⟨i, none, position⟩ = .ok moved)
      (rest : Emits r u unitIndex topLevel sites relocation (index + 1)
        (position + r.isa.width i) insns out) :
      Emits r u unitIndex topLevel sites relocation index position (i :: insns) (moved :: out)

variable {r : Weaver ρ} {u : CodeUnit} {unitIndex : UInt32} {topLevel : Bool}

/-- What is emitted for placements is the new code of the instructions placed. -/
lemma emits_of_emit (h : emit r u unitIndex topLevel relocation
      (Placement.ofSitesFrom r.isa sites index position insns) = .ok out) :
    Emits r u unitIndex topLevel sites relocation index position insns out := by
  induction insns generalizing index position out with
  | nil =>
    obtain rfl : [] = out := Except.ok.inj h
    exact .nil
  | cons i rest ih =>
    rw [Placement.ofSitesFrom] at h
    split_ifs at h with hs
    · obtain ⟨moved, hm, h⟩ := Checked.bind_eq_ok.1 h
      obtain ⟨more, hmore, h⟩ := Checked.bind_eq_ok.1 h
      obtain rfl := Except.ok.inj h
      exact .probed (List.contains_iff_mem.1 hs) hm (ih hmore)
    · obtain ⟨moved, hm, h⟩ := Checked.bind_eq_ok.1 h
      obtain ⟨more, hmore, h⟩ := Checked.bind_eq_ok.1 h
      obtain rfl := Except.ok.inj h
      exact .bare (fun hmem => hs (List.contains_iff_mem.2 hmem)) hm (ih hmore)

/-- Where the offsets of a unit's instructions lead when probes are put before its sites. -/
def relocationOf (r : Weaver ρ) (u : CodeUnit) (sites : List Nat) (insns : List Instruction) :
    Relocation :=
  ⟨u.code.length, newExtent r.isa sites 0 insns, Placement.ofSites r.isa sites insns⟩

/-- **Inserting probes emits**, and the new code ends at a 32-bit word. -/
theorem emits_of_insert (h : r.insert u unitIndex topLevel insns sites = .ok out) :
    newExtent r.isa sites 0 insns < 4294967296 ∧
      Emits r u unitIndex topLevel sites (r.relocationOf u sites insns) 0 0 insns out := by
  rw [insert] at h
  simp only [stop_ofSites] at h
  cases hw : Word.ofNat? (newExtent r.isa sites 0 insns) with
  | none =>
    rw [hw] at h
    simp [bind, Except.bind, throw, throwThe, MonadExceptOf.throw] at h
  | some w =>
    rw [hw] at h
    refine ⟨?_, emits_of_emit h⟩
    rw [Word.ofNat?_eq_some_iff.1 hw]
    exact w.toNat_lt

/-- A probe is as wide as any other, wherever it stands. -/
lemma width_probeAt (hisa : r.isa.Placeable) (position : Nat) (line : UInt32) :
    r.isa.width (r.probeAt u unitIndex topLevel position line) = r.isa.width (r.isa.probe 0) := by
  rw [probeAt, hisa.width_place, hisa.width_probe]

section

variable {insns out : List Instruction}

/-- New code has an instruction for each old one and a probe for each site. -/
lemma Emits.length_eq (h : Emits r u unitIndex topLevel sites relocation index position insns out) :
    out.length = insns.length + sitesIn sites index insns.length := by
  induction h with
  | nil => rfl
  | probed hs hm rest ih =>
    rw [List.length_cons, List.length_cons, List.length_cons, ih, sitesIn_succ, if_pos hs]
    omega
  | bare hs hm rest ih =>
    rw [List.length_cons, List.length_cons, ih, sitesIn_succ, if_neg hs]
    omega

/-- New code takes the bytes of the old instructions and those of the probes. -/
lemma Emits.extent_eq (hisa : r.isa.Placeable)
    (h : Emits r u unitIndex topLevel sites relocation index position insns out) :
    r.isa.extent out = newExtent r.isa sites index insns := by
  induction h with
  | nil => rfl
  | probed hs hm rest ih =>
    rw [InstructionSet.extent_cons, InstructionSet.extent_cons, width_probeAt hisa,
      width_move hisa hm, ih, newExtent_cons, if_pos hs]
    dsimp only
    omega
  | bare hs hm rest ih =>
    rw [InstructionSet.extent_cons, width_move hisa hm, ih, newExtent_cons, if_neg hs]
    dsimp only
    omega

/-- **New code is laid out**, if it ends at a 32-bit word. -/
theorem Emits.laidOut (hisa : r.isa.Placeable)
    (h : Emits r u unitIndex topLevel sites relocation index position insns out)
    (hfit : position + newExtent r.isa sites index insns < 4294967296) :
    r.isa.LaidOut position out := by
  induction h with
  | nil => trivial
  | probed hs hm rest ih =>
    rw [newExtent_cons, if_pos hs] at hfit
    refine ⟨Word.toNat_ofNat_of_fits (by omega), ?_, ?_⟩
    · rw [(move_keeps hm).2.2, Word.toNat_ofNat_of_fits (by dsimp only; omega),
        width_probeAt hisa]
    · rw [width_probeAt hisa, width_move hisa hm]
      exact ih (by omega)
  | bare hs hm rest ih =>
    rw [newExtent_cons, if_neg hs] at hfit
    refine ⟨?_, ?_⟩
    · rw [(move_keeps hm).2.2, Word.toNat_ofNat_of_fits (by dsimp only; omega)]
    · rw [width_move hisa hm]
      exact ih (by omega)

/-- **Where an old instruction is found.** It is moved to its placement, behind the sites up to it,
and a jump to it leads to its probe if it is a site. -/
theorem Emits.at_placement
    (h : Emits r u unitIndex topLevel sites relocation index position insns out) {k : Nat}
    (hp : (Placement.ofSitesFrom r.isa sites index position insns)[k]? = some p) :
    ∃ moved, move r.isa relocation p = .ok moved ∧
      out[k + sitesIn sites index (k + 1)]? = some moved ∧
      out[k + sitesIn sites index k]? =
        some (if index + k ∈ sites then r.probeAt u unitIndex topLevel p.landing p.insn.line
          else moved) := by
  induction h generalizing k with
  | nil => simp [Placement.ofSitesFrom] at hp
  | @probed index position i moved insns out hs hm rest ih =>
    rw [ofSitesFrom_cons] at hp
    simp only [hs, if_true] at hp
    cases k with
    | zero =>
      obtain rfl := Option.some.inj hp
      exact ⟨moved, hm, by simp [sitesIn_succ, hs], by simp [hs, Placement.landing]⟩
    | succ k =>
      rw [List.getElem?_cons_succ] at hp
      obtain ⟨moved', hm', hseat, hland⟩ := ih hp
      refine ⟨moved', hm', ?_, ?_⟩
      · rw [add_sitesIn_of_mem hs]
        exact hseat
      · rw [add_sitesIn_of_mem hs, show index + (k + 1) = index + 1 + k by omega]
        exact hland
  | @bare index position i moved insns out hs hm rest ih =>
    rw [ofSitesFrom_cons] at hp
    simp only [hs, if_false, Nat.add_zero] at hp
    cases k with
    | zero =>
      obtain rfl := Option.some.inj hp
      exact ⟨moved, hm, by simp [sitesIn_succ, hs], by simp [hs]⟩
    | succ k =>
      rw [List.getElem?_cons_succ] at hp
      obtain ⟨moved', hm', hseat, hland⟩ := ih hp
      refine ⟨moved', hm', ?_, ?_⟩
      · rw [add_sitesIn_of_not_mem hs]
        exact hseat
      · rw [add_sitesIn_of_not_mem hs, show index + (k + 1) = index + 1 + k by omega]
        exact hland

/-- Every instruction is placed. -/
lemma exists_placement (isa : InstructionSet) (sites : List Nat) (index position : Nat) {k : Nat}
    {i : Instruction} (hk : insns[k]? = some i) :
    ∃ p, (Placement.ofSitesFrom isa sites index position insns)[k]? = some p ∧ p.insn = i := by
  induction insns generalizing index position k with
  | nil => simp at hk
  | cons j rest ih =>
    rw [ofSitesFrom_cons]
    cases k with
    | zero =>
      obtain rfl := Option.some.inj hk
      exact ⟨_, rfl, rfl⟩
    | succ k =>
      rw [List.getElem?_cons_succ] at hk ⊢
      exact ih _ _ hk

/-! ## Jumps in new code -/

/-- An offset of the old code leads to the landing of what it names. -/
lemma Emits.lands_of_find? (h : Emits r u unitIndex topLevel sites relocation 0 0 insns out)
    (hfit : newExtent r.isa sites 0 insns < 4294967296) {target landing : Nat}
    (hf : (r.relocationOf u sites insns).find? target = some landing) :
    ∃ j, InstructionSet.Lands insns u.code.length target j ∧
      InstructionSet.Lands out (newExtent r.isa sites 0 insns) landing (landAt sites j) := by
  rw [Relocation.find?, relocationOf] at hf
  split_ifs at hf with hstop
  · obtain rfl := Option.some.inj hf
    exact ⟨insns.length, .inr ⟨rfl, hstop⟩, .inr ⟨h.length_eq.symm, rfl⟩⟩
  · rw [Option.map_eq_some_iff] at hf
    obtain ⟨p, hp, rfl⟩ := hf
    obtain ⟨hmem, hoff⟩ := List.mem_filter.1 (List.mem_of_getLast? hp)
    obtain ⟨k, hk⟩ := List.getElem?_of_mem hmem
    obtain ⟨hinsn, hprobe, hpos⟩ := placement_eq hk
    obtain ⟨hle, hend⟩ := placement_le hk
    obtain ⟨moved, hm, -, hland⟩ := h.at_placement hk
    have hword : (UInt32.ofNat p.landing).toNat = p.landing :=
      Word.toNat_ofNat_of_fits (by omega)
    rw [Nat.zero_add] at hland hpos
    refine ⟨k, .inl ⟨p.insn, hinsn, by simpa using hoff⟩, .inl ⟨_, hland, ?_⟩⟩
    split_ifs with hs
    · exact hword
    · rw [if_neg hs, Nat.add_zero] at hpos
      rw [(move_keeps hm).2.2, hpos, hword]

/-- **What becomes of an old instruction.** It is moved to its seat; where it jumps, its new operand
leads to what it led to, or to the probe of that.

**Proof sketch.** The instruction is moved to its placement (`at_placement`). A moved jump leads
where the relocation leads its target (`target_move`), and that is the landing of what the target
names (`lands_of_find?`). -/
theorem Emits.relocates
    (h : Emits r u unitIndex topLevel sites (r.relocationOf u sites insns) 0 0 insns out)
    (hfit : newExtent r.isa sites 0 insns < 4294967296) {k : Nat} {i : Instruction}
    (hk : insns[k]? = some i) :
    ∃ moved, Seated r.isa sites out k i moved ∧
      ∀ kind, r.isa.classOf i = .jump kind → ∃ target landing j,
        r.isa.jumpTarget i = some target ∧
        (OpClass.jump kind).target (moved.offset.toNat + r.isa.width moved) moved.arg =
          some landing ∧
        InstructionSet.Lands insns u.code.length target j ∧
        InstructionSet.Lands out (newExtent r.isa sites 0 insns) landing (landAt sites j) := by
  obtain ⟨p, hp, rfl⟩ := exists_placement r.isa sites 0 0 hk
  obtain ⟨moved, hm, hseat, hland⟩ := h.at_placement hp
  rw [Nat.zero_add] at hland
  refine ⟨moved, ⟨kept_of_move hm, seatAt_eq sites k ▸ hseat, fun hs => ?_⟩, ?_⟩
  · rw [if_pos hs] at hland
    exact ⟨_, _, hland⟩
  intro kind hc
  have hbound : ∀ target landing, (r.relocationOf u sites insns).find? target = some landing →
      landing < 4294967296 := by
    intro target landing hf
    obtain ⟨j, -, hland⟩ := h.lands_of_find? hfit hf
    rcases hland with ⟨o, -, rfl⟩ | ⟨-, rfl⟩
    · exact o.offset.toNat_lt
    · exact hfit
  have hend := (placement_le hp).2
  obtain ⟨target, landing, htarget, hf, hmoved⟩ := target_move hm (by omega) hbound hc
  obtain ⟨j, hold, hnew⟩ := h.lands_of_find? hfit hf
  exact ⟨target, landing, j, htarget, hmoved, hold, hnew⟩

/-- **What becomes of an old instruction** in a followable set: where it jumps, it leads to what it
led to, or to the probe of that. -/
theorem Emits.follows (hisa : r.isa.Followable)
    (h : Emits r u unitIndex topLevel sites (r.relocationOf u sites insns) 0 0 insns out)
    (hfit : newExtent r.isa sites 0 insns < 4294967296) {k : Nat} {i : Instruction}
    (hk : insns[k]? = some i) :
    ∃ moved, Seated r.isa sites out k i moved ∧
      ((r.isa.jumpTarget i = none ∧ r.isa.jumpTarget moved = none) ∨
        ∃ target landing j, r.isa.jumpTarget i = some target ∧
          r.isa.jumpTarget moved = some landing ∧
          InstructionSet.Lands insns u.code.length target j ∧
          InstructionSet.Lands out (newExtent r.isa sites 0 insns) landing (landAt sites j)) := by
  obtain ⟨moved, hseat, hjump⟩ := h.relocates hfit hk
  have hclass := hisa.classOf_congr moved i hseat.opcode
  refine ⟨moved, hseat, ?_⟩
  by_cases hc : ∃ kind, r.isa.classOf i = .jump kind
  · obtain ⟨kind, hc⟩ := hc
    obtain ⟨target, landing, j, htarget, hmoved, hold, hnew⟩ := hjump kind hc
    refine .inr ⟨target, landing, j, htarget, ?_, hold, hnew⟩
    rw [hisa.jumpTarget_eq, hclass, hc]
    exact hmoved
  · have hno : ∀ kind, r.isa.classOf i ≠ .jump kind := fun kind hkind => hc ⟨kind, hkind⟩
    left
    rw [hisa.jumpTarget_eq, hisa.jumpTarget_eq, hclass]
    exact ⟨OpClass.target_eq_none hno _ _, OpClass.target_eq_none hno _ _⟩

end

end Weaver

end CoverProbe
