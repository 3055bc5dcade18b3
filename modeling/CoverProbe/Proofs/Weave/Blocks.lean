import CoverProbe.Proofs.Weave.Acceptance
import CoverProbe.Proofs.Weave.Coverage

set_option relaxedAutoImplicit false
set_option autoImplicit false

/-!
# Probes on basic blocks

A basic block begins at the entry, behind an instruction that branches, or where a jump leads. With
a probe before every such instruction, the basic blocks of the new code begin with their probes and
have no other. So whatever control passes through, it has executed the probe of its block.

## Main definitions

* `CoverProbe.Control.Leader`, `CoverProbe.Control.Block` — where basic blocks begin, and basic
  blocks.
* `CoverProbe.Weave.Stretch` — a maximal stretch of new code without a probe put in.
* `CoverProbe.Weave.BlocksCovered` — what it means that probes cover all basic blocks.

## Main results

* `CoverProbe.Control.exists_block` — basic blocks take all the code behind the prologue.
* `CoverProbe.Control.Block.exists_run` — control passes through a basic block from its beginning.
* `CoverProbe.Weave.Rewired.leader_iff` — if the sites are the old leaders, the probes are the new.
* `CoverProbe.Weaver.blocks_covered` — probes on all block leaders cover all basic blocks.
-/

namespace CoverProbe

/-! ## Basic blocks -/

namespace Control

/-- Instruction number `k` of a stream that ends at `stop` begins a basic block: it is the entry, or
stands behind an instruction that branches, or is what a jump leads to. -/
inductive Leader (isa : InstructionSet) (insns : List Instruction) (stop k : Nat) : Prop
  | entry (hk : k = prologueLength isa insns)
  | behind {j : Nat} {b : Instruction} (hk : k = j + 1) (hb : insns[j]? = some b)
      (hbranch : (isa.classOf b).branches = true)
  | target {l target : Nat} {o : Instruction} (ho : insns[l]? = some o)
      (ht : isa.jumpTarget o = some target) (hl : InstructionSet.Lands insns stop target k)

/-- The instructions from number `a` up to number `b` are a basic block behind the prologue. -/
structure Block (isa : InstructionSet) (insns : List Instruction) (stop a b : Nat) : Prop where
  behind : prologueLength isa insns ≤ a
  lt : a < b
  le : b ≤ insns.length
  leader : Leader isa insns stop a
  inner : ∀ v, a < v → v < b → ¬ Leader isa insns stop v
  last : b = insns.length ∨ Leader isa insns stop b

variable {isa : InstructionSet} {insns : List Instruction} {stop : Nat}

/-- Control comes to an instruction that begins no basic block only from the one before it. -/
lemma Edge.eq_of_not_leader {v : Nat} {x : Visit} (h : Edge isa insns stop v x)
    (hx : ¬ Leader isa insns stop x.index) : x = ⟨.fallthrough, v + 1⟩ := by
  cases h with
  | fallthrough hk => rfl
  | jump hi ht hl => exact absurd (.target hi ht hl) hx

/-- No instruction before one that begins no basic block branches. -/
lemma branches_of_not_leader {v : Nat} (h : ¬ Leader isa insns stop (v + 1)) {i : Instruction}
    (hi : insns[v]? = some i) : (isa.classOf i).branches = false := by
  by_contra hbranch
  exact h (.behind rfl hi (Bool.not_eq_false _ ▸ hbranch))

/-- An instruction begins no basic block exactly if it is not the entry, nothing that branches stands
before it, and no jump leads to its offset. -/
lemma not_leader_iff {k : Nat} {i : Instruction} (hi : insns[k]? = some i) :
    ¬ Leader isa insns stop k ↔ k ≠ prologueLength isa insns ∧
      (∀ j b, k = j + 1 → insns[j]? = some b → (isa.classOf b).branches = false) ∧
      ∀ (l : Nat) (o : Instruction), insns[l]? = some o →
        isa.jumpTarget o ≠ some i.offset.toNat := by
  constructor
  · intro h
    refine ⟨fun hk => h (.entry hk), ?_, fun l o ho ht => h (.target ho ht (.inl ⟨i, hi, rfl⟩))⟩
    rintro j b rfl hb
    exact branches_of_not_leader h hb
  · rintro ⟨hentry, hbehind, htarget⟩ hleader
    cases hleader with
    | entry hk => exact hentry hk
    | behind hk hb hbranch =>
      rw [hbehind _ _ hk hb] at hbranch
      exact Bool.false_ne_true hbranch
    | target ho ht hl =>
      rcases hl with ⟨i', hi', rfl⟩ | ⟨rfl, -⟩
      · obtain rfl := Option.some.inj (hi.symm.trans hi')
        exact htarget _ _ ho ht
      · exact absurd (List.getElem?_eq_some_iff.1 hi).1 (Nat.lt_irrefl _)

/-- Up to every instruction behind the prologue, some basic block began last. -/
lemma exists_last_leader {v : Nat} (hv : prologueLength isa insns ≤ v) :
    ∃ a, prologueLength isa insns ≤ a ∧ a ≤ v ∧ Leader isa insns stop a ∧
      ∀ w, a < w → w ≤ v → ¬ Leader isa insns stop w := by
  induction v, hv using Nat.le_induction with
  | base =>
    refine ⟨_, Nat.le_refl _, Nat.le_refl _, .entry rfl, fun w hlt hle => ?_⟩
    omega
  | succ v hv ih =>
    by_cases hleader : Leader isa insns stop (v + 1)
    · refine ⟨v + 1, by omega, Nat.le_refl _, hleader, fun w hlt hle => ?_⟩
      omega
    · obtain ⟨a, hbehind, hle, ha, hinner⟩ := ih
      refine ⟨a, hbehind, by omega, ha, fun w hlt hw => ?_⟩
      rcases Nat.lt_or_eq_of_le hw with hw | rfl
      · exact hinner w hlt (Nat.le_of_lt_succ hw)
      · exact hleader

/-- **Every instruction behind the prologue lies in a basic block.** -/
theorem exists_block {v : Nat} (hv : prologueLength isa insns ≤ v) (hlt : v < insns.length) :
    ∃ a b, Block isa insns stop a b ∧ a ≤ v ∧ v < b := by
  obtain ⟨a, hbehind, hav, ha, hbefore⟩ := exists_last_leader hv
  obtain ⟨b, hvb, hb, hlast, hafter⟩ :=
    exists_first (p := Leader isa insns stop) (Nat.succ_le_of_lt hlt)
  refine ⟨a, b, ⟨hbehind, by omega, hb, ha, fun w haw hwb => ?_, hlast⟩, hav, hvb⟩
  rcases Nat.lt_or_ge v w with hvw | hwv
  · exact hafter w hvw hwb
  · exact hbefore w haw hwv

/-- **Control passes through a basic block from its beginning.** A path that visits an instruction of
a block has, right before that, fallen through all instructions before it in the block.

**Proof sketch.** Induction on the distance from the beginning of the block. Control comes to an
instruction behind that only from the instruction before it (`Edge.eq_of_not_leader`). -/
theorem Block.exists_run {a b : Nat} (hblock : Block isa insns stop a b) (n : Nat)
    {front back : List Visit} {v : Visit} (hv : v.index = a + n) (hb : v.index < b)
    (hp : IsPath isa insns stop (front ++ v :: back)) :
    ∃ before run, front ++ [v] = before ++ run ∧
      run.map (·.index) = List.range' a (n + 1) ∧ ∀ w ∈ run.tail, w.arrival = .fallthrough := by
  induction n generalizing front back v with
  | zero => exact ⟨front, [v], rfl, by simp [hv], by simp⟩
  | succ n ih =>
    have hinner := hblock.inner v.index (by omega) hb
    obtain ⟨hhead, hchain⟩ := hp
    rcases List.eq_nil_or_concat front with rfl | ⟨front, u, rfl⟩
    · -- A path begins at the first instruction, which lies before this one.
      obtain rfl := Option.some.inj hhead
      exact absurd hv (by simp)
    · rw [List.concat_eq_append, List.append_assoc] at hhead hchain
      have hedge := (List.isChain_cons_cons.1 (List.isChain_append.1 hchain).2.1).1
      obtain rfl := hedge.eq_of_not_leader hinner
      have hu : u.index + 1 = a + (n + 1) := hv
      have hub : u.index + 1 < b := hb
      obtain ⟨before, run, heq, hrun, harrival⟩ := ih (by omega) (by omega) ⟨hhead, hchain⟩
      have hne : run ≠ [] := by
        rintro rfl
        simp [List.range'_succ] at hrun
      refine ⟨before, run ++ [⟨.fallthrough, u.index + 1⟩], ?_, ?_, ?_⟩
      · rw [List.concat_eq_append, heq, List.append_assoc]
      · rw [List.map_append, hrun, List.map_singleton, hu]
        exact List.range'_1_concat.symm
      · intro w hw
        rw [List.tail_append_of_ne_nil hne] at hw
        rcases List.mem_append.1 hw with hw | hw
        · exact harrival w hw
        · rw [List.mem_singleton.1 hw]

end Control

/-! ## Probes of basic blocks -/

namespace Weave

open Control CandidatePolicy

/-- The instructions of new code from number `a` up to number `b` are a maximal stretch behind the
prologue without a probe put in. -/
structure Stretch (isa : InstructionSet) (sites : List Nat) (out : List Instruction) (a b : Nat) :
    Prop where
  behind : prologueLength isa out ≤ a
  lt : a < b
  le : b ≤ out.length
  bare : ∀ v, a ≤ v → v < b → ¬ ProbeAt sites v
  first : a = prologueLength isa out ∨ ∃ p, a = p + 1 ∧ ProbeAt sites p
  last : b = out.length ∨ ProbeAt sites b

/-- What it means that the probes put in before the sites cover all basic blocks: `out`, which ends
at `newStop`, is the new code of `insns`. -/
structure BlocksCovered (isa : InstructionSet) (sites : List Nat) (insns out : List Instruction)
    (newStop : Nat) : Prop where
  /-- The instructions behind the prologue without a probe are those that are not the first there,
  do not stand behind a jump, and are not what a jump leads to. -/
  bare_iff : ∀ k i, prologueLength isa insns ≤ k → insns[k]? = some i →
    (k ∉ sites ↔ k ≠ prologueLength isa insns ∧
      (∀ j b, k = j + 1 → insns[j]? = some b → (isa.classOf b).isJump = false) ∧
      ∀ (l : Nat) (o : Instruction), insns[l]? = some o →
        isa.jumpTarget o ≠ some i.offset.toNat)
  prologue : prologueLength isa out = prologueLength isa insns
  /-- A maximal stretch without a probe stands right behind one. -/
  guarded : ∀ a b, Stretch isa sites out a b → ∃ p, a = p + 1 ∧ ProbeAt sites p
  /-- Control comes to an instruction of it only by falling through the one before: from outside
  only through the probe. -/
  entered : ∀ a b, Stretch isa sites out a b → ∀ v x, Edge isa out newStop v x →
    a ≤ x.index → x.index < b → x = ⟨.fallthrough, v + 1⟩
  /-- Only its last instruction may jump. -/
  straight : ∀ a b, Stretch isa sites out a b → ∀ v o, a ≤ v → v + 1 < b → out[v]? = some o →
    (isa.classOf o).branches = false
  /-- The basic blocks of the new code begin where probes were put in. -/
  leaders : ∀ v, prologueLength isa out ≤ v → v < out.length →
    (Leader isa out newStop v ↔ ProbeAt sites v)
  /-- Every instruction behind the prologue lies in a basic block. -/
  blocks : ∀ v, prologueLength isa out ≤ v → v < out.length →
    ∃ a b, Block isa out newStop a b ∧ a ≤ v ∧ v < b
  /-- A path that visits a basic block has executed all of it up to there right before, the probe of
  the block first and no other probe put in. -/
  executed : ∀ a b, Block isa out newStop a b → ∀ front v back,
    IsPath isa out newStop (front ++ v :: back) → a ≤ v.index → v.index < b →
    ∃ before run, front ++ [v] = before ++ run ∧
      run.map (·.index) = List.range' a (v.index + 1 - a) ∧
      (∀ w ∈ run.tail, w.arrival = .fallthrough) ∧
      ∀ w ∈ run, (ProbeAt sites w.index ↔ w.index = a)

variable {isa : InstructionSet} {sites : List Nat} {insns out : List Instruction}
  {stop newStop : Nat}

namespace Rewired

section

variable (h : Rewired isa sites insns out stop newStop)
  (hclass : ∀ i j : Instruction, i.opcode = j.opcode → isa.classOf i = isa.classOf j)
  (hprobe : ∀ token offset line, isa.classOf ((isa.probe token).place offset line) = .plain)
  (hprologue : prologueLength isa out = prologueLength isa insns)
  (hsites : ∀ k, k ∈ sites ↔
    prologueLength isa insns ≤ k ∧ k < insns.length ∧ Leader isa insns stop k)

include h hclass in
/-- A moved instruction branches if the old one does. -/
lemma branches_seatAt {k : Nat} {i moved : Instruction} (hi : insns[k]? = some i)
    (hmoved : out[seatAt sites k]? = some moved) :
    (isa.classOf moved).branches = (isa.classOf i).branches := by
  obtain ⟨moved', hseated, -⟩ := h.follows hi
  obtain rfl := Option.some.inj (hseated.seat.symm.trans hmoved)
  rw [hclass _ _ hseated.opcode]

include hsites in
/-- Sites that are leaders stand behind the prologue. -/
lemma landAt_prologueLength : landAt sites (prologueLength isa insns) = prologueLength isa insns :=
  landAt_of_le fun k hk => ((hsites k).1 hk).1

include hsites in
/-- A place behind the prologue to which a leader's number leads has a probe. -/
lemma probeAt_of_leader {k : Nat} (hv : prologueLength isa insns ≤ landAt sites k)
    (hlt : landAt sites k < landAt sites insns.length) (hleader : Leader isa insns stop k) :
    ProbeAt sites (landAt sites k) := by
  rw [← landAt_prologueLength hsites] at hv
  have hbehind := (landAt_strictMono sites).le_iff_le.1 hv
  have hinside := (landAt_strictMono sites).lt_iff_lt.1 hlt
  exact ⟨k, (hsites k).2 ⟨hbehind, hinside, hleader⟩, rfl⟩

include h hclass hprobe hprologue hsites in
/-- Where a basic block begins in the new code, there is a probe. -/
lemma probeAt_of_newLeader {v : Nat} (hv : prologueLength isa out ≤ v) (hlt : v < out.length)
    (hleader : Leader isa out newStop v) : ProbeAt sites v := by
  rw [hprologue] at hv
  rw [h.length_eq] at hlt
  cases hleader with
  | entry hk =>
    rw [hprologue, ← landAt_prologueLength hsites] at hk
    subst hk
    exact probeAt_of_leader hsites hv hlt (.entry rfl)
  | @behind j b hk hb hbranch =>
    subst hk
    rcases seat_or_probe sites (show j < landAt sites insns.length by omega) with
      ⟨k, hk, rfl⟩ | ⟨k, hk, hs, rfl⟩
    · have hget := List.getElem?_eq_getElem hk
      rw [h.branches_seatAt hclass hget hb] at hbranch
      rw [← landAt_succ] at hv hlt ⊢
      exact probeAt_of_leader hsites hv hlt (.behind rfl hget hbranch)
    · -- A probe does not branch.
      obtain ⟨moved, hseated, -⟩ := h.follows (List.getElem?_eq_getElem hk)
      obtain ⟨token, offset, hput⟩ := hseated.probe hs
      rw [← Option.some.inj (hput.symm.trans hb), hprobe] at hbranch
      exact absurd hbranch Bool.false_ne_true
  | @target l target o ho ht hl =>
    have hlen := (List.getElem?_eq_some_iff.1 ho).1
    rw [h.length_eq] at hlen
    rcases seat_or_probe sites hlen with ⟨k, hk, rfl⟩ | ⟨k, hk, hs, rfl⟩
    · have hget := List.getElem?_eq_getElem hk
      obtain ⟨moved, hseated, hjump⟩ := h.follows hget
      obtain rfl := Option.some.inj (hseated.seat.symm.trans ho)
      rcases hjump with ⟨-, hnone⟩ | ⟨target', landing, j, htarget, hlanding, hold, hnew⟩
      · rw [hnone] at ht
        exact absurd ht (by simp)
      · obtain rfl := Option.some.inj (hlanding.symm.trans ht)
        obtain rfl := h.newLands_unique hl hnew
        exact probeAt_of_leader hsites hv hlt (.target hget htarget hold)
    · obtain ⟨moved, hseated, -⟩ := h.follows (List.getElem?_eq_getElem hk)
      obtain ⟨token, offset, hput⟩ := hseated.probe hs
      rw [← Option.some.inj (hput.symm.trans ho), h.probe_bare] at ht
      exact absurd ht (by simp)

include h hclass hprologue hsites in
/-- Where there is a probe, a basic block of the new code begins. -/
lemma newLeader_of_probeAt {v : Nat} (hv : ProbeAt sites v) : Leader isa out newStop v := by
  obtain ⟨k, hk, rfl⟩ := hv
  obtain ⟨-, -, hleader⟩ := (hsites k).1 hk
  cases hleader with
  | entry hk =>
    subst hk
    exact .entry ((landAt_prologueLength hsites).trans hprologue.symm)
  | @behind j b hk hb hbranch =>
    subst hk
    obtain ⟨moved, hseated, -⟩ := h.follows hb
    refine .behind (landAt_succ sites j) hseated.seat ?_
    rwa [h.branches_seatAt hclass hb hseated.seat]
  | @target l target o ho ht hl =>
    obtain ⟨moved, hseated, hjump⟩ := h.follows ho
    rcases hjump with ⟨hnone, -⟩ | ⟨target', landing, j, htarget, hlanding, hold, hnew⟩
    · rw [hnone] at ht
      exact absurd ht (by simp)
    · obtain rfl := Option.some.inj (htarget.symm.trans ht)
      obtain rfl := h.lands_unique hold hl
      exact .target hseated.seat hlanding hnew

include h hclass hprobe hprologue hsites in
/-- **If the sites are where basic blocks begin, the probes are where they begin in the new code.** -/
theorem leader_iff {v : Nat} (hv : prologueLength isa out ≤ v) (hlt : v < out.length) :
    Leader isa out newStop v ↔ ProbeAt sites v :=
  ⟨h.probeAt_of_newLeader hclass hprobe hprologue hsites hv hlt,
    h.newLeader_of_probeAt hclass hprologue hsites⟩

include h hclass hprobe hprologue hsites in
/-- **Probes where basic blocks begin cover them**, if the sites are told as they are: by what
stands before an instruction and by what jumps to it. -/
theorem blocksCovered
    (hbare : ∀ k i, prologueLength isa insns ≤ k → insns[k]? = some i →
      (k ∉ sites ↔ k ≠ prologueLength isa insns ∧
        (∀ j b, k = j + 1 → insns[j]? = some b → (isa.classOf b).isJump = false) ∧
        ∀ (l : Nat) (o : Instruction), insns[l]? = some o →
          isa.jumpTarget o ≠ some i.offset.toNat)) :
    BlocksCovered isa sites insns out newStop := by
  have hleaders : ∀ v, prologueLength isa out ≤ v → v < out.length →
      (Leader isa out newStop v ↔ ProbeAt sites v) := fun v hv hlt =>
    h.leader_iff hclass hprobe hprologue hsites hv hlt
  -- Inside a stretch no basic block begins.
  have hinside : ∀ {a b v}, Stretch isa sites out a b → a ≤ v → v < b →
      ¬ Leader isa out newStop v := by
    intro a b v hs ha hb hleader
    have hv := Nat.le_trans hs.behind ha
    exact hs.bare v ha hb ((hleaders v hv (Nat.lt_of_lt_of_le hb hs.le)).1 hleader)
  refine ⟨hbare, hprologue, ?_, ?_, ?_, hleaders, fun v hv hlt => exists_block hv hlt, ?_⟩
  · intro a b hs
    rcases hs.first with rfl | hfirst
    · exact absurd (.entry rfl) (hinside hs (Nat.le_refl _) hs.lt)
    · exact hfirst
  · intro a b hs v x hedge ha hb
    exact hedge.eq_of_not_leader (hinside hs ha hb)
  · intro a b hs v o ha hb ho
    exact branches_of_not_leader (hinside hs (by omega) hb) ho
  · intro a b hblock front v back hp ha hb
    obtain ⟨before, run, heq, hrun, harrival⟩ :=
      hblock.exists_run (v.index - a) (by omega) hb hp
    refine ⟨before, run, heq, ?_, harrival, fun w hw => ?_⟩
    · rw [hrun, Nat.sub_add_comm ha]
    · have hmem := List.mem_map_of_mem (f := Visit.index) hw
      rw [hrun, List.mem_range'_1] at hmem
      have hlt : w.index < b := by omega
      rw [← hleaders w.index (Nat.le_trans hblock.behind hmem.1)
        (Nat.lt_of_lt_of_le hlt hblock.le)]
      constructor
      · intro hleader
        by_contra hne
        exact hblock.inner w.index (by omega) hlt hleader
      · intro hw
        rw [hw]
        exact hblock.leader

end

end Rewired

end Weave

/-! ## Bodies -/

namespace Weaver

open Weave Control CandidatePolicy

variable {ρ : Type} {r : Weaver ρ} {u : CodeUnit} {unitIndex : UInt32} {topLevel : Bool}
  {insns : List Instruction} {s : ρ}

/-- The candidates by block leaders are where basic blocks begin behind the prologue. -/
lemma mem_blockLeaders_iff_leader {isa : InstructionSet} (hisa : isa.Followable)
    (hoffsets : Instruction.Increasing insns) {stop : Nat} {k : Nat} :
    k ∈ blockLeaders.indices isa insns ↔
      prologueLength isa insns ≤ k ∧ k < insns.length ∧ Leader isa insns stop k := by
  rw [mem_indices_blockLeaders hoffsets]
  refine and_congr_right fun _ => ?_
  constructor
  · rintro ⟨i, hi, hleads⟩
    refine ⟨(List.getElem?_eq_some_iff.1 hi).1, ?_⟩
    rcases hleads with hentry | ⟨j, b, hk, hb, hbranch⟩ | ⟨l, o, ho, -, htarget⟩
    · exact .entry hentry
    · exact .behind hk hb hbranch
    · exact .target ho htarget (.inl ⟨i, hi, rfl⟩)
  · rintro ⟨hlt, hleader⟩
    refine ⟨_, List.getElem?_eq_getElem hlt, ?_⟩
    cases hleader with
    | entry hk => exact .inl hk
    | behind hk hb hbranch => exact .inr (.inl ⟨_, _, hk, hb, hbranch⟩)
    | target ho ht hl =>
      rcases hl with ⟨i, hi, rfl⟩ | ⟨rfl, -⟩
      · obtain rfl := Option.some.inj ((List.getElem?_eq_getElem hlt).symm.trans hi)
        refine .inr (.inr ⟨_, _, ho, ?_, ht⟩)
        by_contra hjump
        have hno : ∀ kind, isa.classOf _ ≠ .jump kind := fun kind hc => hjump (by rw [hc]; rfl)
        rw [hisa.jumpTarget_eq, OpClass.target_eq_none hno] at ht
        exact absurd ht (by simp)
      · exact absurd hlt (Nat.lt_irrefl _)

/-- In woven code that has sites, what branches is a jump. -/
lemma branches_eq_isJump (hisa : r.isa = .standard)
    (hinsns : u.instructions r.isa r.sign = .ok insns) {body : WovenBody}
    (h : ((r.body u unitIndex topLevel).run.run s).1 = .ok body)
    (hsites : r.sitesOf topLevel insns s ≠ []) {b : Instruction} (hb : b ∈ insns) :
    (r.isa.classOf b).branches = (r.isa.classOf b).isJump := by
  obtain ⟨insns', hw⟩ := weavable_of_ok hisa h
  obtain rfl := Except.ok.inj (hinsns.symm.trans hw.instructions)
  have hdirect := hw.direct hsites b hb
  rw [ne_eq, ← Standard.classOf_eq_indirect_iff] at hdirect
  rw [hisa]
  show (Standard.classOf b).branches = (Standard.classOf b).isJump
  cases hc : Standard.classOf b with
  | indirect => exact absurd hc hdirect
  | jump kind | plain | pinned => rfl

/-- **Probes on block leaders cover every basic block.** When all block leaders of a unit get their
probes, an instruction behind the prologue is left without one exactly if it is not the first there,
stands behind no jump, and is the target of none. In the new code, a maximal stretch behind the
prologue without a probe put in is entered only through the probe right before it and jumps at most
at its end; and a control path executes each basic block behind the prologue from its beginning, its
one probe first.

**Proof sketch.** The sites are where the basic blocks of the old code begin
(`mem_blockLeaders_iff_leader`), and jumps lead to the probes of what they led to. So the probes are
where the basic blocks of the new code begin (`Rewired.leader_iff`), and between them control only
falls through. -/
theorem blocks_covered (hisa : r.isa = .standard) (hpolicy : r.policy = .blockLeaders)
    (hinsns : u.instructions r.isa r.sign = .ok insns) (hall : r.Exhaustive topLevel insns s)
    {s' : ρ} {body : WovenBody}
    (h : (r.body u unitIndex topLevel).run.run s = (.ok body, s')) :
    ∃ out, (rebuild u body u.consts).instructions r.isa r.sign = .ok out ∧
      Inserted r.isa (r.sitesOf topLevel insns s) 0 insns out ∧
      BlocksCovered r.isa (r.sitesOf topLevel insns s) insns out body.code.length := by
  obtain ⟨insns', out, hw⟩ := woven_of_body hisa h
  obtain rfl := Except.ok.inj (hinsns.symm.trans hw.instructions)
  have hfollow := InstructionSet.followable_of_standard hisa
  have hoffsets := hw.laidOut.increasing (InstructionSet.width_pos_of_standard hisa)
  have hsites : ∀ k, k ∈ r.sitesOf topLevel insns s ↔ prologueLength r.isa insns ≤ k ∧
      k < insns.length ∧ Leader r.isa insns u.code.length k := by
    intro k
    rw [hall.sitesOf_eq, hpolicy]
    exact mem_blockLeaders_iff_leader hfollow hoffsets
  have hprobe : ∀ token offset line,
      r.isa.classOf ((r.isa.probe token).place offset line) = .plain := by
    intro token offset line
    rw [hisa]
    rfl
  have hrewired := hw.rewired hisa fun k hk => lt_of_mem_sitesOf hk
  have hprologue := hrewired.prologueLength_eq hfollow.classOf_congr
    (fun token offset line => by rw [hprobe]; simp) (fun k hk => hall.le_of_mem hk) hall.entry_mem
  refine ⟨out, hw.newInstructions, hw.emits.inserted,
    hrewired.blocksCovered hfollow.classOf_congr hprobe hprologue hsites ?_⟩
  intro k i hk hi
  have hlt := (List.getElem?_eq_some_iff.1 hi).1
  have hne := List.ne_nil_of_mem (hall.entry_mem (Nat.lt_of_le_of_lt hk hlt))
  have hjumps : ∀ j b, insns[j]? = some b →
      (r.isa.classOf b).branches = (r.isa.classOf b).isJump := fun j b hb =>
    branches_eq_isJump hisa hinsns (congrArg Prod.fst h) hne (List.mem_of_getElem? hb)
  have hleader : k ∉ r.sitesOf topLevel insns s ↔ ¬ Leader r.isa insns u.code.length k := by
    rw [hsites]
    simp only [hk, hlt, true_and]
  rw [hleader, not_leader_iff hi]
  refine and_congr_right fun _ => and_congr_left fun _ => ?_
  constructor
  · intro hbehind j b hj hb
    rw [← hjumps j b hb]
    exact hbehind j b hj hb
  · intro hbehind j b hj hb
    rw [hjumps j b hb]
    exact hbehind j b hj hb

/-- The basic blocks of a loop are covered by three probes. -/
theorem blocks_covered_loop :
    ((everywhere .blockLeaders).body .loop 0 false).run.run ⟨[], []⟩ = (.ok .loop, ⟨[], []⟩) ∧
      CodeUnit.loop.instructions .standard .signed = .ok Instruction.loop ∧
      (everywhere .blockLeaders).Exhaustive false Instruction.loop ⟨[], []⟩ ∧
      ∃ out, (rebuild .loop .loop []).instructions .standard .signed = .ok out ∧
        Inserted .standard [0, 1, 3] 0 Instruction.loop out ∧
        BlocksCovered .standard [0, 1, 3] Instruction.loop out 27 := by
  have hrun : ((everywhere .blockLeaders).body .loop 0 false).run.run ⟨[], []⟩ =
      (.ok .loop, ⟨[], []⟩) := by rfl
  have hinsns := CodeUnit.instructions_loop
  have hall : (everywhere .blockLeaders).Exhaustive false Instruction.loop ⟨[], []⟩ :=
    exhaustive_of_all true rfl rfl _ _
  exact ⟨hrun, hinsns, hall,
    blocks_covered (r := everywhere .blockLeaders) (u := .loop) rfl rfl hinsns hall hrun⟩

end Weaver

end CoverProbe
