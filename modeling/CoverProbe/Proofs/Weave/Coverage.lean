import CoverProbe.Proofs.Probe.Candidates
import CoverProbe.Proofs.Weave.Control
import CoverProbe.Proofs.Weave.Insertion
import CoverProbe.Random.Generator

set_option relaxedAutoImplicit false
set_option autoImplicit false

/-!
# Exhaustive weaving

A weaver that keeps every candidate puts its probes before the candidates of its policy, the entry
among them. So the prologue stays as it is, and the first instruction behind it is a probe.

## Main definitions

* `CoverProbe.Weaver.Exhaustive` — a weaver that keeps every candidate.
* `CoverProbe.Weave.ProbeAt` — the places of the probes put in.

## Main results

* `CoverProbe.Weaver.Exhaustive.sitesOf_eq` — the sites of an exhaustive weaver.
* `CoverProbe.Weaver.exhaustive_of_all` — weavers that sample all candidates are exhaustive.
* `CoverProbe.Weave.Rewired.prologueLength_eq` — the prologue of the new code.
-/

namespace CoverProbe

/-- From `a` on, up to `n`, there is a first number at which something holds, or it holds nowhere
before `n`. -/
lemma exists_first {p : Nat → Prop} {a n : Nat} (h : a ≤ n) :
    ∃ b, a ≤ b ∧ b ≤ n ∧ (b = n ∨ p b) ∧ ∀ j, a ≤ j → j < b → ¬ p j := by
  classical
  have hexists : ∃ b, a ≤ b ∧ (b = n ∨ p b) := ⟨n, h, .inl rfl⟩
  obtain ⟨hle, hfound⟩ := Nat.find_spec hexists
  refine ⟨Nat.find hexists, hle, Nat.find_min' hexists ⟨h, .inl rfl⟩, hfound, ?_⟩
  intro j ha hj hp
  exact Nat.find_min hexists hj ⟨ha, .inr hp⟩

/-! ## Places of probes -/

namespace Weave

open Control CandidatePolicy

/-- A probe was put in at number `v` of the new code. -/
def ProbeAt (sites : List Nat) (v : Nat) : Prop :=
  ∃ k ∈ sites, landAt sites k = v

variable {isa : InstructionSet} {sites : List Nat} {insns out : List Instruction}
  {stop newStop : Nat}

/-- Before the first site nothing moves. -/
lemma landAt_of_le {k : Nat} (h : ∀ l ∈ sites, k ≤ l) : landAt sites k = k := by
  have hnone : sitesIn sites 0 k = 0 := by
    rw [sitesIn, List.countP_eq_zero]
    intro l hl hs
    have := h l (List.contains_iff_mem.1 hs)
    have := List.mem_range'_1.1 hl
    omega
  rw [landAt, hnone, Nat.add_zero]

/-- **Rewiring keeps the prologue**, if the sites stand behind it and the entry is one of them. -/
theorem Rewired.prologueLength_eq (h : Rewired isa sites insns out stop newStop)
    (hclass : ∀ i j : Instruction, i.opcode = j.opcode → isa.classOf i = isa.classOf j)
    (hprobe : ∀ token offset line, isa.classOf ((isa.probe token).place offset line) ≠ .pinned)
    (hbehind : ∀ k ∈ sites, prologueLength isa insns ≤ k)
    (hentry : prologueLength isa insns < insns.length → prologueLength isa insns ∈ sites) :
    prologueLength isa out = prologueLength isa insns := by
  have hstays := landAt_of_le hbehind
  refine CandidatePolicy.prologueLength_eq ?_ ?_ ?_
  · rw [h.length_eq]
    exact Nat.le_trans prologueLength_le (Nat.le_add_right _ _)
  · intro k i hk hi
    have hbare : k ∉ sites := fun hs => Nat.not_le.2 hk (hbehind k hs)
    have hseat : seatAt sites k = k := by
      rw [seatAt_of_not_mem sites hbare,
        landAt_of_le fun l hl => Nat.le_trans (Nat.le_of_lt hk) (hbehind l hl)]
    have hget := List.getElem?_eq_getElem (Nat.lt_of_lt_of_le hk prologueLength_le)
    obtain ⟨moved, hmoved, -⟩ := h.follows hget
    have hput := hmoved.seat
    rw [hseat] at hput
    obtain rfl := Option.some.inj (hput.symm.trans hi)
    rw [hclass _ _ hmoved.opcode]
    exact classOf_of_lt_prologueLength hk hget
  · intro i hi
    have hlt : prologueLength isa insns < insns.length := by
      have hout := (List.getElem?_eq_some_iff.1 hi).1
      rw [h.length_eq] at hout
      by_contra hge
      have heq := Nat.le_antisymm prologueLength_le (Nat.not_lt.1 hge)
      rw [← heq, hstays] at hout
      exact Nat.lt_irrefl _ hout
    obtain ⟨moved, hmoved, -⟩ := h.follows (List.getElem?_eq_getElem hlt)
    obtain ⟨token, offset, hput⟩ := hmoved.probe (hentry hlt)
    rw [hstays] at hput
    rw [← Option.some.inj (hput.symm.trans hi)]
    exact hprobe _ _ _

end Weave

namespace Weaver

open Weave

variable {ρ : Type} {r : Weaver ρ} {topLevel : Bool} {insns : List Instruction} {s : ρ}

/-- The weaver keeps every candidate of the instructions `insns` from the source state `s`, and does
not stop at the entry. -/
structure Exhaustive (r : Weaver ρ) (topLevel : Bool) (insns : List Instruction) (s : ρ) :
    Prop where
  full : (topLevel && r.topLevel = .entryOnly) = false
  keeps : ∀ position < (r.policy.candidates r.isa insns).length,
    position ∈ ((r.sampler (r.policy.candidates r.isa insns)).run s).1

/-- **The sites of an exhaustive weaver are the candidates.** -/
theorem Exhaustive.sitesOf_eq (h : r.Exhaustive topLevel insns s) :
    r.sitesOf topLevel insns s = r.policy.indices r.isa insns := by
  have hfull := h.full
  rw [Weaver.sitesOf_eq]
  simp only [hfull]
  exact sitesOf_eq_map_index CandidatePolicy.pairwise_candidatesFrom h.keeps

/-- Sampling all candidates keeps every candidate. -/
lemma exhaustive_of_all [Drawing ρ] (entry : Bool)
    (hfull : (topLevel && r.topLevel = .entryOnly) = false)
    (hall : r.sampler = Sampling.all.sampler entry) (insns : List Instruction) (s : ρ) :
    r.Exhaustive topLevel insns s := by
  refine ⟨hfull, fun position hposition => ?_⟩
  rw [hall]
  cases hfound : r.policy.candidates r.isa insns with
  | nil =>
    rw [hfound] at hposition
    exact absurd hposition (Nat.not_lt_zero _)
  | cons c rest =>
    rw [hfound] at hposition
    exact List.mem_range.2 hposition

/-- The sites of an exhaustive weaver stand behind the prologue. -/
lemma Exhaustive.le_of_mem (h : r.Exhaustive topLevel insns s) {k : Nat}
    (hk : k ∈ r.sitesOf topLevel insns s) : prologueLength r.isa insns ≤ k := by
  rw [h.sitesOf_eq] at hk
  exact (CandidatePolicy.mem_indices.1 hk).1

/-- The entry is a site of an exhaustive weaver, if there is one. -/
lemma Exhaustive.entry_mem (h : r.Exhaustive topLevel insns s)
    (hlt : prologueLength r.isa insns < insns.length) :
    prologueLength r.isa insns ∈ r.sitesOf topLevel insns s := by
  rw [h.sitesOf_eq]
  exact CandidatePolicy.prologueLength_mem_indices hlt

/-- A weaver that puts a probe before every candidate of a policy. -/
def everywhere (policy : CandidatePolicy) : Weaver Script where
  isa := .standard
  sign := .signed
  policy := policy
  topLevel := .full
  sampler := Sampling.all.sampler true
  tokens site := site.offset

end Weaver

/-- The instructions of the loop. -/
def Instruction.loop : List Instruction :=
  [⟨0x23, some 6, 0, 2⟩, ⟨0x11, none, 5, 3⟩, ⟨0x20, some 0, 6, 3⟩, ⟨0x12, none, 11, 4⟩]

/-- The loop decodes to its instructions. -/
lemma CodeUnit.instructions_loop :
    CodeUnit.loop.instructions .standard .signed = .ok Instruction.loop := by
  rfl

end CoverProbe
