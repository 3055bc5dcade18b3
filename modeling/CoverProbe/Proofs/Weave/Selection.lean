import CoverProbe.Proofs.Probe.Selection
import CoverProbe.Proofs.Weave.Checks

set_option relaxedAutoImplicit false
set_option autoImplicit false

/-!
# Sites are safe for any sampler

A sampler is the caller's: it may name positions at which there is no candidate, name one twice, in
any order, and draw as it likes. The sites stay instructions of the stream, each once, and none of
them is pinned, because the checks made before the draw leave no pinned instruction behind the
prologue.

## Main definitions

* `CoverProbe.Weaver.SafeSites` — no site is pinned, or lies outside the stream.

## Main results

* `CoverProbe.Weaver.selection_safe` — what sites are, whatever the sampler does.
-/

namespace CoverProbe

namespace Weaver

variable {ρ : Type} {r : Weaver ρ} {u : CodeUnit} {insns : List Instruction} {s : ρ}

/-- Behind the prologue of a prepared unit nothing is pinned. -/
lemma classOf_of_prepare (h : r.prepare u = .ok insns) {k : Nat}
    (hk : prologueLength r.isa insns ≤ k) {i : Instruction} (hi : insns[k]? = some i) :
    r.isa.classOf i ≠ .pinned := by
  obtain ⟨raw, -, h⟩ := Checked.bind_eq_ok.1 h
  obtain ⟨starts, -, h⟩ := Checked.bind_eq_ok.1 h
  obtain ⟨_, -, h⟩ := Checked.bind_eq_ok.1 h
  obtain ⟨_, hpinned, h⟩ := Checked.bind_eq_ok.1 h
  obtain rfl := Except.ok.inj h
  rcases WeaveCheck.without_outcome r.isa .pinned .pinned
    ((Instruction.withLines starts raw).drop
      (prologueLength r.isa (Instruction.withLines starts raw))) with ⟨-, hall⟩ | ⟨_, -, -, herr⟩
  · obtain ⟨j, rfl⟩ := Nat.exists_eq_add_of_le hk
    rw [← List.getElem?_drop] at hi
    exact hall i (List.mem_of_getElem? hi)
  · rw [herr] at hpinned
    cases hpinned

/-- Sites stand behind the prologue. -/
lemma prologueLength_le_of_mem_sitesOf {topLevel : Bool} {k : Nat}
    (h : k ∈ r.sitesOf topLevel insns s) : prologueLength r.isa insns ≤ k := by
  rw [sitesOf] at h
  split_ifs at h
  · simp at h
  · obtain ⟨c, hc, rfl⟩ := exists_candidate_of_mem_sites h
    exact (CandidatePolicy.bounds_of_mem_candidates hc).1

/-- The body of a unit with instructions `insns` is made with sites, drawn from `s`, that are
instructions of the stream and not pinned: no probe is put before a pinned instruction. -/
structure SafeSites (r : Weaver ρ) (u : CodeUnit) (topLevel : Bool) (insns : List Instruction)
    (s : ρ) : Prop where
  drawn : insns ≠ [] → ∀ unitIndex, ∃ candidates s',
    (r.body u unitIndex topLevel).run.run s =
      (r.bodyWith u unitIndex topLevel insns candidates (r.sitesOf topLevel insns s), s')
  unpinned : ∀ k ∈ r.sitesOf topLevel insns s,
    ∃ i, insns[k]? = some i ∧ r.isa.classOf i ≠ .pinned
  probed : ∀ p ∈ Placement.ofSites r.isa (r.sitesOf topLevel insns s) insns,
    p.probe.isSome = true → r.isa.classOf p.insn ≠ .pinned

/-- The sites of a prepared unit are safe. -/
lemma safeSites_of_prepare (h : r.prepare u = .ok insns) (topLevel : Bool) (s : ρ) :
    SafeSites r u topLevel insns s := by
  have hunpinned : ∀ k ∈ r.sitesOf topLevel insns s,
      ∃ i, insns[k]? = some i ∧ r.isa.classOf i ≠ .pinned := by
    intro k hk
    have hget := List.getElem?_eq_getElem (lt_of_mem_sitesOf hk)
    exact ⟨_, hget, classOf_of_prepare h (prologueLength_le_of_mem_sitesOf hk) hget⟩
  refine ⟨fun hne unitIndex => ?_, hunpinned, fun p hp hprobe => ?_⟩
  · have hempty : ¬ insns.isEmpty = true := by simpa using hne
    rw [run_body, h, sitesOf, if_neg hempty]
    dsimp only
    rw [if_neg hempty]
    exact ⟨_, _, rfl⟩
  · obtain ⟨k, hk⟩ := List.getElem?_of_mem hp
    obtain ⟨hget, hprobe', -⟩ := placement_eq hk
    have hsite : 0 + k ∈ r.sitesOf topLevel insns s := by
      by_contra hsite
      rw [hprobe', if_neg hsite] at hprobe
      simp at hprobe
    obtain ⟨i, hi, hclass⟩ := hunpinned _ hsite
    rw [Nat.zero_add] at hi
    obtain rfl := Option.some.inj (hi.symm.trans hget)
    exact hclass

/-- **Selection is safe**, for every instruction set, stream, policy, sampler and random source.
Candidates stand in order behind the prologue, and exactly the first is the entry. Selection counts
the candidates and keeps, each once and in order, those that the sampler names; selection at the
entry only keeps the first instruction behind the prologue, if there is one, and draws nothing. So
the sites of a unit that passes the checks are instructions of its code that are not pinned. -/
theorem selection_safe (r : Weaver ρ) (insns : List Instruction) (s : ρ) :
    Queue r.isa insns (r.policy.candidates r.isa insns) ∧
      (∃ sites, (selectSites r.isa insns r.policy false r.sampler).run s =
          (((r.policy.candidates r.isa insns).length, sites),
            ((r.sampler (r.policy.candidates r.isa insns)).run s).2) ∧
        sites.Pairwise (· < ·) ∧
        ∀ k, k ∈ sites ↔
          ∃ position ∈ ((r.sampler (r.policy.candidates r.isa insns)).run s).1,
            ∃ c, (r.policy.candidates r.isa insns)[position]? = some c ∧ c.index = k) ∧
      (selectSites r.isa insns r.policy true r.sampler).run s =
        (if prologueLength r.isa insns < insns.length then (1, [prologueLength r.isa insns])
          else (0, []), s) ∧
      ∀ u, r.prepare u = .ok insns → ∀ topLevel, SafeSites r u topLevel insns s := by
  have hqueue := CandidatePolicy.queue_candidates r.policy r.isa insns
  refine ⟨hqueue, ⟨_, run_selectSites_false, CoverProbe.pairwise_sitesOf _ _,
    fun k => mem_sitesOf⟩, run_selectSites_true, ?_⟩
  intro u hu topLevel
  exact safeSites_of_prepare hu topLevel s

end Weaver

/-- A weaver whose sampler draws a word and names the third candidate twice, the first once, and one
that there need not be. -/
def Weaver.careless : Weaver (Counted Script) where
  isa := .standard
  sign := .signed
  policy := .lineStarts
  topLevel := .full
  sampler := fun _ => do
    let _ ← Draw.word64
    return [7, 2, 0, 2]
  tokens site := site.offset

/-- A unit whose first instruction is pinned, with one instruction on each of four lines. -/
def CodeUnit.resumed : CodeUnit where
  name := "resumed"
  firstLine := 1
  code := [0x01, 0x11, 0x11, 0x12]
  consts := []
  lineTable := [0, 0, 1, 1, 1, 1, 1, 1]

/-- The instructions of that unit. -/
def Instruction.resumed : List Instruction :=
  [⟨0x01, none, 0, 1⟩, ⟨0x11, none, 1, 2⟩, ⟨0x11, none, 2, 3⟩, ⟨0x12, none, 3, 4⟩]

/-- The careless sampler keeps two of the three candidates. -/
theorem Weaver.selection_safe_careless :
    careless.prepare .resumed = .ok Instruction.resumed ∧
      careless.sitesOf true Instruction.resumed ⟨⟨[5], [5]⟩, 0⟩ = [1, 3] ∧
      SafeSites careless .resumed true Instruction.resumed ⟨⟨[5], [5]⟩, 0⟩ := by
  have hprepare : careless.prepare .resumed = .ok Instruction.resumed := rfl
  have hsafe := (selection_safe careless Instruction.resumed ⟨⟨[5], [5]⟩, 0⟩).2.2.2
  exact ⟨hprepare, rfl, hsafe .resumed hprepare true⟩

end CoverProbe
