import Mathlib.Data.List.TakeWhile
import CoverProbe.Proofs.Instruction.Stream
import CoverProbe.Proofs.Probe.Sites

set_option relaxedAutoImplicit false
set_option autoImplicit false

/-!
# Which instructions are candidates

Candidates are found in one pass that remembers the instructions behind the prologue. Here they are
told by their numbers: under each policy, which instructions of a stream are candidates. Where a
sampler keeps all candidates, the sites are these.

## Main definitions

* `CoverProbe.CandidatePolicy.indices` — the numbers of the candidates.

## Main results

* `CoverProbe.CandidatePolicy.mem_indices_distinctLines`, `mem_indices_lineStarts`,
  `mem_indices_blockLeaders` — the candidates of each policy.
* `CoverProbe.CandidatePolicy.prologueLength_mem_indices` — the entry is always a candidate.
* `CoverProbe.sitesOf_eq_map_index` — sites where all candidates are kept.
-/

namespace CoverProbe

namespace CandidatePolicy

/-- The numbers of the candidates of a stream, in order. -/
def indices (policy : CandidatePolicy) (isa : InstructionSet) (insns : List Instruction) :
    List Nat :=
  (policy.candidates isa insns).map (·.index)

variable {policy : CandidatePolicy} {isa : InstructionSet} {insns : List Instruction}

/-! ## The prologue -/

/-- The prologue is part of the stream. -/
lemma prologueLength_le : prologueLength isa insns ≤ insns.length :=
  (List.takeWhile_sublist _).length_le

/-- The prologue is pinned. -/
lemma classOf_of_lt_prologueLength {k : Nat} (hk : k < prologueLength isa insns) {i : Instruction}
    (hi : insns[k]? = some i) : isa.classOf i = .pinned := by
  have htaken := List.takeWhile_prefix (l := insns) fun i => decide (isa.classOf i = .pinned)
  obtain ⟨hlt, rfl⟩ := List.getElem?_eq_some_iff.1 hi
  have hpinned := List.mem_takeWhile_imp (List.getElem_mem hk)
  rw [htaken.getElem hk] at hpinned
  exact of_decide_eq_true hpinned

/-- The entry is not pinned. -/
lemma classOf_entry {i : Instruction} (hi : insns[prologueLength isa insns]? = some i) :
    isa.classOf i ≠ .pinned := by
  induction insns with
  | nil => simp at hi
  | cons o rest ih =>
    by_cases ho : isa.classOf o = .pinned
    · have hlen : prologueLength isa (o :: rest) = prologueLength isa rest + 1 := by
        simp [prologueLength, ho]
      rw [hlen, List.getElem?_cons_succ] at hi
      exact ih hi
    · have hlen : prologueLength isa (o :: rest) = 0 := by simp [prologueLength, ho]
      rw [hlen] at hi
      obtain rfl := Option.some.inj hi
      exact ho

/-- The prologue is as long as instructions are pinned. -/
lemma prologueLength_eq {n : Nat} (hle : n ≤ insns.length)
    (hpinned : ∀ k i, k < n → insns[k]? = some i → isa.classOf i = .pinned)
    (hentry : ∀ i, insns[n]? = some i → isa.classOf i ≠ .pinned) :
    prologueLength isa insns = n := by
  rcases Nat.lt_trichotomy (prologueLength isa insns) n with hlt | heq | hlt
  · have hget := List.getElem?_eq_getElem (Nat.lt_of_lt_of_le hlt hle)
    exact absurd (hpinned _ _ hlt hget) (classOf_entry hget)
  · exact heq
  · have hget := List.getElem?_eq_getElem (Nat.lt_of_lt_of_le hlt prologueLength_le)
    exact absurd (classOf_of_lt_prologueLength hlt hget) (hentry _ hget)

/-! ## All policies -/

/-- An instruction is a candidate exactly if the policy admits it between those before it and those
behind it. -/
lemma mem_map_candidatesFrom {landings : List Nat} {index k : Nat} {before : List Instruction} :
    k ∈ (policy.candidatesFrom isa landings index before insns).map (·.index) ↔
      ∃ j i, k = index + j ∧ insns[j]? = some i ∧
        policy.admits isa landings ((insns.take j).reverse ++ before) i (insns.drop (j + 1)) =
          true := by
  induction insns generalizing index before with
  | nil => simp [candidatesFrom]
  | cons i rest ih =>
    have hmore : k ∈ (policy.candidatesFrom isa landings (index + 1) (i :: before) rest).map
          (·.index) ↔
        ∃ j i', k = index + (j + 1) ∧ (i :: rest)[j + 1]? = some i' ∧
          policy.admits isa landings (((i :: rest).take (j + 1)).reverse ++ before) i'
            ((i :: rest).drop (j + 1 + 1)) = true := by
      rw [ih]
      simp only [List.getElem?_cons_succ, List.take_succ_cons, List.reverse_cons,
        List.append_assoc, List.singleton_append, List.drop_succ_cons, Nat.add_comm 1,
        Nat.add_assoc]
    rw [candidatesFrom]
    constructor
    · intro h
      split_ifs at h with ha
      · rw [List.map_cons] at h
        rcases List.mem_cons.1 h with rfl | h
        · exact ⟨0, i, rfl, rfl, ha⟩
        · obtain ⟨j, i', hrest⟩ := hmore.1 h
          exact ⟨j + 1, i', hrest⟩
      · obtain ⟨j, i', hrest⟩ := hmore.1 h
        exact ⟨j + 1, i', hrest⟩
    · rintro ⟨j, i', rfl, hi, ha⟩
      cases j with
      | zero =>
        obtain rfl := Option.some.inj hi
        have ha' : policy.admits isa landings before i rest = true := ha
        rw [if_pos ha', List.map_cons]
        exact List.mem_cons_self
      | succ j =>
        have hrest := hmore.2 ⟨j, i', rfl, hi, ha⟩
        split_ifs
        · rw [List.map_cons]
          exact List.mem_cons_of_mem _ hrest
        · exact hrest

/-- The instructions between the prologue and number `k`, the last one first. -/
def between (isa : InstructionSet) (insns : List Instruction) (k : Nat) : List Instruction :=
  ((insns.drop (prologueLength isa insns)).take (k - prologueLength isa insns)).reverse

/-- What stands between the prologue and an instruction. -/
lemma mem_between {k : Nat} {b : Instruction} :
    b ∈ between isa insns k ↔
      ∃ j, prologueLength isa insns ≤ j ∧ j < k ∧ insns[j]? = some b := by
  rw [between, List.mem_reverse, List.mem_iff_getElem?]
  constructor
  · rintro ⟨j, hj⟩
    rw [List.getElem?_take] at hj
    split_ifs at hj with hlt
    rw [List.getElem?_drop] at hj
    exact ⟨_, Nat.le_add_right _ _, by omega, hj⟩
  · rintro ⟨j, hle, hlt, hj⟩
    refine ⟨j - prologueLength isa insns, ?_⟩
    rw [List.getElem?_take, if_pos (by omega), List.getElem?_drop,
      Nat.add_sub_cancel' hle]
    exact hj

/-- Nothing stands between the prologue and the entry. -/
lemma between_prologueLength : between isa insns (prologueLength isa insns) = [] := by
  rw [between, Nat.sub_self, List.take_zero, List.reverse_nil]

/-- Between the prologue and the next instruction, this one stands last. -/
lemma between_succ {k : Nat} {b : Instruction} (hk : prologueLength isa insns ≤ k)
    (hb : insns[k]? = some b) : between isa insns (k + 1) = b :: between isa insns k := by
  have hget : (insns.drop (prologueLength isa insns))[k - prologueLength isa insns]? = some b := by
    rw [List.getElem?_drop, Nat.add_sub_cancel' hk]
    exact hb
  obtain ⟨hlt, rfl⟩ := List.getElem?_eq_some_iff.1 hget
  rw [between, between, Nat.succ_sub hk, List.take_succ_eq_append_getElem hlt,
    List.reverse_append, List.reverse_singleton, List.singleton_append]

/-- **Candidates are what the policy admits** behind the prologue. -/
theorem mem_indices {k : Nat} :
    k ∈ policy.indices isa insns ↔ prologueLength isa insns ≤ k ∧ ∃ i, insns[k]? = some i ∧
      policy.admits isa (landings isa insns) (between isa insns k) i (insns.drop (k + 1)) =
        true := by
  rw [indices, candidates, mem_map_candidatesFrom]
  constructor
  · rintro ⟨j, i, rfl, hi, ha⟩
    rw [List.getElem?_drop] at hi
    refine ⟨Nat.le_add_right _ _, i, hi, ?_⟩
    rw [List.append_nil, List.drop_drop] at ha
    rw [between, Nat.add_sub_cancel_left]
    exact ha
  · rintro ⟨hle, i, hi, ha⟩
    obtain ⟨j, rfl⟩ := Nat.exists_eq_add_of_le hle
    refine ⟨j, i, rfl, ?_, ?_⟩
    · rw [List.getElem?_drop]
      exact hi
    · rw [between, Nat.add_sub_cancel_left] at ha
      rw [List.append_nil, List.drop_drop]
      exact ha

/-- Every policy admits the first instruction behind the prologue. -/
lemma admits_nil {landings : List Nat} {i : Instruction} {after : List Instruction} :
    policy.admits isa landings [] i after = true := by
  cases policy with
  | distinctLines => rfl
  | lineStarts => rfl
  | blockLeaders => rfl

/-- **The entry is a candidate** under every policy, if there is one. -/
theorem prologueLength_mem_indices (hlt : prologueLength isa insns < insns.length) :
    prologueLength isa insns ∈ policy.indices isa insns := by
  refine mem_indices.2 ⟨Nat.le_refl _, _, List.getElem?_eq_getElem hlt, ?_⟩
  rw [between_prologueLength]
  exact admits_nil

/-- Only the entry stands behind the prologue; behind every other instruction stands the one before
it. -/
lemma all_head?_between {k : Nat} (hk : prologueLength isa insns ≤ k) (hlen : k ≤ insns.length)
    (p : Instruction → Bool) :
    (between isa insns k).head?.all p = true ↔
      ∀ j b, k = j + 1 → prologueLength isa insns ≤ j → insns[j]? = some b → p b = true := by
  rcases Nat.lt_or_eq_of_le hk with hlt | rfl
  · obtain ⟨j, rfl⟩ : ∃ j, k = j + 1 := ⟨k - 1, by omega⟩
    have hj := List.getElem?_eq_getElem (show j < insns.length by omega)
    rw [between_succ (by omega) hj, List.head?_cons, Option.all_some]
    constructor
    · intro hp j' b hj' _ hb
      obtain rfl := Nat.succ.inj hj'
      obtain rfl := Option.some.inj (hj.symm.trans hb)
      exact hp
    · intro h
      exact h j _ rfl (by omega) hj
  · rw [between_prologueLength, List.head?_nil, Option.all_none]
    refine ⟨fun _ j b hj hle _ => ?_, fun _ => rfl⟩
    omega

/-! ## Each policy -/

/-- **The candidates by distinct lines** are the first instructions of their lines behind the
prologue. -/
theorem mem_indices_distinctLines {k : Nat} :
    k ∈ distinctLines.indices isa insns ↔
      prologueLength isa insns ≤ k ∧ ∃ i, insns[k]? = some i ∧
        ∀ j b, prologueLength isa insns ≤ j → j < k → insns[j]? = some b → b.line ≠ i.line := by
  rw [mem_indices]
  refine and_congr_right fun _ => exists_congr fun i => and_congr_right fun _ => ?_
  simp only [admits, List.all_eq_true, mem_between, decide_eq_true_eq]
  constructor
  · intro h j b hle hlt hb
    exact h b ⟨j, hle, hlt, hb⟩
  · rintro h b ⟨j, hle, hlt, hb⟩
    exact h j b hle hlt hb

/-- **The candidates by line starts** are the first instructions of the runs on one line behind the
prologue. -/
theorem mem_indices_lineStarts {k : Nat} :
    k ∈ lineStarts.indices isa insns ↔
      prologueLength isa insns ≤ k ∧ ∃ i, insns[k]? = some i ∧
        ∀ j b, k = j + 1 → prologueLength isa insns ≤ j → insns[j]? = some b →
          b.line ≠ i.line := by
  rw [mem_indices]
  refine and_congr_right fun hk => exists_congr fun i => and_congr_right fun hi => ?_
  have hlen := Nat.le_of_lt (List.getElem?_eq_some_iff.1 hi).1
  simp only [admits, all_head?_between hk hlen, decide_eq_true_eq]

/-- What jumps lead to. -/
lemma mem_landings {target : Nat} :
    target ∈ landings isa insns ↔ ∃ (l : Nat) (o : Instruction), insns[l]? = some o ∧ (isa.classOf o).isJump = true ∧
      isa.jumpTarget o = some target := by
  rw [landings, List.mem_filterMap]
  constructor
  · rintro ⟨o, ho, htarget⟩
    split_ifs at htarget with hc
    obtain ⟨l, hl⟩ := List.getElem?_of_mem ho
    exact ⟨l, o, hl, hc, htarget⟩
  · rintro ⟨l, o, hl, hc, htarget⟩
    exact ⟨o, List.mem_of_getElem? hl, by rw [if_pos hc, htarget]⟩

/-- **The candidates by block leaders** are the entry, what stands behind an instruction that
branches, and what a jump leads to, if offsets increase. -/
theorem mem_indices_blockLeaders (hoffsets : Instruction.Increasing insns) {k : Nat} :
    k ∈ blockLeaders.indices isa insns ↔
      prologueLength isa insns ≤ k ∧ ∃ i, insns[k]? = some i ∧
        (k = prologueLength isa insns ∨
          (∃ j b, k = j + 1 ∧ insns[j]? = some b ∧ (isa.classOf b).branches = true) ∨
          ∃ (l : Nat) (o : Instruction), insns[l]? = some o ∧ (isa.classOf o).isJump = true ∧
            isa.jumpTarget o = some i.offset.toNat) := by
  rw [mem_indices]
  refine and_congr_right fun hk => exists_congr fun i => and_congr_right fun hi => ?_
  have hlen := (List.getElem?_eq_some_iff.1 hi).1
  -- Offsets increase, so no later instruction stands at this offset.
  have hlast : (insns.drop (k + 1)).all (fun a => a.offset ≠ i.offset) = true := by
    rw [List.all_eq_true]
    intro a ha
    obtain ⟨l, hl⟩ := List.getElem?_of_mem ha
    rw [List.getElem?_drop] at hl
    have hlt := hoffsets.offset_lt hi hl (by omega)
    exact decide_eq_true fun heq => Nat.ne_of_gt hlt (congrArg UInt32.toNat heq)
  simp only [admits, Bool.or_eq_true, Bool.and_eq_true, hlast, and_true, List.contains_iff_mem,
    mem_landings, all_head?_between hk (Nat.le_of_lt hlen)]
  rw [← or_assoc]
  refine or_congr_left ?_
  constructor
  · intro h
    rcases Nat.lt_or_eq_of_le hk with hlt | heq
    · obtain ⟨j, rfl⟩ : ∃ j, k = j + 1 := ⟨k - 1, by omega⟩
      have hj := List.getElem?_eq_getElem (show j < insns.length by omega)
      exact .inr ⟨j, _, rfl, hj, h j _ rfl (by omega) hj⟩
    · exact .inl heq.symm
  · rintro (rfl | ⟨j, b, rfl, hb, hbranches⟩) j' b' hj' hle hb'
    · omega
    · obtain rfl := Nat.succ.inj hj'
      obtain rfl := Option.some.inj (hb.symm.trans hb')
      exact hbranches

end CandidatePolicy

/-! ## Sites -/

/-- Where a sampler keeps all candidates, the sites are the candidates. -/
lemma sitesOf_eq_map_index {found : List Candidate} {kept : List Nat}
    (hfound : found.Pairwise (·.index < ·.index))
    (h : ∀ position < found.length, position ∈ kept) :
    sitesOf found kept = found.map (·.index) := by
  have hall : (found.zipIdx.filter fun p => kept.contains p.2) = found.zipIdx := by
    rw [List.filter_eq_self]
    rintro ⟨c, position⟩ hc
    obtain ⟨hlt, -⟩ := List.mem_zipIdx' hc
    exact List.contains_iff_mem.2 (h position hlt)
  have hfst : found.zipIdx.map (·.1.index) = (found.zipIdx.map Prod.fst).map (·.index) := by
    rw [List.map_map]
    rfl
  rw [sitesOf_eq_filter hfound, hall, hfst, List.zipIdx_map_fst]

end CoverProbe
