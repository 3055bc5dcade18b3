import Mathlib.Data.List.Sort
import Mathlib.Tactic.Lemma
import Mathlib.Tactic.SplitIfs
import CoverProbe.Probe.Sampler

set_option relaxedAutoImplicit false
set_option autoImplicit false

/-!
# Sites

Whatever a sampler keeps, the sites of a stream are candidates, each once and in order, and
candidates are instructions of the stream behind its prologue. A sampler may name candidates in any
order and several times; since candidates are found in order, sorting what it names comes to
filtering them.

## Main results

* `CoverProbe.CandidatePolicy.bounds_of_mem_candidates` — where candidates stand.
* `CoverProbe.mem_sitesOf` — sites are the candidates that a sampler names.
* `CoverProbe.sitesOf_eq_filter` — sites as a filter of candidates.
* `CoverProbe.exists_candidate_of_mem_sites` — sites are candidates.
* `CoverProbe.pairwise_sites` — sites stand in order.
* `CoverProbe.length_sites_le` — there are no more sites than candidates.
-/

namespace CoverProbe

namespace CandidatePolicy

variable {policy : CandidatePolicy} {isa : InstructionSet} {insns : List Instruction}
  {c : Candidate}

/-- Candidates are counted as the instructions are. -/
lemma bounds_of_mem_candidatesFrom {landings : List Nat} {index : Nat} {before : List Instruction}
    (h : c ∈ policy.candidatesFrom isa landings index before insns) :
    index ≤ c.index ∧ c.index < index + insns.length := by
  induction insns generalizing index before with
  | nil => simp [candidatesFrom] at h
  | cons i rest ih =>
    rw [List.length_cons]
    rw [candidatesFrom] at h
    have hmore : c ∈ policy.candidatesFrom isa landings (index + 1) (i :: before) rest →
        index ≤ c.index ∧ c.index < index + (rest.length + 1) := by
      intro hc
      have := ih hc
      omega
    split_ifs at h with ha
    · rcases List.mem_cons.1 h with rfl | h
      · exact ⟨Nat.le_refl _, Nat.lt_add_of_pos_right (Nat.succ_pos _)⟩
      · exact hmore h
    · exact hmore h

/-- **Candidates stand behind the prologue**, in the stream. -/
theorem bounds_of_mem_candidates (h : c ∈ policy.candidates isa insns) :
    prologueLength isa insns ≤ c.index ∧ c.index < insns.length := by
  have hbounds := bounds_of_mem_candidatesFrom h
  rw [List.length_drop] at hbounds
  omega

/-- Candidates are found in order. -/
lemma pairwise_candidatesFrom {landings : List Nat} {index : Nat} {before : List Instruction} :
    (policy.candidatesFrom isa landings index before insns).Pairwise (·.index < ·.index) := by
  induction insns generalizing index before with
  | nil => exact List.Pairwise.nil
  | cons i rest ih =>
    rw [candidatesFrom]
    split_ifs with ha
    · refine List.pairwise_cons.2 ⟨fun c hc => ?_, ih⟩
      exact (bounds_of_mem_candidatesFrom hc).1
    · exact ih

end CandidatePolicy

/-! ## Order and repetitions -/

/-- Putting numbers into a list in order, one by one, sorts them. -/
lemma foldr_putInOrder (ks : List Nat) : ks.foldr putInOrder [] = ks.insertionSort (· ≤ ·) := by
  have hput : ∀ k ks, putInOrder k ks = ks.orderedInsert (· ≤ ·) k := by
    intro k ks
    induction ks with
    | nil => rfl
    | cons j rest ih => rw [putInOrder, List.orderedInsert_cons, ih]
  induction ks with
  | nil => rfl
  | cons k rest ih => rw [List.foldr_cons, ih, hput, List.insertionSort_cons]

/-- A number that is repeated stays. -/
lemma mem_withoutRepeats {j : Nat} {ks : List Nat} : j ∈ withoutRepeats ks ↔ j ∈ ks := by
  induction ks with
  | nil => rfl
  | cons k rest ih =>
    rw [withoutRepeats]
    split_ifs with hhead
    · rw [ih, List.mem_cons]
      refine ⟨.inr, fun h => h.elim (fun heq => ?_) id⟩
      rw [heq]
      exact List.mem_of_head? hhead
    · rw [List.mem_cons, List.mem_cons, ih]

/-- In a sorted list repetitions stand next to each other, so none are left. -/
lemma pairwise_withoutRepeats {ks : List Nat} (h : ks.Pairwise (· ≤ ·)) :
    (withoutRepeats ks).Pairwise (· < ·) := by
  induction ks with
  | nil => exact .nil
  | cons k rest ih =>
    obtain ⟨hk, hrest⟩ := List.pairwise_cons.1 h
    rw [withoutRepeats]
    split_ifs with hhead
    · exact ih hrest
    · refine List.pairwise_cons.2 ⟨fun j hj => ?_, ih hrest⟩
      rw [mem_withoutRepeats] at hj
      -- The first of the rest is not `k`, and no other is less than it.
      cases rest with
      | nil => exact absurd hj List.not_mem_nil
      | cons l more =>
        have hl : k < l := by
          refine Nat.lt_of_le_of_ne (hk l List.mem_cons_self) fun heq => hhead ?_
          rw [heq, List.head?_cons]
        rcases List.mem_cons.1 hj with rfl | hj
        · exact hl
        · exact Nat.lt_of_lt_of_le hl ((List.pairwise_cons.1 hrest).1 j hj)

/-! ## Sites -/

/-- **Sites are the candidates that the sampler names**; a position at which there is no candidate
names none. -/
theorem mem_sitesOf {found : List Candidate} {kept : List Nat} {k : Nat} :
    k ∈ sitesOf found kept ↔ ∃ position ∈ kept, ∃ c, found[position]? = some c ∧ c.index = k := by
  rw [sitesOf, foldr_putInOrder, mem_withoutRepeats, List.mem_insertionSort, List.mem_filterMap]
  simp only [Option.map_eq_some_iff]

/-- **Sites stand in order**, none of them twice, whatever the sampler names. -/
lemma pairwise_sitesOf (found : List Candidate) (kept : List Nat) :
    (sitesOf found kept).Pairwise (· < ·) := by
  rw [sitesOf, foldr_putInOrder]
  exact pairwise_withoutRepeats (List.pairwise_insertionSort _ _)

/-- **Sorting comes to filtering**: of candidates in order, those named are the sites. -/
theorem sitesOf_eq_filter {found : List Candidate} (h : found.Pairwise (·.index < ·.index))
    (kept : List Nat) :
    sitesOf found kept =
      (found.zipIdx.filter fun p => kept.contains p.2).map (·.1.index) := by
  have hzip : found.zipIdx.Pairwise (·.1.index < ·.1.index) := by
    rw [← List.zipIdx_map_fst 0 found, List.pairwise_map] at h
    exact h
  refine (pairwise_sitesOf found kept).eq_of_mem_iff (List.pairwise_map.2 (hzip.filter _))
    fun k => ?_
  simp only [mem_sitesOf, List.mem_map, List.mem_filter, List.contains_iff_mem, Prod.exists,
    List.mk_mem_zipIdx_iff_getElem?]
  constructor
  · rintro ⟨position, hkept, c, hc, rfl⟩
    exact ⟨c, position, ⟨hc, hkept⟩, rfl⟩
  · rintro ⟨c, position, ⟨hc, hkept⟩, rfl⟩
    exact ⟨position, hkept, c, hc, rfl⟩

/-- What a sampler keeps are candidates. -/
lemma exists_candidate_of_mem_sitesOf {found : List Candidate} {kept : List Nat} {k : Nat}
    (h : k ∈ sitesOf found kept) : ∃ c ∈ found, c.index = k := by
  obtain ⟨position, -, c, hc, rfl⟩ := mem_sitesOf.1 h
  exact ⟨c, List.mem_of_getElem? hc, rfl⟩

/-- **Sites are candidates**, whatever the sampler draws. -/
theorem exists_candidate_of_mem_sites {ρ : Type} {isa : InstructionSet} {insns : List Instruction}
    {policy : CandidatePolicy} {entryOnly : Bool} {sampler : Sampler ρ} {s : ρ} {k : Nat}
    (h : k ∈ ((selectSites isa insns policy entryOnly sampler).run s).1.2) :
    ∃ c ∈ policy.candidates isa insns, c.index = k := by
  cases entryOnly with
  | true =>
    obtain ⟨c, hc, rfl⟩ := List.mem_map.1 h
    exact ⟨c, (List.mem_filter.1 hc).1, rfl⟩
  | false => exact exists_candidate_of_mem_sitesOf h

/-- **Sites stand in order**, whatever the sampler draws: none of them comes twice. -/
theorem pairwise_sites {ρ : Type} {isa : InstructionSet} {insns : List Instruction}
    {policy : CandidatePolicy} {entryOnly : Bool} {sampler : Sampler ρ} {s : ρ} :
    ((selectSites isa insns policy entryOnly sampler).run s).1.2.Pairwise (· < ·) := by
  cases entryOnly with
  | true => exact List.pairwise_map.2 (CandidatePolicy.pairwise_candidatesFrom.filter _)
  | false => exact pairwise_sitesOf _ _

/-! ## Counts -/

/-- A sampler keeps no more candidates than there are. -/
lemma length_sitesOf_le (found : List Candidate) (kept : List Nat) :
    (sitesOf found kept).length ≤ found.length := by
  have hnodup : (sitesOf found kept).Nodup := (pairwise_sitesOf found kept).imp Nat.ne_of_lt
  have hsubset : sitesOf found kept ⊆ found.map (·.index) := by
    intro k hk
    obtain ⟨c, hc, rfl⟩ := exists_candidate_of_mem_sitesOf hk
    exact List.mem_map_of_mem hc
  have hle := (List.subperm_of_subset hnodup hsubset).length_le
  rwa [List.length_map] at hle

variable {ρ : Type} {isa : InstructionSet} {policy : CandidatePolicy} {entryOnly : Bool}
  {sampler : Sampler ρ} {s : ρ}

/-- **There are no more sites than candidates.** -/
theorem length_sites_le (insns : List Instruction) :
    ((selectSites isa insns policy entryOnly sampler).run s).1.2.length ≤
      ((selectSites isa insns policy entryOnly sampler).run s).1.1 := by
  cases entryOnly with
  | true => exact Nat.le_of_eq rfl
  | false => exact length_sitesOf_le _ _

/-- Where there are no instructions, there are neither candidates nor sites. -/
lemma selectSites_nil : ((selectSites isa [] policy entryOnly sampler).run s).1 = (0, []) := by
  cases entryOnly with
  | true => rfl
  | false =>
    have hnone := length_sitesOf_le [] ((sampler []).run s).1
    exact Prod.ext rfl (List.eq_nil_of_length_eq_zero (Nat.le_zero.1 hnone))

end CoverProbe
