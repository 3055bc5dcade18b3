import CoverProbe.Proofs.Probe.Candidates

set_option relaxedAutoImplicit false
set_option autoImplicit false

/-!
# What selection comes to

Under every policy the candidates of a stream stand in order behind its prologue, and the entry is
the first of them. So whatever a sampler names, in whatever order, how often, and whether or not
there is a candidate at the position, the sites are the candidates named, each once and in order.

## Main definitions

* `CoverProbe.Candidate.Describes` — a candidate tells the truth about its instruction.
* `CoverProbe.Queue` — candidates in order behind a prologue, the entry first.

## Main results

* `CoverProbe.CandidatePolicy.queue_candidates` — candidates form a queue.
* `CoverProbe.run_selectSites_false` — selection asks the sampler once.
* `CoverProbe.run_selectSites_true` — selection at the entry only.
-/

namespace CoverProbe

/-! ## Queues -/

/-- The candidate is an instruction of the stream and tells its offset and its line. -/
def Candidate.Describes (c : Candidate) (insns : List Instruction) : Prop :=
  ∃ i, insns[c.index]? = some i ∧ c.offset = i.offset ∧ c.line = i.line

/-- Candidates that stand in order behind the prologue of a stream, the first of which is the entry,
and no other. -/
structure Queue (isa : InstructionSet) (insns : List Instruction) (found : List Candidate) :
    Prop where
  describes : ∀ c ∈ found, c.Describes insns
  increasing : found.Pairwise (·.index < ·.index)
  behind : ∀ c ∈ found, prologueLength isa insns ≤ c.index
  entry : ∀ k c, found[k]? = some c → (c.entry = true ↔ k = 0)
  /-- The first candidate is the first instruction behind the prologue. -/
  first : ∀ c ∈ found.head?, c.index = prologueLength isa insns

namespace CandidatePolicy

variable {policy : CandidatePolicy} {isa : InstructionSet} {insns : List Instruction}

/-- Candidates describe the instructions that the pass meets. -/
lemma describes_of_mem_candidatesFrom {landings : List Nat} {index : Nat}
    {before after : List Instruction} {c : Candidate}
    (h : c ∈ policy.candidatesFrom isa landings index before after)
    (hat : insns.drop index = after) : c.Describes insns := by
  induction after generalizing index before with
  | nil => simp [candidatesFrom] at h
  | cons i rest ih =>
    have hget : insns[index]? = some i := by
      rw [← List.head?_drop, hat, List.head?_cons]
    have hrest : insns.drop (index + 1) = rest := by
      rw [← List.tail_drop, hat, List.tail_cons]
    rw [candidatesFrom] at h
    split_ifs at h with ha
    · rcases List.mem_cons.1 h with rfl | h
      · exact ⟨i, hget, rfl, rfl⟩
      · exact ih h hrest
    · exact ih h hrest

/-- Behind an instruction that the pass has met there is no entry. -/
lemma entry_eq_false_of_mem_candidatesFrom {landings : List Nat} {index : Nat}
    {before after : List Instruction} {c : Candidate} (hbefore : before ≠ [])
    (h : c ∈ policy.candidatesFrom isa landings index before after) : c.entry = false := by
  induction after generalizing index before with
  | nil => simp [candidatesFrom] at h
  | cons i rest ih =>
    rw [candidatesFrom] at h
    split_ifs at h with ha
    · rcases List.mem_cons.1 h with rfl | h
      · simpa using hbefore
      · exact ih (List.cons_ne_nil _ _) h
    · exact ih (List.cons_ne_nil _ _) h

/-- Without an instruction behind the prologue there are no candidates. -/
lemma candidates_eq_nil (h : insns.length ≤ prologueLength isa insns) :
    policy.candidates isa insns = [] := by
  rw [candidates, List.drop_eq_nil_of_le h, candidatesFrom]

/-- The first instruction behind the prologue is the first candidate and the entry, and no other
candidate is. -/
lemma candidates_eq_cons (policy : CandidatePolicy)
    (h : prologueLength isa insns < insns.length) :
    ∃ c more, policy.candidates isa insns = c :: more ∧ c.index = prologueLength isa insns ∧
      c.entry = true ∧ ∀ d ∈ more, d.entry = false := by
  have hdrop := List.drop_eq_getElem_cons h
  generalize insns[prologueLength isa insns] = i at hdrop
  generalize insns.drop (prologueLength isa insns + 1) = after at hdrop
  have hfound : policy.candidates isa insns =
      ⟨prologueLength isa insns, i.offset, i.line, true⟩ ::
        policy.candidatesFrom isa (landings isa insns) (prologueLength isa insns + 1) [i]
          after := by
    rw [candidates, hdrop, candidatesFrom, if_pos admits_nil]
    rfl
  exact ⟨_, _, hfound, rfl, rfl,
    fun d hd => entry_eq_false_of_mem_candidatesFrom (List.cons_ne_nil _ _) hd⟩

/-- **Candidates form a queue**, under every policy. -/
theorem queue_candidates (policy : CandidatePolicy) (isa : InstructionSet)
    (insns : List Instruction) : Queue isa insns (policy.candidates isa insns) := by
  refine ⟨fun c hc => describes_of_mem_candidatesFrom hc rfl, pairwise_candidatesFrom,
    fun c hc => (bounds_of_mem_candidates hc).1, ?_, ?_⟩
  · intro k c hc
    rcases Nat.lt_or_ge (prologueLength isa insns) insns.length with hlt | hge
    · obtain ⟨d, more, hfound, -, hentry, hmore⟩ := candidates_eq_cons policy hlt
      rw [hfound] at hc
      cases k with
      | zero =>
        obtain rfl := Option.some.inj hc
        simp [hentry]
      | succ k =>
        have := hmore c (List.mem_of_getElem? hc)
        simp [this]
    · rw [candidates_eq_nil hge] at hc
      simp at hc
  · intro c hc
    rcases Nat.lt_or_ge (prologueLength isa insns) insns.length with hlt | hge
    · obtain ⟨d, more, hfound, hindex, -, -⟩ := candidates_eq_cons policy hlt
      rw [hfound] at hc
      obtain rfl := Option.some.inj hc
      exact hindex
    · rw [candidates_eq_nil hge] at hc
      simp at hc

end CandidatePolicy

/-! ## Selection -/

variable {ρ : Type} {isa : InstructionSet} {insns : List Instruction} {policy : CandidatePolicy}
  {sampler : Sampler ρ} {s : ρ}

/-- Selection asks the sampler once, for all candidates. -/
lemma run_selectSites_false : (selectSites isa insns policy false sampler).run s =
    (((policy.candidates isa insns).length,
      sitesOf (policy.candidates isa insns) ((sampler (policy.candidates isa insns)).run s).1),
      ((sampler (policy.candidates isa insns)).run s).2) := rfl

/-- **Selection at the entry only** keeps the first instruction behind the prologue, if there is
one, and does not ask the sampler. -/
theorem run_selectSites_true : (selectSites isa insns policy true sampler).run s =
    (if prologueLength isa insns < insns.length then (1, [prologueLength isa insns]) else (0, []),
      s) := by
  have hrun : (selectSites isa insns policy true sampler).run s =
      (((((policy.candidates isa insns).filter (·.entry)).map (·.index)).length,
        ((policy.candidates isa insns).filter (·.entry)).map (·.index)), s) := rfl
  rw [hrun]
  split_ifs with hlt
  · obtain ⟨c, more, hfound, hindex, hentry, hmore⟩ :=
      CandidatePolicy.candidates_eq_cons policy hlt
    have hnone : more.filter (·.entry) = [] :=
      List.filter_eq_nil_iff.2 fun d hd => by simp [hmore d hd]
    rw [hfound, List.filter_cons_of_pos hentry, hnone, List.map_singleton, hindex]
    rfl
  · rw [CandidatePolicy.candidates_eq_nil (by omega)]
    rfl

end CoverProbe
