import CoverProbe.Proofs.Probe.Probability
import CoverProbe.Proofs.Probe.Selection

set_option relaxedAutoImplicit false
set_option autoImplicit false

/-!
# How many draws a sampler makes

The samplers that settings describe make a number of draws that is known before they decide
anything: it depends on how many candidates there are, and never on which of them are kept. A
probability of one takes none.

How truth values and numbers are drawn is not known here. What is relied on is stated as laws
(`CoverProbe.Drawing.Lawful`): that a draw is counted once, that what is certain is not drawn, and
that a number lies between the bounds given. They are laws about probabilities only, and samplers
ask for nothing else, whatever the settings are.

## Main definitions

* `CoverProbe.Drawing.Lawful` — what is relied on of draws.
* `CoverProbe.Sampling.asked` — the candidates that are kept or not by a draw.
* `CoverProbe.Sampling.Drawn` — the density that a sampler draws.
* `CoverProbe.Sampling.draws` — the draws that a sampler makes.
* `CoverProbe.Sampling.Keeps` — positions kept in order, the entry among them if it is to be.

## Main results

* `CoverProbe.Sampling.draws_sampler` — a sampler makes its draws.
* `CoverProbe.Sampling.keeps_sampler` — what a sampler keeps.
-/

namespace CoverProbe

/-! ## Draws -/

namespace Drawing

/-- What is relied on when truth values and numbers are drawn from a counted source. -/
structure Lawful (σ : Type) [Drawing (Counted σ)] : Prop where
  /-- What is certain is not drawn. -/
  draws_certain : ∀ c : Counted σ, ((chance .one).run c).2.draws = c.draws
  /-- A truth value of any other probability is one draw. -/
  draws_chance : ∀ (p : Binary64) (c : Counted σ), p.IsProbability → p ≠ .one →
    ((chance p).run c).2.draws = c.draws + 1
  /-- A number of the unit interval is one draw. -/
  draws_between : ∀ (low high : Binary64) (c : Counted σ), low.IsProbability →
    high.IsProbability → low ≤ high → ((between low high).run c).2.draws = c.draws + 1
  /-- It lies between its bounds. -/
  bounds : ∀ (low high : Binary64) (c : Counted σ), low.IsProbability → high.IsProbability →
    low ≤ high → low ≤ ((between low high).run c).1 ∧ ((between low high).run c).1 ≤ high

/-- The draws that `n` truth values of probability `p` take. -/
def toll (p : Binary64) (n : Nat) : Nat :=
  if p = .one then 0 else n

/-- The draws for truth values of one probability add up. -/
lemma toll_add (p : Binary64) (m n : Nat) : toll p (m + n) = toll p m + toll p n := by
  rw [toll, toll, toll]
  split_ifs
  · rfl
  · rfl

/-- No truth value takes no draw. -/
lemma toll_zero (p : Binary64) : toll p 0 = 0 := by
  rw [toll, ite_self]

variable {σ : Type} [Drawing (Counted σ)]

/-- A truth value takes one draw, or none if it is certain. -/
lemma Lawful.draws_toll (laws : Lawful σ) {p : Binary64} (hp : p.IsProbability)
    (c : Counted σ) : ((Drawing.chance p).run c).2.draws = c.draws + toll p 1 := by
  rw [toll]
  split_ifs with hone
  · rw [hone]
    exact laws.draws_certain c
  · exact laws.draws_chance p c hp hone

/-- A number drawn between probabilities is one. -/
lemma Lawful.isProbability_between (laws : Lawful σ) {low high : Binary64}
    (hlow : low.IsProbability) (hhigh : high.IsProbability) (hle : low ≤ high) (c : Counted σ) :
    ((Drawing.between low high).run c).1.IsProbability := by
  obtain ⟨hleast, hmost⟩ := laws.bounds low high c hlow hhigh hle
  exact ⟨Binary64.le_trans hlow.1 hleast, Binary64.le_trans hmost hhigh.2⟩

end Drawing

namespace Sampling

/-! ## Draws of samplers -/

/-- The number of candidates, out of `count`, that are kept or not by a draw: all of them, but for
the entry if this is kept anyway. -/
def asked (entry : Bool) (count : Nat) : Nat :=
  if entry then count - 1 else count

/-- Of no candidates none is asked for. -/
lemma asked_zero (entry : Bool) : asked entry 0 = 0 := by
  cases entry with
  | false => rfl
  | true => rfl

/-- The draws that a sampler makes for `count` candidates, `d` being the density that it draws, if
it draws one. A given probability is certain if it is one or lies above one. -/
def draws (sampling : Sampling) (entry : Bool) (count : Nat) (d : Binary64) : Nat :=
  match sampling with
  | all => 0
  | bernoulli keep => if .one ≤ keep then 0 else asked entry count
  | density _ _ => if count = 0 then 0 else 1 + Drawing.toll d (asked entry count)

/-- Without candidates a sampler makes no draws. -/
lemma draws_zero (sampling : Sampling) (entry : Bool) (d : Binary64) :
    sampling.draws entry 0 d = 0 := by
  cases sampling with
  | all => rfl
  | bernoulli keep => rw [draws, asked_zero, ite_self]
  | density low high => rfl

/-- A given probability takes the draws of the probability that it stands for. -/
lemma draws_bernoulli (keep : Binary64) (entry : Bool) (count : Nat) (d : Binary64) :
    (bernoulli keep).draws entry count d =
      Drawing.toll (probability keep) (asked entry count) := by
  simp only [draws, Drawing.toll, (clamps_probability keep).eq_one_iff]

section Runs

variable {ρ : Type} [Drawing ρ]

/-- The density that a sampler draws first from the source `s`: a number between the bounds that
settings give. A sampler without a density draws none, and any number stands for it. -/
def Drawn : Sampling → ρ → Binary64 → Prop
  | density low high, s, d =>
    ∃ least most, Bounds low high least most ∧ d = ((Drawing.between least most).run s).1
  | all, _, _ | bernoulli _, _, _ => True

/-- Every source yields a density. -/
lemma exists_drawn (sampling : Sampling) (s : ρ) : ∃ d, sampling.Drawn s d := by
  cases sampling with
  | all => exact ⟨.one, trivial⟩
  | bernoulli keep => exact ⟨.one, trivial⟩
  | density low high => exact ⟨_, _, _, bounds_iff.2 ⟨rfl, rfl⟩, rfl⟩

/-- One step of the pass over candidates. -/
lemma run_keepFrom_cons (entry : Bool) (p : Binary64) (index : Nat) (c : Candidate)
    (rest : List Candidate) (s : ρ) :
    (keepFrom entry p index (c :: rest)).run s =
      let kept := if entry && c.entry then (true, s) else (Drawing.chance p).run s
      let more := (keepFrom entry p (index + 1) rest).run kept.2
      (if kept.1 then index :: more.1 else more.1, more.2) := by
  rw [keepFrom]
  by_cases hc : (entry && c.entry) = true
  · rw [if_pos hc, if_pos hc]
    rfl
  · rw [if_neg hc, if_neg hc]
    rfl

/-- A density is drawn before the candidates are passed. -/
lemma run_sampler_density (low high : Binary64) (entry : Bool) (c : Candidate)
    (rest : List Candidate) (s : ρ) :
    (sampler (density low high) entry (c :: rest)).run s =
      let first := (Drawing.between (probability (lesser low high))
        (probability (greater low high))).run s
      (keepFrom entry first.1 0 (c :: rest)).run first.2 := rfl

end Runs

/-- Of the candidates of a stream only the first is an entry. -/
lemma countP_candidates (policy : CandidatePolicy) (isa : InstructionSet)
    (insns : List Instruction) (entry : Bool) :
    ((policy.candidates isa insns).countP fun c => !(entry && c.entry)) =
      asked entry (policy.candidates isa insns).length := by
  cases entry with
  | false => simp [asked]
  | true =>
    rcases Nat.lt_or_ge (prologueLength isa insns) insns.length with hlt | hge
    · obtain ⟨c, more, hfound, -, hentry, hmore⟩ := CandidatePolicy.candidates_eq_cons policy hlt
      have hall : more.countP (fun d => !(true && d.entry)) = more.length :=
        List.countP_eq_length.2 fun d hd => by simp [hmore d hd]
      rw [hfound, List.countP_cons, hall, hentry]
      rfl
    · rw [CandidatePolicy.candidates_eq_nil hge]
      rfl

section Counts

variable {σ : Type} [Drawing (Counted σ)] (laws : Drawing.Lawful σ)
include laws

/-- Every candidate that is not kept anyway takes the draw of one truth value. -/
lemma draws_keepFrom {p : Binary64} (hp : p.IsProbability) (entry : Bool) (index : Nat)
    (found : List Candidate) (s : Counted σ) :
    ((keepFrom entry p index found).run s).2.draws =
      s.draws + Drawing.toll p (found.countP fun c => !(entry && c.entry)) := by
  induction found generalizing index s with
  | nil =>
    rw [List.countP_nil, Drawing.toll_zero]
    rfl
  | cons c rest ih =>
    rw [run_keepFrom_cons, List.countP_cons]
    dsimp only
    rw [ih]
    by_cases hc : (entry && c.entry) = true
    · rw [if_pos hc, hc]
      rfl
    · have hasked : (!(entry && c.entry)) = true := by
        rw [Bool.not_eq_true] at hc
        rw [hc]
        rfl
      rw [if_neg hc, laws.draws_toll hp, if_pos hasked, Drawing.toll_add]
      omega

/-- **A sampler makes its draws**, which the number of candidates determines and, for a density, the
first of them. -/
theorem draws_sampler (sampling : Sampling) (entry : Bool) (policy : CandidatePolicy)
    (isa : InstructionSet) (insns : List Instruction) {s : Counted σ} {d : Binary64}
    (hd : sampling.Drawn s d) :
    ((sampling.sampler entry (policy.candidates isa insns)).run s).2.draws =
      s.draws + sampling.draws entry (policy.candidates isa insns).length d := by
  have hasked := countP_candidates policy isa insns entry
  generalize policy.candidates isa insns = found at hasked ⊢
  cases found with
  | nil =>
    rw [List.length_nil, draws_zero]
    rfl
  | cons c rest =>
    cases sampling with
    | all => rfl
    | bernoulli keep =>
      rw [sampler, draws_keepFrom laws (clamps_probability keep).isProbability, hasked,
        draws_bernoulli]
    | density low high =>
      obtain ⟨least, most, hbounds, hdrawn⟩ := hd
      obtain ⟨hleast, hmost, hle⟩ := hbounds.le
      obtain ⟨rfl, rfl⟩ := bounds_iff.1 hbounds
      have hp := laws.isProbability_between hleast hmost hle s
      rw [run_sampler_density]
      dsimp only
      rw [draws_keepFrom laws hp, laws.draws_between _ _ _ hleast hmost hle, hasked, ← hdrawn, draws,
        if_neg (by simp), Nat.add_assoc]

end Counts

/-! ## What samplers keep -/

/-- Positions kept out of candidates counted from `index` on: in order, of candidates there are, and
of the entry, if this is kept anyway. -/
structure Keeps (entry : Bool) (index : Nat) (found : List Candidate) (kept : List Nat) : Prop where
  increasing : kept.Pairwise (· < ·)
  bounds : ∀ k ∈ kept, index ≤ k ∧ k < index + found.length
  entry : entry = true → ∀ k c, found[k]? = some c → c.entry = true → index + k ∈ kept

/-- Of no candidates nothing is kept. -/
lemma Keeps.nil {entry : Bool} {index : Nat} : Keeps entry index [] [] :=
  ⟨.nil, by simp, by simp⟩

/-- One candidate more, in front: it is kept or not, and if it is the entry it is kept anyway. -/
lemma Keeps.cons {entry kept : Bool} {index : Nat} {c : Candidate} {rest : List Candidate}
    {more : List Nat} (h : Keeps entry (index + 1) rest more)
    (hkept : entry = true → c.entry = true → kept = true) :
    Keeps entry index (c :: rest) (if kept then index :: more else more) := by
  have hmore : ∀ k ∈ more, index < k ∧ k < index + (c :: rest).length := by
    intro k hk
    have := h.bounds k hk
    rw [List.length_cons]
    omega
  refine ⟨?_, ?_, ?_⟩
  · split_ifs
    · exact List.pairwise_cons.2 ⟨fun k hk => (hmore k hk).1, h.increasing⟩
    · exact h.increasing
  · intro k hk
    split_ifs at hk
    · rcases List.mem_cons.1 hk with rfl | hk
      · simp
      · exact ⟨(hmore k hk).1.le, (hmore k hk).2⟩
    · exact ⟨(hmore k hk).1.le, (hmore k hk).2⟩
  · intro he k d hd hentry
    cases k with
    | zero =>
      obtain rfl := Option.some.inj hd
      rw [if_pos (hkept he hentry)]
      exact List.mem_cons_self
    | succ k =>
      have hmem := h.entry he k d hd hentry
      rw [Nat.add_assoc, Nat.add_comm 1] at hmem
      split_ifs
      · exact List.mem_cons_of_mem _ hmem
      · exact hmem

variable {ρ : Type} [Drawing ρ]

/-- What a pass over candidates keeps. -/
lemma keeps_keepFrom (entry : Bool) (p : Binary64) (index : Nat) (found : List Candidate) (s : ρ) :
    Keeps entry index found ((keepFrom entry p index found).run s).1 := by
  induction found generalizing index s with
  | nil => exact .nil
  | cons c rest ih =>
    rw [run_keepFrom_cons]
    dsimp only
    refine (ih (index + 1) _).cons fun he hentry => ?_
    rw [if_pos (by simp [he, hentry])]

/-- **What a sampler keeps** stands in order, and the entry is kept if it is to be. -/
theorem keeps_sampler (sampling : Sampling) (entry : Bool) (found : List Candidate) (s : ρ) :
    Keeps entry 0 found ((sampling.sampler entry found).run s).1 := by
  cases found with
  | nil => exact .nil
  | cons c rest =>
    cases sampling with
    | all =>
      refine ⟨List.pairwise_lt_range, fun k hk => ?_, fun _ k d hd _ => ?_⟩
      · rw [Nat.zero_add, List.length_cons]
        exact ⟨Nat.zero_le _, List.mem_range.1 hk⟩
      · rw [Nat.zero_add]
        exact List.mem_range.2 (List.getElem?_eq_some_iff.1 hd).1
    | bernoulli keep =>
      rw [sampler]
      exact keeps_keepFrom ..
    | density low high =>
      rw [run_sampler_density]
      exact keeps_keepFrom ..

end Sampling

end CoverProbe
