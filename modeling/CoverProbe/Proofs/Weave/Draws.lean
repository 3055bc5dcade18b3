import CoverProbe.Proofs.Probe.Draws
import CoverProbe.Proofs.Weave.Body
import CoverProbe.Proofs.Weave.Order

set_option relaxedAutoImplicit false
set_option autoImplicit false

/-!
# How many draws weaving a tree makes

With a sampler that settings describe, the draws that weaving makes from the random source are
counted by the candidates of the units, in the order of weaving, and do not depend on which sites
are kept. So runs that share a source stay aligned. How truth values and numbers are drawn is left
open, but for the laws of `CoverProbe.Drawing.Lawful`.

## Main definitions

* `CoverProbe.Weaver.offered` — the number of candidates offered to the sampler.
* `CoverProbe.Weaver.Passes` — the random sources between the units of a tree.
* `CoverProbe.Weaver.budget` — the draws that the units of a tree take.

## Main results

* `CoverProbe.Weaver.draws_of_body` — the draws that a unit takes.
* `CoverProbe.Weaver.draw_budget` — the draws that a tree takes.
-/

namespace CoverProbe

namespace Weaver

/-! ## Units -/

section Units

/-- The number of candidates of a unit that are offered to the sampler. At the entry of a top-level
module that is probed there only, the sampler is not asked. -/
def offered {ρ : Type} (r : Weaver ρ) (p : Place) : Nat :=
  if p.topLevel && r.topLevel = .entryOnly then 0
  else
    match r.prepare p.unit with
    | .ok insns => (r.policy.candidates r.isa insns).length
    | .error _ => 0

variable {σ : Type} [Drawing (Counted σ)] {r : Weaver (Counted σ)} {sampling : Sampling}
  {entry : Bool}

/-- **The draws that a unit takes** are those of its sampler, whether or not its body can be woven
with the sites drawn. -/
theorem draws_of_body (laws : Drawing.Lawful σ) (hsampler : r.sampler = sampling.sampler entry)
    (p : Place) (unitIndex : UInt32) {s : Counted σ} {d : Binary64} (hd : sampling.Drawn s d) :
    ((r.body p.unit unitIndex p.topLevel).run.run s).2.draws =
      s.draws + sampling.draws entry (r.offered p) d := by
  rw [run_body, offered]
  cases r.prepare p.unit with
  | error cause =>
    dsimp only
    rw [ite_self, Sampling.draws_zero, Nat.add_zero]
  | ok insns =>
    dsimp only
    cases insns with
    | nil =>
      have hnone : (r.policy.candidates r.isa []).length = 0 := by
        rw [CandidatePolicy.candidates_eq_nil (Nat.zero_le _)]
        rfl
      rw [hnone, ite_self, Sampling.draws_zero, Nat.add_zero]
      rfl
    | cons i rest =>
      rw [if_neg (by simp)]
      cases p.topLevel && decide (r.topLevel = .entryOnly) with
      | true =>
        rw [if_pos rfl, run_selectSites_true, Sampling.draws_zero, Nat.add_zero]
      | false =>
        rw [if_neg (by simp), run_selectSites_false, hsampler,
          Sampling.draws_sampler laws _ _ _ _ _ hd]

end Units

/-! ## Trees -/

section Trees

variable {ρ : Type} {r : Weaver ρ}

/-- The bodies of units are woven one after the other, the first of rank `rank`, from the random
source `s` to `s'`; the sources before each of them are `sources`. -/
inductive Passes (r : Weaver ρ) : (rank : Nat) → List Place → ρ → List ρ → ρ → Prop
  | nil {rank : Nat} {s : ρ} : Passes r rank [] s [] s
  | cons {rank : Nat} {p : Place} {rest : List Place} {body : WovenBody} {s s₁ s' : ρ}
      {sources : List ρ}
      (hbody : (r.body p.unit (UInt32.ofNat rank) p.topLevel).run.run s = (.ok body, s₁))
      (hrest : Passes r (rank + 1) rest s₁ sources s') :
      Passes r rank (p :: rest) s (s :: sources) s'

/-- Bodies that are woven in sequence pass the source on. -/
lemma exists_passes {rank : Nat} {places : List Place} {s s' : ρ}
    (h : (r.weaveAll rank places).run.run s = (.ok (), s')) :
    ∃ sources, Passes r rank places s sources s' := by
  induction places generalizing rank s with
  | nil =>
    obtain rfl : s = s' := (Prod.mk.inj h).2
    exact ⟨[], .nil⟩
  | cons p rest ih =>
    rw [weaveAll] at h
    obtain ⟨body, s₁, hbody, hrest⟩ := Checked.run_bind_eq_ok.1 h
    obtain ⟨sources, hpasses⟩ := ih hrest
    exact ⟨s :: sources, .cons (Checked.run_adapt_eq_ok.1 hbody) hpasses⟩

/-- A woven tree passes the source from unit to unit. -/
lemma exists_passes_of_tree {root out : CodeUnit} {topLevel : Bool} {s s' : ρ}
    (h : (r.tree root topLevel).run.run s = (.ok out, s')) :
    ∃ sources, Passes r 0 (root.places topLevel) s sources s' := by
  apply exists_passes
  rw [CodeUnit.places, ← discard_nest, Checked.run_map, ← tree_eq_nest, h]
  rfl

variable {sampling : Sampling} {entry : Bool}

/-- The draws that the units of a tree take, in which the densities `densities` are drawn. With a
given probability they depend on the numbers of candidates only, and there are none if it is one or
lies above one. A density is one draw for each unit that has candidates, and spares the others of
this unit only if it is one. -/
def budget (r : Weaver ρ) (sampling : Sampling) (entry : Bool) (places : List Place)
    (densities : List Binary64) : Nat :=
  match sampling with
  | .all => 0
  | .bernoulli keep =>
    if .one ≤ keep then 0
    else (places.map fun p => Sampling.asked entry (r.offered p)).sum
  | .density _ _ =>
    (places.countP fun p => 0 < r.offered p) +
      (List.zipWith (fun p d => if d = .one then 0 else Sampling.asked entry (r.offered p))
        places densities).sum

/-- No units take no draws. -/
lemma budget_nil : r.budget sampling entry [] [] = 0 := by
  cases sampling with
  | all => rfl
  | bernoulli keep => rw [budget, List.map_nil, List.sum_nil, ite_self]
  | density low high => rfl

/-- The draws of the first unit come on top of those of the others. -/
lemma budget_cons (p : Place) (rest : List Place) (d : Binary64) (densities : List Binary64) :
    r.budget sampling entry (p :: rest) (d :: densities) =
      sampling.draws entry (r.offered p) d + r.budget sampling entry rest densities := by
  cases sampling with
  | all => rfl
  | bernoulli keep =>
    rw [Sampling.draws, budget, budget, List.map_cons, List.sum_cons]
    split_ifs
    · rfl
    · rfl
  | density low high =>
    rw [Sampling.draws, budget, budget, List.zipWith_cons_cons, List.sum_cons, List.countP_cons,
      Drawing.toll]
    by_cases hnone : r.offered p = 0
    · rw [hnone, Sampling.asked_zero, ite_self]
      simp
    · rw [if_neg hnone, if_pos (by simpa using Nat.pos_of_ne_zero hnone)]
      omega

end Trees

/-! ## The budget of a tree -/

variable {σ : Type} [Drawing (Counted σ)] {r : Weaver (Counted σ)} {sampling : Sampling}
  {entry : Bool}

/-- **The draws of a tree** are those of its units, for densities drawn at each of them. -/
lemma exists_budget_of_passes (laws : Drawing.Lawful σ)
    (hsampler : r.sampler = sampling.sampler entry) {rank : Nat} {places : List Place}
    {c c' : Counted σ} {sources : List (Counted σ)} (h : Passes r rank places c sources c') :
    ∃ densities, List.Forall₂ sampling.Drawn sources densities ∧
      c'.draws = c.draws + r.budget sampling entry places densities := by
  induction h with
  | nil => exact ⟨[], .nil, by rw [budget_nil, Nat.add_zero]⟩
  | @cons rank p rest body c c₁ c' sources hbody _ ih =>
    obtain ⟨d, hd⟩ := sampling.exists_drawn c
    obtain ⟨densities, hdrawn, hrest⟩ := ih
    have hfirst := draws_of_body laws hsampler p (UInt32.ofNat rank) hd
    rw [hbody] at hfirst
    refine ⟨d :: densities, .cons hd hdrawn, ?_⟩
    rw [hrest, hfirst, budget_cons, Nat.add_assoc]

/-- **The draws that weaving a tree makes** are fixed by the numbers of candidates of its units, for
every way to draw truth values and numbers that obeys the laws: there is no draw if all candidates
are kept, or with a given probability that is one or above; otherwise there is one for each
candidate that is not kept anyway, and a density is one more for each unit with candidates. They are
counted over the units in the order of weaving, and each unit takes its own. Whatever is drawn, the
candidates kept of a unit stand in order, and the entry is among them if it is to be. -/
theorem draw_budget (laws : Drawing.Lawful σ) (hsampler : r.sampler = sampling.sampler entry)
    {root out : CodeUnit} {topLevel : Bool} {c c' : Counted σ}
    (h : (r.tree root topLevel).run.run c = (.ok out, c')) :
    (∃ sources densities, Passes r 0 (root.places topLevel) c sources c' ∧
      List.Forall₂ sampling.Drawn sources densities ∧
      c'.draws = c.draws + r.budget sampling entry (root.places topLevel) densities) ∧
      (∀ (p : Place) (unitIndex : UInt32) (s : Counted σ) (d : Binary64), sampling.Drawn s d →
        ((r.body p.unit unitIndex p.topLevel).run.run s).2.draws =
          s.draws + sampling.draws entry (r.offered p) d) ∧
      ∀ insns s, Sampling.Keeps entry 0 (r.policy.candidates r.isa insns)
          ((r.sampler (r.policy.candidates r.isa insns)).run s).1 ∧
        (entry = true → r.policy.candidates r.isa insns ≠ [] →
          0 ∈ ((r.sampler (r.policy.candidates r.isa insns)).run s).1) := by
  obtain ⟨sources, hpasses⟩ := exists_passes_of_tree h
  obtain ⟨densities, hdrawn, hdraws⟩ := exists_budget_of_passes laws hsampler hpasses
  refine ⟨⟨sources, densities, hpasses, hdrawn, hdraws⟩,
    fun p unitIndex s d hd => draws_of_body laws hsampler p unitIndex hd, fun insns s => ?_⟩
  rw [hsampler]
  have hkeeps := Sampling.keeps_sampler sampling entry (r.policy.candidates r.isa insns) s
  refine ⟨hkeeps, fun he hne => ?_⟩
  obtain ⟨d, more, hfound⟩ := List.exists_cons_of_ne_nil hne
  have hfirst : (r.policy.candidates r.isa insns)[0]? = some d := by
    rw [hfound]
    rfl
  have hqueue := CandidatePolicy.queue_candidates r.policy r.isa insns
  exact hkeeps.entry he 0 d hfirst ((hqueue.entry 0 d hfirst).2 rfl)

end Weaver

/-! ## Draws from a deck -/

/-- Words to be drawn, one after the other; behind them there are zeros. -/
structure Deck where
  words : List UInt64
deriving DecidableEq, Repr

namespace Deck

/-- The next word, counted. -/
def next : StateM (Counted Deck) UInt64 := fun c =>
  (c.source.words.headD 0, ⟨⟨c.source.words.tail⟩, c.draws + 1⟩)

/-- A truth value of probability `p` is true for the part `p` of all words, the lower ones; if it is
certain, no word is needed. The number drawn is the lower bound, which is where low words lead. -/
instance : Drawing (Counted Deck) where
  chance p :=
    if p = .one then pure true
    else do
      let w ← next
      return w.toNat < p.significand * 2 ^ 64 / 2 ^ (-p.exponent).toNat
  between low _ := do
    let _ ← next
    return low

/-- Draws from a deck obey the laws. -/
lemma lawful : Drawing.Lawful Deck where
  draws_certain _ := rfl
  draws_chance p c _ hone := by
    show ((if p = .one then pure true else _ : StateM (Counted Deck) Bool).run c).2.draws = _
    rw [if_neg hone]
    rfl
  draws_between _ _ _ _ _ _ := rfl
  bounds low high _ hlow _ hle := ⟨Binary64.le_refl hlow.1.2.1, hle⟩

end Deck

/-- Three instructions, each on a line of its own. -/
def CodeUnit.stairs : CodeUnit where
  name := "stairs"
  firstLine := 1
  code := [0x11, 0x11, 0x12]
  consts := []
  lineTable := [0, 0, 1, 1, 1, 1]

/-- That unit, with another one like it in the pool. -/
def CodeUnit.nestedStairs : CodeUnit :=
  { CodeUnit.stairs with consts := [.unit .stairs] }

/-- Half of the candidates at least. -/
def Sampling.half : Sampling :=
  .density ⟨0x3FE0000000000000⟩ ⟨0x3FF0000000000000⟩

/-- A weaver that draws a density for every unit but the root, and keeps every entry. -/
def Weaver.sparing : Weaver (Counted Deck) where
  isa := .standard
  sign := .signed
  policy := .distinctLines
  topLevel := .entryOnly
  sampler := Sampling.half.sampler true
  tokens site := site.offset

/-- The tree with a probe at its entry, and with probes at two of three candidates of the other
unit. -/
def CodeUnit.wovenStairs : CodeUnit where
  name := "stairs"
  firstLine := 1
  code := [0x40, 0, 0, 0, 0, 0x11, 0x11, 0x12]
  consts := [.unit
    { CodeUnit.stairs with
      code := [0x40, 0, 0, 0, 0, 0x11, 0x40, 6, 0, 0, 0, 0x11, 0x12]
      lineTable := [6, 1, 6, 1] }]
  lineTable := [6, 1, 1, 1]

/-- The root takes no draw; the other unit takes one for its density, and two for the candidates
behind the entry, of which one is kept. -/
theorem Weaver.draw_budget_sparing :
    Drawing.Lawful Deck ∧ sparing.sampler = Sampling.half.sampler true ∧
      (sparing.tree .nestedStairs true).run.run ⟨⟨[7, 5, 0x8000000000000000]⟩, 0⟩ =
        (.ok .wovenStairs, ⟨⟨[]⟩, 3⟩) ∧
      ∃ sources densities,
        Passes sparing 0 (CodeUnit.nestedStairs.places true) ⟨⟨[7, 5, 0x8000000000000000]⟩, 0⟩
          sources ⟨⟨[]⟩, 3⟩ ∧
        List.Forall₂ Sampling.half.Drawn sources densities ∧
        3 = sparing.budget Sampling.half true (CodeUnit.nestedStairs.places true) densities := by
  have hrun : (sparing.tree .nestedStairs true).run.run ⟨⟨[7, 5, 0x8000000000000000]⟩, 0⟩ =
      (.ok .wovenStairs, ⟨⟨[]⟩, 3⟩) := by
    rw [tree_eq_nest]
    rfl
  have hsampler : sparing.sampler = Sampling.half.sampler true := rfl
  obtain ⟨⟨sources, densities, hpasses, hdrawn, hdraws⟩, -, -⟩ :=
    draw_budget Deck.lawful hsampler hrun
  rw [Nat.zero_add] at hdraws
  exact ⟨Deck.lawful, hsampler, hrun, sources, densities, hpasses, hdrawn, hdraws⟩

end CoverProbe
