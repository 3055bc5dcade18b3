import CoverProbe.Decimal.Binary64
import CoverProbe.Probe.Candidate
import CoverProbe.Random.Draw

set_option relaxedAutoImplicit false
set_option autoImplicit false

/-!
# Sampling of candidates

A sampler looks at the candidates of a stream, draws what it needs, and names the positions it
keeps. The sites of a stream are the candidates kept, sorted and each once, whatever order and
repetitions the sampler used.

## Main definitions

* `CoverProbe.Sampler` — a choice among candidates.
* `CoverProbe.Sampling`, `CoverProbe.Sampling.sampler` — the samplers that settings describe.
* `CoverProbe.selectSites` — the sites of a stream.
-/

namespace CoverProbe

/-- A choice among candidates: the positions kept, counted from zero. -/
abbrev Sampler (ρ : Type) := List Candidate → StateM ρ (List Nat)

/-- How densely candidates are kept. -/
inductive Sampling
  /-- Every candidate, without a draw. -/
  | all
  /-- Each candidate with the same probability. -/
  | bernoulli (keep : Binary64)
  /-- Each candidate of a stream with one probability, drawn for the stream between two bounds. -/
  | density (low high : Binary64)
deriving DecidableEq, Repr

namespace Sampling

/-! ## Probabilities -/

/-- The number brought into the unit interval, zero if it is none. -/
def probability (x : Binary64) : Binary64 :=
  if x.isNaN then .zero false
  else if x < .zero false then .zero false
  else if .one < x then .one
  else x

/-- The lesser of two numbers, or the one that is a number. -/
def lesser (x y : Binary64) : Binary64 :=
  if x.isNaN then y else if y.isNaN then x else if x ≤ y then x else y

/-- The greater of two numbers, or the one that is a number. -/
def greater (x y : Binary64) : Binary64 :=
  if x.isNaN then y else if y.isNaN then x else if x ≤ y then y else x

/-! ## Samplers -/

variable {ρ : Type} [Drawing ρ]

/-- The positions kept among candidates of which the first has position `index`. With `entry` the
entry is kept without a draw; every other candidate is kept with probability `p`. -/
def keepFrom (entry : Bool) (p : Binary64) (index : Nat) : List Candidate → StateM ρ (List Nat)
  | [] => pure []
  | c :: rest => do
    let kept ← if entry && c.entry then pure true else Drawing.chance p
    let more ← keepFrom entry p (index + 1) rest
    return if kept then index :: more else more

/-- The sampler of a density. With `entry` the entry is always kept. -/
def sampler (sampling : Sampling) (entry : Bool) : Sampler ρ
  | [] => pure []
  | c :: rest =>
    match sampling with
    | all => pure (List.range (rest.length + 1))
    | bernoulli keep => keepFrom entry (probability keep) 0 (c :: rest)
    | density low high => do
      let least := probability (lesser low high)
      let most := probability (greater low high)
      let p ← Drawing.between least most
      keepFrom entry p 0 (c :: rest)

end Sampling

namespace Sampler

variable {ρ : Type}

/-- Keeps the same positions always. -/
def fixed (positions : List Nat) : Sampler ρ := fun _ => pure positions

/-- The positions for which a coin, tossed for each candidate, shows an odd word. -/
def tossFrom [RandomSource ρ] (index : Nat) : List Candidate → StateM ρ (List Nat)
  | [] => pure []
  | _ :: rest => do
    let w ← Draw.word32
    let more ← tossFrom (index + 1) rest
    return if w % 2 = 1 then index :: more else more

/-- Keeps each candidate by the toss of a coin. -/
def coin [RandomSource ρ] : Sampler ρ := tossFrom 0

end Sampler

/-! ## Sites -/

/-- The number put into a list in order, behind those that are less. -/
def putInOrder (k : Nat) : List Nat → List Nat
  | [] => [k]
  | j :: rest => if k ≤ j then k :: j :: rest else j :: putInOrder k rest

/-- The list with every run of one number made one. -/
def withoutRepeats : List Nat → List Nat
  | [] => []
  | k :: rest => if rest.head? = some k then withoutRepeats rest else k :: withoutRepeats rest

/-- The stream positions of the candidates at the positions kept, sorted and each once. A position
at which there is no candidate is passed over. -/
def sitesOf (found : List Candidate) (kept : List Nat) : List Nat :=
  let picked := kept.filterMap fun position => found[position]?.map (·.index)
  withoutRepeats (picked.foldr putInOrder [])

/-- The number of candidates of a stream, and the stream positions of its sites. With `entryOnly`
the entry is the only candidate and is kept without asking the sampler. -/
def selectSites {ρ : Type} (isa : InstructionSet) (insns : List Instruction)
    (policy : CandidatePolicy) (entryOnly : Bool) (sampler : Sampler ρ) :
    StateM ρ (Nat × List Nat) := do
  let found := policy.candidates isa insns
  if entryOnly then
    let sites := (found.filter (·.entry)).map (·.index)
    return (sites.length, sites)
  else
    let kept ← sampler found
    return (found.length, sitesOf found kept)

end CoverProbe
