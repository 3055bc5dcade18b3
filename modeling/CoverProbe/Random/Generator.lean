import CoverProbe.Random.Draw

set_option relaxedAutoImplicit false
set_option autoImplicit false

/-!
# The generator of the program

The truth values and numbers that the program draws from its random sources. Nothing that is proved
of draws depends on how they are made here.

## Main definitions

* `CoverProbe.Draw.chance` — a truth value with a given probability.
* `CoverProbe.Draw.between` — a number between two bounds.

## Implementation notes

A number is drawn as a multiple of `2 ^ -52` below one, scaled and shifted. The scale is chosen so
that the greatest such multiple does not lead above the upper bound; it is lowered bit by bit until
rounding obeys, which takes a few steps at most.
-/

namespace CoverProbe.Draw

variable {ρ : Type} [RandomSource ρ]

/-- The words below this one stand for true when the probability is `p`. -/
def threshold (p : Float) : UInt64 :=
  (p * 18446744073709551616.0).toUInt64

/-- True with probability `p`. Certainty takes no word, every other probability takes one. -/
def chance (p : Float) : StateM ρ Bool :=
  if p == 1.0 then pure true
  else do
    let w ← word64
    return w < threshold p

/-- The distance of two neighbouring multiples, `2 ^ -52`. -/
def grain : Float := 2.220446049250313e-16

/-- The greatest multiple below one. -/
def topmost : Float := 1.0 - grain

/-- The greatest scale, from `scale` downwards, that does not lead above `high`; `fuel` bounds the
steps. -/
def lowerScale (low high : Float) : (fuel : Nat) → (scale : Float) → Float
  | 0, scale => scale
  | fuel + 1, scale =>
    if high < scale * topmost + low then
      lowerScale low high fuel (Float.ofBits (scale.toBits - 1))
    else scale

/-- The number between two bounds that a word stands for. -/
def position (low high : Float) (w : UInt64) : Float :=
  let scale := lowerScale low high 1024 ((high - low) / topmost)
  ((w >>> 12).toFloat * grain) * scale + low

/-- A number between two bounds. It always takes one word. -/
def between (low high : Float) : StateM ρ Float := do
  let w ← word64
  return position low high w

/-- Every random source is drawn from in this way. -/
instance : Drawing ρ where
  chance p := chance p.toFloat
  between low high := do
    let x ← between low.toFloat high.toFloat
    return ⟨x.toBits⟩

end CoverProbe.Draw
