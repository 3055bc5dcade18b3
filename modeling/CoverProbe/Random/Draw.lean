import CoverProbe.Decimal.Binary64
import CoverProbe.Random.Source

set_option relaxedAutoImplicit false
set_option autoImplicit false

/-!
# Draws

What is drawn from a random source: words, truth values and numbers. Words are what the source
yields. How truth values and numbers are made of words is left to whoever runs the library; all that
depends on it takes it for given.

## Main definitions

* `CoverProbe.Draw.word32`, `CoverProbe.Draw.word64` — one word.
* `CoverProbe.Drawing` — a source from which truth values and numbers are drawn.
-/

namespace CoverProbe

namespace Draw

variable {ρ : Type} [RandomSource ρ]

/-- A word of 32 bits. -/
def word32 : StateM ρ UInt32 := fun source => RandomSource.next32 source

/-- A word of 64 bits. -/
def word64 : StateM ρ UInt64 := fun source => RandomSource.next64 source

end Draw

/-- A source from which truth values and numbers are drawn. -/
class Drawing (ρ : Type) where
  /-- A truth value that is true with the given probability. -/
  chance : (p : Binary64) → StateM ρ Bool
  /-- A number between two bounds. -/
  between : (low high : Binary64) → StateM ρ Binary64

end CoverProbe
