set_option relaxedAutoImplicit false
set_option autoImplicit false

/-!
# Random sources

A random source is a state that yields words and the state behind them. All draws of this library
are made in `StateM` over such a state, so the source that is left after a computation is part of
its result.

## Main definitions

* `CoverProbe.RandomSource` — what a source yields.
* `CoverProbe.Counted` — a source that counts the words it has yielded.
* `CoverProbe.Script` — a source that repeats a list of words.
-/

namespace CoverProbe

/-- A state that yields words of 32 and of 64 bits. -/
class RandomSource (ρ : Type) where
  next32 : ρ → UInt32 × ρ
  next64 : ρ → UInt64 × ρ

/-! ## Counted sources -/

/-- A source with the number of words, of either size, that it has yielded. -/
structure Counted (ρ : Type) where
  source : ρ
  draws : Nat := 0

namespace Counted

variable {ρ : Type} [RandomSource ρ]

/-- The next word of 32 bits, counted. -/
def next32 (c : Counted ρ) : UInt32 × Counted ρ :=
  let (w, source) := RandomSource.next32 c.source
  (w, ⟨source, c.draws + 1⟩)

/-- The next word of 64 bits, counted. -/
def next64 (c : Counted ρ) : UInt64 × Counted ρ :=
  let (w, source) := RandomSource.next64 c.source
  (w, ⟨source, c.draws + 1⟩)

instance : RandomSource (Counted ρ) := ⟨next32, next64⟩

end Counted

/-! ## Scripted sources -/

/-- A source that repeats a list of words for ever. -/
structure Script where
  words : List UInt64
  /-- The words still to come before the list starts again. -/
  pending : List UInt64 := words

namespace Script

/-- The next word; an empty script yields zeros. -/
def next64 (s : Script) : UInt64 × Script :=
  match s.pending, s.words with
  | w :: rest, _ => (w, { s with pending := rest })
  | [], w :: rest => (w, { s with pending := rest })
  | [], [] => (0, s)

/-- The low half of the next word. -/
def next32 (s : Script) : UInt32 × Script :=
  let (w, s) := s.next64
  (w.toUInt32, s)

instance : RandomSource Script := ⟨next32, next64⟩

end Script

end CoverProbe
