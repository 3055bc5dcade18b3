import CoverProbe.Random.Source

set_option relaxedAutoImplicit false
set_option autoImplicit false

/-!
# The ChaCha stream with eight rounds

A random source made of the blocks of the ChaCha stream cipher, with a key of eight words, a block
counter of two words that starts at zero, and a nonce of zeros. The words of the blocks form one
stream; a word of 64 bits is two words of it, the low half first.

## Main definitions

* `CoverProbe.ChaCha.block` — one block of sixteen words.
* `CoverProbe.ChaCha.keyOf` — the key that a 64-bit seed is stretched to.
* `CoverProbe.ChaCha.ofSeed` — the source of a seed.
-/

namespace CoverProbe

/-- A position in a stream of blocks. -/
structure ChaCha where
  key : Vector UInt32 8
  /-- The number of the block behind the pending words. -/
  counter : UInt64
  /-- The words of the current block that are still to come. -/
  pending : List UInt32

namespace ChaCha

/-! ## Blocks -/

/-- Sixteen words. -/
abbrev Block := Vector UInt32 16

/-- The word with its bits rotated towards the high end. -/
def rotate (w : UInt32) (bits : UInt32) : UInt32 :=
  (w <<< bits) ||| (w >>> (32 - bits))

/-- One step of a quarter round: `a` takes up `b`, and `d` is mixed with it. -/
def mix (s : Block) (a b d : Fin 16) (bits : UInt32) : Block :=
  let sum := s[a] + s[b]
  (s.set a sum).set d (rotate (s[d] ^^^ sum) bits)

/-- A quarter round on four words. -/
def quarter (s : Block) (a b c d : Fin 16) : Block :=
  let s := mix s a b d 16
  let s := mix s c d b 12
  let s := mix s a b d 8
  mix s c d b 7

/-- A round on the columns, then one on the diagonals. -/
def doubleRound (s : Block) : Block :=
  let s := quarter s 0 4 8 12
  let s := quarter s 1 5 9 13
  let s := quarter s 2 6 10 14
  let s := quarter s 3 7 11 15
  let s := quarter s 0 5 10 15
  let s := quarter s 1 6 11 12
  let s := quarter s 2 7 8 13
  quarter s 3 4 9 14

/-- The words that block `counter` is computed from. -/
def initial (key : Vector UInt32 8) (counter : UInt64) : Block :=
  #v[0x61707865, 0x3320646E, 0x79622D32, 0x6B206574,
    key[0], key[1], key[2], key[3], key[4], key[5], key[6], key[7],
    counter.toUInt32, (counter >>> 32).toUInt32, 0, 0]

/-- Block `counter`: four double rounds, and the initial words added. -/
def block (key : Vector UInt32 8) (counter : UInt64) : Block :=
  let start := initial key counter
  Vector.zipWith (· + ·) (Nat.repeat doubleRound 4 start) start

/-! ## The stream -/

/-- The next word of 32 bits. -/
def next32 (c : ChaCha) : UInt32 × ChaCha :=
  match c.pending with
  | w :: rest => (w, { c with pending := rest })
  | [] =>
    let words := (block c.key c.counter).toList
    (words.headD 0, { c with counter := c.counter + 1, pending := words.tail })

/-- The next word of 64 bits: two words of 32 bits, the low half first. -/
def next64 (c : ChaCha) : UInt64 × ChaCha :=
  let (low, c) := c.next32
  let (high, c) := c.next32
  (low.toUInt64 ||| (high.toUInt64 <<< 32), c)

instance : RandomSource ChaCha := ⟨next32, next64⟩

/-! ## Seeds -/

/-- The next state of the generator that stretches a seed. -/
def stretch (state : UInt64) : UInt64 :=
  state * 6364136223846793005 + 11634580027462260723

/-- The word that a state of that generator yields: its high bits folded and rotated. -/
def fold (state : UInt64) : UInt32 :=
  let folded := (((state >>> 18) ^^^ state) >>> 27).toUInt32
  let turns := (state >>> 59).toUInt32
  rotate folded (32 - turns)

/-- The state after `n` steps from a seed. -/
def stateAt (seed : UInt64) (n : Nat) : UInt64 :=
  Nat.repeat stretch n seed

/-- The key that a seed is stretched to. -/
def keyOf (seed : UInt64) : Vector UInt32 8 :=
  Vector.ofFn fun i => fold (stateAt seed (i.val + 1))

/-- The source of a seed. -/
def ofSeed (seed : UInt64) : ChaCha :=
  ⟨keyOf seed, 0, []⟩

end ChaCha

end CoverProbe
