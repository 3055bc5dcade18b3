import CoverProbe.Word
import CoverProbe.Fault

set_option relaxedAutoImplicit false
set_option autoImplicit false

/-!
# Lines of a code unit

A unit maps byte offsets to source lines by *line starts*: from its offset on, a start gives the
line of the code, until the next start. The same map can be told in *transitions*, each the move
from one start to the next, taken from offset zero on the unit's base line.

## Main definitions

* `CoverProbe.LineStart`, `CoverProbe.Transition` — the absolute and the relative view.
* `CoverProbe.SignConvention` — how a line byte of an encoded table is read.
* `CoverProbe.LineStart.transitions` — from starts to transitions; refuses starts out of order.
* `CoverProbe.Transition.starts` — from transitions to starts; refuses moves out of range.
* `CoverProbe.LineStart.merge` — starts without those that repeat the line before them.

## Implementation notes

Sums of line deltas are exact integers; offsets are 32-bit words whose sums are checked.
-/

namespace CoverProbe

/-! ## Starts and transitions -/

/-- A byte offset from which code belongs to a source line. -/
structure LineStart where
  offset : UInt32
  line : UInt32
deriving DecidableEq, Repr

/-- The move from one line start to the next. -/
structure Transition where
  /-- Bytes between the two starts. -/
  offsetDelta : UInt32
  /-- Change of line, possibly backwards. -/
  lineDelta : Int
deriving DecidableEq, Repr

namespace LineStart

/-- The moves along `starts` from the anchor `anchor`; `previous` is the offset last seen. A start
on the anchor's line is no move, but its offset must still increase. -/
def transitionsFrom (anchor : LineStart) (previous : Option UInt32) :
    List LineStart → Except Fault (List Transition)
  | [] => .ok []
  | s :: rest =>
    match previous.filter (s.offset ≤ ·) with
    | some p => .error (.lineTable (.unordered s.offset p))
    | none =>
      if s.line = anchor.line then transitionsFrom anchor (some s.offset) rest
      else do
        let tail ← transitionsFrom s (some s.offset) rest
        return ⟨s.offset - anchor.offset, s.line.toNat - anchor.line.toNat⟩ :: tail

/-- The moves along `starts` from offset zero on line `firstLine`. Starts begin at offset zero and
increase. -/
def transitions (starts : List LineStart) (firstLine : UInt32) :
    Except Fault (List Transition) :=
  match starts with
  | [] => .ok []
  | s :: _ =>
    if s.offset ≠ 0 then .error (.lineTable (.firstStart s.offset))
    else transitionsFrom ⟨0, firstLine⟩ none starts

/-- The starts without those that repeat the line `current` reached before them. -/
def mergeFrom (current : Option UInt32) : List LineStart → List LineStart
  | [] => []
  | s :: rest =>
    if current = some s.line then mergeFrom current rest else s :: mergeFrom (some s.line) rest

/-- The starts without those that repeat the line of the start before them. -/
def merge (starts : List LineStart) : List LineStart :=
  mergeFrom none starts

end LineStart

namespace Transition

/-- A position reached by transitions, with the starts met on the way, newest first. -/
structure Trail where
  offset : UInt32
  line : Int
  starts : List LineStart

/-- Follows one transition. A move that stays at the offset of the newest start replaces its
line. -/
def Trail.follow (trail : Trail) (t : Transition) : Except Fault Trail :=
  match Word.ofNat? (trail.offset.toNat + t.offsetDelta.toNat) with
  | none => .error (.range .offset)
  | some offset =>
    let line := trail.line + t.lineDelta
    match Word.ofInt? line with
    | none => .error (.range (.line line))
    | some word =>
      match trail.starts with
      | s :: older =>
        if s.offset = offset then .ok ⟨offset, line, ⟨offset, word⟩ :: older⟩
        else .ok ⟨offset, line, ⟨offset, word⟩ :: s :: older⟩
      | [] => .ok ⟨offset, line, [⟨offset, word⟩]⟩

/-- The starts reached by transitions from offset zero on line `firstLine`. -/
def starts (ts : List Transition) (firstLine : UInt32) : Except Fault (List LineStart) := do
  let trail ← ts.foldlM Trail.follow ⟨0, firstLine.toNat, []⟩
  let found := trail.starts.reverse
  match found with
  | s :: _ => return if s.offset = 0 then found else ⟨0, firstLine⟩ :: found
  | [] => return [⟨0, firstLine⟩]

end Transition

/-! ## Sign conventions -/

/-- How the line byte of an encoded pair is read. -/
inductive SignConvention
  /-- Two's complement, from -128 to 127. -/
  | signed
  /-- From 0 to 255: lines only move forward. -/
  | unsigned
deriving DecidableEq, Repr

namespace SignConvention

/-- The least line change that a byte carries. -/
def low : SignConvention → Int
  | signed => -128
  | unsigned => 0

/-- The greatest line change that a byte carries. -/
def high : SignConvention → Int
  | signed => 127
  | unsigned => 255

/-- The line change written by a byte. -/
def read : SignConvention → UInt8 → Int
  | signed, b => if b.toNat < 128 then b.toNat else b.toNat - 256
  | unsigned, b => b.toNat

/-- The byte that writes a line change between `low` and `high`. -/
def write (_ : SignConvention) (delta : Int) : UInt8 :=
  UInt8.ofNat (delta % 256).toNat

theorem read_write (s : SignConvention) {delta : Int} (h₁ : s.low ≤ delta) (h₂ : delta ≤ s.high) :
    s.read (s.write delta) = delta := by
  have hn : (UInt8.ofNat (delta % 256).toNat).toNat = (delta % 256).toNat := by
    rw [UInt8.toNat_ofNat']
    omega
  cases s
  · simp only [low, high] at h₁ h₂
    simp only [read, write, hn]
    split <;> omega
  · simp only [low, high] at h₁ h₂
    simp only [read, write, hn]
    omega

end SignConvention

end CoverProbe
