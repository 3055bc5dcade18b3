import CoverProbe.LineTable.Basic

set_option relaxedAutoImplicit false
set_option autoImplicit false

/-!
# Encoded line tables

An encoded table is a list of byte pairs. A pair first advances the offset, then changes the line;
a pair that advances closes the run of code read so far. Decoding reports the runs whose line
differs from the run reported before, so the empty table is one run at offset zero on the base
line.

Encoding writes a transition as advances of 255 while more than 255 bytes remain, one pair with the
remaining advance and the first step of the line change, and pairs without advance for the further
steps. Steps are greedy: as many extreme ones as fit, then the remainder.

## Main definitions

* `CoverProbe.LineTable.Pair` — a pair of an encoded table.
* `CoverProbe.LineTable.runs` — the runs of a list of pairs, lines counted from the base line.
* `CoverProbe.LineTable.decode`, `CoverProbe.LineTable.encode` — between bytes and line starts.
* `CoverProbe.LineTable.decodeTransitions`, `CoverProbe.LineTable.encodeTransitions` — between
  bytes and transitions.
-/

namespace CoverProbe.LineTable

/-! ## Pairs -/

/-- A pair of an encoded table: an advance of the offset, then a line byte. -/
structure Pair where
  advance : UInt8
  change : UInt8
deriving DecidableEq, Repr

/-- The pairs of an encoded table of even length. -/
def pairs? : List UInt8 → Option (List Pair)
  | [] => some []
  | [_] => none
  | a :: c :: rest => (pairs? rest).map (⟨a, c⟩ :: ·)

/-- The bytes of a list of pairs. -/
def bytes (ps : List Pair) : List UInt8 :=
  ps.flatMap fun p => [p.advance, p.change]

theorem pairs?_bytes (ps : List Pair) : pairs? (bytes ps) = some ps := by
  induction ps with
  | nil => rfl
  | cons p ps ih =>
    show (pairs? (bytes ps)).map (⟨p.advance, p.change⟩ :: ·) = some (p :: ps)
    rw [ih]
    rfl

/-! ## Decoding -/

/-- A run of code on one line, the line counted from the base line of its table. -/
structure Run where
  offset : UInt32
  line : Int
deriving DecidableEq, Repr

/-- The open run, unless the run reported last lies on the same line. -/
def Run.report (run : Run) (last : Option Int) : List Run :=
  if last = some run.line then [] else [run]

/-- The runs of a list of pairs behind the open run `run`; `last` is the line reported last. -/
def runsFrom (sign : SignConvention) (run : Run) (last : Option Int) :
    List Pair → Except Fault (List Run)
  | [] => .ok (run.report last)
  | p :: rest =>
    let line := run.line + sign.read p.change
    if p.advance = 0 then runsFrom sign ⟨run.offset, line⟩ last rest
    else
      match Word.ofNat? (run.offset.toNat + p.advance.toNat) with
      | none => .error (.lineTable .offsetOutOfRange)
      | some offset => do
        let tail ← runsFrom sign ⟨offset, line⟩ (some run.line) rest
        return run.report last ++ tail

/-- The runs of an encoded table, lines counted from its base line. -/
def runs (sign : SignConvention) (table : List UInt8) : Except Fault (List Run) :=
  match pairs? table with
  | none => .error (.lineTable (.oddLength table.length))
  | some ps => runsFrom sign ⟨0, 0⟩ none ps

/-- The line start of a run in a table based on line `firstLine`. -/
def Run.start (firstLine : UInt32) (run : Run) : Except Fault LineStart :=
  let line : Int := firstLine.toNat + run.line
  match Word.ofInt? line with
  | none => .error (.lineTable (.lineOutOfRange line run.offset))
  | some word => .ok ⟨run.offset, word⟩

/-- The line starts of an encoded table based on line `firstLine`. -/
def decode (sign : SignConvention) (table : List UInt8) (firstLine : UInt32) :
    Except Fault (List LineStart) := do
  (← runs sign table).mapM (Run.start firstLine)

/-- The moves from `previous` along the runs, without those that stay in place. -/
def movesFrom (previous : Run) : List Run → List Transition
  | [] => []
  | run :: rest =>
    let move : Transition := ⟨run.offset - previous.offset, run.line - previous.line⟩
    if move = ⟨0, 0⟩ then movesFrom run rest else move :: movesFrom run rest

/-- The transitions of an encoded table. -/
def decodeTransitions (sign : SignConvention) (table : List UInt8) :
    Except Fault (List Transition) := do
  return movesFrom ⟨0, 0⟩ (← runs sign table)

/-! ## Encoding -/

/-- The greedy steps of a line change: as many of the extreme step as fit, then the remainder. -/
def steps (sign : SignConvention) (delta : Int) : List Int :=
  let bound := if delta < 0 then sign.low else sign.high
  let remainder := delta.tmod bound
  List.replicate (delta.natAbs / bound.natAbs) bound ++ (if remainder = 0 then [] else [remainder])

/-- The advances of 255 that an offset delta takes while more than 255 bytes remain. -/
def fullAdvances (delta : UInt32) : Nat :=
  (delta.toNat - 1) / 255

/-- The canonical pairs of a transition. -/
def pairsOf (sign : SignConvention) (t : Transition) : List Pair :=
  let rest := t.offsetDelta.toNat - 255 * fullAdvances t.offsetDelta
  let full := List.replicate (fullAdvances t.offsetDelta) (⟨255, 0⟩ : Pair)
  match steps sign t.lineDelta with
  | [] => full ++ (if rest = 0 then [] else [⟨UInt8.ofNat rest, 0⟩])
  | first :: more =>
    full ++ ⟨UInt8.ofNat rest, sign.write first⟩ :: more.map fun k => ⟨0, sign.write k⟩

/-- The pairs of a transition; unsigned line bytes cannot step back. -/
def encodeTransition (sign : SignConvention) (t : Transition) : Except Fault (List Pair) :=
  if sign = .unsigned ∧ t.lineDelta < 0 then .error (.range (.negativeLineDelta t.lineDelta))
  else .ok (pairsOf sign t)

/-- The encoded table of a list of transitions. -/
def encodeTransitions (sign : SignConvention) (ts : List Transition) :
    Except Fault (List UInt8) := do
  return bytes (← ts.mapM (encodeTransition sign)).flatten

/-- The encoded table of line starts based on line `firstLine`. -/
def encode (sign : SignConvention) (starts : List LineStart) (firstLine : UInt32) :
    Except Fault (List UInt8) := do
  encodeTransitions sign (← LineStart.transitions starts firstLine)

end CoverProbe.LineTable
