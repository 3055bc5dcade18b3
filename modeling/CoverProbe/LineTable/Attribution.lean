import CoverProbe.Instruction.Basic
import CoverProbe.LineTable.Basic

set_option relaxedAutoImplicit false
set_option autoImplicit false

/-!
# Attribution of instructions to lines

Instructions get their source line from the line starts of their unit, in one pass over both lists.

## Main definitions

* `CoverProbe.LineStart.lineAt` — the line of one offset.
* `CoverProbe.Instruction.withLines` — the instructions with their lines, in one pass.
* `CoverProbe.Instruction.lineRuns` — the line starts of attributed instructions.
-/

namespace CoverProbe

namespace LineStart

/-- The line at an offset: of the last start at or before it, else of the first start, else
zero. -/
def lineAt (starts : List LineStart) (offset : UInt32) : UInt32 :=
  match (starts.filter (·.offset ≤ offset)).getLast?, starts with
  | some s, _ => s.line
  | none, s :: _ => s.line
  | none, [] => 0

/-- The starts from the one in force at `offset` on. -/
def seek (offset : UInt32) : List LineStart → List LineStart
  | s :: next :: rest =>
    if next.offset ≤ offset then seek offset (next :: rest) else s :: next :: rest
  | starts => starts

end LineStart

namespace Instruction

/-- The instructions with the lines of the runs they fall in. One cursor moves along the starts,
which must be sorted by offset, as the instructions are. -/
def withLines (starts : List LineStart) : List Instruction → List Instruction
  | [] => []
  | i :: rest =>
    let here := LineStart.seek i.offset starts
    { i with line := (here.head?.map (·.line)).getD 0 } :: withLines here rest

/-- The line starts of attributed instructions: one for each instruction whose line differs from
the line `current` of the instruction before it. -/
def lineRunsFrom (current : Option UInt32) : List Instruction → List LineStart
  | [] => []
  | i :: rest =>
    if current = some i.line then lineRunsFrom current rest
    else ⟨i.offset, i.line⟩ :: lineRunsFrom (some i.line) rest

/-- The line starts of attributed instructions. -/
def lineRuns (insns : List Instruction) : List LineStart :=
  lineRunsFrom none insns

end Instruction

end CoverProbe
