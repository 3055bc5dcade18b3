import CoverProbe.Fault

set_option relaxedAutoImplicit false
set_option autoImplicit false

/-!
# Faults of weaving

Why no probes are woven into a tree. One fault stops the whole tree; it names the unit at fault by
its path from the root.

## Main definitions

* `CoverProbe.WeaveCause` — what is wrong with a unit.
* `CoverProbe.WeaveFault` — a cause with the path of its unit.
* `CoverProbe.WeaveCause.ofFault` — a fault of encoding as a cause.
-/

namespace CoverProbe

/-- Why no probe can be put where an instruction stands. -/
inductive Obstacle
  /-- A pinned instruction lies behind the prologue. -/
  | pinned
  /-- An indirect jump would not follow the code that probes shift. -/
  | indirect
deriving DecidableEq, Repr

/-- The text of an obstacle. -/
def Obstacle.message : Obstacle → String
  | pinned => "must stay in the unit prologue"
  | indirect => "jumps through a runtime offset that probes would shift"

/-- What the encoding cannot carry. -/
inductive OverflowCause
  /-- The woven code ends at an offset that is no 32-bit word. -/
  | codeEnd (stop : Nat)
  /-- A relative jump would have to lead backwards. -/
  | backward (offset : UInt32)
  /-- A jump would change its width with its operand. -/
  | width (mnemonic : String) (offset : UInt32)
  | fault (cause : Fault)
  | note (text : String)
deriving DecidableEq, Repr

/-- The text of an overflow. -/
def OverflowCause.message : OverflowCause → String
  | codeEnd stop => s!"offset {stop} does not fit u32"
  | backward offset => s!"relative jump at {offset} would point backwards"
  | width mnemonic offset => s!"relocated operand of {mnemonic} at {offset} changes its width"
  | fault cause => cause.message
  | note text => text

/-- What contradicts itself in a unit. -/
inductive MalformedCause
  /-- A line starts inside an instruction or beyond the code. -/
  | lineOffBoundary (line offset : UInt32)
  | operandMissing (mnemonic : String) (offset : UInt32)
  /-- A jump leads inside an instruction or beyond the code. -/
  | jumpOffBoundary (mnemonic : String) (offset : UInt32) (target : Nat)
  /-- A nested unit has no woven counterpart. -/
  | notWoven (unit : String)
  | fault (cause : Fault)
  | note (text : String)
deriving DecidableEq, Repr

/-- The text of a malformed unit's cause. -/
def MalformedCause.message : MalformedCause → String
  | lineOffBoundary line offset =>
    s!"line {line} starts at offset {offset}, not an instruction boundary"
  | operandMissing mnemonic offset => s!"{mnemonic} at {offset} has no operand"
  | jumpOffBoundary mnemonic offset target =>
    s!"{mnemonic} at {offset} jumps to {target}, not an instruction boundary"
  | notWoven unit => s!"nested unit `{unit}` was not rewritten"
  | fault cause => cause.message
  | note text => text

/-- What is wrong with a unit. -/
inductive WeaveCause
  /-- An instruction stands in the way of probes. -/
  | unsupported (mnemonic : String) (offset : UInt32) (obstacle : Obstacle)
  | overflow (cause : OverflowCause)
  | malformed (cause : MalformedCause)
deriving DecidableEq, Repr

namespace WeaveCause

/-- The text of a cause. -/
def message : WeaveCause → String
  | unsupported mnemonic offset obstacle =>
    s!"unsupported instruction {mnemonic} at offset {offset}: {obstacle.message}"
  | overflow cause => s!"encoding overflow: {cause.message}"
  | malformed cause => s!"malformed input: {cause.message}"

/-- A fault of encoding as a cause: an overflow if the fault lies in the range of the encoding. -/
def ofFault (f : Fault) : WeaveCause :=
  if f.isRange then overflow (.fault f) else malformed (.fault f)

end WeaveCause

/-- A cause with the path of its unit. -/
structure WeaveFault where
  /-- The names of the units from the root to the one at fault. -/
  path : List String
  cause : WeaveCause
deriving DecidableEq, Repr

namespace WeaveFault

/-- The fault of a unit that stands alone. -/
def ofUnit (unit : String) (cause : WeaveCause) : WeaveFault :=
  ⟨[unit], cause⟩

/-- The fault with further units around its path, the outermost first. -/
def within (f : WeaveFault) (outer : List String) : WeaveFault :=
  { f with path := outer ++ f.path }

/-- The name of the unit at fault. -/
def unit (f : WeaveFault) : String :=
  f.path.getLast?.getD ""

/-- The text of a fault. -/
def message (f : WeaveFault) : String :=
  "/".intercalate f.path ++ ": " ++ f.cause.message

end WeaveFault

end CoverProbe
