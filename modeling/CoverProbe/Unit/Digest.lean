import CoverProbe.Unit.Basic

set_option relaxedAutoImplicit false
set_option autoImplicit false

/-!
# Hashes of units

A hash over all that equality of units looks at: a constant's kind and its value, floating-point
values by their bits, nested units with all their parts.

## Main definitions

* `CoverProbe.CodeUnit.digest` — the hash of a unit.
-/

namespace CoverProbe.CodeUnit

mutual

/-- The hash of a unit. -/
def digest : CodeUnit → UInt64
  | ⟨name, firstLine, code, consts, lineTable⟩ =>
    mixHash (hash (name, firstLine, code, lineTable)) (digestPool consts)

/-- The hash of a pool. -/
def digestPool : Pool → UInt64
  | [] => 7
  | c :: rest => mixHash (digestConstant c) (digestPool rest)

/-- The hash of a constant. -/
def digestConstant : Constant CodeUnit → UInt64
  | .null => hash (0, ())
  | .bool b => hash (1, b)
  | .int z => hash (2, z.toInt)
  | .float x => hash (3, x.bits)
  | .str s => hash (4, s)
  | .bytes bs => hash (5, bs)
  | .unit u => mixHash 6 (digest u)

end

instance : Hashable CodeUnit := ⟨digest⟩

instance : Hashable (Constant CodeUnit) := ⟨digestConstant⟩

end CoverProbe.CodeUnit
