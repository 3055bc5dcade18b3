import CoverProbe.Decimal.Binary64
import CoverProbe.Instruction.Basic
import CoverProbe.LineTable.Attribution
import CoverProbe.LineTable.Codec

set_option relaxedAutoImplicit false
set_option autoImplicit false

/-!
# Code units

A code unit is a compiled routine: an instruction stream, a constant pool and a line table. The
pool may hold further units, so a unit is the root of a tree.

## Main definitions

* `CoverProbe.Constant` — what a slot of a pool may hold.
* `CoverProbe.CodeUnit` — a unit with its pool.
* `CoverProbe.CodeUnit.lineStarts`, `CoverProbe.CodeUnit.instructions` — a unit decoded.
* `CoverProbe.Pool.units`, `CoverProbe.Pool.mapUnits` — the nested units of a pool.

## Implementation notes

Floating-point constants are told apart by their bits, so equality of units is equality of all that
a container stores. A pool is a list; slots count from zero.
-/

namespace CoverProbe

/-! ## Constants and units -/

/-- What a slot of a constant pool holds, with nested units of type `υ`. -/
inductive Constant (υ : Type) where
  | null
  | bool (value : Bool)
  | int (value : Int64)
  | float (value : Binary64)
  | str (value : String)
  | bytes (value : List UInt8)
  | unit (value : υ)

/-- A compiled routine: instruction stream, constants and line table. -/
structure CodeUnit where
  name : String
  /-- The line that the line table counts from. -/
  firstLine : UInt32
  /-- The encoded instruction stream. -/
  code : List UInt8
  consts : List (Constant CodeUnit)
  /-- The encoded line table. -/
  lineTable : List UInt8

/-- The slots of a unit's constants. -/
abbrev Pool := List (Constant CodeUnit)

/-- The nested unit that a slot holds, if it holds one. -/
def Constant.unit? {υ : Type} : Constant υ → Option υ
  | unit u => some u
  | _ => none

/-! ## Pools -/

namespace Pool

/-- The constant of a slot. -/
def get? (pool : Pool) (slot : UInt32) : Option (Constant CodeUnit) :=
  pool[slot.toNat]?

/-- The pool with a constant in a new last slot. -/
def add (pool : Pool) (value : Constant CodeUnit) : Pool :=
  pool ++ [value]

/-- The nested units, by slot. -/
def units (pool : Pool) : List CodeUnit :=
  pool.filterMap Constant.unit?

/-- The number of slots without a nested unit. -/
def plainSize (pool : Pool) : Nat :=
  pool.countP (·.unit?.isNone)

/-- The first nested unit of a pool, and the slots behind it. -/
def nextUnit? : Pool → Option (CodeUnit × Pool)
  | [] => none
  | .unit u :: rest => some (u, rest)
  | _ :: rest => nextUnit? rest

/-- The pool with `f u` in place of every nested unit `u`, taken by slot. The first unit that `f`
refuses decides the failure. -/
def mapUnits {m : Type → Type} [Monad m] (f : CodeUnit → m CodeUnit) : Pool → m Pool
  | [] => pure []
  | .unit u :: rest => do
    let v ← f u
    let more ← mapUnits f rest
    return .unit v :: more
  | c :: rest => do
    let more ← mapUnits f rest
    return c :: more

end Pool

namespace CodeUnit

/-! ## Decoded views -/

/-- The decoded line table. -/
def lineStarts (u : CodeUnit) (sign : SignConvention) : Except Fault (List LineStart) :=
  LineTable.decode sign u.lineTable u.firstLine

/-- The decoded instructions, each with its source line. -/
def instructions (u : CodeUnit) (isa : InstructionSet) (sign : SignConvention) :
    Except Fault (List Instruction) := do
  let insns ← isa.decode u.code
  let starts ← u.lineStarts sign
  return Instruction.withLines starts insns

/-! ## Size and equality -/

mutual

/-- The number of units of a tree. -/
def treeSize : CodeUnit → Nat
  | ⟨_, _, _, consts, _⟩ => 1 + poolSize consts

/-- The number of units of the trees in a pool. -/
def poolSize : Pool → Nat
  | [] => 0
  | .unit u :: rest => treeSize u + poolSize rest
  | _ :: rest => poolSize rest

end

mutual

/-- Are the units the same? -/
def same : CodeUnit → CodeUnit → Bool
  | ⟨name, line, code, consts, table⟩, ⟨name', line', code', consts', table'⟩ =>
    name == name' && line == line' && code == code' && table == table' &&
      samePool consts consts'

/-- Are the pools the same? -/
def samePool : Pool → Pool → Bool
  | [], [] => true
  | c :: rest, c' :: rest' => sameConstant c c' && samePool rest rest'
  | _, _ => false

/-- Are the constants the same? Floating-point values are the same when their bits are. -/
def sameConstant : Constant CodeUnit → Constant CodeUnit → Bool
  | .null, .null => true
  | .bool a, .bool b => a == b
  | .int a, .int b => a == b
  | .float a, .float b => a == b
  | .str a, .str b => a == b
  | .bytes a, .bytes b => a == b
  | .unit a, .unit b => same a b
  | _, _ => false

end

mutual

theorem eq_of_same : ∀ {u v : CodeUnit}, same u v = true → u = v
  | ⟨_, _, _, consts, _⟩, ⟨_, _, _, consts', _⟩, h => by
    simp only [same, Bool.and_eq_true, beq_iff_eq] at h
    obtain ⟨⟨⟨⟨rfl, rfl⟩, rfl⟩, rfl⟩, h⟩ := h
    rw [eq_of_samePool h]

theorem eq_of_samePool : ∀ {p q : Pool}, samePool p q = true → p = q
  | [], [], _ => rfl
  | _ :: _, _ :: _, h => by
    simp only [samePool, Bool.and_eq_true] at h
    rw [eq_of_sameConstant h.1, eq_of_samePool h.2]
  | [], _ :: _, h => by simp [samePool] at h
  | _ :: _, [], h => by simp [samePool] at h

theorem eq_of_sameConstant : ∀ {c d : Constant CodeUnit}, sameConstant c d = true → c = d
  | .unit a, d, h => by
    cases d with
    | unit b =>
      simp only [sameConstant] at h
      rw [eq_of_same h]
    | _ => simp [sameConstant] at h
  | .null, d, h => by cases d <;> simp_all [sameConstant]
  | .bool _, d, h => by cases d <;> simp_all [sameConstant]
  | .int _, d, h => by cases d <;> simp_all [sameConstant]
  | .float _, d, h => by cases d <;> simp_all [sameConstant]
  | .str _, d, h => by cases d <;> simp_all [sameConstant]
  | .bytes _, d, h => by cases d <;> simp_all [sameConstant]

end

mutual

theorem same_self : ∀ u : CodeUnit, same u u = true
  | ⟨_, _, _, consts, _⟩ => by simp [same, samePool_self consts]

theorem samePool_self : ∀ p : Pool, samePool p p = true
  | [] => rfl
  | c :: rest => by simp [samePool, sameConstant_self c, samePool_self rest]

theorem sameConstant_self : ∀ c : Constant CodeUnit, sameConstant c c = true
  | .unit u => by simp [sameConstant, same_self u]
  | .null | .bool _ | .int _ | .float _ | .str _ | .bytes _ => by simp [sameConstant]

end

instance : DecidableEq CodeUnit := fun u v =>
  decidable_of_iff (same u v = true) ⟨eq_of_same, fun h => h ▸ same_self u⟩

instance : DecidableEq (Constant CodeUnit) := fun c d =>
  decidable_of_iff (sameConstant c d = true)
    ⟨eq_of_sameConstant, fun h => h ▸ sameConstant_self c⟩

end CodeUnit

end CoverProbe
