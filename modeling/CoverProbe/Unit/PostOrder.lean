import CoverProbe.Unit.Basic

set_option relaxedAutoImplicit false
set_option autoImplicit false

/-!
# Post-order

The units of a tree, every unit behind the units nested in it: the trees of its pool by slot, then
the unit, the root last.

## Main definitions

* `CoverProbe.CodeUnit.postOrder` — the units, found with a stack of cursors into pools.
* `CoverProbe.CodeUnit.nestedOrder` — the same order told by recursion on the tree.
* `CoverProbe.CodeUnit.treeLength` — the number of units met.

## Implementation notes

The walk keeps its own stack, so its depth is not bounded by that of the machine. Each step either
enters a nested unit or leaves a unit for good; `CoverProbe.PostOrder.weight` falls with both.
-/

namespace CoverProbe

namespace PostOrder

/-- A unit that the walk has entered, with the slots of its pool still to be visited. -/
structure Cursor where
  unit : CodeUnit
  pending : Pool

/-- The cursor on a unit just entered. -/
def Cursor.enter (u : CodeUnit) : Cursor :=
  ⟨u, u.consts⟩

/-- A bound on the steps left: each pending unit is entered once and each cursor left once. -/
def weight : List Cursor → Nat
  | [] => 0
  | c :: above => 1 + 2 * CodeUnit.poolSize c.pending + weight above

theorem poolSize_of_nextUnit? {pool rest : Pool} {u : CodeUnit}
    (h : Pool.nextUnit? pool = some (u, rest)) :
    CodeUnit.poolSize pool = 1 + CodeUnit.poolSize u.consts + CodeUnit.poolSize rest := by
  fun_induction Pool.nextUnit? pool with
  | case1 => simp at h
  | case2 v more =>
    simp only [Option.some.injEq, Prod.mk.injEq] at h
    obtain ⟨rfl, rfl⟩ := h
    cases v
    simp [CodeUnit.poolSize, CodeUnit.treeSize]
  | case3 c more hc ih =>
    rw [← ih h]
    cases c with
    | unit v => exact absurd rfl (hc v)
    | _ => rfl

/-- The units that the walk leaves, in order, from a stack of cursors on. -/
def leave : List Cursor → List CodeUnit
  | [] => []
  | c :: above =>
    match _h : Pool.nextUnit? c.pending with
    | some (child, rest) => leave (.enter child :: ⟨c.unit, rest⟩ :: above)
    | none => c.unit :: leave above
termination_by stack => weight stack
decreasing_by
  · have := poolSize_of_nextUnit? _h
    simp only [weight, Cursor.enter]
    omega
  · simp only [weight]
    omega

end PostOrder

namespace CodeUnit

/-- The units of a tree, every unit behind those nested in it. -/
def postOrder (root : CodeUnit) : List CodeUnit :=
  PostOrder.leave [.enter root]

/-- The number of units of a tree. -/
def treeLength (root : CodeUnit) : Nat :=
  root.postOrder.length

mutual

/-- The units of a tree in post-order, by recursion: the trees of the pool, then the unit. -/
def nestedOrder : CodeUnit → List CodeUnit
  | ⟨name, firstLine, code, consts, lineTable⟩ =>
    poolOrder consts ++ [⟨name, firstLine, code, consts, lineTable⟩]

/-- The units of the trees of a pool in post-order. -/
def poolOrder : Pool → List CodeUnit
  | [] => []
  | .unit u :: rest => nestedOrder u ++ poolOrder rest
  | _ :: rest => poolOrder rest

end

end CodeUnit

end CoverProbe
