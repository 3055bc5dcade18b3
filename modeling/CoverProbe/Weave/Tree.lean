import CoverProbe.Weave.Body
import CoverProbe.Unit.PostOrder

set_option relaxedAutoImplicit false
set_option autoImplicit false

/-!
# Weaving probes into a tree

A tree is woven unit by unit: the body of a unit first, then the units nested in it by slot.
Random words are drawn in that order, and units are ranked in it. Units are put together again, and
reported, nested units first.

## Main definitions

* `CoverProbe.UnitReport`, `CoverProbe.WeaveReport` — what was done to the units of a tree.
* `CoverProbe.Weaver.walk` — the walk over the tree, with a stack of its own.
* `CoverProbe.Weaver.tree` — a tree woven.
* `CoverProbe.Weaver.treeWithReport` — a tree woven, and the report.

## Implementation notes

Each step of the walk either enters a nested unit or leaves a unit for good, as in
`CoverProbe.PostOrder`. Ranks are 32-bit words.
-/

namespace CoverProbe

/-! ## Reports -/

/-- What was done to one unit. -/
structure UnitReport where
  /-- The names from the root to the unit, with slashes between them. -/
  path : String
  /-- The rank of the unit, every unit counted before those nested in it. -/
  index : UInt32
  candidates : Nat
  probes : Nat
  bytesBefore : Nat
  bytesAfter : Nat
deriving DecidableEq, Repr

/-- What was done to the units of a tree, nested units first. -/
structure WeaveReport where
  units : List UnitReport
deriving DecidableEq, Repr

/-- The number of probes put into the tree. -/
def WeaveReport.probes (report : WeaveReport) : Nat :=
  report.units.foldl (fun count unit => count + unit.probes) 0

/-! ## The walk -/

namespace TreeWalk

/-- A unit that the walk has entered: its new body is known, the slots `pending` are still to be
visited, and the units nested in the slots before them are woven. -/
structure Frame where
  unit : CodeUnit
  index : UInt32
  body : WovenBody
  pending : Pool
  /-- The woven units, by slot. -/
  children : List CodeUnit

/-- A bound on the steps left, as for the cursors of `CoverProbe.PostOrder`. -/
def weight : List Frame → Nat
  | [] => 0
  | f :: above => 1 + 2 * CodeUnit.poolSize f.pending + weight above

/-- The names of the units on a stack, from the root to the innermost. -/
def pathOf (stack : List Frame) : List String :=
  (stack.map (·.unit.name)).reverse

/-- The next woven unit in place of a nested one. -/
def takeChild (nested : CodeUnit) :
    StateT (List CodeUnit) (Except WeaveCause) CodeUnit := do
  match ← get with
  | child :: rest =>
    set rest
    return child
  | [] => throw (.malformed (.notWoven nested.name))

/-- The unit of a frame with its new body and its woven units. -/
def Frame.rebuild (f : Frame) : Except WeaveCause CodeUnit := do
  let consts ← (Pool.mapUnits takeChild f.unit.consts).run' f.children
  return Weaver.rebuild f.unit f.body consts

/-- What was done to the unit of the frame on top of a stack. -/
def Frame.report (f : Frame) (above : List Frame) : UnitReport :=
  ⟨"/".intercalate (pathOf (f :: above)), f.index, f.body.candidates, f.body.probes,
    f.unit.code.length, f.body.code.length⟩

end TreeWalk

namespace Weaver

open TreeWalk

variable {ρ : Type}

/-- The new body of a unit of rank `index` below the frames `above`. -/
def bodyBelow (r : Weaver ρ) (above : List Frame) (u : CodeUnit) (index : UInt32)
    (topLevel : Bool) : ExceptT WeaveFault (StateM ρ) WovenBody :=
  (r.body u index topLevel).adapt fun cause =>
    (WeaveFault.ofUnit u.name cause).within (pathOf above)

/-- The walk from a frame on; `above` are the frames around it, `last` the rank given last, and
`done` the reports so far, the newest first, if reports are asked for. -/
def walk (r : Weaver ρ) (frame : Frame) (above : List Frame) (last : UInt32)
    (done : Option (List UnitReport)) :
    ExceptT WeaveFault (StateM ρ) (CodeUnit × Option (List UnitReport)) :=
  match _h : Pool.nextUnit? frame.pending with
  | some (child, rest) => do
    let outer := { frame with pending := rest } :: above
    let body ← r.bodyBelow outer child (last + 1) false
    walk r ⟨child, last + 1, body, child.consts, []⟩ outer (last + 1) done
  | none => do
    let u ← ExceptT.mk (pure (frame.rebuild.mapError fun cause =>
      (WeaveFault.ofUnit frame.unit.name cause).within (pathOf above)))
    let done := done.map (frame.report above :: ·)
    match above with
    | parent :: outer => walk r { parent with children := parent.children ++ [u] } outer last done
    | [] => return (u, done)
termination_by weight (frame :: above)
decreasing_by
  · have := PostOrder.poolSize_of_nextUnit? _h
    simp only [weight]
    omega
  · simp only [weight]
    omega

/-- A tree woven, and what was done to its units. -/
def treeWithReport (r : Weaver ρ) (root : CodeUnit) (topLevel : Bool) :
    ExceptT WeaveFault (StateM ρ) (CodeUnit × WeaveReport) := do
  let body ← r.bodyBelow [] root 0 topLevel
  let (u, done) ← r.walk ⟨root, 0, body, root.consts, []⟩ [] 0 (some [])
  return (u, ⟨(done.getD []).reverse⟩)

/-- A tree woven. Only its root counts as the root of a top-level module. -/
def tree (r : Weaver ρ) (root : CodeUnit) (topLevel : Bool) :
    ExceptT WeaveFault (StateM ρ) CodeUnit := do
  let body ← r.bodyBelow [] root 0 topLevel
  return (← r.walk ⟨root, 0, body, root.consts, []⟩ [] 0 none).1

end Weaver

end CoverProbe
