import Mathlib.Tactic.Lemma
import CoverProbe.Unit.PostOrder

set_option relaxedAutoImplicit false
set_option autoImplicit false

/-!
# Post-order by recursion

The walk that keeps its own stack visits a tree in the order that recursion tells: for each cursor
it leaves the units of the trees still pending, then the unit of the cursor. Cursors hold the slots
still to be visited; these are what is left of the pool behind a slot, so cursors that hold a slot
number come to the same.

## Main definitions

* `CoverProbe.Pool.nextSlot?` — the next nested unit, by slot.

## Main results

* `CoverProbe.Pool.nextUnit?_drop` — the rest of a pool stands for a slot.
* `CoverProbe.PostOrder.leave_eq` — the units that the walk leaves from a stack on.
* `CoverProbe.CodeUnit.postOrder_eq_nestedOrder` — the walk over a tree is the recursion.
-/

namespace CoverProbe

/-! ## Slots -/

namespace Pool

/-- The first slot from `slot` on that holds a nested unit, and the unit. -/
def nextSlot? (pool : Pool) (slot : Nat) : Option (Nat × CodeUnit) :=
  ((pool.drop slot).zipIdx slot).findSome? fun p => p.1.unit?.map fun u => (p.2, u)

/-- **The rest of a pool stands for a slot**: its first nested unit is the first one from that slot
on, and behind it the pool is left from the next slot on. -/
theorem nextUnit?_drop (pool : Pool) (slot : Nat) :
    nextUnit? (pool.drop slot) =
      (pool.nextSlot? slot).map fun p => (p.2, pool.drop (p.1 + 1)) := by
  rw [nextSlot?]
  generalize hrest : pool.drop slot = rest
  induction rest generalizing slot with
  | nil => rfl
  | cons c more ih =>
    have hmore : pool.drop (slot + 1) = more := by
      rw [← List.tail_drop, hrest, List.tail_cons]
    cases c with
    | unit u =>
      rw [nextUnit?, ← hmore]
      rfl
    | null | bool | int | float | str | bytes => exact ih (slot + 1) hmore

end Pool

open CodeUnit

namespace PostOrder

/-! ## The recursion -/

/-- A tree in post-order: the trees of its pool, then its root. -/
lemma nestedOrder_eq (u : CodeUnit) : nestedOrder u = poolOrder u.consts ++ [u] := by
  cases u
  rw [nestedOrder]

/-- Constants that are no units are not visited. -/
lemma poolOrder_plain {c : Constant CodeUnit} (h : c.unit? = none) (rest : Pool) :
    poolOrder (c :: rest) = poolOrder rest := by
  cases c with
  | unit u => simp [Constant.unit?] at h
  | null | bool | int | float | str | bytes => rw [poolOrder]; simp

/-- A pool is visited slot by slot. -/
lemma poolOrder_append (pool more : Pool) :
    poolOrder (pool ++ more) = poolOrder pool ++ poolOrder more := by
  induction pool with
  | nil => rw [poolOrder, List.nil_append, List.nil_append]
  | cons c rest ih =>
    rw [List.cons_append]
    cases c with
    | unit u => rw [poolOrder, poolOrder, ih, List.append_assoc]
    | null | bool | int | float | str | bytes =>
      rw [poolOrder_plain rfl, poolOrder_plain rfl]
      exact ih

/-- The first nested unit of a pool is visited with its tree, then the pool behind it. -/
lemma poolOrder_of_nextUnit? {pool rest : Pool} {u : CodeUnit}
    (h : Pool.nextUnit? pool = some (u, rest)) :
    poolOrder pool = nestedOrder u ++ poolOrder rest := by
  induction pool with
  | nil => simp [Pool.nextUnit?] at h
  | cons c more ih =>
    cases c with
    | unit v =>
      obtain ⟨rfl, rfl⟩ := Prod.mk.inj (Option.some.inj h)
      rw [poolOrder]
    | null | bool | int | float | str | bytes =>
      rw [poolOrder_plain rfl]
      exact ih h

/-- A pool without nested units is not visited. -/
lemma poolOrder_of_nextUnit?_eq_none {pool : Pool} (h : Pool.nextUnit? pool = none) :
    poolOrder pool = [] := by
  induction pool with
  | nil => rw [poolOrder]
  | cons c more ih =>
    cases c with
    | unit v => simp [Pool.nextUnit?] at h
    | null | bool | int | float | str | bytes =>
      rw [poolOrder_plain rfl]
      exact ih h

/-- **What the walk leaves from a stack on**: for each cursor the units of the trees still pending,
then its unit.

**Proof sketch.** Induction along the walk. Entering a nested unit puts a cursor with all of its
pool on the stack, and that leaves its tree. -/
theorem leave_eq (stack : List Cursor) :
    leave stack = stack.flatMap fun c => poolOrder c.pending ++ [c.unit] := by
  fun_induction leave stack with
  | case1 => rfl
  | case2 c above child rest h ih =>
    rw [ih, List.flatMap_cons, List.flatMap_cons, List.flatMap_cons, poolOrder_of_nextUnit? h,
      nestedOrder_eq, Cursor.enter]
    simp only [List.append_assoc]
  | case3 c above h ih =>
    rw [ih, List.flatMap_cons, poolOrder_of_nextUnit?_eq_none h]
    rfl

end PostOrder

namespace CodeUnit

/-- **The walk over a tree is the recursion.** -/
theorem postOrder_eq_nestedOrder (root : CodeUnit) : root.postOrder = root.nestedOrder := by
  rw [postOrder, PostOrder.leave_eq, PostOrder.nestedOrder_eq]
  simp only [List.flatMap_cons, List.flatMap_nil, List.append_nil]
  rfl

end CodeUnit

end CoverProbe
