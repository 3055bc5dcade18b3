import Mathlib.Algebra.GroupWithZero.Nat
import CoverProbe.Proofs.Unit.Position

set_option relaxedAutoImplicit false
set_option autoImplicit false

/-!
# The walk, unit by unit

Whoever asks the walk for one unit after the other gets the tree in post-order and then nothing: the
walk enters nested units until one has none pending, gives that one, and keeps the cursors above it.
Every position of the tree that leads to a unit is visited once.

## Main definitions

* `CoverProbe.PostOrder.next?` — the next unit of a walk, and the walk behind it.
* `CoverProbe.PostOrder.nextBySlot?` — the same with cursors that hold slots.
* `CoverProbe.PostOrder.Yields` — the units that a walk gives up to its end.

## Main results

* `CoverProbe.PostOrder.next?_ofSlot` — cursors that hold slots give the same units.
* `CoverProbe.PostOrder.yields_iff` — a walk ends, and gives the units it leaves.
* `CoverProbe.CodeUnit.postOrder_eq_flatMap` — the post-order of a tree by those of its pool.
* `CoverProbe.CodeUnit.mem_positions_iff` — a tree lists the positions that lead to its units.
* `CoverProbe.CodeUnit.visits_tree` — what the walk over a tree gives.
-/

namespace CoverProbe

open CodeUnit

namespace PostOrder

/-! ## Unit by unit -/

/-- The next unit that the walk leaves, and the stack of cursors behind it. -/
def next? : List Cursor → Option (CodeUnit × List Cursor)
  | [] => none
  | c :: above =>
    match _h : Pool.nextUnit? c.pending with
    | some (child, rest) => next? (.enter child :: ⟨c.unit, rest⟩ :: above)
    | none => some (c.unit, above)
termination_by stack => weight stack
decreasing_by
  have := poolSize_of_nextUnit? _h
  simp only [weight, Cursor.enter]
  omega

/-- The cursor on a unit whose slots from `p.2` on are still to be visited. -/
def Cursor.ofSlot (p : CodeUnit × Nat) : Cursor :=
  ⟨p.1, p.1.consts.drop p.2⟩

/-- The next unit that the walk leaves, and the stack behind it, where each unit entered comes with
the slot from which its pool is still to be visited. -/
def nextBySlot? : List (CodeUnit × Nat) → Option (CodeUnit × List (CodeUnit × Nat))
  | [] => none
  | (u, slot) :: above =>
    match _h : Pool.nextSlot? u.consts slot with
    | some (k, child) => nextBySlot? ((child, 0) :: (u, k + 1) :: above)
    | none => some (u, above)
termination_by stack => weight (stack.map Cursor.ofSlot)
decreasing_by
  have hnext := Pool.nextUnit?_drop u.consts slot
  rw [_h] at hnext
  have hsize := poolSize_of_nextUnit? hnext
  dsimp only at hsize
  simp only [List.map_cons, Cursor.ofSlot, weight, List.drop_zero]
  omega

/-- **Cursors that hold slots give the same units** as cursors that hold what is left of pools. -/
theorem next?_ofSlot (stack : List (CodeUnit × Nat)) :
    next? (stack.map Cursor.ofSlot) =
      (nextBySlot? stack).map fun p => (p.1, p.2.map Cursor.ofSlot) := by
  fun_induction nextBySlot? stack with
  | case1 => rw [List.map_nil, next?, Option.map_none]
  | case2 u slot above k child h ih =>
    have hnext := Pool.nextUnit?_drop u.consts slot
    rw [h] at hnext
    rw [← ih, List.map_cons, next?]
    split
    · rename_i child' rest' h'
      obtain ⟨rfl, rfl⟩ := Prod.mk.inj (Option.some.inj (hnext.symm.trans h'))
      rfl
    · rename_i h'
      exact absurd (hnext.symm.trans h') (by simp)
  | case3 u slot above h =>
    have hnext := Pool.nextUnit?_drop u.consts slot
    rw [h] at hnext
    rw [List.map_cons, next?]
    split
    · rename_i h'
      exact absurd (hnext.symm.trans h') (by simp)
    · rfl

/-- The units that a walk gives, one after the other, until there is none. -/
inductive Yields : List Cursor → List CodeUnit → Prop
  | done {stack : List Cursor} (h : next? stack = none) : Yields stack []
  | more {stack behind : List Cursor} {u : CodeUnit} {rest : List CodeUnit}
      (h : next? stack = some (u, behind)) (hrest : Yields behind rest) : Yields stack (u :: rest)

/-- The next unit is the first of those that the walk leaves, and the others are left behind it. -/
lemma leave_eq_next? (stack : List Cursor) :
    leave stack = (next? stack).elim [] fun p => p.1 :: leave p.2 := by
  fun_induction next? stack with
  | case1 => rw [leave, Option.elim]
  | case2 c above child rest h ih =>
    rw [← ih, leave]
    split
    · rename_i child' rest' h'
      obtain ⟨rfl, rfl⟩ := Prod.mk.inj (Option.some.inj (h.symm.trans h'))
      rfl
    · rename_i h'
      exact absurd (h.symm.trans h') (by simp)
  | case3 c above h =>
    rw [leave]
    split
    · rename_i h'
      exact absurd (h.symm.trans h') (by simp)
    · rfl

/-- **A walk ends, and gives the units that it leaves.**

**Proof sketch.** What is given is what is left, unit by unit (`leave_eq_next?`). Each unit given
shortens the list of those still to be left, so the walk reaches its end. -/
theorem yields_iff {stack : List Cursor} {units : List CodeUnit} :
    Yields stack units ↔ units = leave stack := by
  constructor
  · intro h
    induction h with
    | done h => rw [leave_eq_next?, h, Option.elim]
    | more h _ ih =>
      rw [leave_eq_next?, h, ih]
      rfl
  · intro h
    induction units generalizing stack with
    | nil =>
      rw [leave_eq_next?] at h
      cases hnext : next? stack with
      | none => exact .done hnext
      | some p =>
        rw [hnext] at h
        cases h
    | cons u rest ih =>
      rw [leave_eq_next?] at h
      cases hnext : next? stack with
      | none =>
        rw [hnext] at h
        cases h
      | some p =>
        rw [hnext] at h
        obtain ⟨rfl, hrest⟩ := List.cons.inj h
        exact .more hnext (ih hrest)

/-- A pool is visited tree by tree. -/
lemma poolOrder_eq_flatMap (pool : Pool) : poolOrder pool = pool.units.flatMap nestedOrder := by
  induction pool with
  | nil =>
    rw [poolOrder]
    rfl
  | cons c rest ih =>
    cases c with
    | unit u =>
      rw [poolOrder, ih]
      rfl
    | null | bool | int | float | str | bytes =>
      rw [poolOrder_plain rfl, ih]
      rfl

end PostOrder

namespace CodeUnit

open PostOrder

/-- **The post-order of a tree**: those of the trees in its pool by slot, then its root. -/
theorem postOrder_eq_flatMap (root : CodeUnit) :
    root.postOrder = (Pool.units root.consts).flatMap postOrder ++ [root] := by
  rw [postOrder_eq_nestedOrder, nestedOrder_eq, poolOrder_eq_flatMap,
    funext postOrder_eq_nestedOrder]

/-- **The number of units of a tree**: one, and those of the trees in its pool. -/
theorem treeLength_eq_sum (root : CodeUnit) :
    root.treeLength = 1 + ((Pool.units root.consts).map treeLength).sum := by
  rw [treeLength, postOrder_eq_flatMap, List.length_append, List.length_flatMap, Nat.add_comm]
  rfl

/-! ## Positions -/

/-- A position listed in a tree leads to a unit. -/
lemma exists_at_of_mem_positions {order : Order} {u : CodeUnit} {position : List Nat}
    (h : position ∈ positions order u) : ∃ names w, At u position names w := by
  have hpost := (perm_positions order .post u).mem_iff.1 h
  obtain ⟨k, hk⟩ := List.getElem?_of_mem hpost
  obtain ⟨seat, -, hseated⟩ := exists_partner (seated_positions [] 0 u) hk
  obtain ⟨names, hat, -⟩ := hseated.leads
  exact ⟨names, seat.unit, hat⟩

/-- The positions of a tree in a slot are listed with its pool. -/
lemma mem_poolPositions {order : Order} {pool : Pool} {first slot : Nat} {u : CodeUnit}
    {position : List Nat} (hslot : pool[slot]? = some (.unit u))
    (h : position ∈ positions order u) :
    (first + slot) :: position ∈ poolPositions order first pool := by
  induction pool generalizing first slot with
  | nil => simp at hslot
  | cons c rest ih =>
    cases slot with
    | zero =>
      obtain rfl := Option.some.inj hslot
      rw [poolPositions]
      exact List.mem_append_left _ (List.mem_map_of_mem h)
    | succ slot =>
      have hrest : (first + (slot + 1)) :: position ∈ poolPositions order (first + 1) rest := by
        rw [← Nat.add_assoc, Nat.add_right_comm]
        exact ih hslot
      cases c with
      | unit v =>
        rw [poolPositions]
        exact List.mem_append_right _ hrest
      | null | bool | int | float | str | bytes =>
        rw [poolPositions_plain order first rfl]
        exact hrest

/-- **A tree lists the positions that lead to its units**, and no others. -/
theorem mem_positions_iff {order : Order} {u : CodeUnit} {position : List Nat} :
    position ∈ positions order u ↔ ∃ names w, At u position names w := by
  refine ⟨exists_at_of_mem_positions, ?_⟩
  rintro ⟨names, w, hat⟩
  induction hat with
  | here u =>
    rw [positions_eq, (order.perm_list _ _).mem_iff]
    exact List.mem_cons_self
  | nested hslot _ ih =>
    rw [positions_eq, (order.perm_list _ _).mem_iff]
    have hpool := @mem_poolPositions order _ 0 _ _ _ hslot ih
    rw [Nat.zero_add] at hpool
    exact List.mem_cons_of_mem _ hpool

/-- **The walk over a tree visits the tree exactly.** Asked for one unit after the other, it ends
and gives the post-order of the tree, and no other list: the post-orders of the trees in the pool by
slot, then the root. There is a list of all positions that lead to units, each position once, whose
positions lead to the units given, one by one. The number of units is one and those of the trees in
the pool.

**Proof sketch.** The stack of cursors is told by what it will still leave
(`PostOrder.leave_eq`, `PostOrder.yields_iff`), so the walk is the recursion. The recursion on units
and the recursion on positions go along the pools together (`seated_positions`). -/
theorem visits_tree (root : CodeUnit) :
    (∀ units, Yields [.enter root] units ↔ units = root.postOrder) ∧
      root.postOrder = (Pool.units root.consts).flatMap postOrder ++ [root] ∧
      (∃ places : List (List Nat), places.Nodup ∧
        (∀ position, position ∈ places ↔ ∃ names u, At root position names u) ∧
        List.Forall₂ (fun position u => ∃ names, At root position names u) places
          root.postOrder) ∧
      root.treeLength = 1 + ((Pool.units root.consts).map treeLength).sum := by
  refine ⟨fun units => yields_iff, postOrder_eq_flatMap root,
    ⟨positions .post root, nodup_positions .post root, fun position => mem_positions_iff, ?_⟩,
    treeLength_eq_sum root⟩
  rw [postOrder_eq_nestedOrder, ← map_unit_seatsBelow [] 0, List.forall₂_map_right_iff]
  refine (seated_positions [] 0 root).imp fun position seat hseated => ?_
  obtain ⟨names, hat, -⟩ := hseated.leads
  exact ⟨names, hat⟩

end CodeUnit

end CoverProbe
