import Mathlib.Data.List.Forall2
import Mathlib.Data.List.Nodup
import CoverProbe.Proofs.Unit.PostOrder

set_option relaxedAutoImplicit false
set_option autoImplicit false

/-!
# Positions in a tree

The position of a unit is the chain of pool slots that leads to it from the root. It tells the unit,
the names of the units on the way and, with the pre-order, the rank. Both orders of a tree list the
same positions.

## Main definitions

* `CoverProbe.CodeUnit.At` — a position leads to a unit, past units with certain names.
* `CoverProbe.CodeUnit.positions` — the positions of a tree, in either order.
* `CoverProbe.Seat`, `CoverProbe.CodeUnit.seatsBelow` — the units of a tree in post-order, with
  their names and ranks.

## Main results

* `CoverProbe.CodeUnit.nodup_positions` — no position is listed twice.
* `CoverProbe.CodeUnit.perm_positions` — both orders list the same positions.
* `CoverProbe.CodeUnit.seated_positions` — the position of each unit of the post-order tells its
  names and its rank.
-/

namespace CoverProbe

/-- In lists side by side, what stands in one has its partner in the other. -/
lemma exists_partner {α β : Type} {R : α → β → Prop} {as : List α} {bs : List β}
    (h : List.Forall₂ R as bs) {k : Nat} {a : α} (ha : as[k]? = some a) :
    ∃ b, bs[k]? = some b ∧ R a b := by
  induction h generalizing k with
  | nil => simp at ha
  | cons hab rest ih =>
    cases k with
    | zero =>
      obtain rfl := Option.some.inj ha
      exact ⟨_, rfl, hab⟩
    | succ k => exact ih ha

namespace CodeUnit

/-! ## Positions -/

/-- The chain of slots `position` leads from a unit to another, past units with the names `path`,
those of both ends included. -/
inductive At : CodeUnit → (position : List Nat) → (path : List String) → CodeUnit → Prop
  | here (u : CodeUnit) : At u [] [u.name] u
  | nested {u v w : CodeUnit} {slot : Nat} {position : List Nat} {path : List String}
      (hslot : u.consts[slot]? = some (.unit v)) (h : At v position path w) :
      At u (slot :: position) (u.name :: path) w

/-- The orders in which a tree is listed. -/
inductive Order
  /-- Every unit before those nested in it. -/
  | pre
  /-- Every unit behind those nested in it. -/
  | post

/-- A root with what is nested in it, in either order. -/
def Order.list {α : Type} (order : Order) (root : α) (nested : List α) : List α :=
  match order with
  | pre => root :: nested
  | post => nested ++ [root]

mutual

/-- The positions of the units of a tree. -/
def positions (order : Order) : CodeUnit → List (List Nat)
  | ⟨_, _, _, consts, _⟩ => order.list [] (poolPositions order 0 consts)

/-- The positions of the units of the trees in a pool whose first slot is number `slot`. -/
def poolPositions (order : Order) (slot : Nat) : Pool → List (List Nat)
  | [] => []
  | .unit u :: rest => (positions order u).map (slot :: ·) ++ poolPositions order (slot + 1) rest
  | _ :: rest => poolPositions order (slot + 1) rest

end

/-- The positions of a tree: the root's, and those of its pool. -/
lemma positions_eq (order : Order) (u : CodeUnit) :
    positions order u = order.list [] (poolPositions order 0 u.consts) := by
  cases u
  rw [positions]

/-- Constants that are no units have no positions. -/
lemma poolPositions_plain (order : Order) (slot : Nat) {c : Constant CodeUnit}
    (h : c.unit? = none) (rest : Pool) :
    poolPositions order slot (c :: rest) = poolPositions order (slot + 1) rest := by
  cases c with
  | unit u => simp [Constant.unit?] at h
  | null | bool | int | float | str | bytes => rw [poolPositions]; simp

/-- A root is listed with what is nested in it. -/
lemma Order.perm_list {α : Type} (order : Order) (root : α) (nested : List α) :
    (order.list root nested).Perm (root :: nested) := by
  cases order with
  | pre => exact .refl _
  | post => exact List.perm_append_singleton root nested

mutual

/-- **Both orders list the same positions.** -/
theorem perm_positions (order order' : Order) :
    ∀ u : CodeUnit, (positions order u).Perm (positions order' u)
  | ⟨name, firstLine, code, consts, lineTable⟩ => by
    rw [positions, positions]
    refine (order.perm_list _ _).trans (.trans ?_ (order'.perm_list _ _).symm)
    exact (perm_poolPositions order order' 0 consts).cons []

/-- Both orders list the same positions of a pool. -/
theorem perm_poolPositions (order order' : Order) (slot : Nat) :
    ∀ pool : Pool, (poolPositions order slot pool).Perm (poolPositions order' slot pool)
  | [] => by
    rw [poolPositions, poolPositions]
  | .unit u :: rest => by
    rw [poolPositions, poolPositions]
    exact ((perm_positions order order' u).map _).append
      (perm_poolPositions order order' (slot + 1) rest)
  | .null :: rest | .bool _ :: rest | .int _ :: rest | .float _ :: rest | .str _ :: rest
  | .bytes _ :: rest => by
    rw [poolPositions_plain order slot rfl, poolPositions_plain order' slot rfl]
    exact perm_poolPositions order order' (slot + 1) rest

end

mutual

/-- A tree has as many positions as units. -/
theorem length_positions (order : Order) :
    ∀ u : CodeUnit, (positions order u).length = treeSize u
  | ⟨name, firstLine, code, consts, lineTable⟩ => by
    rw [positions, (order.perm_list _ _).length_eq, treeSize, List.length_cons,
      length_poolPositions order 0 consts, Nat.add_comm]

/-- A pool has as many positions as units. -/
theorem length_poolPositions (order : Order) (slot : Nat) :
    ∀ pool : Pool, (poolPositions order slot pool).length = poolSize pool
  | [] => by rw [poolPositions, poolSize, List.length_nil]
  | .unit u :: rest => by
    rw [poolPositions, poolSize, List.length_append, List.length_map, length_positions order u,
      length_poolPositions order (slot + 1) rest]
  | .null :: rest | .bool _ :: rest | .int _ :: rest | .float _ :: rest | .str _ :: rest
  | .bytes _ :: rest => by
    rw [poolPositions_plain order slot rfl, length_poolPositions order (slot + 1) rest, poolSize]
    simp

end

/-- The positions of a pool begin with its slots. -/
lemma exists_cons_of_mem_poolPositions {order : Order} {slot : Nat} {pool : Pool}
    {position : List Nat} (h : position ∈ poolPositions order slot pool) :
    ∃ first rest, position = first :: rest ∧ slot ≤ first := by
  induction pool generalizing slot with
  | nil => simp [poolPositions] at h
  | cons c more ih =>
    have hmore : position ∈ poolPositions order (slot + 1) more →
        ∃ first rest, position = first :: rest ∧ slot ≤ first := by
      intro hmem
      obtain ⟨first, rest, rfl, hle⟩ := ih hmem
      exact ⟨first, rest, rfl, Nat.le_of_succ_le hle⟩
    cases c with
    | unit u =>
      rw [poolPositions, List.mem_append, List.mem_map] at h
      rcases h with ⟨rest, -, rfl⟩ | h
      · exact ⟨slot, rest, rfl, Nat.le_refl _⟩
      · exact hmore h
    | null | bool | int | float | str | bytes =>
      rw [poolPositions_plain order slot rfl] at h
      exact hmore h

mutual

/-- **No position is listed twice.** -/
theorem nodup_positions (order : Order) : ∀ u : CodeUnit, (positions order u).Nodup
  | ⟨name, firstLine, code, consts, lineTable⟩ => by
    rw [positions, (order.perm_list _ _).nodup_iff, List.nodup_cons]
    refine ⟨fun h => ?_, nodup_poolPositions order 0 consts⟩
    obtain ⟨first, rest, heq, -⟩ := exists_cons_of_mem_poolPositions h
    exact absurd heq (by simp)

/-- No position of a pool is listed twice. -/
theorem nodup_poolPositions (order : Order) (slot : Nat) :
    ∀ pool : Pool, (poolPositions order slot pool).Nodup
  | [] => by
    rw [poolPositions]
    exact .nil
  | .unit u :: rest => by
    rw [poolPositions, List.nodup_append']
    refine ⟨(nodup_positions order u).map (List.cons_injective),
      nodup_poolPositions order (slot + 1) rest, fun position hu hrest => ?_⟩
    obtain ⟨below, -, rfl⟩ := List.mem_map.1 hu
    obtain ⟨first, _, heq, hlt⟩ := exists_cons_of_mem_poolPositions hrest
    obtain ⟨rfl, -⟩ := List.cons.inj heq
    omega
  | .null :: rest | .bool _ :: rest | .int _ :: rest | .float _ :: rest | .str _ :: rest
  | .bytes _ :: rest => by
    rw [poolPositions_plain order slot rfl]
    exact nodup_poolPositions order (slot + 1) rest

end

/-- The pre-order ranks its positions from zero on. -/
lemma map_idxOf_positions (order : Order) (u : CodeUnit) :
    (positions order u).map ((positions order u).idxOf ·) = List.range (treeSize u) := by
  have hlength := length_positions order u
  apply List.ext_getElem
  · rw [List.length_map, List.length_range, hlength]
  · intro k hk hk'
    rw [List.getElem_map, List.getElem_range, (nodup_positions order u).idxOf_getElem]

end CodeUnit

/-! ## Seats -/

/-- A unit of a tree, with the names of the units from the root to it and with its rank. -/
structure Seat where
  path : List String
  index : UInt32
  unit : CodeUnit

namespace CodeUnit

mutual

/-- The units of a tree in post-order, below units with the names `path`. The root has rank
`rank`. -/
def seatsBelow (path : List String) (rank : Nat) : CodeUnit → List Seat
  | ⟨name, firstLine, code, consts, lineTable⟩ =>
    poolSeats (path ++ [name]) (rank + 1) consts ++
      [⟨path ++ [name], UInt32.ofNat rank, ⟨name, firstLine, code, consts, lineTable⟩⟩]

/-- The units of the trees in a pool in post-order, below units with the names `path`. The first of
them in pre-order has rank `rank`. -/
def poolSeats (path : List String) (rank : Nat) : Pool → List Seat
  | [] => []
  | .unit u :: rest => seatsBelow path rank u ++ poolSeats path (rank + treeSize u) rest
  | _ :: rest => poolSeats path rank rest

end

/-- The seats of a tree: those of its pool, then the root's. -/
lemma seatsBelow_eq (path : List String) (rank : Nat) (u : CodeUnit) :
    seatsBelow path rank u = poolSeats (path ++ [u.name]) (rank + 1) u.consts ++
      [⟨path ++ [u.name], UInt32.ofNat rank, u⟩] := by
  cases u
  rw [seatsBelow]

/-- Constants that are no units have no seats. -/
lemma poolSeats_plain (path : List String) (rank : Nat) {c : Constant CodeUnit}
    (h : c.unit? = none) (rest : Pool) :
    poolSeats path rank (c :: rest) = poolSeats path rank rest := by
  cases c with
  | unit u => simp [Constant.unit?] at h
  | null | bool | int | float | str | bytes => rw [poolSeats]; simp

/-- The first nested unit of a pool is seated with its tree, then the pool behind it. -/
lemma poolSeats_of_nextUnit? (path : List String) (rank : Nat) {pool rest : Pool} {u : CodeUnit}
    (h : pool.nextUnit? = some (u, rest)) :
    poolSeats path rank pool =
      seatsBelow path rank u ++ poolSeats path (rank + treeSize u) rest := by
  induction pool with
  | nil => simp [Pool.nextUnit?] at h
  | cons c more ih =>
    cases c with
    | unit v =>
      obtain ⟨rfl, rfl⟩ := Prod.mk.inj (Option.some.inj h)
      rw [poolSeats]
    | null | bool | int | float | str | bytes =>
      rw [poolSeats_plain path rank rfl]
      exact ih h

/-- A pool without nested units has no seats. -/
lemma poolSeats_of_nextUnit?_eq_none (path : List String) (rank : Nat) {pool : Pool}
    (h : pool.nextUnit? = none) : poolSeats path rank pool = [] := by
  induction pool with
  | nil => rw [poolSeats]
  | cons c more ih =>
    cases c with
    | unit v => simp [Pool.nextUnit?] at h
    | null | bool | int | float | str | bytes =>
      rw [poolSeats_plain path rank rfl]
      exact ih h

mutual

/-- The seats of a tree are those of its units in post-order. -/
theorem map_unit_seatsBelow (path : List String) (rank : Nat) :
    ∀ u : CodeUnit, (seatsBelow path rank u).map (·.unit) = nestedOrder u
  | ⟨name, firstLine, code, consts, lineTable⟩ => by
    rw [seatsBelow, nestedOrder, List.map_append, map_unit_poolSeats _ _ consts]
    rfl

/-- The seats of a pool are those of its units in post-order. -/
theorem map_unit_poolSeats (path : List String) (rank : Nat) :
    ∀ pool : Pool, (poolSeats path rank pool).map (·.unit) = poolOrder pool
  | [] => by rw [poolSeats, poolOrder, List.map_nil]
  | .unit u :: rest => by
    rw [poolSeats, poolOrder, List.map_append, map_unit_seatsBelow path rank u,
      map_unit_poolSeats path _ rest]
  | .null :: rest | .bool _ :: rest | .int _ :: rest | .float _ :: rest | .str _ :: rest
  | .bytes _ :: rest => by
    rw [poolSeats_plain path rank rfl, PostOrder.poolOrder_plain rfl]
    exact map_unit_poolSeats path rank rest

end

/-! ## Seats and positions -/

/-- The position tells the seat in the tree of a unit: it leads to the unit seated, past units with
its names, and comes at its rank in pre-order. Names are behind `path`, and ranks count from
`rank`. -/
structure Seated (u : CodeUnit) (path : List String) (rank : Nat) (position : List Nat)
    (seat : Seat) : Prop where
  leads : ∃ names, At u position names seat.unit ∧ seat.path = path ++ names
  ranked : ∃ i, (positions .pre u)[i]? = some position ∧ seat.index = UInt32.ofNat (rank + i)

/-- The position tells the seat in the trees of a pool whose first slot is number `slot`. -/
structure SeatedIn (pool : Pool) (slot : Nat) (path : List String) (rank : Nat)
    (position : List Nat) (seat : Seat) : Prop where
  leads : ∃ skipped u rest names, position = (slot + skipped) :: rest ∧
    pool[skipped]? = some (.unit u) ∧ At u rest names seat.unit ∧ seat.path = path ++ names
  ranked : ∃ i, (poolPositions .pre slot pool)[i]? = some position ∧
    seat.index = UInt32.ofNat (rank + i)

variable {u : CodeUnit} {pool : Pool} {slot rank : Nat} {path : List String}
  {position : List Nat} {seat : Seat}

/-- What is seated in the pool of a unit is seated in its tree. -/
lemma SeatedIn.seated (h : SeatedIn u.consts 0 (path ++ [u.name]) (rank + 1) position seat) :
    Seated u path rank position seat := by
  obtain ⟨⟨skipped, v, rest, names, rfl, hslot, hat, hpath⟩, i, hi, hindex⟩ := h
  rw [Nat.zero_add] at hi ⊢
  refine ⟨⟨u.name :: names, .nested hslot hat, ?_⟩, i + 1, ?_, ?_⟩
  · rw [hpath, List.append_assoc, List.singleton_append]
  · rw [positions_eq]
    exact hi
  · rw [hindex, Nat.add_assoc, Nat.add_comm 1]

/-- What is seated in the first tree of a pool is seated in the pool. -/
lemma Seated.seatedIn (h : Seated u path rank position seat) (rest : Pool) :
    SeatedIn (.unit u :: rest) slot path rank (slot :: position) seat := by
  obtain ⟨⟨names, hat, hpath⟩, i, hi, hindex⟩ := h
  refine ⟨⟨0, u, position, names, rfl, rfl, hat, hpath⟩, i, ?_, hindex⟩
  have hlt : i < ((positions .pre u).map (slot :: ·)).length := by
    rw [List.length_map]
    exact (List.getElem?_eq_some_iff.1 hi).1
  rw [poolPositions, List.getElem?_append_left hlt, List.getElem?_map, hi]
  rfl

/-- What is seated behind the first tree of a pool is seated in the pool. -/
lemma SeatedIn.behind_unit (h : SeatedIn pool (slot + 1) path (rank + treeSize u) position seat) :
    SeatedIn (.unit u :: pool) slot path rank position seat := by
  obtain ⟨⟨skipped, v, rest, names, rfl, hslot, hat, hpath⟩, i, hi, hindex⟩ := h
  refine ⟨⟨skipped + 1, v, rest, names, ?_, hslot, hat, hpath⟩, treeSize u + i, ?_, ?_⟩
  · rw [Nat.add_assoc, Nat.add_comm 1]
  · have hlength : ((positions .pre u).map (slot :: ·)).length = treeSize u := by
      rw [List.length_map, length_positions]
    rw [poolPositions, List.getElem?_append_right (hlength ▸ Nat.le_add_right _ _), hlength,
      Nat.add_sub_cancel_left]
    exact hi
  · rw [hindex, Nat.add_assoc]

/-- What is seated behind another constant is seated in the pool. -/
lemma SeatedIn.behind_plain {c : Constant CodeUnit} (hc : c.unit? = none)
    (h : SeatedIn pool (slot + 1) path rank position seat) :
    SeatedIn (c :: pool) slot path rank position seat := by
  obtain ⟨⟨skipped, v, rest, names, rfl, hslot, hat, hpath⟩, i, hi, hindex⟩ := h
  refine ⟨⟨skipped + 1, v, rest, names, ?_, hslot, hat, hpath⟩, i, ?_, hindex⟩
  · rw [Nat.add_assoc, Nat.add_comm 1]
  · rw [poolPositions_plain .pre slot hc]
    exact hi

mutual

/-- **The positions of a tree tell its seats**, one by one in post-order. -/
theorem seated_positions (path : List String) (rank : Nat) : ∀ u : CodeUnit,
    List.Forall₂ (Seated u path rank) (positions .post u) (seatsBelow path rank u)
  | ⟨name, firstLine, code, consts, lineTable⟩ => by
    rw [positions, seatsBelow]
    refine List.rel_append ((seated_poolPositions (path ++ [name]) (rank + 1) 0 consts).imp
      fun position seat h => SeatedIn.seated h) (.cons ⟨⟨[name], .here _, rfl⟩, 0, ?_, rfl⟩ .nil)
    rw [positions]
    rfl

/-- The positions of a pool tell its seats, one by one in post-order. -/
theorem seated_poolPositions (path : List String) (rank slot : Nat) : ∀ pool : Pool,
    List.Forall₂ (SeatedIn pool slot path rank) (poolPositions .post slot pool)
      (poolSeats path rank pool)
  | [] => by
    rw [poolPositions, poolSeats]
    exact .nil
  | .unit u :: rest => by
    rw [poolPositions, poolSeats]
    refine List.rel_append (List.forall₂_map_left_iff.2 ?_) ?_
    · exact (seated_positions path rank u).imp fun position seat h => h.seatedIn rest
    · exact (seated_poolPositions path _ (slot + 1) rest).imp fun position seat h => h.behind_unit
  | .null :: rest | .bool _ :: rest | .int _ :: rest | .float _ :: rest | .str _ :: rest
  | .bytes _ :: rest => by
    rw [poolPositions_plain .post slot rfl, poolSeats_plain path rank rfl]
    exact (seated_poolPositions path rank (slot + 1) rest).imp
      fun position seat h => h.behind_plain rfl

end

end CodeUnit

end CoverProbe
