import Mathlib.Data.List.Basic
import CoverProbe.Proofs.Unit.PostOrder
import CoverProbe.Weave.Tree

set_option relaxedAutoImplicit false
set_option autoImplicit false

/-!
# Weaving a tree by recursion

The walk over a tree keeps a stack of its own. What it computes is told here by recursion on the
tree: weave the body of a unit, then the units of its pool by slot, then put the unit together.

## Main definitions

* `CoverProbe.Weaver.nest`, `CoverProbe.Weaver.nestPool` — a tree woven by recursion.
* `CoverProbe.Weaver.climb` — what the walk has left to do when it leaves a unit.

## Main results

* `CoverProbe.Weaver.walk_bySlot` — a step of the walk, told by slots.
* `CoverProbe.Weaver.walk_eq` — the walk weaves what is pending, then climbs.
-/

namespace CoverProbe

open TreeWalk

/-! ## Pools -/

namespace Pool

/-- The pool with the given units in place of its nested units, by slot. -/
def fill : Pool → List CodeUnit → Pool
  | .unit _ :: rest, v :: vs => .unit v :: fill rest vs
  | .unit u :: rest, [] => .unit u :: fill rest []
  | c :: rest, vs => c :: fill rest vs
  | [], _ => []

end Pool

namespace Weaver

variable {ρ : Type}

/-! ## The recursion -/

mutual

/-- The tree of a unit woven by recursion. The unit has rank `rank`, and the units around it have
the names `path`. -/
def nest (r : Weaver ρ) (path : List String) (topLevel : Bool) (rank : Nat) :
    CodeUnit → ExceptT WeaveFault (StateM ρ) CodeUnit
  | ⟨name, firstLine, code, consts, lineTable⟩ => do
    let u : CodeUnit := ⟨name, firstLine, code, consts, lineTable⟩
    let body ← (r.body u (UInt32.ofNat rank) topLevel).adapt fun cause => ⟨path ++ [name], cause⟩
    let woven ← nestPool r (path ++ [name]) (rank + 1) consts
    return ⟨name, firstLine, body.code, woven, body.lineTable⟩

/-- The trees of a pool woven one after the other, the first of rank `rank`; other slots are left as
they are. -/
def nestPool (r : Weaver ρ) (path : List String) (rank : Nat) :
    Pool → ExceptT WeaveFault (StateM ρ) Pool
  | [] => pure []
  | .unit u :: rest => do
    let v ← nest r path false rank u
    let more ← nestPool r path (rank + CodeUnit.treeSize u) rest
    return .unit v :: more
  | c :: rest => do
    let more ← nestPool r path rank rest
    return c :: more

end

/-- The trees of units woven one after the other, the first of rank `rank`. -/
def nestUnits (r : Weaver ρ) (path : List String) (rank : Nat) :
    List CodeUnit → ExceptT WeaveFault (StateM ρ) (List CodeUnit)
  | [] => pure []
  | u :: rest => do
    let v ← r.nest path false rank u
    let more ← nestUnits r path (rank + CodeUnit.treeSize u) rest
    return v :: more

variable (r : Weaver ρ) (path : List String)

/-- The recursion, for a unit given as a whole. -/
lemma nest_eq (topLevel : Bool) (rank : Nat) (u : CodeUnit) :
    r.nest path topLevel rank u = do
      let body ←
        (r.body u (UInt32.ofNat rank) topLevel).adapt fun cause => ⟨path ++ [u.name], cause⟩
      let woven ← r.nestPool (path ++ [u.name]) (rank + 1) u.consts
      return rebuild u body woven := by
  cases u
  rw [nest]
  rfl

/-- A pool is woven by weaving its units and filling them in. -/
lemma nestPool_eq (rank : Nat) (pool : Pool) :
    r.nestPool path rank pool = Pool.fill pool <$> r.nestUnits path rank pool.units := by
  induction pool generalizing rank with
  | nil => rw [nestPool, Pool.units, List.filterMap_nil, nestUnits, map_pure, Pool.fill]
  | cons c rest ih =>
    cases c with
    | unit u =>
      have hunits : Pool.units (.unit u :: rest) = u :: Pool.units rest := rfl
      rw [nestPool, hunits, nestUnits]
      simp only [ih, map_bind, bind_pure_comp, Functor.map_map]
      rfl
    | null | bool | int | float | str | bytes =>
      rw [nestPool, ih]
      · simp only [bind_pure_comp, Functor.map_map]
        rfl
      · simp

/-! ## Putting units together -/

/-- The first nested unit of a pool is the first of its units. -/
lemma units_of_nextUnit? {pool rest : Pool} {u : CodeUnit}
    (h : Pool.nextUnit? pool = some (u, rest)) : pool.units = u :: rest.units := by
  induction pool with
  | nil => simp [Pool.nextUnit?] at h
  | cons c more ih =>
    cases c with
    | unit v =>
      obtain ⟨rfl, rfl⟩ := Prod.mk.inj (Option.some.inj h)
      rfl
    | null | bool | int | float | str | bytes => exact ih h

/-- A pool without a first nested unit has none. -/
lemma units_of_nextUnit?_eq_none {pool : Pool} (h : Pool.nextUnit? pool = none) :
    pool.units = [] ∧ CodeUnit.poolSize pool = 0 := by
  induction pool with
  | nil => exact ⟨rfl, by rw [CodeUnit.poolSize]⟩
  | cons c more ih =>
    cases c with
    | unit v => simp [Pool.nextUnit?] at h
    | null | bool | int | float | str | bytes =>
      obtain ⟨hunits, hsize⟩ := ih h
      exact ⟨hunits, by rw [CodeUnit.poolSize] <;> simp [hsize]⟩

/-- Children are filled in, if there is one for each nested unit. -/
lemma mapUnits_takeChild {pool : Pool} {children : List CodeUnit}
    (h : children.length = pool.units.length) (more : List CodeUnit) :
    (Pool.mapUnits takeChild pool).run (children ++ more) =
      .ok (Pool.fill pool children, more) := by
  induction pool generalizing children with
  | nil =>
    obtain rfl := List.length_eq_zero_iff.1 h
    rfl
  | cons c rest ih =>
    cases c with
    | unit u =>
      cases children with
      | nil => simp [Pool.units, Constant.unit?] at h
      | cons v vs =>
        have hvs : vs.length = (Pool.units rest).length := Nat.succ.inj h
        rw [Pool.mapUnits, StateT.run_bind]
        have htake : (takeChild u).run (v :: vs ++ more) = .ok (v, vs ++ more) := rfl
        rw [htake]
        show (Pool.mapUnits takeChild rest >>= fun more => pure (.unit v :: more)).run
          (vs ++ more) = _
        rw [StateT.run_bind, ih hvs]
        rfl
    | null | bool | int | float | str | bytes =>
      rw [Pool.mapUnits, StateT.run_bind, ih h]
      · rfl
      · simp

/-- A frame has as many children as nested units behind it, `entered` of which are being woven. -/
def Balanced (frame : Frame) (entered : Nat) : Prop :=
  frame.children.length + entered + (Pool.units frame.pending).length =
    (Pool.units frame.unit.consts).length

/-- A frame whose first nested unit is entered has that unit being woven. -/
lemma Balanced.enter {frame : Frame} {child : CodeUnit} {rest : Pool} (h : Balanced frame 0)
    (hnext : frame.pending.nextUnit? = some (child, rest)) :
    Balanced { frame with pending := rest } 1 := by
  rw [Balanced, units_of_nextUnit? hnext] at h
  rw [Balanced, ← h]
  simp only [List.length_cons]
  omega

/-- A frame that gets the unit being woven has it among its children. -/
lemma Balanced.leave {frame : Frame} (h : Balanced frame 1) (child : CodeUnit) :
    Balanced { frame with children := frame.children ++ [child] } 0 := by
  rw [Balanced] at h ⊢
  simp only [List.length_append, List.length_singleton, Nat.add_zero]
  exact h

/-- **The units of a frame are put together without fault** when none is pending. -/
lemma rebuild_frame {frame : Frame} (h : Balanced frame 0) (hp : frame.pending.nextUnit? = none) :
    frame.rebuild =
      .ok (rebuild frame.unit frame.body (Pool.fill frame.unit.consts frame.children)) := by
  rw [Balanced, (units_of_nextUnit?_eq_none hp).1] at h
  have hfill : Pool.mapUnits takeChild frame.unit.consts frame.children =
      .ok (Pool.fill frame.unit.consts frame.children, []) := by
    have hrun := mapUnits_takeChild (by simpa using h : frame.children.length = _) []
    rw [List.append_nil] at hrun
    exact hrun
  rw [Frame.rebuild, StateT.run', hfill]
  rfl

/-! ## The walk -/

/-- What the walk has left to do when it leaves a unit, woven `u`, below the frames `above`: it
weaves what is pending there, puts the unit of the frame together and leaves that. The ranks given so far
are below `rank`. -/
def climb (r : Weaver ρ) : List Frame → (u : CodeUnit) → (rank : Nat) →
    ExceptT WeaveFault (StateM ρ) CodeUnit
  | [], u, _ => pure u
  | parent :: outer, u, rank => do
    let more ← r.nestUnits (pathOf (parent :: outer)) rank (Pool.units parent.pending)
    climb r outer
      (rebuild parent.unit parent.body
        (Pool.fill parent.unit.consts (parent.children ++ u :: more)))
      (rank + CodeUnit.poolSize parent.pending)

/-- The path of a unit is that of the units around it, and its name. -/
lemma pathOf_cons (frame : Frame) (above : List Frame) :
    pathOf (frame :: above) = pathOf above ++ [frame.unit.name] := by
  simp only [pathOf, List.map_cons, List.reverse_cons]

/-- The next rank after that of a number. -/
lemma ofNat_succ (n : Nat) : UInt32.ofNat n + 1 = UInt32.ofNat (n + 1) := by
  rw [UInt32.ofNat_add]
  rfl

/-- Every tree has a unit more than its pool. -/
lemma treeSize_eq (u : CodeUnit) : CodeUnit.treeSize u = 1 + CodeUnit.poolSize u.consts := by
  cases u
  rw [CodeUnit.treeSize]

section Steps

variable {r} {frame : Frame} {last : UInt32} {reports : Option (List UnitReport)}

/-- The walk enters the first nested unit that is pending. -/
lemma walk_enter {above : List Frame} {child : CodeUnit} {rest : Pool}
    (h : frame.pending.nextUnit? = some (child, rest)) :
    r.walk frame above last reports = (do
      let body ← r.bodyBelow ({ frame with pending := rest } :: above) child (last + 1) false
      r.walk ⟨child, last + 1, body, child.consts, []⟩ ({ frame with pending := rest } :: above)
        (last + 1) reports) := by
  rw [walk]
  split
  · rename_i child' rest' h'
    obtain ⟨rfl, rfl⟩ := Prod.mk.inj (Option.some.inj (h'.symm.trans h))
    rfl
  · rename_i h'
    exact absurd (h'.symm.trans h) (by simp)

/-- The walk puts a unit with nothing pending together, and hands it to the frame around it or
ends. -/
lemma walk_close {above : List Frame} (h : frame.pending.nextUnit? = none) :
    r.walk frame above last reports = (do
      let u ← ExceptT.mk (pure (frame.rebuild.mapError fun cause =>
        (WeaveFault.ofUnit frame.unit.name cause).within (pathOf above)))
      let done := reports.map (frame.report above :: ·)
      match above with
      | parent :: outer =>
        r.walk { parent with children := parent.children ++ [u] } outer last done
      | [] => return (u, done)) := by
  rw [walk]
  split
  · rename_i child rest h'
    exact absurd (h.symm.trans h') (by simp)
  · rfl

/-- **A step of the walk, told by slots.** If the slots of a frame from `slot` on are pending, the
walk enters the first nested unit from that slot on, from its slot zero on, and the next slot of the
frame is the one behind it. If there is none, the unit is put together and handed to the frame
around it, of which the same slots stay pending. -/
theorem walk_bySlot {above : List Frame} {slot : Nat}
    (hslot : frame.pending = frame.unit.consts.drop slot) :
    r.walk frame above last reports =
      match Pool.nextSlot? frame.unit.consts slot with
      | some (k, child) => do
        let outer := { frame with pending := frame.unit.consts.drop (k + 1) } :: above
        let body ← r.bodyBelow outer child (last + 1) false
        r.walk ⟨child, last + 1, body, child.consts.drop 0, []⟩ outer (last + 1) reports
      | none => do
        let u ← ExceptT.mk (pure (frame.rebuild.mapError fun cause =>
          (WeaveFault.ofUnit frame.unit.name cause).within (pathOf above)))
        let done := reports.map (frame.report above :: ·)
        match above with
        | parent :: outer =>
          r.walk { parent with children := parent.children ++ [u] } outer last done
        | [] => return (u, done) := by
  have hnext := Pool.nextUnit?_drop frame.unit.consts slot
  rw [← hslot] at hnext
  cases hfound : Pool.nextSlot? frame.unit.consts slot with
  | some p =>
    rw [hfound] at hnext
    exact walk_enter hnext
  | none =>
    rw [hfound] at hnext
    exact walk_close hnext

/-- The walk leaves a unit with nothing pending, and hands it to the frame around it. -/
lemma walk_leave {parent : Frame} {outer : List Frame} (hf : Balanced frame 0)
    (h : frame.pending.nextUnit? = none) :
    r.walk frame (parent :: outer) last reports =
      r.walk { parent with children := parent.children ++
          [rebuild frame.unit frame.body (Pool.fill frame.unit.consts frame.children)] }
        outer last (reports.map (frame.report (parent :: outer) :: ·)) := by
  rw [walk_close h, rebuild_frame hf h]
  rfl

/-- The walk ends when it leaves the root. -/
lemma walk_root (hf : Balanced frame 0) (h : frame.pending.nextUnit? = none) :
    r.walk frame [] last reports =
      pure (rebuild frame.unit frame.body (Pool.fill frame.unit.consts frame.children),
        reports.map (frame.report [] :: ·)) := by
  rw [walk_close h, rebuild_frame hf h]
  rfl

end Steps

/-- **The walk weaves what is pending, then climbs**, whether or not it reports.

**Proof sketch.** Induction along the walk. Where it enters a unit, the recursion weaves that unit
first; the walk from there on weaves the units of its pool and climbs, by hypothesis, and the climb
begins with what is pending behind the unit. Where it leaves one, nothing is pending, and its unit
is put together (`rebuild_frame`). -/
theorem walk_eq (frame : Frame) (above : List Frame) (rank : Nat)
    (reports : Option (List UnitReport)) (hf : Balanced frame 0)
    (ha : ∀ parent ∈ above, Balanced parent 1) :
    Prod.fst <$> r.walk frame above (UInt32.ofNat rank) reports =
      (do
        let woven ← r.nestUnits (pathOf (frame :: above)) (rank + 1) (Pool.units frame.pending)
        r.climb above
          (rebuild frame.unit frame.body (Pool.fill frame.unit.consts (frame.children ++ woven)))
          (rank + 1 + CodeUnit.poolSize frame.pending)) := by
  generalize hlast : UInt32.ofNat rank = last
  induction frame, above, last, reports using walk.induct generalizing rank with
  | case1 frame above last reports child rest hnext stack ih =>
    subst hlast
    have hunits := units_of_nextUnit? hnext
    have hsize := PostOrder.poolSize_of_nextUnit? hnext
    have hrank : UInt32.ofNat (rank + 1) = UInt32.ofNat rank + 1 := (ofNat_succ rank).symm
    have hstack : ∀ parent ∈ stack, Balanced parent 1 := by
      intro parent hparent
      rcases List.mem_cons.1 hparent with rfl | hparent
      · exact hf.enter hnext
      · exact ha parent hparent
    have hbody := fun body => ih body (rank + 1) (by simp [Balanced]) hstack hrank
    rw [walk_enter hnext, map_bind]
    simp only [stack] at hbody
    simp only [hbody]
    rw [hunits, nestUnits, nest_eq]
    simp only [nestPool_eq, climb, bind_assoc, pure_bind, bind_map_left]
    have hpath : ∀ body : WovenBody,
        pathOf (⟨child, UInt32.ofNat rank + 1, body, child.consts, []⟩ ::
          { frame with pending := rest } :: above) = pathOf (frame :: above) ++ [child.name] := by
      intro body
      rw [pathOf_cons, pathOf_cons, pathOf_cons]
    have hweave : r.bodyBelow ({ frame with pending := rest } :: above) child
        (UInt32.ofNat rank + 1) false =
          (r.body child (UInt32.ofNat (rank + 1)) false).adapt fun cause =>
            ⟨pathOf (frame :: above) ++ [child.name], cause⟩ := by
      rw [hrank]
      rfl
    have hbehind : rank + 1 + 1 + CodeUnit.poolSize child.consts =
        rank + 1 + CodeUnit.treeSize child := by
      rw [treeSize_eq]
      omega
    have hend : rank + 1 + CodeUnit.treeSize child + CodeUnit.poolSize rest =
        rank + 1 + CodeUnit.poolSize frame.pending := by
      rw [hsize, treeSize_eq]
      omega
    rw [hweave]
    refine bind_congr fun body => ?_
    rw [hpath body, hbehind, hend]
    rfl
  | case2 frame above last reports hnext ih =>
    obtain ⟨hunits, hsize⟩ := units_of_nextUnit?_eq_none hnext
    rw [hunits, hsize, nestUnits, pure_bind, List.append_nil, Nat.add_zero]
    cases above with
    | nil =>
      rw [walk_root hf hnext, map_pure]
      rfl
    | cons parent outer =>
      rw [walk_leave hf hnext]
      have hparent := (ha parent List.mem_cons_self).leave
        (rebuild frame.unit frame.body (Pool.fill frame.unit.consts frame.children))
      have hrun := ih (rebuild frame.unit frame.body (Pool.fill frame.unit.consts frame.children))
        rank hparent (fun p hp => ha p (List.mem_cons_of_mem parent hp)) hlast
      rw [hrun, climb]
      simp only [List.append_assoc, List.singleton_append]
      rfl

/-- **Weaving a tree is the recursion**, whether or not a report is asked for. -/
theorem walk_root_eq (root : CodeUnit) (topLevel : Bool) (reports : Option (List UnitReport)) :
    (do
      let body ← r.bodyBelow [] root 0 topLevel
      Prod.fst <$> r.walk ⟨root, 0, body, root.consts, []⟩ [] 0 reports) =
      r.nest [] topLevel 0 root := by
  have hwalk : ∀ body : WovenBody,
      Prod.fst <$> r.walk ⟨root, 0, body, root.consts, []⟩ [] 0 reports = (do
        let woven ← r.nestPool [root.name] 1 root.consts
        return rebuild root body woven) := by
    intro body
    have hrun := r.walk_eq ⟨root, 0, body, root.consts, []⟩ [] 0 reports (by simp [Balanced])
      (by simp)
    rw [nestPool_eq, bind_map_left]
    exact hrun
  rw [nest_eq]
  exact bind_congr hwalk

/-- A tree is woven by recursion. -/
lemma tree_eq_nest (root : CodeUnit) (topLevel : Bool) :
    r.tree root topLevel = r.nest [] topLevel 0 root := by
  rw [← r.walk_root_eq root topLevel none, tree]
  rfl

end Weaver

end CoverProbe
