import CoverProbe.Proofs.Checked
import CoverProbe.Proofs.Weave.Faults
import CoverProbe.Proofs.Weave.Recursion

set_option relaxedAutoImplicit false
set_option autoImplicit false

/-!
# The order of weaving

The bodies of a tree are woven in pre-order, each unit by its rank. The first body that cannot be
woven decides the fault of the tree, which names the units from the root to it. The walk itself adds
no faults.

## Main definitions

* `CoverProbe.CodeUnit.places` — the units of a tree in pre-order, with their paths.
* `CoverProbe.Weaver.weaveAll` — the bodies of units woven one after the other.

## Main results

* `CoverProbe.Weaver.discard_nest` — weaving a tree weaves the bodies at its places.
* `CoverProbe.Weaver.error_of_weaveAll` — the first body that fails decides the fault.
* `CoverProbe.Weaver.tree_refines` — what weaving a tree does.
-/

namespace CoverProbe

/-! ## Places -/

/-- A unit of a tree, with the names of the units from the root to it. -/
structure Place where
  path : List String
  unit : CodeUnit
  /-- Does the unit count as the root of a top-level module? -/
  topLevel : Bool

namespace CodeUnit

mutual

/-- The units of a tree in pre-order, below units with the names `path`. -/
def placesBelow (path : List String) (topLevel : Bool) : CodeUnit → List Place
  | ⟨name, firstLine, code, consts, lineTable⟩ =>
    ⟨path ++ [name], ⟨name, firstLine, code, consts, lineTable⟩, topLevel⟩ ::
      poolPlaces (path ++ [name]) consts

/-- The units of the trees in a pool in pre-order, below units with the names `path`. -/
def poolPlaces (path : List String) : Pool → List Place
  | [] => []
  | .unit u :: rest => placesBelow path false u ++ poolPlaces path rest
  | _ :: rest => poolPlaces path rest

end

/-- The units of a tree in pre-order. Only the root may count as the root of a top-level module. -/
def places (root : CodeUnit) (topLevel : Bool) : List Place :=
  placesBelow [] topLevel root

mutual

/-- A tree has as many places as units. -/
theorem length_placesBelow (path : List String) (topLevel : Bool) :
    ∀ u : CodeUnit, (placesBelow path topLevel u).length = treeSize u
  | ⟨name, firstLine, code, consts, lineTable⟩ => by
    rw [placesBelow, treeSize, List.length_cons, length_poolPlaces (path ++ [name]) consts,
      Nat.add_comm]

/-- A pool has as many places as units. -/
theorem length_poolPlaces (path : List String) :
    ∀ pool : Pool, (poolPlaces path pool).length = poolSize pool
  | [] => by rw [poolPlaces, poolSize, List.length_nil]
  | .unit u :: rest => by
    rw [poolPlaces, poolSize, List.length_append, length_placesBelow path false u,
      length_poolPlaces path rest]
  | .null :: rest | .bool _ :: rest | .int _ :: rest | .float _ :: rest | .str _ :: rest
  | .bytes _ :: rest => by
    rw [poolPlaces, poolSize, length_poolPlaces path rest] <;> simp

end

end CodeUnit

namespace Weaver

variable {ρ : Type} (r : Weaver ρ)

/-! ## Bodies in sequence -/

/-- The bodies of units woven one after the other, the first of rank `rank`. -/
def weaveAll (rank : Nat) : List Place → ExceptT WeaveFault (StateM ρ) Unit
  | [] => pure ()
  | p :: rest => do
    let _ ← (r.body p.unit (UInt32.ofNat rank) p.topLevel).adapt fun cause => ⟨p.path, cause⟩
    weaveAll (rank + 1) rest

/-- Bodies are woven in sequence. -/
lemma weaveAll_append (rank : Nat) (before after : List Place) :
    r.weaveAll rank (before ++ after) = (do
      r.weaveAll rank before
      r.weaveAll (rank + before.length) after) := by
  induction before generalizing rank with
  | nil =>
    rw [List.nil_append, weaveAll, pure_bind]
    rfl
  | cons p rest ih =>
    rw [List.cons_append, weaveAll, weaveAll, bind_assoc]
    refine bind_congr fun _ => ?_
    rw [ih, List.length_cons, Nat.add_assoc, Nat.add_comm 1]

mutual

/-- **Weaving a tree weaves the bodies at its places**, in order. -/
theorem discard_nest (path : List String) (topLevel : Bool) (rank : Nat) :
    ∀ u : CodeUnit, (fun _ => ()) <$> r.nest path topLevel rank u =
      r.weaveAll rank (CodeUnit.placesBelow path topLevel u)
  | ⟨name, firstLine, code, consts, lineTable⟩ => by
    rw [nest, CodeUnit.placesBelow, weaveAll, map_bind]
    refine bind_congr fun body => ?_
    rw [← discard_nestPool (path ++ [name]) (rank + 1) consts]
    simp only [bind_pure_comp, Functor.map_map]

/-- Weaving a pool weaves the bodies at its places, in order. -/
theorem discard_nestPool (path : List String) (rank : Nat) :
    ∀ pool : Pool, (fun _ => ()) <$> r.nestPool path rank pool =
      r.weaveAll rank (CodeUnit.poolPlaces path pool)
  | [] => by rw [nestPool, CodeUnit.poolPlaces, weaveAll, map_pure]
  | .unit u :: rest => by
    rw [nestPool, CodeUnit.poolPlaces, weaveAll_append, CodeUnit.length_placesBelow,
      ← discard_nest path false rank u, ← discard_nestPool path (rank + CodeUnit.treeSize u) rest]
    simp only [map_bind, bind_pure_comp, Functor.map_map, bind_map_left]
  | .null :: rest | .bool _ :: rest | .int _ :: rest | .float _ :: rest | .str _ :: rest
  | .bytes _ :: rest => by
    rw [nestPool, CodeUnit.poolPlaces, ← discard_nestPool path rank rest] <;>
      simp only [bind_pure_comp, Functor.map_map, reduceCtorEq, imp_self, implies_true]

end

/-! ## Faults of trees -/

section Faults

variable {r}

/-- **The first body that fails decides the fault**, and names its unit by its path. All bodies
before it are woven. -/
theorem error_of_weaveAll {places : List Place} {rank : Nat} {s s' : ρ} {fault : WeaveFault}
    (h : (r.weaveAll rank places).run.run s = (.error fault, s')) :
    ∃ before p after s₁ cause, places = before ++ p :: after ∧
      (r.weaveAll rank before).run.run s = (.ok (), s₁) ∧
      (r.body p.unit (UInt32.ofNat (rank + before.length)) p.topLevel).run.run s₁ =
        (.error cause, s') ∧
      fault = ⟨p.path, cause⟩ := by
  induction places generalizing rank s with
  | nil => exact absurd (Prod.mk.inj h).1 (by simp)
  | cons p rest ih =>
    rw [weaveAll, Checked.run_bind, Checked.run_adapt] at h
    rcases hbody : (r.body p.unit (UInt32.ofNat rank) p.topLevel).run.run s with ⟨cause | body, s₁⟩
    · rw [hbody] at h
      obtain ⟨hfault, rfl⟩ := Prod.mk.inj h
      exact ⟨[], p, rest, s, cause, rfl, rfl, hbody, (Except.error.inj hfault).symm⟩
    · rw [hbody] at h
      obtain ⟨before, q, after, s₂, cause, rfl, hbefore, hq, hfault⟩ := ih h
      refine ⟨p :: before, q, after, s₂, cause, rfl, ?_, ?_, hfault⟩
      · rw [weaveAll, Checked.run_bind, Checked.run_adapt, hbody]
        exact hbefore
      · rw [List.length_cons, ← Nat.add_assoc, Nat.add_right_comm]
        exact hq

/-- What fails in a tree fails in the sequence of its bodies. -/
lemma error_of_nest {path : List String} {topLevel : Bool} {rank : Nat} {u : CodeUnit} {s s' : ρ}
    {fault : WeaveFault}
    (h : (r.nest path topLevel rank u).run.run s = (.error fault, s')) :
    (r.weaveAll rank (CodeUnit.placesBelow path topLevel u)).run.run s = (.error fault, s') := by
  rw [← discard_nest, Checked.run_map, h]
  rfl

end Faults

/-- **What weaving a tree does.** It is the recursion on the tree, which weaves the body of a unit
by its rank and then the units of its pool by slot. Where it fails, it fails as the first unit in
pre-order whose body cannot be woven, and names the units from the root to that. It never misses the
woven counterpart of a unit. With a report it returns the same tree, or the same fault, and leaves
the same random source.

**Proof sketch.** The walk is the recursion, whether or not it reports (`walk_root_eq`). The faults
of the recursion are those of the bodies at its places (`error_of_nest`, `error_of_weaveAll`), and
no body misses a woven unit (`body_finds`). -/
theorem tree_refines (root : CodeUnit) (topLevel : Bool) :
    r.tree root topLevel = r.nest [] topLevel 0 root ∧
      (∀ s fault s', (r.tree root topLevel).run.run s = (.error fault, s') →
        ∃ before p after s₁ cause, root.places topLevel = before ++ p :: after ∧
          (r.weaveAll 0 before).run.run s = (.ok (), s₁) ∧
          (r.body p.unit (UInt32.ofNat before.length) p.topLevel).run.run s₁ = (.error cause, s') ∧
          fault = ⟨p.path, cause⟩) ∧
      (∀ s path name s',
        (r.tree root topLevel).run.run s ≠ (.error ⟨path, .malformed (.notWoven name)⟩, s')) ∧
      Prod.fst <$> r.treeWithReport root topLevel = r.tree root topLevel := by
  have htree : r.tree root topLevel = r.nest [] topLevel 0 root := by
    rw [← r.walk_root_eq root topLevel none, tree]
    rfl
  have hfault : ∀ s fault s', (r.tree root topLevel).run.run s = (.error fault, s') →
      ∃ before p after s₁ cause, root.places topLevel = before ++ p :: after ∧
        (r.weaveAll 0 before).run.run s = (.ok (), s₁) ∧
        (r.body p.unit (UInt32.ofNat before.length) p.topLevel).run.run s₁ = (.error cause, s') ∧
        fault = ⟨p.path, cause⟩ := by
    intro s fault s' h
    rw [htree] at h
    obtain ⟨before, p, after, s₁, cause, hplaces, hbefore, hp, heq⟩ :=
      error_of_weaveAll (error_of_nest h)
    rw [Nat.zero_add] at hp
    exact ⟨before, p, after, s₁, cause, hplaces, hbefore, hp, heq⟩
  refine ⟨htree, hfault, ?_, ?_⟩
  · intro s path name s' h
    obtain ⟨before, p, after, s₁, cause, -, -, hp, heq⟩ := hfault s _ s' h
    obtain ⟨-, hcause⟩ := WeaveFault.mk.inj heq
    rw [← hcause] at hp
    exact body_finds name hp
  · rw [htree, ← r.walk_root_eq root topLevel (some []), treeWithReport]
    simp only [map_bind, bind_pure_comp, Functor.map_map]

end Weaver

end CoverProbe
