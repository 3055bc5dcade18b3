import CoverProbe.Proofs.Unit.PostOrder
import CoverProbe.Proofs.Weave.Body
import CoverProbe.Proofs.Weave.Order

set_option relaxedAutoImplicit false
set_option autoImplicit false

/-!
# Units and their woven counterparts

A woven tree has the shape of the old one. At each of its places, counted in pre-order, stands the
woven counterpart of the unit that stood there: with a body woven by that rank, and with a pool in
which nested units have become units and other constants are as they were.

## Main definitions

* `CoverProbe.Pool.KeepsKind` — a constant and the one in its slot after weaving.
* `CoverProbe.Weaver.Counterpart` — a place and the one that took its place.

## Main results

* `CoverProbe.Weaver.counterparts_of_nest` — the places of a woven tree, by recursion.
* `CoverProbe.Weaver.exists_counterpart` — every place of a woven tree is the counterpart of one.
-/

namespace CoverProbe

/-! ## Places by rank -/

namespace CodeUnit

/-- The places of a tree: its root, then those of its pool. -/
lemma placesBelow_eq (path : List String) (topLevel : Bool) (u : CodeUnit) :
    placesBelow path topLevel u =
      ⟨path ++ [u.name], u, topLevel⟩ :: poolPlaces (path ++ [u.name]) u.consts := by
  cases u
  rw [placesBelow]

/-- Constants that are no units have no places. -/
lemma poolPlaces_plain (path : List String) {c : Constant CodeUnit} (h : c.unit? = none)
    (rest : Pool) : poolPlaces path (c :: rest) = poolPlaces path rest := by
  cases c with
  | unit u => simp [Constant.unit?] at h
  | null | bool | int | float | str | bytes => rw [poolPlaces]; simp

mutual

/-- No unit of a nested tree counts as the root of a top-level module. -/
lemma topLevel_of_mem_placesBelow (path : List String) :
    ∀ u : CodeUnit, ∀ p ∈ placesBelow path false u, p.topLevel = false
  | ⟨name, firstLine, code, consts, lineTable⟩ => by
    rw [placesBelow]
    exact List.forall_mem_cons.2 ⟨rfl, topLevel_of_mem_poolPlaces (path ++ [name]) consts⟩

/-- No nested unit counts as the root of a top-level module. -/
lemma topLevel_of_mem_poolPlaces (path : List String) :
    ∀ pool : Pool, ∀ p ∈ poolPlaces path pool, p.topLevel = false
  | [] => by simp [poolPlaces]
  | .unit u :: rest => by
    rw [poolPlaces]
    exact List.forall_mem_append.2
      ⟨topLevel_of_mem_placesBelow path u, topLevel_of_mem_poolPlaces path rest⟩
  | .null :: rest | .bool _ :: rest | .int _ :: rest | .float _ :: rest | .str _ :: rest
  | .bytes _ :: rest => by
    rw [poolPlaces_plain path rfl]
    exact topLevel_of_mem_poolPlaces path rest

end

/-- Only the root, of rank zero, may count as the root of a top-level module. -/
lemma topLevel_of_places {root : CodeUnit} {topLevel : Bool} {k : Nat} {p : Place}
    (h : (root.places topLevel)[k]? = some p) : p.topLevel = (topLevel && decide (k = 0)) := by
  rw [places, placesBelow_eq] at h
  cases k with
  | zero =>
    obtain rfl := Option.some.inj h
    simp
  | succ k =>
    rw [topLevel_of_mem_poolPlaces _ _ p (List.mem_of_getElem? h)]
    simp

mutual

/-- The places of a tree are its units, which the post-order lists in another order. -/
theorem perm_placesBelow (path : List String) (topLevel : Bool) :
    ∀ u : CodeUnit, ((placesBelow path topLevel u).map (·.unit)).Perm (nestedOrder u)
  | ⟨name, firstLine, code, consts, lineTable⟩ => by
    rw [placesBelow, nestedOrder, List.map_cons]
    refine List.Perm.trans ?_ List.perm_append_comm
    exact (perm_poolPlaces (path ++ [name]) consts).cons _

/-- The places of a pool are its units, which the post-order lists in another order. -/
theorem perm_poolPlaces (path : List String) :
    ∀ pool : Pool, ((poolPlaces path pool).map (·.unit)).Perm (poolOrder pool)
  | [] => by
    rw [poolPlaces, poolOrder]
    exact .nil
  | .unit u :: rest => by
    rw [poolPlaces, poolOrder, List.map_append]
    exact (perm_placesBelow path false u).append (perm_poolPlaces path rest)
  | .null :: rest | .bool _ :: rest | .int _ :: rest | .float _ :: rest | .str _ :: rest
  | .bytes _ :: rest => by
    rw [poolPlaces_plain path rfl, PostOrder.poolOrder_plain rfl]
    exact perm_poolPlaces path rest

end

/-- The units at the places of a tree are those of its post-order. -/
lemma forall_mem_places {P : CodeUnit → Prop} (root : CodeUnit) (topLevel : Bool) :
    (∀ p ∈ root.places topLevel, P p.unit) ↔ ∀ u ∈ root.nestedOrder, P u := by
  rw [← List.forall_mem_map (f := Place.unit)]
  exact forall_congr' fun u => imp_congr_left (perm_placesBelow [] topLevel root).mem_iff

end CodeUnit

/-! ## Counterparts -/

/-- What became of a constant: a unit has become a unit, and any other constant is the same. -/
inductive Pool.KeepsKind : Constant CodeUnit → Constant CodeUnit → Prop
  | unit (u v : CodeUnit) : KeepsKind (.unit u) (.unit v)
  | plain {c : Constant CodeUnit} (h : c.unit? = none) : KeepsKind c c

namespace Weaver

variable {ρ : Type} {r : Weaver ρ}

/-- The place `q` has taken that of `p`: its unit has a body woven for the unit at `p`, of rank
`rank`, and a pool that keeps the kinds of its constants, slot by slot. -/
structure Counterpart (r : Weaver ρ) (rank : Nat) (p q : Place) : Prop where
  path : q.path = p.path
  topLevel : q.topLevel = p.topLevel
  woven : ∃ body s s',
    (r.body p.unit (UInt32.ofNat rank) p.topLevel).run.run s = (.ok body, s') ∧
      q.unit = rebuild p.unit body q.unit.consts
  slots : List.Forall₂ Pool.KeepsKind p.unit.consts q.unit.consts

variable {path : List String} {topLevel : Bool} {rank : Nat} {s s' : ρ}

/-- A woven tree has a woven body and a woven pool. -/
lemma nest_eq_ok {u v : CodeUnit} (h : (r.nest path topLevel rank u).run.run s = (.ok v, s')) :
    ∃ body woven s₁, (r.body u (UInt32.ofNat rank) topLevel).run.run s = (.ok body, s₁) ∧
      (r.nestPool (path ++ [u.name]) (rank + 1) u.consts).run.run s₁ = (.ok woven, s') ∧
      v = rebuild u body woven := by
  rw [nest_eq] at h
  obtain ⟨body, s₁, hbody, h⟩ := Checked.run_bind_eq_ok.1 h
  obtain ⟨woven, s₂, hpool, h⟩ := Checked.run_bind_eq_ok.1 h
  obtain ⟨hv, rfl⟩ := Prod.mk.inj h
  exact ⟨body, woven, s₁, Checked.run_adapt_eq_ok.1 hbody, hpool, (Except.ok.inj hv).symm⟩

/-- A woven pool that begins with a unit begins with its woven tree. -/
lemma nestPool_unit_eq_ok {u : CodeUnit} {rest woven : Pool}
    (h : (r.nestPool path rank (.unit u :: rest)).run.run s = (.ok woven, s')) :
    ∃ v more s₁, (r.nest path false rank u).run.run s = (.ok v, s₁) ∧
      (r.nestPool path (rank + CodeUnit.treeSize u) rest).run.run s₁ = (.ok more, s') ∧
      woven = .unit v :: more := by
  rw [nestPool] at h
  obtain ⟨v, s₁, hv, h⟩ := Checked.run_bind_eq_ok.1 h
  obtain ⟨more, s₂, hmore, h⟩ := Checked.run_bind_eq_ok.1 h
  obtain ⟨hwoven, rfl⟩ := Prod.mk.inj h
  exact ⟨v, more, s₁, hv, hmore, (Except.ok.inj hwoven).symm⟩

/-- A woven pool that begins with another constant begins with that. -/
lemma nestPool_plain_eq_ok {c : Constant CodeUnit} (hc : c.unit? = none) {rest woven : Pool}
    (h : (r.nestPool path rank (c :: rest)).run.run s = (.ok woven, s')) :
    ∃ more, (r.nestPool path rank rest).run.run s = (.ok more, s') ∧ woven = c :: more := by
  have hstep : r.nestPool path rank (c :: rest) = do
      let more ← r.nestPool path rank rest
      return c :: more := by
    cases c with
    | unit u => simp [Constant.unit?] at hc
    | null | bool | int | float | str | bytes => rw [nestPool]; simp
  rw [hstep] at h
  obtain ⟨more, s₁, hmore, h⟩ := Checked.run_bind_eq_ok.1 h
  obtain ⟨hwoven, rfl⟩ := Prod.mk.inj h
  exact ⟨more, hmore, (Except.ok.inj hwoven).symm⟩

/-- A woven pool keeps the kinds of its constants. -/
lemma keepsKind_of_nestPool {pool woven : Pool}
    (h : (r.nestPool path rank pool).run.run s = (.ok woven, s')) :
    List.Forall₂ Pool.KeepsKind pool woven := by
  induction pool generalizing rank s woven with
  | nil =>
    rw [nestPool] at h
    obtain rfl : [] = woven := Except.ok.inj (Prod.mk.inj h).1
    exact .nil
  | cons c rest ih =>
    cases hc : c.unit? with
    | some u =>
      obtain rfl : c = .unit u := by
        cases c <;> simp_all [Constant.unit?]
      obtain ⟨v, more, s₁, -, hmore, rfl⟩ := nestPool_unit_eq_ok h
      exact .cons (.unit u v) (ih hmore)
    | none =>
      obtain ⟨more, hmore, rfl⟩ := nestPool_plain_eq_ok hc h
      exact .cons (.plain hc) (ih hmore)

/-- The places of two lists correspond, the first by rank from `rank` on. -/
def Counterparts (r : Weaver ρ) (rank : Nat) (old new : List Place) : Prop :=
  List.Forall₂ (fun pk q => Counterpart r pk.2 pk.1 q) (old.zipIdx rank) new

/-- Corresponding places one behind the other. -/
lemma Counterparts.append {old new more newMore : List Place} (h : Counterparts r rank old new)
    (hmore : Counterparts r (rank + old.length) more newMore) :
    Counterparts r rank (old ++ more) (new ++ newMore) := by
  rw [Counterparts, List.zipIdx_append]
  exact List.rel_append h hmore

/-- What counterparts share holds of all old places if it does of all new ones. -/
lemma Counterparts.forall_mem_iff {P : CodeUnit → Prop} {old new : List Place}
    (h : Counterparts r rank old new)
    (hP : ∀ {k : Nat} {p q : Place}, Counterpart r k p q → (P q.unit ↔ P p.unit)) :
    (∀ q ∈ new, P q.unit) ↔ ∀ p ∈ old, P p.unit := by
  induction old generalizing rank new with
  | nil =>
    cases h
    simp
  | cons p rest ih =>
    rw [Counterparts, List.zipIdx_cons] at h
    cases h with
    | cons hp hrest => rw [List.forall_mem_cons, List.forall_mem_cons, hP hp, ih hrest]

mutual

/-- **The places of a woven tree** are the counterparts of those of the old one, by rank. -/
theorem counterparts_of_nest (path : List String) (topLevel : Bool) (rank : Nat) :
    ∀ (u : CodeUnit) {v : CodeUnit} {s s' : ρ},
      (r.nest path topLevel rank u).run.run s = (.ok v, s') →
        Counterparts r rank (CodeUnit.placesBelow path topLevel u)
          (CodeUnit.placesBelow path topLevel v)
  | ⟨name, firstLine, code, consts, lineTable⟩, v, s, s', h => by
    obtain ⟨body, woven, s₁, hbody, hpool, rfl⟩ := nest_eq_ok h
    rw [CodeUnit.placesBelow_eq, CodeUnit.placesBelow_eq, Counterparts, List.zipIdx_cons]
    refine .cons ⟨rfl, rfl, ⟨body, s, s₁, hbody, rfl⟩, keepsKind_of_nestPool hpool⟩ ?_
    exact counterparts_of_nestPool (path ++ [name]) (rank + 1) consts hpool

/-- The places of a woven pool are the counterparts of those of the old one, by rank. -/
theorem counterparts_of_nestPool (path : List String) (rank : Nat) :
    ∀ (pool : Pool) {woven : Pool} {s s' : ρ},
      (r.nestPool path rank pool).run.run s = (.ok woven, s') →
        Counterparts r rank (CodeUnit.poolPlaces path pool) (CodeUnit.poolPlaces path woven)
  | [], woven, s, s', h => by
    rw [nestPool] at h
    obtain rfl : [] = woven := Except.ok.inj (Prod.mk.inj h).1
    rw [CodeUnit.poolPlaces]
    exact .nil
  | .unit u :: rest, woven, s, s', h => by
    obtain ⟨v, more, s₁, hv, hmore, rfl⟩ := nestPool_unit_eq_ok h
    rw [CodeUnit.poolPlaces, CodeUnit.poolPlaces]
    refine (counterparts_of_nest path false rank u hv).append ?_
    rw [CodeUnit.length_placesBelow]
    exact counterparts_of_nestPool path (rank + CodeUnit.treeSize u) rest hmore
  | .null :: rest, woven, s, s', h | .bool _ :: rest, woven, s, s', h
  | .int _ :: rest, woven, s, s', h | .float _ :: rest, woven, s, s', h
  | .str _ :: rest, woven, s, s', h | .bytes _ :: rest, woven, s, s', h => by
    obtain ⟨more, hmore, rfl⟩ := nestPool_plain_eq_ok rfl h
    rw [CodeUnit.poolPlaces_plain path rfl, CodeUnit.poolPlaces_plain path rfl]
    exact counterparts_of_nestPool path rank rest hmore

end

/-- The places of a woven tree correspond to those of the old one. -/
lemma counterparts_of_tree {root out : CodeUnit}
    (h : (r.tree root topLevel).run.run s = (.ok out, s')) :
    Counterparts r 0 (root.places topLevel) (out.places topLevel) := by
  rw [tree_eq_nest] at h
  exact counterparts_of_nest [] topLevel 0 root h

/-- **Every place of a woven tree is the counterpart of the place with its rank.** -/
theorem exists_counterpart {root out : CodeUnit}
    (h : (r.tree root topLevel).run.run s = (.ok out, s')) {k : Nat} {q : Place}
    (hq : (out.places topLevel)[k]? = some q) :
    ∃ p, (root.places topLevel)[k]? = some p ∧ Counterpart r k p q := by
  obtain ⟨hlength, hget⟩ := List.forall₂_iff_get.1 (counterparts_of_tree h)
  obtain ⟨hk, rfl⟩ := List.getElem?_eq_some_iff.1 hq
  rw [List.length_zipIdx] at hlength
  have hp : k < (root.places topLevel).length := by omega
  refine ⟨(root.places topLevel)[k], List.getElem?_eq_getElem hp, ?_⟩
  simpa using hget k (by simpa using hp) hk

end Weaver

/-! ## A nested loop -/

/-- A loop with another in its pool. -/
def CodeUnit.nestedLoop : CodeUnit :=
  { CodeUnit.loop with consts := [.null, .unit .loop] }

/-- The two loops with probes on each of their lines. -/
def CodeUnit.wovenLoop : CodeUnit :=
  Weaver.rebuild .nestedLoop .loop [.null, .unit (Weaver.rebuild .loop .loop [])]

/-- Weaving the two loops. -/
lemma Weaver.run_nestedLoop :
    (threeRuns.tree .nestedLoop true).run.run () = (.ok .wovenLoop, ()) := by
  rw [tree_eq_nest]
  rfl

/-- Both woven loops hold a probe. -/
lemma CodeUnit.exists_probe_wovenLoop :
    ∀ p ∈ CodeUnit.wovenLoop.places true, ∃ insns,
      InstructionSet.standard.decode p.unit.code = .ok insns ∧
        ∃ i ∈ insns, InstructionSet.standard.isProbe i = true := by
  have hcode : ∀ p ∈ CodeUnit.wovenLoop.places true, p.unit.code = WovenBody.loop.code := by
    decide
  have hloop : ∃ insns, InstructionSet.standard.decode WovenBody.loop.code = .ok insns ∧
      ∃ i ∈ insns, InstructionSet.standard.isProbe i = true := ⟨_, rfl, by decide⟩
  intro p hp
  rw [hcode p hp]
  exact hloop

end CoverProbe
