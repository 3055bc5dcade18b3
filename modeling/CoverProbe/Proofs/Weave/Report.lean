import CoverProbe.Proofs.Unit.Position
import CoverProbe.Proofs.Weave.Counterpart
import CoverProbe.Proofs.Weave.Insertion

set_option relaxedAutoImplicit false
set_option autoImplicit false

/-!
# The report of a woven tree

Entries of the report are made where the walk leaves a unit, ranks are given where it enters one,
and paths are read off the stack. All three are told here of the stack: what is still to be left is
a list of seats, in post-order, with their names and ranks, and each step of the walk leaves that
list as it is or takes its first seat off, with an entry for it and its woven unit.

## Main definitions

* `CoverProbe.Weaver.Reported` — what an entry says of a seat and of the unit woven there.
* `CoverProbe.Weaver.Accounted` — what it says of the units at one position of the two trees.
* `CoverProbe.TreeWalk.remaining`, `CoverProbe.TreeWalk.finished` — the seats that a stack is still
  to leave, and the woven units that it holds.

## Main results

* `CoverProbe.Weaver.reported_of_walk` — what the walk reports from a stack on.
* `CoverProbe.Weaver.positions_of_nest` — a woven tree has the positions of the old one.
* `CoverProbe.Weaver.accounted_of_treeWithReport` — an entry accounts for the units at a position.
* `CoverProbe.Weaver.report_matches` — the report matches the trees.
-/

namespace CoverProbe

open TreeWalk

/-! ## Woven units -/

namespace Pool

/-- Constants that are no units stay in a filled pool. -/
lemma fill_plain {c : Constant CodeUnit} (h : c.unit? = none) (rest : Pool)
    (children : List CodeUnit) : fill (c :: rest) children = c :: fill rest children := by
  cases c with
  | unit u => simp [Constant.unit?] at h
  | null | bool | int | float | str | bytes => rfl

/-- A pool filled with units is visited as these are. -/
lemma poolOrder_fill {pool : Pool} {children : List CodeUnit}
    (h : children.length = pool.units.length) :
    CodeUnit.poolOrder (fill pool children) = children.flatMap CodeUnit.nestedOrder := by
  induction pool generalizing children with
  | nil =>
    obtain rfl := List.length_eq_zero_iff.1 h
    rw [fill, CodeUnit.poolOrder, List.flatMap_nil]
  | cons c rest ih =>
    cases c with
    | unit u =>
      cases children with
      | nil => simp [units, Constant.unit?] at h
      | cons v vs =>
        rw [fill, CodeUnit.poolOrder, ih (Nat.succ.inj h), List.flatMap_cons]
    | null | bool | int | float | str | bytes =>
      rw [fill_plain rfl, PostOrder.poolOrder_plain rfl]
      exact ih h

end Pool

/-! ## Stacks -/

namespace TreeWalk

/-- The seats that the walk is still to leave from a stack on, the ranks up to `rank` given: those
of what is pending in a frame, the frame's own, and those of the frames around it. -/
def remaining : (rank : Nat) → List Frame → List Seat
  | _, [] => []
  | rank, f :: above =>
    CodeUnit.poolSeats (pathOf (f :: above)) (rank + 1) f.pending ++
      ⟨pathOf (f :: above), f.index, f.unit⟩ ::
        remaining (rank + CodeUnit.poolSize f.pending) above

/-- The woven units that a stack holds, in post-order. -/
def finished : List Frame → List CodeUnit
  | [] => []
  | f :: above => finished above ++ f.children.flatMap CodeUnit.nestedOrder

/-- The seats that are left do not change where the walk enters a unit. -/
lemma remaining_enter {frame : Frame} {above : List Frame} {child : CodeUnit} {rest : Pool}
    (h : frame.pending.nextUnit? = some (child, rest)) (rank : Nat) (body : WovenBody) :
    remaining (rank + 1) (⟨child, UInt32.ofNat rank + 1, body, child.consts, []⟩ ::
      { frame with pending := rest } :: above) = remaining rank (frame :: above) := by
  have hpath : pathOf ({ frame with pending := rest } :: above) = pathOf (frame :: above) := rfl
  -- The new frame takes the ranks of its pool; those behind it begin where they began before.
  have hbehind : rank + 1 + CodeUnit.poolSize child.consts + 1 =
      rank + 1 + CodeUnit.treeSize child := by
    rw [Weaver.treeSize_eq]
    omega
  have hend : rank + 1 + CodeUnit.poolSize child.consts + CodeUnit.poolSize rest =
      rank + CodeUnit.poolSize frame.pending := by
    rw [PostOrder.poolSize_of_nextUnit? h]
    omega
  simp only [remaining]
  rw [Weaver.pathOf_cons, hpath, hbehind, hend, CodeUnit.poolSeats_of_nextUnit? _ _ h,
    CodeUnit.seatsBelow_eq, Weaver.ofNat_succ]
  simp only [List.append_assoc, List.cons_append, List.nil_append]

/-- Where nothing is pending, the first seat that is left is the frame's. -/
lemma remaining_leave {frame : Frame} (h : frame.pending.nextUnit? = none) (rank : Nat)
    (above : List Frame) : remaining rank (frame :: above) =
      ⟨pathOf (frame :: above), frame.index, frame.unit⟩ :: remaining rank above := by
  rw [remaining, CodeUnit.poolSeats_of_nextUnit?_eq_none _ _ h,
    (Weaver.units_of_nextUnit?_eq_none h).2]
  rfl

end TreeWalk

namespace Weaver

variable {ρ : Type} {r : Weaver ρ}

/-! ## The walk -/

/-- An entry tells a seat and the unit `v` woven there: both have one body, woven by the rank of the
seat. -/
structure Reported (r : Weaver ρ) (seat : Seat) (v : CodeUnit) (entry : UnitReport) : Prop where
  woven : ∃ topLevel body consts s s',
    (r.body seat.unit seat.index topLevel).run.run s = (.ok body, s') ∧
      v = rebuild seat.unit body consts ∧
      entry = ⟨"/".intercalate seat.path, seat.index, body.candidates, body.probes,
        seat.unit.code.length, body.code.length⟩

/-- The body of a frame was woven by its rank. -/
def Entered (r : Weaver ρ) (f : Frame) : Prop :=
  ∃ topLevel s s', (r.body f.unit f.index topLevel).run.run s = (.ok f.body, s')

/-- A unit put together is behind the units that its frame holds. -/
lemma nestedOrder_rebuild {frame : Frame} (h : Balanced frame 0)
    (hp : frame.pending.nextUnit? = none) :
    (rebuild frame.unit frame.body (Pool.fill frame.unit.consts frame.children)).nestedOrder =
      frame.children.flatMap CodeUnit.nestedOrder ++
        [rebuild frame.unit frame.body (Pool.fill frame.unit.consts frame.children)] := by
  have hlength : frame.children.length = (Pool.units frame.unit.consts).length := by
    rw [Balanced, (units_of_nextUnit?_eq_none hp).1] at h
    simpa using h
  rw [PostOrder.nestedOrder_eq, ← Pool.poolOrder_fill hlength]
  rfl

/-- **What the walk reports from a stack on**, if it succeeds: `rows` are the units that it puts
together, each with its entry. There is one for each seat that the stack is still to leave, in their
order; the entries come on top of those so far, and the units behind those that the stack holds.

**Proof sketch.** Induction along the walk. Where it enters a unit, the seats that are left and the
units held stay the same (`remaining_enter`). Where it leaves one, its seat is the first of those
left (`remaining_leave`), and its unit is the last of those that the frame around it holds then
(`nestedOrder_rebuild`). -/
theorem reported_of_walk (frame : Frame) (above : List Frame) (rank : Nat)
    (done : List UnitReport) (hf : Balanced frame 0) (ha : ∀ parent ∈ above, Balanced parent 1)
    (hentered : ∀ f ∈ frame :: above, Entered r f) {v : CodeUnit}
    {reports : Option (List UnitReport)} {s s' : ρ}
    (h : (r.walk frame above (UInt32.ofNat rank) (some done)).run.run s = (.ok (v, reports), s')) :
    ∃ rows : List (CodeUnit × UnitReport),
      reports = some ((rows.map Prod.snd).reverse ++ done) ∧
      v.nestedOrder = finished (frame :: above) ++ rows.map Prod.fst ∧
      List.Forall₂ (fun seat row => Reported r seat row.1 row.2) (remaining rank (frame :: above))
        rows := by
  generalize hlast : UInt32.ofNat rank = last at h
  generalize hdone : some done = past at h
  induction frame, above, last, past using walk.induct generalizing rank done s with
  | case1 frame above last past child rest hnext stack ih =>
    subst hlast
    rw [walk_enter hnext] at h
    obtain ⟨body, s₁, hbody, hwalk⟩ := Checked.run_bind_eq_ok.1 h
    have hstack : ∀ parent ∈ stack, Balanced parent 1 := by
      intro parent hparent
      rcases List.mem_cons.1 hparent with rfl | hparent
      · exact hf.enter hnext
      · exact ha parent hparent
    have hnew : ∀ f ∈ ⟨child, UInt32.ofNat rank + 1, body, child.consts, []⟩ :: stack,
        Entered r f := by
      intro f hmem
      rcases List.mem_cons.1 hmem with rfl | hmem
      · exact ⟨false, s, s₁, Checked.run_adapt_eq_ok.1 hbody⟩
      · rcases List.mem_cons.1 hmem with rfl | hmem
        · exact hentered frame List.mem_cons_self
        · exact hentered f (List.mem_cons_of_mem frame hmem)
    obtain ⟨rows, hreports, hunits, hrows⟩ := ih body (rank + 1) done (by simp [Balanced]) hstack
      hnew (ofNat_succ rank).symm hdone hwalk
    refine ⟨rows, hreports, ?_, ?_⟩
    · rw [hunits]
      simp only [stack, finished, List.flatMap_nil, List.append_nil]
    · rw [← remaining_enter hnext rank body]
      exact hrows
  | case2 frame above last past hnext ih =>
    subst hlast hdone
    -- The unit that is put together takes its entry along, whatever is around it.
    let u := rebuild frame.unit frame.body (Pool.fill frame.unit.consts frame.children)
    have hframe : Reported r ⟨pathOf (frame :: above), frame.index, frame.unit⟩ u
        (frame.report above) := by
      obtain ⟨topLevel, s₀, s₁, hbody⟩ := hentered frame List.mem_cons_self
      exact ⟨topLevel, frame.body, _, s₀, s₁, hbody, rfl, rfl⟩
    rw [remaining_leave hnext]
    cases above with
    | nil =>
      rw [walk_root hf hnext] at h
      obtain ⟨hv, hreports⟩ := Prod.mk.inj (Except.ok.inj (Prod.mk.inj h).1)
      refine ⟨[(u, frame.report [])], hreports.symm, ?_, .cons hframe .nil⟩
      rw [← hv, nestedOrder_rebuild hf hnext]
      rfl
    | cons parent outer =>
      rw [walk_leave hf hnext] at h
      have hparent := (ha parent List.mem_cons_self).leave u
      have houter : ∀ f ∈ { parent with children := parent.children ++ [u] } :: outer,
          Entered r f := by
        intro f hmem
        rcases List.mem_cons.1 hmem with rfl | hmem
        · exact hentered parent (List.mem_cons_of_mem frame List.mem_cons_self)
        · exact hentered f (List.mem_cons_of_mem frame (List.mem_cons_of_mem parent hmem))
      obtain ⟨rows, hreports, hunits, hrows⟩ := ih u rank (frame.report (parent :: outer) :: done)
        hparent (fun p hp => ha p (List.mem_cons_of_mem parent hp)) houter rfl rfl h
      refine ⟨(u, frame.report (parent :: outer)) :: rows, ?_, ?_, .cons hframe hrows⟩
      · rw [hreports, List.map_cons, List.reverse_cons, List.append_assoc, List.singleton_append]
      · rw [hunits]
        simp only [finished, List.flatMap_append, List.flatMap_singleton, List.map_cons,
          List.append_assoc]
        rw [nestedOrder_rebuild hf hnext]
        simp only [List.append_assoc, List.singleton_append]
        rfl

/-- A tree woven with a report is woven by recursion, and the report is what the walk from its root
on reports. -/
lemma treeWithReport_eq_ok {root out : CodeUnit} {topLevel : Bool} {report : WeaveReport} {s s' : ρ}
    (h : (r.treeWithReport root topLevel).run.run s = (.ok (out, report), s')) :
    (r.nest [] topLevel 0 root).run.run s = (.ok out, s') ∧
      ∃ body reports s₁, (r.body root 0 topLevel).run.run s = (.ok body, s₁) ∧
        (r.walk ⟨root, 0, body, root.consts, []⟩ [] 0 (some [])).run.run s₁ =
          (.ok (out, reports), s') ∧
        report = ⟨(reports.getD []).reverse⟩ := by
  obtain ⟨body, s₁, hbody, h⟩ := Checked.run_bind_eq_ok.1 h
  obtain ⟨⟨v, reports⟩, s₂, hwalk, h⟩ := Checked.run_bind_eq_ok.1 h
  obtain ⟨hpair, rfl⟩ := Prod.mk.inj h
  obtain ⟨rfl, rfl⟩ := Prod.mk.inj (Except.ok.inj hpair)
  refine ⟨?_, body, reports, s₁, Checked.run_adapt_eq_ok.1 hbody, hwalk, rfl⟩
  rw [← r.walk_root_eq root topLevel (some [])]
  refine Checked.run_bind_eq_ok.2 ⟨body, s₁, hbody, ?_⟩
  rw [Checked.run_map, hwalk]
  rfl

/-- **A tree woven with a report has a unit and an entry for each seat**, in post-order. -/
theorem reported_of_treeWithReport {root out : CodeUnit} {topLevel : Bool} {report : WeaveReport}
    {s s' : ρ} (h : (r.treeWithReport root topLevel).run.run s = (.ok (out, report), s')) :
    ∃ rows : List (CodeUnit × UnitReport), report.units = rows.map Prod.snd ∧
      out.postOrder = rows.map Prod.fst ∧
      List.Forall₂ (fun seat row => Reported r seat row.1 row.2) (CodeUnit.seatsBelow [] 0 root)
        rows := by
  obtain ⟨-, body, reports, s₁, hbody, hwalk, rfl⟩ := treeWithReport_eq_ok h
  have hentered : Entered r ⟨root, 0, body, root.consts, []⟩ := ⟨topLevel, s, s₁, hbody⟩
  obtain ⟨rows, hreports, hunits, hrows⟩ := reported_of_walk
    ⟨root, 0, body, root.consts, []⟩ [] 0 [] (by simp [Balanced]) (by simp) (by simpa using hentered)
    hwalk
  refine ⟨rows, ?_, ?_, ?_⟩
  · rw [hreports, List.append_nil, Option.getD_some, List.reverse_reverse]
  · rw [CodeUnit.postOrder_eq_nestedOrder, hunits]
    rfl
  · rw [CodeUnit.seatsBelow_eq]
    exact hrows

/-! ## Shapes -/

mutual

/-- **A woven tree has the positions of the old one.** -/
theorem positions_of_nest (order : CodeUnit.Order) (path : List String) (topLevel : Bool)
    (rank : Nat) : ∀ (u : CodeUnit) {v : CodeUnit} {s s' : ρ},
      (r.nest path topLevel rank u).run.run s = (.ok v, s') →
        v.positions order = u.positions order
  | ⟨name, firstLine, code, consts, lineTable⟩, v, s, s', h => by
    obtain ⟨body, woven, s₁, -, hpool, rfl⟩ := nest_eq_ok h
    rw [CodeUnit.positions_eq, CodeUnit.positions_eq]
    exact congrArg _ (poolPositions_of_nestPool order 0 (path ++ [name]) (rank + 1) consts hpool)

/-- A woven pool has the positions of the old one. -/
theorem poolPositions_of_nestPool (order : CodeUnit.Order) (slot : Nat) (path : List String)
    (rank : Nat) : ∀ (pool : Pool) {woven : Pool} {s s' : ρ},
      (r.nestPool path rank pool).run.run s = (.ok woven, s') →
        CodeUnit.poolPositions order slot woven = CodeUnit.poolPositions order slot pool
  | [], woven, s, s', h => by
    rw [nestPool] at h
    obtain rfl : [] = woven := Except.ok.inj (Prod.mk.inj h).1
    rfl
  | .unit u :: rest, woven, s, s', h => by
    obtain ⟨v, more, s₁, hv, hmore, rfl⟩ := nestPool_unit_eq_ok h
    rw [CodeUnit.poolPositions, CodeUnit.poolPositions,
      positions_of_nest order path false rank u hv,
      poolPositions_of_nestPool order (slot + 1) path (rank + CodeUnit.treeSize u) rest hmore]
  | .null :: rest, woven, s, s', h | .bool _ :: rest, woven, s, s', h
  | .int _ :: rest, woven, s, s', h | .float _ :: rest, woven, s, s', h
  | .str _ :: rest, woven, s, s', h | .bytes _ :: rest, woven, s, s', h => by
    obtain ⟨more, hmore, rfl⟩ := nestPool_plain_eq_ok rfl h
    rw [CodeUnit.poolPositions_plain order slot rfl, CodeUnit.poolPositions_plain order slot rfl]
    exact poolPositions_of_nestPool order (slot + 1) path rank rest hmore

end

/-! ## The report -/

/-- In the new unit `v` the code of `u` has `count` probes more: it encodes the instructions of that
with a probe before each of its sites. -/
def Gains (r : Weaver ρ) (u v : CodeUnit) (count : Nat) : Prop :=
  ∃ sites insns out, r.prepare u = .ok insns ∧ Weave.Inserted r.isa sites 0 insns out ∧
    out.length = insns.length + count ∧ r.isa.encodeAll out = .ok v.code

/-- What an entry says of the units `u` and `v` at one position of the old and of the new tree. -/
structure Accounted (r : Weaver ρ) (root out : CodeUnit) (position : List Nat)
    (entry : UnitReport) (u v : CodeUnit) : Prop where
  old : ∃ path, CodeUnit.At root position path u ∧ entry.path = "/".intercalate path
  new : ∃ path, CodeUnit.At out position path v
  name : v.name = u.name
  firstLine : v.firstLine = u.firstLine
  index : entry.index.toNat = (root.positions .pre).idxOf position
  bytesBefore : entry.bytesBefore = u.code.length
  bytesAfter : entry.bytesAfter = v.code.length
  probes_le : entry.probes ≤ entry.candidates
  gains : Gains r u v entry.probes
  standard : r.isa = .standard → entry.bytesAfter = entry.bytesBefore + 5 * entry.probes

/-- An entry accounts for the units at the position of its seat. -/
lemma Reported.accounted {root out : CodeUnit} {seat new : Seat} {position : List Nat}
    {entry : UnitReport} (h : Reported r seat new.unit entry) (hsize : root.treeSize < 4294967296)
    (hold : CodeUnit.Seated root [] 0 position seat)
    (hnew : CodeUnit.Seated out [] 0 position new) :
    Accounted r root out position entry seat.unit new.unit := by
  obtain ⟨topLevel, body, consts, s, s', hbody, hunit, rfl⟩ := h.woven
  obtain ⟨⟨path, hat, hpath⟩, i, hi, hindex⟩ := hold
  obtain ⟨⟨newPath, hnewAt, -⟩, -⟩ := hnew
  obtain ⟨insns, stream, hcoded⟩ := encoded_of_body hbody
  have hlength := hcoded.emits.length_eq
  rw [← hcoded.probes] at hlength
  have hcode : new.unit.code = body.code := by rw [hunit]; rfl
  refine ⟨⟨path, hat, ?_⟩, ⟨newPath, hnewAt⟩, ?_, ?_, ?_, rfl, ?_, probes_le_candidates hbody,
    ⟨_, insns, stream, hcoded.prepared, hcoded.emits.inserted, hlength, ?_⟩,
    fun hisa => length_code_of_body hisa hbody⟩
  · rw [hpath, List.nil_append]
  · rw [hunit]
    rfl
  · rw [hunit]
    rfl
  · obtain ⟨hlt, rfl⟩ := List.getElem?_eq_some_iff.1 hi
    rw [(CodeUnit.nodup_positions .pre root).idxOf_getElem]
    rw [CodeUnit.length_positions] at hlt
    rw [hindex, Nat.zero_add, Word.toNat_ofNat_of_fits (by omega)]
  · rw [hcode]
  · rw [hcode]
    exact hcoded.encodes

/-- A tree has as many units in post-order as it has units. -/
lemma length_postOrder (root : CodeUnit) : root.postOrder.length = root.treeSize := by
  have hunits := congrArg List.length (CodeUnit.map_unit_seatsBelow [] 0 root)
  rw [List.length_map, ← (CodeUnit.seated_positions [] 0 root).length_eq,
    CodeUnit.length_positions] at hunits
  rw [CodeUnit.postOrder_eq_nestedOrder, hunits]

/-- **The entries of a report account for the units at one place of the two post-orders**, which
stand at one position of the trees. -/
theorem accounted_of_treeWithReport {root out : CodeUnit} {topLevel : Bool} {report : WeaveReport}
    {s s' : ρ} (hsize : root.treeSize < 4294967296)
    (h : (r.treeWithReport root topLevel).run.run s = (.ok (out, report), s')) {k : Nat}
    {position : List Nat} (hk : (root.positions .post)[k]? = some position) :
    ∃ entry u v, report.units[k]? = some entry ∧ root.postOrder[k]? = some u ∧
      out.postOrder[k]? = some v ∧ (out.positions .post)[k]? = some position ∧
      Accounted r root out position entry u v := by
  obtain ⟨hnest, -⟩ := treeWithReport_eq_ok h
  obtain ⟨rows, hentries, hunits, hrows⟩ := reported_of_treeWithReport h
  have hshape := positions_of_nest .post [] topLevel 0 root hnest
  obtain ⟨seat, hseat, hseated⟩ := exists_partner (CodeUnit.seated_positions [] 0 root) hk
  obtain ⟨⟨v, entry⟩, hrow, hreported⟩ := exists_partner hrows hseat
  obtain ⟨new, hnew, hnewSeated⟩ :=
    exists_partner (CodeUnit.seated_positions [] 0 out) (hshape ▸ hk)
  have hold : root.postOrder[k]? = some seat.unit := by
    rw [CodeUnit.postOrder_eq_nestedOrder, ← CodeUnit.map_unit_seatsBelow [] 0 root,
      List.getElem?_map, hseat]
    rfl
  have hwoven : out.postOrder[k]? = some new.unit := by
    rw [CodeUnit.postOrder_eq_nestedOrder, ← CodeUnit.map_unit_seatsBelow [] 0 out,
      List.getElem?_map, hnew]
    rfl
  have hrowUnit : v = new.unit := by
    rw [hunits, List.getElem?_map, hrow] at hwoven
    exact Option.some.inj hwoven
  subst hrowUnit
  refine ⟨entry, seat.unit, new.unit, ?_, hold, hwoven, hshape ▸ hk,
    hreported.accounted hsize hseated hnewSeated⟩
  rw [hentries, List.getElem?_map, hrow]
  rfl

/-- **The report matches the trees.** It has one entry for each unit. The units that the two trees
list in post-order at one place stand at one position, the second is the first with its name, its
base line and more probes, and the entry of that place accounts for both. Ranks are those in
pre-order, each given once, and the probes are counted in total.

**Proof sketch.** The walk makes an entry for each seat of the tree (`reported_of_treeWithReport`),
and positions tell seats (`CodeUnit.seated_positions`), also in the new tree, which has the same
positions (`positions_of_nest`). -/
theorem report_matches {root out : CodeUnit} {topLevel : Bool} {report : WeaveReport} {s s' : ρ}
    (hsize : root.treeSize < 4294967296)
    (h : (r.treeWithReport root topLevel).run.run s = (.ok (out, report), s')) :
    report.units.length = root.postOrder.length ∧ out.postOrder.length = root.postOrder.length ∧
      (∀ k < root.postOrder.length, ∃ position entry u v, report.units[k]? = some entry ∧
        root.postOrder[k]? = some u ∧ out.postOrder[k]? = some v ∧
        (root.positions .post)[k]? = some position ∧ (out.positions .post)[k]? = some position ∧
        Accounted r root out position entry u v) ∧
      (report.units.map (·.index.toNat)).Perm (List.range root.postOrder.length) ∧
      ∃ counts, List.Forall₂ (fun (units : CodeUnit × CodeUnit) count =>
          Gains r units.1 units.2 count) (root.postOrder.zip out.postOrder) counts ∧
        report.probes = counts.sum := by
  obtain ⟨rows, hentries, hunits, hrows⟩ := reported_of_treeWithReport h
  have hpositions : (root.positions .post).length = root.postOrder.length := by
    rw [CodeUnit.length_positions, length_postOrder]
  have hrowCount : rows.length = root.postOrder.length := by
    rw [← hrows.length_eq, ← (CodeUnit.seated_positions [] 0 root).length_eq, hpositions]
  have hentryCount : report.units.length = root.postOrder.length := by
    rw [hentries, List.length_map, hrowCount]
  have houtCount : out.postOrder.length = root.postOrder.length := by
    rw [hunits, List.length_map, hrowCount]
  have hplace : ∀ k < root.postOrder.length, ∃ position entry u v,
      report.units[k]? = some entry ∧ root.postOrder[k]? = some u ∧ out.postOrder[k]? = some v ∧
      (root.positions .post)[k]? = some position ∧ (out.positions .post)[k]? = some position ∧
      Accounted r root out position entry u v := by
    intro k hk
    have hposition := List.getElem?_eq_getElem (hpositions.symm ▸ hk)
    obtain ⟨entry, u, v, hentry, hu, hv, hsame, haccounted⟩ :=
      accounted_of_treeWithReport hsize h hposition
    exact ⟨_, entry, u, v, hentry, hu, hv, hposition, hsame, haccounted⟩
  have hranks : report.units.map (·.index.toNat) =
      (root.positions .post).map ((root.positions .pre).idxOf ·) := by
    apply List.ext_getElem
    · rw [List.length_map, List.length_map, hentryCount, hpositions]
    · intro k hk _
      rw [List.length_map, hentryCount] at hk
      obtain ⟨position, entry, u, v, hentry, -, -, hposition, -, haccounted⟩ := hplace k hk
      obtain ⟨_, rfl⟩ := List.getElem?_eq_some_iff.1 hentry
      obtain ⟨_, rfl⟩ := List.getElem?_eq_some_iff.1 hposition
      rw [List.getElem_map, List.getElem_map]
      exact haccounted.index
  refine ⟨hentryCount, houtCount, hplace, ?_, report.units.map (·.probes), ?_, ?_⟩
  · rw [hranks, length_postOrder, ← CodeUnit.map_idxOf_positions .pre root]
    exact (CodeUnit.perm_positions .post .pre root).map _
  · refine List.forall₂_iff_get.2 ⟨?_, fun k hk hk' => ?_⟩
    · rw [List.length_zip, houtCount, Nat.min_self, List.length_map, hentryCount]
    · rw [List.length_map, hentryCount] at hk'
      obtain ⟨position, entry, u, v, hentry, hu, hv, -, -, haccounted⟩ := hplace k hk'
      obtain ⟨_, rfl⟩ := List.getElem?_eq_some_iff.1 hentry
      obtain ⟨_, rfl⟩ := List.getElem?_eq_some_iff.1 hu
      obtain ⟨_, rfl⟩ := List.getElem?_eq_some_iff.1 hv
      simpa using haccounted.gains
  · rw [WeaveReport.probes, List.sum_eq_foldl, List.foldl_map]

/-- What is reported of two loops, one nested in the other, with probes on each of their lines. -/
def loopReport : WeaveReport :=
  ⟨[⟨"loop/loop", 1, 3, 3, 12, 27⟩, ⟨"loop", 0, 3, 3, 12, 27⟩]⟩

/-- Weaving the two loops with a report. -/
lemma run_nestedLoop_report : (threeRuns.treeWithReport .nestedLoop true).run.run () =
    (.ok (.wovenLoop, loopReport), ()) := by
  have hwalk : (threeRuns.walk ⟨.nestedLoop, 0, .loop, CodeUnit.nestedLoop.consts, []⟩ [] 0
      (some [])).run.run () = (.ok (.wovenLoop, some loopReport.units.reverse), ()) := by
    have hnext : Pool.nextUnit? CodeUnit.nestedLoop.consts = some (CodeUnit.loop, []) := rfl
    rw [walk_enter hnext]
    refine Checked.run_bind_eq_ok.2 ⟨.loop, (), rfl, ?_⟩
    rw [walk_leave (by simp [Balanced]) rfl, walk_root (by rfl) rfl]
    rfl
  refine Checked.run_bind_eq_ok.2 ⟨.loop, (), rfl, ?_⟩
  exact Checked.run_bind_eq_ok.2 ⟨_, (), hwalk, rfl⟩

/-- The nested loop stands in slot one. It is the first in the report and the second in rank. -/
theorem report_matches_nestedLoop :
    (threeRuns.treeWithReport .nestedLoop true).run.run () =
        (.ok (.wovenLoop, loopReport), ()) ∧
      CodeUnit.nestedLoop.treeSize < 4294967296 ∧
      (∃ u v, Accounted threeRuns .nestedLoop .wovenLoop [1] ⟨"loop/loop", 1, 3, 3, 12, 27⟩ u v) ∧
      (loopReport.units.map (·.index.toNat)).Perm (List.range 2) ∧ loopReport.probes = 6 := by
  have hsize : CodeUnit.nestedLoop.treeSize < 4294967296 := by decide
  have horder : CodeUnit.nestedLoop.postOrder.length = 2 := by
    rw [CodeUnit.postOrder_eq_nestedOrder]
    rfl
  obtain ⟨-, -, hplace, hranks, -⟩ := report_matches hsize run_nestedLoop_report
  rw [horder] at hplace hranks
  obtain ⟨position, entry, u, v, hentry, -, -, hposition, -, haccounted⟩ := hplace 0 (by decide)
  obtain rfl : [1] = position := Option.some.inj hposition
  obtain rfl : ⟨"loop/loop", 1, 3, 3, 12, 27⟩ = entry := Option.some.inj hentry
  exact ⟨run_nestedLoop_report, hsize, ⟨u, v, haccounted⟩, hranks, rfl⟩

end Weaver

end CoverProbe
