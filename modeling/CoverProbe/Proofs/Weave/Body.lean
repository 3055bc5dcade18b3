import CoverProbe.Proofs.Instruction.StandardCodec
import CoverProbe.Proofs.LineTable.Attribution
import CoverProbe.Proofs.Probe.Sites
import CoverProbe.Proofs.Weave.Layout

set_option relaxedAutoImplicit false
set_option autoImplicit false

/-!
# Woven bodies

What it comes to that a body is woven: the unit decodes to instructions laid out, whose line starts
are those of its table; probes were put before the sites drawn; and the new body decodes to what was
emitted.

## Main definitions

* `CoverProbe.Weaver.sitesOf` — the sites that a weaver draws.
* `CoverProbe.Weaver.Encoded` — what a woven body encodes, in any instruction set.
* `CoverProbe.Weaver.Woven` — what a woven body comes to in the standard set.

## Main results

* `CoverProbe.Weaver.encoded_of_body` — a woven body encodes what is emitted.
* `CoverProbe.Weaver.woven_of_body` — what weaving comes to.
-/

namespace CoverProbe

/-! ## Lines and layout -/

namespace Instruction

/-- Attribution changes nothing but lines. -/
lemma map_unattributed_withLines (starts : List LineStart) (insns : List Instruction) :
    (withLines starts insns).map unattributed = insns.map unattributed := by
  induction insns generalizing starts with
  | nil => rfl
  | cons i rest ih =>
    rw [withLines, List.map_cons, List.map_cons, ih]
    rfl

end Instruction

namespace InstructionSet

/-- The standard set keeps widths, and jumps, when instructions move. -/
lemma standard_followable : standard.Followable where
  width_place _ _ _ := rfl
  width_probe _ := rfl
  classOf_congr i j h := by
    show Standard.classOf i = Standard.classOf j
    rw [Standard.classOf, Standard.classOf, h]
  jumpTarget_eq _ := rfl

variable {isa : InstructionSet} {start : Nat} {insns : List Instruction}

/-- The standard set is followable, by any name. -/
lemma followable_of_standard (hisa : isa = .standard) : isa.Followable :=
  hisa ▸ standard_followable

/-- The instructions of the standard set take a byte, by any name. -/
lemma width_pos_of_standard (hisa : isa = .standard) (i : Instruction) : 0 < isa.width i := by
  rw [hisa]
  exact Standard.width_pos i

/-- Lines do not bear on where instructions stand. -/
lemma laidOut_map_unattributed (hisa : isa.Placeable) :
    isa.LaidOut start (insns.map Instruction.unattributed) ↔ isa.LaidOut start insns := by
  induction insns generalizing start with
  | nil => rfl
  | cons i rest ih =>
    have hw : isa.width i.unattributed = isa.width i := hisa.width_place i i.offset 0
    rw [List.map_cons, LaidOut, LaidOut, hw, ih]
    rfl

/-- Lines do not bear on the bytes that instructions take. -/
lemma extent_map_unattributed (hisa : isa.Placeable) :
    isa.extent (insns.map Instruction.unattributed) = isa.extent insns := by
  induction insns with
  | nil => rfl
  | cons i rest ih =>
    have hw : isa.width i.unattributed = isa.width i := hisa.width_place i i.offset 0
    rw [List.map_cons, extent_cons, extent_cons, hw, ih]

end InstructionSet

/-! ## Checks -/

/-- Line starts that pass the check lie at instructions. -/
lemma WeaveCheck.anchored_of_startsOnInstructions {insns : List Instruction}
    {starts : List LineStart} (h : startsOnInstructions insns starts = .ok ()) :
    Instruction.Anchored starts insns := by
  induction starts generalizing insns with
  | nil => simp [Instruction.Anchored]
  | cons s rest ih =>
    rw [startsOnInstructions] at h
    split_ifs at h with hs
    have hmem : ∀ i ∈ insns.dropWhile fun i => i.offset < s.offset, i ∈ insns :=
      fun i hi => (List.dropWhile_sublist _).mem hi
    intro t ht
    rcases List.mem_cons.1 ht with rfl | ht
    · obtain ⟨i, hi, heq⟩ := (Option.any_eq_true _ _).1 hs
      exact ⟨i, hmem i (List.mem_of_mem_head? hi), of_decide_eq_true heq⟩
    · obtain ⟨i, hi, heq⟩ := ih h t ht
      exact ⟨i, hmem i hi, heq⟩

/-- Line starts that pass the check lie at instructions, if there are any. -/
lemma WeaveCheck.anchored_of_starts {insns : List Instruction} {found : List LineStart}
    (hne : insns ≠ []) (h : starts insns found = .ok ()) : Instruction.Anchored found insns := by
  rw [starts, if_neg (by simpa using hne)] at h
  exact anchored_of_startsOnInstructions h

namespace Weaver

variable {ρ : Type} {r : Weaver ρ} {u : CodeUnit} {unitIndex : UInt32} {topLevel : Bool}

/-! ## The steps of weaving -/

/-- The prepared instructions are those of the unit, and its lines start at some of them. -/
lemma prepare_eq_ok {insns : List Instruction} (h : r.prepare u = .ok insns) :
    ∃ raw starts, r.isa.decode u.code = .ok raw ∧ u.lineStarts r.sign = .ok starts ∧
      WeaveCheck.starts raw starts = .ok () ∧ insns = Instruction.withLines starts raw := by
  obtain ⟨raw, hraw, h⟩ := Checked.bind_eq_ok.1 h
  obtain ⟨starts, hstarts, h⟩ := Checked.bind_eq_ok.1 h
  obtain ⟨_, hcheck, h⟩ := Checked.bind_eq_ok.1 h
  obtain ⟨_, -, h⟩ := Checked.bind_eq_ok.1 h
  exact ⟨raw, starts, Checked.mapError_eq_ok.1 hraw, Checked.mapError_eq_ok.1 hstarts, hcheck,
    (Except.ok.inj h).symm⟩

/-- The encoded body of a unit whose sites are known, without the check of its indirect jumps. -/
def encoded (r : Weaver ρ) (u : CodeUnit) (unitIndex : UInt32) (topLevel : Bool)
    (insns : List Instruction) (candidates : Nat) (sites : List Nat) :
    Except WeaveCause WovenBody := do
  let out ← r.insert u unitIndex topLevel insns sites
  let code ← (r.isa.encodeAll out).mapError .ofFault
  let lineTable ←
    (LineTable.encode r.sign (Instruction.lineRuns out) u.firstLine).mapError .ofFault
  return ⟨code, lineTable, candidates, sites.length⟩

/-- A body is encoded behind the check, which only units with sites have to pass. -/
lemma bodyWith_eq (insns : List Instruction) (candidates : Nat) (sites : List Nat) :
    r.bodyWith u unitIndex topLevel insns candidates sites =
      if sites.isEmpty then r.encoded u unitIndex topLevel insns candidates sites
      else WeaveCheck.without r.isa .indirect .indirect insns >>= fun _ =>
        r.encoded u unitIndex topLevel insns candidates sites := rfl

/-- A body with given sites encodes what is emitted, and the line starts of that, and counts its
sites. -/
lemma bodyWith_eq_ok {insns : List Instruction} {candidates : Nat} {sites : List Nat}
    {body : WovenBody}
    (h : r.bodyWith u unitIndex topLevel insns candidates sites = .ok body) :
    ∃ out, r.insert u unitIndex topLevel insns sites = .ok out ∧
      r.isa.encodeAll out = .ok body.code ∧
      LineTable.encode r.sign (Instruction.lineRuns out) u.firstLine = .ok body.lineTable ∧
      body.candidates = candidates ∧ body.probes = sites.length := by
  have hencoded : r.encoded u unitIndex topLevel insns candidates sites = .ok body := by
    rw [bodyWith_eq] at h
    split_ifs at h
    · exact h
    · obtain ⟨_, -, h⟩ := Checked.bind_eq_ok.1 h
      exact h
  obtain ⟨out, hout, h⟩ := Checked.bind_eq_ok.1 hencoded
  obtain ⟨code, hcode, h⟩ := Checked.bind_eq_ok.1 h
  obtain ⟨table, htable, h⟩ := Checked.bind_eq_ok.1 h
  obtain rfl := Except.ok.inj h
  exact ⟨out, hout, Checked.mapError_eq_ok.1 hcode, Checked.mapError_eq_ok.1 htable, rfl, rfl⟩

/-- What weaving a body does to the random source and what it returns. -/
theorem run_body (s : ρ) : (r.body u unitIndex topLevel).run.run s =
    match r.prepare u with
    | .error cause => (.error cause, s)
    | .ok insns =>
      if insns.isEmpty then (.ok ⟨[], u.lineTable, 0, 0⟩, s)
      else
        let drawn := (selectSites r.isa insns r.policy (topLevel && r.topLevel = .entryOnly)
          r.sampler).run s
        (r.bodyWith u unitIndex topLevel insns drawn.1.1 drawn.1.2, drawn.2) := by
  rw [body]
  cases r.prepare u with
  | error cause => rfl
  | ok insns =>
    cases insns with
    | nil => rfl
    | cons i rest => rfl

/-- The sites that a weaver draws for instructions from the random source `s`; it draws none where
there are no instructions. -/
def sitesOf (r : Weaver ρ) (topLevel : Bool) (insns : List Instruction) (s : ρ) : List Nat :=
  if insns.isEmpty then []
  else ((selectSites r.isa insns r.policy (topLevel && r.topLevel = .entryOnly)
    r.sampler).run s).1.2

/-- Sites are instructions of the stream. -/
lemma lt_of_mem_sitesOf {insns : List Instruction} {s : ρ} {k : Nat}
    (h : k ∈ r.sitesOf topLevel insns s) : k < insns.length := by
  rw [sitesOf] at h
  split_ifs at h
  · simp at h
  · obtain ⟨c, hc, rfl⟩ := exists_candidate_of_mem_sites h
    exact (CandidatePolicy.bounds_of_mem_candidates hc).2

/-- Sites stand in order. -/
lemma pairwise_sitesOf (r : Weaver ρ) (topLevel : Bool) (insns : List Instruction) (s : ρ) :
    (r.sitesOf topLevel insns s).Pairwise (· < ·) := by
  rw [sitesOf]
  split_ifs
  · exact List.Pairwise.nil
  · exact pairwise_sites

/-- With probes of five bytes before the sites, the new code takes that much more. -/
lemma newExtent_sitesOf (hisa : r.isa = .standard) (topLevel : Bool) (insns : List Instruction)
    (s : ρ) : newExtent r.isa (r.sitesOf topLevel insns s) 0 insns =
      r.isa.extent insns + 5 * (r.sitesOf topLevel insns s).length := by
  have hwidth : r.isa.width (r.isa.probe 0) = 5 := by
    rw [hisa]
    rfl
  have hcount := Weave.sitesIn_eq_length (r.pairwise_sitesOf topLevel insns s)
    fun k hk => lt_of_mem_sitesOf hk
  rw [newExtent, hwidth, hcount]

/-- A woven body was prepared, and is either empty or has the sites drawn. -/
lemma body_eq_ok {s s' : ρ} {body : WovenBody}
    (h : (r.body u unitIndex topLevel).run.run s = (.ok body, s')) :
    ∃ insns, r.prepare u = .ok insns ∧
      ((insns = [] ∧ body = ⟨[], u.lineTable, 0, 0⟩) ∨
        insns ≠ [] ∧ ∃ candidates,
          r.bodyWith u unitIndex topLevel insns candidates (r.sitesOf topLevel insns s) =
            .ok body) := by
  rw [run_body] at h
  cases hp : r.prepare u with
  | error cause =>
    simp only [hp] at h
    exact absurd (Prod.mk.inj h).1 (by simp)
  | ok insns =>
    simp only [hp] at h
    refine ⟨insns, rfl, ?_⟩
    by_cases hne : insns.isEmpty = true
    · rw [if_pos hne] at h
      exact .inl ⟨List.isEmpty_iff.1 hne, (Except.ok.inj (Prod.mk.inj h).1).symm⟩
    · rw [if_neg hne] at h
      rw [sitesOf, if_neg hne]
      exact .inr ⟨fun h0 => hne (List.isEmpty_iff.2 h0), _, (Prod.mk.inj h).1⟩

/-! ## What weaving comes to -/

/-- What a woven body encodes, in any instruction set: `insns` with probes before the sites `sites`,
counted by its probes. -/
structure Encoded (r : Weaver ρ) (u : CodeUnit) (unitIndex : UInt32) (topLevel : Bool)
    (body : WovenBody) (sites : List Nat) (insns out : List Instruction) : Prop where
  prepared : r.prepare u = .ok insns
  fits : newExtent r.isa sites 0 insns < 4294967296
  emits : Emits r u unitIndex topLevel sites (r.relocationOf u sites insns) 0 0 insns out
  encodes : r.isa.encodeAll out = .ok body.code
  probes : body.probes = Weave.sitesIn sites 0 insns.length

/-- **A woven body encodes what is emitted**, in any instruction set. -/
theorem encoded_of_body {s s' : ρ} {body : WovenBody}
    (h : (r.body u unitIndex topLevel).run.run s = (.ok body, s')) :
    ∃ insns out, Encoded r u unitIndex topLevel body (r.sitesOf topLevel insns s) insns out := by
  obtain ⟨insns, hprepare, hbody⟩ := body_eq_ok h
  rcases hbody with ⟨rfl, rfl⟩ | ⟨hne, candidates, hbody⟩
  · exact ⟨[], [], hprepare, by simp [newExtent], .nil, rfl, rfl⟩
  · obtain ⟨out, hout, hcode, -, -, hprobes⟩ := bodyWith_eq_ok hbody
    obtain ⟨hfits, hemits⟩ := emits_of_insert hout
    refine ⟨insns, out, hprepare, hfits, hemits, hcode, hprobes.trans ?_⟩
    exact (Weave.sitesIn_eq_length (r.pairwise_sitesOf topLevel insns s)
      fun k hk => lt_of_mem_sitesOf hk).symm

/-- A woven body has no more probes than candidates, in any instruction set. -/
lemma probes_le_candidates {s s' : ρ} {body : WovenBody}
    (h : (r.body u unitIndex topLevel).run.run s = (.ok body, s')) :
    body.probes ≤ body.candidates := by
  rw [run_body] at h
  cases hprepare : r.prepare u with
  | error cause =>
    rw [hprepare] at h
    exact absurd (Prod.mk.inj h).1 (by simp)
  | ok insns =>
    rw [hprepare] at h
    dsimp only at h
    split_ifs at h
    · obtain rfl := Except.ok.inj (Prod.mk.inj h).1
      exact Nat.le_refl 0
    · obtain ⟨-, -, -, -, hcandidates, hprobes⟩ := bodyWith_eq_ok (Prod.mk.inj h).1
      rw [hcandidates, hprobes]
      exact length_sites_le insns

/-- What it comes to that a body is woven of instructions `insns`, with probes before the sites
`sites`: the new code is `out`. -/
structure Woven (r : Weaver ρ) (u : CodeUnit) (unitIndex : UInt32) (topLevel : Bool)
    (body : WovenBody) (sites : List Nat) (insns out : List Instruction) : Prop where
  instructions : u.instructions r.isa r.sign = .ok insns
  lines : insns ≠ [] → u.lineStarts r.sign = .ok (Instruction.lineRuns insns)
  laidOut : r.isa.LaidOut 0 insns
  extent : r.isa.extent insns = u.code.length
  fits : newExtent r.isa sites 0 insns < 4294967296
  emits : Emits r u unitIndex topLevel sites (r.relocationOf u sites insns) 0 0 insns out
  newLaidOut : r.isa.LaidOut 0 out
  newInstructions : (rebuild u body u.consts).instructions r.isa r.sign = .ok out
  newTable : insns ≠ [] →
    LineTable.encode r.sign (Instruction.lineRuns out) u.firstLine = .ok body.lineTable
  newLines : insns ≠ [] →
    (rebuild u body u.consts).lineStarts r.sign = .ok (Instruction.lineRuns out)
  codeEnd : newExtent r.isa sites 0 insns = body.code.length
  emptied : insns = [] → body.lineTable = u.lineTable

/-- The instructions of a prepared unit are laid out over its code, and have the line starts of its
table. -/
lemma standard_prepare (hisa : r.isa = .standard) {insns : List Instruction}
    (h : r.prepare u = .ok insns) :
    u.instructions r.isa r.sign = .ok insns ∧ r.isa.LaidOut 0 insns ∧
      r.isa.extent insns = u.code.length ∧
      (insns ≠ [] → u.lineStarts r.sign = .ok (Instruction.lineRuns insns)) := by
  obtain ⟨raw, starts, hraw, hstarts, hcheck, rfl⟩ := prepare_eq_ok h
  have hplace := (InstructionSet.followable_of_standard hisa).toPlaceable
  have hlaid : r.isa.LaidOut 0 raw ∧ r.isa.extent raw = u.code.length := by
    rw [hisa] at hraw ⊢
    exact Standard.laidOut_of_decodeFrom hraw
  have hlines := Instruction.map_unattributed_withLines starts raw
  refine ⟨?_, ?_, ?_, fun hne => ?_⟩
  · rw [CodeUnit.instructions, hraw, hstarts]
    rfl
  · rw [← InstructionSet.laidOut_map_unattributed hplace, hlines,
      InstructionSet.laidOut_map_unattributed hplace]
    exact hlaid.1
  · rw [← InstructionSet.extent_map_unattributed hplace, hlines,
      InstructionSet.extent_map_unattributed hplace]
    exact hlaid.2
  · have hraw0 : raw ≠ [] := by
      rintro rfl
      exact hne rfl
    have hpos := InstructionSet.width_pos_of_standard hisa
    have hzero : ∀ i ∈ raw.head?, i.offset = 0 := by
      intro i hi
      cases raw with
      | nil => simp at hi
      | cons j rest =>
        obtain rfl := Option.some.inj hi
        exact UInt32.toNat_inj.1 hlaid.1.1
    rw [Instruction.lineRuns_withLines (LineTable.canonical_of_decode hstarts)
      (hlaid.1.increasing hpos) hzero (WeaveCheck.anchored_of_starts hraw0 hcheck)]
    exact hstarts

/-- What weaving comes to without instructions. -/
lemma woven_of_nil (hisa : r.isa = .standard) (hprep : r.prepare u = .ok []) (sites : List Nat) :
    Woven r u unitIndex topLevel ⟨[], u.lineTable, 0, 0⟩ sites [] [] := by
  obtain ⟨hinsns, hlaid, hext, -⟩ := standard_prepare hisa hprep
  obtain ⟨raw, starts, -, hstarts, -, -⟩ := prepare_eq_ok hprep
  refine ⟨hinsns, fun h0 => absurd rfl h0, hlaid, hext, by simp [newExtent], .nil, trivial, ?_,
    fun h0 => absurd rfl h0, fun h0 => absurd rfl h0, by simp [newExtent], fun _ => rfl⟩
  have hstarts' : (rebuild u ⟨[], u.lineTable, 0, 0⟩ u.consts).lineStarts r.sign = .ok starts :=
    hstarts
  rw [CodeUnit.instructions, hstarts', hisa]
  rfl

/-- What weaving comes to when the body encodes what was inserted.

**Proof sketch.** What was emitted is laid out; so its bytes decode to it, its line starts are
decoded back, and the two together give the instructions their lines. -/
lemma woven_of_insert (hisa : r.isa = .standard) {insns out : List Instruction} {sites : List Nat}
    {body : WovenBody} (hprep : r.prepare u = .ok insns) (hne : insns ≠ [])
    (hout : r.insert u unitIndex topLevel insns sites = .ok out)
    (hcode : r.isa.encodeAll out = .ok body.code)
    (htable : LineTable.encode r.sign (Instruction.lineRuns out) u.firstLine =
      .ok body.lineTable) :
    Woven r u unitIndex topLevel body sites insns out := by
  obtain ⟨hinsns, hlaid, hext, hlines⟩ := standard_prepare hisa hprep
  obtain ⟨hfits, hemits⟩ := emits_of_insert hout
  have hplace := (InstructionSet.followable_of_standard hisa).toPlaceable
  have hpos := InstructionSet.width_pos_of_standard hisa
  have hnew := hemits.laidOut hplace (by omega)
  have hdecode : r.isa.decode body.code = .ok (out.map Instruction.unattributed) := by
    rw [hisa] at hcode hnew ⊢
    exact Standard.decodeFrom_encodeAll hcode hnew
  have hlen : r.isa.extent out = body.code.length := by
    rw [hisa] at hcode ⊢
    exact (Standard.length_encodeAll hcode).symm
  have hruns : Instruction.lineRuns out ≠ [] := by
    have hlength := hemits.length_eq
    have hold := List.length_pos_iff.2 hne
    cases out with
    | nil =>
      simp only [List.length_nil] at hlength
      omega
    | cons o rest => simp [Instruction.lineRuns, Instruction.lineRunsFrom]
  have hback : (rebuild u body u.consts).lineStarts r.sign = .ok (Instruction.lineRuns out) :=
    LineTable.decode_of_encode htable hruns (Instruction.isChain_lineRunsFrom none out).1
  refine ⟨hinsns, hlines, hlaid, hext, hfits, hemits, hnew, ?_, fun _ => htable,
    fun _ => hback, (hemits.extent_eq hplace).symm.trans hlen, fun h0 => absurd h0 hne⟩
  have hattributed := Instruction.withLines_lineRuns (hnew.increasing hpos)
  have hdecode' : r.isa.decode (rebuild u body u.consts).code = _ := hdecode
  rw [CodeUnit.instructions, hdecode', hback]
  exact congrArg Except.ok hattributed

/-- **What weaving comes to**, for the standard instruction set. Without instructions nothing is
emitted; otherwise the body encodes what was inserted. -/
theorem woven_of_body (hisa : r.isa = .standard) {s s' : ρ} {body : WovenBody}
    (h : (r.body u unitIndex topLevel).run.run s = (.ok body, s')) :
    ∃ insns out, Woven r u unitIndex topLevel body (r.sitesOf topLevel insns s) insns out := by
  obtain ⟨insns, hprep, hbody⟩ := body_eq_ok h
  rcases hbody with ⟨rfl, rfl⟩ | ⟨hne, candidates, hbody⟩
  · exact ⟨[], [], woven_of_nil hisa hprep _⟩
  · obtain ⟨out, hout, hcode, htable, -, -⟩ := bodyWith_eq_ok hbody
    exact ⟨insns, out, woven_of_insert hisa hprep hne hout hcode htable⟩

/-- A weaver that puts a probe before the first three line runs of every unit. -/
def threeRuns : Weaver Unit where
  isa := .standard
  sign := .signed
  policy := .lineStarts
  topLevel := .full
  sampler := Sampler.fixed [0, 1, 2]
  tokens site := site.offset

end Weaver

/-- A loop over three lines: its head leads behind it, its tail back to it. The line table advances
to the second line in two steps. -/
def CodeUnit.loop : CodeUnit where
  name := "loop"
  firstLine := 1
  code := [0x23, 6, 0, 0, 0, 0x11, 0x20, 0, 0, 0, 0, 0x12]
  consts := []
  lineTable := [0, 1, 3, 0, 2, 1, 6, 1]

/-- The loop with a probe on each of its lines. -/
def WovenBody.loop : WovenBody where
  code := [0x40, 0, 0, 0, 0, 0x23, 11, 0, 0, 0, 0x40, 10, 0, 0, 0, 0x11, 0x20, 0, 0, 0, 0,
    0x40, 21, 0, 0, 0, 0x12]
  lineTable := [0, 1, 10, 1, 11, 1]
  candidates := 3
  probes := 3

end CoverProbe
