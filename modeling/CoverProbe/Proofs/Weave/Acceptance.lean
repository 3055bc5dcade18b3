import CoverProbe.Proofs.Weave.Emission

set_option relaxedAutoImplicit false
set_option autoImplicit false

/-!
# Units that are woven

Which units are woven, and why the others are not. The checks are told in the order in which they
are made, each as a structure that extends the ones before it; a unit is woven exactly if it meets
them all, and what it is refused for tells which it met last.

## Main definitions

* `CoverProbe.Weaver.Direct`, `CoverProbe.Weaver.Fitting`, `CoverProbe.Weaver.Weavable` — prepared
  units that meet the checks made with the sites known.
* `CoverProbe.Weaver.Refusal` — the causes for which a unit is refused, each with its evidence.

## Main results

* `CoverProbe.Weaver.body_outcome` — which units are woven, and which are refused for what.
-/

namespace CoverProbe

namespace Weaver

open Weave Validity

variable {ρ : Type}

/-! ## Checks made with the sites known -/

/-- The unit is prepared, and if it has sites then no `JUMP_INDIRECT`. -/
structure Direct (r : Weaver ρ) (u : CodeUnit) (topLevel : Bool) (s : ρ)
    (insns : List Instruction) : Prop extends Prepared r u insns where
  direct : r.sitesOf topLevel insns s ≠ [] → ∀ i ∈ insns, i.opcode ≠ Opcode.jumpIndirect.byte

/-- Moreover its code has room for a probe of five bytes at each of its sites. -/
structure Fitting (r : Weaver ρ) (u : CodeUnit) (topLevel : Bool) (s : ρ)
    (insns : List Instruction) : Prop extends Direct r u topLevel s insns where
  fits : u.code.length + 5 * (r.sitesOf topLevel insns s).length ≤ 4294967295

/-- Moreover every jump leads to an instruction or to the end of the code. -/
structure Weavable (r : Weaver ρ) (u : CodeUnit) (topLevel : Bool) (s : ρ)
    (insns : List Instruction) : Prop extends Fitting r u topLevel s insns where
  targets : ∀ i ∈ insns, ∀ target, r.isa.jumpTarget i = some target → IsTarget u insns target

/-- The causes for which a unit is refused. No jump lacks its operand, would have to lead backwards
or changes its width, and whatever is emitted can be written. -/
inductive Refusal (r : Weaver ρ) (u : CodeUnit) (topLevel : Bool) (s : ρ) : WeaveCause → Prop
  | code {fault : Fault} (h : r.isa.decode u.code = .error fault) :
      Refusal r u topLevel s (.malformed (.fault fault))
  | table {raw : List Instruction} {fault : Fault} (hraw : r.isa.decode u.code = .ok raw)
      (h : u.lineStarts r.sign = .error fault) :
      Refusal r u topLevel s (.malformed (.fault fault))
  | start {insns : List Instruction} {starts : List LineStart} {st : LineStart}
      (hinsns : u.instructions r.isa r.sign = .ok insns)
      (hstarts : u.lineStarts r.sign = .ok starts) (hst : st ∈ starts) (h : ¬ Founded insns st) :
      Refusal r u topLevel s (.malformed (.lineOffBoundary st.line st.offset))
  | pinned {insns : List Instruction} {i : Instruction} (hread : Readable r u insns)
      (hi : i ∈ insns.dropWhile fun i => i.opcode = Opcode.genStart.byte)
      (h : i.opcode = Opcode.genStart.byte) :
      Refusal r u topLevel s (.unsupported Opcode.genStart.mnemonic i.offset .pinned)
  | indirect {insns : List Instruction} {i : Instruction} (hprep : Prepared r u insns)
      (hsites : r.sitesOf topLevel insns s ≠ []) (hi : i ∈ insns)
      (h : i.opcode = Opcode.jumpIndirect.byte) :
      Refusal r u topLevel s (.unsupported Opcode.jumpIndirect.mnemonic i.offset .indirect)
  | codeEnd {insns : List Instruction} (hdirect : Direct r u topLevel s insns)
      (h : 4294967295 < u.code.length + 5 * (r.sitesOf topLevel insns s).length) :
      Refusal r u topLevel s
        (.overflow (.codeEnd (u.code.length + 5 * (r.sitesOf topLevel insns s).length)))
  | jump {insns : List Instruction} {i : Instruction} {target : Nat}
      (hfit : Fitting r u topLevel s insns) (hi : i ∈ insns)
      (htarget : r.isa.jumpTarget i = some target) (h : ¬ IsTarget u insns target) :
      Refusal r u topLevel s
        (.malformed (.jumpOffBoundary (r.isa.mnemonic i.opcode) i.offset target))

variable {r : Weaver ρ} {u : CodeUnit} {insns : List Instruction} {topLevel : Bool} {s : ρ}

/-! ## Prepared units -/

/-- The instructions of a unit have bytes. -/
lemma encodable_of_instructions (hisa : r.isa = .standard)
    (h : u.instructions r.isa r.sign = .ok insns) : ∀ i ∈ insns, Standard.Encodable i := by
  obtain ⟨raw, starts, hraw, -, rfl⟩ := instructions_eq_ok.1 h
  rw [hisa] at hraw
  rw [Instruction.forall_mem_withLines fun _ => Iff.rfl]
  exact Standard.encodable_of_decodeFrom hraw

/-- The bytes that the new code of a prepared unit takes. -/
lemma newExtent_of_prepared (hisa : r.isa = .standard) (h : Prepared r u insns) (topLevel : Bool)
    (s : ρ) : newExtent r.isa (r.sitesOf topLevel insns s) 0 insns =
      u.code.length + 5 * (r.sitesOf topLevel insns s).length := by
  obtain ⟨-, -, hext, -⟩ := standard_prepare hisa (prepare_of_prepared hisa h)
  rw [newExtent_sitesOf hisa, hext]

/-- What weaving a prepared unit comes to, when it has instructions. -/
lemma run_body_of_prepared (hisa : r.isa = .standard) (h : Prepared r u insns) (hne : insns ≠ [])
    (unitIndex : UInt32) (topLevel : Bool) (s : ρ) :
    ∃ candidates, ((r.body u unitIndex topLevel).run.run s).1 =
      r.bodyWith u unitIndex topLevel insns candidates (r.sitesOf topLevel insns s) := by
  have hempty : ¬ insns.isEmpty = true := by simpa using hne
  refine ⟨((selectSites r.isa insns r.policy (topLevel && r.topLevel = .entryOnly)
    r.sampler).run s).1.1, ?_⟩
  rw [run_body, prepare_of_prepared hisa h]
  simp only [if_neg hempty]
  rw [sitesOf, if_neg hempty]

/-- A unit without indirect jumps in the way of its sites is encoded. -/
lemma run_body_of_direct (hisa : r.isa = .standard) (h : Direct r u topLevel s insns)
    (hne : insns ≠ []) (unitIndex : UInt32) :
    ∃ candidates, ((r.body u unitIndex topLevel).run.run s).1 =
      r.encoded u unitIndex topLevel insns candidates (r.sitesOf topLevel insns s) := by
  obtain ⟨candidates, hrun⟩ := run_body_of_prepared hisa h.toPrepared hne unitIndex topLevel s
  refine ⟨candidates, hrun.trans ?_⟩
  rw [bodyWith_eq]
  split_ifs with hsites
  · rfl
  · rcases WeaveCheck.without_outcome r.isa .indirect .indirect insns with
      ⟨hok, -⟩ | ⟨i, hi, hc, -⟩
    · rw [hok]
      rfl
    · rw [hisa] at hc
      exact absurd ((Standard.classOf_eq_indirect_iff i).1 hc)
        (h.direct (by simpa using hsites) i hi)

/-- A unit without instructions is weavable as soon as it is prepared. -/
lemma weavable_of_nil (hisa : r.isa = .standard) (h : Prepared r u []) (topLevel : Bool) (s : ρ) :
    Weavable r u topLevel s [] := by
  have hlength := newExtent_of_prepared hisa h topLevel s
  rw [newExtent, List.length_nil, sitesIn_zero] at hlength
  have hdirect : Direct r u topLevel s [] := ⟨h, by simp⟩
  exact ⟨⟨hdirect, by simp only [InstructionSet.extent_nil] at hlength; omega⟩, by simp⟩

/-! ## What each check leads to -/

/-- A unit that cannot be read is refused as malformed. -/
lemma body_of_unreadable (hisa : r.isa = .standard) (h : ∀ insns, ¬ Readable r u insns)
    (unitIndex : UInt32) (topLevel : Bool) (s : ρ) :
    ∃ cause, Refusal r u topLevel s (.malformed cause) ∧
      ((r.body u unitIndex topLevel).run.run s).1 = .error (.malformed cause) := by
  rw [run_body]
  rcases prepare_of_unreadable hisa h with ⟨fault, hcode, hprep⟩ | ⟨raw, fault, hraw, htable, hprep⟩ |
    ⟨insns, starts, st, hinsns, hstarts, hst, hnot, hprep⟩
  · exact ⟨_, .code hcode, by rw [hprep]⟩
  · exact ⟨_, .table hraw htable, by rw [hprep]⟩
  · exact ⟨_, .start hinsns hstarts hst hnot, by rw [hprep]⟩

/-- A unit with a pinned instruction behind its prologue is refused for that. -/
lemma body_of_misplaced (hisa : r.isa = .standard) (h : Readable r u insns)
    (hn : ¬ Prepared r u insns) (unitIndex : UInt32) (topLevel : Bool) (s : ρ) :
    ∃ name offset, Refusal r u topLevel s (.unsupported name offset .pinned) ∧
      ((r.body u unitIndex topLevel).run.run s).1 = .error (.unsupported name offset .pinned) := by
  obtain ⟨i, hi, hop, hprep⟩ := prepare_of_misplaced hisa h hn
  refine ⟨_, _, .pinned h hi hop, ?_⟩
  rw [run_body, hprep]

/-- A unit with sites and an indirect jump is refused for that. -/
lemma body_of_indirect (hisa : r.isa = .standard) (h : Prepared r u insns)
    (hn : ¬ Direct r u topLevel s insns) (unitIndex : UInt32) :
    ∃ name offset, Refusal r u topLevel s (.unsupported name offset .indirect) ∧
      ((r.body u unitIndex topLevel).run.run s).1 =
        .error (.unsupported name offset .indirect) := by
  have hne : insns ≠ [] := by
    rintro rfl
    exact hn (weavable_of_nil hisa h topLevel s).toDirect
  obtain ⟨candidates, hrun⟩ := run_body_of_prepared hisa h hne unitIndex topLevel s
  have hsites : r.sitesOf topLevel insns s ≠ [] := fun h0 => hn ⟨h, fun hs => absurd h0 hs⟩
  rcases WeaveCheck.without_outcome r.isa .indirect .indirect insns with
    ⟨-, hall⟩ | ⟨i, hi, hc, herr⟩
  · refine absurd ⟨h, fun _ i hi hop => hall i hi ?_⟩ hn
    rw [hisa]
    exact (Standard.classOf_eq_indirect_iff i).2 hop
  · have hop : i.opcode = Opcode.jumpIndirect.byte := by
      rw [hisa] at hc
      exact (Standard.classOf_eq_indirect_iff i).1 hc
    have hname : r.isa.mnemonic i.opcode = Opcode.jumpIndirect.mnemonic := by
      rw [hisa, hop]
      rfl
    refine ⟨_, _, .indirect h hsites hi hop, ?_⟩
    rw [hrun, bodyWith_eq, if_neg (by simpa using hsites), herr, hname]
    rfl

/-- A unit whose code gets too long is refused for that. -/
lemma body_of_overflow (hisa : r.isa = .standard) (h : Direct r u topLevel s insns)
    (hn : ¬ Fitting r u topLevel s insns) (unitIndex : UInt32) :
    ∃ cause, Refusal r u topLevel s (.overflow cause) ∧
      ((r.body u unitIndex topLevel).run.run s).1 = .error (.overflow cause) := by
  have hne : insns ≠ [] := by
    rintro rfl
    exact hn (weavable_of_nil hisa h.toPrepared topLevel s).toFitting
  obtain ⟨candidates, hrun⟩ := run_body_of_direct hisa h hne unitIndex
  have hover : 4294967295 < u.code.length + 5 * (r.sitesOf topLevel insns s).length :=
    Nat.lt_of_not_le fun hle => hn ⟨h, hle⟩
  have hextent := newExtent_of_prepared hisa h.toPrepared topLevel s
  refine ⟨_, .codeEnd h hover, ?_⟩
  rw [hrun, encoded, insert_of_overflow (by omega), hextent]
  rfl

/-- **What weaving a unit that fits comes to**: it is woven, unless an instruction jumps to no
target.

**Proof sketch.** Inserting the probes succeeds up to stray jumps (`insert_outcome`). What it emits
has bytes, as the decoded instructions have (`Emits.exists_encodeAll`), and its line starts have a
table, as the old ones were decoded from one (`Emits.exists_encode_lineRuns`). -/
lemma body_of_fitting (hisa : r.isa = .standard) (h : Fitting r u topLevel s insns)
    (unitIndex : UInt32) :
    (Weavable r u topLevel s insns ∧
        ∃ body, ((r.body u unitIndex topLevel).run.run s).1 = .ok body) ∨
      ∃ cause, ¬ Weavable r u topLevel s insns ∧ Refusal r u topLevel s (.malformed cause) ∧
        ((r.body u unitIndex topLevel).run.run s).1 = .error (.malformed cause) := by
  have hprep := prepare_of_prepared hisa h.toPrepared
  obtain ⟨hinsns, hlaid, hext, hlines⟩ := standard_prepare hisa hprep
  have henc := encodable_of_instructions hisa hinsns
  by_cases hne : insns = []
  · subst hne
    refine .inl ⟨weavable_of_nil hisa h.toPrepared topLevel s, ⟨[], u.lineTable, 0, 0⟩, ?_⟩
    rw [run_body, hprep]
    rfl
  obtain ⟨candidates, hrun⟩ := run_body_of_direct hisa h.toDirect hne unitIndex
  have hfits : newExtent r.isa (r.sitesOf topLevel insns s) 0 insns < 4294967296 := by
    rw [newExtent_of_prepared hisa h.toPrepared topLevel s]
    exact Nat.lt_succ_of_le h.fits
  rcases insert_outcome hisa unitIndex topLevel hlaid henc hfits with
    ⟨⟨out, hout⟩, htargets⟩ | ⟨i, hi, target, htarget, hnot, herr⟩
  · have hemits := (emits_of_insert hout).2
    obtain ⟨code, hcode⟩ := hemits.exists_encodeAll hisa henc
    obtain ⟨table, htable⟩ := hemits.exists_encode_lineRuns hisa hfits (hlines hne)
    refine .inl ⟨⟨h, htargets⟩, ⟨code, table, candidates,
      (r.sitesOf topLevel insns s).length⟩, ?_⟩
    rw [hrun, encoded, hout]
    simp only [bind, Except.bind, hcode, htable, Except.mapError]
    rfl
  · refine .inr ⟨_, fun hw => hnot (hw.targets i hi target htarget), .jump h hi htarget hnot, ?_⟩
    rw [hrun, encoded, herr]
    rfl

/-- A unit is woven, or refused for a cause of the list. -/
lemma weavable_or_refusal (hisa : r.isa = .standard) (u : CodeUnit) (unitIndex : UInt32)
    (topLevel : Bool) (s : ρ) :
    ((∃ insns, Weavable r u topLevel s insns) ∧
        ∃ body, ((r.body u unitIndex topLevel).run.run s).1 = .ok body) ∨
      ∃ cause, Refusal r u topLevel s cause ∧
        ((r.body u unitIndex topLevel).run.run s).1 = .error cause := by
  by_cases hread : ∃ insns, Readable r u insns
  · obtain ⟨insns, hread⟩ := hread
    by_cases hprep : Prepared r u insns
    · by_cases hdirect : Direct r u topLevel s insns
      · by_cases hfit : Fitting r u topLevel s insns
        · rcases body_of_fitting hisa hfit unitIndex with ⟨hw, hok⟩ | ⟨_, -, href, herr⟩
          · exact .inl ⟨⟨insns, hw⟩, hok⟩
          · exact .inr ⟨_, href, herr⟩
        · obtain ⟨_, href, herr⟩ := body_of_overflow hisa hdirect hfit unitIndex
          exact .inr ⟨_, href, herr⟩
      · obtain ⟨_, _, href, herr⟩ := body_of_indirect hisa hprep hdirect unitIndex
        exact .inr ⟨_, href, herr⟩
    · obtain ⟨_, _, href, herr⟩ := body_of_misplaced hisa hread hprep unitIndex topLevel s
      exact .inr ⟨_, href, herr⟩
  · obtain ⟨_, href, herr⟩ :=
      body_of_unreadable hisa (fun insns h => hread ⟨insns, h⟩) unitIndex topLevel s
    exact .inr ⟨_, href, herr⟩

/-! ## What each outcome tells -/

/-- A unit that is woven is weavable. -/
lemma weavable_of_ok (hisa : r.isa = .standard) {unitIndex : UInt32} {body : WovenBody}
    (h : ((r.body u unitIndex topLevel).run.run s).1 = .ok body) :
    ∃ insns, Weavable r u topLevel s insns := by
  rcases weavable_or_refusal hisa u unitIndex topLevel s with ⟨hw, -⟩ | ⟨cause, -, herr⟩
  · exact hw
  · exact absurd (h.symm.trans herr) (by simp)

/-- A unit that is refused is refused for a cause of the list. -/
lemma refusal_of_error (hisa : r.isa = .standard) {unitIndex : UInt32} {cause : WeaveCause}
    (h : ((r.body u unitIndex topLevel).run.run s).1 = .error cause) :
    Refusal r u topLevel s cause := by
  rcases weavable_or_refusal hisa u unitIndex topLevel s with ⟨-, body, hok⟩ | ⟨_, href, herr⟩
  · exact absurd (hok.symm.trans h) (by simp)
  · obtain rfl := Except.error.inj (herr.symm.trans h)
    exact href

/-- A malformed unit cannot be read, or fits and has a stray jump. -/
lemma Refusal.of_malformed {cause : MalformedCause}
    (h : Refusal r u topLevel s (.malformed cause)) :
    (∀ insns, ¬ Readable r u insns) ∨
      ∃ insns, Fitting r u topLevel s insns ∧ ¬ Weavable r u topLevel s insns := by
  cases h with
  | code h =>
    refine .inl fun insns hread => ?_
    obtain ⟨raw, -, hraw, -⟩ := instructions_eq_ok.1 hread.instructions
    exact absurd (h.symm.trans hraw) (by simp)
  | table _ h =>
    refine .inl fun insns hread => ?_
    obtain ⟨starts, hstarts, -⟩ := hread.founded
    exact absurd (h.symm.trans hstarts) (by simp)
  | start hinsns hstarts hst h =>
    refine .inl fun insns hread => ?_
    obtain ⟨starts, hstarts', hfounded⟩ := hread.founded
    obtain rfl := Except.ok.inj (hinsns.symm.trans hread.instructions)
    obtain rfl := Except.ok.inj (hstarts.symm.trans hstarts')
    exact h (hfounded _ hst)
  | jump hfit hi htarget h =>
    exact .inr ⟨_, hfit, fun hw => h (hw.targets _ hi _ htarget)⟩

/-- A unit refused for a pinned instruction can be read, and has one out of place. -/
lemma Refusal.of_pinned {name : String} {offset : UInt32}
    (h : Refusal r u topLevel s (.unsupported name offset .pinned)) :
    ∃ insns, Readable r u insns ∧ ¬ Prepared r u insns := by
  cases h with
  | pinned hread hi h => exact ⟨_, hread, fun hprep => hprep.pinned _ hi h⟩

/-- A unit refused for an indirect jump is prepared, and has one besides its sites. -/
lemma Refusal.of_indirect {name : String} {offset : UInt32}
    (h : Refusal r u topLevel s (.unsupported name offset .indirect)) :
    ∃ insns, Prepared r u insns ∧ ¬ Direct r u topLevel s insns := by
  cases h with
  | indirect hprep hsites hi h => exact ⟨_, hprep, fun hd => hd.direct hsites _ hi h⟩

/-- A unit that overflows has no indirect jumps in the way, and no room for its probes. -/
lemma Refusal.of_overflow {cause : OverflowCause}
    (h : Refusal r u topLevel s (.overflow cause)) :
    ∃ insns, Direct r u topLevel s insns ∧ ¬ Fitting r u topLevel s insns := by
  cases h with
  | codeEnd hdirect h => exact ⟨_, hdirect, fun hfit => absurd hfit.fits (Nat.not_le.2 h)⟩

/-! ## Which units are woven -/

/-- **Which units are woven, and which are refused for what.** The checks are made in this order:
the unit can be read, or it is malformed; its pinned instructions stand in front, or one is
unsupported; no indirect jump is in the way of its sites, or it is unsupported; the new code ends at
a 32-bit word, or it overflows; every jump leads to an instruction or to the end, or the unit is
malformed. Nothing else keeps a unit from being woven.

**Proof sketch.** Each failed check leads to its refusal (`body_of_unreadable` and so on), and past
the last the unit is woven (`body_of_fitting`). Conversely a refusal carries the evidence that its
check failed and the ones before it did not (`Refusal.of_malformed` and so on). -/
theorem body_outcome (hisa : r.isa = .standard) (u : CodeUnit) (unitIndex : UInt32)
    (topLevel : Bool) (s : ρ) :
    let result := ((r.body u unitIndex topLevel).run.run s).1
    ((∃ body, result = .ok body) ↔ ∃ insns, Weavable r u topLevel s insns) ∧
      ((∃ cause, result = .error (.malformed cause)) ↔
        (∀ insns, ¬ Readable r u insns) ∨
          ∃ insns, Fitting r u topLevel s insns ∧ ¬ Weavable r u topLevel s insns) ∧
      ((∃ name offset, result = .error (.unsupported name offset .pinned)) ↔
        ∃ insns, Readable r u insns ∧ ¬ Prepared r u insns) ∧
      ((∃ name offset, result = .error (.unsupported name offset .indirect)) ↔
        ∃ insns, Prepared r u insns ∧ ¬ Direct r u topLevel s insns) ∧
      ((∃ cause, result = .error (.overflow cause)) ↔
        ∃ insns, Direct r u topLevel s insns ∧ ¬ Fitting r u topLevel s insns) ∧
      ∀ cause, result = .error cause → Refusal r u topLevel s cause := by
  intro result
  refine ⟨⟨?_, ?_⟩, ⟨?_, ?_⟩, ⟨?_, ?_⟩, ⟨?_, ?_⟩, ⟨?_, ?_⟩, fun _ => refusal_of_error hisa⟩
  · rintro ⟨body, hok⟩
    exact weavable_of_ok hisa hok
  · rintro ⟨insns, hw⟩
    rcases body_of_fitting hisa hw.toFitting unitIndex with ⟨-, hok⟩ | ⟨_, hn, -, -⟩
    · exact hok
    · exact absurd hw hn
  · rintro ⟨cause, herr⟩
    exact (refusal_of_error hisa herr).of_malformed
  · rintro (hn | ⟨insns, hfit, hn⟩)
    · obtain ⟨cause, -, herr⟩ := body_of_unreadable hisa hn unitIndex topLevel s
      exact ⟨cause, herr⟩
    · rcases body_of_fitting hisa hfit unitIndex with ⟨hw, -⟩ | ⟨cause, -, -, herr⟩
      · exact absurd hw hn
      · exact ⟨cause, herr⟩
  · rintro ⟨name, offset, herr⟩
    exact (refusal_of_error hisa herr).of_pinned
  · rintro ⟨insns, hread, hn⟩
    obtain ⟨name, offset, -, herr⟩ := body_of_misplaced hisa hread hn unitIndex topLevel s
    exact ⟨name, offset, herr⟩
  · rintro ⟨name, offset, herr⟩
    exact (refusal_of_error hisa herr).of_indirect
  · rintro ⟨insns, hprep, hn⟩
    obtain ⟨name, offset, -, herr⟩ := body_of_indirect hisa hprep hn unitIndex
    exact ⟨name, offset, herr⟩
  · rintro ⟨cause, herr⟩
    exact (refusal_of_error hisa herr).of_overflow
  · rintro ⟨insns, hdirect, hn⟩
    obtain ⟨cause, -, herr⟩ := body_of_overflow hisa hdirect hn unitIndex
    exact ⟨cause, herr⟩

/-- The loop is woven, so it is weavable. -/
theorem weavable_loop :
    (threeRuns.body .loop 0 false).run.run () = (.ok .loop, ()) ∧
      ∃ insns, Weavable threeRuns .loop false () insns := by
  have hrun : (threeRuns.body .loop 0 false).run.run () = (.ok .loop, ()) := by rfl
  obtain ⟨hwoven, -⟩ := body_outcome (r := threeRuns) rfl .loop 0 false ()
  exact ⟨hrun, hwoven.1 ⟨.loop, by rw [hrun]⟩⟩

end Weaver

end CoverProbe
