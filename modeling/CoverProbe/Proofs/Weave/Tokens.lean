import CoverProbe.Proofs.LineTable.Lookup
import CoverProbe.Proofs.Weave.Checks
import CoverProbe.Proofs.Weave.Counterpart

set_option relaxedAutoImplicit false
set_option autoImplicit false

/-!
# Tokens of woven probes

A token is made before the code is emitted, of the place where its probe is to stand. It tells the
place where the probe does stand: the offset at which the new code decodes to it, and the line that
the new table gives that offset, in the unit whose rank the token scheme was given.

## Main results

* `CoverProbe.Weaver.Emits.tells` — emitted probes tell their offsets and their lines.
* `CoverProbe.Weaver.Woven.tells` — and so they do when read back from the new body.
* `CoverProbe.Weaver.probes_tell_places` — every probe of a woven tree tells its place.
-/

namespace CoverProbe

namespace Weaver

variable {ρ : Type} {r : Weaver ρ} {u : CodeUnit} {unitIndex : UInt32} {topLevel : Bool}

/-- Moving an instruction makes it no probe. -/
lemma isProbe_move (hisa : r.isa = .standard) {relocation : Relocation} {p : Placement}
    {moved : Instruction} (h : move r.isa relocation p = .ok moved) :
    r.isa.isProbe moved = r.isa.isProbe p.insn := by
  rw [hisa]
  show Standard.isProbe moved = Standard.isProbe p.insn
  rw [Standard.isProbe, Standard.isProbe, (move_keeps h).1]

/-- **Emitted probes tell their offsets and their lines**, where the old code has no probes. -/
theorem Emits.tells (hisa : r.isa = .standard) {sites : List Nat} {relocation : Relocation}
    {index position : Nat} {insns out : List Instruction}
    (h : Emits r u unitIndex topLevel sites relocation index position insns out)
    (hfree : ∀ i ∈ insns, r.isa.isProbe i = false) :
    ∀ o ∈ out, r.isa.isProbe o = true → o.arg =
      some (r.tokens ⟨u.name, unitIndex, u.firstLine, o.offset, o.line, topLevel⟩) := by
  -- What was moved is no probe.
  have hmoved : ∀ {p : Placement} {moved : Instruction}, move r.isa relocation p = .ok moved →
      r.isa.isProbe p.insn = false → r.isa.isProbe moved = true → moved.arg =
        some (r.tokens ⟨u.name, unitIndex, u.firstLine, moved.offset, moved.line, topLevel⟩) := by
    intro p moved hm hi hprobe
    rw [isProbe_move hisa hm, hi] at hprobe
    exact absurd hprobe (by simp)
  induction h with
  | nil => simp
  | @probed index position i moved insns out hs hm rest ih =>
    obtain ⟨hi, hrest⟩ := List.forall_mem_cons.1 hfree
    have hprobe : (r.probeAt u unitIndex topLevel position i.line).arg =
        some (r.tokens ⟨u.name, unitIndex, u.firstLine, UInt32.ofNat position, i.line,
          topLevel⟩) := by
      rw [probeAt, hisa]
      rfl
    exact List.forall_mem_cons.2 ⟨fun _ => hprobe,
      List.forall_mem_cons.2 ⟨hmoved hm hi, ih hrest⟩⟩
  | bare hs hm rest ih =>
    obtain ⟨hi, hrest⟩ := List.forall_mem_cons.1 hfree
    exact List.forall_mem_cons.2 ⟨hmoved hm hi, ih hrest⟩

/-- **Probes read back from a new body tell the offsets at which they are read**, and the lines that
looking these up in the new table gives, where the old code has no probes.

**Proof sketch.** The new body decodes to what was emitted. The lines of that are those looked up
in the new table (`withLines_eq_map`), and emitted probes tell them (`Emits.tells`). -/
theorem Woven.tells (hisa : r.isa = .standard) {body : WovenBody} {sites : List Nat}
    {insns out : List Instruction} (h : Woven r u unitIndex topLevel body sites insns out)
    (hfree : ∀ raw, r.isa.decode u.code = .ok raw → ∀ i ∈ raw, r.isa.isProbe i = false)
    (consts : Pool) :
    ∃ raw starts, r.isa.decode (rebuild u body consts).code = .ok raw ∧
      (rebuild u body consts).lineStarts r.sign = .ok starts ∧
      ∀ i ∈ raw, r.isa.isProbe i = true → i.arg = some (r.tokens
        ⟨u.name, unitIndex, u.firstLine, i.offset, LineStart.lineAt starts i.offset, topLevel⟩) := by
  have hold : ∀ i ∈ insns, r.isa.isProbe i = false := by
    obtain ⟨raw, starts, hraw, -, rfl⟩ := instructions_eq_ok.1 h.instructions
    have hkeeps : ∀ i, r.isa.isProbe i.unattributed = false ↔ r.isa.isProbe i = false := by
      rw [hisa]
      exact fun _ => Iff.rfl
    exact (Instruction.forall_mem_withLines hkeeps _ _).2 (hfree raw hraw)
  obtain ⟨raw, starts, hraw, hstarts, hout⟩ := instructions_eq_ok.1 h.newInstructions
  have hincreasing : Instruction.Increasing raw := by
    have hdecode := hraw
    rw [hisa] at hdecode
    exact (Standard.laidOut_of_decodeFrom hdecode).1.increasing Standard.width_pos
  have hlookup := Instruction.withLines_eq_map
    (LineStart.pairwise_of_isChain (LineTable.canonical_of_decode hstarts).advances)
    (hincreasing.imp fun hlt => UInt32.le_of_lt hlt)
  refine ⟨raw, starts, hraw, hstarts, fun i hi hprobe => ?_⟩
  refine h.emits.tells hisa hold { i with line := LineStart.lineAt starts i.offset } ?_ ?_
  · rw [hout, hlookup]
    exact List.mem_map_of_mem hi
  · rw [hisa] at hprobe ⊢
    exact hprobe

/-- **Every probe of a woven tree tells its place**, if there were no probes before: the name of its
unit, the rank of that in pre-order, its first line, the offset at which the new code decodes to the
probe, the line that the new table gives this offset, and whether the unit is the root of a
top-level module.

**Proof sketch.** The unit is the counterpart of the one with its rank (`exists_counterpart`), so
its body was woven by that rank, and tells the places of its probes (`Woven.tells`). -/
theorem probes_tell_places (hisa : r.isa = .standard) {root out : CodeUnit} {s s' : ρ}
    (hsize : root.treeSize < 4294967296)
    (hfree : ∀ p ∈ root.places topLevel, ∀ insns, r.isa.decode p.unit.code = .ok insns →
      ∀ i ∈ insns, r.isa.isProbe i = false)
    (h : (r.tree root topLevel).run.run s = (.ok out, s')) {k : Nat} {q : Place}
    (hq : (out.places topLevel)[k]? = some q) :
    ∃ p rank insns starts, (root.places topLevel)[k]? = some p ∧ rank.toNat = k ∧
      q.unit.name = p.unit.name ∧ q.unit.firstLine = p.unit.firstLine ∧
      r.isa.decode q.unit.code = .ok insns ∧ q.unit.lineStarts r.sign = .ok starts ∧
      ∀ i ∈ insns, r.isa.isProbe i = true → i.arg = some (r.tokens
        ⟨q.unit.name, rank, q.unit.firstLine, i.offset, LineStart.lineAt starts i.offset,
          topLevel && decide (k = 0)⟩) := by
  obtain ⟨p, hp, hcounter⟩ := exists_counterpart h hq
  obtain ⟨body, s₁, s₂, hbody, hunit⟩ := hcounter.woven
  have hrank : (UInt32.ofNat k).toNat = k := by
    have hk := (List.getElem?_eq_some_iff.1 hp).1
    rw [CodeUnit.places, CodeUnit.length_placesBelow] at hk
    exact Word.toNat_ofNat_of_fits (by omega)
  have hname : q.unit.name = p.unit.name := by rw [hunit]; rfl
  have hline : q.unit.firstLine = p.unit.firstLine := by rw [hunit]; rfl
  obtain ⟨_, _, hw⟩ := woven_of_body hisa hbody
  obtain ⟨insns, starts, hinsns, hstarts, htells⟩ :=
    hw.tells hisa (hfree p (List.mem_of_getElem? hp)) q.unit.consts
  rw [← hunit] at hinsns hstarts
  rw [CodeUnit.topLevel_of_places hp] at htells
  refine ⟨p, UInt32.ofNat k, insns, starts, hp, hrank, hname, hline, hinsns, hstarts, ?_⟩
  rw [hname, hline]
  exact htells

/-- Tokens that are offsets tell those of their probes, also in the loop that is nested in another,
which holds some. -/
theorem probes_tell_places_nestedLoop :
    (threeRuns.tree .nestedLoop true).run.run () = (.ok .wovenLoop, ()) ∧
      ∃ q insns, (CodeUnit.wovenLoop.places true)[1]? = some q ∧
        InstructionSet.standard.decode q.unit.code = .ok insns ∧
        (∃ i ∈ insns, InstructionSet.standard.isProbe i = true) ∧
        ∀ i ∈ insns, InstructionSet.standard.isProbe i = true → i.arg = some i.offset := by
  have hcode : ∀ p ∈ CodeUnit.nestedLoop.places true, p.unit.code = CodeUnit.loop.code := by
    decide
  have hloop : ∃ insns, InstructionSet.standard.decode CodeUnit.loop.code = .ok insns ∧
      ∀ i ∈ insns, InstructionSet.standard.isProbe i = false := ⟨_, rfl, by decide⟩
  have hfree : ∀ p ∈ CodeUnit.nestedLoop.places true, ∀ insns,
      threeRuns.isa.decode p.unit.code = .ok insns →
        ∀ i ∈ insns, threeRuns.isa.isProbe i = false := by
    intro p hp insns hinsns
    obtain ⟨insns', hdecode, hall⟩ := hloop
    rw [hcode p hp] at hinsns
    obtain rfl := Except.ok.inj (hdecode.symm.trans hinsns)
    exact hall
  obtain ⟨_, _, insns, _, -, -, -, -, hinsns, -, htells⟩ :=
    probes_tell_places (r := threeRuns) rfl (by decide) hfree run_nestedLoop (k := 1) rfl
  obtain ⟨insns', hinsns', hprobe⟩ :=
    CodeUnit.exists_probe_wovenLoop _ (List.mem_of_getElem? (i := 1) rfl)
  obtain rfl := Except.ok.inj (hinsns.symm.trans hinsns')
  exact ⟨run_nestedLoop, _, insns, rfl, hinsns, hprobe, htells⟩

end Weaver

end CoverProbe
