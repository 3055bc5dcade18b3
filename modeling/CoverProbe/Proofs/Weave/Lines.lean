import CoverProbe.Proofs.Weave.Body

set_option relaxedAutoImplicit false
set_option autoImplicit false

/-!
# Lines of woven code

A probe lies on the line of its instruction, so woven code has the line runs of the old code, in
their order. Each begins where its first instruction went, at the probe of that if it has one.

## Main definitions

* `CoverProbe.Weave.Carried` — a line start and the one that took its place.

## Main results

* `CoverProbe.Weaver.lines_carried` — the new line table has the old starts, carried over, and is
  canonical.
-/

namespace CoverProbe

namespace Weave

/-- The start `t` has taken the place of `s`: on the same line, it lies where a jump to the
instruction at `s` now leads. Instructions are counted from number `index` on. -/
def Carried (sites : List Nat) (index : Nat) (insns out : List Instruction) (s t : LineStart) :
    Prop :=
  t.line = s.line ∧ ∃ k i o, insns[k]? = some i ∧ i.offset = s.offset ∧
    out[k + sitesIn sites index k]? = some o ∧ o.offset = t.offset

variable {sites : List Nat} {index : Nat} {insns out : List Instruction} {s t : LineStart}

/-- Starts carried over behind an instruction and its probe. -/
lemma Carried.probed (h : Carried sites (index + 1) insns out s t) (hs : index ∈ sites)
    (i probe moved : Instruction) :
    Carried sites index (i :: insns) (probe :: moved :: out) s t := by
  obtain ⟨hline, k, j, o, hj, hjs, ho, hot⟩ := h
  refine ⟨hline, k + 1, j, o, hj, hjs, ?_, hot⟩
  rw [add_sitesIn_of_mem hs]
  exact ho

/-- Starts carried over behind an instruction without a probe. -/
lemma Carried.bare (h : Carried sites (index + 1) insns out s t) (hs : index ∉ sites)
    (i moved : Instruction) :
    Carried sites index (i :: insns) (moved :: out) s t := by
  obtain ⟨hline, k, j, o, hj, hjs, ho, hot⟩ := h
  refine ⟨hline, k + 1, j, o, hj, hjs, ?_, hot⟩
  rw [add_sitesIn_of_not_mem hs]
  exact ho

end Weave

namespace Weaver

open Weave

variable {ρ : Type} {r : Weaver ρ} {u : CodeUnit} {unitIndex : UInt32} {topLevel : Bool}

/-- The line starts of old and new code behind any line correspond, one by one.

**Proof sketch.** Induction on the emission. A moved instruction lies on the line of the old one,
and so does its probe; so the old instruction starts a run exactly when the first of the two does,
and the second never does. -/
lemma Emits.carried {sites : List Nat} {relocation : Relocation} {index position : Nat}
    {insns out : List Instruction}
    (h : Emits r u unitIndex topLevel sites relocation index position insns out)
    (current : Option UInt32) :
    List.Forall₂ (Carried sites index insns out) (Instruction.lineRunsFrom current insns)
      (Instruction.lineRunsFrom current out) := by
  induction h generalizing current with
  | nil => exact .nil
  | @probed index position i moved insns out hs hm rest ih =>
    have hprobe : (r.probeAt u unitIndex topLevel position i.line).line = i.line := rfl
    have hmoved : moved.line = i.line := (move_keeps hm).2.1
    have htail := fun c => (ih c).imp fun s t hst =>
      hst.probed hs i (r.probeAt u unitIndex topLevel position i.line) moved
    rw [Instruction.lineRunsFrom, Instruction.lineRunsFrom, hprobe]
    by_cases hc : current = some i.line
    · rw [if_pos hc, if_pos hc, Instruction.lineRunsFrom, hmoved, if_pos hc]
      exact htail current
    · rw [if_neg hc, if_neg hc, Instruction.lineRunsFrom, hmoved, if_pos rfl]
      exact .cons ⟨rfl, 0, i, _, rfl, rfl, rfl, rfl⟩ (htail _)
  | @bare index position i moved insns out hs hm rest ih =>
    have hmoved : moved.line = i.line := (move_keeps hm).2.1
    have htail := fun c => (ih c).imp fun s t hst => hst.bare hs i moved
    rw [Instruction.lineRunsFrom, Instruction.lineRunsFrom, hmoved]
    by_cases hc : current = some i.line
    · rw [if_pos hc, if_pos hc]
      exact htail current
    · rw [if_neg hc, if_neg hc]
      exact .cons ⟨rfl, 0, i, moved, rfl, rfl, rfl, rfl⟩ (htail _)

/-- Starts carried over keep their lines. -/
lemma map_line_of_carried {sites : List Nat} {index : Nat} {insns out : List Instruction}
    {starts new : List LineStart}
    (h : List.Forall₂ (Carried sites index insns out) starts new) :
    new.map (·.line) = starts.map (·.line) := by
  induction h with
  | nil => rfl
  | cons hst _ ih => rw [List.map_cons, List.map_cons, hst.1, ih]

/-- A unit has code exactly when it has instructions. -/
lemma Woven.code_eq_nil_iff (hisa : r.isa = .standard) {body : WovenBody} {sites : List Nat}
    {insns out : List Instruction}
    (hw : Woven r u unitIndex topLevel body sites insns out) : u.code = [] ↔ insns = [] := by
  rw [← List.length_eq_zero_iff, ← hw.extent]
  cases insns with
  | nil => simp
  | cons i rest =>
    have hpos := InstructionSet.width_pos_of_standard hisa i
    rw [InstructionSet.extent_cons]
    simp only [reduceCtorEq, iff_false]
    omega

/-- **Lines are carried over.** A unit without code keeps its line table. The new table of any other
unit decodes to the old line starts, each moved from its instruction to what stands in the place of
that: its probe if it is a site, the instruction itself otherwise. No line is lost, added or
reordered, no two starts are merged, and the new table is the one that encodes them.

**Proof sketch.** The old starts are the line starts of the old instructions, and the new table
encodes those of the new ones and is decoded back to them (`woven_of_body`). The two correspond by
the emission (`Emits.carried`). -/
theorem lines_carried (hisa : r.isa = .standard) {s s' : ρ} {body : WovenBody}
    (h : (r.body u unitIndex topLevel).run.run s = (.ok body, s')) :
    (u.code = [] → body.lineTable = u.lineTable) ∧
      (u.code ≠ [] → ∃ insns out starts new,
        u.instructions r.isa r.sign = .ok insns ∧
        (rebuild u body u.consts).instructions r.isa r.sign = .ok out ∧
        (∀ k i, insns[k]? = some i →
          ∃ moved, Seated r.isa (r.sitesOf topLevel insns s) out k i moved) ∧
        LineTable.decode r.sign u.lineTable u.firstLine = .ok starts ∧
        LineTable.decode r.sign body.lineTable u.firstLine = .ok new ∧
        List.Forall₂ (fun a b => b.line = a.line ∧ ∃ k i o, insns[k]? = some i ∧
          i.offset = a.offset ∧ out[landAt (r.sitesOf topLevel insns s) k]? = some o ∧
          o.offset = b.offset) starts new ∧
        new.map (·.line) = starts.map (·.line) ∧ LineStart.Canonical new ∧
        LineTable.encode r.sign new u.firstLine = .ok body.lineTable) := by
  obtain ⟨insns, out, hw⟩ := woven_of_body hisa h
  have hcode := hw.code_eq_nil_iff hisa
  refine ⟨fun h0 => hw.emptied (hcode.1 h0), fun hne => ?_⟩
  have hne' : insns ≠ [] := fun h0 => hne (hcode.2 h0)
  have hcarried := hw.emits.carried none
  refine ⟨insns, out, Instruction.lineRuns insns, Instruction.lineRuns out, hw.instructions,
    hw.newInstructions, fun k i hk => ?_, hw.lines hne', hw.newLines hne', hcarried,
    map_line_of_carried hcarried, LineTable.canonical_of_decode (hw.newLines hne'),
    hw.newTable hne'⟩
  obtain ⟨moved, hseated, -⟩ :=
    hw.emits.follows (InstructionSet.followable_of_standard hisa) hw.fits hk
  exact ⟨moved, hseated⟩

/-- The lines of a loop are carried over: its table comes out shorter, and says the same. -/
theorem lines_carried_loop :
    (threeRuns.body .loop 0 false).run.run () = (.ok .loop, ()) ∧
      ∃ starts new, LineTable.decode .signed CodeUnit.loop.lineTable 1 = .ok starts ∧
        LineTable.decode .signed WovenBody.loop.lineTable 1 = .ok new ∧
        new.map (·.line) = starts.map (·.line) ∧ LineStart.Canonical new ∧
        LineTable.encode .signed new 1 = .ok WovenBody.loop.lineTable := by
  have hrun : (threeRuns.body .loop 0 false).run.run () = (.ok .loop, ()) := by rfl
  obtain ⟨-, hlines⟩ := lines_carried (r := threeRuns) (u := .loop) rfl hrun
  obtain ⟨-, -, starts, new, -, -, -, hold, hnew, -, hsame, hcanonical, htable⟩ :=
    hlines (by decide)
  exact ⟨hrun, starts, new, hold, hnew, hsame, hcanonical, htable⟩

end Weaver

end CoverProbe
