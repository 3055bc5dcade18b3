import Mathlib.Data.List.Nodup
import CoverProbe.Proofs.Weave.Coverage

set_option relaxedAutoImplicit false
set_option autoImplicit false

/-!
# Probes on lines

Lines may come back in a stream, go backwards, or begin in its prologue. Behind that, probes on
distinct lines come once for each line, before its first instruction, and probes on line starts once
for each run of instructions on one line, before the first of the run. The first instruction of a
line begins a run, so both reach the same lines.

## Main definitions

* `CoverProbe.Instruction.FirstOn` — the first instruction of a line behind the prologue.
* `CoverProbe.Instruction.LineRun` — a maximal run on one line behind the prologue.
* `CoverProbe.Weave.Fronted` — an instruction with a probe right before it.
* `CoverProbe.Weave.OnePerLine`, `CoverProbe.Weave.OnePerRun` — one probe for each line, or run.

## Main results

* `CoverProbe.Instruction.exists_firstOn`, `exists_lineRun` — every line has a first instruction,
  and every line start its run.
* `CoverProbe.Weaver.lines_covered` — probes on lines cover every line.
-/

namespace CoverProbe

/-! ## Lines of a stream -/

namespace Instruction

/-- Instruction number `k`, `i`, is the first on its line behind the prologue. -/
structure FirstOn (isa : InstructionSet) (insns : List Instruction) (k : Nat) (i : Instruction) :
    Prop where
  behind : prologueLength isa insns ≤ k
  insn : insns[k]? = some i
  fresh : ∀ j b, prologueLength isa insns ≤ j → j < k → insns[j]? = some b → b.line ≠ i.line

/-- The instructions from number `a` up to number `b` are all those on line `line` that stand
together there behind the prologue. -/
structure LineRun (isa : InstructionSet) (insns : List Instruction) (line : UInt32) (a b : Nat) :
    Prop where
  behind : prologueLength isa insns ≤ a
  lt : a < b
  le : b ≤ insns.length
  same : ∀ j i, a ≤ j → j < b → insns[j]? = some i → i.line = line
  starts : ∀ j i, a = j + 1 → prologueLength isa insns ≤ j → insns[j]? = some i → i.line ≠ line
  ends : ∀ i, insns[b]? = some i → i.line ≠ line

variable {isa : InstructionSet} {insns : List Instruction} {line : UInt32}

/-- **Every line behind the prologue has its first instruction there.** -/
theorem exists_firstOn {k : Nat} {i : Instruction} (hk : prologueLength isa insns ≤ k)
    (hi : insns[k]? = some i) : ∃ first f, FirstOn isa insns first f ∧ f.line = i.line := by
  induction k using Nat.strong_induction_on generalizing i with
  | _ k ih =>
    by_cases hearlier : ∃ j b, prologueLength isa insns ≤ j ∧ j < k ∧ insns[j]? = some b ∧
        b.line = i.line
    · obtain ⟨j, b, hj, hlt, hb, hline⟩ := hearlier
      obtain ⟨first, f, hfirst, hf⟩ := ih j hlt hj hb
      exact ⟨first, f, hfirst, hf.trans hline⟩
    · exact ⟨k, i, ⟨hk, hi, fun j b hj hlt hb hline => hearlier ⟨j, b, hj, hlt, hb, hline⟩⟩, rfl⟩

/-- A line has one first instruction. -/
lemma FirstOn.unique {j k : Nat} {i o : Instruction} (hj : FirstOn isa insns j i)
    (hk : FirstOn isa insns k o) (h : i.line = o.line) : j = k := by
  rcases Nat.lt_trichotomy j k with hlt | heq | hlt
  · exact absurd h (hk.fresh j i hj.behind hlt hj.insn)
  · exact heq
  · exact absurd h.symm (hj.fresh k o hk.behind hlt hk.insn)

/-- **Every line start behind the prologue has its run.** It ends at the first instruction on another
line, or with the stream. -/
theorem exists_lineRun {a : Nat} {i : Instruction} (ha : prologueLength isa insns ≤ a)
    (hi : insns[a]? = some i)
    (hstarts : ∀ j b, a = j + 1 → prologueLength isa insns ≤ j → insns[j]? = some b →
      b.line ≠ i.line) : ∃ b, LineRun isa insns i.line a b := by
  have hlt := (List.getElem?_eq_some_iff.1 hi).1
  obtain ⟨b, hab, hb, hfound, hsame⟩ :=
    exists_first (p := fun j => ∃ o, insns[j]? = some o ∧ o.line ≠ i.line) (Nat.succ_le_of_lt hlt)
  refine ⟨b, ha, hab, hb, ?_, hstarts, ?_⟩
  · intro j o hj hjb ho
    by_contra hne
    rcases Nat.lt_or_eq_of_le hj with hgt | rfl
    · exact hsame j hgt hjb ⟨o, ho, hne⟩
    · exact hne (congrArg Instruction.line (Option.some.inj (ho.symm.trans hi)))
  · intro o ho
    rcases hfound with rfl | ⟨o', ho', hne⟩
    · exact absurd (List.getElem?_eq_some_iff.1 ho).1 (Nat.lt_irrefl _)
    · rw [Option.some.inj (ho.symm.trans ho')]
      exact hne

end Instruction

/-! ## Probes of lines -/

namespace Weave

open Control CandidatePolicy Instruction

/-- Old instruction number `k`, `i`, stands in the new code right behind a probe on its line. -/
structure Fronted (isa : InstructionSet) (sites : List Nat) (out : List Instruction) (k : Nat)
    (i : Instruction) : Prop where
  probe : ∃ token offset, out[landAt sites k]? = some ((isa.probe token).place offset i.line)
  moved : ∃ moved, out[landAt sites k + 1]? = some moved ∧ Kept isa i moved

/-- Every line behind the prologue has one probe put in, right before its first instruction there,
and there are no others. -/
structure OnePerLine (isa : InstructionSet) (sites : List Nat) (insns out : List Instruction) :
    Prop where
  covered : ∀ k i, prologueLength isa insns ≤ k → insns[k]? = some i →
    ∃ first f, FirstOn isa insns first f ∧ f.line = i.line ∧ ProbeAt sites (landAt sites first) ∧
      Fronted isa sites out first f ∧
      ∀ v o, ProbeAt sites v → out[v]? = some o → o.line = i.line → v = landAt sites first
  only : ∀ v, ProbeAt sites v → ∃ first f, FirstOn isa insns first f ∧ v = landAt sites first

/-- Every run on one line behind the prologue has one probe put in, right before its first
instruction, and there are no others. -/
structure OnePerRun (isa : InstructionSet) (sites : List Nat) (insns out : List Instruction) :
    Prop where
  covered : ∀ line a b, LineRun isa insns line a b → ProbeAt sites (landAt sites a) ∧
    (∃ i, insns[a]? = some i ∧ i.line = line ∧ Fronted isa sites out a i) ∧
    ∀ v, ProbeAt sites v → landAt sites a ≤ v → v < landAt sites b → v = landAt sites a
  only : ∀ v, ProbeAt sites v → ∃ line a b, LineRun isa insns line a b ∧ v = landAt sites a

variable {isa : InstructionSet} {sites : List Nat} {insns out : List Instruction}
  {stop newStop : Nat}

/-- A site stands right behind its probe. -/
lemma Rewired.fronted (h : Rewired isa sites insns out stop newStop) {k : Nat} {i : Instruction}
    (hi : insns[k]? = some i) (hk : k ∈ sites) : Fronted isa sites out k i := by
  obtain ⟨moved, hseated, -⟩ := h.follows hi
  refine ⟨hseated.probe hk, moved, ?_, hseated.opcode, hseated.line, hseated.arg⟩
  rw [← seatAt_of_mem sites hk]
  exact hseated.seat

/-- The candidates by distinct lines are the first instructions of lines. -/
lemma mem_distinctLines_iff_firstOn {k : Nat} :
    k ∈ distinctLines.indices isa insns ↔ ∃ i, FirstOn isa insns k i := by
  rw [mem_indices_distinctLines]
  constructor
  · rintro ⟨hk, i, hi, hfresh⟩
    exact ⟨i, hk, hi, hfresh⟩
  · rintro ⟨i, hk, hi, hfresh⟩
    exact ⟨hk, i, hi, hfresh⟩

/-- The candidates by line starts are where runs on one line begin. -/
lemma mem_lineStarts_iff_lineRun {k : Nat} :
    k ∈ lineStarts.indices isa insns ↔ ∃ line b, LineRun isa insns line k b := by
  rw [mem_indices_lineStarts]
  constructor
  · rintro ⟨hk, i, hi, hstarts⟩
    exact ⟨i.line, exists_lineRun hk hi hstarts⟩
  · rintro ⟨line, b, hrun⟩
    have hget := List.getElem?_eq_getElem (Nat.lt_of_lt_of_le hrun.lt hrun.le)
    refine ⟨hrun.behind, _, hget, fun j o hk hj ho => ?_⟩
    rw [hrun.same k _ (Nat.le_refl k) hrun.lt hget]
    exact hrun.starts j o hk hj ho

/-- **Probes before the first instructions of lines come once for each line.** -/
theorem Rewired.onePerLine (h : Rewired isa sites insns out stop newStop)
    (hsites : ∀ k, k ∈ sites ↔ ∃ i, FirstOn isa insns k i) : OnePerLine isa sites insns out where
  covered := by
    intro k i hk hi
    obtain ⟨first, f, hfirst, hline⟩ := exists_firstOn hk hi
    have hmem := (hsites first).2 ⟨f, hfirst⟩
    refine ⟨first, f, hfirst, hline, ⟨first, hmem, rfl⟩, h.fronted hfirst.insn hmem, ?_⟩
    rintro v o ⟨k', hk', rfl⟩ ho hoi
    -- The probe lies on the line of the instruction behind it, which is the first there too.
    obtain ⟨f', hfirst'⟩ := (hsites k').1 hk'
    obtain ⟨token, offset, hput⟩ := (h.fronted hfirst'.insn hk').probe
    have hf' : f'.line = o.line := by rw [← Option.some.inj (hput.symm.trans ho)]; rfl
    rw [hfirst'.unique hfirst (hf'.trans (hoi.trans hline.symm))]
  only := by
    rintro v ⟨k, hk, rfl⟩
    obtain ⟨f, hfirst⟩ := (hsites k).1 hk
    exact ⟨k, f, hfirst, rfl⟩

/-- **Probes before the starts of runs come once for each run.** -/
theorem Rewired.onePerRun (h : Rewired isa sites insns out stop newStop)
    (hsites : ∀ k, k ∈ sites ↔ ∃ line b, LineRun isa insns line k b) :
    OnePerRun isa sites insns out where
  covered := by
    intro line a b hrun
    have hmem := (hsites a).2 ⟨line, b, hrun⟩
    have hget := List.getElem?_eq_getElem (Nat.lt_of_lt_of_le hrun.lt hrun.le)
    refine ⟨⟨a, hmem, rfl⟩,
      ⟨_, hget, hrun.same a _ (Nat.le_refl a) hrun.lt hget, h.fronted hget hmem⟩, ?_⟩
    rintro v ⟨k, hk, rfl⟩ hle hlt
    have hak := (landAt_strictMono sites).le_iff_le.1 hle
    have hkb := (landAt_strictMono sites).lt_iff_lt.1 hlt
    rcases Nat.lt_or_eq_of_le hak with hgt | rfl
    · -- Inside a run no other begins.
      exfalso
      obtain ⟨line', b', hrun'⟩ := (hsites k).1 hk
      obtain ⟨j, rfl⟩ : ∃ j, k = j + 1 := ⟨k - 1, by omega⟩
      have hj := List.getElem?_eq_getElem (show j < insns.length by have := hrun.le; omega)
      have hnext := List.getElem?_eq_getElem (Nat.lt_of_lt_of_le hrun'.lt hrun'.le)
      refine hrun'.starts j _ rfl (by have := hrun.behind; omega) hj ?_
      rw [hrun.same j _ (by omega) (by omega) hj,
        ← hrun.same (j + 1) _ (by omega) (by omega) hnext]
      exact hrun'.same (j + 1) _ (Nat.le_refl _) hrun'.lt hnext
    · rfl
  only := by
    rintro v ⟨k, hk, rfl⟩
    obtain ⟨line, b, hrun⟩ := (hsites k).1 hk
    exact ⟨line, k, b, hrun, rfl⟩

end Weave

/-! ## Both policies -/

namespace CandidatePolicy

open Instruction Weave

variable {isa : InstructionSet} {insns : List Instruction}

/-- The first instruction of a line begins a run. -/
lemma lineStarts_of_distinctLines {k : Nat} (h : k ∈ distinctLines.indices isa insns) :
    k ∈ lineStarts.indices isa insns := by
  obtain ⟨i, hfirst⟩ := mem_distinctLines_iff_firstOn.1 h
  refine mem_indices_lineStarts.2 ⟨hfirst.behind, i, hfirst.insn, fun j b hk hj hb => ?_⟩
  exact hfirst.fresh j b hj (hk ▸ Nat.lt_succ_self j) hb

/-- Both policies have candidates on the same lines. -/
lemma lines_distinctLines_iff {line : UInt32} :
    (∃ k i, k ∈ distinctLines.indices isa insns ∧ insns[k]? = some i ∧ i.line = line) ↔
      ∃ k i, k ∈ lineStarts.indices isa insns ∧ insns[k]? = some i ∧ i.line = line := by
  constructor
  · rintro ⟨k, i, hk, hi, hline⟩
    exact ⟨k, i, lineStarts_of_distinctLines hk, hi, hline⟩
  · rintro ⟨k, i, hk, hi, hline⟩
    obtain ⟨first, f, hfirst, hf⟩ := exists_firstOn (mem_indices.1 hk).1 hi
    exact ⟨first, f, mem_distinctLines_iff_firstOn.2 ⟨f, hfirst⟩, hfirst.insn, hf.trans hline⟩

end CandidatePolicy

/-! ## Bodies -/

namespace Weaver

open Weave CandidatePolicy

variable {ρ : Type} {r : Weaver ρ} {u : CodeUnit} {unitIndex : UInt32} {topLevel : Bool}
  {insns : List Instruction} {s : ρ}

/-- The entry is one site of an exhaustive weaver, if there is an entry. -/
lemma Exhaustive.count_entry (h : r.Exhaustive topLevel insns s) :
    (r.sitesOf topLevel insns s).count (prologueLength r.isa insns) =
      if prologueLength r.isa insns < insns.length then 1 else 0 := by
  split_ifs with hlt
  · refine List.count_eq_one_of_mem ?_ (h.entry_mem hlt)
    exact (r.pairwise_sitesOf topLevel insns s).imp Nat.ne_of_lt
  · exact List.count_eq_zero.2 fun hmem => hlt (lt_of_mem_sitesOf hmem)

/-- What it means that the probes of a weaver that draws from the source state `s` cover the lines of
`insns`, of which `out` is the new code. -/
structure LinesCovered (r : Weaver ρ) (topLevel : Bool) (s : ρ) (insns out : List Instruction) :
    Prop where
  distinctLines : r.policy = .distinctLines →
    OnePerLine r.isa (r.sitesOf topLevel insns s) insns out
  lineStarts : r.policy = .lineStarts → OnePerRun r.isa (r.sitesOf topLevel insns s) insns out
  /-- One site is the entry, if there is one. -/
  entry : (r.sitesOf topLevel insns s).count (prologueLength r.isa insns) =
    if prologueLength r.isa insns < insns.length then 1 else 0
  /-- No probe stands before an instruction of the prologue. -/
  behind : ∀ k ∈ r.sitesOf topLevel insns s, prologueLength r.isa insns ≤ k
  /-- Sites by distinct lines are sites by line starts, whatever else the other weaver depends on. -/
  refines : r.policy = .distinctLines → ∀ {ρ' : Type} (r' : Weaver ρ') (topLevel' : Bool) (t : ρ'),
    r'.isa = r.isa → r'.policy = .lineStarts → r'.Exhaustive topLevel' insns t →
    ∀ k ∈ r.sitesOf topLevel insns s, k ∈ r'.sitesOf topLevel' insns t
  /-- And both are on the same lines. -/
  sameLines : r.policy = .distinctLines →
    ∀ {ρ' : Type} (r' : Weaver ρ') (topLevel' : Bool) (t : ρ'),
      r'.isa = r.isa → r'.policy = .lineStarts → r'.Exhaustive topLevel' insns t → ∀ line,
      (∃ k i, k ∈ r.sitesOf topLevel insns s ∧ insns[k]? = some i ∧ i.line = line) ↔
        ∃ k i, k ∈ r'.sitesOf topLevel' insns t ∧ insns[k]? = some i ∧ i.line = line

/-- **Probes on lines cover every line.** When all candidates of a unit get their probes, then by
distinct lines every line that some instruction behind the prologue lies on has one probe, right
before its first instruction there, and by line starts every maximal run of instructions on one line
has one, right before its first instruction. There are no others; the entry is a site, and none
stands before an instruction of the prologue. Where distinct lines have a site, line starts have one
too, and both have sites on the same lines.

**Proof sketch.** The sites are the candidates, and these are the first instructions of lines, or
where runs on one line begin (`mem_distinctLines_iff_firstOn`, `mem_lineStarts_iff_lineRun`). Each
stands right behind its probe (`Rewired.fronted`), and two on one line, or in one run, are the
same. -/
theorem lines_covered (hisa : r.isa = .standard)
    (hinsns : u.instructions r.isa r.sign = .ok insns) (hall : r.Exhaustive topLevel insns s)
    {s' : ρ} {body : WovenBody}
    (h : (r.body u unitIndex topLevel).run.run s = (.ok body, s')) :
    ∃ out, (rebuild u body u.consts).instructions r.isa r.sign = .ok out ∧
      Inserted r.isa (r.sitesOf topLevel insns s) 0 insns out ∧
      LinesCovered r topLevel s insns out := by
  obtain ⟨insns', out, hw⟩ := woven_of_body hisa h
  obtain rfl := Except.ok.inj (hinsns.symm.trans hw.instructions)
  have hrewired := hw.rewired hisa fun k hk => lt_of_mem_sitesOf hk
  refine ⟨out, hw.newInstructions, hw.emits.inserted, ?_, ?_, hall.count_entry,
    fun k hk => hall.le_of_mem hk, ?_, ?_⟩
  · intro hpolicy
    refine hrewired.onePerLine fun k => ?_
    rw [hall.sitesOf_eq, hpolicy]
    exact mem_distinctLines_iff_firstOn
  · intro hpolicy
    refine hrewired.onePerRun fun k => ?_
    rw [hall.sitesOf_eq, hpolicy]
    exact mem_lineStarts_iff_lineRun
  · intro hpolicy ρ' r' topLevel' t hisa' hpolicy' hall' k hk
    rw [hall.sitesOf_eq, hpolicy] at hk
    rw [hall'.sitesOf_eq, hpolicy', hisa']
    exact lineStarts_of_distinctLines hk
  · intro hpolicy ρ' r' topLevel' t hisa' hpolicy' hall' line
    rw [hall.sitesOf_eq, hall'.sitesOf_eq, hpolicy, hpolicy', hisa']
    exact lines_distinctLines_iff

/-- The three lines of a loop are covered by three probes, under either policy, and the probes by
distinct lines are among those by line starts. -/
theorem lines_covered_loop :
    ((everywhere .distinctLines).body .loop 0 false).run.run ⟨[], []⟩ = (.ok .loop, ⟨[], []⟩) ∧
      ((everywhere .lineStarts).body .loop 0 false).run.run ⟨[], []⟩ = (.ok .loop, ⟨[], []⟩) ∧
      CodeUnit.loop.instructions .standard .signed = .ok Instruction.loop ∧
      (everywhere .distinctLines).Exhaustive false Instruction.loop ⟨[], []⟩ ∧
      (everywhere .lineStarts).Exhaustive false Instruction.loop ⟨[], []⟩ ∧
      ∃ out, (rebuild .loop .loop []).instructions .standard .signed = .ok out ∧
        OnePerLine .standard [0, 1, 3] Instruction.loop out ∧
        OnePerRun .standard [0, 1, 3] Instruction.loop out ∧
        LinesCovered (everywhere .distinctLines) false ⟨[], []⟩ Instruction.loop out ∧
        ∀ k ∈ (everywhere .distinctLines).sitesOf false Instruction.loop ⟨[], []⟩,
          k ∈ (everywhere .lineStarts).sitesOf false Instruction.loop ⟨[], []⟩ := by
  have hlines : ((everywhere .distinctLines).body .loop 0 false).run.run ⟨[], []⟩ =
      (.ok .loop, ⟨[], []⟩) := by rfl
  have hruns : ((everywhere .lineStarts).body .loop 0 false).run.run ⟨[], []⟩ =
      (.ok .loop, ⟨[], []⟩) := by rfl
  have hinsns := CodeUnit.instructions_loop
  have hall : (everywhere .distinctLines).Exhaustive false Instruction.loop ⟨[], []⟩ :=
    exhaustive_of_all true rfl rfl _ _
  have hall' : (everywhere .lineStarts).Exhaustive false Instruction.loop ⟨[], []⟩ :=
    exhaustive_of_all true rfl rfl _ _
  obtain ⟨out, hout, -, hcovered⟩ :=
    lines_covered (r := everywhere .distinctLines) (u := .loop) rfl hinsns hall hlines
  obtain ⟨out', hout', -, hcovered'⟩ :=
    lines_covered (r := everywhere .lineStarts) (u := .loop) rfl hinsns hall' hruns
  obtain rfl := Except.ok.inj (hout.symm.trans hout')
  exact ⟨hlines, hruns, hinsns, hall, hall', out, hout, hcovered.distinctLines rfl,
    hcovered'.lineStarts rfl, hcovered,
    hcovered.refines rfl (everywhere .lineStarts) false _ rfl rfl hall'⟩

end Weaver

end CoverProbe
