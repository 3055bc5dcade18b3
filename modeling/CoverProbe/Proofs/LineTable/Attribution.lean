import Mathlib.Data.List.Chain
import CoverProbe.LineTable.Attribution
import CoverProbe.Proofs.Instruction.Stream
import CoverProbe.Proofs.LineTable.RoundTrip

set_option relaxedAutoImplicit false
set_option autoImplicit false

/-!
# Attribution and canonical line starts

A decoded line table is canonical: it begins at offset zero, its offsets increase, and every start
changes the line. Canonical starts that lie at instructions and instructions with lines determine
each other.

## Main definitions

* `CoverProbe.LineStart.Canonical` — line starts as a table decodes to them.
* `CoverProbe.Instruction.Anchored` — line starts that all lie at instructions.

## Main results

* `CoverProbe.LineTable.canonical_of_decode` — decoded starts are canonical.
* `CoverProbe.LineTable.decode_of_encode` — starts that are encoded and all change the line are
  decoded back.
* `CoverProbe.Instruction.ordered_lineRuns` — the line starts of instructions are in order.
* `CoverProbe.Instruction.lineRuns_withLines`, `withLines_lineRuns` — attribution and the line
  starts of attributed instructions invert each other.
-/

namespace CoverProbe

/-! ## Canonical starts -/

namespace LineStart

/-- Each start lies behind the one before it and changes the line. -/
def Advances (s t : LineStart) : Prop :=
  s.offset < t.offset ∧ s.line ≠ t.line

/-- Line starts as a table decodes to them: the first at offset zero, and each behind the one before
it and on another line. -/
structure Canonical (starts : List LineStart) : Prop where
  nonempty : starts ≠ []
  zero : ∀ s ∈ starts.head?, s.offset = 0
  advances : starts.IsChain Advances

/-- The offsets of starts that advance increase. -/
lemma pairwise_of_isChain {starts : List LineStart} (h : starts.IsChain Advances) :
    starts.Pairwise fun s t => s.offset < t.offset := by
  have htrans : IsTrans LineStart fun s t => s.offset < t.offset :=
    ⟨fun _ _ _ h₁ h₂ => UInt32.lt_trans h₁ h₂⟩
  exact (h.imp fun _ _ hst => hst.1).pairwise

/-- Starts that all change the line are not merged. -/
lemma mergeFrom_eq_self {current : Option UInt32} {starts : List LineStart}
    (hc : ∀ s ∈ starts.head?, current ≠ some s.line)
    (h : starts.IsChain fun s t => s.line ≠ t.line) : mergeFrom current starts = starts := by
  induction starts generalizing current with
  | nil => rfl
  | cons s rest ih =>
    rw [mergeFrom, if_neg (hc s rfl)]
    have hrest := List.isChain_cons.1 h
    have hne : ∀ t ∈ rest.head?, some s.line ≠ some t.line := by
      intro t ht heq
      exact hrest.1 t ht (Option.some.inj heq)
    rw [ih hne hrest.2]

/-- Starts that all change the line are not merged. -/
lemma merge_eq_self {starts : List LineStart} (h : starts.IsChain fun s t => s.line ≠ t.line) :
    merge starts = starts :=
  mergeFrom_eq_self (fun _ _ => by simp) h

end LineStart

namespace LineTable

open LineStart

/-- A run lies behind another and on another line. -/
def Run.Advances (r t : Run) : Prop :=
  r.offset < t.offset ∧ r.line ≠ t.line

/-- The runs met along transitions lie at or behind the open run, each behind the one before it and
on another line, the first not on the line reported last. -/
lemma isChain_of_runsAlong {run : Run} {last : Option Int} {ts : List Transition} {rs : List Run}
    (h : runsAlong run last ts = .ok rs) :
    rs.IsChain Run.Advances ∧ ∀ r ∈ rs.head?, run.offset ≤ r.offset ∧ last ≠ some r.line := by
  induction ts generalizing run last rs with
  | nil =>
    obtain rfl : run.report last = rs := Except.ok.inj h
    rw [Run.report]
    split_ifs with hl <;> simp [hl]
  | cons t ts ih =>
    simp only [runsAlong] at h
    split at h
    · obtain ⟨hchain, hhead⟩ := ih h
      exact ⟨hchain, hhead⟩
    rename_i hne
    split at h
    · simp at h
    rename_i offset hoff
    obtain ⟨tail, htail, h⟩ := Checked.bind_eq_ok.1 h
    obtain rfl := Except.ok.inj h
    obtain ⟨hchain, hhead⟩ := ih htail
    have hlt : run.offset < offset := by
      have h0 : t.offsetDelta.toNat ≠ 0 := fun h => hne (UInt32.toNat_inj.1 h)
      have hsum := Word.ofNat?_eq_some_iff.1 hoff
      rw [UInt32.lt_iff_toNat_lt]
      omega
    have hbehind : ∀ r ∈ tail.head?, run.offset < r.offset ∧ run.line ≠ r.line := by
      intro r hr
      obtain ⟨hle, hline⟩ := hhead r hr
      exact ⟨UInt32.lt_of_lt_of_le hlt hle, fun heq => hline (by rw [heq])⟩
    rw [Run.report]
    split_ifs with hl
    · refine ⟨hchain, fun r hr => ?_⟩
      obtain ⟨hlt', hline⟩ := hbehind r hr
      exact ⟨UInt32.le_of_lt hlt', fun heq => hline (Option.some.inj (hl.symm.trans heq))⟩
    · refine ⟨List.isChain_cons.2 ⟨hbehind, hchain⟩, fun r hr => ?_⟩
      obtain rfl : run = r := Option.some.inj hr
      exact ⟨UInt32.le_refl _, hl⟩

/-- Behind an open run that was not reported, the first run met lies where the open run does. -/
lemma head_of_runsAlong {run : Run} {ts : List Transition} {rs : List Run}
    (h : runsAlong run none ts = .ok rs) : ∃ r more, rs = r :: more ∧ r.offset = run.offset := by
  induction ts generalizing run with
  | nil => exact ⟨run, [], (Except.ok.inj h).symm, rfl⟩
  | cons t ts ih =>
    simp only [runsAlong] at h
    split at h
    · obtain ⟨r, more, heq, hzero⟩ := ih h
      exact ⟨r, more, heq, hzero⟩
    split at h
    · simp at h
    obtain ⟨tail, -, h⟩ := Checked.bind_eq_ok.1 h
    exact ⟨run, tail, (Except.ok.inj h).symm, rfl⟩

/-- The line start of a run is the one whose run it is. -/
lemma start_eq_ok {firstLine : UInt32} {r : Run} {s : LineStart}
    (h : Run.start firstLine r = .ok s) : r = s.run firstLine := by
  rw [Run.start] at h
  split at h
  · simp at h
  rename_i word hword
  obtain rfl := Except.ok.inj h
  have hline := Word.ofInt?_eq_some_iff.1 hword
  obtain ⟨offset, line⟩ := r
  simp only [LineStart.run, Run.mk.injEq, true_and]
  simp only at hline
  omega

/-- The runs of a table are those of the line starts that it decodes to. -/
lemma runs_of_decode {sign : SignConvention} {table : List UInt8} {firstLine : UInt32}
    {starts : List LineStart} (h : decode sign table firstLine = .ok starts) :
    runs sign table = .ok (starts.map (LineStart.run firstLine)) := by
  obtain ⟨rs, hrs, hstarts⟩ := Checked.bind_eq_ok.1 h
  have hmap : starts.map (LineStart.run firstLine) = rs := by
    have hall := Checked.mapM_eq_ok.1 hstarts
    refine List.forall₂_eq_eq_eq ▸ (List.forall₂_map_left_iff.2 ?_)
    exact (hall.imp fun r s hs => (start_eq_ok hs).symm).flip
  rw [hmap]
  exact hrs

/-- **Decoded line starts are canonical.**

**Proof sketch.** The runs of a table are met along the moves of its pairs. The first is the open
run at offset zero; the others lie behind one another, each on a line that was not reported last
(`isChain_of_runsAlong`). A line start has the offset of its run, and lines differ as their
distances from the base line do. -/
theorem canonical_of_decode {sign : SignConvention} {table : List UInt8} {firstLine : UInt32}
    {starts : List LineStart} (h : decode sign table firstLine = .ok starts) :
    Canonical starts := by
  have hrs := runs_of_decode h
  rw [runs] at hrs
  split at hrs
  · simp at hrs
  rw [runsFrom_eq_runsAlong] at hrs
  obtain ⟨hchain, -⟩ := isChain_of_runsAlong hrs
  obtain ⟨r, more, hmap, hzero⟩ := head_of_runsAlong hrs
  refine ⟨fun h0 => by simp [h0] at hmap, fun s hs => ?_, ?_⟩
  · cases starts with
    | nil => simp at hs
    | cons s' rest =>
      obtain rfl : s' = s := Option.some.inj hs
      have hr := (List.cons.inj hmap).1
      rw [← hr] at hzero
      exact hzero
  · rw [List.isChain_map] at hchain
    refine hchain.imp fun s t hst => ⟨hst.1, fun heq => hst.2 ?_⟩
    simp only [LineStart.run, heq]

/-- **Starts that are encoded and all change the line are decoded back.** -/
theorem decode_of_encode {sign : SignConvention} {firstLine : UInt32} {starts : List LineStart}
    {table : List UInt8} (h : encode sign starts firstLine = .ok table) (hne : starts ≠ [])
    (hline : starts.IsChain fun s t => s.line ≠ t.line) :
    decode sign table firstLine = .ok starts := by
  have ho : Ordered starts := by
    by_contra hn
    obtain ⟨cause, hc⟩ := @encode_of_not_ordered sign firstLine starts hn
    rw [h] at hc
    exact absurd hc (by simp)
  have hf : sign = .unsigned → Forward firstLine starts := by
    rintro rfl
    by_contra hn
    obtain ⟨cause, hc⟩ := encode_of_backward ho hn
    rw [h] at hc
    exact absurd hc (by simp)
  obtain ⟨table', htable, hd⟩ := decode_encode ho hf
  obtain rfl := Except.ok.inj (h.symm.trans htable)
  rw [hd, if_neg hne, merge_eq_self hline]

end LineTable

/-! ## Attribution -/

namespace Instruction

/-- Every start lies at an instruction. -/
def Anchored (starts : List LineStart) (insns : List Instruction) : Prop :=
  ∀ s ∈ starts, ∃ i ∈ insns, i.offset = s.offset

/-- The cursor stays at a start when the next one lies behind the offset. -/
lemma seek_eq_self {offset : UInt32} {s : LineStart} {more : List LineStart}
    (h : ∀ t ∈ more.head?, offset < t.offset) : LineStart.seek offset (s :: more) = s :: more := by
  cases more with
  | nil => rfl
  | cons t more =>
    rw [LineStart.seek, if_neg (UInt32.not_le.2 (h t rfl))]

/-- The cursor moves to the next start when that lies at the offset. -/
lemma seek_next {s t : LineStart} {more : List LineStart}
    (h : ∀ t' ∈ more.head?, t.offset < t'.offset) :
    LineStart.seek t.offset (s :: t :: more) = t :: more := by
  rw [LineStart.seek, if_pos (UInt32.le_refl _), seek_eq_self h]

/-- Starts behind the first instruction lie at the others. -/
lemma Anchored.tail {starts : List LineStart} {i : Instruction} {rest : List Instruction}
    (h : Anchored starts (i :: rest)) (hlt : ∀ s ∈ starts, i.offset < s.offset) :
    Anchored starts rest := by
  intro s hs
  obtain ⟨j, hj, heq⟩ := h s hs
  rcases List.mem_cons.1 hj with rfl | hj
  · exact absurd (hlt s hs) (by rw [heq]; exact UInt32.lt_irrefl _)
  · exact ⟨j, hj, heq⟩

/-- The first instruction gets the line of the start at the cursor. -/
lemma withLines_cons {starts : List LineStart} {i : Instruction} {s : LineStart}
    {more : List LineStart} (h : LineStart.seek i.offset starts = s :: more)
    (rest : List Instruction) :
    withLines starts (i :: rest) = { i with line := s.line } :: withLines (s :: more) rest := by
  rw [withLines, h]
  rfl

/-- The line starts of instructions lie at instructions. -/
lemma anchored_lineRunsFrom (current : Option UInt32) (insns : List Instruction) :
    Anchored (lineRunsFrom current insns) insns := by
  induction insns generalizing current with
  | nil => simp [Anchored, lineRunsFrom]
  | cons i rest ih =>
    have hrest : ∀ c, Anchored (lineRunsFrom c rest) (i :: rest) := by
      intro c s hs
      obtain ⟨j, hj, heq⟩ := ih c s hs
      exact ⟨j, List.mem_cons_of_mem i hj, heq⟩
    rw [lineRunsFrom]
    split_ifs with hl
    · exact hrest current
    · intro s hs
      rcases List.mem_cons.1 hs with rfl | hs
      · exact ⟨i, List.mem_cons_self, rfl⟩
      · exact hrest _ s hs

/-- The line starts of instructions all change the line, the first of them the line in force. -/
lemma isChain_lineRunsFrom (current : Option UInt32) (insns : List Instruction) :
    ((lineRunsFrom current insns).IsChain fun s t => s.line ≠ t.line) ∧
      ∀ s ∈ (lineRunsFrom current insns).head?, current ≠ some s.line := by
  induction insns generalizing current with
  | nil => simp [lineRunsFrom]
  | cons i rest ih =>
    rw [lineRunsFrom]
    split_ifs with hl
    · exact ih current
    · obtain ⟨hchain, hhead⟩ := ih (some i.line)
      refine ⟨List.isChain_cons.2 ⟨fun t ht heq => hhead t ht (congrArg some heq), hchain⟩, ?_⟩
      intro s hs
      obtain rfl := Option.some.inj hs
      exact hl

/-- The line starts of instructions lie behind whatever the instructions lie behind. -/
lemma lt_of_mem_lineRunsFrom {offset : UInt32} {current : Option UInt32} {insns : List Instruction}
    (h : ∀ i ∈ insns, offset < i.offset) {s : LineStart} (hs : s ∈ lineRunsFrom current insns) :
    offset < s.offset := by
  obtain ⟨i, hi, heq⟩ := anchored_lineRunsFrom current insns s hs
  rw [← heq]
  exact h i hi

/-- **The line starts of instructions are in order**, if the first instruction lies at offset
zero. -/
theorem ordered_lineRuns {insns : List Instruction} (h : Increasing insns)
    (hzero : ∀ i ∈ insns.head?, i.offset = 0) : LineStart.Ordered (lineRuns insns) := by
  have hchain : ∀ (current : Option UInt32) (insns : List Instruction), Increasing insns →
      ((lineRunsFrom current insns).map (·.offset)).IsChain (· < ·) := by
    intro current insns h
    induction insns generalizing current with
    | nil => exact List.isChain_nil
    | cons i rest ih =>
      obtain ⟨hbehind, hrest⟩ := List.pairwise_cons.1 h
      rw [lineRunsFrom]
      split_ifs
      · exact ih current hrest
      · refine List.isChain_cons.2 ⟨fun o ho => ?_, ih _ hrest⟩
        obtain ⟨s, hs, rfl⟩ := List.mem_map.1 (List.mem_of_mem_head? ho)
        exact lt_of_mem_lineRunsFrom hbehind hs
  refine ⟨fun s hs => ?_, hchain none insns h⟩
  cases insns with
  | nil => simp [lineRuns, lineRunsFrom] at hs
  | cons i rest =>
    rw [lineRuns, lineRunsFrom, if_neg (by simp)] at hs
    obtain rfl := Option.some.inj hs
    exact hzero i rfl

/-- Instructions behind a start get back their lines from the line starts they have. -/
lemma withLines_lineRunsFrom {insns : List Instruction} (h : Increasing insns) (s : LineStart) :
    withLines (s :: lineRunsFrom (some s.line) insns) (insns.map unattributed) = insns := by
  induction insns generalizing s with
  | nil => rfl
  | cons i rest ih =>
    obtain ⟨hbehind, hrest⟩ := List.pairwise_cons.1 h
    have hnext : ∀ c, ∀ t ∈ (lineRunsFrom c rest).head?, i.offset < t.offset :=
      fun c t ht => lt_of_mem_lineRunsFrom hbehind (List.mem_of_mem_head? ht)
    rw [lineRunsFrom, List.map_cons]
    split_ifs with hl
    · rw [withLines_cons (i := i.unattributed) (seek_eq_self (hnext _)), ih hrest,
        Option.some.inj hl]
      rfl
    · rw [withLines_cons (i := i.unattributed) (seek_next (t := ⟨i.offset, i.line⟩) (hnext _)),
        ih hrest ⟨i.offset, i.line⟩]
      rfl

/-- **The line starts of instructions attribute them**: an instruction gets back the line it had. -/
theorem withLines_lineRuns {insns : List Instruction} (h : Increasing insns) :
    withLines (lineRuns insns) (insns.map unattributed) = insns := by
  cases insns with
  | nil => rfl
  | cons i rest =>
    obtain ⟨hbehind, hrest⟩ := List.pairwise_cons.1 h
    have hnext : ∀ t ∈ (lineRunsFrom (some i.line) rest).head?, i.offset < t.offset :=
      fun t ht => lt_of_mem_lineRunsFrom hbehind (List.mem_of_mem_head? ht)
    rw [lineRuns, lineRunsFrom, if_neg (by simp), List.map_cons,
      withLines_cons (i := i.unattributed) (seek_eq_self hnext),
      withLines_lineRunsFrom hrest ⟨i.offset, i.line⟩]
    rfl

/-- Starts behind the one in force that lie at the instructions are found again.

**Proof sketch.** Induction along the instructions. The next start lies at an instruction not yet
passed, so not before the first of them. If it lies there, it changes the line and is found;
otherwise the line in force goes on, and all starts lie at later instructions. -/
lemma lineRunsFrom_withLines {insns : List Instruction} (h : Increasing insns) {s : LineStart}
    {more : List LineStart} (hc : (s :: more).IsChain LineStart.Advances)
    (ha : Anchored more insns) :
    lineRunsFrom (some s.line) (withLines (s :: more) insns) = more := by
  induction insns generalizing s more with
  | nil =>
    cases more with
    | nil => rfl
    | cons t more =>
      obtain ⟨i, hi, -⟩ := ha t List.mem_cons_self
      simp at hi
  | cons i rest ih =>
    obtain ⟨hbehind, hrest⟩ := List.pairwise_cons.1 h
    have hstay : (∀ t ∈ more, i.offset < t.offset) →
        lineRunsFrom (some s.line) (withLines (s :: more) (i :: rest)) = more := by
      intro hlt
      rw [withLines_cons (seek_eq_self fun t ht => hlt t (List.mem_of_mem_head? ht)),
        lineRunsFrom, if_pos rfl]
      exact ih hrest hc (ha.tail hlt)
    cases more with
    | nil => exact hstay (by simp)
    | cons t more =>
      obtain ⟨hst, htail⟩ := List.isChain_cons_cons.1 hc
      have hafter := (List.pairwise_cons.1 (LineStart.pairwise_of_isChain htail)).1
      obtain ⟨j, hj, heq⟩ := ha t List.mem_cons_self
      rcases List.mem_cons.1 hj with rfl | hj
      · have hnext : ∀ t' ∈ more.head?, t.offset < t'.offset :=
          fun t' ht' => hafter t' (List.mem_of_mem_head? ht')
        have hmore : Anchored more (j :: rest) := fun t' ht' => ha t' (List.mem_cons_of_mem t ht')
        rw [withLines_cons (heq ▸ seek_next hnext), lineRunsFrom,
          if_neg fun h => hst.2 (Option.some.inj h), ih hrest htail (hmore.tail (heq ▸ hafter))]
        simp only [heq]
      · have hlt : i.offset < t.offset := heq ▸ hbehind j hj
        refine hstay fun t' ht' => ?_
        rcases List.mem_cons.1 ht' with rfl | ht'
        · exact hlt
        · exact UInt32.lt_trans hlt (hafter t' ht')

/-- **Instructions attributed by canonical starts have these line starts**, if every start lies at
an instruction. -/
theorem lineRuns_withLines {starts : List LineStart} {insns : List Instruction}
    (hs : LineStart.Canonical starts) (h : Increasing insns)
    (hzero : ∀ i ∈ insns.head?, i.offset = 0) (ha : Anchored starts insns) :
    lineRuns (withLines starts insns) = starts := by
  obtain ⟨hne, h0, hc⟩ := hs
  cases starts with
  | nil => exact absurd rfl hne
  | cons s more =>
    cases insns with
    | nil =>
      obtain ⟨i, hi, -⟩ := ha s List.mem_cons_self
      simp at hi
    | cons i rest =>
      have heq : i.offset = s.offset := (hzero i rfl).trans (h0 s rfl).symm
      have hlt := (List.pairwise_cons.1 (LineStart.pairwise_of_isChain hc)).1
      have hmore : Anchored more (i :: rest) := fun t ht => ha t (List.mem_cons_of_mem s ht)
      rw [withLines_cons (seek_eq_self fun t ht => heq ▸ hlt t (List.mem_of_mem_head? ht)),
        lineRuns, lineRunsFrom, if_neg (by simp),
        lineRunsFrom_withLines (List.pairwise_cons.1 h).2 hc (hmore.tail (heq ▸ hlt))]
      simp only [heq]

/-- Line starts behind a line step back exactly where the lines of the instructions do. -/
lemma isChain_map_line_lineRunsFrom (current : UInt32) (insns : List Instruction) :
    (current :: (lineRunsFrom (some current) insns).map (·.line)).IsChain (· ≤ ·) ↔
      (current :: insns.map (·.line)).IsChain (· ≤ ·) := by
  induction insns generalizing current with
  | nil => rfl
  | cons i rest ih =>
    rw [lineRunsFrom]
    split_ifs with hl
    · obtain rfl := Option.some.inj hl
      rw [ih, List.map_cons, List.isChain_cons_cons]
      exact (and_iff_right (UInt32.le_refl _)).symm
    · rw [List.map_cons, List.map_cons, List.isChain_cons_cons, List.isChain_cons_cons, ih]

/-- **The line starts of instructions step forward exactly if the instructions do.** -/
theorem forward_lineRuns (firstLine : UInt32) (insns : List Instruction) :
    LineStart.Forward firstLine (lineRuns insns) ↔
      (firstLine :: insns.map (·.line)).IsChain (· ≤ ·) := by
  cases insns with
  | nil => rfl
  | cons i rest =>
    rw [LineStart.Forward, lineRuns, lineRunsFrom, if_neg (by simp), List.map_cons, List.map_cons,
      List.isChain_cons_cons, List.isChain_cons_cons, isChain_map_line_lineRunsFrom]

end Instruction

end CoverProbe
