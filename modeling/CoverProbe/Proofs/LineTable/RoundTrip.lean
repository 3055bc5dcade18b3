import Mathlib.Data.List.Chain
import CoverProbe.Proofs.Checked
import CoverProbe.Proofs.LineTable.Moves

set_option relaxedAutoImplicit false
set_option autoImplicit false

/-!
# Line starts through an encoded table

Line starts can be encoded when they begin at offset zero and their offsets increase, and, under
unsigned line bytes, when their lines never step back. Decoding gives them back, without those that
repeat the line before them.

## Main definitions

* `CoverProbe.LineStart.Ordered`, `CoverProbe.LineStart.Forward` — the two conditions.
* `CoverProbe.LineStart.run` — a line start as a run, its line counted from a base line.

## Main results

* `CoverProbe.LineStart.runsAlong_transitions` — following the transitions between line starts
  meets the starts.
* `CoverProbe.LineTable.encode_of_not_ordered`, `encode_of_backward`, `decode_encode` — the three
  outcomes of encoding.
* `CoverProbe.LineTable.encode_outcome` — which of them comes about when.
-/

namespace CoverProbe

namespace LineStart

/-- Line starts in order: the first at offset zero, each behind the one before it. -/
def Ordered (starts : List LineStart) : Prop :=
  (∀ s ∈ starts.head?, s.offset = 0) ∧ (starts.map (·.offset)).IsChain (· < ·)

/-- Line starts whose lines, told from the base line on, never step back. -/
def Forward (firstLine : UInt32) (starts : List LineStart) : Prop :=
  (firstLine :: starts.map (·.line)).IsChain (· ≤ ·)

/-- A line start as a run, its line counted from the base line. -/
def run (firstLine : UInt32) (s : LineStart) : LineTable.Run :=
  ⟨s.offset, s.line.toNat - firstLine.toNat⟩

/-! ## Transitions between line starts -/

/-- The offset last seen and the offsets of the starts increase. -/
def Follows (previous : Option UInt32) (starts : List LineStart) : Prop :=
  (previous.toList ++ starts.map (·.offset)).IsChain (· < ·)

lemma follows_cons {previous : Option UInt32} {s : LineStart} {rest : List LineStart} :
    Follows previous (s :: rest) ↔
      previous.filter (s.offset ≤ ·) = none ∧ Follows (some s.offset) rest := by
  cases previous with
  | none => simp [Follows]
  | some p => simp [Follows, List.isChain_cons_cons, UInt32.not_le]

/-- Transitions exist between starts whose offsets increase, and only between such. -/
lemma transitionsFrom_outcome (anchor : LineStart) (previous : Option UInt32)
    (starts : List LineStart) :
    (Follows previous starts → ∃ ts, transitionsFrom anchor previous starts = .ok ts) ∧
      (¬ Follows previous starts →
        ∃ cause, transitionsFrom anchor previous starts = .error (.lineTable cause)) := by
  induction starts generalizing anchor previous with
  | nil =>
    refine ⟨fun _ => ⟨[], rfl⟩, fun h => absurd ?_ h⟩
    cases previous <;> simp [Follows]
  | cons s rest ih =>
    rw [follows_cons, transitionsFrom]
    cases hp : previous.filter (s.offset ≤ ·) with
    | some p => exact ⟨fun h => by simp at h, fun _ => ⟨_, rfl⟩⟩
    | none =>
      simp only [true_and]
      split_ifs with hline
      · exact ih anchor (some s.offset)
      · obtain ⟨hok, herr⟩ := ih s (some s.offset)
        constructor
        · intro h
          obtain ⟨ts, hts⟩ := hok h
          exact ⟨_, by rw [hts]; rfl⟩
        · intro h
          obtain ⟨cause, hc⟩ := herr h
          exact ⟨cause, by rw [hc]; rfl⟩

/-- Transitions exist between ordered starts, and only between such. -/
lemma transitions_outcome (starts : List LineStart) (firstLine : UInt32) :
    (Ordered starts → ∃ ts, transitions starts firstLine = .ok ts) ∧
      (¬ Ordered starts → ∃ cause, transitions starts firstLine = .error (.lineTable cause)) := by
  cases starts with
  | nil => exact ⟨fun _ => ⟨[], rfl⟩, fun h => absurd (by simp [Ordered]) h⟩
  | cons s rest =>
    rw [transitions]
    have hout := transitionsFrom_outcome ⟨0, firstLine⟩ none (s :: rest)
    have hiff : Ordered (s :: rest) ↔ s.offset = 0 ∧ Follows none (s :: rest) := by
      simp [Ordered, Follows]
    rw [hiff]
    split_ifs with h
    · exact ⟨fun h' => absurd h'.1 h, fun _ => ⟨_, rfl⟩⟩
    · have h0 : s.offset = 0 := not_not.1 h
      simp only [h0, true_and]
      exact hout

/-- Some transition steps back exactly when the lines do. -/
lemma backward_iff {anchor : LineStart} {previous : Option UInt32} {starts : List LineStart}
    {ts : List Transition} (h : transitionsFrom anchor previous starts = .ok ts) :
    (∃ t ∈ ts, t.lineDelta < 0) ↔ ¬ Forward anchor.line starts := by
  induction starts generalizing anchor previous ts with
  | nil =>
    obtain rfl : [] = ts := Except.ok.inj h
    simp [Forward]
  | cons s rest ih =>
    have hcons : Forward anchor.line (s :: rest) ↔ anchor.line ≤ s.line ∧ Forward s.line rest := by
      simp only [Forward, List.map_cons, List.isChain_cons_cons]
    rw [transitionsFrom] at h
    split at h
    · simp at h
    split_ifs at h with hline
    · rw [ih h, hcons, hline]
      simp
    · obtain ⟨tail, htail, h⟩ := Checked.bind_eq_ok.1 h
      obtain rfl := Except.ok.inj h
      simp only [List.exists_mem_cons_iff, ih htail, hcons, UInt32.le_iff_toNat_le]
      rw [not_and_or]
      exact or_congr_left (by omega)

/-! ## Following the transitions -/

/-- Following the transitions between line starts from an open run meets the run of the start in
force and the starts that change the line.

**Proof sketch.** Induction along the starts. A start on the line in force makes no transition and
is merged. Any other start makes one that advances, since its offset is greater than the last one
seen, which is at or behind the open run; it closes that run, which was not reported before. -/
lemma runsAlong_transitionsFrom {firstLine : UInt32} {anchor : LineStart} {p : UInt32}
    {starts : List LineStart} {ts : List Transition} {last : Option Int}
    (h : transitionsFrom anchor (some p) starts = .ok ts) (hp : anchor.offset ≤ p)
    (hlast : last ≠ some (anchor.run firstLine).line) :
    LineTable.runsAlong (anchor.run firstLine) last ts =
      .ok ((anchor :: mergeFrom (some anchor.line) starts).map (run firstLine)) := by
  induction starts generalizing anchor p ts last with
  | nil =>
    obtain rfl : [] = ts := Except.ok.inj h
    simp [LineTable.runsAlong, LineTable.Run.report, mergeFrom, hlast]
  | cons s rest ih =>
    rw [transitionsFrom] at h
    split at h
    · simp at h
    rename_i hs
    have hps : p < s.offset := by
      simpa [Option.filter_eq_none_iff, UInt32.not_le] using hs
    have hps' := UInt32.lt_iff_toNat_lt.1 hps
    have hp' := UInt32.le_iff_toNat_le.1 hp
    split_ifs at h with hline
    · rw [mergeFrom, hline, if_pos rfl]
      exact ih h (UInt32.le_iff_toNat_le.2 (by omega)) hlast
    · obtain ⟨tail, htail, h⟩ := Checked.bind_eq_ok.1 h
      obtain rfl := Except.ok.inj h
      have hsub : (s.offset - anchor.offset).toNat = s.offset.toNat - anchor.offset.toNat :=
        UInt32.toNat_sub_of_le _ _ (UInt32.le_iff_toNat_le.2 (by omega))
      have hne : s.offset - anchor.offset ≠ 0 := by
        intro h0
        rw [h0, UInt32.toNat_zero] at hsub
        omega
      have hword : Word.ofNat? (anchor.offset.toNat + (s.offset - anchor.offset).toNat) =
          some s.offset := Word.ofNat?_eq_some_iff.2 (by omega)
      have hrun : (⟨s.offset, (anchor.run firstLine).line + (s.line.toNat - anchor.line.toNat)⟩ :
          LineTable.Run) = s.run firstLine := by
        simp only [run, LineTable.Run.mk.injEq, true_and]
        omega
      have hline' : some (anchor.run firstLine).line ≠ some (s.run firstLine).line := by
        intro h0
        have h1 := Option.some.inj h0
        simp only [run] at h1
        exact hline (UInt32.toNat_inj.1 (by omega))
      have htail' := ih htail (UInt32.le_refl _) hline'
      have hreport : (anchor.run firstLine).report last = [anchor.run firstLine] := if_neg hlast
      rw [mergeFrom, if_neg (fun h0 => hline (Option.some.inj h0).symm)]
      simp only [LineTable.runsAlong, hne, if_false]
      rw [show (anchor.run firstLine).offset = anchor.offset from rfl, hword]
      dsimp only
      rw [hrun, htail', hreport]
      rfl

/-- **Following the transitions between line starts meets the starts**, without those that repeat
the line before them. -/
theorem runsAlong_transitions {firstLine : UInt32} {s : LineStart} {rest : List LineStart}
    {ts : List Transition} (h : transitions (s :: rest) firstLine = .ok ts) :
    LineTable.runsAlong ⟨0, 0⟩ none ts = .ok ((merge (s :: rest)).map (run firstLine)) := by
  rw [transitions] at h
  split_ifs at h with h0
  have h0' : s.offset = 0 := not_not.1 h0
  rw [transitionsFrom] at h
  simp only [Option.filter_none] at h
  have hbase : (⟨0, 0⟩ : LineTable.Run) = run firstLine ⟨0, firstLine⟩ := by simp [run]
  rw [merge, mergeFrom, if_neg (by simp)]
  split_ifs at h with hline
  · have hs : s = ⟨0, firstLine⟩ := by rw [← h0', ← hline]
    rw [hbase, ← hs]
    rw [← hs] at h
    exact runsAlong_transitionsFrom h (UInt32.le_refl _) (by simp)
  · obtain ⟨tail, htail, h⟩ := Checked.bind_eq_ok.1 h
    obtain rfl := Except.ok.inj h
    have hrun : (⟨0, 0 + (s.line.toNat - firstLine.toNat)⟩ : LineTable.Run) = s.run firstLine := by
      rw [run, h0', Int.zero_add]
    have hzero : s.offset - 0 = 0 := by rw [h0']; rfl
    simp only [LineTable.runsAlong, hzero, if_true]
    rw [hrun]
    exact runsAlong_transitionsFrom htail (UInt32.le_refl _) (by simp)

/-- The run of a line start leads back to it. -/
lemma start_run (firstLine : UInt32) (s : LineStart) :
    LineTable.Run.start firstLine (s.run firstLine) = .ok s := by
  have hline : (firstLine.toNat : Int) + (s.run firstLine).line = s.line.toNat := by
    simp only [run]
    omega
  rw [LineTable.Run.start, hline, Word.ofInt?_eq_some_iff.2 rfl]
  rfl

/-- The runs of line starts lead back to them. -/
lemma mapM_start_run (firstLine : UInt32) (starts : List LineStart) :
    (starts.map (run firstLine)).mapM (LineTable.Run.start firstLine) = .ok starts := by
  have h : starts.mapM (LineTable.Run.start firstLine ∘ run firstLine) = .ok (starts.map id) :=
    Checked.mapM_eq_map fun s _ => start_run firstLine s
  rw [List.mapM_map, h, List.map_id]

end LineStart

namespace LineTable

open LineStart

/-! ## Encoding transitions -/

/-- Transitions that can be written are written by their canonical pairs. -/
lemma encodeTransitions_of_writable {sign : SignConvention} {ts : List Transition}
    (h : ∀ t ∈ ts, Writable sign t) :
    encodeTransitions sign ts = .ok (bytes (ts.flatMap (pairsOf sign))) := by
  have hmap : ts.mapM (encodeTransition sign) = .ok (ts.map (pairsOf sign)) := by
    refine Checked.mapM_eq_map fun t ht => ?_
    have hw := h t ht
    rw [encodeTransition, if_neg fun hn => absurd (hw hn.1) (by omega)]
  rw [encodeTransitions, hmap]
  rfl

/-- Unsigned line bytes cannot write a transition that steps back. -/
lemma encodeTransitions_of_backward {ts : List Transition} (h : ∃ t ∈ ts, t.lineDelta < 0) :
    ∃ cause, encodeTransitions .unsigned ts = .error (.range cause) := by
  induction ts with
  | nil => simp at h
  | cons t ts ih =>
    by_cases ht : t.lineDelta < 0
    · refine ⟨.negativeLineDelta t.lineDelta, ?_⟩
      rw [encodeTransitions, List.mapM_cons, encodeTransition, if_pos ⟨rfl, ht⟩]
      rfl
    · obtain ⟨cause, hc⟩ := ih (by simpa [ht] using h)
      refine ⟨cause, ?_⟩
      rw [encodeTransitions, List.mapM_cons, encodeTransition, if_neg fun hn => ht hn.2]
      rw [encodeTransitions] at hc
      cases hm : ts.mapM (encodeTransition .unsigned) with
      | error f =>
        rw [hm] at hc
        obtain rfl := Except.error.inj hc
        rfl
      | ok pss =>
        rw [hm] at hc
        exact absurd hc (by simp [bind, Except.bind, pure, Except.pure])

/-- What is encoded can be written. -/
lemma writable_of_encodeTransitions {sign : SignConvention} {ts : List Transition}
    {table : List UInt8} (h : encodeTransitions sign ts = .ok table) :
    ∀ t ∈ ts, Writable sign t := by
  rintro t ht rfl
  by_contra hneg
  obtain ⟨cause, hc⟩ := encodeTransitions_of_backward ⟨t, ht, Int.not_le.1 hneg⟩
  rw [h] at hc
  simp at hc

/-- The canonical pairs of transitions act like the transitions. -/
lemma runsAlong_flatMap_pairsOf {sign : SignConvention} {ts : List Transition}
    (h : ∀ t ∈ ts, Writable sign t) (run : Run) (last : Option Int) :
    runsAlong run last ((ts.flatMap (pairsOf sign)).map (Pair.move sign)) =
      runsAlong run last ts := by
  induction ts generalizing run last with
  | nil => rfl
  | cons t ts ih =>
    rw [List.flatMap_cons, List.map_append, runsAlong_pairsOf (h t List.mem_cons_self)]
    exact runsAlong_cons_congr (ih fun t ht => h t (List.mem_cons_of_mem _ ht)) t run last

/-- The runs of encoded transitions are the runs met along them. -/
lemma runs_encodeTransitions {sign : SignConvention} {ts : List Transition}
    (h : ∀ t ∈ ts, Writable sign t) :
    runs sign (bytes (ts.flatMap (pairsOf sign))) = runsAlong ⟨0, 0⟩ none ts := by
  rw [runs, pairs?_bytes]
  dsimp only
  rw [runsFrom_eq_runsAlong, runsAlong_flatMap_pairsOf h]

/-! ## The three outcomes -/

variable {sign : SignConvention} {firstLine : UInt32} {starts : List LineStart}

/-- Line starts out of order are refused as such. -/
theorem encode_of_not_ordered (h : ¬ Ordered starts) :
    ∃ cause, encode sign starts firstLine = .error (.lineTable cause) := by
  obtain ⟨cause, hc⟩ := (transitions_outcome starts firstLine).2 h
  exact ⟨cause, by rw [encode, hc]; rfl⟩

/-- Ordered line starts that step back are out of the range of unsigned line bytes. -/
theorem encode_of_backward (h : Ordered starts) (hb : ¬ Forward firstLine starts) :
    ∃ cause, encode .unsigned starts firstLine = .error (.range cause) := by
  obtain ⟨ts, hts⟩ := (transitions_outcome starts firstLine).1 h
  have hstep : ∃ t ∈ ts, t.lineDelta < 0 := by
    cases starts with
    | nil => exact absurd (by simp [Forward]) hb
    | cons s rest =>
      rw [transitions, if_neg (not_not.2 (h.1 s rfl))] at hts
      exact (backward_iff hts).2 hb
  obtain ⟨cause, hc⟩ := encodeTransitions_of_backward hstep
  exact ⟨cause, by rw [encode, hts]; exact hc⟩

/-- **Decoding inverts encoding**: all other line starts are encoded, and their table is decoded to
the starts that do not repeat the line before them. Without line starts it is decoded to one start
on the base line.

**Proof sketch.** Ordered starts have transitions (`transitions_outcome`), and these can be written
(`backward_iff`). The runs of the table are met along the transitions (`runs_encodeTransitions`);
these are the runs of the starts (`runsAlong_transitions`), which lead back to them. -/
theorem decode_encode (h : Ordered starts) (hf : sign = .unsigned → Forward firstLine starts) :
    ∃ table, encode sign starts firstLine = .ok table ∧
      decode sign table firstLine =
        .ok (if starts = [] then [⟨0, firstLine⟩] else merge starts) := by
  obtain ⟨ts, hts⟩ := (transitions_outcome starts firstLine).1 h
  have hw : ∀ t ∈ ts, Writable sign t := by
    intro t ht hsign
    cases starts with
    | nil =>
      obtain rfl : [] = ts := Except.ok.inj hts
      simp at ht
    | cons s rest =>
      rw [transitions, if_neg (not_not.2 (h.1 s rfl))] at hts
      by_contra hneg
      exact (backward_iff hts).1 ⟨t, ht, Int.not_le.1 hneg⟩ (hf hsign)
  refine ⟨bytes (ts.flatMap (pairsOf sign)), ?_, ?_⟩
  · rw [encode, hts]
    exact encodeTransitions_of_writable hw
  · rw [decode, runs_encodeTransitions hw]
    cases starts with
    | nil =>
      obtain rfl : [] = ts := Except.ok.inj hts
      have hbase : runsAlong ⟨0, 0⟩ none [] =
          .ok ([⟨0, firstLine⟩].map (LineStart.run firstLine)) := by
        simp [runsAlong, Run.report, LineStart.run]
      rw [hbase]
      exact mapM_start_run firstLine _
    | cons s rest =>
      rw [runsAlong_transitions hts, if_neg (List.cons_ne_nil s rest)]
      exact mapM_start_run firstLine _

/-- A gap of 300 bytes and a step of 199 lines take two pairs each, and share one of them. -/
example : encode .signed [⟨0, 1⟩, ⟨300, 200⟩] 1 = .ok [255, 0, 45, 127, 0, 72] := by decide

/-- **When line starts can be encoded, and what their table says.** They are refused as a line table
exactly when they are out of order. In order, they are out of range exactly when line bytes are
unsigned and the lines step back. All others have a table, which is decoded to them, less those that
repeat the line before them.

**Proof sketch.** One of the three conditions holds, and gives its outcome
(`encode_of_not_ordered`, `encode_of_backward`, `decode_encode`); the outcomes exclude each
other. -/
theorem encode_outcome (sign : SignConvention) (firstLine : UInt32) (starts : List LineStart) :
    ((∃ cause, encode sign starts firstLine = .error (.lineTable cause)) ↔ ¬ Ordered starts) ∧
      ((∃ cause, encode sign starts firstLine = .error (.range cause)) ↔
        Ordered starts ∧ sign = .unsigned ∧ ¬ Forward firstLine starts) ∧
      ((∃ table, encode sign starts firstLine = .ok table ∧
          decode sign table firstLine =
            .ok (if starts = [] then [⟨0, firstLine⟩] else merge starts)) ↔
        Ordered starts ∧ ¬ (sign = .unsigned ∧ ¬ Forward firstLine starts)) := by
  by_cases ho : Ordered starts
  · by_cases hb : sign = .unsigned ∧ ¬ Forward firstLine starts
    · obtain ⟨rfl, hf⟩ := hb
      obtain ⟨cause, hc⟩ := encode_of_backward ho hf
      simp [hc, ho, hf]
    · have hf : sign = .unsigned → Forward firstLine starts :=
        fun h => not_not.1 fun hf => hb ⟨h, hf⟩
      obtain ⟨table, htable, hd⟩ := decode_encode ho hf
      simp [htable, hd, ho, hb]
  · obtain ⟨cause, hc⟩ := @encode_of_not_ordered sign firstLine starts ho
    simp [hc, ho]

end LineTable

end CoverProbe
