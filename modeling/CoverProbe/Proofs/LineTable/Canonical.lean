import CoverProbe.Proofs.LineTable.Attribution

set_option relaxedAutoImplicit false
set_option autoImplicit false

/-!
# Canonical line tables

Many tables decode to the same line starts: pairs that neither advance nor change the line, advances
cut in pieces, line changes that cancel out. One of them is canonical: it is put together from the
greedy splits of transitions that all change the line and, the first of them apart, all advance.
Encoding what a table decodes to yields that one.

## Main definitions

* `CoverProbe.LineTable.Chunks` — the greedy chunks of a line change.
* `CoverProbe.LineTable.Split` — the canonical split of a transition into pairs.
* `CoverProbe.LineTable.IsCanonical` — canonical tables.

## Main results

* `CoverProbe.LineTable.chunks_iff`, `split_iff` — a transition has one canonical split, the pairs
  that encode it, if its line change can be written and is not zero.
* `CoverProbe.LineTable.transitions_of_runsAlong` — the transitions that a canonical table is made
  of are those between its line starts.
* `CoverProbe.LineTable.canonical_form_of_decode` — what is decoded is encoded again, canonically.
-/

namespace CoverProbe

/-- The line change nearest to `delta` that a byte carries. -/
def SignConvention.clamp (sign : SignConvention) (delta : Int) : Int :=
  max sign.low (min delta sign.high)

namespace LineTable

/-! ## Greedy splits -/

/-- The greedy chunks of a line change: each is as much of what is left as a byte carries. -/
inductive Chunks (sign : SignConvention) : Int → List Int → Prop
  | nil : Chunks sign 0 []
  | cons {delta : Int} {ks : List Int} (h : delta ≠ 0)
      (rest : Chunks sign (delta - sign.clamp delta) ks) :
      Chunks sign delta (sign.clamp delta :: ks)

/-- The canonical split of an advance and a line change: pairs that advance by 255 while more than
255 bytes remain, one pair with the remaining advance and the first chunk of the line change, and a
pair without advance for each further chunk. -/
inductive Split (sign : SignConvention) : Nat → Int → List Pair → Prop
  | full {advance : Nat} {delta : Int} {ps : List Pair} (h : 255 < advance)
      (rest : Split sign (advance - 255) delta ps) : Split sign advance delta (⟨255, 0⟩ :: ps)
  | last {advance : Nat} {delta k : Int} {ks : List Int} (h : advance ≤ 255)
      (hk : Chunks sign delta (k :: ks)) :
      Split sign advance delta
        (⟨UInt8.ofNat advance, sign.write k⟩ :: ks.map fun k => ⟨0, sign.write k⟩)

end LineTable

/-- Transitions that all change the line and, the first of them apart, all advance. -/
structure Transition.Proper (ts : List Transition) : Prop where
  lines : ∀ t ∈ ts, t.lineDelta ≠ 0
  offsets : ∀ t ∈ ts.tail, t.offsetDelta ≠ 0

namespace LineTable

/-- A canonical table: the canonical splits of proper transitions, one behind the other. -/
def IsCanonical (sign : SignConvention) (table : List UInt8) : Prop :=
  ∃ ts splits, Transition.Proper ts ∧
    List.Forall₂ (fun t ps => Split sign t.offsetDelta.toNat t.lineDelta ps) ts splits ∧
    table = bytes splits.flatten

/-! ## Splits and pairs -/

/-- Only line changes that can be written have chunks: unsigned bytes carry nothing of a step
back, so it would never be used up. -/
lemma Chunks.nonneg {delta : Int} {ks : List Int} (h : Chunks .unsigned delta ks) : 0 ≤ delta := by
  induction h with
  | nil => exact le_rfl
  | @cons delta ks h rest ih =>
    by_contra hneg
    have hclamp : SignConvention.unsigned.clamp delta = 0 := by
      simp only [SignConvention.clamp, SignConvention.low, SignConvention.high]
      omega
    rw [hclamp] at ih
    omega

/-- The steps of a line change that goes forward are its first chunk and the steps of the rest. -/
lemma steps_of_pos {sign : SignConvention} {delta : Int} (h : 0 < delta) :
    steps sign delta = sign.clamp delta :: steps sign (delta - sign.clamp delta) := by
  have hsteps : ∀ d : Int, 0 ≤ d → steps sign d =
      List.replicate (d.natAbs / sign.high.natAbs) sign.high ++
        if d % sign.high = 0 then [] else [d % sign.high] := by
    intro d hd
    rw [steps, if_neg (Int.not_lt.2 hd), Int.tmod_eq_emod_of_nonneg hd]
  have hhigh : 0 < sign.high ∧ sign.low ≤ 0 := by cases sign <;> decide
  have hclamp : sign.clamp delta = min delta sign.high := by
    rw [SignConvention.clamp]
    omega
  rw [hclamp, hsteps delta (by omega), hsteps _ (by omega)]
  rcases lt_trichotomy delta sign.high with hlt | heq | hgt
  · have hdiv : delta.natAbs / sign.high.natAbs = 0 := Nat.div_eq_of_lt (by omega)
    have hmod : delta % sign.high = delta := Int.emod_eq_of_lt (by omega) hlt
    rw [min_eq_left hlt.le, hdiv, hmod, if_neg (by omega)]
    simp
  · have hdiv : sign.high.natAbs / sign.high.natAbs = 1 := Nat.div_self (by omega)
    rw [heq, min_self, hdiv]
    simp
  · obtain ⟨rest, hrest⟩ : ∃ rest, delta = rest + sign.high := ⟨delta - sign.high, by omega⟩
    have hdiv : delta.natAbs / sign.high.natAbs = rest.natAbs / sign.high.natAbs + 1 := by
      rw [show delta.natAbs = rest.natAbs + sign.high.natAbs by omega,
        Nat.add_div_right _ (by omega)]
    have hmod : delta % sign.high = rest % sign.high := by
      rw [hrest, Int.add_emod_right]
    rw [min_eq_right hgt.le, hdiv, hmod, hrest, Int.add_sub_cancel, List.replicate_succ]
    rfl

/-- The steps of a line change that goes back are its first chunk and the steps of the rest. -/
lemma steps_of_neg {delta : Int} (h : delta < 0) :
    steps .signed delta = SignConvention.signed.clamp delta ::
      steps .signed (delta - SignConvention.signed.clamp delta) := by
  have hsteps : ∀ d : Int, d < 0 → steps .signed d =
      List.replicate (d.natAbs / 128) (-128) ++ if -(-d % 128) = 0 then [] else [-(-d % 128)] := by
    intro d hd
    rw [steps, if_pos hd, tmod_of_neg _ hd]
    simp only [SignConvention.low, Int.emod_neg]
    rfl
  have hclamp : SignConvention.signed.clamp delta = max (-128) delta := by
    simp only [SignConvention.clamp, SignConvention.low, SignConvention.high]
    omega
  rw [hclamp, hsteps delta h]
  rcases lt_trichotomy (-128) delta with hgt | rfl | hlt
  · have hdiv : delta.natAbs / 128 = 0 := by omega
    have hmod : -(-delta % 128) = delta := by omega
    rw [max_eq_right hgt.le, hdiv, hmod, if_neg (by omega), Int.sub_self]
    rfl
  · rfl
  · have hdiv : delta.natAbs / 128 = (delta - -128).natAbs / 128 + 1 := by omega
    have hmod : -delta % 128 = -(delta - -128) % 128 := by omega
    rw [max_eq_left hlt.le, hsteps _ (by omega), hdiv, hmod, List.replicate_succ]
    rfl

/-- **The greedy chunks of a line change are its steps**, and exist exactly if it can be written. -/
theorem chunks_iff {sign : SignConvention} {delta : Int} {ks : List Int} :
    Chunks sign delta ks ↔ (sign = .unsigned → 0 ≤ delta) ∧ ks = steps sign delta := by
  have hstep : ∀ d : Int, (sign = .unsigned → 0 ≤ d) → d ≠ 0 →
      steps sign d = sign.clamp d :: steps sign (d - sign.clamp d) := by
    intro d hd h0
    rcases lt_or_gt_of_ne h0 with hneg | hpos
    · cases sign with
      | signed => exact steps_of_neg hneg
      | unsigned => exact absurd (hd rfl) (by omega)
    · exact steps_of_pos hpos
  have hzero : steps sign 0 = [] := by cases sign <;> rfl
  constructor
  · intro h
    have hpos : sign = .unsigned → 0 ≤ delta := by
      rintro rfl
      exact h.nonneg
    refine ⟨hpos, ?_⟩
    induction h with
    | nil => exact hzero.symm
    | @cons delta ks h rest ih =>
      have hrest : sign = .unsigned → 0 ≤ delta - sign.clamp delta := by
        rintro rfl
        exact rest.nonneg
      rw [hstep delta hpos h, ih hrest]
  · rintro ⟨hpos, rfl⟩
    -- Each chunk leaves less of the line change.
    induction hn : delta.natAbs using Nat.strong_induction_on generalizing delta with
    | _ n ih =>
      by_cases h0 : delta = 0
      · subst h0
        rw [hzero]
        exact .nil
      · have hless : (delta - sign.clamp delta).natAbs < n ∧
            (sign = .unsigned → 0 ≤ delta - sign.clamp delta) := by
          cases sign with
          | signed =>
            simp only [SignConvention.clamp, SignConvention.low, SignConvention.high]
            exact ⟨by omega, by simp⟩
          | unsigned =>
            have hd := hpos rfl
            simp only [SignConvention.clamp, SignConvention.low, SignConvention.high]
            exact ⟨by omega, fun _ => by omega⟩
        rw [hstep delta hpos h0]
        exact .cons h0 (ih _ hless.1 hless.2 rfl)

/-- The split of an advance and a line change is one behind its full advances. -/
lemma split_iff_exists {sign : SignConvention} {advance : Nat} {delta : Int} {ps : List Pair} :
    Split sign advance delta ps ↔ ∃ k ks, Chunks sign delta (k :: ks) ∧
      ps = List.replicate ((advance - 1) / 255) ⟨255, 0⟩ ++
        ⟨UInt8.ofNat (advance - 255 * ((advance - 1) / 255)), sign.write k⟩ ::
          ks.map fun k => ⟨0, sign.write k⟩ := by
  constructor
  · intro h
    induction h with
    | @full advance delta ps h rest ih =>
      obtain ⟨k, ks, hk, rfl⟩ := ih
      have hdiv : (advance - 1) / 255 = (advance - 255 - 1) / 255 + 1 := by omega
      have hrest : advance - 255 - 255 * ((advance - 255 - 1) / 255) =
          advance - 255 * ((advance - 255 - 1) / 255 + 1) := by omega
      refine ⟨k, ks, hk, ?_⟩
      rw [hdiv, hrest, List.replicate_succ]
      rfl
    | @last advance delta k ks h hk =>
      have hdiv : (advance - 1) / 255 = 0 := by omega
      refine ⟨k, ks, hk, ?_⟩
      rw [hdiv]
      simp
  · rintro ⟨k, ks, hk, rfl⟩
    induction hn : (advance - 1) / 255 generalizing advance with
    | zero =>
      refine .last ?_ hk
      omega
    | succ n ih =>
      have hrest := @ih (advance - 255) (by omega)
      rw [show advance - 255 - 255 * n = advance - 255 * (n + 1) by omega] at hrest
      exact .full (by omega) hrest

/-- **The canonical split of a transition is the pairs that encode it**, and exists exactly if its
line change can be written and is not zero. -/
theorem split_iff {sign : SignConvention} {t : Transition} {ps : List Pair} :
    Split sign t.offsetDelta.toNat t.lineDelta ps ↔
      (Writable sign t ∧ t.lineDelta ≠ 0) ∧ ps = pairsOf sign t := by
  have hzero : t.lineDelta ≠ 0 ↔ steps sign t.lineDelta ≠ [] := by
    constructor
    · intro h h0
      have hsum := sum_steps sign t.lineDelta
      rw [h0, List.sum_nil] at hsum
      exact h hsum.symm
    · intro h h0
      rw [h0] at h
      cases sign <;> exact h rfl
  rw [split_iff_exists, hzero, pairsOf, fullAdvances]
  constructor
  · rintro ⟨k, ks, hk, rfl⟩
    obtain ⟨hw, hs⟩ := chunks_iff.1 hk
    rw [← hs]
    exact ⟨⟨hw, by simp⟩, rfl⟩
  · rintro ⟨⟨hw, hne⟩, rfl⟩
    obtain ⟨k, ks, hs⟩ := List.exists_cons_of_ne_nil hne
    rw [hs]
    exact ⟨k, ks, chunks_iff.2 ⟨hw, hs.symm⟩, rfl⟩

/-- Canonical tables are those of the pairs that encode proper transitions. -/
lemma isCanonical_iff {sign : SignConvention} {table : List UInt8} :
    IsCanonical sign table ↔ ∃ ts, Transition.Proper ts ∧ (∀ t ∈ ts, Writable sign t) ∧
      table = bytes (ts.flatMap (pairsOf sign)) := by
  constructor
  · rintro ⟨ts, splits, hts, hsplits, rfl⟩
    have hboth : (∀ t ∈ ts, Writable sign t) ∧ splits = ts.map (pairsOf sign) := by
      clear hts
      induction hsplits with
      | nil => simp
      | @cons t ps ts splits h _ ih =>
        obtain ⟨hw, rfl⟩ := split_iff.1 h
        obtain ⟨hrest, rfl⟩ := ih
        exact ⟨List.forall_mem_cons.2 ⟨hw.1, hrest⟩, rfl⟩
    refine ⟨ts, hts, hboth.1, ?_⟩
    rw [hboth.2, List.flatMap]
  · rintro ⟨ts, hts, hw, rfl⟩
    refine ⟨ts, ts.map (pairsOf sign), hts, ?_, by rw [List.flatMap]⟩
    rw [List.forall₂_map_right_iff, List.forall₂_same]
    intro t ht
    exact split_iff.2 ⟨⟨hw t ht, hts.lines t ht⟩, rfl⟩

/-! ## Transitions between decoded starts -/

/-- Unsigned transitions lead to runs whose lines do not step back. -/
lemma isChain_line_of_runsAlong {run : Run} {last : Option Int} {ts : List Transition}
    {rs : List Run} (hts : ∀ t ∈ ts, 0 ≤ t.lineDelta) (h : runsAlong run last ts = .ok rs) :
    (run.line :: rs.map (·.line)).IsChain (· ≤ ·) := by
  induction ts generalizing run last rs with
  | nil =>
    obtain rfl : run.report last = rs := Except.ok.inj h
    rw [Run.report]
    split_ifs <;> simp
  | cons t ts ih =>
    obtain ⟨ht, hts⟩ := List.forall_mem_cons.1 hts
    -- Behind a line further on, the runs lie behind this one as well.
    have hback : ∀ ls : List Int, ((run.line + t.lineDelta) :: ls).IsChain (· ≤ ·) →
        (run.line :: ls).IsChain (· ≤ ·) := by
      intro ls hls
      obtain ⟨hhead, htail⟩ := List.isChain_cons.1 hls
      refine List.isChain_cons.2 ⟨fun l hl => ?_, htail⟩
      have := hhead l hl
      omega
    simp only [runsAlong] at h
    split at h
    · exact hback _ (ih hts h)
    split at h
    · simp at h
    obtain ⟨tail, htail, h⟩ := Checked.bind_eq_ok.1 h
    obtain rfl := Except.ok.inj h
    have hchain := hback _ (ih hts htail)
    rw [Run.report]
    split_ifs
    · exact hchain
    · exact List.isChain_cons_cons.2 ⟨le_rfl, hchain⟩

/-- **Under unsigned line bytes, decoded line starts never step back.** -/
theorem forward_of_decode {table : List UInt8} {firstLine : UInt32} {starts : List LineStart}
    (h : decode .unsigned table firstLine = .ok starts) : LineStart.Forward firstLine starts := by
  have hrs := runs_of_decode h
  rw [runs] at hrs
  split at hrs
  · simp at hrs
  rw [runsFrom_eq_runsAlong] at hrs
  have hmoves : ∀ ps : List Pair, ∀ t ∈ ps.map (Pair.move .unsigned), 0 ≤ t.lineDelta := by
    intro ps t ht
    obtain ⟨p, -, rfl⟩ := List.mem_map.1 ht
    exact Int.natCast_nonneg _
  have hchain := isChain_line_of_runsAlong (hmoves _) hrs
  have hlines : ∀ s : LineStart, (s.run firstLine).line = s.line.toNat - firstLine.toNat :=
    fun _ => rfl
  -- Lines are ordered as their distances from the base line are.
  have hmap : (0 : Int) :: (starts.map (LineStart.run firstLine)).map (·.line) =
      (firstLine :: starts.map (·.line)).map fun l => (l.toNat : Int) - firstLine.toNat := by
    rw [List.map_cons, Int.sub_self, List.map_map, List.map_map]
    rfl
  rw [hmap, List.isChain_map] at hchain
  refine hchain.imp fun a b hab => ?_
  rw [UInt32.le_iff_toNat_le]
  omega

/-- Transitions between line starts behind an anchor change the line and advance. -/
lemma mem_transitionsFrom {anchor : LineStart} {p : UInt32} {starts : List LineStart}
    {ts : List Transition} (h : LineStart.transitionsFrom anchor (some p) starts = .ok ts)
    (hp : anchor.offset ≤ p) : ∀ t ∈ ts, t.lineDelta ≠ 0 ∧ t.offsetDelta ≠ 0 := by
  induction starts generalizing anchor p ts with
  | nil =>
    obtain rfl : [] = ts := Except.ok.inj h
    simp
  | cons s rest ih =>
    rw [LineStart.transitionsFrom] at h
    split at h
    · simp at h
    rename_i hs
    have hlt : p < s.offset := by
      simpa [Option.filter_eq_none_iff, UInt32.not_le] using hs
    split_ifs at h with hline
    · exact ih h (UInt32.le_trans hp (UInt32.le_of_lt hlt))
    · obtain ⟨tail, htail, h⟩ := Checked.bind_eq_ok.1 h
      obtain rfl := Except.ok.inj h
      refine List.forall_mem_cons.2 ⟨⟨?_, ?_⟩, ih htail (UInt32.le_refl _)⟩
      · intro h0
        exact hline (UInt32.toNat_inj.1 (by dsimp only at h0; omega))
      · intro h0
        have hsub := UInt32.toNat_sub_of_le s.offset anchor.offset
          (UInt32.le_of_lt (UInt32.lt_of_le_of_lt hp hlt))
        rw [show s.offset - anchor.offset = 0 from h0, UInt32.toNat_zero] at hsub
        rw [UInt32.le_iff_toNat_le] at hp
        rw [UInt32.lt_iff_toNat_lt] at hlt
        omega

/-- Transitions between line starts are proper. -/
lemma proper_of_transitions {firstLine : UInt32} {starts : List LineStart} {ts : List Transition}
    (h : LineStart.transitions starts firstLine = .ok ts) : Transition.Proper ts := by
  cases starts with
  | nil =>
    obtain rfl : [] = ts := Except.ok.inj h
    exact ⟨by simp, by simp⟩
  | cons s rest =>
    rw [LineStart.transitions] at h
    split_ifs at h with h0
    have hs : s.offset = 0 := not_not.1 h0
    rw [LineStart.transitionsFrom] at h
    simp only [Option.filter_none] at h
    split_ifs at h with hline
    · have hmem := mem_transitionsFrom h (hs ▸ UInt32.le_refl _)
      exact ⟨fun t ht => (hmem t ht).1, fun t ht => (hmem t (List.mem_of_mem_tail ht)).2⟩
    · obtain ⟨tail, htail, h⟩ := Checked.bind_eq_ok.1 h
      obtain rfl := Except.ok.inj h
      have hmem := mem_transitionsFrom htail (UInt32.le_refl _)
      refine ⟨List.forall_mem_cons.2 ⟨fun h0 => ?_, fun t ht => (hmem t ht).1⟩,
        fun t ht => (hmem t ht).2⟩
      exact hline (UInt32.toNat_inj.1 (by dsimp only at h0; omega))

/-- Runs met along transitions that all advance and change the line are those of an open run and of
starts with these transitions between them. -/
lemma transitionsFrom_of_runsAlong {firstLine : UInt32} {run : Run} {last : Option Int}
    {ts : List Transition} {starts : List LineStart}
    (hts : ∀ t ∈ ts, t.lineDelta ≠ 0 ∧ t.offsetDelta ≠ 0)
    (h : runsAlong run last ts = .ok (starts.map (LineStart.run firstLine)))
    (hlast : last ≠ some run.line) :
    ∃ s rest, starts = s :: rest ∧ s.run firstLine = run ∧
      LineStart.transitionsFrom s (some s.offset) rest = .ok ts := by
  have hreport : run.report last = [run] := if_neg hlast
  induction ts generalizing run last starts with
  | nil =>
    rw [runsAlong, hreport] at h
    obtain ⟨s, hs, hrun⟩ := List.map_eq_singleton_iff.1 (Except.ok.inj h).symm
    exact ⟨s, [], hs, hrun, rfl⟩
  | cons t ts ih =>
    obtain ⟨⟨hline, hoff⟩, hts⟩ := List.forall_mem_cons.1 hts
    simp only [runsAlong, hoff, if_false] at h
    split at h
    · simp at h
    rename_i offset hoffset
    obtain ⟨tail, htail, h⟩ := Checked.bind_eq_ok.1 h
    rw [hreport] at h
    obtain ⟨s, more, rfl, hrun, rfl⟩ := List.map_eq_cons_iff.1 (Except.ok.inj h).symm
    have hlast' : some run.line ≠ some (run.line + t.lineDelta) := by
      intro h0
      have := Option.some.inj h0
      omega
    obtain ⟨s', rest, rfl, hrun', hrest⟩ := ih hts htail hlast' (if_neg hlast')
    refine ⟨s, s' :: rest, rfl, hrun, ?_⟩
    obtain rfl := hrun
    obtain ⟨hoff', hline'⟩ := Run.mk.inj hrun'
    have hsum := Word.ofNat?_eq_some_iff.1 hoffset
    have hpos : t.offsetDelta.toNat ≠ 0 := fun h0 => hoff (UInt32.toNat_inj.1 h0)
    simp only [LineStart.run] at hline' hsum
    rw [← hoff'] at hsum
    have hlt : ¬ s'.offset ≤ s.offset := by
      rw [UInt32.le_iff_toNat_le]
      omega
    have hne : s'.line ≠ s.line := by
      intro h0
      rw [h0] at hline'
      omega
    have hsub : s'.offset - s.offset = t.offsetDelta := by
      apply UInt32.toNat_inj.1
      rw [UInt32.toNat_sub_of_le _ _ (UInt32.le_iff_toNat_le.2 (by omega))]
      omega
    have hdelta : (s'.line.toNat : Int) - s.line.toNat = t.lineDelta := by omega
    rw [LineStart.transitionsFrom, Option.filter_some, if_neg (by simpa using hlt)]
    simp only [hne, if_false, hrest, hsub, hdelta]
    rfl

/-- **Proper transitions are those between the line starts that they lead to.** -/
theorem transitions_of_runsAlong {firstLine : UInt32} {ts : List Transition}
    {starts : List LineStart} (hts : Transition.Proper ts)
    (h : runsAlong ⟨0, 0⟩ none ts = .ok (starts.map (LineStart.run firstLine))) :
    LineStart.transitions starts firstLine = .ok ts := by
  -- All of them advance, or the first is met at offset zero and the others advance behind it.
  have hadvancing : (∀ t ∈ ts, t.lineDelta ≠ 0 ∧ t.offsetDelta ≠ 0) →
      LineStart.transitions starts firstLine = .ok ts := by
    intro hall
    obtain ⟨s, rest, rfl, hrun, hrest⟩ := transitionsFrom_of_runsAlong hall h (by simp)
    obtain ⟨hoff, hline⟩ := Run.mk.inj hrun
    have hline' : s.line = firstLine := UInt32.toNat_inj.1 (by omega)
    have hs : s = ⟨0, firstLine⟩ := by rw [← hoff, ← hline']
    rw [LineStart.transitions, if_neg (not_not.2 hoff), LineStart.transitionsFrom]
    simp only [Option.filter_none, hline', if_true]
    rw [hs] at hrest ⊢
    exact hrest
  cases ts with
  | nil => exact hadvancing (by simp)
  | cons t ts =>
    obtain ⟨ht, hlines⟩ := List.forall_mem_cons.1 hts.lines
    have hrest : ∀ t ∈ ts, t.lineDelta ≠ 0 ∧ t.offsetDelta ≠ 0 :=
      fun t' ht' => ⟨hlines t' ht', hts.offsets t' ht'⟩
    by_cases hoff : t.offsetDelta = 0
    · simp only [runsAlong, hoff, if_true, Int.zero_add] at h
      obtain ⟨s, rest, rfl, hrun, hfrom⟩ := transitionsFrom_of_runsAlong hrest h (by simp)
      obtain ⟨hoff', hline⟩ := Run.mk.inj hrun
      have hne : s.line ≠ firstLine := by
        intro h0
        rw [h0] at hline
        omega
      rw [LineStart.transitions, if_neg (not_not.2 hoff'), LineStart.transitionsFrom]
      have hhead : (⟨s.offset - 0, s.line.toNat - firstLine.toNat⟩ : Transition) = t := by
        rw [show (s.line.toNat : Int) - firstLine.toNat = t.lineDelta from hline,
          show s.offset = 0 from hoff', UInt32.sub_self, ← hoff]
      simp only [Option.filter_none, hne, if_false, hfrom, hhead]
      rfl
    · exact hadvancing (List.forall_mem_cons.2 ⟨⟨ht, hoff⟩, hrest⟩)

/-! ## Encoding what was decoded -/

/-- **Decoded line starts can be encoded, and are decoded back.** -/
theorem exists_encode_of_decode {sign : SignConvention} {table : List UInt8} {firstLine : UInt32}
    {starts : List LineStart} (h : decode sign table firstLine = .ok starts) :
    ∃ table', encode sign starts firstLine = .ok table' ∧
      decode sign table' firstLine = .ok starts := by
  obtain ⟨hne, hzero, hadv⟩ := canonical_of_decode h
  have hordered : LineStart.Ordered starts := by
    refine ⟨hzero, ?_⟩
    rw [List.isChain_map]
    exact hadv.imp fun s t hst => hst.1
  have hforward : sign = .unsigned → LineStart.Forward firstLine starts := by
    rintro rfl
    exact forward_of_decode h
  obtain ⟨table', htable, hback⟩ := decode_encode hordered hforward
  rw [if_neg hne, LineStart.merge_eq_self (hadv.imp fun s t hst => hst.2)] at hback
  exact ⟨table', htable, hback⟩

/-- An encoded table is canonical. -/
lemma isCanonical_of_encode {sign : SignConvention} {table : List UInt8} {firstLine : UInt32}
    {starts : List LineStart} (h : encode sign starts firstLine = .ok table) :
    IsCanonical sign table := by
  obtain ⟨ts, hts, h⟩ := Checked.bind_eq_ok.1 h
  have hw := writable_of_encodeTransitions h
  refine isCanonical_iff.2 ⟨ts, proper_of_transitions hts, hw, ?_⟩
  exact Except.ok.inj (h.symm.trans (encodeTransitions_of_writable hw))

/-- A canonical table is the one that encodes the line starts it decodes to. -/
lemma encode_of_isCanonical {sign : SignConvention} {table : List UInt8} {firstLine : UInt32}
    {starts : List LineStart} (h : decode sign table firstLine = .ok starts)
    (hc : IsCanonical sign table) : encode sign starts firstLine = .ok table := by
  obtain ⟨ts, hts, hw, rfl⟩ := isCanonical_iff.1 hc
  have hrs := runs_of_decode h
  rw [runs_encodeTransitions hw] at hrs
  rw [encode, transitions_of_runsAlong hts hrs]
  exact encodeTransitions_of_writable hw

/-- **Decoding normalizes, and canonical tables are the fixed points.** The line starts that a table
decodes to begin at offset zero, their offsets increase, and each changes the line. They can be
encoded, and the new table decodes to them again. It is the old table exactly if that is canonical.

**Proof sketch.** Decoded starts are canonical (`canonical_of_decode`), so they have an encoding
(`exists_encode_of_decode`). An encoding is canonical (`isCanonical_of_encode`), and a canonical
table is the encoding of its starts (`encode_of_isCanonical`). -/
theorem canonical_form_of_decode {sign : SignConvention} {table : List UInt8} {firstLine : UInt32}
    {starts : List LineStart} (h : decode sign table firstLine = .ok starts) :
    LineStart.Canonical starts ∧
      ∃ table', encode sign starts firstLine = .ok table' ∧
        decode sign table' firstLine = .ok starts ∧
        (table' = table ↔ IsCanonical sign table) := by
  obtain ⟨table', htable, hback⟩ := exists_encode_of_decode h
  refine ⟨canonical_of_decode h, table', htable, hback, ?_, fun hc => ?_⟩
  · rintro rfl
    exact isCanonical_of_encode htable
  · exact Except.ok.inj (htable.symm.trans (encode_of_isCanonical h hc))

/-- A table that advances to its second line in two pairs is encoded in one pair less, so it is not
canonical. -/
theorem canonical_form_of_split_advance :
    decode .signed [0, 1, 3, 0, 2, 1, 6, 1] 1 = .ok [⟨0, 2⟩, ⟨5, 3⟩, ⟨11, 4⟩] ∧
      LineStart.Canonical [⟨0, 2⟩, ⟨5, 3⟩, ⟨11, 4⟩] ∧
      encode .signed [⟨0, 2⟩, ⟨5, 3⟩, ⟨11, 4⟩] 1 = .ok [0, 1, 5, 1, 6, 1] ∧
      ¬ IsCanonical .signed [0, 1, 3, 0, 2, 1, 6, 1] := by
  have hdecode : decode .signed [0, 1, 3, 0, 2, 1, 6, 1] 1 =
      .ok [⟨0, 2⟩, ⟨5, 3⟩, ⟨11, 4⟩] := by decide
  have hencode : encode .signed [⟨0, 2⟩, ⟨5, 3⟩, ⟨11, 4⟩] 1 = .ok [0, 1, 5, 1, 6, 1] := by decide
  obtain ⟨hstarts, table', htable, -, hiff⟩ := canonical_form_of_decode hdecode
  obtain rfl := Except.ok.inj (hencode.symm.trans htable)
  exact ⟨hdecode, hstarts, hencode, fun hc => absurd (hiff.2 hc) (by decide)⟩

end LineTable

end CoverProbe
