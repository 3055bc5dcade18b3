import CoverProbe.Proofs.LineTable.Attribution

set_option relaxedAutoImplicit false
set_option autoImplicit false

/-!
# The two views of a line table

Lines can be told by starts, each at its offset, or by the moves between them. Both views can be
encoded and decoded, and each can be had from the other. All these ways lead to the same starts,
less those that repeat the line before them, whichever moves are made: moves that keep the line,
moves that stay at an offset, and moves that take one another back.

## Main definitions

* `CoverProbe.LineStart.meet` — the starts met so far, with one more.
* `CoverProbe.LineStart.grounded` — the starts met, with one at offset zero.

## Main results

* `CoverProbe.Transition.starts_eq_ok_iff` — transitions can be followed from a start on the base
  line.
* `CoverProbe.Transition.exists_met_of_follow` — the starts met along transitions are the runs met
  along them.
* `CoverProbe.Transition.follow_of_transitionsFrom` — following the transitions between starts
  meets the starts.
* `CoverProbe.LineTable.views_agree` — the ways between bytes, starts and transitions commute.
-/

namespace CoverProbe

open LineStart LineTable

variable {firstLine : UInt32} {ts : List Transition}

/-! ## Starts met on the way -/

namespace LineStart

/-- The starts met so far, newest first, with one more. It takes the place of the newest if that
lies at its offset. -/
def meet (s : LineStart) : List LineStart → List LineStart
  | [] => [s]
  | newest :: older => if newest.offset = s.offset then s :: older else s :: newest :: older

/-- The starts met, newest first, with one on the base line unless the oldest lies at offset
zero. -/
def grounded (firstLine : UInt32) (met : List LineStart) : List LineStart :=
  if met.getLast?.any (·.offset = 0) then met else met ++ [⟨0, firstLine⟩]

/-- It makes no difference whether the start on the base line is met first or put there later. -/
lemma meet_grounded (s : LineStart) (met : List LineStart) :
    meet s (grounded firstLine met) = grounded firstLine (meet s met) := by
  match met with
  | [] =>
    by_cases hs : s.offset = 0
    · simp [grounded, meet, hs]
    · simp [grounded, meet, hs, Ne.symm hs]
  | [t] =>
    by_cases ht : t.offset = 0 <;> by_cases hs : t.offset = s.offset <;>
      simp_all [grounded, meet]
  | t :: t' :: older =>
    by_cases hl : (t' :: older).getLast?.any (·.offset = 0) = true <;>
      by_cases hs : t.offset = s.offset <;>
      simp_all [grounded, meet, List.getLast?_cons_cons]

end LineStart

namespace Transition

/-- Following a transition meets the start that it leads to. -/
lemma follow_eq (trail : Trail) (t : Transition) : trail.follow t =
    match Word.ofNat? (trail.offset.toNat + t.offsetDelta.toNat) with
    | none => .error (.range .offset)
    | some offset =>
      match Word.ofInt? (trail.line + t.lineDelta) with
      | none => .error (.range (.line (trail.line + t.lineDelta)))
      | some word => .ok ⟨offset, trail.line + t.lineDelta, meet ⟨offset, word⟩ trail.starts⟩ := by
  rw [Trail.follow]
  cases Word.ofNat? (trail.offset.toNat + t.offsetDelta.toNat) with
  | none => rfl
  | some offset =>
    dsimp only
    cases Word.ofInt? (trail.line + t.lineDelta) with
    | none => rfl
    | some word =>
      cases trail.starts with
      | nil => rfl
      | cons newest older =>
        dsimp only [meet]
        split_ifs <;> rfl

/-- A transition that leads to a start meets it. -/
lemma follow_eq_ok (trail : Trail) {t : Transition} {s : LineStart}
    (ho : trail.offset.toNat + t.offsetDelta.toNat = s.offset.toNat)
    (hl : trail.line + t.lineDelta = s.line.toNat) :
    trail.follow t = .ok ⟨s.offset, s.line.toNat, meet s trail.starts⟩ := by
  rw [follow_eq, ho, hl, Word.ofNat?_toNat, Word.ofInt?_eq_some_iff.2 rfl]

/-- Transitions lead on from grounded starts as from the starts themselves. -/
lemma foldlM_follow_grounded (firstLine : UInt32) (trail : Trail) (ts : List Transition) :
    ts.foldlM Trail.follow { trail with starts := grounded firstLine trail.starts } =
      (fun found : Trail => { found with starts := grounded firstLine found.starts }) <$>
        ts.foldlM Trail.follow trail := by
  induction ts generalizing trail with
  | nil => rfl
  | cons t ts ih =>
    have hstep : Trail.follow { trail with starts := grounded firstLine trail.starts } t =
        (fun found : Trail => { found with starts := grounded firstLine found.starts }) <$>
          trail.follow t := by
      rw [follow_eq, follow_eq]
      dsimp only
      split
      · rfl
      split
      · rfl
      rw [meet_grounded]
      rfl
    rw [List.foldlM_cons, List.foldlM_cons, hstep, bind_map_left, map_bind]
    exact bind_congr fun next => ih next

/-- **Transitions can be followed from a start on the base line**, which is then the first start met
unless they replace its line. -/
theorem starts_eq_ok_iff {starts : List LineStart} :
    Transition.starts ts firstLine = .ok starts ↔
      ∃ found, ts.foldlM Trail.follow ⟨0, firstLine.toNat, [⟨0, firstLine⟩]⟩ = .ok found ∧
        found.starts.reverse = starts := by
  have hfollow : Transition.starts ts firstLine = (fun found : Trail => found.starts.reverse) <$>
      ts.foldlM Trail.follow ⟨0, firstLine.toNat, [⟨0, firstLine⟩]⟩ := by
    have hgrounded := foldlM_follow_grounded firstLine ⟨0, firstLine.toNat, []⟩ ts
    have hbase : grounded firstLine [] = [⟨0, firstLine⟩] := rfl
    dsimp only at hgrounded
    rw [hbase] at hgrounded
    rw [hgrounded, Functor.map_map, Transition.starts]
    refine bind_congr fun found => ?_
    -- The start on the base line is put in front, unless the oldest start lies at offset zero.
    dsimp only
    rw [grounded, ← List.head?_reverse]
    cases h : found.starts.reverse with
    | nil =>
      rw [List.reverse_eq_nil_iff.1 h]
      rfl
    | cons s rest =>
      by_cases hs : s.offset = 0
      · simp [hs, h, pure, Except.pure]
      · simp [hs, h, pure, Except.pure]
  rw [hfollow]
  exact Checked.map_eq_ok

/-! ## Starts and runs -/

/-- A start is merged exactly if its run is not reported, since it repeats the line `current`. -/
lemma report_run (s : LineStart) (current : Option UInt32) (more : List LineStart) :
    (s.run firstLine).report (current.map fun line => (line.toNat : Int) - firstLine.toNat) ++
        (mergeFrom (some s.line) more).map (run firstLine) =
      (mergeFrom current (s :: more)).map (run firstLine) := by
  have hsame : current.map (fun line => (line.toNat : Int) - firstLine.toNat) =
      some (s.run firstLine).line ↔ current = some s.line := by
    cases current with
    | none => simp
    | some line =>
      simp only [Option.map_some, Option.some.injEq, LineStart.run]
      rw [← UInt32.toNat_inj]
      omega
  rw [Run.report, mergeFrom]
  simp only [hsame]
  split_ifs with hc
  · rw [hc, List.nil_append]
  · rfl

/-- **The starts met along transitions are the runs met along them**, less those that repeat the
line before them. The transitions are followed from the start `s`, behind the line `current`.

**Proof sketch.** Induction along the transitions. One that does not advance gives the newest start
and the open run another line. One that advances closes the open run, which is reported unless it
repeats the line before it (`report_run`), and meets a new start. -/
theorem exists_met_of_follow (firstLine : UInt32) {s : LineStart} {older : List LineStart}
    {found : Trail} (current : Option UInt32)
    (h : ts.foldlM Trail.follow ⟨s.offset, s.line.toNat, s :: older⟩ = .ok found) :
    ∃ met, found.starts.reverse = older.reverse ++ met ∧
      runsAlong (s.run firstLine)
          (current.map fun line => (line.toNat : Int) - firstLine.toNat) ts =
        .ok ((mergeFrom current met).map (run firstLine)) := by
  induction ts generalizing s older current with
  | nil =>
    obtain rfl := Except.ok.inj h
    refine ⟨[s], List.reverse_cons, ?_⟩
    rw [← report_run, mergeFrom, List.map_nil, List.append_nil]
    rfl
  | cons t ts ih =>
    rw [List.foldlM_cons] at h
    obtain ⟨next, hnext, h⟩ := Checked.bind_eq_ok.1 h
    rw [follow_eq] at hnext
    split at hnext
    · simp at hnext
    rename_i offset hoffset
    split at hnext
    · simp at hnext
    rename_i word hword
    obtain rfl := Except.ok.inj hnext
    rw [Word.ofInt?_eq_some_iff.1 hword] at h
    have hline : (⟨offset, (s.run firstLine).line + t.lineDelta⟩ : Run) =
        run firstLine ⟨offset, word⟩ := by
      have hsum := Word.ofInt?_eq_some_iff.1 hword
      simp only [LineStart.run, Run.mk.injEq, true_and] at hsum ⊢
      omega
    have hsum := Word.ofNat?_eq_some_iff.1 hoffset
    rw [runsAlong]
    by_cases ht : t.offsetDelta = 0
    · rw [ht, UInt32.toNat_zero, Nat.add_zero, UInt32.toNat_inj] at hsum
      dsimp only at hsum
      subst hsum
      rw [meet, if_pos rfl] at h
      obtain ⟨met, hmet, hruns⟩ := ih (s := ⟨s.offset, word⟩) current h
      refine ⟨met, hmet, ?_⟩
      rw [if_pos ht, show (s.run firstLine).offset = s.offset from rfl, hline]
      exact hruns
    · have hne : s.offset ≠ offset := by
        rintro rfl
        exact ht (UInt32.toNat_inj.1 (by dsimp only at hsum; rw [UInt32.toNat_zero]; omega))
      rw [meet, if_neg hne] at h
      obtain ⟨met, hmet, hruns⟩ := ih (s := ⟨offset, word⟩) (some s.line) h
      refine ⟨s :: met, by rw [hmet]; simp, ?_⟩
      rw [if_neg ht, show (s.run firstLine).offset = s.offset from rfl, hoffset]
      dsimp only
      rw [hline, ← report_run, show some (s.run firstLine).line =
        (some s.line).map fun line => (line.toNat : Int) - firstLine.toNat from rfl, hruns]
      rfl

/-! ## Starts and the transitions between them -/

/-- **Following the transitions between starts meets the starts**, less those that repeat the line
before them. The starts lie behind the start `anchor`. -/
theorem follow_of_transitionsFrom {anchor : LineStart} {p : UInt32} {starts : List LineStart}
    (h : transitionsFrom anchor (some p) starts = .ok ts) (hp : anchor.offset ≤ p)
    (older : List LineStart) :
    ∃ found,
      ts.foldlM Trail.follow ⟨anchor.offset, anchor.line.toNat, anchor :: older⟩ = .ok found ∧
        found.starts.reverse =
          older.reverse ++ anchor :: mergeFrom (some anchor.line) starts := by
  induction starts generalizing anchor p older ts with
  | nil =>
    obtain rfl : [] = ts := Except.ok.inj h
    exact ⟨_, rfl, List.reverse_cons⟩
  | cons s rest ih =>
    rw [transitionsFrom] at h
    split at h
    · simp at h
    rename_i hs
    have hlt : p < s.offset := by
      simpa [Option.filter_eq_none_iff, UInt32.not_le] using hs
    have hbehind := UInt32.lt_of_le_of_lt hp hlt
    rw [mergeFrom]
    split_ifs at h with hline
    · rw [if_pos (by rw [hline])]
      exact ih h (UInt32.le_of_lt hbehind) older
    · obtain ⟨tail, htail, h⟩ := Checked.bind_eq_ok.1 h
      obtain rfl := Except.ok.inj h
      rw [if_neg fun h0 => hline (Option.some.inj h0).symm]
      have hsub := UInt32.toNat_sub_of_le s.offset anchor.offset (UInt32.le_of_lt hbehind)
      have hle := UInt32.lt_iff_toNat_lt.1 hbehind
      have hstep := follow_eq_ok ⟨anchor.offset, anchor.line.toNat, anchor :: older⟩
        (t := ⟨s.offset - anchor.offset, s.line.toNat - anchor.line.toNat⟩) (s := s)
        (by dsimp only; omega) (by dsimp only; omega)
      dsimp only at hstep
      rw [meet, if_neg (UInt32.ne_of_lt hbehind)] at hstep
      obtain ⟨found, hfound, hmet⟩ := ih htail (UInt32.le_refl _) (anchor :: older)
      refine ⟨found, ?_, by rw [hmet]; simp⟩
      rw [List.foldlM_cons, hstep]
      exact hfound

/-- **Starts come back from the transitions between them**, less those that repeat the line before
them. Without starts there is the one on the base line. -/
theorem starts_of_transitions {starts : List LineStart}
    (h : transitions starts firstLine = .ok ts) :
    Transition.starts ts firstLine =
      .ok (if starts = [] then [⟨0, firstLine⟩] else merge starts) := by
  rw [starts_eq_ok_iff]
  cases starts with
  | nil =>
    obtain rfl : [] = ts := Except.ok.inj h
    exact ⟨_, rfl, rfl⟩
  | cons s rest =>
    rw [transitions] at h
    split_ifs at h with h0
    have hs : s.offset = 0 := not_not.1 h0
    rw [transitionsFrom] at h
    simp only [Option.filter_none] at h
    rw [if_neg (List.cons_ne_nil s rest), merge, mergeFrom, if_neg (by simp)]
    split_ifs at h with hline
    · have hbase : (⟨0, firstLine⟩ : LineStart) = s := by rw [← hs, ← hline]
      rw [← hbase] at h ⊢
      exact follow_of_transitionsFrom h (UInt32.le_refl _) []
    · obtain ⟨tail, htail, h⟩ := Checked.bind_eq_ok.1 h
      obtain rfl := Except.ok.inj h
      have hstep := follow_eq_ok ⟨0, firstLine.toNat, [⟨0, firstLine⟩]⟩
        (t := ⟨s.offset - 0, s.line.toNat - firstLine.toNat⟩) (s := s)
        (by rw [hs]; rfl) (by dsimp only; omega)
      dsimp only at hstep
      rw [meet, if_pos (by exact hs.symm)] at hstep
      rw [List.foldlM_cons, hstep]
      exact follow_of_transitionsFrom htail (UInt32.le_refl _) []

end Transition

namespace LineTable

/-! ## The ways commute -/

/-- **Encoded transitions decode to the starts they lead to**, less those that repeat the line
before them. -/
theorem decode_of_encodeTransitions {sign : SignConvention} {table : List UInt8}
    {starts : List LineStart} (htable : encodeTransitions sign ts = .ok table)
    (hstarts : Transition.starts ts firstLine = .ok starts) :
    decode sign table firstLine = .ok (merge starts) := by
  have hw := writable_of_encodeTransitions htable
  obtain rfl := Except.ok.inj (htable.symm.trans (encodeTransitions_of_writable hw))
  obtain ⟨found, hfound, rfl⟩ := Transition.starts_eq_ok_iff.1 hstarts
  obtain ⟨met, hmet, hruns⟩ := Transition.exists_met_of_follow firstLine
    (s := ⟨0, firstLine⟩) none hfound
  have hbase : run firstLine ⟨0, firstLine⟩ = ⟨0, 0⟩ := by simp [run]
  rw [hbase] at hruns
  rw [decode, runs_encodeTransitions hw, hmet]
  show (runsAlong ⟨0, 0⟩ none ts >>= fun found => found.mapM (Run.start firstLine)) = _
  rw [show runsAlong ⟨0, 0⟩ none ts = _ from hruns]
  exact mapM_start_run firstLine _

/-- The moves along canonical starts are the transitions between them. -/
lemma transitionsFrom_eq_movesFrom (firstLine : UInt32) {s : LineStart} {rest : List LineStart}
    (h : (s :: rest).IsChain Advances) :
    transitionsFrom s (some s.offset) rest =
      .ok (movesFrom (s.run firstLine) (rest.map (run firstLine))) := by
  induction rest generalizing s with
  | nil => rfl
  | cons t rest ih =>
    obtain ⟨⟨hoffset, hline⟩, hrest⟩ := List.isChain_cons_cons.1 h
    have hdelta : (t.run firstLine).line - (s.run firstLine).line =
        t.line.toNat - s.line.toNat := by
      simp only [run]
      omega
    have hne : (t.line.toNat : Int) - s.line.toNat ≠ 0 := by
      intro h0
      exact hline (UInt32.toNat_inj.1 (by omega))
    have hmove : (⟨(t.run firstLine).offset - (s.run firstLine).offset,
        (t.run firstLine).line - (s.run firstLine).line⟩ : Transition) ≠ ⟨0, 0⟩ := by
      rw [hdelta]
      exact fun h0 => hne (Transition.mk.inj h0).2
    rw [transitionsFrom, Option.filter_some, if_neg (by simpa using hoffset), List.map_cons,
      movesFrom, if_neg hmove, hdelta]
    simp only [Ne.symm hline, if_false, ih hrest]
    rfl

/-- **Decoded transitions are those between the decoded starts.** -/
theorem transitions_of_decode {sign : SignConvention} {table : List UInt8}
    {starts : List LineStart} (h : decode sign table firstLine = .ok starts) :
    ∃ ts, decodeTransitions sign table = .ok ts ∧ transitions starts firstLine = .ok ts := by
  obtain ⟨hne, hzero, hadvances⟩ := canonical_of_decode h
  obtain ⟨s, rest, rfl⟩ := List.exists_cons_of_ne_nil hne
  have hs : s.offset = 0 := hzero s rfl
  refine ⟨_, by rw [decodeTransitions, runs_of_decode h]; rfl, ?_⟩
  have hrun : s.run firstLine = ⟨0, s.line.toNat - firstLine.toNat⟩ := by rw [run, hs]
  have hmove : (⟨(s.run firstLine).offset - 0, (s.run firstLine).line - 0⟩ : Transition) =
      ⟨s.offset - 0, s.line.toNat - firstLine.toNat⟩ := by rw [hrun, hs, Int.sub_zero]
  -- Only the first start may lie on the base line, and then it is no move.
  have hstays : (⟨s.offset - 0, s.line.toNat - firstLine.toNat⟩ : Transition) = ⟨0, 0⟩ ↔
      s.line = firstLine := by
    rw [hs, ← UInt32.toNat_inj]
    simp only [UInt32.sub_self, Transition.mk.injEq, true_and]
    omega
  rw [transitions, if_neg (not_not.2 hs), transitionsFrom, List.map_cons, movesFrom]
  simp only [Option.filter_none, transitionsFrom_eq_movesFrom firstLine hadvances,
    hmove, hstays]
  split_ifs with hline
  · have hbase : (⟨0, firstLine⟩ : LineStart) = s := by rw [← hs, ← hline]
    rw [hbase]
    exact transitionsFrom_eq_movesFrom firstLine hadvances
  · rfl

/-- **The two views of a line table agree.** Transitions that are encoded and lead to starts decode
to these, less those that repeat the line before them. The transitions that a table decodes to are
those between the starts it decodes to. And the transitions between starts lead back to these, again
less those that repeat the line before them, or to the base line if there are no starts.

**Proof sketch.** Decoding follows the transitions that were encoded, and so meets the starts that
following them meets (`exists_met_of_follow`). Decoded starts all change the line, so the moves
along them are the transitions between them (`transitionsFrom_eq_movesFrom`). Each transition
between starts leads from one to the next on another line (`follow_of_transitionsFrom`). -/
theorem views_agree (sign : SignConvention) (firstLine : UInt32) :
    (∀ ts table starts, encodeTransitions sign ts = .ok table →
        Transition.starts ts firstLine = .ok starts →
          decode sign table firstLine = .ok (merge starts)) ∧
      (∀ table starts, decode sign table firstLine = .ok starts →
        ∃ ts, decodeTransitions sign table = .ok ts ∧ transitions starts firstLine = .ok ts) ∧
      ∀ starts ts, transitions starts firstLine = .ok ts →
        Transition.starts ts firstLine =
          .ok (if starts = [] then [⟨0, firstLine⟩] else merge starts) := by
  refine ⟨?_, ?_, ?_⟩
  · intro ts table starts htable hstarts
    exact decode_of_encodeTransitions htable hstarts
  · intro table starts h
    exact transitions_of_decode h
  · intro starts ts h
    exact Transition.starts_of_transitions h

/-- Two moves at offset zero, one that keeps the line, and two that take one another back: of the
starts they lead to, one begins a new line. -/
theorem views_agree_detour :
    encodeTransitions .signed [⟨0, 2⟩, ⟨0, -1⟩, ⟨4, 0⟩, ⟨3, 5⟩, ⟨0, -5⟩, ⟨2, 1⟩] =
        .ok [0, 2, 0, 255, 4, 0, 3, 5, 0, 251, 2, 1] ∧
      Transition.starts [⟨0, 2⟩, ⟨0, -1⟩, ⟨4, 0⟩, ⟨3, 5⟩, ⟨0, -5⟩, ⟨2, 1⟩] 10 =
        .ok [⟨0, 11⟩, ⟨4, 11⟩, ⟨7, 11⟩, ⟨9, 12⟩] ∧
      decode .signed [0, 2, 0, 255, 4, 0, 3, 5, 0, 251, 2, 1] 10 = .ok [⟨0, 11⟩, ⟨9, 12⟩] ∧
      ∃ ts, decodeTransitions .signed [0, 2, 0, 255, 4, 0, 3, 5, 0, 251, 2, 1] = .ok ts ∧
        transitions [⟨0, 11⟩, ⟨9, 12⟩] 10 = .ok ts ∧
        Transition.starts ts 10 = .ok [⟨0, 11⟩, ⟨9, 12⟩] := by
  obtain ⟨hstarts, hmoves, hback⟩ := views_agree .signed 10
  have htable : encodeTransitions .signed [⟨0, 2⟩, ⟨0, -1⟩, ⟨4, 0⟩, ⟨3, 5⟩, ⟨0, -5⟩, ⟨2, 1⟩] =
      .ok [0, 2, 0, 255, 4, 0, 3, 5, 0, 251, 2, 1] := by decide
  have hmet : Transition.starts [⟨0, 2⟩, ⟨0, -1⟩, ⟨4, 0⟩, ⟨3, 5⟩, ⟨0, -5⟩, ⟨2, 1⟩] 10 =
      .ok [⟨0, 11⟩, ⟨4, 11⟩, ⟨7, 11⟩, ⟨9, 12⟩] := by decide
  have hdecode := hstarts _ _ _ htable hmet
  obtain ⟨ts, hts, hbetween⟩ := hmoves _ _ hdecode
  exact ⟨htable, hmet, hdecode, ts, hts, hbetween, hback _ _ hbetween⟩

end LineTable

end CoverProbe
