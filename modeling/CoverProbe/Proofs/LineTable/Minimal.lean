import CoverProbe.Proofs.LineTable.Canonical

set_option relaxedAutoImplicit false
set_option autoImplicit false

/-!
# Encoded tables are minimal

No table is shorter than the encoded one among those that decode to the same line starts. Whatever
pairs lead from one reported run to the next, there are at least as many as the canonical pairs of
the transition between the two: pairs that advance before the line changes advance by 255 at most,
and line changes count only at the offset where they are reported.

## Main definitions

* `CoverProbe.LineTable.pairCount` — the number of canonical pairs of an advance and a line change.
* `CoverProbe.LineTable.cost` — the number of canonical pairs that lead along runs.
* `CoverProbe.LineTable.spent` — the least number of pairs behind which a run can be open.

## Main results

* `CoverProbe.LineTable.length_steps_add` — a line byte saves at most one step.
* `CoverProbe.LineTable.cost_le` — pairs that meet runs are no fewer than the cost of the runs.
* `CoverProbe.LineTable.cost_of_proper` — canonical pairs are as many as that.
* `CoverProbe.LineTable.encode_minimal` — the encoded table is a shortest one.
-/

namespace CoverProbe.LineTable

/-! ## Counting pairs -/

/-- The number of canonical pairs of an advance and a line change. -/
def pairCount (sign : SignConvention) (advance : Nat) (delta : Int) : Nat :=
  (advance - 1) / 255 + (steps sign delta).length

/-- The number of canonical pairs that lead along runs, from the run `anchor` on. -/
def cost (sign : SignConvention) (anchor : Run) : List Run → Nat
  | [] => 0
  | r :: rest =>
    pairCount sign (r.offset.toNat - anchor.offset.toNat) (r.line - anchor.line) + cost sign r rest

/-- The least number of pairs behind which a run is open that lies `advance` bytes and `delta` lines
behind the run reported last. -/
def spent (sign : SignConvention) (advance : Nat) (delta : Int) : Nat :=
  if advance = 0 ∧ delta = 0 then 0 else (advance - 1) / 255 + max 1 (steps sign delta).length

/-- A line change of zero takes no steps. -/
@[simp] lemma steps_zero (sign : SignConvention) : steps sign 0 = [] := by
  cases sign <;> rfl

/-- The number of steps of a line change. A step back in unsigned bytes, which cannot write it,
counts as one. -/
lemma length_steps (sign : SignConvention) (delta : Int) :
    (steps sign delta).length =
      match sign with
      | .signed => if delta < 0 then (delta.natAbs + 127) / 128 else (delta.natAbs + 126) / 127
      | .unsigned => if delta < 0 then 1 else (delta.natAbs + 254) / 255 := by
  have hlength : ∀ (n : Nat) (b r : Int),
      (List.replicate n b ++ if r = 0 then [] else [r]).length = n + if r = 0 then 0 else 1 := by
    intro n b r
    split_ifs <;> simp
  rw [steps, hlength]
  by_cases h : delta < 0
  · rw [if_pos h, tmod_of_neg _ h]
    cases sign with
    | signed =>
      show delta.natAbs / 128 + (if -(-delta % -128) = 0 then 0 else 1) = if delta < 0 then _ else _
      rw [Int.emod_neg, if_pos h]
      split_ifs <;> omega
    | unsigned =>
      show delta.natAbs / 0 + (if -(-delta % 0) = 0 then 0 else 1) = if delta < 0 then _ else _
      rw [if_pos h, if_neg (by omega), Nat.div_zero]
  · rw [if_neg h, Int.tmod_eq_emod_of_nonneg (by omega)]
    cases sign with
    | signed =>
      show delta.natAbs / 127 + (if delta % 127 = 0 then 0 else 1) = if delta < 0 then _ else _
      rw [if_neg h]
      split_ifs <;> omega
    | unsigned =>
      show delta.natAbs / 255 + (if delta % 255 = 0 then 0 else 1) = if delta < 0 then _ else _
      rw [if_neg h]
      split_ifs <;> omega

/-- **A line byte saves at most one step**: a line change takes at most one step more than what is
left of it behind a line byte. -/
lemma length_steps_add {sign : SignConvention} {k : Int} (hk : sign.low ≤ k ∧ k ≤ sign.high)
    (delta : Int) : (steps sign (delta + k)).length ≤ (steps sign delta).length + 1 := by
  rw [length_steps, length_steps]
  cases sign with
  | signed =>
    simp only [SignConvention.low, SignConvention.high] at hk
    dsimp only
    split_ifs <;> omega
  | unsigned =>
    simp only [SignConvention.low, SignConvention.high] at hk
    dsimp only
    split_ifs <;> omega

/-- A move writes at most one step and advances by 255 bytes at most. -/
def Small (sign : SignConvention) (t : Transition) : Prop :=
  t.offsetDelta.toNat ≤ 255 ∧ sign.low ≤ t.lineDelta ∧ t.lineDelta ≤ sign.high

/-- The moves of pairs are small. -/
lemma small_move (sign : SignConvention) (p : Pair) : Small sign (p.move sign) := by
  have ha := p.advance.toNat_lt
  have hc := p.change.toNat_lt
  refine ⟨by rw [Pair.toNat_move_offsetDelta]; omega, ?_⟩
  cases sign with
  | signed =>
    simp only [Pair.move, SignConvention.read, SignConvention.low, SignConvention.high]
    split_ifs <;> omega
  | unsigned =>
    simp only [Pair.move, SignConvention.read, SignConvention.low, SignConvention.high]
    omega

/-- The canonical pairs that lead to an open run are at most those spent. -/
lemma pairCount_le_spent (sign : SignConvention) (advance : Nat) (delta : Int) :
    pairCount sign advance delta ≤ spent sign advance delta := by
  rw [pairCount, spent]
  split_ifs with h
  · simp [h.1, h.2]
  · omega

/-- A move that stays at the offset spends at most one pair more. -/
lemma spent_stay {sign : SignConvention} {k : Int} (hk : sign.low ≤ k ∧ k ≤ sign.high)
    (advance : Nat) (delta : Int) :
    spent sign advance (delta + k) ≤ spent sign advance delta + 1 := by
  have hstep := length_steps_add hk delta
  rw [spent, spent]
  split_ifs with hnew hold hold
  · exact Nat.zero_le _
  · exact Nat.zero_le _
  · obtain ⟨rfl, rfl⟩ := hold
    simp only [steps_zero, List.length_nil] at hstep
    omega
  · omega

/-- A move that advances from the line reported last spends at most one pair more. -/
lemma spent_advance {sign : SignConvention} {k : Int} (hk : sign.low ≤ k ∧ k ≤ sign.high)
    (advance : Nat) {further : Nat} (h : further ≤ 255) :
    spent sign (advance + further) k ≤ spent sign advance 0 + 1 := by
  have hstep := length_steps_add hk 0
  simp only [Int.zero_add, steps_zero, List.length_nil] at hstep
  rw [spent, spent]
  simp only [steps_zero, List.length_nil, and_true]
  split_ifs <;> omega

/-! ## The lower bound -/

/-- **Moves that meet runs are no fewer than the cost of the runs**, less what was spent before.

**Proof sketch.** Induction along the moves; `anchor` is the run reported last. A move that stays
changes the line of the open run by one step at most (`spent_stay`). A move that advances either
reports the open run, which is the anchor from then on, one move behind it, or finds it on the
anchor's line: then what was spent at its offset was spent on an advance alone
(`spent_advance`). -/
lemma cost_le {sign : SignConvention} {run anchor : Run} {last : Option Int} {ts : List Transition}
    {rs : List Run} (hts : ∀ t ∈ ts, Small sign t) (h : runsAlong run last ts = .ok rs)
    (hanchor : ∀ line, last = some line → line = anchor.line)
    (hoffset : anchor.offset.toNat ≤ run.offset.toNat) :
    cost sign anchor rs ≤
      spent sign (run.offset.toNat - anchor.offset.toNat) (run.line - anchor.line) + ts.length := by
  induction ts generalizing run anchor last rs with
  | nil =>
    obtain rfl : run.report last = rs := Except.ok.inj h
    have hle := pairCount_le_spent sign (run.offset.toNat - anchor.offset.toNat)
      (run.line - anchor.line)
    rw [Run.report]
    split_ifs
    · exact Nat.zero_le _
    · simp only [cost, List.length_nil]
      omega
  | cons t ts ih =>
    obtain ⟨⟨hadvance, hline⟩, hts⟩ := List.forall_mem_cons.1 hts
    simp only [runsAlong] at h
    split at h
    · have hrest := ih hts h hanchor hoffset
      have hstay := spent_stay hline (run.offset.toNat - anchor.offset.toNat)
        (run.line - anchor.line)
      rw [show run.line - anchor.line + t.lineDelta = run.line + t.lineDelta - anchor.line by omega]
        at hstay
      rw [List.length_cons]
      dsimp only at hrest
      omega
    split at h
    · simp at h
    rename_i offset hword
    have hsum := Word.ofNat?_eq_some_iff.1 hword
    obtain ⟨tail, htail, h⟩ := Checked.bind_eq_ok.1 h
    obtain rfl := Except.ok.inj h
    rw [Run.report, List.length_cons]
    split_ifs with hl
    · -- The open run lies on the anchor's line and is not reported.
      have hsame := hanchor _ hl
      have hrest := ih hts htail
        (fun line hline => (Option.some.inj hline).symm.trans hsame)
        (show anchor.offset.toNat ≤ offset.toNat by omega)
      have hmore := spent_advance hline (run.offset.toNat - anchor.offset.toNat) hadvance
      dsimp only at hrest
      rw [hsame, show anchor.line + t.lineDelta - anchor.line = t.lineDelta by omega,
        show offset.toNat - anchor.offset.toNat =
          run.offset.toNat - anchor.offset.toNat + t.offsetDelta.toNat by omega] at hrest
      rw [hsame, Int.sub_self, List.nil_append]
      omega
    · have hrest := ih hts htail (fun line hline => (Option.some.inj hline).symm)
        (show run.offset.toNat ≤ offset.toNat by omega)
      have hfirst := pairCount_le_spent sign (run.offset.toNat - anchor.offset.toNat)
        (run.line - anchor.line)
      have hmore := spent_advance hline 0 hadvance
      dsimp only at hrest
      rw [show run.line + t.lineDelta - run.line = t.lineDelta by omega,
        show offset.toNat - run.offset.toNat = 0 + t.offsetDelta.toNat by omega] at hrest
      have hzero : spent sign 0 0 = 0 := if_pos ⟨rfl, rfl⟩
      simp only [List.singleton_append, cost]
      omega

/-! ## The cost of canonical pairs -/

/-- The canonical pairs of a transition that changes the line. -/
lemma length_pairsOf {sign : SignConvention} {t : Transition} (h : t.lineDelta ≠ 0) :
    (pairsOf sign t).length = pairCount sign t.offsetDelta.toNat t.lineDelta := by
  rw [pairCount, pairsOf, ← fullAdvances]
  cases hs : steps sign t.lineDelta with
  | nil =>
    have hsum := sum_steps sign t.lineDelta
    rw [hs, List.sum_nil] at hsum
    exact absurd hsum.symm h
  | cons k ks => simp

/-- Transitions that all advance and change the line have as many canonical pairs as the runs cost
that are met along them. -/
lemma cost_of_advancing {sign : SignConvention} {run : Run} {last : Option Int}
    {ts : List Transition} {rs : List Run}
    (hts : ∀ t ∈ ts, t.lineDelta ≠ 0 ∧ t.offsetDelta ≠ 0) (h : runsAlong run last ts = .ok rs)
    (hlast : last ≠ some run.line) :
    ∃ more, rs = run :: more ∧ cost sign run more = (ts.flatMap (pairsOf sign)).length := by
  have hreport : run.report last = [run] := if_neg hlast
  induction ts generalizing run last rs with
  | nil => exact ⟨[], (Except.ok.inj h).symm.trans hreport, rfl⟩
  | cons t ts ih =>
    obtain ⟨⟨hline, hoff⟩, hts⟩ := List.forall_mem_cons.1 hts
    simp only [runsAlong, hoff, if_false] at h
    split at h
    · simp at h
    rename_i offset hword
    have hsum := Word.ofNat?_eq_some_iff.1 hword
    obtain ⟨tail, htail, h⟩ := Checked.bind_eq_ok.1 h
    obtain rfl := Except.ok.inj h
    have hlast' : some run.line ≠ some (run.line + t.lineDelta) := by
      intro h0
      have := Option.some.inj h0
      omega
    obtain ⟨more, rfl, hcost⟩ := ih hts htail hlast' (if_neg hlast')
    refine ⟨⟨offset, run.line + t.lineDelta⟩ :: more, by rw [hreport]; rfl, ?_⟩
    rw [cost, hcost, List.flatMap_cons, List.length_append, length_pairsOf hline]
    dsimp only
    rw [show run.line + t.lineDelta - run.line = t.lineDelta by omega,
      show offset.toNat - run.offset.toNat = t.offsetDelta.toNat by omega]

/-- **Proper transitions have as many canonical pairs as the runs cost that are met along them.** -/
lemma cost_of_proper {sign : SignConvention} {ts : List Transition} {rs : List Run}
    (hts : Transition.Proper ts) (h : runsAlong ⟨0, 0⟩ none ts = .ok rs) :
    cost sign ⟨0, 0⟩ rs = (ts.flatMap (pairsOf sign)).length := by
  have hadvancing : (∀ t ∈ ts, t.lineDelta ≠ 0 ∧ t.offsetDelta ≠ 0) →
      cost sign ⟨0, 0⟩ rs = (ts.flatMap (pairsOf sign)).length := by
    intro hall
    obtain ⟨more, rfl, hcost⟩ := @cost_of_advancing sign _ _ _ _ hall h (by simp)
    simp [cost, pairCount, hcost]
  cases ts with
  | nil => exact hadvancing (by simp)
  | cons t ts =>
    obtain ⟨hline, hlines⟩ := List.forall_mem_cons.1 hts.lines
    have hrest : ∀ t ∈ ts, t.lineDelta ≠ 0 ∧ t.offsetDelta ≠ 0 :=
      fun t' ht' => ⟨hlines t' ht', hts.offsets t' ht'⟩
    by_cases hoff : t.offsetDelta = 0
    · -- Only the first transition may stay at offset zero.
      simp only [runsAlong, hoff, if_true] at h
      obtain ⟨more, rfl, hcost⟩ := @cost_of_advancing sign _ _ _ _ hrest h (by simp)
      rw [List.flatMap_cons, List.length_append, length_pairsOf hline, ← hcost, hoff]
      simp [cost]
    · exact hadvancing (List.forall_mem_cons.2 ⟨⟨hline, hoff⟩, hrest⟩)

/-! ## The shortest table -/

/-- A list of pairs takes two bytes for each. -/
lemma length_bytes (ps : List Pair) : (bytes ps).length = 2 * ps.length := by
  induction ps with
  | nil => rfl
  | cons p ps ih =>
    show (bytes ps).length + 1 + 1 = _
    rw [ih, List.length_cons]
    omega

/-- The bytes of a table are those of its pairs. -/
lemma bytes_of_pairs? {table : List UInt8} {ps : List Pair} (h : pairs? table = some ps) :
    bytes ps = table := by
  fun_induction pairs? table generalizing ps with
  | case1 =>
    obtain rfl := Option.some.inj h
    rfl
  | case2 => simp at h
  | case3 a c rest ih =>
    obtain ⟨qs, hqs, rfl⟩ := Option.map_eq_some_iff.1 h
    show a :: c :: bytes qs = _
    rw [ih hqs]

/-- A table takes at least two bytes for each pair that its runs cost. -/
lemma cost_le_length {sign : SignConvention} {table : List UInt8} {rs : List Run}
    (h : runs sign table = .ok rs) : 2 * cost sign ⟨0, 0⟩ rs ≤ table.length := by
  rw [runs] at h
  split at h
  · simp at h
  rename_i ps hps
  rw [runsFrom_eq_runsAlong] at h
  have hsmall : ∀ t ∈ ps.map (Pair.move sign), Small sign t := by
    intro t ht
    obtain ⟨p, -, rfl⟩ := List.mem_map.1 ht
    exact small_move sign p
  have hle := @cost_le sign ⟨0, 0⟩ _ _ _ _ hsmall h (by simp) (Nat.le_refl _)
  have hzero : spent sign 0 0 = 0 := if_pos ⟨rfl, rfl⟩
  simp only [Nat.sub_self, Int.sub_self, hzero, Nat.zero_add, List.length_map] at hle
  rw [← bytes_of_pairs? hps, length_bytes]
  omega

/-- An encoded table takes just two bytes for each pair that its runs cost. -/
lemma length_of_encode {sign : SignConvention} {table : List UInt8} {firstLine : UInt32}
    {starts : List LineStart} {rs : List Run} (h : encode sign starts firstLine = .ok table)
    (hrs : runs sign table = .ok rs) : table.length = 2 * cost sign ⟨0, 0⟩ rs := by
  obtain ⟨ts, hts, hw, rfl⟩ := isCanonical_iff.1 (isCanonical_of_encode h)
  rw [runs_encodeTransitions hw] at hrs
  rw [length_bytes, cost_of_proper hts hrs]

/-- **The encoded table is a shortest one.** The line starts that a table decodes to can be encoded;
the new table decodes to them again, and no table that does is shorter.

**Proof sketch.** All tables that decode to these starts have the same runs (`runs_of_decode`). Each
takes two bytes for every pair that the runs cost (`cost_le_length`), and the encoded one takes no
more (`length_of_encode`). -/
theorem encode_minimal {sign : SignConvention} {table : List UInt8} {firstLine : UInt32}
    {starts : List LineStart} (h : decode sign table firstLine = .ok starts) :
    ∃ shortest, encode sign starts firstLine = .ok shortest ∧
      decode sign shortest firstLine = .ok starts ∧ shortest.length ≤ table.length ∧
      ∀ other, decode sign other firstLine = .ok starts → shortest.length ≤ other.length := by
  obtain ⟨shortest, hencode, hdecode⟩ := exists_encode_of_decode h
  have hlength := length_of_encode hencode (runs_of_decode hdecode)
  have hleast : ∀ other, decode sign other firstLine = .ok starts →
      shortest.length ≤ other.length := by
    intro other hother
    rw [hlength]
    exact cost_le_length (runs_of_decode hother)
  exact ⟨shortest, hencode, hdecode, hleast table h, hleast⟩

/-- A table with a pair that does nothing, line changes that go back and forth and an advance cut in
pieces takes ten bytes where six are enough. -/
theorem encode_minimal_detour :
    decode .signed [0, 0, 0, 5, 0, 252, 200, 0, 100, 130] 200 = .ok [⟨0, 201⟩, ⟨300, 75⟩] ∧
      ∃ shortest, encode .signed [⟨0, 201⟩, ⟨300, 75⟩] 200 = .ok shortest ∧
        shortest.length = 6 ∧
        ∀ other, decode .signed other 200 = .ok [⟨0, 201⟩, ⟨300, 75⟩] → 6 ≤ other.length := by
  have hdecode : decode .signed [0, 0, 0, 5, 0, 252, 200, 0, 100, 130] 200 =
      .ok [⟨0, 201⟩, ⟨300, 75⟩] := by decide
  have hencode : encode .signed [⟨0, 201⟩, ⟨300, 75⟩] 200 = .ok [0, 1, 255, 0, 45, 130] := by
    decide
  obtain ⟨shortest, hshortest, -, -, hleast⟩ := encode_minimal hdecode
  obtain rfl := Except.ok.inj (hencode.symm.trans hshortest)
  exact ⟨hdecode, _, hencode, rfl, hleast⟩

end CoverProbe.LineTable
