import Mathlib.Algebra.BigOperators.Group.List.Basic
import Mathlib.Tactic.Ring
import CoverProbe.LineTable.Codec
import CoverProbe.Proofs.Word

set_option relaxedAutoImplicit false
set_option autoImplicit false

/-!
# Encoded tables as moves

A pair of an encoded table is itself a transition: it moves by its advance and by the line change
that its byte is read as. So decoding can be told on transitions, and there the canonical pairs of
a transition act like the transition they split.

## Main definitions

* `CoverProbe.LineTable.Pair.move` — the transition that a pair is.
* `CoverProbe.LineTable.runsAlong` — the runs met along a list of transitions.

## Main results

* `CoverProbe.LineTable.runsFrom_eq_runsAlong` — decoding pairs is following their moves.
* `CoverProbe.LineTable.runsAlong_pairsOf` — the canonical pairs of a transition act like it.
-/

namespace CoverProbe.LineTable

/-- The transition that a pair is. -/
def Pair.move (sign : SignConvention) (p : Pair) : Transition :=
  ⟨UInt32.ofNat p.advance.toNat, sign.read p.change⟩

/-- The runs met along transitions behind the open run `run`; `last` is the line reported last. A
transition that advances closes the open run. -/
def runsAlong (run : Run) (last : Option Int) : List Transition → Except Fault (List Run)
  | [] => .ok (run.report last)
  | t :: rest =>
    let line := run.line + t.lineDelta
    if t.offsetDelta = 0 then runsAlong ⟨run.offset, line⟩ last rest
    else
      match Word.ofNat? (run.offset.toNat + t.offsetDelta.toNat) with
      | none => .error (.lineTable .offsetOutOfRange)
      | some offset => do
        let tail ← runsAlong ⟨offset, line⟩ (some run.line) rest
        return run.report last ++ tail

/-- A pair moves by the number its advance byte holds. -/
lemma Pair.toNat_move_offsetDelta (sign : SignConvention) (p : Pair) :
    (p.move sign).offsetDelta.toNat = p.advance.toNat := by
  have h := p.advance.toNat_lt
  rw [Pair.move, Word.toNat_ofNat_of_fits (by omega)]

/-- A pair advances exactly when its move does. -/
lemma Pair.move_offsetDelta_eq_zero_iff (sign : SignConvention) (p : Pair) :
    (p.move sign).offsetDelta = 0 ↔ p.advance = 0 := by
  rw [← UInt32.toNat_inj, ← UInt8.toNat_inj, Pair.toNat_move_offsetDelta]
  rfl

/-- **Decoding pairs is following their moves.** -/
theorem runsFrom_eq_runsAlong (sign : SignConvention) (run : Run) (last : Option Int)
    (ps : List Pair) :
    runsFrom sign run last ps = runsAlong run last (ps.map (Pair.move sign)) := by
  induction ps generalizing run last with
  | nil => rfl
  | cons p ps ih =>
    rw [List.map_cons, runsFrom, runsAlong]
    simp only [Pair.move_offsetDelta_eq_zero_iff, Pair.toNat_move_offsetDelta, ih]
    rfl

/-- Transitions that meet the same runs do so behind any transition. -/
lemma runsAlong_cons_congr {xs ys : List Transition}
    (h : ∀ run last, runsAlong run last xs = runsAlong run last ys) (t : Transition) (run : Run)
    (last : Option Int) : runsAlong run last (t :: xs) = runsAlong run last (t :: ys) := by
  simp only [runsAlong, h]

/-! ## Splitting a transition -/

/-- The line steps behind a transition add up. -/
lemma runsAlong_line_steps (run : Run) (last : Option Int) (t : Transition) (ks : List Int)
    (rest : List Transition) :
    runsAlong run last (t :: (ks.map fun k => ⟨0, k⟩) ++ rest) =
      runsAlong run last (⟨t.offsetDelta, t.lineDelta + ks.sum⟩ :: rest) := by
  induction ks generalizing t with
  | nil => simp
  | cons k ks ih =>
    have hstep : runsAlong run last (t :: ⟨0, k⟩ :: (ks.map fun k => ⟨0, k⟩) ++ rest) =
        runsAlong run last
          (⟨t.offsetDelta, t.lineDelta + k⟩ :: (ks.map fun k => ⟨0, k⟩) ++ rest) := by
      simp only [List.cons_append, runsAlong, if_true]
      rw [Int.add_assoc]
    rw [List.map_cons, hstep, ih, List.sum_cons, Int.add_assoc]

/-- An advance that keeps the line belongs to the advance behind it, if the two together are still
a word: the run between them lies on the line reported last. -/
lemma runsAlong_advance (run : Run) (last : Option Int) {a b c : UInt32} (k : Int)
    (rest : List Transition) (ha : a ≠ 0) (hb : b ≠ 0) (hc : c.toNat = a.toNat + b.toNat) :
    runsAlong run last (⟨a, 0⟩ :: ⟨b, k⟩ :: rest) = runsAlong run last (⟨c, k⟩ :: rest) := by
  have ha' : 0 < a.toNat := Nat.pos_of_ne_zero fun h => ha (UInt32.toNat_inj.1 h)
  have hc0 : c ≠ 0 := by
    rintro rfl
    simp only [UInt32.toNat_zero] at hc
    omega
  simp only [runsAlong, ha, hb, hc0, if_false, Int.add_zero]
  cases h₁ : Word.ofNat? (run.offset.toNat + a.toNat) with
  | none =>
    have h₂ : Word.ofNat? (run.offset.toNat + c.toNat) = none := by
      unfold Word.ofNat? at h₁ ⊢
      split at h₁
      · simp at h₁
      · rw [if_neg (by omega)]
    simp only [h₂]
  | some o =>
    have ho := Word.ofNat?_eq_some_iff.1 h₁
    rw [hc, ← Nat.add_assoc, ho]
    dsimp only
    cases Word.ofNat? (o.toNat + b.toNat) with
    | none => rfl
    | some o' => simp only [Run.report, if_true, List.nil_append, bind_pure]

/-- The full advances before a transition add up with its own. -/
lemma runsAlong_advances (n : Nat) {b c : UInt32} (k : Int) (rest : List Transition)
    (hb : n = 0 ∨ b ≠ 0) (hc : c.toNat = 255 * n + b.toNat) (run : Run) (last : Option Int) :
    runsAlong run last (List.replicate n ⟨255, 0⟩ ++ ⟨b, k⟩ :: rest) =
      runsAlong run last (⟨c, k⟩ :: rest) := by
  induction n generalizing c run last with
  | zero =>
    obtain rfl : c = b := UInt32.toNat_inj.1 (by omega)
    rfl
  | succ n ih =>
    have hlt := c.toNat_lt
    have hb0 : b ≠ 0 := hb.resolve_left n.succ_ne_zero
    have hb0' : b.toNat ≠ 0 := fun h => hb0 (UInt32.toNat_inj.1 h)
    have hm : (UInt32.ofNat (255 * n + b.toNat)).toNat = 255 * n + b.toNat :=
      Word.toNat_ofNat_of_fits (by omega)
    have hm0 : UInt32.ofNat (255 * n + b.toNat) ≠ 0 := by
      intro h
      rw [h, UInt32.toNat_zero] at hm
      omega
    rw [List.replicate_succ, List.cons_append,
      runsAlong_cons_congr (fun run last => ih (.inr hb0) hm run last)]
    refine runsAlong_advance run last k rest (by decide) hm0 ?_
    rw [hm, hc]
    show 255 * (n + 1) + b.toNat = 255 + (255 * n + b.toNat)
    omega

/-! ## The canonical pairs of a transition -/

/-- Can the line change of a transition be written? Unsigned line bytes do not step back. -/
def Writable (sign : SignConvention) (t : Transition) : Prop :=
  sign = .unsigned → 0 ≤ t.lineDelta

/-- A remainder that keeps the sign of a negative number. -/
lemma tmod_of_neg {a : Int} (b : Int) (h : a < 0) : a.tmod b = -((-a) % b) := by
  rw [← Int.tmod_eq_emod_of_nonneg (by omega), Int.neg_tmod, Int.neg_neg]

/-- The steps of a line change add up to it. -/
lemma sum_steps (sign : SignConvention) (delta : Int) : (steps sign delta).sum = delta := by
  have hsum : ∀ (n : Nat) (b r : Int),
      (List.replicate n b ++ if r = 0 then [] else [r]).sum = n * b + r := by
    intro n b r
    rw [List.sum_append, List.sum_replicate, nsmul_eq_mul]
    split_ifs with hr
    · simp [hr]
    · simp
  rw [steps, hsum]
  by_cases h : delta < 0
  · rw [if_pos h, tmod_of_neg _ h]
    cases sign with
    | signed =>
      show ((delta.natAbs / 128 : Nat) : Int) * -128 + -(-delta % -128) = delta
      rw [Int.emod_neg]
      omega
    | unsigned =>
      show ((delta.natAbs / 0 : Nat) : Int) * 0 + -(-delta % 0) = delta
      omega
  · rw [if_neg h, Int.tmod_eq_emod_of_nonneg (by omega)]
    cases sign with
    | signed =>
      show ((delta.natAbs / 127 : Nat) : Int) * 127 + delta % 127 = delta
      omega
    | unsigned =>
      show ((delta.natAbs / 255 : Nat) : Int) * 255 + delta % 255 = delta
      omega

/-- The steps of a line change that can be written fit a line byte. -/
lemma bounds_of_mem_steps {sign : SignConvention} {t : Transition} (ht : Writable sign t) {k : Int}
    (hk : k ∈ steps sign t.lineDelta) : sign.low ≤ k ∧ k ≤ sign.high := by
  rw [steps, List.mem_append, List.mem_replicate] at hk
  have hk' : k = (if t.lineDelta < 0 then sign.low else sign.high) ∨
      k = t.lineDelta.tmod (if t.lineDelta < 0 then sign.low else sign.high) := by
    rcases hk with ⟨-, hk⟩ | hk
    · exact .inl hk
    · split_ifs at hk ⊢ <;> simp_all
  by_cases h : t.lineDelta < 0
  · rw [if_pos h, tmod_of_neg _ h] at hk'
    cases sign with
    | signed =>
      simp only [SignConvention.low, SignConvention.high, Int.emod_neg] at hk' ⊢
      omega
    | unsigned => exact absurd (ht rfl) (by omega)
  · rw [if_neg h, Int.tmod_eq_emod_of_nonneg (by omega)] at hk'
    cases sign <;> simp only [SignConvention.low, SignConvention.high] at hk' ⊢ <;> omega

/-- What the full advances leave of an offset delta. -/
def restAdvance (delta : UInt32) : Nat :=
  delta.toNat - 255 * fullAdvances delta

/-- The full advances and the rest make up the offset delta. The rest fits a byte, and is not zero
behind full advances. -/
lemma advance_split (delta : UInt32) :
    delta.toNat = 255 * fullAdvances delta + restAdvance delta ∧ restAdvance delta ≤ 255 ∧
      (fullAdvances delta = 0 ∨ restAdvance delta ≠ 0) := by
  simp only [restAdvance, fullAdvances]
  omega

/-- The move of a pair that writes a step of a line change. -/
lemma move_write {sign : SignConvention} {a : Nat} (ha : a ≤ 255) {k : Int}
    (hk : sign.low ≤ k ∧ k ≤ sign.high) :
    Pair.move sign ⟨UInt8.ofNat a, sign.write k⟩ = ⟨UInt32.ofNat a, k⟩ := by
  rw [Pair.move, SignConvention.read_write sign hk.1 hk.2, UInt8.toNat_ofNat',
    Nat.mod_eq_of_lt (by omega)]

/-- The moves of a transition's canonical pairs: full advances, the rest of the advance with the
first line step, and the further line steps. -/
lemma map_move_pairsOf {sign : SignConvention} {t : Transition} (ht : Writable sign t) :
    (pairsOf sign t).map (Pair.move sign) =
      List.replicate (fullAdvances t.offsetDelta) ⟨255, 0⟩ ++
        match steps sign t.lineDelta with
        | [] =>
          if restAdvance t.offsetDelta = 0 then []
          else [⟨UInt32.ofNat (restAdvance t.offsetDelta), 0⟩]
        | k :: ks =>
          ⟨UInt32.ofNat (restAdvance t.offsetDelta), k⟩ :: ks.map fun k => ⟨0, k⟩ := by
  have hrest := (advance_split t.offsetDelta).2.1
  have hread := fun k hk => bounds_of_mem_steps ht (k := k) hk
  have hzero : ∀ a : Nat, a ≤ 255 → Pair.move sign ⟨UInt8.ofNat a, 0⟩ = ⟨UInt32.ofNat a, 0⟩ := by
    intro a ha
    have hb : sign.low ≤ 0 ∧ 0 ≤ sign.high := by cases sign <;> decide
    exact move_write ha hb
  have hfull : ∀ n, (List.replicate n (⟨255, 0⟩ : Pair)).map (Pair.move sign) =
      List.replicate n ⟨255, 0⟩ := by
    intro n
    rw [List.map_replicate]
    exact congrArg _ (hzero 255 le_rfl)
  rw [pairsOf, restAdvance] at *
  cases hs : steps sign t.lineDelta with
  | nil =>
    dsimp only
    rw [List.map_append, hfull]
    split_ifs with h
    · rfl
    · rw [List.map_singleton, hzero _ hrest]
  | cons k ks =>
    dsimp only
    rw [List.map_append, hfull, List.map_cons,
      move_write hrest (hread k (by rw [hs]; exact List.mem_cons_self)), List.map_map]
    congr 2
    refine List.map_congr_left fun j hj => ?_
    exact move_write (a := 0) (by omega) (hread j (by rw [hs]; exact List.mem_cons_of_mem k hj))

/-- **The canonical pairs of a transition act like it.**

**Proof sketch.** The pairs behind the first line step do not advance, so their steps add up
(`runsAlong_line_steps`) to the line change (`sum_steps`). The pairs in front of it advance fully
(`runsAlong_advances`) and leave at least one byte, so the run before them is closed once. Without
line steps only the advance remains. -/
theorem runsAlong_pairsOf {sign : SignConvention} {t : Transition} (ht : Writable sign t)
    (run : Run) (last : Option Int) (rest : List Transition) :
    runsAlong run last ((pairsOf sign t).map (Pair.move sign) ++ rest) =
      runsAlong run last (t :: rest) := by
  obtain ⟨hsplit, hbyte, hpos⟩ := advance_split t.offsetDelta
  set r := restAdvance t.offsetDelta
  have hr : (UInt32.ofNat r).toNat = r := Word.toNat_ofNat_of_fits (by omega)
  have hr0 : fullAdvances t.offsetDelta = 0 ∨ UInt32.ofNat r ≠ 0 := by
    refine hpos.imp_right fun h h0 => h ?_
    rw [← hr, h0]
    rfl
  have hjoin := fun k rest =>
    runsAlong_advances (fullAdvances t.offsetDelta) (c := t.offsetDelta) k rest hr0
      (by rw [hr]; exact hsplit) run last
  have hsum := sum_steps sign t.lineDelta
  rw [map_move_pairsOf ht]
  cases hs : steps sign t.lineDelta with
  | nil =>
    rw [hs, List.sum_nil] at hsum
    have ht0 : t = ⟨t.offsetDelta, 0⟩ := by rw [hsum]
    by_cases h : r = 0
    · have hn := hpos.resolve_right fun h' => h' h
      have ho : t.offsetDelta = 0 := UInt32.toNat_inj.1 (by rw [hsplit, hn, h]; rfl)
      rw [ht0, hn, if_pos h]
      simp [runsAlong, ho]
    · rw [if_neg h, List.append_assoc, List.singleton_append, hjoin, ← ht0]
  | cons k ks =>
    rw [hs, List.sum_cons] at hsum
    have hline := runsAlong_line_steps run last ⟨t.offsetDelta, k⟩ ks rest
    rw [List.append_assoc, List.cons_append, hjoin, ← List.cons_append, hline, hsum]

end CoverProbe.LineTable
