import Mathlib.Data.List.Chain
import Mathlib.Data.Set.Function
import CoverProbe.Proofs.Weave.Body

set_option relaxedAutoImplicit false
set_option autoImplicit false

/-!
# Control flow of woven code

Control goes from an instruction to the next one, or to the one it jumps to. A probe only lets
control fall through to its instruction, and a jump leads to the probe of its target; so the control
paths of woven code are those of the old code with the probes of their sites put in.

## Main definitions

* `CoverProbe.Control.Edge`, `CoverProbe.Control.IsPath` — control edges and control paths of a
  stream.
* `CoverProbe.Weave.erase`, `CoverProbe.Weave.enter` — a path without its probes, and with them.
* `CoverProbe.Weave.Rewired` — new code whose jumps follow the old ones.
* `CoverProbe.Weave.FlowPreserved` — what it means that control flow is preserved.

## Main results

* `CoverProbe.Weave.Rewired.flowPreserved` — rewired code preserves control flow.
* `CoverProbe.Weaver.flow_preserved` — weaving preserves control flow.
-/

namespace CoverProbe

/-! ## Control paths -/

namespace Control

/-- How control came to an instruction. -/
inductive Arrival
  /-- The code was entered. -/
  | start
  | fallthrough
  | jump
deriving DecidableEq, Repr

/-- An instruction that control came to, by its number; the number of instructions stands for the
exit. -/
structure Visit where
  arrival : Arrival
  index : Nat
deriving DecidableEq, Repr

/-- The control edges that leave instruction number `k` of a stream that ends at offset `stop`: to
the next instruction, and to the one at the target of a jump. -/
inductive Edge (isa : InstructionSet) (insns : List Instruction) (stop k : Nat) : Visit → Prop
  | fallthrough (hk : k < insns.length) : Edge isa insns stop k ⟨.fallthrough, k + 1⟩
  | jump {i : Instruction} {target j : Nat} (hi : insns[k]? = some i)
      (ht : isa.jumpTarget i = some target) (hl : InstructionSet.Lands insns stop target j) :
      Edge isa insns stop k ⟨.jump, j⟩

/-- A control path of a stream from its first instruction on. -/
def IsPath (isa : InstructionSet) (insns : List Instruction) (stop : Nat) (path : List Visit) :
    Prop :=
  path.head? = some ⟨.start, 0⟩ ∧ path.IsChain fun v w => Edge isa insns stop v.index w

end Control

namespace Weave

open Control

/-! ## Erasing probes -/

/-- Is this a visit to the probe of a site? -/
def OnProbe (sites : List Nat) (v : Visit) : Prop :=
  ∃ k ∈ sites, landAt sites k = v.index

instance (sites : List Nat) (v : Visit) : Decidable (OnProbe sites v) :=
  inferInstanceAs (Decidable (∃ k ∈ sites, landAt sites k = v.index))

/-- The old number of what stands at `v` in new code, if that is not a probe. -/
def origin? (sites : List Nat) (v : Nat) : Option Nat :=
  (List.range (v + 1)).find? fun k => seatAt sites k = v

/-- A path of new code without its visits to probes, told in old numbers. How control came to a
probe is how it comes to what the probe falls through to; `held` is how it came to the probe
before. -/
def eraseFrom (sites : List Nat) (held : Option Arrival) : List Visit → List Visit
  | [] => []
  | v :: rest =>
    match origin? sites v.index with
    | some k => ⟨held.getD v.arrival, k⟩ :: eraseFrom sites none rest
    | none => eraseFrom sites (some (held.getD v.arrival)) rest

/-- A path of new code without its visits to probes, told in old numbers. -/
def erase (sites : List Nat) (path : List Visit) : List Visit :=
  eraseFrom sites none path

/-- The visits of new code for a visit of old code: to the probe first, if there is one. -/
def enter (sites : List Nat) (v : Visit) : List Visit :=
  ⟨v.arrival, landAt sites v.index⟩ ::
    if v.index ∈ sites then [⟨.fallthrough, seatAt sites v.index⟩] else []

section Erasure

variable {sites : List Nat} {v k : Nat}

/-- The old number is that of the instruction that stands there. -/
lemma origin?_eq_some_iff : origin? sites v = some k ↔ seatAt sites k = v := by
  constructor
  · intro h
    rw [origin?] at h
    simpa using List.find?_some h
  · rintro rfl
    have hle : k ≤ seatAt sites k :=
      Nat.le_trans (Nat.le_add_right _ _) (landAt_le_seatAt sites k)
    cases ho : origin? sites (seatAt sites k) with
    | none =>
      have hnone := List.find?_eq_none.1 ho k (List.mem_range.2 (by omega))
      simp at hnone
    | some j =>
      rw [origin?] at ho
      have hj : seatAt sites j = seatAt sites k := by simpa using List.find?_some ho
      rw [seatAt_inj sites hj]

/-- Only probes have no old number. -/
lemma origin?_eq_none_iff {v : Visit} : origin? sites v.index = none ↔ OnProbe sites v := by
  constructor
  · intro h
    have hlt : v.index < landAt sites (v.index + 1) :=
      Nat.lt_of_lt_of_le (Nat.lt_succ_self _) (Nat.le_add_right _ _)
    rcases seat_or_probe sites hlt with ⟨k, -, hk⟩ | ⟨k, -, hk, hkv⟩
    · rw [origin?_eq_some_iff.2 hk.symm] at h
      simp at h
    · exact ⟨k, hk, hkv.symm⟩
  · rintro ⟨k, hk, hkv⟩
    cases ho : origin? sites v.index with
    | none => rfl
    | some j =>
      exact absurd ((origin?_eq_some_iff.1 ho).trans hkv.symm) (seatAt_ne_landAt sites hk j)

/-- Erasing the visits put in for an old visit gives that visit back. -/
lemma erase_enter_append (v : Visit) (rest : List Visit) :
    eraseFrom sites none (enter sites v ++ rest) = v :: eraseFrom sites none rest := by
  by_cases hs : v.index ∈ sites
  · have hprobe : origin? sites (landAt sites v.index) = none :=
      origin?_eq_none_iff (v := ⟨v.arrival, landAt sites v.index⟩) |>.2 ⟨v.index, hs, rfl⟩
    have hseat : origin? sites (seatAt sites v.index) = some v.index := origin?_eq_some_iff.2 rfl
    simp only [enter, if_pos hs, List.cons_append, List.nil_append, eraseFrom, hprobe, hseat,
      Option.getD_none, Option.getD_some]
  · have hseat : origin? sites (landAt sites v.index) = some v.index :=
      origin?_eq_some_iff.2 (seatAt_of_not_mem sites hs)
    simp only [enter, if_neg hs, List.cons_append, List.nil_append, eraseFrom, hseat,
      Option.getD_none]

/-- **Erasing the probes put into a path gives the path back.** -/
theorem erase_flatMap_enter (path : List Visit) :
    erase sites (path.flatMap (enter sites)) = path := by
  induction path with
  | nil => rfl
  | cons v rest ih =>
    rw [List.flatMap_cons, erase, erase_enter_append]
    exact congrArg (v :: ·) ih

/-- The last visit put in for an old visit is to the instruction itself. -/
lemma getLast?_enter (sites : List Nat) (v : Visit) :
    ∃ arrival, (enter sites v).getLast? = some ⟨arrival, seatAt sites v.index⟩ := by
  by_cases hs : v.index ∈ sites
  · exact ⟨.fallthrough, by simp [enter, hs]⟩
  · exact ⟨v.arrival, by simp [enter, hs, seatAt_of_not_mem sites hs]⟩

/-- The visits that are kept are to the instructions of the old ones. -/
lemma forall₂_eraseFrom (held : Option Arrival) (path : List Visit) :
    List.Forall₂ (fun v w => v.index = seatAt sites w.index)
      (path.filter fun v => ¬ OnProbe sites v) (eraseFrom sites held path) := by
  induction path generalizing held with
  | nil => exact .nil
  | cons v rest ih =>
    rw [eraseFrom]
    cases ho : origin? sites v.index with
    | none =>
      have hp := origin?_eq_none_iff.1 ho
      rw [List.filter_cons_of_neg (by simpa using hp)]
      exact ih _
    | some k =>
      have hp : ¬ OnProbe sites v := fun h => by simp [origin?_eq_none_iff.2 h] at ho
      rw [List.filter_cons_of_pos (by simpa using hp)]
      exact .cons (origin?_eq_some_iff.1 ho).symm (ih none)

end Erasure

/-! ## Rewired code -/

/-- Is the last visit of a path to the probe of a site? -/
def EndsOnProbe (sites : List Nat) (path : List Visit) : Prop :=
  ∃ v, path.getLast? = some v ∧ OnProbe sites v

/-- New code `out`, ending at `newStop`, whose jumps follow those of the old code `insns`, ending at
`stop`: every jump leads to what it led to, or to the probe of that. -/
structure Rewired (isa : InstructionSet) (sites : List Nat) (insns out : List Instruction)
    (stop newStop : Nat) : Prop where
  sites_lt : ∀ k ∈ sites, k < insns.length
  length_eq : out.length = landAt sites insns.length
  follows : ∀ {k : Nat} {i : Instruction}, insns[k]? = some i →
    ∃ moved, Seated isa sites out k i moved ∧
      ((isa.jumpTarget i = none ∧ isa.jumpTarget moved = none) ∨
        ∃ target landing j, isa.jumpTarget i = some target ∧
          isa.jumpTarget moved = some landing ∧ InstructionSet.Lands insns stop target j ∧
          InstructionSet.Lands out newStop landing (landAt sites j))
  probe_bare : ∀ token offset line, isa.jumpTarget ((isa.probe token).place offset line) = none
  lands_unique : ∀ {target j k : Nat}, InstructionSet.Lands insns stop target j →
    InstructionSet.Lands insns stop target k → j = k
  newLands_unique : ∀ {target j k : Nat}, InstructionSet.Lands out newStop target j →
    InstructionSet.Lands out newStop target k → j = k

variable {isa : InstructionSet} {sites : List Nat} {insns out : List Instruction}
  {stop newStop : Nat}

namespace Rewired

/-- An instruction stands in the new code if it stood in the old. -/
lemma seatAt_lt_length (h : Rewired isa sites insns out stop newStop) {k : Nat} :
    seatAt sites k < out.length ↔ k < insns.length := by
  rw [h.length_eq]
  constructor
  · intro hlt
    by_contra hge
    rcases Nat.eq_or_lt_of_le (Nat.not_lt.1 hge) with heq | hlt'
    · have := landAt_le_seatAt sites k
      rw [heq] at hlt
      omega
    · have h₁ := seatAt_lt_landAt sites hlt'
      have h₂ := landAt_le_seatAt sites k
      have h₃ := landAt_le_seatAt sites insns.length
      omega
  · exact seatAt_lt_landAt sites

/-- **Edges from a moved instruction are those of the old one**, and lead where a jump to their old
end leads. -/
lemma edge_seatAt_iff (h : Rewired isa sites insns out stop newStop) {k : Nat} {x : Visit} :
    Edge isa out newStop (seatAt sites k) x ↔
      ∃ w, x = ⟨w.arrival, landAt sites w.index⟩ ∧ Edge isa insns stop k w := by
  constructor
  · rintro (hk | ⟨hi, ht, hl⟩)
    · refine ⟨⟨.fallthrough, k + 1⟩, ?_, .fallthrough (h.seatAt_lt_length.1 hk)⟩
      rw [landAt_succ]
    · have hlt := h.seatAt_lt_length.1 (List.getElem?_eq_some_iff.1 hi).1
      have hk := List.getElem?_eq_getElem hlt
      obtain ⟨moved, hseat, hjump⟩ := h.follows hk
      obtain rfl := Option.some.inj (hseat.seat.symm.trans hi)
      rcases hjump with ⟨-, hnone⟩ | ⟨target, landing, j, htarget, hlanding, hold, hnew⟩
      · rw [hnone] at ht
        simp at ht
      · obtain rfl := Option.some.inj (hlanding.symm.trans ht)
        refine ⟨⟨.jump, j⟩, ?_, .jump hk htarget hold⟩
        rw [h.newLands_unique hl hnew]
  · rintro ⟨w, rfl, hk | ⟨hi, ht, hl⟩⟩
    · rw [landAt_succ]
      exact .fallthrough (h.seatAt_lt_length.2 hk)
    · obtain ⟨moved, hseat, hjump⟩ := h.follows hi
      rcases hjump with ⟨hnone, -⟩ | ⟨target, landing, j, htarget, hlanding, hold, hnew⟩
      · rw [hnone] at ht
        simp at ht
      · obtain rfl := Option.some.inj (htarget.symm.trans ht)
        obtain rfl := h.lands_unique hold hl
        exact .jump hseat.seat hlanding hnew

/-- From a probe control only falls through, to its instruction. -/
lemma edge_landAt_iff (h : Rewired isa sites insns out stop newStop) {k : Nat} (hk : k ∈ sites)
    {x : Visit} :
    Edge isa out newStop (landAt sites k) x ↔ x = ⟨.fallthrough, seatAt sites k⟩ := by
  have hseat := seatAt_of_mem sites hk
  have hlt := h.sites_lt k hk
  constructor
  · rintro (hfall | ⟨hi, ht, hl⟩)
    · rw [hseat]
    · obtain ⟨moved, hmoved, -⟩ := h.follows (List.getElem?_eq_getElem hlt)
      obtain ⟨token, offset, hprobe⟩ := hmoved.probe hk
      obtain rfl := Option.some.inj (hprobe.symm.trans hi)
      rw [h.probe_bare] at ht
      simp at ht
  · rintro rfl
    rw [hseat]
    refine .fallthrough ?_
    rw [h.length_eq]
    exact Nat.lt_of_le_of_lt (landAt_le_seatAt sites k) (seatAt_lt_landAt sites hlt)

/-- Control comes to the instruction of a site by falling through its probe, and in no other way. -/
lemma edge_to_seatAt (h : Rewired isa sites insns out stop newStop) {k v : Nat} (hk : k ∈ sites)
    {x : Visit} (hx : x.index = seatAt sites k) (he : Edge isa out newStop v x) :
    x.arrival = .fallthrough ∧ v = landAt sites k := by
  have hv : v < out.length := by
    rcases he with hv | ⟨hi, -, -⟩
    · exact hv
    · exact (List.getElem?_eq_some_iff.1 hi).1
  rw [h.length_eq] at hv
  rcases seat_or_probe sites hv with ⟨j, -, rfl⟩ | ⟨j, -, hj, rfl⟩
  · -- No edge of a moved instruction leads behind a probe.
    obtain ⟨w, rfl, -⟩ := h.edge_seatAt_iff.1 he
    have hw : landAt sites w.index = seatAt sites k := hx
    have hseat := seatAt_of_mem sites hk
    rcases Nat.lt_trichotomy w.index k with hlt | heq | hlt
    · have h₁ := seatAt_lt_landAt sites hlt
      have h₂ := landAt_le_seatAt sites w.index
      omega
    · rw [heq] at hw
      omega
    · have := seatAt_lt_landAt sites hlt
      omega
  · obtain rfl := (h.edge_landAt_iff hj).1 he
    rw [seatAt_inj sites hx]
    exact ⟨rfl, rfl⟩

/-! ## Paths with and without probes -/

/-- The visits put in for an old visit are joined by an edge. -/
lemma isChain_enter (h : Rewired isa sites insns out stop newStop) (v : Visit) :
    (enter sites v).IsChain fun v w => Edge isa out newStop v.index w := by
  rw [enter]
  split_ifs with hs
  · exact List.isChain_pair.2 ((h.edge_landAt_iff hs).2 rfl)
  · exact List.isChain_singleton _

/-- An old path with its probes put in is a path of new code. -/
lemma isChain_flatMap_enter (h : Rewired isa sites insns out stop newStop) {path : List Visit}
    (hp : path.IsChain fun v w => Edge isa insns stop v.index w) :
    (path.flatMap (enter sites)).IsChain fun v w => Edge isa out newStop v.index w := by
  induction path with
  | nil => exact List.isChain_nil
  | cons v rest ih =>
    obtain ⟨hhead, hrest⟩ := List.isChain_cons.1 hp
    rw [List.flatMap_cons]
    refine List.isChain_append.2 ⟨h.isChain_enter v, ih hrest, fun x hx y hy => ?_⟩
    cases rest with
    | nil => simp at hy
    | cons w rest =>
      obtain ⟨arrival, hlast⟩ := getLast?_enter sites v
      obtain rfl : (⟨arrival, seatAt sites v.index⟩ : Visit) = x :=
        Option.some.inj (hlast.symm.trans hx)
      obtain rfl : (⟨w.arrival, landAt sites w.index⟩ : Visit) = y := Option.some.inj hy
      exact h.edge_seatAt_iff.2 ⟨w, rfl, hhead w rfl⟩

/-- A path of new code that begins where a jump to an old instruction leads, and does not end on a
probe, is an old path with its probes put in.

**Proof sketch.** Induction on the length of the path. If it begins on a probe, its next visit is to
the instruction of that (`edge_landAt_iff`). Behind the instruction it begins again where a jump to
some old instruction leads, by an edge of the old code (`edge_seatAt_iff`). -/
lemma exists_flatMap_enter (h : Rewired isa sites insns out stop newStop) (n : Nat) {k : Nat}
    {arrival : Arrival} {rest : List Visit} (hn : rest.length ≤ n)
    (hp : (⟨arrival, landAt sites k⟩ :: rest).IsChain fun v w => Edge isa out newStop v.index w)
    (hend : ¬ EndsOnProbe sites (⟨arrival, landAt sites k⟩ :: rest)) :
    ∃ old, (⟨arrival, k⟩ :: old).flatMap (enter sites) = ⟨arrival, landAt sites k⟩ :: rest ∧
      (⟨arrival, k⟩ :: old).IsChain fun v w => Edge isa insns stop v.index w := by
  induction n generalizing k arrival rest with
  | zero =>
    obtain rfl := List.length_eq_zero_iff.1 (Nat.le_zero.1 hn)
    have hs : k ∉ sites := fun hs => hend ⟨_, rfl, k, hs, rfl⟩
    exact ⟨[], by simp [enter, hs], List.isChain_singleton _⟩
  | succ n ih =>
    -- The path goes on behind the instruction itself.
    have hbehind : ∀ (arrival' : Arrival) (more : List Visit), more.length ≤ n + 1 →
        (⟨arrival', seatAt sites k⟩ :: more).IsChain
          (fun v w => Edge isa out newStop v.index w) →
        ¬ EndsOnProbe sites (⟨arrival', seatAt sites k⟩ :: more) →
        ∃ old, old.flatMap (enter sites) = more ∧
          (⟨arrival, k⟩ :: old).IsChain fun v w => Edge isa insns stop v.index w := by
      intro arrival' more hlen hchain hends
      cases more with
      | nil => exact ⟨[], rfl, List.isChain_singleton _⟩
      | cons x more =>
        obtain ⟨hedge, hmore⟩ := List.isChain_cons_cons.1 hchain
        obtain ⟨w, rfl, hold⟩ := h.edge_seatAt_iff.1 hedge
        have hends' : ¬ EndsOnProbe sites (⟨w.arrival, landAt sites w.index⟩ :: more) := by
          rintro ⟨v, hv, hprobe⟩
          exact hends ⟨v, by rw [List.getLast?_cons_cons]; exact hv, hprobe⟩
        obtain ⟨old, heq, hchain'⟩ := ih (by simpa using hlen) hmore hends'
        exact ⟨⟨w.arrival, w.index⟩ :: old, heq, List.isChain_cons_cons.2 ⟨hold, hchain'⟩⟩
    by_cases hs : k ∈ sites
    · cases rest with
      | nil => exact absurd ⟨_, rfl, k, hs, rfl⟩ hend
      | cons x more =>
        obtain ⟨hedge, hmore⟩ := List.isChain_cons_cons.1 hp
        obtain rfl := (h.edge_landAt_iff hs).1 hedge
        have hends : ¬ EndsOnProbe sites (⟨.fallthrough, seatAt sites k⟩ :: more) := by
          rintro ⟨v, hv, hprobe⟩
          exact hend ⟨v, by rw [List.getLast?_cons_cons]; exact hv, hprobe⟩
        rw [List.length_cons] at hn
        obtain ⟨old, heq, hchain⟩ := hbehind _ more (by omega) hmore hends
        refine ⟨old, ?_, hchain⟩
        rw [List.flatMap_cons, heq]
        simp [enter, hs]
    · rw [← seatAt_of_not_mem sites hs] at hp hend
      obtain ⟨old, heq, hchain⟩ := hbehind arrival rest hn hp hend
      refine ⟨old, ?_, hchain⟩
      rw [List.flatMap_cons, heq]
      simp [enter, hs]

/-- A path of new code that does not end on a probe is an old path with its probes put in. -/
lemma exists_path (h : Rewired isa sites insns out stop newStop) {path : List Visit}
    (hp : IsPath isa out newStop path) (hend : ¬ EndsOnProbe sites path) :
    ∃ old, old.flatMap (enter sites) = path ∧ IsPath isa insns stop old := by
  obtain ⟨hhead, hchain⟩ := hp
  cases path with
  | nil => simp at hhead
  | cons v rest =>
    obtain rfl := Option.some.inj hhead
    obtain ⟨old, heq, hold⟩ := h.exists_flatMap_enter rest.length (k := 0) le_rfl hchain hend
    exact ⟨_, heq, rfl, hold⟩

/-- An old path with its probes put in is a path of new code that does not end on a probe. -/
lemma isPath_flatMap_enter (h : Rewired isa sites insns out stop newStop) {path : List Visit}
    (hp : IsPath isa insns stop path) :
    IsPath isa out newStop (path.flatMap (enter sites)) ∧
      ¬ EndsOnProbe sites (path.flatMap (enter sites)) := by
  obtain ⟨hhead, hchain⟩ := hp
  refine ⟨⟨?_, h.isChain_flatMap_enter hchain⟩, ?_⟩
  · cases path with
    | nil => simp at hhead
    | cons v rest =>
      obtain rfl := Option.some.inj hhead
      rfl
  · rintro ⟨x, hx, hprobe⟩
    have hne : path ≠ [] := by
      rintro rfl
      simp at hhead
    obtain ⟨front, v, rfl⟩ := List.eq_nil_or_concat path |>.resolve_left hne
    obtain ⟨arrival, hlast⟩ := getLast?_enter sites v
    rw [List.concat_eq_append, List.flatMap_append, List.flatMap_singleton,
      List.getLast?_append, hlast] at hx
    obtain rfl := Option.some.inj hx
    obtain ⟨k, hk, hkv⟩ := hprobe
    exact seatAt_ne_landAt sites hk v.index hkv.symm

end Rewired

/-! ## Preservation -/

/-- What it means that new code `out` preserves the control flow of `insns` when probes are put
before the sites `sites`. -/
structure FlowPreserved (isa : InstructionSet) (sites : List Nat) (insns out : List Instruction)
    (stop newStop : Nat) : Prop where
  /-- Erasing probes makes the control paths of the new code, those that end on a probe apart, the
  control paths of the old code, one for one. -/
  paths : Set.BijOn (erase sites)
    {path | IsPath isa out newStop path ∧ ¬ EndsOnProbe sites path}
    {path | IsPath isa insns stop path}
  /-- The visits that are kept execute what the old visits execute, or are to the exit like them. -/
  steps : ∀ path, List.Forall₂
    (fun v w => Option.Rel (Kept isa) insns[w.index]? out[v.index]?)
    (path.filter fun v => ¬ OnProbe sites v) (erase sites path)
  /-- The probe of a site stands right before it. -/
  probes : ∀ k ∈ sites, ∃ i token offset, insns[k]? = some i ∧
    out[landAt sites k]? = some ((isa.probe token).place offset i.line) ∧
    seatAt sites k = landAt sites k + 1
  /-- No path comes to a site but by falling through its probe. -/
  probed : ∀ before v after, IsPath isa out newStop (before ++ v :: after) →
    ∀ k ∈ sites, v.index = seatAt sites k →
      v.arrival = .fallthrough ∧ ∃ u, before.getLast? = some u ∧ u.index = landAt sites k
  /-- A jump leads to the probe of what it led to, or to that itself if it has none. -/
  jumps : ∀ k i target, insns[k]? = some i → isa.jumpTarget i = some target →
    ∃ moved landing j, out[seatAt sites k]? = some moved ∧ isa.jumpTarget moved = some landing ∧
      InstructionSet.Lands insns stop target j ∧
      InstructionSet.Lands out newStop landing (landAt sites j)
  /-- There are no other jumps. -/
  jumps_only : ∀ v moved landing, out[v]? = some moved → isa.jumpTarget moved = some landing →
    ∃ k i target, v = seatAt sites k ∧ insns[k]? = some i ∧ isa.jumpTarget i = some target

/-- **Rewired code preserves control flow.**

**Proof sketch.** Putting probes into paths is inverse to erasing them: it is undone by erasing
(`erase_flatMap_enter`), it makes old paths paths of the new code (`isPath_flatMap_enter`), and it
reaches all of these that do not end on a probe (`exists_path`). -/
theorem Rewired.flowPreserved (h : Rewired isa sites insns out stop newStop) :
    FlowPreserved isa sites insns out stop newStop where
  paths := by
    have hinv : Set.InvOn (fun path : List Visit => path.flatMap (enter sites)) (erase sites)
        {path | IsPath isa out newStop path ∧ ¬ EndsOnProbe sites path}
        {path | IsPath isa insns stop path} := by
      refine ⟨?_, fun path _ => erase_flatMap_enter path⟩
      rintro path ⟨hp, hend⟩
      obtain ⟨old, rfl, -⟩ := h.exists_path hp hend
      dsimp only
      rw [erase_flatMap_enter]
    refine hinv.bijOn ?_ fun path hp => h.isPath_flatMap_enter hp
    rintro path ⟨hp, hend⟩
    obtain ⟨old, rfl, hold⟩ := h.exists_path hp hend
    rw [erase_flatMap_enter]
    exact hold
  steps := by
    intro path
    refine (forall₂_eraseFrom none path).imp fun v w hvw => ?_
    rw [hvw]
    by_cases hw : w.index < insns.length
    · have hk := List.getElem?_eq_getElem hw
      obtain ⟨moved, hseat, -⟩ := h.follows hk
      rw [hk, hseat.seat]
      exact .some hseat.toKept
    · have hv : ¬ seatAt sites w.index < out.length := fun hlt => hw (h.seatAt_lt_length.1 hlt)
      rw [List.getElem?_eq_none (Nat.not_lt.1 hw), List.getElem?_eq_none (Nat.not_lt.1 hv)]
      exact .none
  probes := by
    intro k hk
    have hget := List.getElem?_eq_getElem (h.sites_lt k hk)
    obtain ⟨moved, hseat, -⟩ := h.follows hget
    obtain ⟨token, offset, hprobe⟩ := hseat.probe hk
    exact ⟨_, token, offset, hget, hprobe, seatAt_of_mem sites hk⟩
  probed := by
    rintro before v after ⟨hhead, hchain⟩ k hk hv
    rcases List.eq_nil_or_concat before with rfl | ⟨front, u, rfl⟩
    · obtain rfl := Option.some.inj hhead
      exact absurd hv (by rw [seatAt_of_mem sites hk]; simp)
    · rw [List.concat_eq_append, List.append_assoc] at hchain
      have hedge := (List.isChain_cons_cons.1 (List.isChain_append.1 hchain).2.1).1
      obtain ⟨harrival, hu⟩ := h.edge_to_seatAt hk hv hedge
      exact ⟨harrival, u, by simp, hu⟩
  jumps := by
    intro k i target hk ht
    obtain ⟨moved, hseat, ⟨hnone, -⟩ | ⟨target', landing, j, htarget, hlanding, hold, hnew⟩⟩ :=
      h.follows hk
    · rw [hnone] at ht
      simp at ht
    · obtain rfl := Option.some.inj (htarget.symm.trans ht)
      exact ⟨moved, landing, j, hseat.seat, hlanding, hold, hnew⟩
  jumps_only := by
    intro v moved landing hv hl
    have hlt := (List.getElem?_eq_some_iff.1 hv).1
    rw [h.length_eq] at hlt
    rcases seat_or_probe sites hlt with ⟨k, hk, rfl⟩ | ⟨k, hk, hs, rfl⟩
    · have hget := List.getElem?_eq_getElem hk
      obtain ⟨moved', hseat, hjump⟩ := h.follows hget
      rcases hjump with ⟨-, hnone⟩ | ⟨target, landing', j, htarget, -, -, -⟩
      · obtain rfl := Option.some.inj (hseat.seat.symm.trans hv)
        rw [hnone] at hl
        simp at hl
      · exact ⟨k, _, target, rfl, hget, htarget⟩
    · obtain ⟨moved', hseat, -⟩ := h.follows (List.getElem?_eq_getElem hk)
      obtain ⟨token, offset, hprobe⟩ := hseat.probe hs
      obtain rfl := Option.some.inj (hprobe.symm.trans hv)
      rw [h.probe_bare] at hl
      simp at hl

end Weave

/-! ## Woven units -/

namespace Weaver

open Weave

variable {ρ : Type} {r : Weaver ρ} {u : CodeUnit} {unitIndex : UInt32} {topLevel : Bool}

/-- Woven code is rewired. -/
lemma Woven.rewired (hisa : r.isa = .standard) {body : WovenBody} {sites : List Nat}
    {insns out : List Instruction}
    (hw : Woven r u unitIndex topLevel body sites insns out)
    (hsites : ∀ k ∈ sites, k < insns.length) :
    Rewired r.isa sites insns out u.code.length body.code.length where
  sites_lt := hsites
  length_eq := hw.emits.length_eq
  follows := by
    intro k i hk
    rw [← hw.codeEnd]
    exact hw.emits.follows (InstructionSet.followable_of_standard hisa) hw.fits hk
  probe_bare token offset line := by
    rw [hisa]
    rfl
  lands_unique := by
    intro target j k hj hk
    rw [← hw.extent] at hj hk
    exact InstructionSet.Lands.unique (InstructionSet.width_pos_of_standard hisa) hw.laidOut hj hk
  newLands_unique := by
    intro target j k hj hk
    have hplace := (InstructionSet.followable_of_standard hisa).toPlaceable
    have hpos := InstructionSet.width_pos_of_standard hisa
    rw [← hw.codeEnd, ← hw.emits.extent_eq hplace] at hj hk
    exact InstructionSet.Lands.unique hpos hw.newLaidOut hj hk

/-- **Weaving preserves control flow.** The instructions of a woven unit preserve the control flow
of the old ones, with probes before the sites that were drawn. -/
theorem flow_preserved (hisa : r.isa = .standard) {s s' : ρ} {body : WovenBody}
    (h : (r.body u unitIndex topLevel).run.run s = (.ok body, s')) :
    ∃ insns out, u.instructions r.isa r.sign = .ok insns ∧
      (rebuild u body u.consts).instructions r.isa r.sign = .ok out ∧
      FlowPreserved r.isa (r.sitesOf topLevel insns s) insns out u.code.length
        body.code.length := by
  obtain ⟨insns, out, hw⟩ := woven_of_body hisa h
  have hsites : ∀ k ∈ r.sitesOf topLevel insns s, k < insns.length := fun k hk =>
    lt_of_mem_sitesOf hk
  exact ⟨insns, out, hw.instructions, hw.newInstructions, (hw.rewired hisa hsites).flowPreserved⟩

/-- The control flow of a loop is preserved. -/
theorem flow_preserved_loop :
    (threeRuns.body .loop 0 false).run.run () = (.ok .loop, ()) ∧
      ∃ insns out, CodeUnit.loop.instructions .standard .signed = .ok insns ∧
        (rebuild .loop .loop []).instructions .standard .signed = .ok out ∧
        FlowPreserved .standard (threeRuns.sitesOf false insns ()) insns out 12 27 := by
  have hrun : (threeRuns.body .loop 0 false).run.run () = (.ok .loop, ()) := by rfl
  exact ⟨hrun, flow_preserved (r := threeRuns) (u := .loop) rfl hrun⟩

end Weaver

end CoverProbe
