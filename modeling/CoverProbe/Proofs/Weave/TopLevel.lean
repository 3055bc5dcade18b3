import CoverProbe.Proofs.Weave.Counterpart
import CoverProbe.Proofs.Weave.Insertion
import CoverProbe.Random.Generator

set_option relaxedAutoImplicit false
set_option autoImplicit false

/-!
# What the top-level flag reaches

Whether a tree is woven as a top-level module bears on its root only. If the root is probed like
every other unit, the flag enters nothing but the tokens of its probes: no draw, no offset, no line
and no other unit depends on it. If the root is probed at its entry only, other units can depend on
it through the draws alone.

The flag is told by comparing two runs from one state, in which each step agrees
(`CoverProbe.Checked.Alike`).

## Main definitions

* `CoverProbe.Weave.Twins` — streams that differ in the tokens of their probes.
* `CoverProbe.Weaver.TwinRoots` — trees that differ in the tokens of the probes of their roots.
* `CoverProbe.Token.Marked` — two words that differ in the highest bit.

## Main results

* `CoverProbe.Weaver.tree_twins` — the flag enters the tokens of the root only.
* `CoverProbe.Weaver.flag_confined` — what it does under each of the policies.
-/

namespace CoverProbe

open Checked

/-! ## Tokens -/

namespace Token

/-- The first word is the second with the highest bit set, which the second has clear. -/
def Marked (token token' : UInt32) : Prop :=
  token' &&& topLevelBit = 0 ∧ token = token' ||| topLevelBit

/-- A marking scheme sets the highest bit at the top level and clears it elsewhere. -/
lemma marked_hashed (site : ProbeSite) :
    Marked (hashed true { site with topLevel := true })
      (hashed true { site with topLevel := false }) := by
  show Marked (_ ||| topLevelBit) (_ &&& ~~~topLevelBit)
  generalize siteHash site.firstLine site.offset ^^^ unitSalt site.unitIndex = h
  constructor
  · rw [UInt32.and_assoc]
    simp
  · apply UInt32.eq_of_toBitVec_eq
    ext k hk
    by_cases hbit : topLevelBit.toBitVec[k] = true
    · simp [hbit]
    · simp [hbit]

end Token

/-! ## Streams -/

namespace Weave

/-- The streams have the same instructions, but for the tokens of the probes before the sites: these
are in the relation `T`. Old instructions are counted from number `index` on. -/
inductive Twins (isa : InstructionSet) (T : UInt32 → UInt32 → Prop) (sites : List Nat) :
    (index : Nat) → (out out' : List Instruction) → Prop
  | nil {index : Nat} : Twins isa T sites index [] []
  | probed {index : Nat} {token token' offset line : UInt32} {i : Instruction}
      {out out' : List Instruction} (hs : index ∈ sites) (htoken : T token token')
      (rest : Twins isa T sites (index + 1) out out') :
      Twins isa T sites index ((isa.probe token).place offset line :: i :: out)
        ((isa.probe token').place offset line :: i :: out')
  | bare {index : Nat} {i : Instruction} {out out' : List Instruction} (hs : index ∉ sites)
      (rest : Twins isa T sites (index + 1) out out') :
      Twins isa T sites index (i :: out) (i :: out')

variable {isa : InstructionSet} {T : UInt32 → UInt32 → Prop} {sites : List Nat} {index : Nat}
  {out out' : List Instruction}

/-- Streams whose tokens are the same are the same. -/
lemma Twins.eq (h : Twins isa Eq sites index out out') : out = out' := by
  induction h with
  | nil => rfl
  | probed hs htoken rest ih => rw [htoken, ih]
  | bare hs rest ih => rw [ih]

/-- Tokens do not bear on where lines start. -/
lemma Twins.lineRunsFrom_eq (h : Twins isa T sites index out out') (current : Option UInt32) :
    Instruction.lineRunsFrom current out = Instruction.lineRunsFrom current out' := by
  induction h generalizing current with
  | nil => rfl
  | probed hs htoken rest ih =>
    simp only [Instruction.lineRunsFrom, ih]
    rfl
  | bare hs rest ih => simp only [Instruction.lineRunsFrom, ih]

/-- Tokens do not bear on whether instructions have bytes. -/
lemma Twins.encodeAll_agree (hisa : isa = .standard) (h : Twins isa T sites index out out') :
    Agree (fun _ _ => True) (isa.encodeAll out) (isa.encodeAll out') := by
  have hprobe : ∀ token token' offset line : UInt32, Agree (fun _ _ => True)
      (isa.encode ((isa.probe token).place offset line))
      (isa.encode ((isa.probe token').place offset line)) := by
    intro token token' offset line
    rw [hisa]
    exact .ok trivial
  have heach : List.Forall₂ (fun i j => Agree (fun _ _ => True) (isa.encode i) (isa.encode j))
      out out' := by
    have hself : ∀ i, Agree (fun _ _ => True) (isa.encode i) (isa.encode i) := by
      intro i
      cases isa.encode i with
      | error fault => exact .error fault
      | ok bs => exact .ok trivial
    induction h with
    | nil => exact .nil
    | probed hs htoken rest ih => exact .cons (hprobe _ _ _ _) (.cons (hself _) ih)
    | bare hs rest ih => exact .cons (hself _) ih
  apply (Agree.mapM heach).bind
  intro bss bss' _
  exact .ok trivial

end Weave

namespace Weaver

open Weave

variable {ρ : Type} {r : Weaver ρ} {u : CodeUnit} {unitIndex : UInt32}
  {T : UInt32 → UInt32 → Prop} {sites : List Nat} {insns : List Instruction}

/-! ## Bodies -/

/-- The flag enters tokens only by the relation `T`. -/
def FlagEnters (r : Weaver ρ) (T : UInt32 → UInt32 → Prop) : Prop :=
  ∀ site : ProbeSite, T (r.tokens { site with topLevel := true })
    (r.tokens { site with topLevel := false })

/-- **Emission agrees** whatever the flag, but for tokens. -/
theorem emit_agree (hT : r.FlagEnters T) (u : CodeUnit) (unitIndex : UInt32)
    (relocation : Relocation) (index position : Nat) (insns : List Instruction) :
    Agree (Twins r.isa T sites index)
      (emit r u unitIndex true relocation
        (Placement.ofSitesFrom r.isa sites index position insns))
      (emit r u unitIndex false relocation
        (Placement.ofSitesFrom r.isa sites index position insns)) := by
  induction insns generalizing index position with
  | nil => exact .ok .nil
  | cons i rest ih =>
    rw [ofSitesFrom_cons]
    unfold emit
    apply (Agree.refl _).bind
    rintro moved _ rfl
    apply (ih _ _).bind
    intro out out' hrest
    by_cases hs : index ∈ sites
    · simp only [if_pos hs]
      have htoken := hT ⟨u.name, unitIndex, u.firstLine, UInt32.ofNat position, i.line, true⟩
      exact .ok (.probed hs htoken hrest)
    · simp only [if_neg hs]
      exact .ok (.bare hs hrest)

/-- Inserting probes agrees whatever the flag, but for tokens. -/
lemma insert_agree (hT : r.FlagEnters T) (u : CodeUnit) (unitIndex : UInt32)
    (insns : List Instruction) (sites : List Nat) :
    Agree (Twins r.isa T sites 0) (r.insert u unitIndex true insns sites)
      (r.insert u unitIndex false insns sites) := by
  unfold insert
  dsimp only
  split_ifs
  · exact .error _
  · exact emit_agree hT u unitIndex _ 0 0 insns

/-- The trees differ in nothing but the tokens of the probes in their roots: these stand before the
sites that were drawn for the unit `u` from the state `s`, and are in the relation `T`. -/
structure TwinRoots (r : Weaver ρ) (T : UInt32 → UInt32 → Prop) (u : CodeUnit) (s : ρ)
    (v v' : CodeUnit) : Prop where
  name : v.name = v'.name
  firstLine : v.firstLine = v'.firstLine
  consts : v.consts = v'.consts
  lineTable : v.lineTable = v'.lineTable
  instructions : ∃ insns out out', u.instructions r.isa r.sign = .ok insns ∧
    v.instructions r.isa r.sign = .ok out ∧ v'.instructions r.isa r.sign = .ok out' ∧
    Twins r.isa T (r.sitesOf false insns s) 0 out out'

/-- Bodies that make the roots of such trees. -/
def TwinBodies (r : Weaver ρ) (T : UInt32 → UInt32 → Prop) (u : CodeUnit) (s : ρ)
    (body body' : WovenBody) : Prop :=
  ∀ consts, TwinRoots r T u s (rebuild u body consts) (rebuild u body' consts)

/-- Encoding agrees whatever the flag. -/
lemma encoded_agree (hisa : r.isa = .standard) (hT : r.FlagEnters T)
    (hprep : r.prepare u = .ok insns) (hne : insns ≠ []) (candidates : Nat) (s : ρ) :
    Agree (TwinBodies r T u s)
      (r.encoded u unitIndex true insns candidates (r.sitesOf false insns s))
      (r.encoded u unitIndex false insns candidates (r.sitesOf false insns s)) := by
  unfold encoded
  apply (insert_agree hT u unitIndex insns _).results.bind
  rintro out out' ⟨hout, hout', htwins⟩
  apply ((htwins.encodeAll_agree hisa).mapError _).results.bind
  rintro code code' ⟨hcode, hcode', -⟩
  have hlines : Instruction.lineRuns out = Instruction.lineRuns out' := htwins.lineRunsFrom_eq none
  rw [hlines]
  apply (Agree.refl _).results.bind
  rintro table _ ⟨htable, -, rfl⟩
  rw [Checked.mapError_eq_ok] at hcode hcode' htable
  apply Agree.ok
  intro consts
  have hw : Woven r u unitIndex true ⟨code, table, candidates, (r.sitesOf false insns s).length⟩
      (r.sitesOf false insns s) insns out :=
    woven_of_insert hisa hprep hne hout hcode (hlines ▸ htable)
  have hw' : Woven r u unitIndex false ⟨code', table, candidates, (r.sitesOf false insns s).length⟩
      (r.sitesOf false insns s) insns out' :=
    woven_of_insert hisa hprep hne hout' hcode' htable
  exact ⟨rfl, rfl, rfl, rfl, insns, out, out', hw.instructions, hw.newInstructions,
    hw'.newInstructions, htwins⟩

/-- Weaving a body with given sites agrees whatever the flag. -/
lemma bodyWith_agree (hisa : r.isa = .standard) (hT : r.FlagEnters T)
    (hprep : r.prepare u = .ok insns) (hne : insns ≠ []) (candidates : Nat) (s : ρ) :
    Agree (TwinBodies r T u s)
      (r.bodyWith u unitIndex true insns candidates (r.sitesOf false insns s))
      (r.bodyWith u unitIndex false insns candidates (r.sitesOf false insns s)) := by
  rw [bodyWith_eq, bodyWith_eq]
  split_ifs
  · exact encoded_agree hisa hT hprep hne candidates s
  · apply (Agree.refl _).bind
    rintro _ _ -
    exact encoded_agree hisa hT hprep hne candidates s

/-- **Weaving a body ends alike** whatever the flag, if roots are probed like all units. -/
theorem body_alike (hisa : r.isa = .standard) (hfull : r.topLevel = .full) (hT : r.FlagEnters T)
    (u : CodeUnit) (unitIndex : UInt32) (s : ρ) :
    Alike (TwinBodies r T u s) ((r.body u unitIndex true).run.run s)
      ((r.body u unitIndex false).run.run s) := by
  have hentry : ∀ topLevel : Bool, (topLevel && decide (r.topLevel = .entryOnly)) = false := by
    simp [hfull]
  rw [run_body, run_body]
  cases hprep : r.prepare u with
  | error cause => exact ⟨.error cause, rfl⟩
  | ok insns =>
    by_cases hne : insns = []
    · subst hne
      have hw : Woven r u unitIndex true ⟨[], u.lineTable, 0, 0⟩ [] [] [] :=
        woven_of_nil hisa hprep []
      refine ⟨.ok fun consts => ?_, rfl⟩
      exact ⟨rfl, rfl, rfl, rfl, [], [], [], hw.instructions, hw.newInstructions,
        hw.newInstructions, .nil⟩
    · have hsites := sitesOf_eq r false insns s
      rw [hentry] at hsites
      simp only [List.isEmpty_iff, hne, if_false, hentry, ← hsites]
      exact ⟨bodyWith_agree hisa hT hprep hne _ s, rfl⟩

/-! ## Trees -/

/-- **The flag enters nothing but the tokens of the root**, if roots are probed like all units: with
the flag and without it, weaving a tree fails alike, or leaves the same state of the random source
and gives trees that differ in these tokens only.

**Proof sketch.** The bodies of the root are woven alike (`body_alike`), so the units nested in it
are woven from one state, and the flag is not passed to them. -/
theorem tree_twins (hisa : r.isa = .standard) (hfull : r.topLevel = .full) (hT : r.FlagEnters T)
    (root : CodeUnit) (s : ρ) :
    Alike (TwinRoots r T root s) ((r.tree root true).run.run s)
      ((r.tree root false).run.run s) := by
  rw [tree_eq_nest, tree_eq_nest, nest_eq, nest_eq]
  apply ((body_alike hisa hfull hT root _ s).adapt _).bind
  intro body body' htwins s₁
  have hpool : ∀ x : ExceptT WeaveFault (StateM ρ) Pool, Alike Eq (x.run.run s₁) (x.run.run s₁) :=
    fun x => ⟨.refl _, rfl⟩
  apply (hpool _).bind
  rintro consts _ rfl s₂
  exact ⟨.ok (htwins consts), rfl⟩

/-- Trees whose roots have the same tokens are the same. -/
lemma TwinRoots.eq (hisa : r.isa = .standard) {s : ρ} {v v' : CodeUnit}
    (h : TwinRoots r Eq u s v v') : v = v' := by
  obtain ⟨hname, hfirst, hconsts, htable, insns, out, out', -, hout, hout', htwins⟩ := h
  obtain rfl := htwins.eq
  rw [hisa] at hout hout'
  have hcode := CodeUnit.encodeAll_of_instructions hout
  have hcode' := CodeUnit.encodeAll_of_instructions hout'
  have hsame : v.code = v'.code := Except.ok.inj (hcode.symm.trans hcode')
  cases v
  cases v'
  simp only at hname hfirst hconsts htable hsame
  rw [hname, hfirst, hconsts, htable, hsame]

/-- Where the sampler draws nothing, weaving a body draws nothing. -/
lemma state_of_body (hquiet : ∀ found s, ((r.sampler found).run s).2 = s) (u : CodeUnit)
    (unitIndex : UInt32) (topLevel : Bool) (s : ρ) :
    ((r.body u unitIndex topLevel).run.run s).2 = s := by
  rw [run_body]
  cases r.prepare u with
  | error cause => rfl
  | ok insns =>
    dsimp only
    split_ifs
    · rfl
    · cases (topLevel && decide (r.topLevel = .entryOnly)) with
      | true => rfl
      | false => exact hquiet _ s

/-- **Nested units do not depend on the flag**, where the sampler draws nothing. -/
theorem consts_of_tree (hquiet : ∀ found s, ((r.sampler found).run s).2 = s)
    {root out out' : CodeUnit} {topLevel topLevel' : Bool} {s s₁ s₂ : ρ}
    (h : (r.tree root topLevel).run.run s = (.ok out, s₁))
    (h' : (r.tree root topLevel').run.run s = (.ok out', s₂)) : out.consts = out'.consts := by
  -- The pool is woven from the state that the body leaves, which is `s` whatever the flag.
  have hpool : ∀ {topLevel : Bool} {out : CodeUnit} {s₁ : ρ},
      (r.tree root topLevel).run.run s = (.ok out, s₁) →
        ((r.nestPool [root.name] 1 root.consts).run.run s).1 = .ok out.consts := by
    intro topLevel out s₁ h
    rw [tree_eq_nest, nest_eq, run_bind_eq_ok] at h
    obtain ⟨body, s₂, hbody, h⟩ := h
    obtain ⟨consts, s₃, hconsts, h⟩ := run_bind_eq_ok.1 h
    obtain rfl := Except.ok.inj (Prod.mk.inj h).1
    have hstate := state_of_body hquiet root (UInt32.ofNat 0) topLevel s
    rw [run_adapt_eq_ok.1 hbody] at hstate
    obtain rfl : s₂ = s := hstate
    exact congrArg Prod.fst hconsts
  exact Except.ok.inj ((hpool h).symm.trans (hpool h'))

variable [Drawing ρ]

/-- **What the top-level flag does.** If roots are probed like all units and tokens mark the top
level, then with the flag and without it weaving a tree fails with the same fault, or leaves the
same state of the random source and gives trees that differ in nothing but the tokens of the probes
in their roots, which have the highest bit set with the flag and clear without it. If tokens do not
mark the top level, the flag does nothing. If roots are probed at their entry only and every
candidate is kept, then the units nested in the root do not depend on the flag.

**Proof sketch.** The first two are the same comparison (`tree_twins`) for two relations of tokens.
For the last, a sampler that keeps all draws nothing (`consts_of_tree`). -/
theorem flag_confined (hisa : r.isa = .standard) (root : CodeUnit) (s : ρ) :
    (r.topLevel = .full → r.tokens = Token.hashed true →
      Alike (TwinRoots r Token.Marked root s) ((r.tree root true).run.run s)
        ((r.tree root false).run.run s)) ∧
    (r.topLevel = .full → r.tokens = Token.hashed false →
      (r.tree root true).run.run s = (r.tree root false).run.run s) ∧
    ∀ entry : Bool, r.topLevel = .entryOnly → r.sampler = Sampling.sampler .all entry →
      ∀ out out' s₁ s₂, (r.tree root true).run.run s = (.ok out, s₁) →
        (r.tree root false).run.run s = (.ok out', s₂) → out.consts = out'.consts := by
  refine ⟨fun hfull htokens => ?_, fun hfull htokens => ?_, fun entry _ hall out out' s₁ s₂ => ?_⟩
  · apply tree_twins hisa hfull
    intro site
    rw [htokens]
    exact Token.marked_hashed site
  · have hT : r.FlagEnters Eq := by
      intro site
      rw [htokens]
      rfl
    obtain ⟨hagree, hstate⟩ := tree_twins hisa hfull hT root s
    exact Prod.ext (hagree.eq fun _ _ h => h.eq hisa) hstate
  · apply consts_of_tree
    intro found s
    rw [hall]
    cases found with
    | nil => rfl
    | cons c rest => rfl

/-- A weaver that puts a probe before each line run and marks the top level. -/
def marking : Weaver Script where
  isa := .standard
  sign := .signed
  policy := .lineStarts
  topLevel := .full
  sampler := Sampling.sampler .all true
  tokens := Token.hashed true

/-- What the flag does to a loop with another in its pool, under three policies. -/
theorem flag_confined_nestedLoop :
    (∃ out out', ((marking.tree .nestedLoop true).run.run ⟨[], []⟩).1 = .ok out ∧
      ((marking.tree .nestedLoop false).run.run ⟨[], []⟩).1 = .ok out' ∧
      TwinRoots marking Token.Marked .nestedLoop ⟨[], []⟩ out out') ∧
    ({ marking with tokens := Token.hashed false }.tree .nestedLoop true).run.run ⟨[], []⟩ =
      ({ marking with tokens := Token.hashed false }.tree .nestedLoop false).run.run ⟨[], []⟩ ∧
    ∃ out out' s₁ s₂,
      ({ marking with topLevel := .entryOnly }.tree .nestedLoop true).run.run ⟨[], []⟩ =
        (.ok out, s₁) ∧
      ({ marking with topLevel := .entryOnly }.tree .nestedLoop false).run.run ⟨[], []⟩ =
        (.ok out', s₂) ∧ out.consts = out'.consts := by
  refine ⟨?_, (flag_confined rfl _ _).2.1 rfl rfl, ?_⟩
  · obtain ⟨hagree, -⟩ :=
      (flag_confined (r := marking) rfl .nestedLoop ⟨[], []⟩).1 rfl rfl
    have hok : ∃ out, ((marking.tree .nestedLoop true).run.run ⟨[], []⟩).1 = .ok out := by
      rw [tree_eq_nest]
      exact ⟨_, rfl⟩
    obtain ⟨out, hout⟩ := hok
    obtain ⟨out', hout', htwins⟩ := hagree.exists_of_ok hout
    exact ⟨out, out', hout, hout', htwins⟩
  · have hok : ∀ topLevel : Bool, ∃ out s₁,
        ({ marking with topLevel := .entryOnly }.tree .nestedLoop topLevel).run.run ⟨[], []⟩ =
          (.ok out, s₁) := by
      intro topLevel
      rw [tree_eq_nest]
      cases topLevel with
      | true => exact ⟨_, _, rfl⟩
      | false => exact ⟨_, _, rfl⟩
    obtain ⟨out, s₁, h⟩ := hok true
    obtain ⟨out', s₂, h'⟩ := hok false
    exact ⟨out, out', s₁, s₂, h, h', (flag_confined rfl _ _).2.2 true rfl rfl _ _ _ _ h h'⟩

end Weaver

end CoverProbe
