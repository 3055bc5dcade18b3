import CoverProbe.Proofs.Instruction.Regular
import CoverProbe.Proofs.Probe.Collisions
import CoverProbe.Proofs.Weave.Counterpart
import CoverProbe.Proofs.Weave.Insertion

set_option relaxedAutoImplicit false
set_option autoImplicit false

/-!
# Distinct tokens

The probes of a woven body stand at increasing offsets before the end of its code, and the token of
each is made for the place where it stands. So the law of collisions of the default scheme tells
which probes share a token: none in a body that is shorter than the modulus of its line, and none at
one offset of two units that begin on one line.

## Main definitions

* `CoverProbe.InstructionSet.Measured` — sets whose encoder writes as many bytes as instructions
  take.
* `CoverProbe.Weaver.ProbedAt` — a stream with probes before its sites, and their places.
* `CoverProbe.Weaver.ProbePlaces` — the places of the probes of a woven body.

## Main results

* `CoverProbe.Weaver.Emits.probedAt` — emitted probes stand where their tokens say.
* `CoverProbe.Weaver.exists_probePlaces` — and so do those of a woven body, one behind the other.
* `CoverProbe.Weaver.ProbePlaces.nodup_tokens` — probes of a short body carry distinct tokens.
* `CoverProbe.Token.hashed_eq_iff_units` — which units share a token at one offset.
* `CoverProbe.Token.collision_law` — which tokens are the same.
-/

namespace CoverProbe

/-! ## Measured sets -/

namespace InstructionSet

/-- Placeable sets in which every instruction takes at least one byte, and its encoding as many
bytes as it takes. -/
structure Measured (isa : InstructionSet) : Prop extends isa.Placeable where
  width_pos : ∀ i : Instruction, 0 < isa.width i
  length_encode : ∀ {i : Instruction} {bs : List UInt8}, isa.encode i = .ok bs →
    bs.length = isa.width i

/-- The standard set is measured. -/
lemma standard_measured : standard.Measured where
  toPlaceable := standard_followable.toPlaceable
  width_pos := Standard.width_pos
  length_encode h := (Standard.encode_eq_ok.1 h).length_eq

variable {isa : InstructionSet}

/-- In a measured set a stream encodes to as many bytes as it takes. -/
lemma Measured.length_encodeAll (h : isa.Measured) {insns : List Instruction} {code : List UInt8}
    (hcode : isa.encodeAll insns = .ok code) : code.length = isa.extent insns := by
  induction insns generalizing code with
  | nil =>
    obtain rfl : [] = code := Except.ok.inj hcode
    rfl
  | cons i rest ih =>
    obtain ⟨bs, more, hbs, hmore, rfl⟩ := encodeAll_eq_cons hcode
    rw [List.length_append, h.length_encode hbs, ih hmore, extent_cons]

end InstructionSet

/-! ## Probes and their places -/

namespace Weaver

open Weave

variable {ρ : Type} {r : Weaver ρ} {u : CodeUnit} {unitIndex : UInt32} {topLevel : Bool}
  {sites : List Nat} {index position : Nat} {insns out : List Instruction}

/-- The stream `out` is `insns` with probes before its sites, whose tokens are made for the places
`placed`, at which they stand. Instructions are counted from number `index` on. -/
inductive ProbedAt (r : Weaver ρ) (sites : List Nat) :
    (index : Nat) → (insns out : List Instruction) → (placed : List ProbeSite) → Prop
  | nil {index : Nat} : ProbedAt r sites index [] [] []
  | probed {index : Nat} {i moved : Instruction} {insns out : List Instruction}
      {placed : List ProbeSite} (hs : index ∈ sites) (site : ProbeSite)
      (hkept : Kept r.isa i moved) (rest : ProbedAt r sites (index + 1) insns out placed) :
      ProbedAt r sites index (i :: insns)
        ((r.isa.probe (r.tokens site)).place site.offset site.line :: moved :: out)
        (site :: placed)
  | bare {index : Nat} {i moved : Instruction} {insns out : List Instruction}
      {placed : List ProbeSite} (hs : index ∉ sites) (hkept : Kept r.isa i moved)
      (rest : ProbedAt r sites (index + 1) insns out placed) :
      ProbedAt r sites index (i :: insns) (moved :: out) placed

/-- The places of probes are offsets of the stream, in order. -/
lemma ProbedAt.sublist {placed : List ProbeSite} (h : ProbedAt r sites index insns out placed) :
    (placed.map (·.offset)).Sublist (out.map (·.offset)) := by
  induction h with
  | nil => exact List.Sublist.slnil
  | probed hs site hkept rest ih => exact (ih.cons _).cons_cons site.offset
  | bare hs hkept rest ih => exact ih.cons _

/-- There is a place for each site. -/
lemma ProbedAt.length_eq {placed : List ProbeSite} (h : ProbedAt r sites index insns out placed) :
    placed.length = sitesIn sites index insns.length := by
  induction h with
  | nil => rfl
  | probed hs site hkept rest ih =>
    rw [List.length_cons, List.length_cons, sitesIn_succ, if_pos hs, ih, Nat.add_comm]
  | bare hs hkept rest ih => rw [List.length_cons, sitesIn_succ, if_neg hs, ih, Nat.zero_add]

/-- The place of a probe in a unit of rank `unitIndex`. -/
def siteIn (u : CodeUnit) (unitIndex : UInt32) (topLevel : Bool) (offset line : UInt32) :
    ProbeSite :=
  ⟨u.name, unitIndex, u.firstLine, offset, line, topLevel⟩

/-- **Emitted probes stand where their tokens say**, all of them in the unit. -/
theorem Emits.probedAt {relocation : Relocation}
    (h : Emits r u unitIndex topLevel sites relocation index position insns out) :
    ∃ placed, ProbedAt r sites index insns out placed ∧
      ∀ site ∈ placed, ∃ offset line, site = siteIn u unitIndex topLevel offset line := by
  induction h with
  | nil => exact ⟨[], .nil, by simp⟩
  | @probed index position i moved insns out hs hm rest ih =>
    obtain ⟨placed, hplaced, hunit⟩ := ih
    let site := siteIn u unitIndex topLevel (UInt32.ofNat position) i.line
    exact ⟨site :: placed, .probed hs site (kept_of_move hm) hplaced,
      List.forall_mem_cons.2 ⟨⟨_, _, rfl⟩, hunit⟩⟩
  | bare hs hm rest ih =>
    obtain ⟨placed, hplaced, hunit⟩ := ih
    exact ⟨placed, .bare hs (kept_of_move hm) hplaced, hunit⟩

/-- The places `placed` of the probes of a woven body: they lie in the unit, at increasing offsets
before the end of the code, and there is one for each probe. -/
structure ProbePlaces (r : Weaver ρ) (u : CodeUnit) (unitIndex : UInt32) (topLevel : Bool)
    (body : WovenBody) (sites : List Nat) (insns out : List Instruction)
    (placed : List ProbeSite) : Prop where
  prepared : r.prepare u = .ok insns
  encoded : r.isa.encodeAll out = .ok body.code
  probedAt : ProbedAt r sites 0 insns out placed
  probes : body.probes = placed.length
  unit : ∀ site ∈ placed, ∃ offset line, site = siteIn u unitIndex topLevel offset line
  increasing : placed.Pairwise (·.offset < ·.offset)
  lt_length : ∀ site ∈ placed, site.offset.toNat < body.code.length

/-- **The probes of a woven body stand in its code, one behind the other**, each where its token
says.

**Proof sketch.** What is emitted is laid out (`Emits.laidOut`), so its offsets increase and lie
before the end of what it takes, which is what it encodes to. The places of probes are some of these
offsets (`ProbedAt.sublist`). -/
theorem exists_probePlaces (hisa : r.isa.Measured) {s s' : ρ} {body : WovenBody}
    (h : (r.body u unitIndex topLevel).run.run s = (.ok body, s')) :
    ∃ sites insns out placed, ProbePlaces r u unitIndex topLevel body sites insns out placed := by
  obtain ⟨insns, out, hcoded⟩ := encoded_of_body h
  obtain ⟨placed, hprobed, hunit⟩ := hcoded.emits.probedAt
  have hfits := hcoded.fits
  have hlaid : r.isa.LaidOut 0 out := hcoded.emits.laidOut hisa.toPlaceable (by omega)
  have hlength := hisa.length_encodeAll hcoded.encodes
  refine ⟨_, insns, out, placed, hcoded.prepared, hcoded.encodes, hprobed, ?_, hunit, ?_,
    fun site hsite => ?_⟩
  · rw [hcoded.probes, hprobed.length_eq]
  · have hoffsets := List.pairwise_map.2 (hlaid.increasing hisa.width_pos)
    exact List.pairwise_map.1 (hoffsets.sublist hprobed.sublist)
  · have hmem := hprobed.sublist.mem (List.mem_map_of_mem (f := (·.offset)) hsite)
    obtain ⟨o, ho, hoffset⟩ := List.mem_map.1 hmem
    have hlt := hlaid.lt_of_mem hisa.width_pos ho
    rw [Nat.zero_add, ← hlength, hoffset] at hlt
    exact hlt

/-- **Probes of a body that is shorter than the modulus of its line carry distinct tokens.** -/
theorem ProbePlaces.nodup_tokens {mark : Bool} {body : WovenBody} {placed : List ProbeSite}
    (h : ProbePlaces r u unitIndex topLevel body sites insns out placed)
    (htokens : r.tokens = Token.hashed mark)
    (hshort : body.code.length ≤
      2 ^ (Token.tellingBits mark - Token.lostBits u.firstLine) - 1) :
    (placed.map r.tokens).Nodup := by
  have hbits : Token.tellingBits mark ≤ 32 := by cases mark <;> decide
  have hbound : ∀ site ∈ placed, site.offset.toNat <
      2 ^ (Token.tellingBits mark - Token.lostBits u.firstLine) - 1 :=
    fun site hsite => (h.lt_length site hsite).trans_le hshort
  -- Offsets increase, so probes with one token would have one offset below the modulus.
  refine List.pairwise_map.2 (h.increasing.imp_of_mem fun {a b} ha hb hlt heq => ?_)
  have hboundA := hbound a ha
  have hboundB := hbound b hb
  obtain ⟨offset, line, rfl⟩ := h.unit a ha
  obtain ⟨offset', line', rfl⟩ := h.unit b hb
  rw [htokens] at heq
  have hmod := (Token.hashed_eq_iff_offsets (a := siteIn u unitIndex topLevel offset line)
    (b := siteIn u unitIndex topLevel offset' line') rfl rfl fun _ => rfl).1 heq
  have hsame : offset = offset' :=
    Token.eq_of_weight_modEq ((Nat.sub_le _ _).trans hbits) hboundA hboundB hmod
  exact absurd hlt (hsame ▸ UInt32.lt_irrefl _)

end Weaver

/-! ## The law of collisions -/

namespace Token

open Weaver

/-- **Units that begin on one line share a token at one offset** exactly if both or neither of them
are at the top level and their ranks are congruent. -/
theorem hashed_eq_iff_units {u v : CodeUnit} (hline : u.firstLine = v.firstLine) (j k : Nat)
    (t t' : Bool) (offset line line' : UInt32) :
    hashed true (siteIn u (UInt32.ofNat j) t offset line) =
      hashed true (siteIn v (UInt32.ofNat k) t' offset line') ↔ t = t' ∧ j ≡ k [MOD 2 ^ 31] := by
  by_cases htop : t = t'
  · have hrank : ∀ i : Nat, (UInt32.ofNat i).toNat % 2 ^ 31 = i % 2 ^ 31 := by
      intro i
      rw [UInt32.toNat_ofNat', Nat.mod_mod_of_dvd _ (Nat.pow_dvd_pow 2 (by decide))]
    have hranks := hashed_eq_iff_ranks (a := siteIn u (UInt32.ofNat j) t offset line)
      (b := siteIn v (UInt32.ofNat k) t' offset line') hline rfl fun _ : true = true => htop
    rw [hranks, Nat.ModEq, siteIn, siteIn, hrank, hrank]
    exact ⟨fun hmod => ⟨htop, hmod⟩, fun h => h.2⟩
  · exact ⟨fun heq => absurd heq (hashed_ne_of_topLevel_ne htop), fun h => absurd h.1 htop⟩

/-- Units of a tree of at most `2 ^ 31` units have ranks that are told apart. -/
lemma not_modEq_of_places {root : CodeUnit} {topLevel : Bool} (hsize : root.treeSize ≤ 2147483648)
    {j k : Nat} {p q : Place} (hp : (root.places topLevel)[j]? = some p)
    (hq : (root.places topLevel)[k]? = some q) (hjk : j ≠ k) : ¬j ≡ k [MOD 2 ^ 31] := by
  have hrank : ∀ {i : Nat} {x : Place}, (root.places topLevel)[i]? = some x → i < 2 ^ 31 := by
    intro i x hx
    have hi := (List.getElem?_eq_some_iff.1 hx).1
    rw [CodeUnit.places, CodeUnit.length_placesBelow] at hi
    omega
  exact fun hmod => hjk (hmod.eq_of_lt_of_lt (hrank hp) (hrank hq))

/-- **Which tokens are the same.** A word weighs its number, and zero weighs as much as the greatest
word. Let `v` be the number of trailing zeros of the weight of the base line. Of two sites on one
base line and both or neither of them at the top level,

* those of one unit share a token of the marking scheme exactly if the weights of their offsets are
  congruent modulo `2 ^ (31 - v)`,
* those at one offset share one exactly if the ranks of their units are congruent modulo `2 ^ 31`,
* those of one unit share a token of the scheme without marks exactly if the weights of their
  offsets are congruent modulo `2 ^ (32 - v)`.

So the probes put into a unit carry distinct tokens if its new code has less than `2 ^ (31 - v)`
bytes, whatever the sampler draws. Units of a tree that begin on one line share a token at one
offset exactly if neither is the root of a top-level module and their ranks are congruent modulo
`2 ^ 31`; in a tree of at most `2 ^ 31` units they never do.

**Proof sketch.** The hash of a site is a product with the base line, of which the odd part cancels
(`siteHash_modEq_iff`). Probes stand at increasing offsets before the end of their code
(`exists_probePlaces`), and below the modulus no two offsets are congruent. -/
theorem collision_law :
    (∀ a b : ProbeSite, a.firstLine = b.firstLine → a.topLevel = b.topLevel →
      (a.unitIndex = b.unitIndex → (hashed true a = hashed true b ↔
        weight a.offset ≡ weight b.offset [MOD 2 ^ (31 - lostBits a.firstLine)])) ∧
      (a.offset = b.offset → (hashed true a = hashed true b ↔
        a.unitIndex.toNat ≡ b.unitIndex.toNat [MOD 2 ^ 31])) ∧
      (a.unitIndex = b.unitIndex → (hashed false a = hashed false b ↔
        weight a.offset ≡ weight b.offset [MOD 2 ^ (32 - lostBits a.firstLine)]))) ∧
    (∀ (ρ : Type) (r : Weaver ρ) (u : CodeUnit) (unitIndex : UInt32) (topLevel : Bool) (s s' : ρ)
      (body : WovenBody), r.isa.Measured → r.tokens = hashed true →
      (r.body u unitIndex topLevel).run.run s = (.ok body, s') →
      body.code.length ≤ 2 ^ (31 - lostBits u.firstLine) - 1 →
      ∃ sites insns out placed, ProbePlaces r u unitIndex topLevel body sites insns out placed ∧
        (placed.map r.tokens).Nodup) ∧
    ∀ (root : CodeUnit) (topLevel : Bool) (j k : Nat) (p q : Place),
      (root.places topLevel)[j]? = some p → (root.places topLevel)[k]? = some q → j ≠ k →
        p.unit.firstLine = q.unit.firstLine → ∀ offset line line',
          (hashed true (siteIn p.unit (UInt32.ofNat j) p.topLevel offset line) =
            hashed true (siteIn q.unit (UInt32.ofNat k) q.topLevel offset line') ↔
              p.topLevel = q.topLevel ∧ j ≡ k [MOD 2 ^ 31]) ∧
          (root.treeSize ≤ 2147483648 →
            hashed true (siteIn p.unit (UInt32.ofNat j) p.topLevel offset line) ≠
              hashed true (siteIn q.unit (UInt32.ofNat k) q.topLevel offset line')) := by
  refine ⟨fun a b hline htop => ⟨fun hindex => ?_, fun hoffset => ?_, fun hindex => ?_⟩, ?_, ?_⟩
  · exact hashed_eq_iff_offsets hline hindex fun _ => htop
  · exact hashed_eq_iff_ranks hline hoffset fun _ => htop
  · exact hashed_eq_iff_offsets hline hindex fun _ => htop
  · intro ρ r u unitIndex topLevel s s' body hisa htokens hbody hshort
    obtain ⟨sites, insns, out, placed, hplaces⟩ := exists_probePlaces hisa hbody
    exact ⟨sites, insns, out, placed, hplaces, hplaces.nodup_tokens htokens hshort⟩
  · intro root topLevel j k p q hp hq hjk hline offset line line'
    have hunits := hashed_eq_iff_units hline j k p.topLevel q.topLevel offset line line'
    exact ⟨hunits, fun hsize heq => not_modEq_of_places hsize hp hq hjk (hunits.1 heq).2⟩

/-- The weaver of the first three line runs, with the marking scheme. -/
def hashedRuns : Weaver Unit :=
  { threeRuns with tokens := hashed true }

/-- The loop with the probes of that scheme. -/
def hashedLoop : WovenBody where
  code := [0x40, 133, 190, 73, 146, 0x23, 11, 0, 0, 0, 0x40, 206, 142, 30, 201, 0x11, 0x20, 0, 0, 0,
    0, 0x40, 23, 95, 243, 255, 0x12]
  lineTable := [0, 1, 10, 1, 11, 1]
  candidates := 3
  probes := 3

/-- On line twelve a quarter of the modulus is left: the probe at offset zero shares its token with
that at offset `2 ^ 29 - 1`, but only in the scheme with marks. Units whose ranks are `2 ^ 31` apart
share one too. The three probes of a loop have distinct tokens, and so have the two nested loops on
one line. -/
theorem collision_law_loop :
    hashed true ⟨"f", 3, 12, 0, 7, false⟩ = hashed true ⟨"f", 3, 12, 536870911, 9, false⟩ ∧
      hashed false ⟨"f", 3, 12, 0, 7, false⟩ ≠ hashed false ⟨"f", 3, 12, 536870911, 9, false⟩ ∧
      hashed true ⟨"f", 3, 12, 5, 7, false⟩ = hashed true ⟨"g", 2147483651, 12, 5, 7, false⟩ ∧
      (hashedRuns.body .loop 0 true).run.run () = (.ok hashedLoop, ()) ∧
      (∃ sites insns out placed,
        ProbePlaces hashedRuns .loop 0 true hashedLoop sites insns out placed ∧
          (placed.map hashedRuns.tokens).Nodup) ∧
      hashed true (siteIn .nestedLoop 0 true 5 1) ≠ hashed true (siteIn .loop 1 false 5 1) := by
  obtain ⟨hlaws, hbody, hunits⟩ := collision_law
  have htwelve : lostBits 12 = 2 := by decide +kernel
  have hone : lostBits 1 = 0 := by decide +kernel
  obtain ⟨hmarked, -, hbare⟩ := hlaws ⟨"f", 3, 12, 0, 7, false⟩ ⟨"f", 3, 12, 536870911, 9, false⟩
    rfl rfl
  obtain ⟨-, hranks, -⟩ := hlaws ⟨"f", 3, 12, 5, 7, false⟩ ⟨"g", 2147483651, 12, 5, 7, false⟩
    rfl rfl
  have hrun : (hashedRuns.body .loop 0 true).run.run () = (.ok hashedLoop, ()) := by rfl
  refine ⟨(hmarked rfl).2 ?_, fun heq => ?_, (hranks rfl).2 (by decide), hrun, ?_, ?_⟩
  · rw [htwelve]
    decide
  · have hmod := (hbare rfl).1 heq
    simp only [htwelve] at hmod
    exact absurd hmod (by decide)
  · refine hbody Unit hashedRuns .loop 0 true () () hashedLoop InstructionSet.standard_measured rfl
      hrun ?_
    have hline : CodeUnit.loop.firstLine = 1 := rfl
    rw [hline, hone]
    decide
  · exact (hunits .nestedLoop true 0 1 ⟨["loop"], .nestedLoop, true⟩
      ⟨["loop", "loop"], .loop, false⟩ rfl rfl (by decide) rfl 5 1 1).2 (by decide)

end Token

end CoverProbe
