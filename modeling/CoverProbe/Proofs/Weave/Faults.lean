import CoverProbe.Proofs.Weave.Body

set_option relaxedAutoImplicit false
set_option autoImplicit false

/-!
# Faults of bodies

Weaving a body looks at one unit only, so it never misses the woven counterpart of a nested one.

## Main definitions

* `CoverProbe.Weave.Finds` — computations that do not miss a woven unit.

## Main results

* `CoverProbe.Weaver.body_finds` — weaving a body is one.
-/

namespace CoverProbe

namespace Weave

variable {α β : Type}

/-- The computation never finds that a unit was not woven. -/
def Finds (x : Except WeaveCause α) : Prop :=
  ∀ name : String, x ≠ .error (.malformed (.notWoven name))

/-- Results are no faults. -/
lemma Finds.ok (a : α) : Finds (.ok a) := by
  intro name h
  simp at h

/-- Other faults are not that fault. -/
lemma Finds.error {cause : WeaveCause} (h : ∀ name, cause ≠ .malformed (.notWoven name)) :
    Finds (.error cause : Except WeaveCause α) :=
  fun name heq => h name (Except.error.inj heq)

/-- A sequence misses nothing if its steps do not. -/
lemma Finds.bind {x : Except WeaveCause α} {f : α → Except WeaveCause β} (hx : Finds x)
    (hf : ∀ a, Finds (f a)) : Finds (x >>= f) := by
  intro name h
  cases x with
  | error cause => exact hx name (congrArg Except.error (Except.error.inj h))
  | ok a => exact hf a name h

/-- Faults of decoding and encoding are renamed to others. -/
lemma Finds.mapError {x : Except Fault α} {f : Fault → WeaveCause}
    (hf : ∀ fault name, f fault ≠ .malformed (.notWoven name)) : Finds (x.mapError f) := by
  intro name h
  cases x with
  | error fault => exact hf fault name (Except.error.inj h)
  | ok a => simp [Except.mapError] at h

/-- Faults of encoding keep what they were. -/
lemma ofFault_ne (fault : Fault) (name : String) :
    WeaveCause.ofFault fault ≠ .malformed (.notWoven name) := by
  rw [WeaveCause.ofFault]
  split_ifs
  · simp
  · simp

end Weave

open Weave

/-! ## Checks -/

namespace WeaveCheck

/-- The check of line starts finds all units. -/
lemma startsOnInstructions_finds (insns : List Instruction) (found : List LineStart) :
    Finds (startsOnInstructions insns found) := by
  induction found generalizing insns with
  | nil => exact Finds.ok _
  | cons s rest ih =>
    rw [startsOnInstructions]
    split_ifs with hs
    · exact ih _
    · exact Finds.error (by simp)

/-- The check of line starts finds all units. -/
lemma starts_finds (insns : List Instruction) (found : List LineStart) :
    Finds (starts insns found) := by
  rw [starts]
  split_ifs with hi
  · split
    · exact Finds.error (by simp)
    · exact Finds.ok _
  · exact startsOnInstructions_finds insns found

/-- The check of classes finds all units. -/
lemma without_finds (isa : InstructionSet) (cls : OpClass) (obstacle : Obstacle)
    (insns : List Instruction) : Finds (without isa cls obstacle insns) := by
  rw [without]
  split
  · exact Finds.error (by simp)
  · exact Finds.ok _

end WeaveCheck

/-! ## Bodies -/

namespace Weaver

variable {ρ : Type} {r : Weaver ρ} {u : CodeUnit} {unitIndex : UInt32} {topLevel : Bool}

/-- The operand of a moved jump is found without looking at units. -/
lemma operand_finds (isa : InstructionSet) (kind : JumpKind) (p : Placement) (target : Nat) :
    Finds (operand isa kind p target) := by
  cases kind with
  | absolute => exact Finds.ok _
  | relative =>
    simp only [operand]
    split_ifs
    · exact Finds.ok _
    · exact Finds.error (by simp)

/-- Moving an instruction finds all units. -/
lemma move_finds (isa : InstructionSet) (relocation : Relocation) (p : Placement) :
    Finds (move isa relocation p) := by
  rw [move]
  cases isa.classOf p.insn with
  | plain | pinned | indirect => exact Finds.ok _
  | jump kind =>
    dsimp only
    split
    · exact Finds.error (by simp)
    split
    · exact Finds.error (by simp)
    refine (operand_finds isa kind p _).bind fun arg => ?_
    split_ifs
    · exact Finds.ok _
    · exact Finds.error (by simp)

/-- Emission finds all units. -/
lemma emit_finds (relocation : Relocation) (ps : List Placement) :
    Finds (r.emit u unitIndex topLevel relocation ps) := by
  induction ps with
  | nil => exact Finds.ok _
  | cons p rest ih =>
    rw [emit]
    refine (move_finds _ _ _).bind fun moved => ih.bind fun more => ?_
    cases p.probe with
    | none => exact Finds.ok _
    | some position => exact Finds.ok _

/-- Inserting probes finds all units. -/
lemma insert_finds (insns : List Instruction) (sites : List Nat) :
    Finds (r.insert u unitIndex topLevel insns sites) := by
  rw [insert]
  dsimp only
  split
  · exact Finds.error (by simp)
  · exact emit_finds _ _

/-- Preparing a unit finds all units. -/
lemma prepare_finds : Finds (r.prepare u) := by
  rw [prepare]
  refine (Finds.mapError (by simp)).bind fun insns => ?_
  refine (Finds.mapError (by simp)).bind fun starts => ?_
  refine (WeaveCheck.starts_finds _ _).bind fun _ => ?_
  exact (WeaveCheck.without_finds _ _ _ _).bind fun _ => Finds.ok _

/-- Weaving a body with given sites finds all units. -/
lemma bodyWith_finds (insns : List Instruction) (candidates : Nat) (sites : List Nat) :
    Finds (r.bodyWith u unitIndex topLevel insns candidates sites) := by
  have hencoded : Finds (r.encoded u unitIndex topLevel insns candidates sites) := by
    refine (insert_finds insns sites).bind fun out => ?_
    refine (Finds.mapError ofFault_ne).bind fun code => ?_
    exact (Finds.mapError ofFault_ne).bind fun lineTable => Finds.ok _
  rw [bodyWith_eq]
  split_ifs
  · exact hencoded
  · exact (WeaveCheck.without_finds _ _ _ _).bind fun _ => hencoded

/-- **Weaving a body finds all units.** -/
theorem body_finds (name : String) {s s' : ρ} :
    (r.body u unitIndex topLevel).run.run s ≠ (.error (.malformed (.notWoven name)), s') := by
  intro h
  rw [run_body] at h
  cases hp : r.prepare u with
  | error cause =>
    rw [hp] at h
    exact prepare_finds name (hp.trans (congrArg Except.error (Except.error.inj (Prod.mk.inj h).1)))
  | ok insns =>
    rw [hp] at h
    simp only at h
    split_ifs at h
    · exact absurd (Prod.mk.inj h).1 (by simp)
    · exact bodyWith_finds _ _ _ name (Prod.mk.inj h).1

end Weaver

end CoverProbe
