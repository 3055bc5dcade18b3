import CoverProbe.Probe.Sampler
import CoverProbe.Probe.Token
import CoverProbe.Weave.Fault
import CoverProbe.Unit.Basic

set_option relaxedAutoImplicit false
set_option autoImplicit false

/-!
# Weaving probes into the body of a unit

Probes are put before the sites of a unit's code. Every instruction moves behind the probes before
it; jumps are given new operands so that they lead where they led, to the probe of an instruction
that has one. The line table is taken anew from the moved code.

## Main definitions

* `CoverProbe.Weaver` — all that weaving depends on.
* `CoverProbe.Placement`, `CoverProbe.Placement.ofSites` — where instructions and probes go.
* `CoverProbe.Weaver.emit` — the instructions of the new code.
* `CoverProbe.Weaver.body` — the new body of a unit.

## Implementation notes

A body is checked in a fixed order: the code decodes, the line table decodes, lines start at
instructions, pinned instructions stand in front; then the sites are drawn, and the rest is checked
against them. The random source is part of the result, also when a later check fails.
-/

namespace CoverProbe

/-- How the root of a top-level module is probed. -/
inductive TopLevelPolicy
  /-- Like every other unit. -/
  | full
  /-- At its entry only. -/
  | entryOnly
deriving DecidableEq, Repr

/-- All that weaving depends on, the random source apart. -/
structure Weaver (ρ : Type) where
  isa : InstructionSet
  sign : SignConvention
  policy : CandidatePolicy
  topLevel : TopLevelPolicy
  sampler : Sampler ρ
  tokens : TokenScheme

/-- The new body of a unit. -/
structure WovenBody where
  code : List UInt8
  lineTable : List UInt8
  /-- The number of candidates that were offered. -/
  candidates : Nat
  /-- The number of probes put in. -/
  probes : Nat
deriving DecidableEq, Repr

/-! ## Checks -/

namespace WeaveCheck

/-- Refuses a line start at which no instruction lies. Starts and instructions are passed once, side
by side. -/
def startsOnInstructions : List Instruction → List LineStart → Except WeaveCause Unit
  | _, [] => .ok ()
  | insns, s :: rest =>
    let here := insns.dropWhile fun i => i.offset < s.offset
    if here.head?.any fun i => i.offset = s.offset then startsOnInstructions here rest
    else .error (.malformed (.lineOffBoundary s.line s.offset))

/-- Refuses a line start that is not at an instruction. In an empty stream lines start at offset
zero. -/
def starts (insns : List Instruction) (found : List LineStart) : Except WeaveCause Unit :=
  if insns.isEmpty then
    match found.find? fun s => s.offset ≠ 0 with
    | some s => .error (.malformed (.lineOffBoundary s.line s.offset))
    | none => .ok ()
  else startsOnInstructions insns found

/-- Refuses an instruction of a class that stands in the way of probes. -/
def without (isa : InstructionSet) (cls : OpClass) (obstacle : Obstacle)
    (insns : List Instruction) : Except WeaveCause Unit :=
  match insns.find? fun i => isa.classOf i = cls with
  | some i => .error (.unsupported (isa.mnemonic i.opcode) i.offset obstacle)
  | none => .ok ()

end WeaveCheck

/-! ## Placement -/

/-- Where an instruction goes, and where its probe goes if it gets one. -/
structure Placement where
  insn : Instruction
  probe : Option Nat
  position : Nat
deriving DecidableEq, Repr

namespace Placement

/-- Where a jump to the instruction leads: to its probe, if it has one. -/
def landing (p : Placement) : Nat :=
  p.probe.getD p.position

/-- The placements of the instructions from number `index` on, the first of them at `position`. -/
def ofSitesFrom (isa : InstructionSet) (sites : List Nat) (index position : Nat) :
    List Instruction → List Placement
  | [] => []
  | i :: rest =>
    if sites.contains index then
      let start := position + isa.width (isa.probe 0)
      ⟨i, some position, start⟩ :: ofSitesFrom isa sites (index + 1) (start + isa.width i) rest
    else ⟨i, none, position⟩ :: ofSitesFrom isa sites (index + 1) (position + isa.width i) rest

/-- The placements of a stream with probes at its sites. -/
def ofSites (isa : InstructionSet) (sites : List Nat) (insns : List Instruction) :
    List Placement :=
  ofSitesFrom isa sites 0 0 insns

/-- The position behind the last instruction. -/
def stop (isa : InstructionSet) (ps : List Placement) : Nat :=
  match ps.getLast? with
  | some p => p.position + isa.width p.insn
  | none => 0

end Placement

/-- Where an offset of the old code leads in the new: the end to the end, an instruction to its
landing. -/
structure Relocation where
  oldStop : Nat
  newStop : Nat
  placements : List Placement

/-- The new offset of an old one, if that is the end or the offset of an instruction. Of several
instructions at one offset the last counts. -/
def Relocation.find? (r : Relocation) (target : Nat) : Option Nat :=
  if target = r.oldStop then some r.newStop
  else
    (r.placements.filter fun p => p.insn.offset.toNat = target).getLast?.map Placement.landing

/-! ## Emission -/

namespace Weaver

variable {ρ : Type}

/-- The operand with which a jump of kind `kind`, at its new position, leads to `target`. -/
def operand (isa : InstructionSet) (kind : JumpKind) (p : Placement) (target : Nat) :
    Except WeaveCause Nat :=
  match kind with
  | .absolute => .ok target
  | .relative =>
    let behind := p.position + isa.width p.insn
    if behind ≤ target then .ok (target - behind)
    else .error (.overflow (.backward p.insn.offset))

/-- The instruction at its new position. A jump gets the operand that leads to the new offset of its
target, unless that changes its width. -/
def move (isa : InstructionSet) (relocation : Relocation) (p : Placement) :
    Except WeaveCause Instruction :=
  let moved := p.insn.place (UInt32.ofNat p.position) p.insn.line
  match isa.classOf p.insn with
  | .jump kind =>
    match isa.jumpTarget p.insn with
    | none =>
      .error (.malformed (.operandMissing (isa.mnemonic p.insn.opcode) p.insn.offset))
    | some target =>
      match relocation.find? target with
      | none =>
        .error (.malformed
          (.jumpOffBoundary (isa.mnemonic p.insn.opcode) p.insn.offset target))
      | some landing => do
        let arg ← operand isa kind p landing
        let moved := { moved with arg := some (UInt32.ofNat arg) }
        if isa.width moved = isa.width p.insn then return moved
        else throw (.overflow (.width (isa.mnemonic p.insn.opcode) p.insn.offset))
  | _ => .ok moved

/-- The probe of an instruction, as the token scheme of the weaver makes it. -/
def probeAt (r : Weaver ρ) (u : CodeUnit) (unitIndex : UInt32) (topLevel : Bool)
    (position : Nat) (line : UInt32) : Instruction :=
  let offset := UInt32.ofNat position
  let token := r.tokens ⟨u.name, unitIndex, u.firstLine, offset, line, topLevel⟩
  (r.isa.probe token).place offset line

/-- The instructions of the new code: each moved, behind its probe if it has one. -/
def emit (r : Weaver ρ) (u : CodeUnit) (unitIndex : UInt32) (topLevel : Bool)
    (relocation : Relocation) : List Placement → Except WeaveCause (List Instruction)
  | [] => .ok []
  | p :: rest => do
    let moved ← move r.isa relocation p
    let more ← emit r u unitIndex topLevel relocation rest
    match p.probe with
    | some at? => return r.probeAt u unitIndex topLevel at? p.insn.line :: moved :: more
    | none => return moved :: more

/-- The instructions of the new code of a unit with probes at its sites. -/
def insert (r : Weaver ρ) (u : CodeUnit) (unitIndex : UInt32) (topLevel : Bool)
    (insns : List Instruction) (sites : List Nat) : Except WeaveCause (List Instruction) := do
  let placements := Placement.ofSites r.isa sites insns
  let stop := Placement.stop r.isa placements
  if (Word.ofNat? stop).isNone then throw (.overflow (.codeEnd stop))
  emit r u unitIndex topLevel ⟨u.code.length, stop, placements⟩ placements

/-! ## Bodies -/

/-- The decoded instructions of a unit with their lines, and the checks that need no sites. -/
def prepare (r : Weaver ρ) (u : CodeUnit) : Except WeaveCause (List Instruction) := do
  let insns ← (r.isa.decode u.code).mapError fun f => .malformed (.fault f)
  let starts ← (u.lineStarts r.sign).mapError fun f => .malformed (.fault f)
  WeaveCheck.starts insns starts
  let insns := Instruction.withLines starts insns
  WeaveCheck.without r.isa .pinned .pinned (insns.drop (prologueLength r.isa insns))
  return insns

/-- The new body of a unit whose sites are known. -/
def bodyWith (r : Weaver ρ) (u : CodeUnit) (unitIndex : UInt32) (topLevel : Bool)
    (insns : List Instruction) (candidates : Nat) (sites : List Nat) :
    Except WeaveCause WovenBody := do
  unless sites.isEmpty do WeaveCheck.without r.isa .indirect .indirect insns
  let out ← r.insert u unitIndex topLevel insns sites
  let code ← (r.isa.encodeAll out).mapError .ofFault
  let lineTable ←
    (LineTable.encode r.sign (Instruction.lineRuns out) u.firstLine).mapError .ofFault
  return ⟨code, lineTable, candidates, sites.length⟩

/-- The new body of a unit of rank `unitIndex`. A unit without instructions keeps its line table. -/
def body (r : Weaver ρ) (u : CodeUnit) (unitIndex : UInt32) (topLevel : Bool) :
    ExceptT WeaveCause (StateM ρ) WovenBody := do
  let insns ← r.prepare u
  if insns.isEmpty then return ⟨[], u.lineTable, 0, 0⟩
  let entryOnly := topLevel && r.topLevel = .entryOnly
  let (candidates, sites) ← selectSites r.isa insns r.policy entryOnly r.sampler
  r.bodyWith u unitIndex topLevel insns candidates sites

/-- The unit with a new body and a new pool. -/
def rebuild (u : CodeUnit) (body : WovenBody) (consts : Pool) : CodeUnit :=
  ⟨u.name, u.firstLine, body.code, consts, body.lineTable⟩

/-- One unit woven as the root of its tree, the units nested in it left as they are. -/
def unit (r : Weaver ρ) (u : CodeUnit) (topLevel : Bool) :
    ExceptT WeaveFault (StateM ρ) CodeUnit := do
  let body ← (r.body u 0 topLevel).adapt (WeaveFault.ofUnit u.name)
  return rebuild u body u.consts

end Weaver

end CoverProbe
