import CoverProbe.Instruction.Basic

set_option relaxedAutoImplicit false
set_option autoImplicit false

/-!
# Candidates

The instructions of a stream that may get a probe. The pinned instructions at the front of a stream
form its prologue, which never gets one; the first instruction behind it is the entry, which is
always a candidate.

## Main definitions

* `CoverProbe.CandidatePolicy` — which instructions are candidates.
* `CoverProbe.Candidate` — a candidate with its place in the stream.
* `CoverProbe.prologueLength` — the length of the prologue.
* `CoverProbe.CandidatePolicy.candidates` — the candidates of a stream, in order.
-/

namespace CoverProbe

/-- Which instructions are candidates. -/
inductive CandidatePolicy
  /-- The first instruction of each source line. -/
  | distinctLines
  /-- The first instruction of each run on one source line. -/
  | lineStarts
  /-- The first instruction of each basic block: the entry, what a jump leads to, and what follows
  a jump. -/
  | blockLeaders
deriving DecidableEq, Repr

/-- An instruction that may get a probe. -/
structure Candidate where
  /-- Its position in the stream. -/
  index : Nat
  offset : UInt32
  line : UInt32
  /-- Is it the first instruction behind the prologue? -/
  entry : Bool
deriving DecidableEq, Repr

/-- The number of pinned instructions at the front of a stream. -/
def prologueLength (isa : InstructionSet) (insns : List Instruction) : Nat :=
  (insns.takeWhile fun i => isa.classOf i = .pinned).length

/-- Does control leave straight-line code behind an instruction of this class? -/
def OpClass.branches : OpClass → Bool
  | jump _ | indirect => true
  | plain | pinned => false

namespace CandidatePolicy

/-- The offsets that the jumps of a stream lead to. -/
def landings (isa : InstructionSet) (insns : List Instruction) : List Nat :=
  insns.filterMap fun i => if (isa.classOf i).isJump then isa.jumpTarget i else none

/-- Is the instruction `i` a candidate? The instructions between the prologue and `i` are `before`,
the last one first, and those behind it are `after`; jumps lead to `landings`. Of several
instructions at one offset, a jump leads to the last. -/
def admits (policy : CandidatePolicy) (isa : InstructionSet) (landings : List Nat)
    (before : List Instruction) (i : Instruction) (after : List Instruction) : Bool :=
  match policy with
  | distinctLines => before.all fun b => b.line ≠ i.line
  | lineStarts => before.head?.all fun b => b.line ≠ i.line
  | blockLeaders =>
    before.head?.all (fun b => (isa.classOf b).branches) ||
      (landings.contains i.offset.toNat && after.all fun a => a.offset ≠ i.offset)

/-- The candidates among the instructions from position `index` on, behind `before`. -/
def candidatesFrom (policy : CandidatePolicy) (isa : InstructionSet) (landings : List Nat)
    (index : Nat) (before : List Instruction) : List Instruction → List Candidate
  | [] => []
  | i :: after =>
    let more := candidatesFrom policy isa landings (index + 1) (i :: before) after
    if policy.admits isa landings before i after then
      ⟨index, i.offset, i.line, before.isEmpty⟩ :: more
    else more

/-- The candidates of a stream, in order. -/
def candidates (policy : CandidatePolicy) (isa : InstructionSet) (insns : List Instruction) :
    List Candidate :=
  let start := prologueLength isa insns
  policy.candidatesFrom isa (landings isa insns) start [] (insns.drop start)

end CandidatePolicy

end CoverProbe
