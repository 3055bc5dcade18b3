import CoverProbe.Assembly.Statement
import CoverProbe.Assembly.Builder
import CoverProbe.Instruction.Standard
import CoverProbe.Proofs.Decimal.Reading
import CoverProbe.Proofs.Text.Blank
import CoverProbe.Proofs.Text.Hex

set_option relaxedAutoImplicit false
set_option autoImplicit false

/-!
# Programs and their texts

A program is a tree of units of standard instructions, told without regard to how it is written
down. It can be built, unit by unit from the innermost out, and it can be printed as assembly text in
many ways: blanks, comments, the case of mnemonics and the place of labels are free, pool and code of
a unit may be mixed, and a line number may be left out where the line does not change.

## Main definitions

* `CoverProbe.UnitName`, `CoverProbe.LabelName` — names that a text can spell.
* `CoverProbe.Program` — a tree of units.
* `CoverProbe.Program.build` — the unit that a program builds.
* `CoverProbe.Program.Prints` — the lines that print a program.

## Implementation notes

Printing is a relation between a program and the lines of its texts, so whatever is proved of it
holds of every layout. What a line says is its core; `Program.Line` adds the blanks and the comment
around it.
-/

namespace CoverProbe

/-! ## Names -/

/-- A text that begins neither a string nor a comment. -/
def Literal.Plain (text : List Char) : Prop :=
  ∀ c ∈ text, c ≠ ';' ∧ c ≠ '"'

instance (text : List Char) : Decidable (Literal.Plain text) :=
  List.decidableBAll _ text

/-- A name that a text can give to a unit. -/
structure UnitName where
  text : List Char
  word : Text.IsWord text
  plain : Literal.Plain text

/-- A name that a text can give to a label: it cannot be taken for a line number or a directive. -/
structure LabelName extends UnitName where
  noColon : ':' ∉ text
  notNumber : ∃ c ∈ text, Decimal.isDigit c = false
  noDot : text.head? ≠ some '.'

namespace UnitName

/-- The name of a unit. -/
def name (n : UnitName) : String :=
  String.ofList n.text

end UnitName

/-! ## Programs -/

namespace Program

/-- A constant that a text can spell without strings and fractions. -/
inductive Plain
  | null
  | bool (value : Bool)
  | int (value : Int64)
  | bytes (value : List UInt8)
deriving DecidableEq, Repr

/-- The constant itself. -/
def Plain.value : Plain → Constant CodeUnit
  | null => .null
  | bool value => .bool value
  | int value => .int value
  | bytes value => .bytes value

/-- What a slot of a pool is filled with: a constant, or a nested program. -/
inductive Slot (π : Type)
  | plain (constant : Plain)
  | unit (nested : π)

/-- An operand, if there is one. -/
inductive Argument
  | none
  | word (value : UInt32)
  | label (name : LabelName)

/-- Is there an operand? -/
def Argument.isSome : Argument → Bool
  | none => false
  | _ => true

/-- An instruction that has an operand exactly when its opcode takes one. -/
structure Insn where
  op : Opcode
  arg : Argument
  line : UInt32
  arity : arg.isSome = op.hasArg

/-- A step of the code of a unit. -/
inductive Entry
  | label (name : LabelName)
  | insn (insn : Insn)

end Program

/-- A unit of standard instructions with what fills its pool. -/
structure Program where
  name : UnitName
  firstLine : UInt32
  pool : List (Program.Slot Program)
  code : List Program.Entry

namespace Program

/-! ## Building -/

/-- The builder after an instruction. -/
def Insn.perform (b : Builder) (i : Insn) : Builder :=
  match i.arg with
  | .none => b.emit i.line i.op.byte none
  | .word value => b.emit i.line i.op.byte (some value)
  | .label name => b.jump i.line i.op.byte name.name

/-- The builder after a step of the code; a name bound before is refused. -/
def Entry.perform (b : Builder) : Entry → Except Fault Builder
  | label name =>
    match b.label name.name with
    | (.ok (), b) => .ok b
    | (.error cause, _) => .error cause
  | insn i => .ok (i.perform b)

mutual

/-- The unit that a program builds, its line tables written by `sign`. -/
def build (sign : SignConvention) : Program → Except Fault CodeUnit
  | ⟨name, firstLine, pool, code⟩ => do
    let b ← fill sign { name := name.name, firstLine, sign } pool
    let b ← code.foldlM Entry.perform b
    b.finish .standard

/-- The builder after its pool is filled, nested units built first. -/
def fill (sign : SignConvention) (b : Builder) : List (Slot Program) → Except Fault Builder
  | [] => .ok b
  | .plain constant :: rest => fill sign (b.addConstant constant.value) rest
  | .unit nested :: rest => do
    let u ← nested.build sign
    fill sign (b.addConstant (.unit u)) rest

end

/-! ## Printing -/

/-- Blanks that separate words. -/
def Gap (gap : List Char) : Prop :=
  gap ≠ [] ∧ Text.Blanks gap

/-- A line that says `core`, with blanks around it and a comment behind, or without. -/
def Line (core line : List Char) : Prop :=
  '\n' ∉ line ∧ ∃ indent trail comment, Text.Blanks indent ∧ Text.Blanks trail ∧
    (comment = [] ∨ ∃ remark, comment = ';' :: remark) ∧
    line = indent ++ core ++ trail ++ comment

/-- A line that says its core and nothing else. -/
lemma Line.bare {core : List Char} (h : '\n' ∉ core) : Line core core :=
  ⟨h, [], [], [], List.forall_mem_nil _, List.forall_mem_nil _, .inl rfl, by simp⟩

/-- A line with blanks and a comment around its core. -/
lemma Line.decorated {core : List Char} (indent trail remark : List Char)
    (hindent : Text.Blanks indent) (htrail : Text.Blanks trail)
    (h : '\n' ∉ indent ++ core ++ trail ++ ';' :: remark) :
    Line core (indent ++ core ++ trail ++ ';' :: remark) :=
  ⟨h, indent, trail, _, hindent, htrail, .inr ⟨remark, rfl⟩, rfl⟩

/-- The texts that open a unit. -/
def Header (name : UnitName) (firstLine : UInt32) (text : List Char) : Prop :=
  ∃ gap gap' digits, Gap gap ∧ Gap gap' ∧ Decimal.Spells digits firstLine.toNat ∧
    text = ".unit".toList ++ gap ++ (name.text ++ gap' ++ digits)

/-- The texts of a constant. -/
inductive Plain.Prints : Plain → List Char → Prop
  | null : Prints .null "none".toList
  | isTrue : Prints (.bool true) "true".toList
  | isFalse : Prints (.bool false) "false".toList
  | int {value : Int64} {gap digits : List Char} (hgap : Gap gap)
      (hdigits : Decimal.SpellsInt digits value.toInt) :
      Prints (.int value) ("int".toList ++ gap ++ digits)
  | noBytes : Prints (.bytes []) "bytes".toList
  | bytes {value : List UInt8} {gap digits : List Char} (hgap : Gap gap) (hne : digits ≠ [])
      (hdigits : Hex.Spells digits value) :
      Prints (.bytes value) ("bytes".toList ++ gap ++ digits)

/-- The names of an opcode, in any case of its letters. -/
def Mnemonic (op : Opcode) (text : List Char) : Prop :=
  text.map Char.toLower = op.mnemonic.toList.map Char.toLower

instance (op : Opcode) (text : List Char) : Decidable (Mnemonic op text) :=
  inferInstanceAs (Decidable (_ = _))

/-- The texts of an instruction, without its line. -/
inductive Insn.Prints (i : Insn) : List Char → Prop
  | bare {name : List Char} (hname : Mnemonic i.op name) (harg : i.arg = .none) : Prints i name
  | word {name gap digits : List Char} {value : UInt32} (hname : Mnemonic i.op name)
      (hgap : Gap gap) (harg : i.arg = .word value) (hdigits : Decimal.Spells digits value.toNat) :
      Prints i (name ++ gap ++ digits)
  | label {name gap : List Char} {target : LabelName} (hname : Mnemonic i.op name)
      (hgap : Gap gap) (harg : i.arg = .label target) :
      Prints i (name ++ gap ++ '@' :: target.text)

/-- The texts of an instruction where the current line is `current`: its line may be left out if that
is the current one. -/
inductive Insn.PrintsAt (current : UInt32) (i : Insn) : List Char → Prop
  | bare {text : List Char} (hline : i.line = current) (h : i.Prints text) : PrintsAt current i text
  | numbered {digits gap text : List Char} (hdigits : Decimal.Spells digits i.line.toNat)
      (hgap : Text.Blanks gap) (h : i.Prints text) :
      PrintsAt current i (digits ++ (':' :: gap) ++ text)

/-- The lines that print the rest of a unit: what its pool is still to be filled with, and its code
from the current line on. A label has a line of its own or stands in front of its instruction, before
the line number if there is one. -/
inductive Body : UInt32 → List (Slot Program) → List Entry → List (List Char) → Prop
  | done {current : UInt32} : Body current [] [] []
  | blank {current : UInt32} {pool : List (Slot Program)} {code : List Entry} {line : List Char}
      {rest : List (List Char)} (h : Line [] line) (hrest : Body current pool code rest) :
      Body current pool code (line :: rest)
  | plain {current : UInt32} {constant : Plain} {pool : List (Slot Program)} {code : List Entry}
      {gap text line : List Char} {rest : List (List Char)} (hgap : Gap gap)
      (htext : constant.Prints text) (h : Line (".const".toList ++ gap ++ text) line)
      (hrest : Body current pool code rest) :
      Body current (.plain constant :: pool) code (line :: rest)
  | unit {current : UInt32} {nested : Program} {pool : List (Slot Program)} {code : List Entry}
      {text opening closing : List Char} {body rest : List (List Char)}
      (htext : Header nested.name nested.firstLine text) (hopen : Line text opening)
      (hbody : Body nested.firstLine nested.pool nested.code body)
      (hclose : Line ".end".toList closing) (hrest : Body current pool code rest) :
      Body current (.unit nested :: pool) code (opening :: (body ++ closing :: rest))
  | label {current : UInt32} {pool : List (Slot Program)} {name : LabelName} {code : List Entry}
      {line : List Char} {rest : List (List Char)} (h : Line (name.text ++ [':']) line)
      (hrest : Body current pool code rest) :
      Body current pool (.label name :: code) (line :: rest)
  | insn {current : UInt32} {pool : List (Slot Program)} {i : Insn} {code : List Entry}
      {text line : List Char} {rest : List (List Char)} (htext : i.PrintsAt current text)
      (h : Line text line) (hrest : Body i.line pool code rest) :
      Body current pool (.insn i :: code) (line :: rest)
  | labelled {current : UInt32} {pool : List (Slot Program)} {name : LabelName} {i : Insn}
      {code : List Entry} {gap text line : List Char} {rest : List (List Char)}
      (hgap : Text.Blanks gap) (htext : i.PrintsAt current text)
      (h : Line (name.text ++ (':' :: gap) ++ text) line) (hrest : Body i.line pool code rest) :
      Body current pool (.label name :: .insn i :: code) (line :: rest)

/-- The lines that print a program. -/
def Prints (p : Program) (lines : List (List Char)) : Prop :=
  ∃ before text opening body closing after, (∀ line ∈ before, Line [] line) ∧
    Header p.name p.firstLine text ∧ Line text opening ∧
    Body p.firstLine p.pool p.code body ∧ Line ".end".toList closing ∧
    (∀ line ∈ after, Line [] line) ∧
    lines = before ++ opening :: (body ++ closing :: after)

end Program

end CoverProbe
