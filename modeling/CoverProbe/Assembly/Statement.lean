import CoverProbe.Decimal.Reading
import CoverProbe.Fault
import CoverProbe.Instruction.Opcode
import CoverProbe.Text.Blank
import CoverProbe.Text.Quoted
import CoverProbe.Unit.Basic

set_option relaxedAutoImplicit false
set_option autoImplicit false

/-!
# Statements of assembly text

A line of assembly text opens a unit, closes one, or says something about the unit that is open:

```text
.unit NAME LINE
.end
.const none|true|false|int N|float F|str "…"|bytes HEX
label: 12: MNEMONIC operand
```

A semicolon outside a string starts a comment. What a line says about the open unit is a list of
clauses, taken one after the other; a malformed clause stands where it was found, so what is said
before it still counts.

## Main definitions

* `CoverProbe.SyntaxFault` — why a line is refused.
* `CoverProbe.Statement`, `CoverProbe.Clause` — what a line says.
* `CoverProbe.Statement.ofLine` — the statement of a line that is not blank.
-/

namespace CoverProbe

/-! ## Faults -/

/-- Why a line of assembly text is refused. -/
inductive SyntaxFault
  | contentAfterEnd
  | unitName
  | unitLine
  | firstLine (cause : IntegerFault)
  | endOutside
  | outside
  | missingEnd
  | noUnit
  /-- The unit that the line closes, or the label that it binds, is refused. -/
  | unit (cause : Fault)
  | lineNumber (cause : IntegerFault)
  | unsupported (mnemonic : String)
  | tooManyOperands (op : Opcode)
  | noOperand (op : Opcode)
  | operandExpected (op : Opcode)
  | operand (text : String) (cause : IntegerFault)
  | intConstant (cause : IntegerFault)
  | floatConstant (cause : FloatFault)
  | constantKind (kind : String)
  | stringExpected
  | openEscape
  | oddHex
  /-- A byte of the text is no hexadecimal digit. -/
  | hexDigit (byte : UInt8)
deriving DecidableEq, Repr

/-- The text of a syntax fault. -/
def SyntaxFault.message : SyntaxFault → String
  | contentAfterEnd => "content after the root `.end`"
  | unitName => "`.unit` expects a name"
  | unitLine => "`.unit` expects a first line"
  | firstLine cause => s!"first line: {cause.message}"
  | endOutside => "`.end` without `.unit`"
  | outside => "instruction outside `.unit`"
  | missingEnd => "missing `.end`"
  | noUnit => "no `.unit` found"
  | unit cause => cause.message
  | lineNumber cause => s!"line number: {cause.message}"
  | unsupported mnemonic => s!"unsupported instruction `{mnemonic}`"
  | tooManyOperands op => s!"{op.mnemonic} takes at most one operand"
  | noOperand op => s!"{op.mnemonic} takes no operand"
  | operandExpected op => s!"{op.mnemonic} expects an operand"
  | operand text cause => s!"operand `{text}`: {cause.message}"
  | intConstant cause => s!"int constant: {cause.message}"
  | floatConstant cause => s!"float constant: {cause.message}"
  | constantKind kind => s!"unknown constant kind `{kind}`"
  | stringExpected => "string literal expected"
  | openEscape => "incomplete escape sequence"
  | oddHex => "hex literal needs an even number of digits"
  | hexDigit byte => s!"hex literal: invalid digit {Quoted.char (Char.ofNat byte.toNat)}"

/-! ## Statements -/

/-- One thing that a line says about the open unit. -/
inductive Clause
  | constant (value : Constant CodeUnit)
  | label (name : String)
  /-- The source line of the instructions that follow. -/
  | line (number : UInt32)
  | plain (op : Opcode) (arg : Option UInt32)
  | jump (op : Opcode) (label : String)
  | malformed (cause : SyntaxFault)

/-- What a line says. -/
inductive Statement
  /-- Opens a unit, unless its header is malformed. -/
  | open (header : Except SyntaxFault (String × UInt32))
  /-- Closes the open unit. -/
  | close
  /-- Speaks of the open unit. -/
  | body (clauses : List Clause)

/-! ## Constants -/

namespace Literal

/-- The text up to the first semicolon outside a string. In a string, a backslash hides the
character behind it. -/
def withoutComment (inString : Bool) : List Char → List Char
  | [] => []
  | '\\' :: c :: rest =>
    if inString then '\\' :: c :: withoutComment true rest
    else '\\' :: withoutComment false (c :: rest)
  | c :: rest =>
    if c = '"' then '"' :: withoutComment (!inString) rest
    else if c = ';' ∧ inString = false then []
    else c :: withoutComment inString rest

/-- The characters that an escaped text stands for. -/
def unescape : List Char → Except SyntaxFault (List Char)
  | [] => .ok []
  | ['\\'] => .error .openEscape
  | '\\' :: c :: rest => do
    let more ← unescape rest
    return (if c = 'n' then '\n' else if c = 't' then '\t' else c) :: more
  | c :: rest => do
    let more ← unescape rest
    return c :: more

/-- The text of a string literal: all that stands between its first and its last quote. -/
def string (text : List Char) : Except SyntaxFault String :=
  match text with
  | '"' :: second :: rest =>
    if (second :: rest).getLast? = some '"' then
      (unescape (second :: rest).dropLast).map String.ofList
    else .error .stringExpected
  | _ => .error .stringExpected

/-- The value of a hexadecimal digit. -/
def hexDigit (b : UInt8) : Except SyntaxFault Nat :=
  match Hex.value? (Char.ofNat b.toNat) with
  | some n => .ok n
  | none => .error (.hexDigit b)

/-- The bytes of a list of digit pairs. -/
def hexPairs : List UInt8 → Except SyntaxFault (List UInt8)
  | high :: low :: rest => do
    let h ← hexDigit high
    let l ← hexDigit low
    let more ← hexPairs rest
    return UInt8.ofNat (16 * h + l) :: more
  | _ => .ok []

/-- The bytes of a hexadecimal literal, judged by the bytes of its text. -/
def bytes (text : List Char) : Except SyntaxFault (List UInt8) :=
  let digits := (String.ofList text).toUTF8.data.toList
  if digits.length % 2 = 0 then hexPairs digits else .error .oddHex

/-- The constant of a `.const` directive: its kind, then the rest of the line. -/
def constant (text : List Char) : Except SyntaxFault (Constant CodeUnit) :=
  let (kind, rest) := (Text.cut? Text.isBlank text).getD (text, [])
  let rest := Text.trim rest
  match String.ofList kind with
  | "none" => .ok .null
  | "true" => .ok (.bool true)
  | "false" => .ok (.bool false)
  | "int" => ((Decimal.int64 rest).mapError .intConstant).map .int
  | "float" => ((Decimal.float rest).mapError .floatConstant).map .float
  | "str" => (string rest).map .str
  | "bytes" => (bytes rest).map .bytes
  | kind => .error (.constantKind kind)

end Literal

/-! ## Lines -/

namespace Clause

/-- The clause of an instruction with an operand text. -/
def withOperand (op : Opcode) (text : List Char) : Clause :=
  match text with
  | '@' :: name => .jump op (String.ofList name)
  | _ =>
    match Decimal.word text with
    | .ok value => .plain op (some value)
    | .error cause => .malformed (.operand (String.ofList text) cause)

/-- The clause of an instruction: a mnemonic and its operand. -/
def ofWords : List (List Char) → Clause
  | [] => .malformed (.unsupported "")
  | mnemonic :: operands =>
    match Opcode.ofMnemonic? mnemonic with
    | none => .malformed (.unsupported (String.ofList mnemonic))
    | some op =>
      match operands, op.hasArg with
      | _ :: _ :: _, _ => .malformed (.tooManyOperands op)
      | [], false => .plain op none
      | [_], false => .malformed (.noOperand op)
      | [], true => .malformed (.operandExpected op)
      | [text], true => withOperand op text

/-- The clauses of an instruction that may be missing. -/
def instruction (text : List Char) : List Clause :=
  if text = [] then [] else [ofWords (Text.words text)]

/-- The part of a text before its first colon, and the part behind it, both trimmed. -/
def colon? (text : List Char) : Option (List Char × List Char) :=
  (Text.cut? (· = ':') text).map fun (head, tail) => (Text.trim head, Text.trim tail)

/-- Is this a line number's text? -/
def isNumber (head : List Char) : Bool :=
  head ≠ [] && head.all Decimal.isDigit

/-- The clauses of a line number and what follows it. -/
def numbered (head : List Char) (following : List Clause) : List Clause :=
  match Decimal.word head with
  | .ok number => .line number :: following
  | .error cause => [.malformed (.lineNumber cause)]

/-- The clauses behind a label: an optional line number and an optional instruction. -/
def afterHead (text : List Char) : List Clause :=
  match colon? text with
  | some (head, tail) =>
    if isNumber head then numbered head (instruction tail) else instruction text
  | none => instruction text

/-- The clauses of a line: an optional label or line number, a further line number, and an
optional instruction. -/
def ofLine (text : List Char) : List Clause :=
  match colon? text with
  | some (head, tail) =>
    if head = [] ∨ head.any Text.isBlank then instruction text
    else if isNumber head then numbered head (afterHead tail)
    else .label (String.ofList head) :: afterHead tail
  | none => instruction text

end Clause

namespace Statement

/-- The name and the base line of a unit. -/
def header (text : List Char) : Except SyntaxFault (String × UInt32) :=
  match Text.words text with
  | [] => .error .unitName
  | [_] => .error .unitLine
  | name :: line :: _ =>
    match Decimal.word line with
    | .ok n => .ok (String.ofList name, n)
    | .error cause => .error (.firstLine cause)

/-- The text behind a directive, if the line begins with it. -/
def behind? (directive : String) (text : List Char) : Option (List Char) :=
  if directive.toList.isPrefixOf text then some (text.drop directive.length) else none

/-- The statement of a trimmed line. -/
def ofLine (text : List Char) : Statement :=
  match behind? ".unit" text with
  | some rest => .open (header rest)
  | none =>
    if text = ".end".toList then .close
    else
      match behind? ".const" text with
      | some rest =>
        match Literal.constant (Text.trim rest) with
        | .ok value => .body [.constant value]
        | .error cause => .body [.malformed cause]
      | none => .body (Clause.ofLine text)

end Statement

end CoverProbe
