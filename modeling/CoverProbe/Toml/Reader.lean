import CoverProbe.Toml.Tree

set_option relaxedAutoImplicit false
set_option autoImplicit false

/-!
# Reading TOML

A text is a list of statements, one a line: a header, which says where the keys behind it belong, or
a key with its value.

## Main definitions

* `CoverProbe.Toml.value?` — a value at the front of a text.
* `CoverProbe.Toml.Statement`, `CoverProbe.Toml.statements?` — the statements of a text.
* `CoverProbe.Toml.parse?` — what a text says.

## Implementation notes

Values nest at most `CoverProbe.Toml.maxDepth` deep. Besides that depth the readers carry a fuel
that bounds the number of nested calls; each of them reads a character, or follows one that did.
-/

namespace CoverProbe.Toml

/-! ## Values -/

mutual

/-- A value at the front of a text, inside at most `depth` further values. -/
def value? : (fuel depth : Nat) → List Char → Option (Document × List Char)
  | 0, _, _ => none
  | fuel + 1, depth, text =>
    match text with
    | '"' :: _ => (string? text).map fun (s, rest) => (.text s, rest)
    | '\'' :: _ => (string? text).map fun (s, rest) => (.text s, rest)
    | '[' :: rest => do
      guard (depth ≠ 0)
      let (found, rest) ← items? fuel (depth - 1) rest
      return (.list found, rest)
    | '\x7b' :: rest => do
      guard (depth ≠ 0)
      match skip rest with
      | '\x7d' :: rest => return (.table [], rest)
      | rest =>
        let (found, rest) ← members? fuel (depth - 1) .root rest
        return (found.toDocument, rest)
    | _ => scalar? text

/-- The items of an array up to its closing bracket. -/
def items? : (fuel depth : Nat) → List Char → Option (List Document × List Char)
  | 0, _, _ => none
  | fuel + 1, depth, text =>
    match gap text with
    | ']' :: rest => some ([], rest)
    | text => do
      let (first, rest) ← value? fuel depth text
      match gap rest with
      | ',' :: rest =>
        let (more, rest) ← items? fuel depth rest
        return (first :: more, rest)
      | ']' :: rest => return ([first], rest)
      | _ => none

/-- The members of an inline table up to its closing brace, behind those of `t`. -/
def members? : (fuel depth : Nat) → Table → List Char → Option (Table × List Char)
  | 0, _, _, _ => none
  | fuel + 1, depth, t, text => do
    let (key, rest) ← key? text
    match rest with
    | '=' :: rest =>
      let (d, rest) ← value? fuel depth (skip rest)
      let t ← t.insert? key d
      match skip rest with
      | ',' :: rest => members? fuel depth t rest
      | '\x7d' :: rest => return (t, rest)
      | _ => none
    | _ => none

end

/-! ## Statements -/

/-- A line of a text. -/
inductive Statement
  /-- The keys that follow belong to a table. -/
  | header (key : List String)
  /-- The keys that follow belong to a new table of a list. -/
  | listHeader (key : List String)
  | pair (key : List String) (value : Document)

/-- A statement at the front of a text, and the text behind its line. -/
def statement? (fuel : Nat) (text : List Char) : Option (Statement × List Char) :=
  match text with
  | '[' :: '[' :: rest => do
    let (key, rest) ← key? rest
    match rest with
    | ']' :: ']' :: rest => return (.listHeader key, ← lineEnd? rest)
    | _ => none
  | '[' :: rest => do
    let (key, rest) ← key? rest
    match rest with
    | ']' :: rest => return (.header key, ← lineEnd? rest)
    | _ => none
  | _ => do
    let (key, rest) ← key? text
    match rest with
    | '=' :: rest =>
      let (d, rest) ← value? fuel maxDepth (skip rest)
      return (.pair key d, ← lineEnd? rest)
    | _ => none

/-- The statements of a text. -/
def statementsFrom? : (fuel : Nat) → List Char → Option (List Statement)
  | 0, _ => none
  | fuel + 1, text =>
    match skip text with
    | [] => some []
    | c :: rest =>
      if c = '#' ∨ c = '\n' ∨ c = '\r' then do
        statementsFrom? fuel (← lineEnd? (c :: rest))
      else do
        let (first, rest) ← statement? fuel (c :: rest)
        let more ← statementsFrom? fuel rest
        return first :: more

/-- The statements of a text, which a byte-order mark may precede. -/
def statements? (text : List Char) : Option (List Statement) :=
  let text := if text.head? = some '\uFEFF' then text.drop 1 else text
  statementsFrom? (2 * text.length + 2) text

/-! ## Texts -/

/-- A root table, and the path of the table to which keys belong. -/
structure Reading where
  root : Table
  path : List String

/-- The reading after one more statement. -/
def Reading.say? (r : Reading) : Statement → Option Reading
  | .header key => do return ⟨← r.root.open? key, key⟩
  | .listHeader key => do return ⟨← r.root.append? key, key⟩
  | .pair key d => do
    return { r with root := ← Table.update? false (Table.insert? key d) r.path r.root }

/-- What a text says. -/
def parse? (text : String) : Option Document := do
  let found ← statements? text.toList
  let reading ← found.foldlM Reading.say? ⟨.root, []⟩
  return reading.root.toDocument

end CoverProbe.Toml
