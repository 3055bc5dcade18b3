import CoverProbe.Text.Hex

set_option relaxedAutoImplicit false
set_option autoImplicit false

/-!
# Texts in TOML

Blanks, comments, strings and keys at the front of a text. Each function yields what it has read
and the rest of the text.

## Main definitions

* `CoverProbe.Toml.gap`, `CoverProbe.Toml.lineEnd?` — blanks and comments.
* `CoverProbe.Toml.string?` — a string in any of its four forms.
* `CoverProbe.Toml.key?` — a key, possibly dotted.
-/

namespace CoverProbe.Toml

/-! ## Blanks and comments -/

/-- Is this a blank within a line? -/
def isSpace (c : Char) : Bool :=
  c = ' ' || c = '\t'

/-- May the character stand in a comment or in a string? Control characters other than the tab may
not. -/
def isVisible (c : Char) : Bool :=
  c = '\t' || (0x20 ≤ c.toNat && c.toNat ≠ 0x7F)

/-- The text behind the blanks in front. -/
def skip (text : List Char) : List Char :=
  text.dropWhile isSpace

/-- The text behind a line end. -/
def newLine? : List Char → Option (List Char)
  | '\n' :: rest => some rest
  | '\r' :: '\n' :: rest => some rest
  | _ => none

/-- The text behind the blanks, the comment and the line end that close a line; the last line needs
no line end. -/
def lineEnd? (text : List Char) : Option (List Char) :=
  let rest :=
    match skip text with
    | '#' :: comment => comment.dropWhile isVisible
    | rest => rest
  match rest with
  | [] => some []
  | _ => newLine? rest

/-- The text behind blanks, line ends and comments; `inComment` says whether a comment is open. -/
def gapFrom (inComment : Bool) : List Char → List Char
  | [] => []
  | '\r' :: '\n' :: rest => gapFrom false rest
  | c :: rest =>
    if c = '\n' then gapFrom false rest
    else if inComment then if isVisible c then gapFrom true rest else c :: rest
    else if isSpace c then gapFrom false rest
    else if c = '#' then gapFrom true rest
    else c :: rest

/-- The text behind blanks, line ends and comments. -/
def gap (text : List Char) : List Char :=
  gapFrom false text

/-! ## Strings -/

/-- The character with a code point given by hexadecimal digits. -/
def codePoint? (digits : List Char) : Option Char := do
  let code ← Hex.toNat? (String.ofList digits)
  if code.isValidChar then some (Char.ofNat code) else none

/-- The character that a one-letter escape stands for. -/
def escaped? (c : Char) : Option Char :=
  if c = '"' ∨ c = '\\' then some c
  else if c = 'b' then some '\x08'
  else if c = 't' then some '\t'
  else if c = 'n' then some '\n'
  else if c = 'f' then some '\x0c'
  else if c = 'r' then some '\r'
  else none

/-- The characters of a basic string up to its closing quote. -/
def basic? : List Char → Option (List Char × List Char)
  | [] => none
  | '"' :: rest => some ([], rest)
  | '\\' :: 'u' :: a :: b :: c :: d :: rest => do
    let first ← codePoint? [a, b, c, d]
    let (more, rest) ← basic? rest
    return (first :: more, rest)
  | '\\' :: 'U' :: a :: b :: c :: d :: e :: f :: g :: h :: rest => do
    let first ← codePoint? [a, b, c, d, e, f, g, h]
    let (more, rest) ← basic? rest
    return (first :: more, rest)
  | '\\' :: c :: rest => do
    let first ← escaped? c
    let (more, rest) ← basic? rest
    return (first :: more, rest)
  | c :: rest => do
    guard (isVisible c ∧ c ≠ '\\')
    let (more, rest) ← basic? rest
    return (c :: more, rest)

/-- The characters of a literal string up to its closing quote. -/
def literal? : List Char → Option (List Char × List Char)
  | [] => none
  | '\'' :: rest => some ([], rest)
  | c :: rest => do
    guard (isVisible c)
    let (more, rest) ← literal? rest
    return (c :: more, rest)

/-- Where the reader of a basic string of several lines stands. -/
inductive Fold
  /-- In the string. -/
  | inText
  /-- Behind a backslash and blanks, which a line end must follow. -/
  | awaitingLine
  /-- Behind a folded line end, where blanks and line ends are left out. -/
  | folded

/-- The characters of a basic string of several lines up to its closing quotes, of which up to two
more may stand before them. -/
def lines? : Fold → List Char → Option (List Char × List Char)
  | _, [] => none
  | .awaitingLine, '\n' :: rest => lines? .folded rest
  | .awaitingLine, '\r' :: '\n' :: rest => lines? .folded rest
  | .awaitingLine, c :: rest => if isSpace c then lines? .awaitingLine rest else none
  | .folded, '\r' :: '\n' :: rest => lines? .folded rest
  | .inText, '"' :: '"' :: '"' :: '"' :: '"' :: rest => some (['"', '"'], rest)
  | .inText, '"' :: '"' :: '"' :: '"' :: rest => some (['"'], rest)
  | .inText, '"' :: '"' :: '"' :: rest => some ([], rest)
  | .inText, '\\' :: 'u' :: a :: b :: c :: d :: rest => do
    let first ← codePoint? [a, b, c, d]
    let (more, rest) ← lines? .inText rest
    return (first :: more, rest)
  | .inText, '\\' :: 'U' :: a :: b :: c :: d :: e :: f :: g :: h :: rest => do
    let first ← codePoint? [a, b, c, d, e, f, g, h]
    let (more, rest) ← lines? .inText rest
    return (first :: more, rest)
  | .inText, '\\' :: '\n' :: rest => lines? .folded rest
  | .inText, '\\' :: c :: rest =>
    if isSpace c ∨ c = '\r' then lines? .awaitingLine (c :: rest)
    else do
      let first ← escaped? c
      let (more, rest) ← lines? .inText rest
      return (first :: more, rest)
  | .inText, '\r' :: '\n' :: rest => do
    let (more, rest) ← lines? .inText rest
    return ('\n' :: more, rest)
  | .folded, c :: rest =>
    if isSpace c ∨ c = '\n' then lines? .folded rest else lines? .inText (c :: rest)
  | .inText, c :: rest =>
    if (isVisible c ∧ c ≠ '\\') ∨ c = '\n' then do
      let (more, rest) ← lines? .inText rest
      return (c :: more, rest)
    else none
termination_by mode text => (text.length, match mode with | .folded => 1 | _ => 0)

/-- The characters of a literal string of several lines up to its closing quotes. -/
def literalLines? : List Char → Option (List Char × List Char)
  | [] => none
  | '\'' :: '\'' :: '\'' :: '\'' :: '\'' :: rest => some (['\'', '\''], rest)
  | '\'' :: '\'' :: '\'' :: '\'' :: rest => some (['\''], rest)
  | '\'' :: '\'' :: '\'' :: rest => some ([], rest)
  | '\r' :: '\n' :: rest => do
    let (more, rest) ← literalLines? rest
    return ('\n' :: more, rest)
  | c :: rest => do
    guard (isVisible c ∨ c = '\n')
    let (more, rest) ← literalLines? rest
    return (c :: more, rest)

/-- The text behind a line end at its front, if there is one. -/
def dropNewLine (text : List Char) : List Char :=
  (newLine? text).getD text

/-- A string in any of its forms. -/
def string? : List Char → Option (String × List Char)
  | '"' :: '"' :: '"' :: rest => (lines? .inText (dropNewLine rest)).map toText
  | '\'' :: '\'' :: '\'' :: rest => (literalLines? (dropNewLine rest)).map toText
  | '"' :: rest => (basic? rest).map toText
  | '\'' :: rest => (literal? rest).map toText
  | _ => none
where
  /-- What was read, as a string. -/
  toText : List Char × List Char → String × List Char
    | (chars, rest) => (String.ofList chars, rest)

/-! ## Keys -/

/-- May the character stand in a bare key? -/
def isBare (c : Char) : Bool :=
  ('a' ≤ c && c ≤ 'z') || ('A' ≤ c && c ≤ 'Z') || ('0' ≤ c && c ≤ '9') || c = '_' || c = '-'

/-- One part of a key. -/
def simpleKey? (text : List Char) : Option (String × List Char) :=
  match text with
  | '"' :: rest => (basic? rest).map fun (chars, rest) => (String.ofList chars, rest)
  | '\'' :: rest => (literal? rest).map fun (chars, rest) => (String.ofList chars, rest)
  | _ =>
    let chars := text.takeWhile isBare
    if chars = [] then none else some (String.ofList chars, text.dropWhile isBare)

/-- The greatest number of parts of a key, and of values around a value. -/
def maxDepth : Nat := 79

/-- A key of at most `parts` parts with dots between them, and blanks around the dots. -/
def keyParts? : (parts : Nat) → List Char → Option (List String × List Char)
  | 0, _ => none
  | parts + 1, text => do
    let (first, rest) ← simpleKey? (skip text)
    match skip rest with
    | '.' :: rest =>
      let (more, rest) ← keyParts? parts rest
      return (first :: more, rest)
    | rest => return ([first], rest)

/-- A key, possibly dotted, and the text behind the blanks that follow it. -/
def key? (text : List Char) : Option (List String × List Char) :=
  keyParts? maxDepth text

end CoverProbe.Toml
