import CoverProbe.Json.Basic
import CoverProbe.Text.Hex

set_option relaxedAutoImplicit false
set_option autoImplicit false

/-!
# Writing JSON

The text of a JSON value, either without any blanks or with one item a line.

## Main definitions

* `CoverProbe.Json.quoted` — a string.
* `CoverProbe.Json.compact` — the text without blanks.
* `CoverProbe.Json.pretty` — the text with two blanks for each level of nesting.

## Implementation notes

Only quotes, backslashes and control characters are escaped. A string without a text is written as
the empty string.
-/

namespace CoverProbe.Json

/-- The written form of one character of a string. -/
def escape (c : Char) : List Char :=
  if c = '"' then ['\\', '"']
  else if c = '\\' then ['\\', '\\']
  else if c = '\x08' then ['\\', 'b']
  else if c = '\t' then ['\\', 't']
  else if c = '\n' then ['\\', 'n']
  else if c = '\x0c' then ['\\', 'f']
  else if c = '\r' then ['\\', 'r']
  else if c.toNat < 0x20 then '\\' :: 'u' :: (Hex.lower 4 c.toNat).toList
  else [c]

/-- A string between quotes. -/
def quoted (s : String) : String :=
  String.ofList ('"' :: s.toList.flatMap escape ++ ['"'])

/-- The text of a value that has no parts. -/
def leaf : Json → String
  | null => "null"
  | bool true => "true"
  | bool false => "false"
  | number spelling => spelling
  | string text => quoted (text.getD "")
  | array _ => "[]"
  | object _ => "\x7b\x7d"

mutual

/-- The text of a value, without blanks. -/
def compact : Json → String
  | array items => "[" ++ ",".intercalate (compactItems items) ++ "]"
  | object members => "\x7b" ++ ",".intercalate (compactMembers members) ++ "\x7d"
  | value => leaf value

/-- The texts of the items of an array. -/
def compactItems : List Json → List String
  | [] => []
  | item :: rest => compact item :: compactItems rest

/-- The texts of the members of an object. -/
def compactMembers : List (Option String × Json) → List String
  | [] => []
  | (name, value) :: rest => (quoted (name.getD "") ++ ":" ++ compact value) :: compactMembers rest

end

/-- A line end and the blanks of a level of nesting. -/
def newLine (level : Nat) : String :=
  String.ofList ('\n' :: List.replicate (2 * level) ' ')

/-- Parts between brackets, one a line. -/
def block (level : Nat) (opening closing : String) (parts : List String) : String :=
  let inner := newLine (level + 1)
  opening ++ inner ++ ("," ++ inner).intercalate parts ++ newLine level ++ closing

mutual

/-- The text of a value at a level of nesting, with one item a line. -/
def prettyAt (level : Nat) : Json → String
  | array (item :: rest) => block level "[" "]" (prettyItems (level + 1) (item :: rest))
  | object (member :: rest) =>
    block level "\x7b" "\x7d" (prettyMembers (level + 1) (member :: rest))
  | value => leaf value

/-- The texts of the items of an array. -/
def prettyItems (level : Nat) : List Json → List String
  | [] => []
  | item :: rest => prettyAt level item :: prettyItems level rest

/-- The texts of the members of an object. -/
def prettyMembers (level : Nat) : List (Option String × Json) → List String
  | [] => []
  | (name, value) :: rest =>
    (quoted (name.getD "") ++ ": " ++ prettyAt level value) :: prettyMembers level rest

end

/-- The text of a value, with one item a line. -/
def pretty (j : Json) : String :=
  prettyAt 0 j

end CoverProbe.Json
