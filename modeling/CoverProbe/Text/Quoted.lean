import CoverProbe.Text.Hex
import CoverProbe.Text.Printable

set_option relaxedAutoImplicit false
set_option autoImplicit false

/-!
# Quoted text

A text between quotes, with the characters escaped that would end it or could not be seen.

## Main definitions

* `CoverProbe.Quoted.escape` — the written form of one character.
* `CoverProbe.Quoted.string`, `CoverProbe.Quoted.char` — a text between double quotes, a character
  between single quotes.
-/

namespace CoverProbe.Quoted

/-- The code point of a character, written in hexadecimal between braces. -/
def codePoint (c : Char) : List Char :=
  ['\\', 'u', '{'] ++ Nat.toDigits 16 c.toNat ++ ['}']

/-- The written form of a character between the quotes `quote`. -/
def escape (quote c : Char) : List Char :=
  if c = '\x00' then ['\\', '0']
  else if c = '\t' then ['\\', 't']
  else if c = '\r' then ['\\', 'r']
  else if c = '\n' then ['\\', 'n']
  else if c = '\\' ∨ c = quote then ['\\', c]
  else if 0x20 ≤ c.toNat ∧ c.toNat < 0x7F then [c]
  else if Text.isExtender c ∨ Text.isHidden c then codePoint c
  else [c]

/-- A text between quotes. -/
def between (quote : Char) (text : List Char) : String :=
  String.ofList (quote :: text.flatMap (escape quote) ++ [quote])

/-- A text between double quotes. -/
def string (s : String) : String :=
  between '"' s.toList

/-- A character between single quotes. -/
def char (c : Char) : String :=
  between '\'' [c]

end CoverProbe.Quoted
