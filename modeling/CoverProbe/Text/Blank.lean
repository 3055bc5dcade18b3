set_option relaxedAutoImplicit false
set_option autoImplicit false

/-!
# Blanks, lines and words

Cutting a text into lines, and a line into words. Texts are lists of characters here.

## Main definitions

* `CoverProbe.Text.isBlank` — the characters with the Unicode property `White_Space`.
* `CoverProbe.Text.trim` — a text without the blanks at its ends.
* `CoverProbe.Text.words` — the stretches without blanks.
* `CoverProbe.Text.lines` — the lines, each without its line end.
* `CoverProbe.Text.cut?` — the parts around the first character of a kind.
-/

namespace CoverProbe.Text

/-- Has the character the property `White_Space`? -/
def isBlank (c : Char) : Bool :=
  let n := c.toNat
  (9 ≤ n && n ≤ 13) || n = 0x20 || n = 0x85 || n = 0xA0 || n = 0x1680 ||
    (0x2000 ≤ n && n ≤ 0x200A) || n = 0x2028 || n = 0x2029 || n = 0x202F || n = 0x205F ||
    n = 0x3000

/-- The text without the blanks before it. -/
def trimStart (text : List Char) : List Char :=
  text.dropWhile isBlank

/-- The text without the blanks at its ends. -/
def trim (text : List Char) : List Char :=
  (trimStart (trimStart text).reverse).reverse

/-- The parts before and after the first character that `p` holds of. -/
def cut? (p : Char → Bool) : List Char → Option (List Char × List Char)
  | [] => none
  | c :: rest =>
    if p c then some ([], rest)
    else (cut? p rest).map fun (before, after) => (c :: before, after)

/-- The stretches without blanks; `word` is the stretch being read, newest character first. -/
def wordsFrom (word : List Char) : List Char → List (List Char)
  | [] => if word = [] then [] else [word.reverse]
  | c :: rest =>
    if isBlank c then
      if word = [] then wordsFrom [] rest else word.reverse :: wordsFrom [] rest
    else wordsFrom (c :: word) rest

/-- The stretches without blanks. -/
def words (text : List Char) : List (List Char) :=
  wordsFrom [] text

/-- A line that ended in a line feed, without the carriage return before it; newest character
first. -/
def closeLine : List Char → List Char
  | '\r' :: line => line.reverse
  | line => line.reverse

/-- The lines of a text; `line` is the line being read, newest character first. A last line
without a line feed is kept as it is, and left out when it is empty. -/
def linesFrom (line : List Char) : List Char → List (List Char)
  | [] => if line = [] then [] else [line.reverse]
  | c :: rest =>
    if c = '\n' then closeLine line :: linesFrom [] rest else linesFrom (c :: line) rest

/-- The lines of a text. A line ends in a line feed, which a carriage return may precede. -/
def lines (text : List Char) : List (List Char) :=
  linesFrom [] text

end CoverProbe.Text
