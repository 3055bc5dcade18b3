set_option relaxedAutoImplicit false
set_option autoImplicit false

/-!
# Columns of text

Texts brought to a least width, counted in characters. A longer text is left as it is.

## Main definitions

* `CoverProbe.Column.right`, `CoverProbe.Column.left` — a text at the right or left of its column.
* `CoverProbe.Column.zeros` — a number with leading zeros.
-/

namespace CoverProbe.Column

/-- The text at the right of a column. -/
def right (width : Nat) (s : String) : String :=
  String.ofList (s.toList.leftpad width ' ')

/-- The text at the left of a column. -/
def left (width : Nat) (s : String) : String :=
  String.ofList (s.toList.rightpad width ' ')

/-- The number with zeros before it. -/
def zeros (width n : Nat) : String :=
  String.ofList ((toString n).toList.leftpad width '0')

end CoverProbe.Column
