set_option relaxedAutoImplicit false
set_option autoImplicit false

/-!
# Tokens

The token of a probe tells the coverage callback which site was reached. The default token hashes
the base line of the unit and the offset of the probe, mixed with the rank of the unit in its tree,
so units defined on one line do not share tokens.

## Main definitions

* `CoverProbe.ProbeSite` — where a probe is.
* `CoverProbe.TokenScheme` — a token for each site.
* `CoverProbe.Token.siteHash`, `CoverProbe.Token.unitSalt`, `CoverProbe.Token.hashed` — the default
  scheme.

## Implementation notes

The hash is a product of 32-bit words, in which a factor zero is replaced by the greatest word. The
highest bit may be set aside to tell the top-level unit from the others.
-/

namespace CoverProbe

/-- Where a probe is. -/
structure ProbeSite where
  /-- The name of its unit. -/
  unit : String
  /-- The rank of its unit, every unit counted before those nested in it. -/
  unitIndex : UInt32
  firstLine : UInt32
  /-- The offset of the probe in the code that holds it. -/
  offset : UInt32
  line : UInt32
  /-- Is its unit the root of a top-level module? -/
  topLevel : Bool
deriving DecidableEq, Repr

/-- A token for each site. -/
abbrev TokenScheme := ProbeSite → UInt32

namespace Token

/-- The constant factor of the hash. -/
def factor : UInt32 := 0xEDB6417B

/-- The bit that may mark top-level units. -/
def topLevelBit : UInt32 := 0x80000000

/-- The word, or the greatest word in place of zero. -/
def nonZero (w : UInt32) : UInt32 :=
  if w = 0 then 0xFFFFFFFF else w

/-- The hash of a base line and an offset. -/
def siteHash (firstLine offset : UInt32) : UInt32 :=
  factor * nonZero firstLine * nonZero offset

/-- What the rank of a unit contributes: all bits but the highest, nothing for the root. -/
def unitSalt (unitIndex : UInt32) : UInt32 :=
  unitIndex * factor &&& ~~~topLevelBit

/-- The default scheme. With `mark` the highest bit is set for the top-level unit and clear for all
others. -/
def hashed (mark : Bool) : TokenScheme := fun site =>
  let h := siteHash site.firstLine site.offset ^^^ unitSalt site.unitIndex
  if mark then if site.topLevel then h ||| topLevelBit else h &&& ~~~topLevelBit
  else h

end Token

end CoverProbe
