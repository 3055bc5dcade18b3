set_option relaxedAutoImplicit false
set_option autoImplicit false

/-!
# Checksum

The cyclic redundancy check that closes a container: CRC-32 with the reflected polynomial
`0xEDB88320`, started from all ones and complemented at the end. Bytes enter one after the other,
bits from the lowest up.

## Main definitions

* `CoverProbe.Checksum.shift` — the register moved by one bit.
* `CoverProbe.Checksum.crc32` — the checksum of a list of bytes.
-/

namespace CoverProbe.Checksum

/-- The register after one bit: shifted down, and reduced by the polynomial if a one fell out. -/
def shift (register : UInt32) : UInt32 :=
  if register &&& 1 = 1 then (register >>> 1) ^^^ 0xEDB88320 else register >>> 1

/-- The register after one byte. -/
def feed (register : UInt32) (b : UInt8) : UInt32 :=
  Nat.repeat shift 8 (register ^^^ b.toUInt32)

/-- The register after a list of bytes. -/
def feedAll (register : UInt32) (bs : List UInt8) : UInt32 :=
  bs.foldl feed register

/-- The checksum of a list of bytes. -/
def crc32 (bs : List UInt8) : UInt32 :=
  feedAll 0xFFFFFFFF bs ^^^ 0xFFFFFFFF

end CoverProbe.Checksum
