import CoverProbe.Text.Utf8
import CoverProbe.Unit.Basic
import CoverProbe.Unit.Checksum

set_option relaxedAutoImplicit false
set_option autoImplicit false

/-!
# Containers

The binary form of a tree of code units. All numbers are written least significant byte first; a
blob is its length in four bytes, then its bytes.

A container is the word `TRUT`, the version in two bytes, two bytes without meaning, the root unit,
and the checksum of all that precedes. A unit is its name, its base line, its code, its line table
and its constants, counted; a constant is a tag and its payload.

## Main definitions

* `CoverProbe.Container.encode` — the container of a tree.
* `CoverProbe.Container.decode` — the tree in a container.
* `CoverProbe.Container.Reader` — reading from the front of a list of bytes.

## Implementation notes

A container is judged in a fixed order: its length, its checksum, the word it begins with, its
version, its root unit, and that nothing is left over.
-/

namespace CoverProbe.Container

/-- The word that a container begins with, `TRUT`. -/
def magic : List UInt8 :=
  [0x54, 0x52, 0x55, 0x54]

/-- The version of the format. -/
def version : Nat := 1

/-! ## Encoding -/

/-- A length in four bytes. -/
def lengthBytes (n : Nat) : Except Fault (List UInt8) :=
  match Word.ofNat? n with
  | some _ => .ok (Word.bytes 4 n)
  | none => .error (.range .fieldLength)

/-- A blob: its length, then its bytes. -/
def blobBytes (bs : List UInt8) : Except Fault (List UInt8) := do
  return (← lengthBytes bs.length) ++ bs

/-- A text as a blob. -/
def textBytes (s : String) : Except Fault (List UInt8) :=
  blobBytes (Utf8.encode s)

mutual

/-- The bytes of a unit. -/
def unitBytes : CodeUnit → Except Fault (List UInt8)
  | ⟨name, firstLine, code, consts, lineTable⟩ => do
    let name ← textBytes name
    let code ← blobBytes code
    let lineTable ← blobBytes lineTable
    let count ← lengthBytes consts.length
    let slots ← poolBytes consts
    return name ++ Word.bytes 4 firstLine.toNat ++ code ++ lineTable ++ count ++ slots

/-- The bytes of the constants of a pool. -/
def poolBytes : Pool → Except Fault (List UInt8)
  | [] => return []
  | c :: rest => do
    let slot ← constantBytes c
    let more ← poolBytes rest
    return slot ++ more

/-- The bytes of a constant: its tag, then its payload. -/
def constantBytes : Constant CodeUnit → Except Fault (List UInt8)
  | .null => return [0]
  | .str s => return 1 :: (← textBytes s)
  | .int z => return 2 :: Word.bytes 8 z.toUInt64.toNat
  | .float x => return 3 :: Word.bytes 8 x.bits.toNat
  | .bool b => return [4, if b then 1 else 0]
  | .bytes bs => return 5 :: (← blobBytes bs)
  | .unit u => return 6 :: (← unitBytes u)

end

/-- The container of a tree, up to its checksum. -/
def payload (root : CodeUnit) : Except Fault (List UInt8) := do
  return magic ++ Word.bytes 2 version ++ [0, 0] ++ (← unitBytes root)

/-- The bytes, then their checksum. -/
def withChecksum (bs : List UInt8) : List UInt8 :=
  bs ++ Word.bytes 4 (Checksum.crc32 bs).toNat

/-- The container of a tree. -/
def encode (root : CodeUnit) : Except Fault (List UInt8) := do
  return withChecksum (← payload root)

/-! ## Reading -/

/-- Reading from the front of a list of bytes. -/
abbrev Reader := StateT (List UInt8) (Except Fault)

namespace Reader

/-- The next `count` bytes; `short` is the fault if there are fewer. -/
def take (count : Nat) (short : Fault) : Reader (List UInt8) := fun bs =>
  let taken := bs.take count
  if taken.length < count then .error short else .ok (taken, bs.drop count)

/-- The number in the next `count` bytes. -/
def number (count : Nat) : Reader Nat := do
  return Word.value (← take count (.corrupt .shortRead))

/-- A length, then as many bytes. -/
def blob : Reader (List UInt8) := do
  let length ← number 4
  take length (.endOfInput length 0)

/-- A blob of encoded text. -/
def text : Reader String := do
  match String.fromUTF8? ⟨(← blob).toArray⟩ with
  | some s => return s
  | none => throw (.corrupt .invalidUtf8)

/-- A truth value in one byte. -/
def bool : Reader Bool := do
  match ← number 1 with
  | 0 => return false
  | 1 => return true
  | _ => throw (.corrupt .invalidBool)

/-- A constant, with `nested` for the units. -/
def constant (nested : Reader CodeUnit) : Reader (Constant CodeUnit) := do
  match ← number 1 with
  | 0 => return .null
  | 1 => return .str (← text)
  | 2 => return .int (UInt64.ofNat (← number 8)).toInt64
  | 3 => return .float ⟨UInt64.ofNat (← number 8)⟩
  | 4 => return .bool (← bool)
  | 5 => return .bytes (← blob)
  | 6 => return .unit (← nested)
  | tag => throw (.corrupt (.unknownConstantTag (UInt8.ofNat tag)))

/-- As many items as a count says. -/
def items {α : Type} (item : Reader α) : Nat → Reader (List α)
  | 0 => return []
  | count + 1 => do
    let first ← item
    let more ← items item count
    return first :: more

/-- A unit. `fuel` bounds the depth of nesting; every level takes more than one byte, so the number
of bytes to be read is fuel enough. -/
def unit : (fuel : Nat) → Reader CodeUnit
  | 0 => throw (.corrupt .shortRead)
  | fuel + 1 => do
    let name ← text
    let firstLine ← number 4
    let code ← blob
    let lineTable ← blob
    let count ← number 4
    let consts ← items (constant (unit fuel)) count
    return ⟨name, UInt32.ofNat firstLine, code, consts, lineTable⟩

/-- A payload up to its end. -/
def root : Reader CodeUnit := do
  let word ← take 4 .magic
  if word ≠ magic then throw .magic
  let found ← number 2
  if found ≠ version then throw (.corrupt (.unsupportedVersion found))
  let _ ← number 2
  let u ← unit (← get).length
  unless (← get).isEmpty do throw (.corrupt .trailingBytes)
  return u

end Reader

/-- The least number of bytes of a container: header and checksum. -/
def minLength : Nat := 12

/-- The tree in a container. -/
def decode (data : List UInt8) : Except Fault CodeUnit :=
  if data.length < minLength then .error (.endOfInput minLength 0)
  else
    let bs := data.take (data.length - 4)
    let found := UInt32.ofNat (Word.value (data.drop (data.length - 4)))
    let expected := Checksum.crc32 bs
    if expected ≠ found then .error (.checksum expected found)
    else Reader.root.run' bs

end CoverProbe.Container
