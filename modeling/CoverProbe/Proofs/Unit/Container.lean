import CoverProbe.Proofs.Unit.Reader

set_option relaxedAutoImplicit false
set_option autoImplicit false

/-!
# The container format

A container is accepted exactly if it is written as the format says: the word `TRUT`, version one,
two bytes of any value, the bytes of one tree and nothing else, and the checksum of all that. So a
tree whose lengths fit is read back from its container, and no two trees share one.

## Main definitions

* `CoverProbe.CodeUnit.Fits` — all lengths in a tree fit their four bytes.
* `CoverProbe.Container.Holds` — bytes are a container of a tree.

## Main results

* `CoverProbe.Container.exists_unitBytes_iff` — a tree has bytes exactly if its lengths fit.
* `CoverProbe.Container.Reader.exact_unit` — the reader of units is exact for their bytes.
* `CoverProbe.Container.decode_eq_ok_iff` — decoding accepts exactly the containers.
* `CoverProbe.Container.container_lossless` — trees and their containers determine each other.
-/

namespace CoverProbe

/-! ## Lengths -/

namespace CodeUnit

mutual

/-- All lengths in the tree fit four bytes: of names, code, line tables, texts and blobs in bytes,
and of pools in slots. -/
def Fits : CodeUnit → Prop
  | ⟨name, _, code, consts, lineTable⟩ =>
    name.utf8ByteSize < 4294967296 ∧ code.length < 4294967296 ∧ lineTable.length < 4294967296 ∧
      consts.length < 4294967296 ∧ PoolFits consts

/-- All lengths in the slots of a pool fit. -/
def PoolFits : Pool → Prop
  | [] => True
  | c :: rest => ConstantFits c ∧ PoolFits rest

/-- All lengths in a constant fit. -/
def ConstantFits : Constant CodeUnit → Prop
  | .str s => s.utf8ByteSize < 4294967296
  | .bytes bs => bs.length < 4294967296
  | .unit u => Fits u
  | _ => True

end

end CodeUnit

namespace Container

open CodeUnit Reader

/-- The number of bytes of a text. -/
lemma length_encode (s : String) : (Utf8.encode s).length = s.utf8ByteSize := by
  simp [Utf8.encode]

/-- A blob has bytes exactly if its length fits. -/
lemma exists_blobBytes_iff {bs : List UInt8} :
    (∃ front, blobBytes bs = .ok front) ↔ bs.length < 4294967296 := by
  simp [blobBytes_eq_ok]

/-- A text has bytes exactly if its length fits. -/
lemma exists_textBytes_iff {s : String} :
    (∃ front, textBytes s = .ok front) ↔ s.utf8ByteSize < 4294967296 := by
  rw [textBytes, exists_blobBytes_iff, length_encode]

/-- A length has bytes exactly if it fits. -/
lemma exists_lengthBytes_iff {n : Nat} :
    (∃ front, lengthBytes n = .ok front) ↔ n < 4294967296 := by
  simp [lengthBytes_eq_ok]

/-! ## The bytes of units -/

/-- The bytes of a unit are those of its fields, one behind the other. -/
lemma unitBytes_eq_ok {u : CodeUnit} {front : List UInt8} :
    unitBytes u = .ok front ↔ ∃ name code lineTable count slots, textBytes u.name = .ok name ∧
      blobBytes u.code = .ok code ∧ blobBytes u.lineTable = .ok lineTable ∧
      lengthBytes u.consts.length = .ok count ∧ poolBytes u.consts = .ok slots ∧
      front = name ++ Word.bytes 4 u.firstLine.toNat ++ code ++ lineTable ++ count ++ slots := by
  obtain ⟨name, firstLine, code, consts, lineTable⟩ := u
  rw [unitBytes]
  constructor
  · intro h
    obtain ⟨name', hname, h⟩ := Checked.bind_eq_ok.1 h
    obtain ⟨code', hcode, h⟩ := Checked.bind_eq_ok.1 h
    obtain ⟨table', htable, h⟩ := Checked.bind_eq_ok.1 h
    obtain ⟨count, hcount, h⟩ := Checked.bind_eq_ok.1 h
    obtain ⟨slots, hslots, h⟩ := Checked.bind_eq_ok.1 h
    exact ⟨name', code', table', count, slots, hname, hcode, htable, hcount, hslots,
      (Except.ok.inj h).symm⟩
  · rintro ⟨name', code', table', count, slots, hname, hcode, htable, hcount, hslots, rfl⟩
    dsimp only at hname hcode htable hcount hslots
    rw [hname, hcode, htable, hcount, hslots]
    rfl

/-- The bytes of a pool are those of its constants, one behind the other. -/
lemma poolBytes_eq_ok {pool : Pool} {front : List UInt8} :
    poolBytes pool = .ok front ↔
      Format.list (fun c front => constantBytes c = .ok front) pool front := by
  induction pool generalizing front with
  | nil =>
    rw [poolBytes]
    exact ⟨fun h => (Except.ok.inj h).symm, fun h => by rw [show front = [] from h]; rfl⟩
  | cons c rest ih =>
    rw [poolBytes]
    constructor
    · intro h
      obtain ⟨first, hfirst, h⟩ := Checked.bind_eq_ok.1 h
      obtain ⟨second, hsecond, h⟩ := Checked.bind_eq_ok.1 h
      exact ⟨first, second, hfirst, ih.1 hsecond, (Except.ok.inj h).symm⟩
    · rintro ⟨first, second, hfirst, hsecond, rfl⟩
      rw [hfirst, ih.2 hsecond]
      rfl

/-- The tag of a constant. -/
def tag : Constant CodeUnit → Nat
  | .null => 0
  | .str _ => 1
  | .int _ => 2
  | .float _ => 3
  | .bool _ => 4
  | .bytes _ => 5
  | .unit _ => 6

/-- The bytes of a constant behind its tag. -/
def contentBytes : Constant CodeUnit → Except Fault (List UInt8)
  | .null => .ok []
  | .str s => textBytes s
  | .int z => .ok (Word.bytes 8 z.toUInt64.toNat)
  | .float x => .ok (Word.bytes 8 x.bits.toNat)
  | .bool b => .ok [if b then 1 else 0]
  | .bytes bs => blobBytes bs
  | .unit u => unitBytes u

/-- The bytes of a constant are its tag and its content. -/
lemma constantBytes_eq_ok {c : Constant CodeUnit} {front : List UInt8} :
    constantBytes c = .ok front ↔
      ∃ content, contentBytes c = .ok content ∧ front = Word.bytes 1 (tag c) ++ content := by
  have hcons : ∀ (x : Except Fault (List UInt8)) (b : UInt8),
      (do return b :: (← x)) = .ok front ↔ ∃ content, x = .ok content ∧ front = b :: content := by
    intro x b
    rw [Checked.bind_eq_ok]
    exact exists_congr fun content => and_congr_right fun _ =>
      ⟨fun h => (Except.ok.inj h).symm, fun h => by rw [h]; rfl⟩
  cases c with
  | str s => rw [constantBytes]; exact hcons _ 1
  | bytes bs => rw [constantBytes]; exact hcons _ 5
  | unit u => rw [constantBytes]; exact hcons _ 6
  | null => rw [constantBytes]; exact hcons (.ok []) 0
  | int z => rw [constantBytes]; exact hcons (.ok _) 2
  | float x => rw [constantBytes]; exact hcons (.ok _) 3
  | bool b => rw [constantBytes]; exact hcons (.ok _) 4

mutual

/-- **A tree has bytes exactly if its lengths fit.** -/
theorem exists_unitBytes_iff : ∀ u : CodeUnit, (∃ front, unitBytes u = .ok front) ↔ u.Fits
  | ⟨name, firstLine, code, consts, lineTable⟩ => by
    simp only [unitBytes_eq_ok, Fits]
    rw [← exists_textBytes_iff, ← exists_blobBytes_iff, ← exists_blobBytes_iff,
      ← exists_lengthBytes_iff, ← exists_poolBytes_iff consts]
    constructor
    · rintro ⟨_, a, b, c, d, e, ha, hb, hc, hd, he, -⟩
      exact ⟨⟨a, ha⟩, ⟨b, hb⟩, ⟨c, hc⟩, ⟨d, hd⟩, ⟨e, he⟩⟩
    · rintro ⟨⟨a, ha⟩, ⟨b, hb⟩, ⟨c, hc⟩, ⟨d, hd⟩, ⟨e, he⟩⟩
      exact ⟨_, a, b, c, d, e, ha, hb, hc, hd, he, rfl⟩

/-- A pool has bytes exactly if its lengths fit. -/
theorem exists_poolBytes_iff : ∀ pool : Pool, (∃ front, poolBytes pool = .ok front) ↔ PoolFits pool
  | [] => ⟨fun _ => by rw [PoolFits]; trivial, fun _ => ⟨[], by rw [poolBytes]; rfl⟩⟩
  | c :: rest => by
    simp only [poolBytes_eq_ok, Format.list, PoolFits]
    rw [← exists_constantBytes_iff c, ← exists_poolBytes_iff rest]
    simp only [poolBytes_eq_ok]
    constructor
    · rintro ⟨_, first, second, hfirst, hsecond, -⟩
      exact ⟨⟨first, hfirst⟩, ⟨second, hsecond⟩⟩
    · rintro ⟨⟨first, hfirst⟩, ⟨second, hsecond⟩⟩
      exact ⟨_, first, second, hfirst, hsecond, rfl⟩

/-- A constant has bytes exactly if its lengths fit. -/
theorem exists_constantBytes_iff :
    ∀ c : Constant CodeUnit, (∃ front, constantBytes c = .ok front) ↔ ConstantFits c
  | .unit u => by
    simp only [constantBytes_eq_ok, contentBytes, ConstantFits]
    rw [← exists_unitBytes_iff u, exists_comm]
    simp
  | .str s => by
    simp only [constantBytes_eq_ok, contentBytes, ConstantFits]
    rw [← exists_textBytes_iff, exists_comm]
    simp
  | .bytes bs => by
    simp only [constantBytes_eq_ok, contentBytes, ConstantFits]
    rw [← exists_blobBytes_iff, exists_comm]
    simp
  | .null | .int _ | .float _ | .bool _ => by
    simp [constantBytes_eq_ok, contentBytes, ConstantFits]

end

/-! ## Reading units -/

namespace Reader

/-- A constant whose tag was read, if the units in it are read exactly. -/
lemma exact_content {bound : Nat} {nested : Reader CodeUnit}
    (h : Exact bound nested fun u front => unitBytes u = .ok front) (n : Nat) :
    Exact bound
      (match n with
        | 0 => return .null
        | 1 => return .str (← text)
        | 2 => return .int (UInt64.ofNat (← number 8)).toInt64
        | 3 => return .float ⟨UInt64.ofNat (← number 8)⟩
        | 4 => return .bool (← bool)
        | 5 => return .bytes (← blob)
        | 6 => return .unit (← nested)
        | tag => throw (.corrupt (.unknownConstantTag (UInt8.ofNat tag))) :
          Reader (Constant CodeUnit))
      fun c front => tag c = n ∧ contentBytes c = .ok front := by
  -- In every case below, constants with another tag have no content of this kind.
  match n with
  | 0 =>
    refine (exact_pure bound _).congr fun c front => ?_
    cases c <;> simp [tag, contentBytes, eq_comm]
  | 1 =>
    refine ((exact_text bound).map _).congr fun c front => ?_
    cases c <;> simp [tag, contentBytes]
  | 2 =>
    refine (exact_word bound fun word => Constant.int word.toInt64).congr fun c front => ?_
    cases c with
    | int z =>
      simp only [tag, contentBytes, true_and, Except.ok.injEq, Constant.int.injEq]
      constructor
      · rintro ⟨word, rfl, rfl⟩
        rw [UInt64.toUInt64_toInt64]
      · rintro rfl
        exact ⟨z.toUInt64, rfl, Int64.toInt64_toUInt64 z⟩
    | _ => simp [tag]
  | 3 =>
    refine (exact_word bound fun word => Constant.float ⟨word⟩).congr fun c front => ?_
    cases c with
    | float x =>
      simp only [tag, contentBytes, true_and, Except.ok.injEq, Constant.float.injEq]
      constructor
      · rintro ⟨word, rfl, rfl⟩
        rfl
      · rintro rfl
        exact ⟨x.bits, rfl, rfl⟩
    | _ => simp [tag]
  | 4 =>
    refine ((exact_bool bound).map _).congr fun c front => ?_
    cases c <;> simp [tag, contentBytes, eq_comm]
  | 5 =>
    refine ((exact_blob bound).map _).congr fun c front => ?_
    cases c <;> simp [tag, contentBytes]
  | 6 =>
    refine (h.map _).congr fun c front => ?_
    cases c <;> simp [tag, contentBytes]
  | n + 7 =>
    refine (exact_throw bound _).congr fun c front => ?_
    cases c <;> simp [tag]

/-- A constant, if the units in it are read exactly. The tag takes a byte, so inputs may be longer
by one than those from which units are. -/
lemma exact_constant {bound : Nat} {nested : Reader CodeUnit}
    (h : Exact bound nested fun u front => unitBytes u = .ok front) :
    Exact (1 + bound) (constant nested) fun c front => constantBytes c = .ok front := by
  have htag : ∀ n front, (front = Word.bytes 1 n ∧ n < 256 ^ 1) → 1 ≤ front.length := by
    rintro n _ ⟨rfl, -⟩
    exact Nat.le_of_eq (Word.length_bytes 1 n).symm
  refine ((exact_number _ 1).bind htag (exact_content h)).congr fun c front => ?_
  rw [constantBytes_eq_ok]
  constructor
  · rintro ⟨_, _, content, ⟨rfl, -⟩, ⟨rfl, hcontent⟩, rfl⟩
    exact ⟨content, hcontent, rfl⟩
  · rintro ⟨content, hcontent, rfl⟩
    exact ⟨_, _, content, ⟨rfl, by cases c <;> simp [tag]⟩, ⟨rfl, hcontent⟩, rfl⟩

/-- The slots of a pool, behind the other fields of a unit. -/
lemma exact_slots {bound : Nat} {slot : Reader (Constant CodeUnit)}
    (h : Exact bound slot fun c front => constantBytes c = .ok front) (name : String)
    (firstLine : Nat) (code lineTable : List UInt8) (count : Nat) :
    Exact bound
      (do return ⟨name, UInt32.ofNat firstLine, code, ← items slot count, lineTable⟩)
      fun (u : CodeUnit) front => u.name = name ∧ u.firstLine = UInt32.ofNat firstLine ∧
        u.code = code ∧ u.lineTable = lineTable ∧ u.consts.length = count ∧
        poolBytes u.consts = .ok front := by
  refine ((exact_items h count).map _).congr fun u front => ?_
  constructor
  · rintro ⟨consts, ⟨hlen, hlist⟩, rfl⟩
    exact ⟨rfl, rfl, rfl, rfl, hlen, poolBytes_eq_ok.2 hlist⟩
  · obtain ⟨name', line', code', consts, table'⟩ := u
    rintro ⟨rfl, rfl, rfl, rfl, hlen, hlist⟩
    exact ⟨consts, ⟨hlen, poolBytes_eq_ok.1 hlist⟩, rfl⟩

/-- The bytes of a unit are not empty. -/
lemma unitBytes_ne_nil {u : CodeUnit} {front : List UInt8} (h : unitBytes u = .ok front) :
    front ≠ [] := by
  obtain ⟨name, code, table, count, slots, -, -, -, -, -, rfl⟩ := unitBytes_eq_ok.1 h
  simp [Word.bytes]

/-- **The reader of units is exact for their bytes**, on inputs no longer than its fuel.

**Proof sketch.** Induction on the fuel. Fields are read one behind the other; nested units stand
behind the tags of their slots, so their bytes are fewer. -/
theorem exact_unit (fuel : Nat) :
    Exact fuel (unit fuel) fun u front => unitBytes u = .ok front := by
  induction fuel with
  | zero =>
    intro bs hbs u rest
    obtain rfl := List.eq_nil_of_length_eq_zero (Nat.le_zero.1 hbs)
    refine ⟨fun h => by simp [unit, throw, throwThe, MonadExceptOf.throw, StateT.lift] at h, ?_⟩
    rintro ⟨front, hfront, h⟩
    exact absurd (List.append_eq_nil_iff.1 h.symm).1 (unitBytes_ne_nil hfront)
  | succ fuel ih =>
    have hconstant := exact_constant ih
    rw [Nat.add_comm] at hconstant
    refine ((exact_text _).andThen fun name => (exact_number _ 4).andThen fun firstLine =>
      (exact_blob _).andThen fun code => (exact_blob _).andThen fun lineTable =>
        (exact_number _ 4).andThen fun count =>
          exact_slots hconstant name firstLine code lineTable count).congr fun u front => ?_
    rw [unitBytes_eq_ok]
    constructor
    · rintro ⟨_, name, _, hname, ⟨line, _, _, ⟨rfl, hline⟩, ⟨_, code, _, hcode,
        ⟨_, table, _, htable, ⟨_, _, slots, ⟨rfl, hcount⟩, ⟨rfl, hfirst, rfl, rfl, rfl, hslots⟩,
          rfl⟩, rfl⟩, rfl⟩, rfl⟩, rfl⟩
      refine ⟨name, code, table, _, slots, hname, hcode, htable,
        lengthBytes_eq_ok.2 ⟨hcount, rfl⟩, hslots, ?_⟩
      rw [hfirst, Word.toNat_ofNat_of_fits hline]
      simp only [List.append_assoc]
    · rintro ⟨name, code, table, count, slots, hname, hcode, htable, hcount, hslots, rfl⟩
      obtain ⟨hfits, rfl⟩ := lengthBytes_eq_ok.1 hcount
      refine ⟨_, name, _, hname, ⟨u.firstLine.toNat, _, _, ⟨rfl, u.firstLine.toNat_lt⟩,
        ⟨_, code, _, hcode, ⟨_, table, _, htable,
          ⟨_, _, slots, ⟨rfl, hfits⟩, ⟨rfl, UInt32.ofNat_toNat.symm, rfl, rfl, rfl, hslots⟩,
            rfl⟩, rfl⟩, rfl⟩, rfl⟩, ?_⟩
      simp only [List.append_assoc]

/-- What the reader of a payload does, step by step. -/
lemma root_eq_ok {bs rest : List UInt8} {u : CodeUnit} :
    root bs = .ok (u, rest) ↔ rest = [] ∧ ∃ word found skipped bs₁ bs₂ bs₃,
      take 4 .magic bs = .ok (word, bs₁) ∧ word = magic ∧
        number 2 bs₁ = .ok (found, bs₂) ∧ found = version ∧
          number 2 bs₂ = .ok (skipped, bs₃) ∧ unit bs₃.length bs₃ = .ok (u, []) := by
  simp only [root, run_bind_eq_ok, run_refuse, run_require, run_get, not_not]
  constructor
  · rintro ⟨word, bs₁, hword, hmagic, found, bs₂, hfound, hversion, skipped, bs₃, hskipped, _, _,
      ⟨rfl, rfl⟩, v, bs₄, hunit, _, _, ⟨rfl, rfl⟩, hempty, hend⟩
    obtain ⟨rfl, rfl⟩ := Prod.mk.inj (Except.ok.inj hend)
    obtain rfl := List.isEmpty_iff.1 hempty
    exact ⟨rfl, word, found, skipped, bs₁, bs₂, _, hword, hmagic, hfound, hversion, hskipped, hunit⟩
  · rintro ⟨rfl, word, found, skipped, bs₁, bs₂, bs₃, hword, hmagic, hfound, hversion, hskipped,
      hunit⟩
    exact ⟨word, bs₁, hword, hmagic, found, bs₂, hfound, hversion, skipped, bs₃, hskipped, _, _,
      ⟨rfl, rfl⟩, u, [], hunit, _, _, ⟨rfl, rfl⟩, rfl, rfl⟩

/-- **A payload is the word `TRUT`, version one, two bytes of any value, and the bytes of a
unit.** -/
theorem run'_root_eq_ok {bs : List UInt8} {u : CodeUnit} :
    root.run' bs = .ok u ↔ ∃ flags reserved body, unitBytes u = .ok body ∧
      bs = [0x54, 0x52, 0x55, 0x54] ++ [1, 0] ++ [flags, reserved] ++ body := by
  have hrun : root.run' bs = .ok u ↔ ∃ rest, root bs = .ok (u, rest) := by
    show (Prod.fst <$> root bs) = .ok u ↔ _
    cases root bs with
    | error cause => simp [Functor.map, Except.map]
    | ok p => simp [Functor.map, Except.map, Prod.ext_iff]
  have htwo : Word.bytes 2 version = [1, 0] := by decide
  simp only [hrun, root_eq_ok]
  constructor
  · rintro ⟨_, rfl, word, found, skipped, bs₁, bs₂, bs₃, hword, rfl, hfound, rfl, hskipped, hunit⟩
    obtain ⟨_, ⟨rfl, -⟩, rfl⟩ := (exact_take _ 4 _ _ le_rfl _ _).1 hword
    obtain ⟨_, ⟨rfl, -⟩, rfl⟩ := (exact_number _ 2 _ le_rfl _ _).1 hfound
    obtain ⟨_, ⟨rfl, -⟩, rfl⟩ := (exact_number _ 2 _ le_rfl _ _).1 hskipped
    obtain ⟨body, hbody, rfl⟩ := (exact_unit _ _ le_rfl _ _).1 hunit
    refine ⟨UInt8.ofNat skipped, UInt8.ofNat (skipped / 256), body, hbody, ?_⟩
    rw [htwo, List.append_nil]
    rfl
  · rintro ⟨flags, reserved, body, hbody, rfl⟩
    have hskipped : [flags, reserved].length = 2 := rfl
    refine ⟨[], rfl, magic, version, Word.value [flags, reserved], _, [flags, reserved] ++ body,
      body,
      (exact_take _ 4 _ _ le_rfl _ _).2 ⟨magic, ⟨rfl, rfl⟩, ?_⟩, rfl,
      (exact_number _ 2 _ le_rfl _ _).2 ⟨[1, 0], ⟨htwo.symm, by decide⟩, rfl⟩, rfl,
      (exact_number _ 2 _ le_rfl _ _).2
        ⟨_, ⟨(Word.bytes_value _).symm, hskipped ▸ Word.value_lt _⟩, rfl⟩,
      (exact_unit _ _ le_rfl _ _).2 ⟨body, hbody, (List.append_nil _).symm⟩⟩
    simp only [List.append_assoc]
    rfl

end Reader

/-! ## Containers -/

/-- Bytes are a container of a tree: the word `TRUT`, version one in two bytes, two bytes of any
value, the bytes of the tree, and in four bytes the checksum of all that precedes. -/
def Holds (data : List UInt8) (root : CodeUnit) : Prop :=
  ∃ flags reserved body, unitBytes root = .ok body ∧
    data = withChecksum ([0x54, 0x52, 0x55, 0x54] ++ [1, 0] ++ [flags, reserved] ++ body)

/-- The checksum stands in the last four bytes. -/
lemma eq_withChecksum_iff {data bs : List UInt8} (h : 4 ≤ data.length) :
    data = withChecksum bs ↔ data.take (data.length - 4) = bs ∧
      Checksum.crc32 bs = UInt32.ofNat (Word.value (data.drop (data.length - 4))) := by
  have hlast : (data.drop (data.length - 4)).length = 4 := by
    rw [List.length_drop]
    omega
  constructor
  · rintro rfl
    have hlen : (withChecksum bs).length - 4 = bs.length := by
      simp [withChecksum]
    rw [hlen, withChecksum, List.take_left, List.drop_left,
      Word.value_bytes (Checksum.crc32 bs).toNat_lt, UInt32.ofNat_toNat]
    exact ⟨rfl, rfl⟩
  · rintro ⟨rfl, hcrc⟩
    have hvalue := Word.value_lt (data.drop (data.length - 4))
    rw [hlast] at hvalue
    have hbytes := Word.bytes_value (data.drop (data.length - 4))
    rw [hlast] at hbytes
    rw [withChecksum, hcrc, Word.toNat_ofNat_of_fits hvalue, hbytes, List.take_append_drop]

/-- **Decoding accepts exactly the containers.** -/
theorem decode_eq_ok_iff {data : List UInt8} {root : CodeUnit} :
    decode data = .ok root ↔ Holds data root := by
  rw [decode]
  split_ifs with hshort
  · simp only [false_iff]
    rintro ⟨flags, reserved, body, -, rfl⟩
    simp [withChecksum, minLength] at hshort
    omega
  · have hlen : 4 ≤ data.length := by
      rw [minLength] at hshort
      omega
    dsimp only
    split_ifs with hcrc
    · simp only [false_iff]
      rintro ⟨flags, reserved, body, -, hdata⟩
      obtain ⟨hbs, hsum⟩ := (eq_withChecksum_iff hlen).1 hdata
      rw [hbs] at hcrc
      exact hcrc hsum
    · rw [Reader.run'_root_eq_ok]
      constructor
      · rintro ⟨flags, reserved, body, hbody, hbs⟩
        refine ⟨flags, reserved, body, hbody, (eq_withChecksum_iff hlen).2 ⟨hbs, ?_⟩⟩
        rw [← hbs]
        exact not_not.1 hcrc
      · rintro ⟨flags, reserved, body, hbody, hdata⟩
        exact ⟨flags, reserved, body, hbody, ((eq_withChecksum_iff hlen).1 hdata).1⟩

/-- The container of a tree is the one whose two free bytes are zero. -/
lemma encode_eq_ok_iff {data : List UInt8} {root : CodeUnit} :
    encode root = .ok data ↔ ∃ body, unitBytes root = .ok body ∧
      data = withChecksum ([0x54, 0x52, 0x55, 0x54] ++ [1, 0] ++ [0, 0] ++ body) := by
  have hhead : magic ++ Word.bytes 2 version ++ [0, 0] =
      [0x54, 0x52, 0x55, 0x54] ++ [1, 0] ++ [0, 0] := by decide
  rw [encode, payload]
  cases unitBytes root with
  | error cause => simp [bind, Except.bind]
  | ok body =>
    rw [hhead]
    simp [bind, Except.bind, pure, Except.pure, eq_comm]

/-- The containers that encoding makes are containers. -/
lemma holds_of_encode {data : List UInt8} {root : CodeUnit} (h : encode root = .ok data) :
    Holds data root := by
  obtain ⟨body, hbody, hdata⟩ := encode_eq_ok_iff.1 h
  exact ⟨0, 0, body, hbody, hdata⟩

/-- The free bytes of a container are its seventh and eighth. -/
lemma encode_of_holds {data : List UInt8} {root : CodeUnit} (h : Holds data root) :
    encode root = .ok data ↔ data[6]? = some 0 ∧ data[7]? = some 0 := by
  obtain ⟨flags, reserved, body, hbody, rfl⟩ := h
  rw [encode_eq_ok_iff]
  constructor
  · rintro ⟨_, -, hdata⟩
    rw [hdata]
    exact ⟨rfl, rfl⟩
  · rintro ⟨hflags, hreserved⟩
    obtain rfl : flags = 0 := Option.some.inj hflags
    obtain rfl : reserved = 0 := Option.some.inj hreserved
    exact ⟨body, hbody, rfl⟩

/-- **Trees and their containers determine each other.** A tree whose lengths fit has a container,
which is decoded to it; no other tree has one. What is decoded is exactly what is a container. It is
the container that its tree is encoded to exactly if its two free bytes are zero. No two trees have
the same container.

**Proof sketch.** The reader of units is exact (`Reader.exact_unit`), so decoding accepts exactly
the containers (`decode_eq_ok_iff`) and finds one tree in each. -/
theorem container_lossless :
    (∀ root : CodeUnit, root.Fits ↔ ∃ data, encode root = .ok data ∧ decode data = .ok root) ∧
      (∀ data root, decode data = .ok root ↔ Holds data root) ∧
      (∀ data root, decode data = .ok root →
        (encode root = .ok data ↔ data[6]? = some 0 ∧ data[7]? = some 0)) ∧
      ∀ data root other, Holds data root → Holds data other → root = other := by
  refine ⟨fun root => ?_, fun _ _ => decode_eq_ok_iff,
    fun data root h => encode_of_holds (decode_eq_ok_iff.1 h), fun data root other h h' => ?_⟩
  · rw [← exists_unitBytes_iff]
    constructor
    · rintro ⟨body, hbody⟩
      have hdata := encode_eq_ok_iff.2 ⟨body, hbody, rfl⟩
      exact ⟨_, hdata, decode_eq_ok_iff.2 (holds_of_encode hdata)⟩
    · rintro ⟨data, hdata, -⟩
      obtain ⟨body, hbody, -⟩ := encode_eq_ok_iff.1 hdata
      exact ⟨body, hbody⟩
  · exact Except.ok.inj ((decode_eq_ok_iff.2 h).symm.trans (decode_eq_ok_iff.2 h'))

/-- A unit that holds a NaN with a payload and a unit with a truth value. -/
def nanTree : CodeUnit :=
  ⟨"m", 1, [0x12], [.float ⟨0x7FF8000000000001⟩, .unit ⟨"f", 3, [], [.bool true], []⟩], [0, 1]⟩

/-- The tree is read back from its container, payload included. It is also read from a container
whose free bytes are not zero, and that is not the one it is encoded to. -/
theorem container_lossless_nanTree :
    nanTree.Fits ∧ (∃ data, encode nanTree = .ok data ∧ decode data = .ok nanTree) ∧
      ∃ data, data[6]? = some 5 ∧ decode data = .ok nanTree ∧ encode nanTree ≠ .ok data := by
  obtain ⟨hfits, hdecode, hencode, -⟩ := container_lossless
  have hnan : nanTree.Fits := by
    simp only [nanTree, Fits, PoolFits, ConstantFits]
    decide
  obtain ⟨body, hbody⟩ := (exists_unitBytes_iff nanTree).2 hnan
  have hflagged := (hdecode _ nanTree).2 ⟨5, 9, body, hbody, rfl⟩
  refine ⟨hnan, (hfits nanTree).1 hnan, _, rfl, hflagged, fun h => ?_⟩
  have hfive : some (5 : UInt8) = some 0 := ((hencode _ _ hflagged).1 h).1
  exact absurd hfive (by decide)

end Container

end CoverProbe
