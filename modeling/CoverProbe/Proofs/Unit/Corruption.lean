import CoverProbe.Proofs.Unit.Checksum
import CoverProbe.Proofs.Unit.Container

set_option relaxedAutoImplicit false
set_option autoImplicit false

/-!
# Changed containers

A container whose bytes are changed within a window of four is refused for its checksum, wherever
the window lies: in the header, in the tree, in the checksum or across the border between them. The
checksum is compared before anything else is read, so no other fault is reported in its place.

## Main definitions

* `CoverProbe.Container.ChangedWithin` — bytes differ from others only inside a window.

## Main results

* `CoverProbe.Container.feedAll_eq_residue_iff` — the checksum holds exactly if the bytes, checksum
  included, leave the residue in the register.
* `CoverProbe.Container.change_detected` — a change within four bytes is reported as a wrong
  checksum.
-/

namespace CoverProbe.Container

open Checksum

/-! ## The checksum of a container -/

/-- The bytes that the checksum covers. -/
def covered (data : List UInt8) : List UInt8 :=
  data.take (data.length - 4)

/-- The checksum that stands in the last four bytes. -/
def stored (data : List UInt8) : UInt32 :=
  UInt32.ofNat (Word.value (data.drop (data.length - 4)))

/-- The checksum holds exactly if the bytes leave the residue. -/
theorem feedAll_eq_residue_iff {data : List UInt8} (h : 4 ≤ data.length) :
    feedAll 0xFFFFFFFF data = residue ↔ crc32 (covered data) = stored data := by
  have htrailer : (data.drop (data.length - 4)).length = 4 := by
    rw [List.length_drop]
    omega
  rw [covered, stored, crc32_eq_iff_residue htrailer, List.take_append_drop]

/-- What is decoded is long enough and its checksum holds. -/
lemma checked_of_decode {data : List UInt8} {root : CodeUnit} (h : decode data = .ok root) :
    minLength ≤ data.length ∧ crc32 (covered data) = stored data := by
  rw [decode] at h
  split_ifs at h with hshort
  dsimp only at h
  split_ifs at h with hsum
  exact ⟨Nat.not_lt.1 hshort, not_not.1 hsum⟩

/-- A wrong checksum is the fault of all bytes that are long enough. -/
lemma decode_of_wrong_checksum {data : List UInt8} (hlen : minLength ≤ data.length)
    (hsum : crc32 (covered data) ≠ stored data) :
    decode data = .error (.checksum (crc32 (covered data)) (stored data)) := by
  rw [decode, if_neg (Nat.not_lt.2 hlen)]
  exact if_pos hsum

/-! ## Changes within a window -/

/-- Bytes differ from others of their length only within `width` consecutive places. -/
def ChangedWithin (width : Nat) (data other : List UInt8) : Prop :=
  other.length = data.length ∧
    ∃ start, ∀ k, other[k]? ≠ data[k]? → start ≤ k ∧ k < start + width

/-- A change is one of the window: what precedes it and what follows it are the same. -/
lemma ChangedWithin.split {width : Nat} {data other : List UInt8}
    (h : ChangedWithin width data other) : ∃ front window changed back,
      data = front ++ window ++ back ∧ other = front ++ changed ++ back ∧
        changed.length = window.length ∧ window.length ≤ width := by
  obtain ⟨hlen, start, houtside⟩ := h
  have hfront : other.take start = data.take start := by
    apply List.ext_getElem?
    intro k
    by_cases hk : k < start
    · rw [List.getElem?_take_of_lt hk, List.getElem?_take_of_lt hk]
      by_contra hne
      exact absurd (houtside k hne).1 (Nat.not_le.2 hk)
    · rw [List.getElem?_take_eq_none (Nat.not_lt.1 hk),
        List.getElem?_take_eq_none (Nat.not_lt.1 hk)]
  have hback : other.drop (start + width) = data.drop (start + width) := by
    apply List.ext_getElem?
    intro k
    rw [List.getElem?_drop, List.getElem?_drop]
    by_contra hne
    have := (houtside _ hne).2
    omega
  refine ⟨data.take start, (data.drop start).take width, (other.drop start).take width,
    data.drop (start + width), ?_, ?_, ?_, ?_⟩
  · rw [List.append_assoc, ← List.drop_drop, List.take_append_drop, List.take_append_drop]
  · rw [← hfront, ← hback, List.append_assoc, ← List.drop_drop, List.take_append_drop,
      List.take_append_drop]
  · rw [List.length_take, List.length_take, List.length_drop, List.length_drop, hlen]
  · exact List.length_take_le _ _

/-- **A change within four bytes changes what the bytes leave in the register.** -/
theorem eq_of_changedWithin {register : UInt32} {data other : List UInt8}
    (h : ChangedWithin 4 data other) (hleft : feedAll register other = feedAll register data) :
    other = data := by
  obtain ⟨front, window, changed, back, rfl, rfl, hlen, hwidth⟩ := h.split
  simp only [feedAll_append] at hleft
  rw [eq_of_feedAll_eq hlen hwidth (feedAll_injective back hleft)]

/-- **A change within four bytes is reported as a wrong checksum.** Wherever the four bytes lie and
whatever they become, the bytes are refused with the checksum that they would need and the one that
stands in them, and the two differ.

**Proof sketch.** The container leaves the residue in the register (`feedAll_eq_residue_iff`). The
bytes in front of the window lead to one register, and those behind it merge no two registers, so
the changed bytes would have to leave the same register as the old ones, but up to four bytes are
told by the register that they leave. -/
theorem change_detected {data other : List UInt8} {root : CodeUnit}
    (hdecode : decode data = .ok root) (hwindow : ChangedWithin 4 data other)
    (hchanged : other ≠ data) :
    decode other = .error (.checksum (crc32 (covered other)) (stored other)) ∧
      crc32 (covered other) ≠ stored other := by
  obtain ⟨hlen, hsum⟩ := checked_of_decode hdecode
  have hfour : 4 ≤ data.length := le_trans (by decide) hlen
  have hresidue := (feedAll_eq_residue_iff hfour).2 hsum
  have hwrong : crc32 (covered other) ≠ stored other := by
    intro hother
    have hleft := (feedAll_eq_residue_iff (hwindow.1 ▸ hfour)).2 hother
    exact hchanged (eq_of_changedWithin hwindow (hleft.trans hresidue.symm))
  exact ⟨decode_of_wrong_checksum (hwindow.1 ▸ hlen) hwrong, hwrong⟩

/-- The bytes of a unit with one truth value, behind the header. -/
def flagBytes : List UInt8 :=
  [1, 0, 0, 0, 0x6D, 1, 0, 0, 0, 1, 0, 0, 0, 0x12, 0, 0, 0, 0, 1, 0, 0, 0, 4, 1]

/-- The container of that unit. -/
def flagContainer : List UInt8 :=
  [0x54, 0x52, 0x55, 0x54, 1, 0, 0, 0] ++ flagBytes ++ [221, 228, 189, 167]

/-- The container with the truth value and the first two bytes of the checksum changed. -/
def smudgedContainer : List UInt8 :=
  flagContainer.set 31 0 |>.set 32 7 |>.set 33 9

/-- A change across the border between the tree and its checksum. What stands there would be read
as the same unit with its truth value turned, but for the checksum. -/
theorem change_detected_across_border :
    decode flagContainer = .ok ⟨"m", 1, [0x12], [.bool true], []⟩ ∧
      ChangedWithin 4 flagContainer smudgedContainer ∧ smudgedContainer ≠ flagContainer ∧
      decode smudgedContainer =
        .error (.checksum (crc32 (covered smudgedContainer)) (stored smudgedContainer)) := by
  have hdecode : decode flagContainer = .ok ⟨"m", 1, [0x12], [.bool true], []⟩ :=
    decode_eq_ok_iff.2 ⟨0, 0, flagBytes, by decide +kernel, by decide +kernel⟩
  have hinside : ∀ k < 36, smudgedContainer[k]? ≠ flagContainer[k]? → 31 ≤ k ∧ k < 31 + 4 := by
    decide +kernel
  have hwindow : ChangedWithin 4 flagContainer smudgedContainer := by
    refine ⟨rfl, 31, fun k hk => ?_⟩
    by_cases hlt : k < 36
    · exact hinside k hlt hk
    · rw [List.getElem?_eq_none (Nat.not_lt.1 hlt), List.getElem?_eq_none (Nat.not_lt.1 hlt)] at hk
      exact absurd rfl hk
  have hchanged : smudgedContainer ≠ flagContainer := by decide +kernel
  exact ⟨hdecode, hwindow, hchanged, (change_detected hdecode hwindow hchanged).1⟩

end CoverProbe.Container
