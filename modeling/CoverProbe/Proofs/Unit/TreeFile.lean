import CoverProbe.Proofs.Assembly.Acceptance
import CoverProbe.Proofs.Unit.Container
import CoverProbe.Unit.TreeFile

set_option relaxedAutoImplicit false
set_option autoImplicit false

/-!
# Sources and containers are told apart

A text that is assembled begins with a blank, a comment or a directive, so its bytes do not begin
like a container. A tree file that holds a source is read as the tree that is assembled, and one
that holds the container of a tree as that tree.

## Main results

* `CoverProbe.Source.head_of_assemble` — what a text that is assembled begins with.
* `CoverProbe.TreeFile.isContainer_of_assemble` — a text that is assembled is no container.
* `CoverProbe.TreeFile.read_of_assemble`, `read_of_encode` — trees are read from either kind of
  file.
-/

namespace CoverProbe

/-! ## The first character of a text -/

namespace Text

/-- The first line of a text begins as the text does, if that is not with the end of a line. -/
lemma exists_linesFrom {c : Char} (hc : c ≠ '\r') (line text : List Char) :
    ∃ more others, linesFrom (line ++ [c]) text = (c :: more) :: others := by
  induction text generalizing line with
  | nil =>
    refine ⟨line.reverse, [], ?_⟩
    rw [linesFrom, if_neg (by simp), List.reverse_append]
    rfl
  | cons d rest ih =>
    rw [linesFrom]
    split_ifs with hd
    · -- A carriage return that goes away is not the character the line begins with.
      cases line with
      | nil =>
        refine ⟨[], linesFrom [] rest, ?_⟩
        have hclose : closeLine ([] ++ [c]) = [c] := by
          unfold closeLine
          split
          · rename_i line hline
            exact absurd (List.cons.inj hline).1 hc
          · rfl
        rw [hclose]
      | cons e line =>
        have hclose : ∃ more, closeLine (e :: line ++ [c]) = c :: more := by
          unfold closeLine
          split
          · rename_i front hline
            obtain ⟨rfl, rfl⟩ := List.cons.inj hline
            exact ⟨line.reverse, List.reverse_append⟩
          · exact ⟨(e :: line).reverse, List.reverse_append⟩
        obtain ⟨more, hmore⟩ := hclose
        exact ⟨more, linesFrom [] rest, by rw [hmore]⟩
    · exact ih (d :: line)

/-- What is left of a text that does not begin with a blank begins as the text does. -/
lemma exists_trim_cons {c : Char} (hc : isBlank c = false) (text : List Char) :
    ∃ more, trim (c :: text) = c :: more := by
  obtain ⟨before, after, hbefore, hafter, htext, -⟩ := exists_trim (c :: text)
  cases before with
  | cons d before =>
    obtain ⟨rfl, -⟩ := List.cons.inj htext
    exact absurd (hbefore c List.mem_cons_self) (by rw [hc]; exact Bool.false_ne_true)
  | nil =>
    cases htrim : trim (c :: text) with
    | cons d more =>
      rw [htrim] at htext
      obtain ⟨rfl, -⟩ := List.cons.inj htext
      exact ⟨more, rfl⟩
    | nil =>
      rw [htrim] at htext
      have hmem : c ∈ after := by
        rw [show after = c :: text from htext.symm]
        exact List.mem_cons_self
      exact absurd (hafter c hmem) (by rw [hc]; exact Bool.false_ne_true)

end Text

/-- A text that does not begin with a comment keeps its first character. -/
lemma Literal.exists_withoutComment_cons {c : Char} (hc : c ≠ ';') (text : List Char) :
    ∃ more, withoutComment false (c :: text) = c :: more := by
  by_cases hescape : c = '\\'
  · subst hescape
    cases text with
    | nil => exact ⟨_, rfl⟩
    | cons d rest => exact ⟨_, rfl⟩
  · rw [withoutComment_cons hescape]
    by_cases hquote : c = '"'
    · rw [if_pos hquote, hquote]
      exact ⟨_, rfl⟩
    · rw [if_neg hquote, if_neg fun h => hc h.1]
      exact ⟨_, rfl⟩

namespace Source

variable {sign : SignConvention} {source : String} {root : CodeUnit}

/-- A text that begins neither with a blank nor with a comment says something in its first line. -/
lemma exists_cores {c : Char} {rest : List Char} (hblank : Text.isBlank c = false) (hc : c ≠ ';')
    (h : source.toList = c :: rest) : ∃ more others, cores source = (c :: more) :: others := by
  have hfeed : c ≠ '\n' := by
    rintro rfl
    exact absurd hblank (by decide)
  have hreturn : c ≠ '\r' := by
    rintro rfl
    exact absurd hblank (by decide)
  obtain ⟨line, lines, hlines⟩ := Text.exists_linesFrom hreturn [] rest
  obtain ⟨text, htext⟩ := Literal.exists_withoutComment_cons hc line
  obtain ⟨more, hmore⟩ := Text.exists_trim_cons hblank text
  refine ⟨more, coresOf lines, ?_⟩
  have hall : Text.lines source.toList = (c :: line) :: lines := by
    rw [h, Text.lines, Text.linesFrom, if_neg hfeed]
    exact hlines
  rw [cores, hall, coresOf, List.map_cons, htext, hmore, List.filter_cons_of_pos (by simp)]
  rfl

/-- **A text that is assembled begins with a blank, a comment or a directive**, since the first
thing it says is to open a unit. -/
theorem head_of_assemble (h : assemble sign source = .ok root) :
    ∀ c ∈ source.toList.head?, Text.isBlank c = true ∨ c = ';' ∨ c = '.' := by
  intro c hc
  obtain ⟨rest, hsource⟩ := List.head?_eq_some_iff.1 hc
  by_contra hother
  simp only [not_or, Bool.not_eq_true] at hother
  obtain ⟨hblank, hcomment, hdirective⟩ := hother
  obtain ⟨part, hread, hpart⟩ := Checked.bind_eq_ok.1 h
  cases part with
  | within units => cases units <;> cases hpart
  | complete closed =>
    obtain ⟨opening, body, hopens, -, htree⟩ := (lines_of_readLines hread).2
    obtain ⟨more, others, hcores⟩ := exists_cores hblank hcomment hsource
    obtain ⟨rfl, -⟩ := List.cons.inj (hcores.symm.trans htree)
    exact hdirective (List.cons_prefix_cons.1 hopens).1.symm

end Source

/-! ## The first byte of a file -/

namespace Utf8

/-- A character whose first byte is an ASCII character is that character. -/
lemma toNat_of_utf8_cons {c : Char} {b : UInt8} {rest : List UInt8}
    (h : String.utf8EncodeChar c = b :: rest) (hb : b.toNat < 128) : c.toNat = b.toNat := by
  -- The first byte of a longer character has its two highest bits set.
  have hlong : ∀ n, 192 ≤ n → n < 256 → UInt8.ofNat n ≠ b := by
    rintro n hlow hhigh rfl
    rw [UInt8.toNat_ofNat'] at hb
    omega
  unfold String.utf8EncodeChar at h
  dsimp only at h
  split_ifs at h with hone
  · rw [← (List.cons.inj h).1, UInt8.toNat_ofNat', Nat.mod_eq_of_lt (by omega)]
    rfl
  · exact absurd (List.cons.inj h).1 (hlong _ (by omega) (by omega))
  · exact absurd (List.cons.inj h).1 (hlong _ (by omega) (by omega))
  · exact absurd (List.cons.inj h).1 (hlong _ (by omega) (by omega))

/-- A text whose first byte is an ASCII character begins with that character. -/
lemma head_of_encode {source : String} {b : UInt8} {rest : List UInt8}
    (h : encode source = b :: rest) (hb : b.toNat < 128) :
    ∃ c ∈ source.toList.head?, c.toNat = b.toNat := by
  have hbytes : encode source = source.toList.flatMap String.utf8EncodeChar := by
    rw [← Literal.utf8_ofList, String.ofList_toList]
    rfl
  rw [hbytes] at h
  cases hsource : source.toList with
  | nil =>
    rw [hsource] at h
    cases h
  | cons c text =>
    rw [hsource, List.flatMap_cons] at h
    refine ⟨c, rfl, ?_⟩
    cases hchar : String.utf8EncodeChar c with
    | nil =>
      unfold String.utf8EncodeChar at hchar
      dsimp only at hchar
      split_ifs at hchar
    | cons d more =>
      rw [hchar] at h
      obtain ⟨rfl, -⟩ := List.cons.inj h
      exact toNat_of_utf8_cons hchar hb

/-- A text is decoded from its bytes. -/
lemma decode_encode (source : String) : decode (encode source) = .ok source := by
  rw [decode, Container.Reader.fromUTF8?_eq_some_iff.2 rfl]

end Utf8

namespace TreeFile

variable {sign : SignConvention} {source : String} {root : CodeUnit} {data : List UInt8}

/-- **A text that is assembled is no container**: it does not begin with a letter. -/
theorem isContainer_of_assemble (h : Source.assemble sign source = .ok root) :
    isContainer (Utf8.encode source) = false := by
  rw [Bool.eq_false_iff]
  intro hmagic
  obtain ⟨rest, hrest⟩ := List.isPrefixOf_iff_prefix.1 hmagic
  obtain ⟨c, hc, hletter⟩ := Utf8.head_of_encode (b := 0x54) hrest.symm (by decide)
  obtain rfl : c = 'T' := Char.toNat_inj.1 hletter
  exact absurd (Source.head_of_assemble h _ hc) (by decide)

/-- The container of a tree is one. -/
theorem isContainer_of_encode (h : Container.encode root = .ok data) : isContainer data = true := by
  obtain ⟨body, -, rfl⟩ := Container.encode_eq_ok_iff.1 h
  rfl

/-- **A file that holds a source is read as the tree that is assembled.** -/
theorem read_of_assemble (h : Source.assemble sign source = .ok root) :
    read sign (Utf8.encode source) = .ok root := by
  rw [read, isContainer_of_assemble h, Utf8.decode_encode, if_neg Bool.false_ne_true]
  exact Checked.mapError_eq_ok.2 h

/-- **A file that holds the container of a tree is read as that tree**, whatever the settings. -/
theorem read_of_encode (h : Container.encode root = .ok data) : read sign data = .ok root := by
  rw [read, if_pos (isContainer_of_encode h), Checked.mapError_eq_ok]
  exact Container.decode_eq_ok_iff.2 (Container.holds_of_encode h)

/-- A file of assembly text is read as the tree that is assembled. -/
theorem assemble_of_assemble (h : Source.assemble sign source = .ok root) :
    assemble sign (Utf8.encode source) = .ok root := by
  rw [assemble, Utf8.decode_encode]
  exact Checked.mapError_eq_ok.2 h

end TreeFile

end CoverProbe
