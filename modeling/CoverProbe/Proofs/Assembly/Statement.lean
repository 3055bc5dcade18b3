import CoverProbe.Proofs.Assembly.Program

set_option relaxedAutoImplicit false
set_option autoImplicit false

/-!
# Reading printed lines

A printed line is read as what it says: around its core, blanks and comments go away; the core of a
directive is read as that directive, and any other as its label, its line number and its instruction.

## Main definitions

* `CoverProbe.Program.Core` — texts that blanks and comments around them do not hide.
* `CoverProbe.Program.Insn.clause` — what the text of an instruction says.

## Main results

* `CoverProbe.Program.Line.reads` — a line is read as its core.
* `CoverProbe.Program.Header.statement`, `Plain.Prints.statement` — directives.
* `CoverProbe.Program.statement_label`, `Insn.PrintsAt.statement`, `statement_labelled` — labels and
  instructions.
-/

namespace CoverProbe

/-! ## Comments -/

namespace Literal

/-- A character that hides nothing is kept, begins or ends a string, or begins a comment. -/
lemma withoutComment_cons {c : Char} (hc : c ≠ '\\') (inString : Bool) (rest : List Char) :
    withoutComment inString (c :: rest) =
      if c = '"' then '"' :: withoutComment (!inString) rest
      else if c = ';' ∧ inString = false then []
      else c :: withoutComment inString rest := by
  rw [withoutComment]
  exact fun d tail hd _ => hc hd

/-- Outside strings, a text that begins neither a string nor a comment is kept. -/
lemma withoutComment_append {a : List Char} (h : Plain a) (b : List Char) :
    withoutComment false (a ++ b) = a ++ withoutComment false b := by
  induction a with
  | nil => rfl
  | cons c a ih =>
    obtain ⟨⟨hsemi, hquote⟩, ha⟩ := List.forall_mem_cons.1 h
    have hkeep : withoutComment false (c :: (a ++ b)) = c :: withoutComment false (a ++ b) := by
      by_cases hc : c = '\\'
      · subst hc
        cases a ++ b with
        | nil => rfl
        | cons d rest => rfl
      · rw [withoutComment_cons hc, if_neg hquote, if_neg fun h => hsemi h.1]
    rw [List.cons_append, hkeep, ih ha, List.cons_append]

/-- A carriage return at the end of a line is kept, or belongs to the comment of the line. -/
lemma withoutComment_return (inString : Bool) (line : List Char) :
    withoutComment inString (line ++ ['\r']) = withoutComment inString line ++ ['\r'] ∨
      withoutComment inString (line ++ ['\r']) = withoutComment inString line := by
  have hkeep : ∀ (front : List Char) {a b : List Char}, a = b ++ ['\r'] ∨ a = b →
      front ++ a = front ++ b ++ ['\r'] ∨ front ++ a = front ++ b := by
    rintro front a b (rfl | rfl)
    · exact .inl (List.append_assoc _ _ _).symm
    · exact .inr rfl
  fun_induction withoutComment inString line with
  | case1 inString => cases inString <;> exact .inl rfl
  | case2 c rest ih => exact hkeep ['\\', c] ih
  | case3 inString c rest hs ih =>
    obtain rfl : inString = false := by simpa using hs
    exact hkeep ['\\'] ih
  | case4 inString rest hesc ih =>
    rw [List.cons_append, withoutComment_cons (by decide), if_pos rfl]
    exact hkeep ['"'] ih
  | case5 inString c rest hesc hquote hcomment =>
    obtain ⟨rfl, rfl⟩ := hcomment
    exact .inr rfl
  | case6 inString c rest hesc hquote hcomment ih =>
    by_cases hc : c = '\\'
    · -- A backslash at the very end hides the carriage return.
      subst hc
      cases rest with
      | nil => cases inString <;> exact .inl rfl
      | cons d rest => exact (hesc d rest rfl rfl).elim
    · rw [List.cons_append, withoutComment_cons hc, if_neg hquote, if_neg hcomment]
      exact hkeep [c] ih

/-! ## Bytes -/

/-- Hexadecimal digits are ASCII characters. -/
lemma toNat_lt_of_value? {c : Char} {n : Nat} (h : Hex.value? c = some n) : c.toNat < 128 := by
  unfold Hex.value? at h
  split_ifs at h with hdigit hlower hupper
  · exact Nat.lt_of_le_of_lt (show c.toNat ≤ 57 from hdigit.2) (by omega)
  · exact Nat.lt_of_le_of_lt (show c.toNat ≤ 102 from hlower.2) (by omega)
  · exact Nat.lt_of_le_of_lt (show c.toNat ≤ 70 from hupper.2) (by omega)

/-- The byte of a hexadecimal digit has its value. -/
lemma hexDigit_of_value? {c : Char} {n : Nat} (h : Hex.value? c = some n) :
    hexDigit (UInt8.ofNat c.toNat) = .ok n := by
  have hlt := toNat_lt_of_value? h
  have hbyte : (UInt8.ofNat c.toNat).toNat = c.toNat := by
    rw [UInt8.toNat_ofNat']
    omega
  rw [hexDigit, hbyte, Char.ofNat_toNat, h]

/-- The bytes of a text are those of its characters. -/
lemma utf8_ofList (text : List Char) :
    (String.ofList text).toUTF8.data.toList = text.flatMap String.utf8EncodeChar := by
  show ((text.flatMap String.utf8EncodeChar).toByteArray).data.toList = _
  rw [List.data_toByteArray]

/-- The bytes of an ASCII text are its characters. -/
lemma toUTF8_ofList {text : List Char} (h : ∀ c ∈ text, c.toNat < 128) :
    (String.ofList text).toUTF8.data.toList = text.map fun c => UInt8.ofNat c.toNat := by
  rw [utf8_ofList]
  induction text with
  | nil => rfl
  | cons c text ih =>
    obtain ⟨hc, htext⟩ := List.forall_mem_cons.1 h
    have hone : String.utf8EncodeChar c = [UInt8.ofNat c.toNat] :=
      if_pos (Nat.le_of_lt_succ hc)
    rw [List.flatMap_cons, hone, ih htext]
    rfl

/-- Pairs of hexadecimal digits are read as the bytes they spell. -/
lemma hexPairs_of_spells {text : List Char} {bs : List UInt8} (h : Hex.Spells text bs) :
    (∀ c ∈ text, ∃ n, Hex.value? c = some n) ∧ text.length % 2 = 0 ∧
      hexPairs (text.map fun c => UInt8.ofNat c.toNat) = .ok bs := by
  induction h with
  | nil => exact ⟨by simp, rfl, rfl⟩
  | cons hhigh hlow _ ih =>
    rw [← Hex.value?_eq_some_iff] at hhigh hlow
    obtain ⟨hdigits, heven, hread⟩ := ih
    refine ⟨List.forall_mem_cons.2 ⟨⟨_, hhigh⟩, List.forall_mem_cons.2 ⟨⟨_, hlow⟩, hdigits⟩⟩,
      ?_, ?_⟩
    · rw [List.length_cons, List.length_cons]
      omega
    · rw [List.map_cons, List.map_cons, hexPairs, hexDigit_of_value? hhigh,
        hexDigit_of_value? hlow, hread]
      rfl

/-- **A hexadecimal text is read as the bytes it spells.** -/
lemma bytes_of_spells {text : List Char} {bs : List UInt8} (h : Hex.Spells text bs) :
    bytes text = .ok bs := by
  obtain ⟨hdigits, heven, hread⟩ := hexPairs_of_spells h
  have hascii : ∀ c ∈ text, c.toNat < 128 := by
    intro c hc
    obtain ⟨n, hn⟩ := hdigits c hc
    exact toNat_lt_of_value? hn
  rw [bytes, toUTF8_ofList hascii, List.length_map, if_pos heven, hread]

end Literal

/-! ## Heads of lines -/

namespace Clause

/-- The text around its first colon is cut there. -/
lemma colon?_append {first : List Char} (h : ':' ∉ first) (rest : List Char) :
    colon? (first ++ ':' :: rest) = some (Text.trim first, Text.trim rest) := by
  have hcut : Text.cut? (· = ':') (first ++ ':' :: rest) = some (first, rest) := by
    refine Text.cut?_append (fun c hc => ?_) (decide_eq_true rfl)
    exact decide_eq_false fun heq => h (heq ▸ hc)
  rw [colon?, hcut]
  rfl

/-- What holds a character that is no digit is no line number. -/
lemma isNumber_eq_false {head : List Char} (h : ∃ c ∈ head, Decimal.isDigit c = false) :
    isNumber head = false := by
  obtain ⟨c, hc, hdigit⟩ := h
  rw [isNumber, Bool.and_eq_false_iff, List.all_eq_false]
  exact .inr ⟨c, hc, by rw [hdigit]; exact Bool.false_ne_true⟩

end Clause

namespace Program

/-! ## Cores of lines -/

/-- A text that is read as it is: not empty, not hidden by blanks or by a comment. -/
structure Core (text : List Char) : Prop where
  ne_nil : text ≠ []
  trimmed : Text.Trimmed text
  plain : Literal.Plain text

/-- A word that names something: it holds no colon either. -/
structure Token (text : List Char) : Prop where
  word : Text.IsWord text
  plain : Literal.Plain text
  noColon : ':' ∉ text

instance (text : List Char) : Decidable (Token text) :=
  decidable_of_iff (Text.IsWord text ∧ Literal.Plain text ∧ ':' ∉ text)
    ⟨fun h => ⟨h.1, h.2.1, h.2.2⟩, fun h => ⟨h.word, h.plain, h.noColon⟩⟩

lemma Token.core {text : List Char} (h : Token text) : Core text :=
  ⟨h.word.1, h.word.trimmed, h.plain⟩

/-- Blanks begin neither strings nor comments. -/
lemma plain_of_blanks {gap : List Char} (h : Text.Blanks gap) : Literal.Plain gap := by
  intro c hc
  have hblank := h c hc
  constructor
  · rintro rfl
    exact absurd hblank (by decide)
  · rintro rfl
    exact absurd hblank (by decide)

lemma plain_append {a b : List Char} (ha : Literal.Plain a) (hb : Literal.Plain b) :
    Literal.Plain (a ++ b) := by
  intro c hc
  rcases List.mem_append.1 hc with hc | hc
  · exact ha c hc
  · exact hb c hc

/-- Cores one behind the other make a core. -/
lemma Core.append {a b middle : List Char} (ha : Core a) (hb : Core b)
    (hm : Literal.Plain middle) : Core (a ++ middle ++ b) where
  ne_nil := by simp [ha.ne_nil]
  trimmed := ha.trimmed.append ha.ne_nil hb.trimmed hb.ne_nil middle
  plain := plain_append (plain_append ha.plain hm) hb.plain

/-- A line is read as its core, if the search for a comment goes past that. -/
lemma Line.reads_of_kept {core line : List Char} (h : Line core line)
    (htrimmed : Text.Trimmed core) (hkept : ∀ rest, Literal.withoutComment false (core ++ rest) =
      core ++ Literal.withoutComment false rest) :
    Text.trim (Literal.withoutComment false line) = core := by
  obtain ⟨-, indent, trail, comment, hindent, htrail, hcomment, rfl⟩ := h
  have hgone : Literal.withoutComment false comment = [] := by
    rcases hcomment with rfl | ⟨remark, rfl⟩
    · rfl
    · rfl
  rw [List.append_assoc, List.append_assoc,
    Literal.withoutComment_append (plain_of_blanks hindent), hkept,
    Literal.withoutComment_append (plain_of_blanks htrail), hgone, List.append_nil,
    ← List.append_assoc]
  exact htrimmed.trim_between hindent htrail

/-- **A line is read as its core.** -/
lemma Line.reads {core line : List Char} (h : Line core line) (htrimmed : Text.Trimmed core)
    (hplain : Literal.Plain core) : Text.trim (Literal.withoutComment false line) = core :=
  h.reads_of_kept htrimmed (Literal.withoutComment_append hplain)

/-! ## Tokens -/

/-- Digits and letters, of either case and with the underscore among them. -/
def Ordinary (c : Char) : Prop :=
  (48 ≤ c.toNat ∧ c.toNat ≤ 57) ∨ (65 ≤ c.toNat ∧ c.toNat ≤ 122)

instance (c : Char) : Decidable (Ordinary c) :=
  inferInstanceAs (Decidable (_ ∨ _))

/-- Digits and letters make a token that does not begin with a dot. -/
lemma token_of_ordinary {text : List Char} (hne : text ≠ []) (h : ∀ c ∈ text, Ordinary c) :
    Token text ∧ text.head? ≠ some '.' := by
  have hother : ∀ d : Char, ¬ Ordinary d → d ∉ text := fun d hd hmem => hd (h d hmem)
  have hdot : '.' ∉ text := hother '.' (by decide)
  refine ⟨⟨⟨hne, fun c hc => ?_⟩, fun c hc => ⟨?_, ?_⟩, hother ':' (by decide)⟩, ?_⟩
  · have hrange := h c hc
    unfold Ordinary at hrange
    simp only [Text.isBlank, Bool.or_eq_false_iff, Bool.and_eq_false_iff, decide_eq_false_iff_not]
    omega
  · rintro rfl
    exact hother ';' (by decide) hc
  · rintro rfl
    exact hother '"' (by decide) hc
  · exact fun hhead => hdot (List.mem_of_mem_head? hhead)

/-- Digits make a token. -/
lemma token_of_digits {text : List Char} (hne : text ≠ [])
    (h : ∀ c ∈ text, Decimal.isDigit c = true) : Token text ∧ text.head? ≠ some '.' := by
  refine token_of_ordinary hne fun c hc => ?_
  have hdigit := h c hc
  simp only [Decimal.isDigit, Bool.and_eq_true, decide_eq_true_eq] at hdigit
  exact .inl ⟨hdigit.1, hdigit.2⟩

/-- The digits of a number make a token. -/
lemma token_of_spells {text : List Char} {n : Nat} (h : Decimal.Spells text n) :
    Token text ∧ text.head? ≠ some '.' :=
  token_of_digits h.1 h.2.1

/-- The names of opcodes are made of letters. -/
lemma mnemonic_lower (op : Opcode) : op.mnemonic.toList ≠ [] ∧
    ∀ c ∈ op.mnemonic.toList.map Char.toLower, 95 ≤ c.toNat ∧ c.toNat ≤ 122 := by
  have hall : op.mnemonic.toList ≠ [] ∧ (op.mnemonic.toList.map Char.toLower).all
      (fun c => 95 ≤ c.toNat ∧ c.toNat ≤ 122) = true := by
    cases op <;> decide
  exact ⟨hall.1, fun c hc => of_decide_eq_true (List.all_eq_true.1 hall.2 c hc)⟩

/-- Whatever is a letter in lower case is a letter. -/
lemma ordinary_of_toLower {c : Char} (h : 95 ≤ c.toLower.toNat ∧ c.toLower.toNat ≤ 122) :
    Ordinary c := by
  unfold Char.toLower at h
  split_ifs at h with hupper
  · have hlow : 65 ≤ c.toNat := hupper.1
    have hhigh : c.toNat ≤ 90 := hupper.2
    exact .inr ⟨hlow, by omega⟩
  · exact .inr ⟨by omega, h.2⟩

/-- The name of an opcode, in any case of its letters, makes a token. -/
lemma Mnemonic.token {op : Opcode} {text : List Char} (h : Mnemonic op text) :
    Token text ∧ text.head? ≠ some '.' := by
  obtain ⟨hne, hlower⟩ := mnemonic_lower op
  refine token_of_ordinary ?_ fun c hc => ?_
  · rintro rfl
    exact hne (List.map_eq_nil_iff.1 (Eq.symm h))
  · exact ordinary_of_toLower (hlower c.toLower (h ▸ List.mem_map_of_mem hc))

/-- An opcode is found by its name in any case of its letters. -/
lemma Mnemonic.ofMnemonic? {op : Opcode} {text : List Char} (h : Mnemonic op text) :
    Opcode.ofMnemonic? text = some op := by
  rw [← Opcode.ofMnemonic?_mnemonic op]
  unfold Opcode.ofMnemonic?
  rw [h]

/-- Whatever an opcode is found by is its name. -/
lemma mnemonic_of_ofMnemonic? {op : Opcode} {text : List Char}
    (h : Opcode.ofMnemonic? text = some op) : Mnemonic op text := by
  unfold Opcode.ofMnemonic? at h
  have hname := List.find?_some h
  exact (of_decide_eq_true hname).symm

/-- The name of a label makes a token. -/
lemma LabelName.token (name : LabelName) : Token name.text :=
  ⟨name.word, name.plain, name.noColon⟩

/-- The name of a label does not begin with a dot, whatever stands behind it. -/
lemma LabelName.head?_append (name : LabelName) (tail : List Char) :
    (name.text ++ tail).head? ≠ some '.' := by
  have hdot := name.noDot
  obtain ⟨c, rest, htext⟩ := List.exists_cons_of_ne_nil name.word.1
  rw [htext] at hdot ⊢
  exact hdot

/-- A label behind its mark makes a token. -/
lemma token_label (name : LabelName) : Token ('@' :: name.text) where
  word := ⟨List.cons_ne_nil _ _, List.forall_mem_cons.2 ⟨by decide, name.word.2⟩⟩
  plain := List.forall_mem_cons.2 ⟨by decide, name.plain⟩
  noColon := by
    simp [name.noColon]

/-! ## Instructions -/

/-- What the text of an instruction says. -/
def Insn.clause (i : Insn) : Clause :=
  match i.arg with
  | .none => .plain i.op none
  | .word value => .plain i.op (some value)
  | .label name => .jump i.op name.name

/-- The text of an instruction is a core without colons that does not begin with a dot. -/
lemma Insn.Prints.core {i : Insn} {text : List Char} (h : i.Prints text) :
    Core text ∧ ':' ∉ text ∧ text.head? ≠ some '.' := by
  have hpair : ∀ {name gap operand : List Char}, Mnemonic i.op name → Gap gap → Token operand →
      Core (name ++ gap ++ operand) ∧ ':' ∉ name ++ gap ++ operand ∧
        (name ++ gap ++ operand).head? ≠ some '.' := by
    intro name gap operand hname hgap hoperand
    obtain ⟨htoken, hdot⟩ := hname.token
    refine ⟨htoken.core.append hoperand.core (plain_of_blanks hgap.2), ?_, ?_⟩
    · simp only [List.mem_append, not_or]
      refine ⟨⟨htoken.noColon, fun hcolon => ?_⟩, hoperand.noColon⟩
      exact absurd (hgap.2 ':' hcolon) (by decide)
    · obtain ⟨c, rest, rfl⟩ := List.exists_cons_of_ne_nil htoken.word.1
      exact hdot
  cases h with
  | bare hname harg => exact ⟨hname.token.1.core, hname.token.1.noColon, hname.token.2⟩
  | word hname hgap harg hdigits => exact hpair hname hgap (token_of_spells hdigits).1
  | label hname hgap harg => exact hpair hname hgap (token_label _)

/-- **The text of an instruction says what it is.** -/
lemma Insn.Prints.ofWords_words {i : Insn} {text : List Char} (h : i.Prints text) :
    Clause.ofWords (Text.words text) = i.clause := by
  have harity := i.arity
  cases h with
  | bare hname harg =>
    rw [harg] at harity
    rw [hname.token.1.word.words_eq, Clause.ofWords, hname.ofMnemonic?]
    dsimp only
    rw [← harity, clause, harg]
    rfl
  | @word name gap digits value hname hgap harg hdigits =>
    rw [harg] at harity
    have htoken := (token_of_spells hdigits).1
    rw [hname.token.1.word.words_append hgap.2 hgap.1, htoken.word.words_eq, Clause.ofWords,
      hname.ofMnemonic?]
    dsimp only
    rw [← harity, clause, harg]
    show Clause.withOperand i.op digits = _
    unfold Clause.withOperand
    split
    · exact absurd rfl (hdigits.ne_sign (by decide) _)
    · rw [Decimal.word_of_spells hdigits]
  | @label name gap target hname hgap harg =>
    rw [harg] at harity
    rw [hname.token.1.word.words_append hgap.2 hgap.1, (token_label target).word.words_eq,
      Clause.ofWords, hname.ofMnemonic?]
    dsimp only
    rw [← harity, clause, harg]
    rfl

/-- The text of an instruction is read as an instruction. -/
lemma Insn.Prints.instruction {i : Insn} {text : List Char} (h : i.Prints text) :
    Clause.instruction text = [i.clause] := by
  rw [Clause.instruction, if_neg h.core.1.ne_nil, h.ofWords_words]

/-! ## Colons -/

/-- What stands before a colon is cut off. -/
lemma colon?_append {head : List Char} (h : Token head) (tail : List Char) :
    Clause.colon? (head ++ ':' :: tail) = some (head, Text.trim tail) := by
  rw [Clause.colon?_append h.noColon, h.word.trimmed.trim_eq]

/-- A text without colons is not cut. -/
lemma colon?_eq_none {text : List Char} (h : ':' ∉ text) : Clause.colon? text = none := by
  have hcut : Text.cut? (· = ':') text = none :=
    Text.cut?_eq_none fun c hc => decide_eq_false fun heq => h (heq ▸ hc)
  rw [Clause.colon?, hcut]
  rfl

/-- The digits of a line number are one. -/
lemma numbered_of_spells {digits : List Char} {line : UInt32}
    (h : Decimal.Spells digits line.toNat) (following : List Clause) :
    Clause.isNumber digits = true ∧
      Clause.numbered digits following = .line line :: following := by
  constructor
  · rw [Clause.isNumber, Bool.and_eq_true, List.all_eq_true]
    exact ⟨decide_eq_true h.1, h.2.1⟩
  · rw [Clause.numbered, Decimal.word_of_spells h]

/-- **An instruction is read with its line number, if it has one**, both at the front of a line and
behind a label. -/
lemma Insn.PrintsAt.clauses {current : UInt32} {i : Insn} {text : List Char}
    (h : i.PrintsAt current text) : Core text ∧ text.head? ≠ some '.' ∧
      ∃ number, (number = [] ∧ i.line = current ∨ number = [.line i.line]) ∧
        Clause.ofLine text = number ++ [i.clause] ∧
        Clause.afterHead text = number ++ [i.clause] := by
  cases h with
  | bare hline h =>
    obtain ⟨hcore, hcolon, hdot⟩ := h.core
    refine ⟨hcore, hdot, [], .inl ⟨rfl, hline⟩, ?_, ?_⟩
    · rw [Clause.ofLine, colon?_eq_none hcolon, h.instruction]
      rfl
    · rw [Clause.afterHead, colon?_eq_none hcolon, h.instruction]
      rfl
  | @numbered digits gap text hdigits hgap h =>
    obtain ⟨hcore, hcolon, hdot⟩ := h.core
    obtain ⟨htoken, hdigitsDot⟩ := token_of_spells hdigits
    have htrim : Text.trim (gap ++ text) = text := by
      rw [Text.trim_of_blanks_append hgap, hcore.trimmed.trim_eq]
    have hcut : Clause.colon? (digits ++ (':' :: gap) ++ text) = some (digits, text) := by
      rw [List.append_assoc, List.cons_append, colon?_append htoken, htrim]
    have hbehind : Clause.afterHead text = [i.clause] := by
      rw [Clause.afterHead, colon?_eq_none hcolon, h.instruction]
    refine ⟨htoken.core.append hcore ?_, ?_, [.line i.line], .inr rfl, ?_, ?_⟩
    · exact List.forall_mem_cons.2 ⟨by decide, plain_of_blanks hgap⟩
    · obtain ⟨c, rest, rfl⟩ := List.exists_cons_of_ne_nil htoken.word.1
      exact hdigitsDot
    · rw [Clause.ofLine, hcut]
      dsimp only
      rw [if_neg (Text.isWord_iff.1 htoken.word), if_pos (numbered_of_spells hdigits []).1, hbehind,
        (numbered_of_spells hdigits _).2]
      rfl
    · rw [Clause.afterHead, hcut]
      dsimp only
      rw [if_pos (numbered_of_spells hdigits []).1, h.instruction,
        (numbered_of_spells hdigits _).2]
      rfl

/-- A label is read in front of whatever follows it. -/
lemma ofLine_label (name : LabelName) (tail : List Char) :
    Clause.ofLine (name.text ++ ':' :: tail) =
      .label name.name :: Clause.afterHead (Text.trim tail) := by
  have htoken := LabelName.token name
  rw [Clause.ofLine, colon?_append htoken]
  dsimp only
  rw [if_neg (Text.isWord_iff.1 htoken.word), Clause.isNumber_eq_false name.notNumber,
    if_neg Bool.false_ne_true]
  rfl

/-! ## Directives -/

/-- A directive is found at the front of a text. -/
lemma behind?_append (directive : String) (rest : List Char) :
    Statement.behind? directive (directive.toList ++ rest) = some rest := by
  have hprefix : directive.toList.isPrefixOf (directive.toList ++ rest) = true :=
    List.isPrefixOf_iff_prefix.2 (List.prefix_append _ _)
  rw [Statement.behind?, if_pos hprefix, ← String.length_toList, List.drop_left]

/-- A text that does not begin with a dot is no directive. -/
lemma ofLine_of_head {text : List Char} (h : text.head? ≠ some '.') :
    Statement.ofLine text = .body (Clause.ofLine text) := by
  have hnone : ∀ directive : String, directive.toList.head? = some '.' →
      Statement.behind? directive text = none := by
    intro directive hdot
    refine if_neg fun hprefix => h ?_
    obtain ⟨rest, rfl⟩ := List.isPrefixOf_iff_prefix.1 hprefix
    rw [List.head?_append, hdot]
    rfl
  have hend : text ≠ ".end".toList := by
    rintro rfl
    exact h rfl
  rw [Statement.ofLine, hnone ".unit" rfl]
  dsimp only
  rw [if_neg hend, hnone ".const" rfl]

/-- **A header is read as the name and the base line of a unit.** -/
lemma Header.statement {name : UnitName} {firstLine : UInt32} {text : List Char}
    (h : Header name firstLine text) :
    Core text ∧ Statement.ofLine text = .open (.ok (name.name, firstLine)) := by
  obtain ⟨gap, gap', digits, hgap, hgap', hdigits, rfl⟩ := h
  have htoken := (token_of_spells hdigits).1
  have hname : Core name.text := ⟨name.word.1, name.word.trimmed, name.plain⟩
  have hbehind : Core (name.text ++ gap' ++ digits) :=
    hname.append htoken.core (plain_of_blanks hgap'.2)
  have hunit : Token ".unit".toList := by decide
  refine ⟨hunit.core.append hbehind (plain_of_blanks hgap.2), ?_⟩
  rw [Statement.ofLine, List.append_assoc, behind?_append]
  dsimp only
  rw [Statement.header, Text.words_of_blanks_append hgap.2,
    name.word.words_append hgap'.2 hgap'.1, htoken.word.words_eq]
  dsimp only
  rw [Decimal.word_of_spells hdigits]
  rfl

/-- A unit is closed by its directive. -/
lemma statement_end : Core ".end".toList ∧ Statement.ofLine ".end".toList = .close :=
  ⟨Token.core (by decide), rfl⟩

/-! ## Constants -/

/-- The digits of an integer make a token. -/
lemma token_of_spellsInt {text : List Char} {i : Int} (h : Decimal.SpellsInt text i) :
    Token text := by
  rcases h with ⟨n, hdigits, -⟩ | ⟨digits, n, rfl, hdigits, -⟩
  · exact (token_of_spells hdigits).1
  · have htoken := (token_of_spells hdigits).1
    exact ⟨⟨List.cons_ne_nil _ _, List.forall_mem_cons.2 ⟨by decide, htoken.word.2⟩⟩,
      List.forall_mem_cons.2 ⟨by decide, htoken.plain⟩, by simp [htoken.noColon]⟩

/-- Hexadecimal digits make a token. -/
lemma token_of_hexSpells {text : List Char} {bs : List UInt8} (hne : text ≠ [])
    (h : Hex.Spells text bs) : Token text := by
  refine (token_of_ordinary hne fun c hc => ?_).1
  obtain ⟨n, hn⟩ := (Literal.hexPairs_of_spells h).1 c hc
  unfold Hex.value? at hn
  split_ifs at hn with hdigit hlower hupper
  · exact .inl ⟨hdigit.1, hdigit.2⟩
  · have hlow : 97 ≤ c.toNat := hlower.1
    have hhigh : c.toNat ≤ 102 := hlower.2
    exact .inr ⟨by omega, by omega⟩
  · have hlow : 65 ≤ c.toNat := hupper.1
    have hhigh : c.toNat ≤ 70 := hupper.2
    exact .inr ⟨by omega, by omega⟩

/-- The kind of a constant ends at the first blank. -/
lemma cut?_kind {kind gap operand : List Char} (hkind : Text.IsWord kind) (hgap : Gap gap)
    (hoperand : Text.Trimmed operand) : ∃ rest,
      Text.cut? Text.isBlank (kind ++ gap ++ operand) = some (kind, rest) ∧
        Text.trim rest = operand := by
  obtain ⟨hne, hblanks⟩ := hgap
  obtain ⟨c, gap, rfl⟩ := List.exists_cons_of_ne_nil hne
  obtain ⟨hc, hblanks⟩ := List.forall_mem_cons.1 hblanks
  refine ⟨gap ++ operand, ?_, ?_⟩
  · rw [List.append_assoc, List.cons_append, Text.cut?_append hkind.2 hc]
  · rw [Text.trim_of_blanks_append hblanks, hoperand.trim_eq]

/-- **The text of a constant is read as the constant.** -/
lemma Plain.Prints.constant {constant : Plain} {text : List Char} (h : constant.Prints text) :
    Core text ∧ Literal.constant text = .ok constant.value := by
  cases h with
  | null => exact ⟨Token.core (by decide), rfl⟩
  | isTrue => exact ⟨Token.core (by decide), rfl⟩
  | isFalse => exact ⟨Token.core (by decide), rfl⟩
  | noBytes => exact ⟨Token.core (by decide), rfl⟩
  | int hgap hdigits =>
    have hint : Token "int".toList := by decide
    have htoken := token_of_spellsInt hdigits
    obtain ⟨rest, hcut, htrim⟩ := cut?_kind hint.word hgap htoken.word.trimmed
    refine ⟨hint.core.append htoken.core (plain_of_blanks hgap.2), ?_⟩
    rw [Literal.constant, hcut]
    simp only [Option.getD_some, htrim, String.ofList_toList, Decimal.int64_of_spells hdigits]
    rfl
  | bytes hgap hne hdigits =>
    have hbytes : Token "bytes".toList := by decide
    have htoken := token_of_hexSpells hne hdigits
    obtain ⟨rest, hcut, htrim⟩ := cut?_kind hbytes.word hgap htoken.word.trimmed
    refine ⟨hbytes.core.append htoken.core (plain_of_blanks hgap.2), ?_⟩
    rw [Literal.constant, hcut]
    simp only [Option.getD_some, htrim, String.ofList_toList, Literal.bytes_of_spells hdigits]
    rfl

/-- What stands behind a constant directive is read as a constant. -/
lemma statement_const {gap text : List Char} {value : Constant CodeUnit} (hgap : Text.Blanks gap)
    (htext : Text.Trimmed text) (hread : Literal.constant text = .ok value) :
    Statement.ofLine (".const".toList ++ gap ++ text) = .body [.constant value] := by
  have hunit : Statement.behind? ".unit" (".const".toList ++ (gap ++ text)) = none := rfl
  have hend : ".const".toList ++ (gap ++ text) ≠ ".end".toList := by
    intro heq
    exact absurd (congrArg (·[1]?) heq) (by simp)
  rw [List.append_assoc, Statement.ofLine, hunit]
  dsimp only
  rw [if_neg hend, behind?_append]
  dsimp only
  rw [Text.trim_of_blanks_append hgap, htext.trim_eq, hread]

/-- **A constant directive is read as its constant.** -/
lemma Plain.Prints.statement {constant : Plain} {gap text : List Char} (hgap : Gap gap)
    (h : constant.Prints text) : Core (".const".toList ++ gap ++ text) ∧
      Statement.ofLine (".const".toList ++ gap ++ text) = .body [.constant constant.value] := by
  obtain ⟨hcore, hread⟩ := h.constant
  have hconst : Token ".const".toList := by decide
  exact ⟨hconst.core.append hcore (plain_of_blanks hgap.2),
    statement_const hgap.2 hcore.trimmed hread⟩

/-! ## Labels and instructions -/

/-- **A label is read as a binding.** -/
lemma statement_label (name : LabelName) : Core (name.text ++ [':']) ∧
    Statement.ofLine (name.text ++ [':']) = .body [.label name.name] := by
  have hcolon : Core [':'] :=
    ⟨by decide, Text.IsWord.trimmed (by decide), by decide⟩
  have hcore := (LabelName.token name).core.append hcolon (List.forall_mem_nil _)
  rw [List.append_nil] at hcore
  refine ⟨hcore, ?_⟩
  rw [ofLine_of_head (LabelName.head?_append name _), ofLine_label]
  rfl

/-- **An instruction is read with its line number, if it has one.** -/
lemma Insn.PrintsAt.statement {current : UInt32} {i : Insn} {text : List Char}
    (h : i.PrintsAt current text) : Core text ∧
      ∃ number, (number = [] ∧ i.line = current ∨ number = [.line i.line]) ∧
        Statement.ofLine text = .body (number ++ [i.clause]) := by
  obtain ⟨hcore, hdot, number, hnumber, hclauses, -⟩ := h.clauses
  exact ⟨hcore, number, hnumber, by rw [ofLine_of_head hdot, hclauses]⟩

/-- **A label in front of an instruction is read before that.** -/
lemma statement_labelled {current : UInt32} {name : LabelName} {i : Insn} {gap text : List Char}
    (hgap : Text.Blanks gap) (h : i.PrintsAt current text) :
    Core (name.text ++ (':' :: gap) ++ text) ∧
      ∃ number, (number = [] ∧ i.line = current ∨ number = [.line i.line]) ∧
        Statement.ofLine (name.text ++ (':' :: gap) ++ text) =
          .body (.label name.name :: (number ++ [i.clause])) := by
  obtain ⟨hcore, -, number, hnumber, -, hclauses⟩ := h.clauses
  refine ⟨(LabelName.token name).core.append hcore ?_, number, hnumber, ?_⟩
  · exact List.forall_mem_cons.2 ⟨by decide, plain_of_blanks hgap⟩
  · rw [List.append_assoc, ofLine_of_head (LabelName.head?_append name _), List.cons_append,
      ofLine_label, Text.trim_of_blanks_append hgap, hcore.trimmed.trim_eq, hclauses]

end Program

end CoverProbe
