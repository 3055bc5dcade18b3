import CoverProbe.Proofs.Assembly.Grammar

set_option relaxedAutoImplicit false
set_option autoImplicit false

/-!
# Lines are read by their grammar

A trimmed line is read without a fault of syntax exactly if it is in the grammar with its liberties:
each function that reads a part of a line accepts exactly the texts that the grammar gives that
part.

## Main definitions

* `CoverProbe.Clause.WellFormed`, `CoverProbe.Statement.WellFormed` — no fault of syntax.

## Main results

* `CoverProbe.Clause.wellFormed_instruction_iff`, `wellFormed_afterHead_iff`,
  `wellFormed_ofLine_iff` — instructions, line numbers and labels.
* `CoverProbe.Statement.wellFormed_ofLine_iff` — lines.
-/

namespace CoverProbe

open Program Grammar

/-! ## Instructions -/

namespace Clause

/-- A clause without a fault of syntax. -/
def WellFormed : Clause → Prop
  | .malformed _ => False
  | _ => True

/-- Operands are labels behind their marks and numbers. -/
lemma wellFormed_withOperand_iff {op : Opcode} {text : List Char} :
    (withOperand op text).WellFormed ↔
      (∃ name, text = '@' :: name) ∨ ∃ n, Decimal.word text = .ok n := by
  unfold withOperand
  split
  · rename_i name
    exact ⟨fun _ => .inl ⟨name, rfl⟩, fun _ => trivial⟩
  · rename_i hlabel
    cases Decimal.word text with
    | error cause =>
      refine ⟨False.elim, ?_⟩
      rintro (⟨name, rfl⟩ | ⟨n, hn⟩)
      · exact hlabel name rfl
      · cases hn
    | ok n => exact ⟨fun _ => .inr ⟨n, rfl⟩, fun _ => trivial⟩

/-- The words of an instruction are its mnemonic and the operand that its opcode takes. -/
lemma wellFormed_ofWords_iff {words : List (List Char)} (hne : words ≠ []) :
    (ofWords words).WellFormed ↔ Code words := by
  obtain ⟨mnemonic, operands, rfl⟩ := List.exists_cons_of_ne_nil hne
  constructor
  · intro h
    rw [ofWords] at h
    cases hop : Opcode.ofMnemonic? mnemonic with
    | none =>
      rw [hop] at h
      exact h.elim
    | some op =>
      rw [hop] at h
      dsimp only at h
      split at h
      · exact h.elim
      · rename_i harg
        exact .bare hop harg
      · exact h.elim
      · exact h.elim
      · rename_i text harg
        rcases wellFormed_withOperand_iff.1 h with ⟨name, rfl⟩ | ⟨n, hn⟩
        · exact .label hop harg
        · exact .number hop harg hn
  · intro h
    cases h with
    | bare hop harg =>
      rw [ofWords, hop]
      dsimp only
      rw [harg]
      trivial
    | label hop harg =>
      rw [ofWords, hop]
      dsimp only
      rw [harg]
      exact wellFormed_withOperand_iff.2 (.inl ⟨_, rfl⟩)
    | number hop harg hdigits =>
      rw [ofWords, hop]
      dsimp only
      rw [harg]
      exact wellFormed_withOperand_iff.2 (.inr ⟨_, hdigits⟩)

/-- **An instruction that may be missing is read by its words.** -/
lemma wellFormed_instruction_iff {text : List Char} (htext : Text.Trimmed text) :
    (∀ clause ∈ instruction text, clause.WellFormed) ↔ Code (Text.words text) := by
  unfold instruction
  split_ifs with hnil
  · rw [hnil]
    exact ⟨fun _ => .none, fun _ => List.forall_mem_nil _⟩
  · rw [List.forall_mem_singleton]
    exact wellFormed_ofWords_iff (htext.words_ne_nil hnil)

/-! ## Colons -/

/-- What `colon?` cuts is the text around its first colon. -/
lemma colon?_eq_some {text head tail : List Char} (h : colon? text = some (head, tail)) :
    ∃ first rest, text = first ++ ':' :: rest ∧ ':' ∉ first ∧ head = Text.trim first ∧
      tail = Text.trim rest := by
  obtain ⟨⟨first, rest⟩, hcut, hparts⟩ := Option.map_eq_some_iff.1 h
  obtain ⟨c, hc, hfirst, rfl⟩ := Text.cut?_eq_some hcut
  obtain ⟨rfl, rfl⟩ := Prod.mk.inj hparts
  obtain rfl := of_decide_eq_true hc
  exact ⟨first, rest, rfl, fun hmem => absurd rfl (of_decide_eq_false (hfirst ':' hmem)), rfl, rfl⟩

/-- Blanks are no colons. -/
lemma colon_not_mem_of_blanks {gap : List Char} (h : Text.Blanks gap) : ':' ∉ gap :=
  fun hmem => absurd (h ':' hmem) (by decide)

/-- A word between blanks is cut off before a colon. -/
lemma colon?_between {before head gap : List Char} (hbefore : Text.Blanks before)
    (hhead : Text.IsWord head) (hcolon : ':' ∉ head) (hgap : Text.Blanks gap) (tail : List Char) :
    colon? (before ++ head ++ gap ++ ':' :: tail) = some (head, Text.trim tail) := by
  have hfirst : ':' ∉ before ++ head ++ gap := by
    simp only [List.mem_append, not_or]
    exact ⟨⟨colon_not_mem_of_blanks hbefore, hcolon⟩, colon_not_mem_of_blanks hgap⟩
  rw [colon?_append hfirst, hhead.trimmed.trim_between hbefore hgap]

/-- Trimming does not change what stands around the first colon. -/
lemma colon?_trim (text : List Char) : colon? (Text.trim text) = colon? text := by
  obtain ⟨before, after, hbefore, hafter, htext, -⟩ := Text.exists_trim text
  cases htrim : colon? (Text.trim text) with
  | none =>
    rw [colon?, Option.map_eq_none_iff] at htrim
    have hall := Text.forall_of_cut?_eq_none htrim
    have hcolon : ':' ∉ text := by
      rw [htext]
      simp only [List.mem_append, not_or]
      refine ⟨⟨colon_not_mem_of_blanks hbefore, fun hmem => ?_⟩, colon_not_mem_of_blanks hafter⟩
      exact absurd rfl (of_decide_eq_false (hall ':' hmem))
    exact (colon?_eq_none hcolon).symm
  | some parts =>
    obtain ⟨head, tail⟩ := parts
    obtain ⟨first, rest, hparts, hcolon, rfl, rfl⟩ := colon?_eq_some htrim
    have hfirst : ':' ∉ before ++ first := by
      rw [List.mem_append, not_or]
      exact ⟨colon_not_mem_of_blanks hbefore, hcolon⟩
    have hwhole : text = (before ++ first) ++ ':' :: (rest ++ after) := by
      rw [htext, hparts]
      simp only [List.append_assoc, List.cons_append]
    rw [hwhole, colon?_append hfirst, Text.trim_of_blanks_append hbefore,
      Text.trim_append_of_blanks hafter]

/-- Where no blank stands before the first colon, but around what stands there, the first word
reaches up to the colon, or the second word begins with it. -/
lemma words_of_colon {before word after : List Char} (hbefore : Text.Blanks before)
    (hafter : Text.Blanks after) (hword : ∀ c ∈ word, Text.isBlank c = false) (rest : List Char) :
    ∃ more others, Text.words (before ++ word ++ after ++ ':' :: rest) =
        (word ++ ':' :: more) :: others ∨
      Text.words (before ++ word ++ after ++ ':' :: rest) = word :: (':' :: more) :: others := by
  have hcolon : Text.IsWord [':'] := by decide
  -- No blank parts the word from the colon, or there is no word to be parted from it.
  by_cases hgap : after = [] ∨ word = []
  · have hblanks : ∃ blanks, Text.Blanks blanks ∧ before ++ word ++ after = blanks ++ word := by
      rcases hgap with rfl | rfl
      · exact ⟨before, hbefore, List.append_nil _⟩
      · exact ⟨before ++ after, List.forall_mem_append.2 ⟨hbefore, hafter⟩, by simp⟩
    obtain ⟨blanks, hblanks, hfront⟩ := hblanks
    have hlong : Text.IsWord (word ++ [':']) :=
      ⟨by simp, List.forall_mem_append.2 ⟨hword, hcolon.2⟩⟩
    obtain ⟨more, others, hread⟩ := Text.exists_words_append hlong rest
    refine ⟨more, others, .inl ?_⟩
    rw [List.append_assoc, List.append_assoc] at hread
    rw [hfront, List.append_assoc, Text.words_of_blanks_append hblanks]
    exact hread
  · rw [not_or] at hgap
    have hisWord : Text.IsWord word := ⟨hgap.2, hword⟩
    obtain ⟨more, others, hread⟩ := Text.exists_words_append hcolon rest
    refine ⟨more, others, .inr ?_⟩
    rw [List.append_assoc, List.append_assoc, Text.words_of_blanks_append hbefore,
      ← List.append_assoc, hisWord.words_append hafter hgap.1]
    exact congrArg (word :: ·) hread

/-- **Before the first colon of an instruction, a blank stands**: a mnemonic holds no colon, and an
operand does not begin with one. -/
lemma blank_before_colon {text head tail : List Char} (hcode : Code (Text.words text))
    (h : colon? text = some (head, tail)) : head.any Text.isBlank = true := by
  by_contra hblank
  obtain ⟨first, rest, rfl, -, rfl, rfl⟩ := colon?_eq_some h
  obtain ⟨before, after, hbefore, hafter, hfirst, -⟩ := Text.exists_trim first
  have hword : ∀ c ∈ Text.trim first, Text.isBlank c = false := by
    intro c hc
    by_contra hc'
    exact hblank (List.any_eq_true.2 ⟨c, hc, by simpa using hc'⟩)
  have hmnemonic : ∀ {mnemonic : List Char} {op : Opcode},
      Opcode.ofMnemonic? mnemonic = some op → ':' ∉ mnemonic :=
    fun hop => (mnemonic_of_ofMnemonic? hop).token.1.noColon
  obtain ⟨more, others, hwords⟩ := words_of_colon hbefore hafter hword rest
  rw [← hfirst] at hwords
  rcases hwords with hwords | hwords
  · rw [hwords] at hcode
    have hmem : ':' ∈ Text.trim first ++ ':' :: more := by simp
    cases hcode with
    | bare hop => exact hmnemonic hop hmem
    | label hop => exact hmnemonic hop hmem
    | number hop => exact hmnemonic hop hmem
  · rw [hwords] at hcode
    cases hcode with
    | number hop harg hdigits => cases hdigits

/-- What holds a blank is no line number. -/
lemma isNumber_of_blank {head : List Char} (h : head.any Text.isBlank = true) :
    isNumber head = false := by
  obtain ⟨c, hc, hblank⟩ := List.any_eq_true.1 h
  refine isNumber_eq_false ⟨c, hc, Bool.eq_false_iff.2 fun hdigit => ?_⟩
  simp only [Decimal.isDigit, Bool.and_eq_true, decide_eq_true_eq] at hdigit
  have hlow : 48 ≤ c.toNat := hdigit.1
  have hhigh : c.toNat ≤ 57 := hdigit.2
  simp only [Text.isBlank, Bool.or_eq_true, Bool.and_eq_true, decide_eq_true_eq] at hblank
  omega

/-! ## Line numbers -/

/-- A line number without a fault, and what follows it without one. -/
lemma wellFormed_numbered_iff {head : List Char} {following : List Clause} :
    (∀ clause ∈ numbered head following, clause.WellFormed) ↔
      (∃ n, Decimal.word head = .ok n) ∧ ∀ clause ∈ following, clause.WellFormed := by
  unfold numbered
  cases Decimal.word head with
  | error cause =>
    refine ⟨fun h => (h _ (List.mem_singleton_self _)).elim, ?_⟩
    rintro ⟨⟨n, hn⟩, -⟩
    cases hn
  | ok n =>
    rw [List.forall_mem_cons]
    exact and_congr_left' ⟨fun _ => ⟨n, rfl⟩, fun _ => trivial⟩

/-- What is read as a line number. -/
lemma number_iff {head : List Char} :
    Number head ↔ isNumber head = true ∧ ∃ n, Decimal.word head = .ok n := by
  rw [isNumber, Bool.and_eq_true, List.all_eq_true, decide_eq_true_eq]
  exact and_assoc.symm

/-- A line number is a token. -/
lemma token_of_number {head : List Char} (h : Number head) : Token head :=
  (token_of_digits h.1 h.2.1).1

/-- **Behind a label, an optional line number and an optional instruction are read.** -/
lemma wellFormed_afterHead_iff {text : List Char} :
    (∀ clause ∈ afterHead (Text.trim text), clause.WellFormed) ↔ Numbered text := by
  have hplain : (∀ clause ∈ instruction (Text.trim text), clause.WellFormed) ↔
      Code (Text.words text) := by
    rw [wellFormed_instruction_iff (Text.trimmed_trim text), Text.words_trim]
  -- The text is read trimmed, but its number may stand behind blanks: the grammar minds neither.
  unfold afterHead
  rw [colon?_trim]
  constructor
  · intro h
    cases hcolon : colon? text with
    | none =>
      rw [hcolon] at h
      exact .plain (hplain.1 h)
    | some parts =>
      obtain ⟨head, tail⟩ := parts
      rw [hcolon] at h
      dsimp only at h
      split_ifs at h with hnumber
      · obtain ⟨first, rest, rfl, -, rfl, rfl⟩ := colon?_eq_some hcolon
        obtain ⟨before, after, hbefore, hafter, hfirst, -⟩ := Text.exists_trim first
        obtain ⟨hfits, hcode⟩ := wellFormed_numbered_iff.1 h
        rw [wellFormed_instruction_iff (Text.trimmed_trim rest), Text.words_trim] at hcode
        rw [hfirst]
        exact .numbered hbefore (number_iff.2 ⟨hnumber, hfits⟩) hafter hcode
      · exact .plain (hplain.1 h)
  · intro h
    cases h with
    | plain hcode =>
      cases hcolon : colon? text with
      | none => exact hplain.2 hcode
      | some parts =>
        obtain ⟨head, tail⟩ := parts
        dsimp only
        rw [isNumber_of_blank (blank_before_colon hcode hcolon), if_neg Bool.false_ne_true]
        exact hplain.2 hcode
    | @numbered before number gap tail hbefore hnumber hgap hcode =>
      obtain ⟨hdigits, hfits⟩ := number_iff.1 hnumber
      have htoken := token_of_number hnumber
      rw [colon?_between hbefore htoken.word htoken.noColon hgap]
      dsimp only
      rw [if_pos hdigits, wellFormed_numbered_iff,
        wellFormed_instruction_iff (Text.trimmed_trim tail), Text.words_trim]
      exact ⟨hfits, hcode⟩

/-! ## Lines of code -/

/-- What stands before a colon is a label if it is a word and no line number. -/
lemma label_of_not_number {head : List Char} (hcolon : ':' ∉ head) (hword : Text.IsWord head)
    (hnumber : ¬ isNumber head = true) : Label head := by
  refine ⟨hword, hcolon, ?_⟩
  rw [isNumber, Bool.and_eq_true, not_and, List.all_eq_true] at hnumber
  by_contra hnone
  refine hnumber (decide_eq_true hword.1) fun c hc => ?_
  by_contra hdigit
  exact hnone ⟨c, hc, Bool.eq_false_iff.2 hdigit⟩

/-- A line of code that is read without a fault is in the grammar. -/
lemma codeLine_of_wellFormed {text : List Char} (htext : Text.Trimmed text)
    (h : ∀ clause ∈ ofLine text, clause.WellFormed) : CodeLine true text := by
  have hplain : (∀ clause ∈ instruction text, clause.WellFormed) → CodeLine true text :=
    fun h => .unlabelled (.plain ((wellFormed_instruction_iff htext).1 h))
  unfold ofLine at h
  cases hcolon : colon? text with
  | none =>
    rw [hcolon] at h
    exact hplain h
  | some parts =>
    obtain ⟨head, tail⟩ := parts
    rw [hcolon] at h
    dsimp only at h
    obtain ⟨first, rest, rfl, hfirst, rfl, rfl⟩ := colon?_eq_some hcolon
    obtain ⟨before, after, hbefore, hafter, hparts, -⟩ := Text.exists_trim first
    split_ifs at h with hword hnumber
    · exact hplain h
    · obtain ⟨hfits, htail⟩ := wellFormed_numbered_iff.1 h
      have hnumber : Number (Text.trim first) := number_iff.2 ⟨hnumber, hfits⟩
      rw [hparts]
      exact .renumbered rfl hbefore hnumber hafter (wellFormed_afterHead_iff.1 htail)
    · obtain ⟨-, htail⟩ := List.forall_mem_cons.1 h
      have hlabel : Label (Text.trim first) := by
        refine label_of_not_number (fun hmem => hfirst ?_) (Text.isWord_iff.2 hword) hnumber
        rw [hparts]
        exact List.mem_append_left _ (List.mem_append_right _ hmem)
      rw [hparts]
      exact .labelled hbefore hlabel hafter (wellFormed_afterHead_iff.1 htail)

/-- A line number in front of a line of code is read, whether that has a second one or not. -/
lemma wellFormed_of_number {before number gap tail : List Char} (hbefore : Text.Blanks before)
    (hnumber : Number number) (hgap : Text.Blanks gap) (htail : Numbered tail) :
    ∀ clause ∈ ofLine (before ++ number ++ gap ++ ':' :: tail), clause.WellFormed := by
  have htoken := token_of_number hnumber
  obtain ⟨hdigits, hfits⟩ := number_iff.1 hnumber
  rw [ofLine, colon?_between hbefore htoken.word htoken.noColon hgap]
  dsimp only
  rw [if_neg (Text.isWord_iff.1 htoken.word), if_pos hdigits, wellFormed_numbered_iff]
  exact ⟨hfits, wellFormed_afterHead_iff.2 htail⟩

/-- **A line of code is read without a fault exactly if it is in the grammar**, with a line number
in the place of its label or without. -/
lemma wellFormed_ofLine_iff {text : List Char} (htext : Text.Trimmed text) :
    (∀ clause ∈ ofLine text, clause.WellFormed) ↔ CodeLine true text := by
  refine ⟨codeLine_of_wellFormed htext, fun h => ?_⟩
  cases h with
  | unlabelled h =>
    cases h with
    | plain hcode =>
      rw [← wellFormed_instruction_iff htext] at hcode
      unfold ofLine
      cases hcolon : colon? text with
      | none => exact hcode
      | some parts =>
        obtain ⟨head, tail⟩ := parts
        have hblank := blank_before_colon ((wellFormed_instruction_iff htext).1 hcode) hcolon
        dsimp only
        rw [if_pos (.inr hblank)]
        exact hcode
    | numbered hbefore hnumber hgap hcode =>
      exact wellFormed_of_number hbefore hnumber hgap (.plain hcode)
  | labelled hbefore hlabel hgap htail =>
    rw [ofLine, colon?_between hbefore hlabel.word hlabel.noColon hgap]
    dsimp only
    rw [if_neg (Text.isWord_iff.1 hlabel.word), isNumber_eq_false hlabel.notNumber,
      if_neg Bool.false_ne_true, List.forall_mem_cons]
    exact ⟨trivial, wellFormed_afterHead_iff.2 htail⟩
  | renumbered hlax hbefore hnumber hgap htail =>
    exact wellFormed_of_number hbefore hnumber hgap htail

end Clause

/-! ## Lines -/

namespace Statement

/-- A statement without a fault of syntax. -/
def WellFormed : Statement → Prop
  | .open header => ∃ opened, header = .ok opened
  | .close => True
  | .body clauses => ∀ clause ∈ clauses, clause.WellFormed

/-- A header is read by its words: a name, a line, and whatever stands behind them. -/
lemma exists_header_iff {rest : List Char} : (∃ opened, header rest = .ok opened) ↔
    ∃ name digits behind n, Text.words rest = name :: digits :: behind ∧
      Decimal.word digits = .ok n := by
  unfold header
  constructor
  · rintro ⟨opened, h⟩
    split at h
    · cases h
    · cases h
    · rename_i name digits behind hwords
      cases hread : Decimal.word digits with
      | error cause =>
        rw [hread] at h
        cases h
      | ok n => exact ⟨name, digits, behind, n, hwords, hread⟩
  · rintro ⟨name, digits, behind, n, hwords, hread⟩
    rw [hwords]
    dsimp only
    rw [hread]
    exact ⟨_, rfl⟩

/-- What stands behind a directive. -/
lemma behind?_eq_some {directive : String} {text rest : List Char}
    (h : behind? directive text = some rest) : text = directive.toList ++ rest := by
  unfold behind? at h
  split_ifs at h with hprefix
  obtain ⟨tail, rfl⟩ := List.isPrefixOf_iff_prefix.1 hprefix
  rw [← String.length_toList, List.drop_left] at h
  rw [Option.some.inj h]

/-- A text that does not begin with a directive has nothing behind it. -/
lemma behind?_eq_none_iff {directive : String} {text : List Char} :
    behind? directive text = none ↔ ¬ directive.toList <+: text := by
  unfold behind?
  rw [← List.isPrefixOf_iff_prefix]
  split_ifs with hprefix
  · exact ⟨nofun, fun h => (h hprefix).elim⟩
  · exact ⟨fun _ => hprefix, fun _ => rfl⟩

/-- A line that is read without a fault of syntax is in the grammar. -/
lemma line_of_wellFormed {text : List Char} (htext : Text.Trimmed text)
    (h : (ofLine text).WellFormed) : Grammar.Line true text := by
  unfold ofLine at h
  cases hunit : behind? ".unit" text with
  | some rest =>
    rw [hunit] at h
    obtain ⟨name, digits, behind, n, hwords, hdigits⟩ := exists_header_iff.1 h
    rw [behind?_eq_some hunit]
    exact .unit (.inl rfl) hwords (.inl rfl) hdigits
  | none =>
    rw [hunit] at h
    dsimp only at h
    split_ifs at h with hclose
    · rw [hclose]
      exact .close
    · cases hconst : behind? ".const" text with
      | some rest =>
        obtain rfl := behind?_eq_some hconst
        rw [hconst] at h
        dsimp only at h
        cases hread : Literal.constant (Text.trim rest) with
        | error cause =>
          rw [hread] at h
          exact (h _ (List.mem_singleton_self _)).elim
        | ok value =>
          obtain ⟨gap, hgap, hrest⟩ := Text.exists_trim_of_getLast? htext.getLast?_append
          have hconstant := Literal.constantText_of_ok (Text.trimmed_trim rest) hread
          rw [hrest, ← List.append_assoc]
          exact .constant hgap (.inl rfl) hconstant
      | none =>
        rw [hconst] at h
        exact .code (behind?_eq_none_iff.1 hunit) hclose (behind?_eq_none_iff.1 hconst)
          ((Clause.wellFormed_ofLine_iff htext).1 h)

/-- **A line is read without a fault of syntax exactly if it is in the grammar**, with its
liberties. -/
theorem wellFormed_ofLine_iff {text : List Char} (htext : Text.Trimmed text) :
    (ofLine text).WellFormed ↔ Grammar.Line true text := by
  refine ⟨line_of_wellFormed htext, fun h => ?_⟩
  cases h with
  | unit hsep hwords hbehind hdigits =>
    rw [ofLine, behind?_append]
    exact exists_header_iff.2 ⟨_, _, _, _, hwords, hdigits⟩
  | close => trivial
  | @constant gap text hgap hsep hconstant =>
    have hunit : behind? ".unit" (".const".toList ++ (gap ++ text)) = none := rfl
    have hclose : ".const".toList ++ (gap ++ text) ≠ ".end".toList := by
      intro heq
      exact absurd (congrArg (·[1]?) heq) (by simp)
    have htrimmed : Text.Trimmed text :=
      ⟨hconstant.head_not_blank, htext.getLast?_append⟩
    obtain ⟨value, hread⟩ := (Literal.exists_constant_iff htrimmed).2 hconstant
    rw [List.append_assoc, ofLine, hunit]
    dsimp only
    rw [if_neg hclose, behind?_append]
    dsimp only
    rw [Text.trim_of_blanks_append hgap, htrimmed.trim_eq, hread]
    exact List.forall_mem_singleton.2 trivial
  | code hopen hclose hconst hcode =>
    rw [ofLine, behind?_eq_none_iff.2 hopen]
    dsimp only
    rw [if_neg hclose, behind?_eq_none_iff.2 hconst]
    exact (Clause.wellFormed_ofLine_iff htext).2 hcode

end Statement

end CoverProbe
