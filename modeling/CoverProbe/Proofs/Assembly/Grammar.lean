import CoverProbe.Proofs.Assembly.Source

set_option relaxedAutoImplicit false
set_option autoImplicit false

/-!
# The grammar of assembly text

The documented forms of lines, and of texts made of them. Five liberties go beyond them: a directive
may be glued to what follows it, a header may hold more than a name and a line, a keyword constant
may be followed by any text, a string may hold quotes that no backslash hides, and a second line
number may stand in the place of a label. The grammar is told once, with the liberties and without
them; constants are read by it with the liberties.

## Main definitions

* `CoverProbe.Grammar.Line` — the lines, as documented or with the liberties.
* `CoverProbe.Grammar.Tree` — the lines of one unit, with the units nested in it.

## Main results

* `CoverProbe.Literal.bytes_eq_ok_iff`, `exists_string_iff` — bytes and strings.
* `CoverProbe.Literal.exists_constant_iff` — constants.
-/

namespace CoverProbe

open Program

/-! ## The grammar -/

namespace Grammar

/-- A line number: decimal digits that fit a word. -/
def Number (text : List Char) : Prop :=
  text ≠ [] ∧ (∀ c ∈ text, Decimal.isDigit c = true) ∧ ∃ n, Decimal.word text = .ok n

/-- The name of a label: a word without colons that is no line number. -/
structure Label (text : List Char) : Prop where
  word : Text.IsWord text
  noColon : ':' ∉ text
  notNumber : ∃ c ∈ text, Decimal.isDigit c = false

/-- The words of at most one instruction: its mnemonic, and an operand exactly when its opcode takes
one, which is a number or the mark of a label. -/
inductive Code : List (List Char) → Prop
  | none : Code []
  | bare {mnemonic : List Char} {op : Opcode} (hop : Opcode.ofMnemonic? mnemonic = some op)
      (harg : op.hasArg = false) : Code [mnemonic]
  | label {mnemonic name : List Char} {op : Opcode} (hop : Opcode.ofMnemonic? mnemonic = some op)
      (harg : op.hasArg = true) : Code [mnemonic, '@' :: name]
  | number {mnemonic digits : List Char} {op : Opcode} {n : UInt32}
      (hop : Opcode.ofMnemonic? mnemonic = some op) (harg : op.hasArg = true)
      (hdigits : Decimal.word digits = .ok n) : Code [mnemonic, digits]

/-- An optional line number and an optional instruction. -/
inductive Numbered : List Char → Prop
  | plain {text : List Char} (h : Code (Text.words text)) : Numbered text
  | numbered {before number gap tail : List Char} (hbefore : Text.Blanks before)
      (hnumber : Number number) (hgap : Text.Blanks gap) (h : Code (Text.words tail)) :
      Numbered (before ++ number ++ gap ++ ':' :: tail)

/-- An optional label, an optional line number and an optional instruction. With `lax`, a line
number may stand in the place of the label. -/
inductive CodeLine (lax : Bool) : List Char → Prop
  | unlabelled {text : List Char} (h : Numbered text) : CodeLine lax text
  | labelled {before label gap tail : List Char} (hbefore : Text.Blanks before)
      (hlabel : Label label) (hgap : Text.Blanks gap) (h : Numbered tail) :
      CodeLine lax (before ++ label ++ gap ++ ':' :: tail)
  | renumbered {before number gap tail : List Char} (hlax : lax = true)
      (hbefore : Text.Blanks before) (hnumber : Number number) (hgap : Text.Blanks gap)
      (h : Numbered tail) : CodeLine lax (before ++ number ++ gap ++ ':' :: tail)

/-- What stands between the quotes of a string. A backslash hides the character behind it, and no
quote stands unhidden; with `lax`, quotes may. -/
inductive StringBody (lax : Bool) : List Char → Prop
  | nil : StringBody lax []
  | hidden {c : Char} {rest : List Char} (h : StringBody lax rest) :
      StringBody lax ('\\' :: c :: rest)
  | char {c : Char} {rest : List Char} (hescape : c ≠ '\\') (hquote : lax = true ∨ c ≠ '"')
      (h : StringBody lax rest) : StringBody lax (c :: rest)

/-- The constants that are named by a keyword alone. -/
def Keyword (text : List Char) : Prop :=
  text = "none".toList ∨ text = "true".toList ∨ text = "false".toList

/-- The text of a constant. With `lax`, any text may stand behind a keyword. -/
inductive ConstantText (lax : Bool) : List Char → Prop
  | keyword {kind behind : List Char} (hkind : Keyword kind)
      (hbehind : behind = [] ∨ lax = true ∧ ∃ c ∈ behind.head?, Text.isBlank c = true) :
      ConstantText lax (kind ++ behind)
  | int {gap digits : List Char} {value : Int64} (hgap : Gap gap) (htrimmed : Text.Trimmed digits)
      (hdigits : Decimal.int64 digits = .ok value) :
      ConstantText lax ("int".toList ++ gap ++ digits)
  | float {gap digits : List Char} {value : Binary64} (hgap : Gap gap)
      (htrimmed : Text.Trimmed digits) (hdigits : Decimal.float digits = .ok value) :
      ConstantText lax ("float".toList ++ gap ++ digits)
  | noBytes : ConstantText lax "bytes".toList
  | bytes {gap digits : List Char} {value : List UInt8} (hgap : Gap gap)
      (htrimmed : Text.Trimmed digits) (hdigits : Hex.Spells digits value) :
      ConstantText lax ("bytes".toList ++ gap ++ digits)
  | str {gap body : List Char} (hgap : Gap gap) (hbody : StringBody lax body) :
      ConstantText lax ("str".toList ++ gap ++ '"' :: (body ++ ['"']))

/-- The text begins with the directive that opens a unit. -/
def Opens (text : List Char) : Prop :=
  ".unit".toList <+: text

/-- A line that says something, without its comment and the blanks around it. With `lax`, a
directive need not end at a blank, and a header may go on behind its line. -/
inductive Line (lax : Bool) : List Char → Prop
  | unit {rest name digits : List Char} {behind : List (List Char)} {n : UInt32}
      (hsep : lax = true ∨ ∃ c ∈ rest.head?, Text.isBlank c = true)
      (hwords : Text.words rest = name :: digits :: behind) (hbehind : lax = true ∨ behind = [])
      (hdigits : Decimal.word digits = .ok n) : Line lax (".unit".toList ++ rest)
  | close : Line lax ".end".toList
  | constant {gap text : List Char} (hgap : Text.Blanks gap) (hsep : lax = true ∨ gap ≠ [])
      (h : ConstantText lax text) : Line lax (".const".toList ++ gap ++ text)
  | code {text : List Char} (hopen : ¬ Opens text) (hclose : text ≠ ".end".toList)
      (hconst : ¬ ".const".toList <+: text) (h : CodeLine lax text) : Line lax text

/-- Lines between those that open and close a unit: lines that do neither, and nested units. -/
inductive Nested : List (List Char) → Prop
  | nil : Nested []
  | line {text : List Char} {rest : List (List Char)} (hopen : ¬ Opens text)
      (hclose : text ≠ ".end".toList) (h : Nested rest) : Nested (text :: rest)
  | unit {opening : List Char} {body rest : List (List Char)} (hopen : Opens opening)
      (hbody : Nested body) (h : Nested rest) :
      Nested (opening :: (body ++ ".end".toList :: rest))

/-- The lines of one unit, from the line that opens it to the line that closes it. -/
def Tree (lines : List (List Char)) : Prop :=
  ∃ opening body, Opens opening ∧ Nested body ∧ lines = opening :: (body ++ [".end".toList])

/-! ### Constants of the grammar -/

variable {lax : Bool} {text rest : List Char}

/-- The text of a constant begins with a letter. -/
lemma ConstantText.head_not_blank (h : ConstantText lax text) :
    ∀ c ∈ text.head?, Text.isBlank c = false := by
  cases h with
  | keyword hkind =>
    rcases hkind with rfl | rfl | rfl
    · rintro c ⟨⟩; rfl
    · rintro c ⟨⟩; rfl
    · rintro c ⟨⟩; rfl
  | int => rintro c ⟨⟩; rfl
  | float => rintro c ⟨⟩; rfl
  | noBytes => rintro c ⟨⟩; rfl
  | bytes => rintro c ⟨⟩; rfl
  | str => rintro c ⟨⟩; rfl

/-- A line that begins with the directive of constants gives one. -/
lemma Line.exists_constant (h : Line lax (".const".toList ++ rest)) :
    ∃ gap text, Text.Blanks gap ∧ rest = gap ++ text ∧ ConstantText lax text := by
  generalize htext : ".const".toList ++ rest = text at h
  cases h with
  | unit => exact absurd (congrArg (·[1]?) htext) (by simp)
  | close => exact absurd (congrArg (·[1]?) htext) (by simp)
  | constant hgap hsep hconstant =>
    rw [List.append_assoc] at htext
    exact ⟨_, _, hgap, List.append_cancel_left htext, hconstant⟩
  | code hopen hclose hconst => exact (hconst (htext ▸ List.prefix_append _ _)).elim

/-- A constant that begins with the kind of strings is one. -/
lemma ConstantText.exists_string (h : ConstantText lax ("str".toList ++ rest)) :
    ∃ gap body, Text.Blanks gap ∧ rest = gap ++ '"' :: (body ++ ['"']) ∧ StringBody lax body := by
  generalize htext : "str".toList ++ rest = text at h
  cases h with
  | keyword hkind =>
    rcases hkind with rfl | rfl | rfl
    · exact absurd (congrArg (·[0]?) htext) (by simp)
    · exact absurd (congrArg (·[0]?) htext) (by simp)
    · exact absurd (congrArg (·[0]?) htext) (by simp)
  | int => exact absurd (congrArg (·[0]?) htext) (by simp)
  | float => exact absurd (congrArg (·[0]?) htext) (by simp)
  | noBytes => exact absurd (congrArg (·[0]?) htext) (by simp)
  | bytes => exact absurd (congrArg (·[0]?) htext) (by simp)
  | str hgap hbody =>
    rw [List.append_assoc] at htext
    exact ⟨_, _, hgap.2, List.append_cancel_left htext, hbody⟩

/-- Without a backslash, a documented string has no quote between its quotes. -/
lemma StringBody.quote_not_mem {body : List Char} (h : StringBody false body)
    (hescape : '\\' ∉ body) : '"' ∉ body := by
  induction h with
  | nil => exact List.not_mem_nil
  | hidden => exact (hescape List.mem_cons_self).elim
  | char hplain hquote _ ih =>
    rw [List.mem_cons, not_or] at hescape ⊢
    rcases hquote with hlax | hquote
    · cases hlax
    · exact ⟨fun heq => hquote heq.symm, ih hescape.2⟩

end Grammar

open Grammar

/-! ## Constants -/

namespace Literal

/-- A byte that is read as a hexadecimal digit is the ASCII character with that value. -/
lemma value?_of_hexDigit {b : UInt8} {n : Nat} (h : hexDigit b = .ok n) :
    b.toNat < 128 ∧ Hex.value? (Char.ofNat b.toNat) = some n := by
  unfold hexDigit at h
  split at h
  · rename_i value hvalue
    obtain rfl := Except.ok.inj h
    have hbyte : (Char.ofNat b.toNat).toNat = b.toNat := by
      have hlt := b.toNat_lt
      unfold Char.ofNat
      rw [dif_pos (.inl (by omega))]
      rfl
    exact ⟨hbyte ▸ toNat_lt_of_value? hvalue, hvalue⟩
  · simp at h

/-- Pairs of bytes that are read are ASCII characters. -/
lemma forall_lt_of_hexPairs {digits out : List UInt8} (h : hexPairs digits = .ok out)
    (heven : digits.length % 2 = 0) : ∀ b ∈ digits, b.toNat < 128 := by
  fun_induction hexPairs digits generalizing out with
  | case1 high low rest ih =>
    obtain ⟨x, hx, h⟩ := Checked.bind_eq_ok.1 h
    obtain ⟨y, hy, h⟩ := Checked.bind_eq_ok.1 h
    obtain ⟨more, hmore, -⟩ := Checked.bind_eq_ok.1 h
    simp only [List.length_cons] at heven
    exact List.forall_mem_cons.2 ⟨(value?_of_hexDigit hx).1,
      List.forall_mem_cons.2 ⟨(value?_of_hexDigit hy).1, ih hmore (by omega)⟩⟩
  | case2 digits hpair =>
    match digits with
    | [] => simp
    | [b] => simp at heven
    | high :: low :: rest => exact (hpair high low rest rfl).elim

/-- A character of which all bytes are ASCII characters is one. -/
lemma toNat_lt_of_utf8 {c : Char} (h : ∀ b ∈ String.utf8EncodeChar c, b.toNat < 128) :
    c.toNat < 128 := by
  by_contra hc
  have hlast : UInt8.ofNat (c.toNat % 64 + 128) ∈ String.utf8EncodeChar c := by
    have hlong : ¬ c.val.toNat ≤ 127 := fun hle => hc (Nat.lt_succ_of_le hle)
    unfold String.utf8EncodeChar
    simp only [hlong, if_false]
    split_ifs
    · simp
    · simp
    · simp
  have hlow := h _ hlast
  rw [UInt8.toNat_ofNat'] at hlow
  omega

/-- Characters whose bytes are read in pairs are hexadecimal digits. -/
lemma pairs?_of_hexPairs {text : List Char} {bs : List UInt8} (h : ∀ c ∈ text, c.toNat < 128)
    (heven : text.length % 2 = 0)
    (hread : hexPairs (text.map fun c => UInt8.ofNat c.toNat) = .ok bs) :
    Hex.pairs? text = some bs := by
  fun_induction Hex.pairs? text generalizing bs with
  | case1 => exact congrArg some (Except.ok.inj hread)
  | case2 => simp at heven
  | case3 high low rest ih =>
    obtain ⟨hhigh, h⟩ := List.forall_mem_cons.1 h
    obtain ⟨hlow, hrest⟩ := List.forall_mem_cons.1 h
    have hdigit : ∀ {c : Char} {n : Nat}, c.toNat < 128 →
        hexDigit (UInt8.ofNat c.toNat) = .ok n → Hex.value? c = some n := by
      intro c n hc hdigit
      have hvalue := (value?_of_hexDigit hdigit).2
      have hbyte : (UInt8.ofNat c.toNat).toNat = c.toNat := by
        rw [UInt8.toNat_ofNat']
        omega
      rwa [hbyte, Char.ofNat_toNat] at hvalue
    rw [List.map_cons, List.map_cons, hexPairs] at hread
    obtain ⟨x, hx, hread⟩ := Checked.bind_eq_ok.1 hread
    obtain ⟨y, hy, hread⟩ := Checked.bind_eq_ok.1 hread
    obtain ⟨more, hmore, hread⟩ := Checked.bind_eq_ok.1 hread
    simp only [List.length_cons] at heven
    rw [hdigit hhigh hx, hdigit hlow hy, ih hrest (by omega) hmore]
    exact congrArg some (Except.ok.inj hread)

/-- **A text is read as bytes exactly if it spells them by pairs of hexadecimal digits.** -/
theorem bytes_eq_ok_iff {text : List Char} {bs : List UInt8} :
    bytes text = .ok bs ↔ Hex.Spells text bs := by
  refine ⟨fun h => ?_, bytes_of_spells⟩
  -- Digits are told from bytes, so a character of more than one byte has to be ruled out first.
  unfold bytes at h
  dsimp only at h
  split_ifs at h with heven
  have hlow := forall_lt_of_hexPairs h heven
  have hascii : ∀ c ∈ text, c.toNat < 128 := by
    intro c hc
    apply toNat_lt_of_utf8
    intro b hb
    apply hlow
    rw [utf8_ofList]
    exact List.mem_flatMap.2 ⟨c, hc, hb⟩
  rw [toUTF8_ofList hascii] at h heven
  rw [List.length_map] at heven
  exact Hex.pairs?_eq_some_iff.1 (pairs?_of_hexPairs hascii heven h)

/-- An escaped text stands for characters exactly if no backslash at its end hides nothing. -/
lemma exists_unescape_iff {body : List Char} :
    (∃ out, unescape body = .ok out) ↔ StringBody true body := by
  constructor
  · rintro ⟨out, h⟩
    fun_induction unescape body generalizing out with
    | case1 => exact .nil
    | case2 => simp at h
    | case3 c rest ih =>
      obtain ⟨more, hmore, -⟩ := Checked.bind_eq_ok.1 h
      exact .hidden (ih more hmore)
    | case4 c rest hlone hescape ih =>
      obtain ⟨more, hmore, -⟩ := Checked.bind_eq_ok.1 h
      refine .char (fun hc => ?_) (.inl rfl) (ih more hmore)
      cases rest with
      | nil => exact hlone hc rfl
      | cons d rest => exact hescape d rest hc rfl
  · intro h
    induction h with
    | nil => exact ⟨[], rfl⟩
    | hidden h ih =>
      obtain ⟨out, hout⟩ := ih
      rw [unescape, hout]
      exact ⟨_, rfl⟩
    | @char c rest hescape hquote h ih =>
      obtain ⟨out, hout⟩ := ih
      rw [unescape, hout]
      · exact ⟨_, rfl⟩
      · exact fun hc _ => hescape hc
      · exact fun _ _ hc _ => hescape hc

/-- **A text is read as a string exactly if it stands between two quotes**, with nothing hidden by
the backslash at its end. -/
theorem exists_string_iff {text : List Char} :
    (∃ s, string text = .ok s) ↔ ∃ body, text = '"' :: (body ++ ['"']) ∧ StringBody true body := by
  constructor
  · rintro ⟨s, h⟩
    unfold string at h
    split at h
    · rename_i second rest
      split_ifs at h with hlast
      have hbody : (second :: rest).dropLast ++ ['"'] = second :: rest := by
        apply List.dropLast_append_getLast?
        exact hlast
      refine ⟨(second :: rest).dropLast, by rw [hbody], ?_⟩
      rw [← exists_unescape_iff]
      cases hout : unescape (second :: rest).dropLast with
      | error cause =>
        rw [hout] at h
        simp [Except.map] at h
      | ok out => exact ⟨out, rfl⟩
    · simp at h
  · rintro ⟨body, rfl, hbody⟩
    obtain ⟨out, hout⟩ := exists_unescape_iff.2 hbody
    obtain ⟨second, rest, heq⟩ := List.exists_cons_of_ne_nil
      (List.append_ne_nil_of_right_ne_nil body (List.cons_ne_nil '"' []))
    refine ⟨String.ofList out, ?_⟩
    have hlast : (second :: rest).getLast? = some '"' := by
      rw [← heq]
      simp
    have hdrop : (second :: rest).dropLast = body := by
      rw [← heq]
      simp
    rw [heq, string, if_pos hlast, hdrop, hout]
    rfl

/-- A trimmed text is its first word, the blanks behind that and what is left of the rest. -/
lemma exists_cut {text : List Char} (htext : Text.Trimmed text) :
    ∃ kind gap rest, (Text.cut? Text.isBlank text).getD (text, []) = (kind, rest) ∧
      text = kind ++ gap ++ Text.trim rest ∧ Text.Blanks gap ∧ Text.Trimmed (Text.trim rest) ∧
      (gap = [] → Text.trim rest = []) := by
  cases hcut : Text.cut? Text.isBlank text with
  | none =>
    refine ⟨text, [], [], rfl, ?_, List.forall_mem_nil _, Text.trimmed_nil, fun _ => rfl⟩
    show text = text ++ [] ++ []
    rw [List.append_nil, List.append_nil]
  | some parts =>
    obtain ⟨kind, rest⟩ := parts
    obtain ⟨c, hc, -, rfl⟩ := Text.cut?_eq_some hcut
    rw [← List.singleton_append, ← List.append_assoc] at htext
    obtain ⟨before, hbefore, hrest⟩ := Text.exists_trim_of_getLast? htext.getLast?_append
    refine ⟨kind, c :: before, rest, rfl, ?_, List.forall_mem_cons.2 ⟨hc, hbefore⟩,
      Text.trimmed_trim rest, fun hnil => absurd hnil (List.cons_ne_nil _ _)⟩
    rw [List.append_assoc, List.cons_append, ← hrest]

/-- A text that is read as a constant is in the grammar. -/
lemma constantText_of_ok {text : List Char} {value : Constant CodeUnit}
    (htext : Text.Trimmed text) (h : constant text = .ok value) : ConstantText true text := by
  obtain ⟨kind, gap, rest, hcut, rfl, hblanks, htrimmed, hnogap⟩ := exists_cut htext
  have hkind : ∀ {name : String}, String.ofList kind = name → kind = name.toList := by
    rintro name rfl
    exact String.toList_ofList.symm
  -- Behind a keyword the rest is not looked at, so whatever stands there is a liberty.
  have hkeyword : Keyword kind → ConstantText true (kind ++ gap ++ Text.trim rest) := by
    intro hkeyword
    rw [List.append_assoc]
    refine .keyword hkeyword ?_
    cases gap with
    | nil => exact .inl (hnogap rfl)
    | cons c gap => exact .inr ⟨rfl, c, rfl, hblanks c List.mem_cons_self⟩
  have hgap : Text.trim rest ≠ [] → Gap gap := fun hne => ⟨fun hnil => hne (hnogap hnil), hblanks⟩
  unfold constant at h
  rw [hcut] at h
  dsimp only at h
  split at h
  · rename_i hname
    exact hkeyword (.inl (hkind hname))
  · rename_i hname
    exact hkeyword (.inr (.inl (hkind hname)))
  · rename_i hname
    exact hkeyword (.inr (.inr (hkind hname)))
  · rename_i hname
    obtain ⟨n, hread, -⟩ := Checked.map_eq_ok.1 h
    rw [Checked.mapError_eq_ok] at hread
    rw [hkind hname]
    refine .int (hgap fun hnil => ?_) htrimmed hread
    rw [hnil] at hread
    cases hread
  · rename_i hname
    obtain ⟨n, hread, -⟩ := Checked.map_eq_ok.1 h
    rw [Checked.mapError_eq_ok] at hread
    rw [hkind hname]
    refine .float (hgap fun hnil => ?_) htrimmed hread
    rw [hnil] at hread
    cases hread
  · rename_i hname
    obtain ⟨s, hread, -⟩ := Checked.map_eq_ok.1 h
    obtain ⟨body, hbody, hquotes⟩ := exists_string_iff.1 ⟨s, hread⟩
    rw [hbody] at hgap ⊢
    rw [hkind hname]
    exact .str (hgap (List.cons_ne_nil _ _)) hquotes
  · rename_i hname
    obtain ⟨bs, hread, -⟩ := Checked.map_eq_ok.1 h
    rw [hkind hname]
    by_cases hnil : gap = []
    · rw [hnil, hnogap hnil]
      exact .noBytes
    · exact .bytes ⟨hnil, hblanks⟩ htrimmed (bytes_eq_ok_iff.1 hread)
  · cases h

/-- Keywords are words. -/
lemma isWord_of_keyword {kind : List Char} (h : Keyword kind) : Text.IsWord kind := by
  rcases h with rfl | rfl | rfl
  · decide
  · decide
  · decide

/-- A keyword is read as its constant, whatever is cut off behind it. -/
lemma exists_constant_of_keyword {kind behind : List Char} (hkind : Keyword kind)
    (h : ∀ c ∈ behind.head?, Text.isBlank c = true) :
    ∃ value, constant (kind ++ behind) = .ok value := by
  have hcut : ∃ rest, (Text.cut? Text.isBlank (kind ++ behind)).getD (kind ++ behind, []) =
      (kind, rest) := by
    cases behind with
    | nil =>
      rw [List.append_nil, Text.cut?_eq_none (isWord_of_keyword hkind).2]
      exact ⟨[], rfl⟩
    | cons c rest =>
      rw [Text.cut?_append (isWord_of_keyword hkind).2 (h c rfl)]
      exact ⟨rest, rfl⟩
  obtain ⟨rest, hcut⟩ := hcut
  unfold constant
  rw [hcut]
  rcases hkind with rfl | rfl | rfl
  · exact ⟨_, rfl⟩
  · exact ⟨_, rfl⟩
  · exact ⟨_, rfl⟩

/-- **A trimmed text is read as a constant exactly if it is in the grammar**, with any text behind a
keyword and quotes within quotes. -/
theorem exists_constant_iff {text : List Char} (htext : Text.Trimmed text) :
    (∃ value, constant text = .ok value) ↔ ConstantText true text := by
  refine ⟨fun ⟨value, h⟩ => constantText_of_ok htext h, fun h => ?_⟩
  cases h with
  | keyword hkind hbehind =>
    refine exists_constant_of_keyword hkind fun c hc => ?_
    rcases hbehind with rfl | ⟨-, d, hd, hblank⟩
    · cases hc
    · rwa [Option.mem_unique hc hd]
  | int hgap htrimmed hdigits =>
    obtain ⟨rest, hcut, htrim⟩ := cut?_kind (by decide : Text.IsWord "int".toList) hgap htrimmed
    unfold constant
    rw [hcut, Option.getD_some]
    dsimp only
    rw [htrim, String.ofList_toList, hdigits]
    exact ⟨_, rfl⟩
  | float hgap htrimmed hdigits =>
    obtain ⟨rest, hcut, htrim⟩ := cut?_kind (by decide : Text.IsWord "float".toList) hgap htrimmed
    unfold constant
    rw [hcut, Option.getD_some]
    dsimp only
    rw [htrim, String.ofList_toList, hdigits]
    exact ⟨_, rfl⟩
  | noBytes => exact ⟨.bytes [], rfl⟩
  | bytes hgap htrimmed hdigits =>
    obtain ⟨rest, hcut, htrim⟩ := cut?_kind (by decide : Text.IsWord "bytes".toList) hgap htrimmed
    unfold constant
    rw [hcut, Option.getD_some]
    dsimp only
    rw [htrim, String.ofList_toList, bytes_of_spells hdigits]
    exact ⟨_, rfl⟩
  | @str gap body hgap hbody =>
    have htrimmed : Text.Trimmed ('"' :: (body ++ ['"'])) := by
      have hquote : Text.Trimmed ['"'] := Text.IsWord.trimmed (by decide)
      exact hquote.append (List.cons_ne_nil _ _) hquote (List.cons_ne_nil _ _) body
    obtain ⟨s, hs⟩ := exists_string_iff.2 ⟨body, rfl, hbody⟩
    obtain ⟨rest, hcut, htrim⟩ := cut?_kind (by decide : Text.IsWord "str".toList) hgap htrimmed
    unfold constant
    rw [hcut, Option.getD_some]
    dsimp only
    rw [htrim, String.ofList_toList, hs]
    exact ⟨_, rfl⟩

end Literal

end CoverProbe
