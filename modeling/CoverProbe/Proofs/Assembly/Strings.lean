import CoverProbe.Proofs.Assembly.Source

set_option relaxedAutoImplicit false
set_option autoImplicit false

/-!
# Strings in texts

A string constant is written between quotes, with a backslash before each backslash and each quote,
and with two characters for a line feed. Two scanners read it, one that looks for the comment and one
that reads the literal, and both see where the string ends, whatever it contains.

## Main definitions

* `CoverProbe.Literal.Escapes` — the ways to write a string.
* `CoverProbe.Literal.Directive` — the texts that add a string constant.

## Main results

* `CoverProbe.Literal.Escapes.withoutComment` — the search for a comment goes past a string.
* `CoverProbe.Literal.Escapes.string` — a string is read back.
* `CoverProbe.Literal.exists_directive` — every string has a line that adds it.
* `CoverProbe.Literal.Directive.reads` — a line that adds a string constant.
-/

namespace CoverProbe

namespace Literal

/-- The ways to write the characters of a string between quotes. Backslashes, quotes and line feeds
are escaped; a tab may be. -/
inductive Escapes : List Char → List Char → Prop
  | nil : Escapes [] []
  | backslash {s e : List Char} (h : Escapes s e) : Escapes ('\\' :: s) ('\\' :: '\\' :: e)
  | quote {s e : List Char} (h : Escapes s e) : Escapes ('"' :: s) ('\\' :: '"' :: e)
  | newline {s e : List Char} (h : Escapes s e) : Escapes ('\n' :: s) ('\\' :: 'n' :: e)
  | tab {s e : List Char} (h : Escapes s e) : Escapes ('\t' :: s) ('\\' :: 't' :: e)
  | char {c : Char} {s e : List Char} (hbackslash : c ≠ '\\') (hquote : c ≠ '"')
      (hnewline : c ≠ '\n') (h : Escapes s e) : Escapes (c :: s) (c :: e)

variable {s e : List Char}

/-- Every string can be written on one line. -/
lemma exists_escapes (s : List Char) : ∃ e, Escapes s e ∧ '\n' ∉ e := by
  induction s with
  | nil => exact ⟨[], .nil, List.not_mem_nil⟩
  | cons c s ih =>
    obtain ⟨e, he, hline⟩ := ih
    by_cases hbackslash : c = '\\'
    · subst hbackslash
      exact ⟨_, .backslash he, by simp [hline]⟩
    by_cases hquote : c = '"'
    · subst hquote
      exact ⟨_, .quote he, by simp [hline]⟩
    by_cases hnewline : c = '\n'
    · subst hnewline
      exact ⟨_, .newline he, by simp [hline]⟩
    · exact ⟨_, .char hbackslash hquote hnewline he, by simp [hline, Ne.symm hnewline]⟩

/-! ## The search for a comment -/

/-- In a string, a character behind a backslash hides nothing. -/
lemma withoutComment_escaped (c : Char) (rest : List Char) :
    withoutComment true ('\\' :: c :: rest) = '\\' :: c :: withoutComment true rest := rfl

/-- **The search for a comment goes past a string** up to its quote, whatever is behind that. -/
lemma Escapes.withoutComment (h : Escapes s e) (rest : List Char) :
    withoutComment true (e ++ '"' :: rest) = e ++ '"' :: withoutComment false rest := by
  induction h with
  | nil =>
    rw [List.nil_append, withoutComment_cons (by decide), if_pos rfl]
    rfl
  | backslash _ ih | quote _ ih | newline _ ih | tab _ ih =>
    rw [List.cons_append, List.cons_append, withoutComment_escaped, ih]
    rfl
  | char hbackslash hquote _ _ ih =>
    rw [List.cons_append, withoutComment_cons hbackslash, if_neg hquote,
      if_neg fun hcomment => Bool.false_ne_true hcomment.2.symm, ih]
    rfl

/-! ## The literal -/

/-- A character that is no backslash stands for itself. -/
lemma unescape_cons {c : Char} (hc : c ≠ '\\') (rest : List Char) :
    unescape (c :: rest) = (unescape rest).map (c :: ·) := by
  rw [unescape]
  · rfl
  · exact fun h _ => hc h
  · exact fun d tail h _ => hc h

/-- **A string is read back**, whatever it contains. -/
lemma Escapes.unescape (h : Escapes s e) : unescape e = .ok s := by
  induction h with
  | nil => rfl
  | backslash _ ih | quote _ ih | newline _ ih | tab _ ih =>
    rw [Literal.unescape, ih]
    rfl
  | char hbackslash _ _ _ ih =>
    rw [unescape_cons hbackslash, ih]
    rfl

/-- The literal of a string is read as the string. -/
lemma Escapes.string (h : Escapes s e) :
    string ('"' :: (e ++ ['"'])) = .ok (String.ofList s) := by
  obtain ⟨second, rest, hrest⟩ : ∃ second rest, e ++ ['"'] = second :: rest :=
    List.exists_cons_of_ne_nil (by simp)
  rw [hrest, Literal.string, ← hrest, if_pos List.getLast?_concat, List.dropLast_concat, h.unescape]
  rfl

end Literal

/-! ## Lines that add a string -/

open Program Literal

/-- The texts that add the constant `s`: its directive, its kind and its literal. -/
def Literal.Directive (s : String) (text : List Char) : Prop :=
  ∃ gap gap' e, Gap gap ∧ Gap gap' ∧ Escapes s.toList e ∧
    text = ".const".toList ++ gap ++ ("str".toList ++ gap' ++ '"' :: (e ++ ['"']))

namespace Literal

variable {s : String} {text line : List Char}

/-- A literal neither begins nor ends with a blank. -/
lemma trimmed_literal (e : List Char) : Text.Trimmed ('"' :: (e ++ ['"'])) := by
  have hquote : Text.isBlank '"' = false := by decide
  refine ⟨fun c hc => ?_, fun c hc => ?_⟩
  · obtain rfl := Option.some.inj hc
    exact hquote
  · rw [← List.cons_append, List.getLast?_concat] at hc
    obtain rfl := Option.some.inj hc
    exact hquote

/-- **Every string has a line that adds it**, and nothing else on that line. -/
theorem exists_directive (s : String) : ∃ text, Directive s text ∧ Line text text := by
  obtain ⟨e, he, hline⟩ := exists_escapes s.toList
  have hspace : Gap [' '] := ⟨by decide, by decide⟩
  exact ⟨_, ⟨[' '], [' '], e, hspace, hspace, he, rfl⟩, .bare (by simp [hline])⟩

/-- The kind and the literal of a string are read as the string. -/
lemma constant_str {gap e : List Char} (hgap : Gap gap) (h : Escapes s.toList e) :
    constant ("str".toList ++ gap ++ '"' :: (e ++ ['"'])) = .ok (.str s) := by
  have hkind : Text.IsWord "str".toList := by decide
  obtain ⟨rest, hcut, htrim⟩ := cut?_kind hkind hgap (trimmed_literal e)
  rw [constant, hcut]
  simp only [Option.getD_some, htrim, String.ofList_toList, h.string]
  rfl

/-- **A directive is read as the constant that it adds**, in a line with blanks around it and a
comment behind, or without. -/
lemma Directive.reads (h : Directive s text) (hline : Line text line) :
    Text.trim (withoutComment false line) = text ∧ text ≠ [] ∧
      Statement.ofLine text = .body [.constant (.str s)] := by
  obtain ⟨gap, gap', e, hgap, hgap', he, rfl⟩ := h
  have hstr : Text.Trimmed ("str".toList ++ gap' ++ '"' :: (e ++ ['"'])) :=
    (Text.IsWord.trimmed (by decide)).append (by simp) (trimmed_literal e) (by simp) gap'
  have hdirective : Text.IsWord ".const".toList := by decide
  have htrimmed := hdirective.trimmed.append (by simp) hstr (by simp) gap
  -- Up to the quote there is neither a string nor a comment.
  have hkept : ∀ rest, withoutComment false (".const".toList ++ gap ++
      ("str".toList ++ gap' ++ '"' :: (e ++ ['"'])) ++ rest) =
        ".const".toList ++ gap ++ ("str".toList ++ gap' ++ '"' :: (e ++ ['"'])) ++
          withoutComment false rest := by
    intro rest
    have hplain : Plain (".const".toList ++ gap ++ ("str".toList ++ gap')) :=
      plain_append (plain_append (by decide) (plain_of_blanks hgap.2))
        (plain_append (by decide) (plain_of_blanks hgap'.2))
    have hquoted : withoutComment false ('"' :: (e ++ '"' :: rest)) =
        '"' :: (e ++ '"' :: withoutComment false rest) := by
      rw [withoutComment_cons (by decide), if_pos rfl]
      exact congrArg ('"' :: ·) (he.withoutComment rest)
    have hkeep := withoutComment_append hplain ('"' :: (e ++ '"' :: rest))
    rw [hquoted] at hkeep
    simpa only [List.append_assoc, List.cons_append, List.nil_append] using hkeep
  exact ⟨hline.reads_of_kept htrimmed hkept, by simp,
    statement_const hgap.2 hstr (constant_str hgap' he)⟩

end Literal

end CoverProbe
