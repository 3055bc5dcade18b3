import CoverProbe.Text.Blank
import Mathlib.Data.List.TakeWhile
import Mathlib.Tactic.Lemma

set_option relaxedAutoImplicit false
set_option autoImplicit false

/-!
# Texts made of words and blanks

What trimming, cutting and splitting make of a text whose words and blanks are known. Blanks at the
ends of a text go away, blanks between words separate them, and how a line ends does not matter to
whoever trims it.

## Main definitions

* `CoverProbe.Text.Blanks` — a text of blanks.
* `CoverProbe.Text.IsWord` — a stretch without blanks.
* `CoverProbe.Text.Trimmed` — a text without blanks at its ends.

## Main results

* `CoverProbe.Text.trim_append_of_blanks`, `trim_of_blanks_append`, `Trimmed.trim_eq` — trimming.
* `CoverProbe.Text.exists_trim` — a text is what is left of it between blanks.
* `CoverProbe.Text.words_of_blanks_append`, `IsWord.words_append`, `IsWord.words_eq`, `words_trim` —
  words.
* `CoverProbe.Text.cut?_append`, `cut?_eq_none`, `cut?_eq_some` — cutting at a character.
* `CoverProbe.Text.foldlM_lines` — reading the lines of a text one by one.
-/

namespace CoverProbe.Text

/-- A text of blanks. -/
def Blanks (text : List Char) : Prop :=
  ∀ c ∈ text, isBlank c = true

/-- A stretch without blanks. -/
def IsWord (text : List Char) : Prop :=
  text ≠ [] ∧ ∀ c ∈ text, isBlank c = false

/-- A text that neither begins nor ends with a blank. -/
def Trimmed (text : List Char) : Prop :=
  (∀ c ∈ text.head?, isBlank c = false) ∧ ∀ c ∈ text.getLast?, isBlank c = false

instance (text : List Char) : Decidable (Blanks text) :=
  List.decidableBAll _ text

instance (text : List Char) : Decidable (IsWord text) :=
  @instDecidableAnd _ _ _ (List.decidableBAll _ text)

variable {a b text : List Char}

/-! ## Trimming -/

lemma Blanks.trimStart_eq (h : Blanks a) : trimStart a = [] :=
  List.dropWhile_eq_nil_iff.2 h

lemma Blanks.reverse (h : Blanks a) : Blanks a.reverse :=
  fun c hc => h c (List.mem_reverse.1 hc)

/-- Blanks before a text go away. -/
lemma trimStart_of_blanks_append (h : Blanks a) : trimStart (a ++ text) = trimStart text :=
  List.dropWhile_append_of_pos h

/-- Blanks at the front of a text go away. -/
lemma trim_of_blanks_append (h : Blanks a) : trim (a ++ text) = trim text := by
  unfold trim
  rw [trimStart_of_blanks_append h]

/-- **Blanks at the end of a text go away.** -/
lemma trim_append_of_blanks (h : Blanks b) : trim (text ++ b) = trim text := by
  unfold trim
  have hstart : trimStart (text ++ b) =
      if (trimStart text).isEmpty then [] else trimStart text ++ b := by
    rw [← h.trimStart_eq]
    exact List.dropWhile_append
  rw [hstart]
  split_ifs with hempty
  · rw [List.isEmpty_iff.1 hempty]
  · rw [List.reverse_append, trimStart_of_blanks_append h.reverse]

/-- A text that does not begin with a blank keeps its front. -/
lemma trimStart_eq_self (h : ∀ c ∈ text.head?, isBlank c = false) : trimStart text = text := by
  cases text with
  | nil => rfl
  | cons c rest =>
    have hc : ¬ isBlank c = true := by
      rw [h c rfl]
      exact Bool.false_ne_true
    exact List.dropWhile_cons_of_neg hc

/-- A trimmed text stays as it is. -/
lemma Trimmed.trim_eq (h : Trimmed text) : trim text = text := by
  unfold trim
  rw [trimStart_eq_self h.1, trimStart_eq_self (by rw [List.head?_reverse]; exact h.2),
    List.reverse_reverse]

/-- A trimmed text is what is left of it between blanks. -/
lemma Trimmed.trim_between (h : Trimmed text) (ha : Blanks a) (hb : Blanks b) :
    trim (a ++ text ++ b) = text := by
  rw [trim_append_of_blanks hb, trim_of_blanks_append ha, h.trim_eq]

lemma trimmed_nil : Trimmed [] :=
  ⟨nofun, nofun⟩

/-- A word is trimmed. -/
lemma IsWord.trimmed (h : IsWord text) : Trimmed text :=
  ⟨fun c hc => h.2 c (List.mem_of_mem_head? hc), fun c hc => h.2 c (List.mem_of_mem_getLast? hc)⟩

/-- A word is not empty and holds no blank. -/
lemma isWord_iff : IsWord text ↔ ¬ (text = [] ∨ text.any isBlank = true) := by
  rw [not_or, List.any_eq_true]
  refine and_congr_right fun _ => ⟨?_, ?_⟩
  · rintro h ⟨c, hc, hblank⟩
    rw [h c hc] at hblank
    exact Bool.false_ne_true hblank
  · intro h c hc
    by_contra hblank
    exact h ⟨c, hc, eq_true_of_ne_false hblank⟩

/-- Trimmed texts one behind the other are trimmed, whatever stands between them. -/
lemma Trimmed.append (ha : Trimmed a) (hne : a ≠ []) (hb : Trimmed b) (hne' : b ≠ [])
    (middle : List Char) : Trimmed (a ++ middle ++ b) := by
  constructor
  · intro c hc
    obtain ⟨d, a, rfl⟩ := List.exists_cons_of_ne_nil hne
    exact ha.1 c hc
  · intro c hc
    have hlast := List.getLast?_eq_some_getLast hne'
    rw [List.getLast?_append, hlast, Option.some_or] at hc
    exact hb.2 c (hlast ▸ hc)

/-- A text begins with the blanks that go away. -/
lemma exists_trimStart (text : List Char) :
    ∃ before, Blanks before ∧ text = before ++ trimStart text ∧
      ∀ c ∈ (trimStart text).head?, isBlank c = false := by
  refine ⟨text.takeWhile isBlank, fun c hc => List.mem_takeWhile_imp hc,
    List.takeWhile_append_dropWhile.symm, fun c hc => ?_⟩
  have hhead := List.head?_dropWhile_not isBlank text
  unfold trimStart at hc
  rw [hc] at hhead
  exact hhead

/-- **A text is what is left of it between blanks**, and that is trimmed. -/
lemma exists_trim (text : List Char) : ∃ before after, Blanks before ∧ Blanks after ∧
    text = before ++ trim text ++ after ∧ Trimmed (trim text) := by
  obtain ⟨before, hbefore, htext, hhead⟩ := exists_trimStart text
  obtain ⟨after, hafter, hstart, hlast⟩ := exists_trimStart (trimStart text).reverse
  have hsplit : trimStart text = trim text ++ after.reverse := by
    have hreverse := congrArg List.reverse hstart
    rw [List.reverse_reverse, List.reverse_append] at hreverse
    exact hreverse
  refine ⟨before, after.reverse, hbefore, hafter.reverse, ?_, ?_, ?_⟩
  · rw [List.append_assoc, ← hsplit]
    exact htext
  · intro c hc
    apply hhead
    rw [hsplit, List.head?_append, hc]
    rfl
  · intro c hc
    apply hlast
    unfold trim at hc
    rw [List.getLast?_reverse] at hc
    exact hc

/-- What is left of a text is trimmed. -/
lemma trimmed_trim (text : List Char) : Trimmed (trim text) := by
  obtain ⟨-, -, -, -, -, h⟩ := exists_trim text
  exact h

/-- A text that does not end with a blank is what is left of it behind blanks. -/
lemma exists_trim_of_getLast? (h : ∀ c ∈ text.getLast?, isBlank c = false) :
    ∃ before, Blanks before ∧ text = before ++ trim text := by
  obtain ⟨before, after, hbefore, hafter, htext, -⟩ := exists_trim text
  refine ⟨before, hbefore, ?_⟩
  by_cases hnil : after = []
  · rw [hnil, List.append_nil] at htext
    exact htext
  · have hlast : after.getLast hnil ∈ text.getLast? := by
      rw [htext, List.getLast?_append, List.getLast?_eq_some_getLast hnil]
      rfl
    have hblank := hafter _ (List.getLast_mem hnil)
    rw [h _ hlast] at hblank
    exact absurd hblank Bool.false_ne_true

/-- The end of a trimmed text does not end with a blank. -/
lemma Trimmed.getLast?_append (h : Trimmed (a ++ b)) : ∀ c ∈ b.getLast?, isBlank c = false := by
  intro c hc
  apply h.2
  rw [List.getLast?_append, hc]
  rfl

/-! ## Words -/

/-- A word is read up to its end. -/
lemma wordsFrom_append (word : List Char) (h : ∀ c ∈ a, isBlank c = false) :
    wordsFrom word (a ++ text) = wordsFrom (a.reverse ++ word) text := by
  induction a generalizing word with
  | nil => rfl
  | cons c a ih =>
    obtain ⟨hc, ha⟩ := List.forall_mem_cons.1 h
    rw [List.cons_append, wordsFrom, hc, if_neg Bool.false_ne_true, ih _ ha, List.reverse_cons,
      List.append_assoc]
    rfl

/-- Blanks before the first word separate nothing. -/
lemma words_of_blanks_append (h : Blanks a) : words (a ++ text) = words text := by
  induction a with
  | nil => rfl
  | cons c a ih =>
    obtain ⟨hc, ha⟩ := List.forall_mem_cons.1 h
    rw [words, List.cons_append, wordsFrom, if_pos hc, if_pos rfl]
    exact ih ha

/-- **A word ends at a blank.** -/
lemma IsWord.words_append (h : IsWord a) (hb : Blanks b) (hne : b ≠ []) :
    words (a ++ b ++ text) = a :: words text := by
  obtain ⟨c, b, rfl⟩ := List.exists_cons_of_ne_nil hne
  obtain ⟨hc, hb⟩ := List.forall_mem_cons.1 hb
  have hword : a.reverse ++ [] ≠ [] := by simpa using h.1
  rw [words, List.append_assoc, wordsFrom_append [] h.2, List.cons_append, wordsFrom, if_pos hc,
    if_neg hword, List.append_nil, List.reverse_reverse]
  exact congrArg (a :: ·) (words_of_blanks_append hb)

/-- A word is the only word of itself. -/
lemma IsWord.words_eq (h : IsWord a) : words a = [a] := by
  have hword : a.reverse ++ [] ≠ [] := by simpa using h.1
  have hread := @wordsFrom_append a [] [] h.2
  rw [List.append_nil] at hread
  rw [words, hread, wordsFrom, if_neg hword, List.append_nil, List.reverse_reverse]

/-- Blanks behind the last word separate nothing. -/
lemma words_append_of_blanks (h : Blanks b) : words (a ++ b) = words a := by
  have hblank : wordsFrom [] b = [] := by
    have hwords := @words_of_blanks_append b [] h
    rw [List.append_nil] at hwords
    exact hwords
  have hfrom : ∀ word, wordsFrom word (a ++ b) = wordsFrom word a := by
    induction a with
    | nil =>
      intro word
      cases b with
      | nil => rfl
      | cons c b =>
        obtain ⟨hc, hb⟩ := List.forall_mem_cons.1 h
        rw [wordsFrom, if_pos hc, if_pos rfl] at hblank
        simp only [List.nil_append, wordsFrom, hc, if_true, hblank]
    | cons c a ih =>
      intro word
      rw [List.cons_append, wordsFrom, wordsFrom, ih, ih]
  exact hfrom []

/-- A word that is being read is the front of the first word. -/
lemma exists_wordsFrom {word : List Char} (hne : word ≠ []) (text : List Char) :
    ∃ more rest, wordsFrom word text = (word.reverse ++ more) :: rest := by
  induction text generalizing word with
  | nil => exact ⟨[], [], by rw [wordsFrom, if_neg hne, List.append_nil]⟩
  | cons c text ih =>
    rw [wordsFrom]
    split_ifs with hc
    · exact ⟨[], _, by rw [List.append_nil]⟩
    · obtain ⟨more, rest, h⟩ := ih (List.cons_ne_nil c word)
      refine ⟨c :: more, rest, ?_⟩
      rw [h, List.reverse_cons, List.append_assoc]
      rfl

/-- A text that begins with no blank begins with its first word. -/
lemma exists_words_append (h : IsWord a) (text : List Char) :
    ∃ more rest, words (a ++ text) = (a ++ more) :: rest := by
  have hne : a.reverse ++ [] ≠ [] := by simpa using h.1
  obtain ⟨more, rest, hread⟩ := exists_wordsFrom hne text
  refine ⟨more, rest, ?_⟩
  rw [words, wordsFrom_append [] h.2, hread, List.append_nil, List.reverse_reverse]

/-- A trimmed text that is not empty has words. -/
lemma Trimmed.words_ne_nil (h : Trimmed text) (hne : text ≠ []) : words text ≠ [] := by
  obtain ⟨c, rest, rfl⟩ := List.exists_cons_of_ne_nil hne
  have hword : IsWord [c] := ⟨List.cons_ne_nil _ _, List.forall_mem_singleton.2 (h.1 c rfl)⟩
  obtain ⟨more, others, hread⟩ := exists_words_append hword rest
  rw [List.singleton_append] at hread
  rw [hread]
  exact List.cons_ne_nil _ _

/-- Trimming changes no words. -/
lemma words_trim (text : List Char) : words (trim text) = words text := by
  obtain ⟨before, after, hbefore, hafter, htext, -⟩ := exists_trim text
  conv => rhs; rw [htext]
  rw [words_append_of_blanks hafter, words_of_blanks_append hbefore]

/-! ## Cuts -/

/-- A text is cut at the first character of a kind. -/
lemma cut?_append {p : Char → Bool} {c : Char} (ha : ∀ d ∈ a, p d = false) (hc : p c = true) :
    cut? p (a ++ c :: b) = some (a, b) := by
  induction a with
  | nil => rw [List.nil_append, cut?, if_pos hc]
  | cons d a ih =>
    obtain ⟨hd, ha⟩ := List.forall_mem_cons.1 ha
    rw [List.cons_append, cut?, hd, if_neg Bool.false_ne_true, ih ha]
    rfl

/-- A text without characters of a kind is not cut. -/
lemma cut?_eq_none {p : Char → Bool} (ha : ∀ d ∈ a, p d = false) : cut? p a = none := by
  induction a with
  | nil => rfl
  | cons d a ih =>
    obtain ⟨hd, ha⟩ := List.forall_mem_cons.1 ha
    rw [cut?, hd, if_neg Bool.false_ne_true, ih ha]
    rfl

/-- Where a text is cut, the first character of the kind stands. -/
lemma cut?_eq_some {p : Char → Bool} (h : cut? p text = some (a, b)) :
    ∃ c, p c = true ∧ (∀ d ∈ a, p d = false) ∧ text = a ++ c :: b := by
  induction text generalizing a with
  | nil => simp [cut?] at h
  | cons c rest ih =>
    rw [cut?] at h
    split_ifs at h with hc
    · obtain ⟨rfl, rfl⟩ := Prod.mk.inj (Option.some.inj h)
      exact ⟨c, hc, by simp, rfl⟩
    · obtain ⟨⟨before, after⟩, hcut, heq⟩ := Option.map_eq_some_iff.1 h
      obtain ⟨rfl, rfl⟩ := Prod.mk.inj heq
      obtain ⟨d, hd, hbefore, rfl⟩ := ih hcut
      refine ⟨d, hd, List.forall_mem_cons.2 ⟨?_, hbefore⟩, rfl⟩
      simpa using hc

/-- A text that is not cut has no characters of the kind. -/
lemma forall_of_cut?_eq_none {p : Char → Bool} (h : cut? p text = none) :
    ∀ d ∈ text, p d = false := by
  induction text with
  | nil => simp
  | cons c rest ih =>
    rw [cut?] at h
    split_ifs at h with hc
    exact List.forall_mem_cons.2 ⟨by simpa using hc, ih (Option.map_eq_none_iff.1 h)⟩

/-! ## Lines -/

/-- A line is read up to its end. -/
lemma linesFrom_append (line : List Char) (h : '\n' ∉ a) :
    linesFrom line (a ++ text) = linesFrom (a.reverse ++ line) text := by
  induction a generalizing line with
  | nil => rfl
  | cons c a ih =>
    have hc : c ≠ '\n' := fun hc => h (hc ▸ List.mem_cons_self)
    rw [List.cons_append, linesFrom, if_neg hc, ih _ fun ha => h (List.mem_cons_of_mem c ha),
      List.reverse_cons, List.append_assoc]
    rfl

/-- A line that ends in a line feed is kept, or loses a carriage return. -/
lemma closeLine_reverse (line : List Char) :
    closeLine line.reverse = line ∨ closeLine line.reverse ++ ['\r'] = line := by
  unfold closeLine
  split
  · rename_i rest hrest
    refine .inr ?_
    rw [← List.reverse_cons, ← hrest, List.reverse_reverse]
  · exact .inl (List.reverse_reverse line)

/-- **Lines are read one by one**: whoever reads the lines of a text, and cares neither for empty
lines nor for carriage returns at the end of lines, reads the lines that the text was made of. -/
theorem foldlM_lines {σ : Type} (f : σ → List Char → Option σ) (hnil : ∀ s, f s [] = some s)
    (hreturn : ∀ s line, f s (line ++ ['\r']) = f s line) {given : List (List Char)}
    (h : ∀ line ∈ given, '\n' ∉ line) (s : σ) :
    (lines (['\n'].intercalate given)).foldlM f s = given.foldlM f s := by
  have hclose : ∀ s line, f s (closeLine line.reverse) = f s line := by
    intro s line
    rcases closeLine_reverse line with hline | hline
    · rw [hline]
    · rw [← hreturn, hline]
  induction given generalizing s with
  | nil => rfl
  | cons line rest ih =>
    obtain ⟨hline, hrest⟩ := List.forall_mem_cons.1 h
    cases rest with
    | nil =>
      have hlast : lines line = if line = [] then [] else [line] := by
        have hread := @linesFrom_append line [] [] hline
        rw [List.append_nil, List.append_nil] at hread
        rw [lines, hread, linesFrom]
        simp only [List.reverse_eq_nil_iff, List.reverse_reverse]
      rw [List.intercalate_singleton, hlast]
      split_ifs with hempty
      · rw [hempty, List.foldlM_cons, hnil]
        rfl
      · rfl
    | cons next rest =>
      have hcons : ['\n'].intercalate (line :: next :: rest) =
          line ++ '\n' :: ['\n'].intercalate (next :: rest) := by
        rw [List.intercalate_cons_cons, List.append_assoc]
        rfl
      rw [hcons, lines, linesFrom_append [] hline, List.append_nil, linesFrom, if_pos rfl,
        List.foldlM_cons, List.foldlM_cons, hclose]
      exact congrArg (f s line >>= ·) (funext fun s' => ih hrest s')

end CoverProbe.Text
