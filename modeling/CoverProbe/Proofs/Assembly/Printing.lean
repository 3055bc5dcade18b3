import CoverProbe.Proofs.Assembly.Source

set_option relaxedAutoImplicit false
set_option autoImplicit false

/-!
# Every program has a text

Numbers have digits and bytes have pairs of them, so whatever a program is made of can be spelled,
and every program can be printed: one line for each constant, label and instruction, every
instruction with its line number. So what is known of assembling the texts of programs bears on all
programs, and whatever they build can be had from a text.

## Main results

* `CoverProbe.Decimal.exists_spells`, `exists_spellsInt` — numbers can be spelled.
* `CoverProbe.Program.exists_isText` — programs can be printed.
* `CoverProbe.Program.exists_source` — what a program builds is assembled from a text.
-/

namespace CoverProbe

/-! ## Numbers -/

namespace Decimal

/-- Every digit is the character of one. -/
lemma spells_digit {n : Nat} (h : n < 10) :
    isDigit (Nat.digitChar n) = true ∧ digitValue (Nat.digitChar n) = n := by
  have hall : ∀ n < 10, isDigit (Nat.digitChar n) = true ∧ digitValue (Nat.digitChar n) = n := by
    decide
  exact hall n h

/-- **Every number has digits.** -/
theorem exists_spells (n : Nat) : ∃ text, Spells text n := by
  induction n using Nat.strongRecOn with
  | ind n ih =>
    obtain ⟨hdigit, hvalue⟩ := spells_digit (Nat.mod_lt n (by decide : 0 < 10))
    by_cases hn : n < 10
    · refine ⟨[Nat.digitChar (n % 10)], List.cons_ne_nil _ _, by simpa using hdigit, ?_⟩
      show 10 * 0 + digitValue (Nat.digitChar (n % 10)) = n
      omega
    · obtain ⟨text, hne, hdigits, hnumber⟩ := ih (n / 10) (by omega)
      refine ⟨text ++ [Nat.digitChar (n % 10)], by simp, ?_, ?_⟩
      · exact List.forall_mem_append.2 ⟨hdigits, by simpa using hdigit⟩
      · rw [number, List.foldl_append]
        show 10 * number text + digitValue (Nat.digitChar (n % 10)) = n
        omega

/-- Every integer has digits and, if it is negative, a sign. -/
theorem exists_spellsInt (i : Int) : ∃ text, SpellsInt text i := by
  obtain ⟨text, htext⟩ := exists_spells i.natAbs
  rcases Int.natAbs_eq i with hi | hi
  · exact ⟨text, .inl ⟨_, htext, hi⟩⟩
  · exact ⟨'-' :: text, .inr ⟨text, _, rfl, htext, hi⟩⟩

end Decimal

namespace Program

/-! ## Lines -/

/-- The words of a line stay on it. -/
lemma Token.not_mem {text : List Char} (h : Token text) : '\n' ∉ text :=
  fun hmem => absurd (h.word.2 '\n' hmem) (by decide)

/-- A space separates words. -/
lemma gap_space : Gap [' '] :=
  ⟨by decide, by decide⟩

/-- Every header has a line. -/
lemma exists_header (name : UnitName) (firstLine : UInt32) :
    ∃ text, Header name firstLine text ∧ '\n' ∉ text := by
  obtain ⟨digits, hdigits⟩ := Decimal.exists_spells firstLine.toNat
  have hname : '\n' ∉ name.text := fun hmem => absurd (name.word.2 '\n' hmem) (by decide)
  refine ⟨_, ⟨[' '], [' '], digits, gap_space, gap_space, hdigits, rfl⟩, ?_⟩
  simp [hname, (token_of_spells hdigits).1.not_mem]

/-- Every constant has a text. -/
lemma Plain.exists_prints (constant : Plain) :
    ∃ text, constant.Prints text ∧ '\n' ∉ text := by
  cases constant with
  | null => exact ⟨_, .null, by decide⟩
  | bool value =>
    cases value with
    | true => exact ⟨_, .isTrue, by decide⟩
    | false => exact ⟨_, .isFalse, by decide⟩
  | int value =>
    obtain ⟨digits, hdigits⟩ := Decimal.exists_spellsInt value.toInt
    refine ⟨_, .int gap_space hdigits, ?_⟩
    simp [(token_of_spellsInt hdigits).not_mem]
  | bytes value =>
    obtain ⟨digits, hdigits⟩ := Hex.exists_spells value
    cases hdigits with
    | nil => exact ⟨_, .noBytes, by decide⟩
    | cons hhigh hlow hrest =>
      have hspells := Hex.Spells.cons hhigh hlow hrest
      refine ⟨_, .bytes gap_space (List.cons_ne_nil _ _) hspells, ?_⟩
      simp [(token_of_hexSpells (List.cons_ne_nil _ _) hspells).not_mem]

/-- Every instruction has a text, its line number in front. -/
lemma Insn.exists_printsAt (i : Insn) (current : UInt32) :
    ∃ text, i.PrintsAt current text ∧ '\n' ∉ text := by
  have hmnemonic : Mnemonic i.op i.op.mnemonic.toList := rfl
  have hname := hmnemonic.token.1.not_mem
  have hprints : ∃ text, i.Prints text ∧ '\n' ∉ text := by
    cases harg : i.arg with
    | none => exact ⟨_, .bare hmnemonic harg, hname⟩
    | word value =>
      obtain ⟨digits, hdigits⟩ := Decimal.exists_spells value.toNat
      refine ⟨_, .word hmnemonic gap_space harg hdigits, ?_⟩
      simp [hname, (token_of_spells hdigits).1.not_mem]
    | label target =>
      refine ⟨_, .label hmnemonic gap_space harg, ?_⟩
      simp [hname, (LabelName.token target).not_mem]
  obtain ⟨text, htext, hline⟩ := hprints
  obtain ⟨digits, hdigits⟩ := Decimal.exists_spells i.line.toNat
  refine ⟨_, .numbered hdigits (List.forall_mem_nil _) htext, ?_⟩
  simp [hline, (token_of_spells hdigits).1.not_mem]

/-! ## Programs -/

/-- Every code has lines. -/
lemma exists_body_of_code (current : UInt32) (code : List Entry) :
    ∃ lines, Body current [] code lines := by
  induction code generalizing current with
  | nil => exact ⟨[], .done⟩
  | cons e rest ih =>
    cases e with
    | label name =>
      obtain ⟨lines, hlines⟩ := ih current
      refine ⟨_, .label (.bare ?_) hlines⟩
      simp [(LabelName.token name).not_mem]
    | insn i =>
      obtain ⟨lines, hlines⟩ := ih i.line
      obtain ⟨text, htext, hline⟩ := i.exists_printsAt current
      exact ⟨_, .insn htext (.bare hline) hlines⟩

mutual

/-- Every unit has lines. -/
theorem exists_body : ∀ p : Program, ∃ lines, Body p.firstLine p.pool p.code lines
  | ⟨_, firstLine, pool, code⟩ => by
    obtain ⟨lines, hlines⟩ := exists_body_of_code firstLine code
    exact exists_body_of_pool hlines pool

/-- Every pool has lines, in front of those of the code. -/
theorem exists_body_of_pool {current : UInt32} {code : List Entry} {lines : List (List Char)}
    (h : Body current [] code lines) :
    ∀ pool : List (Slot Program), ∃ lines, Body current pool code lines
  | [] => ⟨lines, h⟩
  | .plain constant :: rest => by
    obtain ⟨lines, hrest⟩ := exists_body_of_pool h rest
    obtain ⟨text, htext, hline⟩ := constant.exists_prints
    refine ⟨_, .plain gap_space htext (.bare ?_) hrest⟩
    simp [hline]
  | .unit nested :: rest => by
    obtain ⟨body, hbody⟩ := exists_body nested
    obtain ⟨lines, hrest⟩ := exists_body_of_pool h rest
    obtain ⟨text, htext, hline⟩ := exists_header nested.name nested.firstLine
    exact ⟨_, .unit htext (.bare hline) hbody (.bare (by decide)) hrest⟩

end

/-- **Every program has a text.** -/
theorem exists_isText (p : Program) : ∃ source, p.IsText source := by
  obtain ⟨body, hbody⟩ := p.exists_body
  obtain ⟨text, htext, hline⟩ := exists_header p.name p.firstLine
  refine ⟨_, _, ⟨[], text, text, body, _, [], List.forall_mem_nil _, htext, .bare hline, hbody,
    .bare (by decide), List.forall_mem_nil _, rfl⟩, String.toList_ofList⟩

/-- **What a program builds is assembled from a text**, the same one for both ways to write line
tables; and a program that cannot be built has a text that is refused. -/
theorem exists_source (p : Program) :
    ∃ source, p.IsText source ∧
      ∀ sign u, Source.assemble sign source = .ok u ↔ p.build sign = .ok u := by
  obtain ⟨source, hsource⟩ := p.exists_isText
  refine ⟨source, hsource, fun sign u => ?_⟩
  rw [← Checked.toOption_eq_some, hsource.toOption_assemble sign, Checked.toOption_eq_some]

end Program

end CoverProbe
