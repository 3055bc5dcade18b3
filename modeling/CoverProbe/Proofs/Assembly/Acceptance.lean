import CoverProbe.Proofs.Assembly.Lines

set_option relaxedAutoImplicit false
set_option autoImplicit false

/-!
# The texts that the assembler reads

In a text that is assembled, every line that says something is in the grammar with its liberties,
and the lines that open and close units nest like brackets around one root, behind which nothing is
said.

## Main definitions

* `CoverProbe.Source.cores` — the lines that say something, without comments and blanks around them.
* `CoverProbe.Assembly.Demands` — the lines that complete what is described so far.

## Main results

* `CoverProbe.Assembly.demands_say` — a statement is the first of the lines that complete the part
  before it.
* `CoverProbe.Source.foldlM_coresOf` — lines are read statement by statement.
* `CoverProbe.Source.lines_of_assemble` — the lines of a text that is assembled.

## Implementation notes

A part that is described is completed by the lines that close all its open units, the innermost
first (`CoverProbe.Grammar.Closes`). What a statement does to that is the invariant of the induction
along the lines.
-/

namespace CoverProbe

open Grammar

namespace Grammar

/-! ## Closing units -/

/-- Lines that close `n` units, one inside the other, with what stands before each line that closes
one. -/
def Closes : Nat → List (List Char) → Prop
  | 0, lines => lines = []
  | n + 1, lines => ∃ body rest, Nested body ∧ Closes n rest ∧ lines = body ++ ".end".toList :: rest

variable {n : Nat} {text opening : List Char} {rest : List (List Char)}

/-- A line that neither opens nor closes a unit leaves the same units to close. -/
lemma Closes.line (hopen : ¬ Opens text) (hclose : text ≠ ".end".toList) (h : Closes (n + 1) rest) :
    Closes (n + 1) (text :: rest) := by
  obtain ⟨body, outer, hbody, houter, rfl⟩ := h
  exact ⟨text :: body, outer, .line hopen hclose hbody, houter, rfl⟩

/-- A line that opens a unit leaves one unit more to close. -/
lemma Closes.open (hopen : Opens opening) (h : Closes (n + 2) rest) :
    Closes (n + 1) (opening :: rest) := by
  obtain ⟨inner, _, hinner, ⟨body, outer, hbody, houter, rfl⟩, rfl⟩ := h
  refine ⟨opening :: (inner ++ ".end".toList :: body), outer, .unit hopen hinner hbody, houter, ?_⟩
  simp only [List.cons_append, List.append_assoc]

/-- A line that closes a unit leaves one unit less to close. -/
lemma Closes.close (h : Closes n rest) : Closes (n + 1) (".end".toList :: rest) :=
  ⟨[], rest, .nil, h, rfl⟩

/-- A unit and nothing behind it. -/
lemma Closes.tree (hopen : Opens opening) (h : Closes 1 rest) : Tree (opening :: rest) := by
  obtain ⟨body, outer, hbody, rfl, rfl⟩ := h
  exact ⟨opening, body, hopen, hbody, rfl⟩

end Grammar

/-! ## Statements -/

namespace Statement

/-- What a line is read as tells whether it opens a unit, closes one, or does neither. -/
inductive Reads (text : List Char) : Statement → Prop
  | open {header : Except SyntaxFault (String × UInt32)} (h : Opens text) :
      Reads text (.open header)
  | close (h : text = ".end".toList) : Reads text .close
  | body {clauses : List Clause} (hopen : ¬ Opens text) (hclose : text ≠ ".end".toList) :
      Reads text (.body clauses)

lemma reads_ofLine (text : List Char) : Reads text (ofLine text) := by
  unfold ofLine
  cases hunit : behind? ".unit" text with
  | some rest =>
    rw [behind?_eq_some hunit]
    exact .open (List.prefix_append _ _)
  | none =>
    have hopen := behind?_eq_none_iff.1 hunit
    dsimp only
    split_ifs with hclose
    · exact .close hclose
    · cases behind? ".const" text with
      | none => exact .body hopen hclose
      | some rest =>
        dsimp only
        cases Literal.constant (Text.trim rest) with
        | ok value => exact .body hopen hclose
        | error cause => exact .body hopen hclose

end Statement

namespace OpenUnit

/-- A clause that is taken has no fault of syntax. -/
lemma wellFormed_of_say {u next : OpenUnit} {clause : Clause} (h : u.say clause = .ok next) :
    clause.WellFormed := by
  cases clause with
  | malformed cause => cases h
  | _ => trivial

/-- Clauses that are taken one after the other have no fault of syntax. -/
lemma wellFormed_of_foldlM {u next : OpenUnit} {clauses : List Clause}
    (h : clauses.foldlM say u = .ok next) : ∀ clause ∈ clauses, clause.WellFormed := by
  induction clauses generalizing u with
  | nil => exact List.forall_mem_nil _
  | cons clause rest ih =>
    rw [List.foldlM_cons] at h
    obtain ⟨middle, hsay, hrest⟩ := Checked.bind_eq_ok.1 h
    exact List.forall_mem_cons.2 ⟨wellFormed_of_say hsay, ih hrest⟩

end OpenUnit

/-! ## Parts -/

namespace Assembly

/-- The part described after one more line that says something. -/
def sayLine (sign : SignConvention) (part : Assembly) (core : List Char) :
    Except SyntaxFault Assembly :=
  part.say sign (.ofLine core)

/-- The lines that complete what is described so far. -/
def Demands : Assembly → List (List Char) → Prop
  | complete _, lines => lines = []
  | within [], lines => Tree lines
  | within (_ :: outer), lines => Closes (outer.length + 1) lines

variable {sign : SignConvention} {part next : Assembly}

/-- **What a statement does.** It opens a unit, closes the innermost one, or speaks of it. -/
lemma say_cases {statement : Statement} (h : part.say sign statement = .ok next) :
    (∃ name firstLine units, statement = .open (.ok (name, firstLine)) ∧ part = within units ∧
      next = within (⟨{ name, firstLine, sign }, firstLine⟩ :: units)) ∨
    (∃ u outer nested, statement = .close ∧ part = within (u :: outer) ∧
      u.builder.finish .standard = .ok nested ∧ next = Program.closed outer nested) ∨
    ∃ clauses u outer v, statement = .body clauses ∧ part = within (u :: outer) ∧
      clauses.foldlM OpenUnit.say u = .ok v ∧ next = within (v :: outer) := by
  cases part with
  | complete root => cases h
  | within units =>
    cases statement with
    | «open» header =>
      cases header with
      | error cause => cases units <;> cases h
      | ok header =>
        obtain ⟨name, firstLine⟩ := header
        rw [Program.say_open] at h
        exact .inl ⟨name, firstLine, units, rfl, rfl, (Except.ok.inj h).symm⟩
    | close =>
      cases units with
      | nil => cases h
      | cons u outer =>
        have hclosed := @Program.say_close sign u.builder u.line outer
        rw [h] at hclosed
        obtain ⟨nested, hnested, hnext⟩ := Option.map_eq_some_iff.1 hclosed.symm
        exact .inr (.inl ⟨u, outer, nested, rfl, rfl, Checked.toOption_eq_some.1 hnested,
          hnext.symm⟩)
    | body clauses =>
      cases units with
      | nil => cases h
      | cons u outer =>
        obtain ⟨v, hsay, hnext⟩ := Checked.bind_eq_ok.1 h
        exact .inr (.inr ⟨clauses, u, outer, v, rfl, rfl, hsay, (Except.ok.inj hnext).symm⟩)

/-- A statement that is taken has no fault of syntax. -/
lemma wellFormed_of_say {statement : Statement} (h : part.say sign statement = .ok next) :
    statement.WellFormed := by
  rcases say_cases h with ⟨name, firstLine, units, rfl, -, -⟩ | ⟨u, outer, nested, rfl, -, -, -⟩ |
    ⟨clauses, u, outer, v, rfl, -, hsay, -⟩
  · exact ⟨(name, firstLine), rfl⟩
  · trivial
  · exact OpenUnit.wellFormed_of_foldlM hsay

/-- **A line is the first of those that complete the part before it**, if the others complete the
part behind it. -/
lemma demands_say {text : List Char} {rest : List (List Char)}
    (h : part.say sign (.ofLine text) = .ok next) (hrest : next.Demands rest) :
    part.Demands (text :: rest) := by
  have hreads := Statement.reads_ofLine text
  -- What the statement does decides how many units are left to close.
  rcases say_cases h with ⟨name, firstLine, units, hstatement, rfl, rfl⟩ |
    ⟨u, outer, nested, hstatement, rfl, -, rfl⟩ | ⟨clauses, u, outer, v, hstatement, rfl, -, rfl⟩
  · rw [hstatement] at hreads
    cases hreads with
    | «open» hopen =>
      cases units with
      | nil => exact Closes.tree hopen hrest
      | cons u outer => exact Closes.open hopen hrest
  · rw [hstatement] at hreads
    cases hreads with
    | close hclose =>
      subst hclose
      cases outer with
      | nil => exact Closes.close hrest
      | cons parent above => exact Closes.close hrest
  · rw [hstatement] at hreads
    cases hreads with
    | body hopen hclose => exact Closes.line hopen hclose hrest

end Assembly

/-! ## Texts -/

namespace Source

/-- The lines of a text that say something, each without its comment and the blanks around it. -/
def coresOf (lines : List (List Char)) : List (List Char) :=
  (lines.map fun line => Text.trim (Literal.withoutComment false line)).filter (· ≠ [])

/-- The lines of a source that say something. -/
def cores (source : String) : List (List Char) :=
  coresOf (Text.lines source.toList)

variable {sign : SignConvention} {root : CodeUnit}

/-- A line that says something has no blanks around it. -/
lemma trimmed_of_mem_coresOf {lines : List (List Char)} {core : List Char}
    (h : core ∈ coresOf lines) : Text.Trimmed core := by
  obtain ⟨line, -, rfl⟩ := List.mem_map.1 (List.mem_of_mem_filter h)
  exact Text.trimmed_trim _

/-- **Lines are read statement by statement**, those of them that say something. -/
lemma foldlM_coresOf {number : Nat} {part final : Assembly} {lines : List (List Char)}
    (h : readLines sign number part lines = .ok final) :
    (coresOf lines).foldlM (Assembly.sayLine sign) part = .ok final := by
  induction lines generalizing number part with
  | nil =>
    obtain rfl := Except.ok.inj h
    rfl
  | cons line rest ih =>
    rw [readLines] at h
    unfold coresOf
    rw [List.map_cons]
    split_ifs at h with hempty
    · rw [hempty, List.filter_cons_of_neg (by simp)]
      exact ih h
    · rw [List.filter_cons_of_pos (by simpa using hempty), List.foldlM_cons, Assembly.sayLine]
      cases hsay : part.say sign (.ofLine (Text.trim (Literal.withoutComment false line))) with
      | error cause =>
        rw [hsay] at h
        cases h
      | ok next =>
        rw [hsay] at h
        exact ih h

/-- Lines that complete a part, statement by statement, are in the grammar and are those that it
demands. -/
lemma lines_of_foldlM {part : Assembly} {lines : List (List Char)}
    (htrimmed : ∀ core ∈ lines, Text.Trimmed core)
    (h : lines.foldlM (Assembly.sayLine sign) part = .ok (.complete root)) :
    (∀ core ∈ lines, Grammar.Line true core) ∧ part.Demands lines := by
  induction lines generalizing part with
  | nil =>
    obtain rfl := Except.ok.inj h
    exact ⟨List.forall_mem_nil _, rfl⟩
  | cons core rest ih =>
    obtain ⟨hcore, hcores⟩ := List.forall_mem_cons.1 htrimmed
    rw [List.foldlM_cons] at h
    obtain ⟨next, hsay, hrest⟩ := Checked.bind_eq_ok.1 h
    obtain ⟨hlines, hdemands⟩ := ih hcores hrest
    refine ⟨List.forall_mem_cons.2 ⟨?_, hlines⟩, Assembly.demands_say hsay hdemands⟩
    rw [← Statement.wellFormed_ofLine_iff hcore]
    exact Assembly.wellFormed_of_say hsay

/-- **The lines that complete a part are in the grammar and are those that it demands.**

**Proof sketch.** Induction along the lines that say something. Each is read without a fault, so it
is in the grammar (`Statement.wellFormed_ofLine_iff`), and it is the first of the lines that the part
before it demands (`Assembly.demands_say`). -/
lemma lines_of_readLines {number : Nat} {part : Assembly} {lines : List (List Char)}
    (h : readLines sign number part lines = .ok (.complete root)) :
    (∀ core ∈ coresOf lines, Grammar.Line true core) ∧ part.Demands (coresOf lines) :=
  lines_of_foldlM (fun _ => trimmed_of_mem_coresOf) (foldlM_coresOf h)

/-- **A text that is assembled is in the grammar**, with its liberties: every line that says
something has one of the forms of the grammar, and the lines that open and close units nest around a
root behind which nothing is said. -/
theorem lines_of_assemble {source : String} (h : assemble sign source = .ok root) :
    (∀ core ∈ cores source, Grammar.Line true core) ∧ Tree (cores source) := by
  obtain ⟨part, hread, hpart⟩ := Checked.bind_eq_ok.1 h
  cases part with
  | within units => cases units <;> cases hpart
  | complete closed => exact lines_of_readLines hread

/-- A text with two strings in one line. -/
def twoStrings : String :=
  ".unit m 1\n.const str \"a\" \"b\"\n.end"

/-- They are read as one string with quotes in it. -/
theorem lines_of_assemble_twoStrings :
    assemble .signed twoStrings = .ok ⟨"m", 1, [], [.str "a\" \"b"], []⟩ ∧
      (∀ core ∈ cores twoStrings, Grammar.Line true core) ∧ Tree (cores twoStrings) :=
  have h : assemble .signed twoStrings = .ok ⟨"m", 1, [], [.str "a\" \"b"], []⟩ := rfl
  ⟨h, lines_of_assemble h⟩

/-- The documented grammar has no such line. -/
theorem twoStrings_undocumented : (∃ root, assemble .signed twoStrings = .ok root) ∧
    ∃ core ∈ cores twoStrings, ¬ Grammar.Line false core := by
  refine ⟨⟨⟨"m", 1, [], [.str "a\" \"b"], []⟩, rfl⟩, ".const str \"a\" \"b\"".toList, by decide, ?_⟩
  intro h
  have hline : Grammar.Line false (".const".toList ++ " str \"a\" \"b\"".toList) := h
  obtain ⟨gap, text, hgap, hrest, hconstant⟩ := hline.exists_constant
  have htext : "str".toList ++ " \"a\" \"b\"".toList = text := by
    have hcut := congrArg Text.trimStart hrest
    rw [Text.trimStart_of_blanks_append hgap,
      Text.trimStart_eq_self hconstant.head_not_blank] at hcut
    exact hcut
  subst htext
  -- The grammar leaves the string no choice: its first and its last quote are those of the line.
  obtain ⟨gap, body, hgap, hrest, hbody⟩ := hconstant.exists_string
  have hhead : ∀ c ∈ ('"' :: (body ++ ['"'])).head?, Text.isBlank c = false := by
    rintro c ⟨⟩
    rfl
  have hquotes : "\"a\" \"b\"".toList = '"' :: (body ++ ['"']) := by
    have hcut := congrArg Text.trimStart hrest
    rw [Text.trimStart_of_blanks_append hgap, Text.trimStart_eq_self hhead] at hcut
    exact hcut
  have hwithin : body = "a\" \"b".toList := by
    have hcut := congrArg List.dropLast (List.cons.inj hquotes).2
    rw [List.dropLast_concat] at hcut
    exact hcut.symm
  subst hwithin
  exact hbody.quote_not_mem (by decide) (by decide)

end Source

end CoverProbe
