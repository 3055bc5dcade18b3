import CoverProbe.Assembly.Source
import CoverProbe.Proofs.Assembly.Statement
import CoverProbe.Proofs.Checked

set_option relaxedAutoImplicit false
set_option autoImplicit false

/-!
# Assembly text agrees with the builder

A text that prints a program is assembled to the unit that the program builds. Lines are read one
by one; what is read of a unit before its pool and its code are complete differs from what the
program does in that constants and code come mixed, and a builder does not mind that.

## Main definitions

* `CoverProbe.Source.readLine?` — the part described after one more line, faults forgotten.
* `CoverProbe.Program.IsText` — the texts that print a program.

## Main results

* `CoverProbe.Program.Body.reads` — what the lines of a unit add to its builder.
* `CoverProbe.Program.assemble_eq_ok_iff` — a text of a program is assembled to the unit that the
  program builds.
-/

namespace CoverProbe

/-! ## Lines one by one -/

namespace Source

/-- The part described after one more line, if that is not refused. -/
def readLine? (sign : SignConvention) (part : Assembly) (line : List Char) : Option Assembly :=
  let text := Text.trim (Literal.withoutComment false line)
  if text = [] then some part else (part.say sign (.ofLine text)).toOption

variable (sign : SignConvention)

/-- Lines are read one by one. -/
lemma toOption_readLines (number : Nat) (part : Assembly) (lines : List (List Char)) :
    (readLines sign number part lines).toOption = lines.foldlM (readLine? sign) part := by
  induction lines generalizing number part with
  | nil => rfl
  | cons line rest ih =>
    rw [readLines, List.foldlM_cons, readLine?]
    split_ifs with hempty
    · exact ih _ _
    · cases part.say sign (.ofLine (Text.trim (Literal.withoutComment false line))) with
      | error cause => rfl
      | ok next => exact ih _ _

/-- A carriage return at the end of a line is blank, or belongs to its comment. -/
lemma trim_withoutComment_return (line : List Char) :
    Text.trim (Literal.withoutComment false (line ++ ['\r'])) =
      Text.trim (Literal.withoutComment false line) := by
  have hblank : Text.Blanks ['\r'] := List.forall_mem_cons.2 ⟨rfl, List.forall_mem_nil _⟩
  rcases Literal.withoutComment_return false line with h | h
  · rw [h, Text.trim_append_of_blanks hblank]
  · rw [h]

/-- How a line ends does not matter. -/
lemma readLine?_return (part : Assembly) (line : List Char) :
    readLine? sign part (line ++ ['\r']) = readLine? sign part line := by
  rw [readLine?, readLine?, trim_withoutComment_return]

/-- The root of a tree that is described to its end. -/
def root? : Assembly → Option CodeUnit
  | .complete root => some root
  | .within _ => none

/-- **A text is read line by line**, up to the end of its root. -/
lemma toOption_assemble {source : String} {lines : List (List Char)}
    (h : ∀ line ∈ lines, '\n' ∉ line) (hsource : source.toList = ['\n'].intercalate lines) :
    (assemble sign source).toOption =
      (lines.foldlM (readLine? sign) (.within [])).bind root? := by
  have hread : (readLines sign 1 (.within []) (Text.lines source.toList)).toOption =
      lines.foldlM (readLine? sign) (.within []) := by
    rw [toOption_readLines, hsource]
    exact Text.foldlM_lines _ (fun _ => rfl) (readLine?_return sign) h _
  rw [← hread, assemble]
  cases readLines sign 1 (.within []) (Text.lines source.toList) with
  | error cause => rfl
  | ok part =>
    cases part with
    | complete root => rfl
    | within units => cases units <;> rfl

end Source

namespace Program

open Source

variable {sign : SignConvention} {part : Assembly} {core line : List Char}

/-- A line that says nothing adds nothing. -/
lemma Line.readLine?_blank (h : Line [] line) : readLine? sign part line = some part := by
  rw [readLine?, h.reads Text.trimmed_nil (List.forall_mem_nil _)]
  rfl

/-- A line adds what its core says. -/
lemma Line.readLine? (h : Line core line) (hcore : Core core) :
    readLine? sign part line = (part.say sign (.ofLine core)).toOption := by
  rw [Source.readLine?, h.reads hcore.trimmed hcore.plain]
  exact if_neg hcore.ne_nil

/-- Lines that say nothing add nothing. -/
lemma foldlM_blank {lines : List (List Char)} (h : ∀ line ∈ lines, Line [] line) :
    lines.foldlM (Source.readLine? sign) part = some part := by
  induction lines with
  | nil => rfl
  | cons line rest ih =>
    obtain ⟨hline, hrest⟩ := List.forall_mem_cons.1 h
    rw [List.foldlM_cons, hline.readLine?_blank]
    exact ih hrest

/-! ## Building without faults -/

/-- A nested unit is built before it fills its slot. -/
lemma toOption_fill_unit (b : Builder) (nested : Program) (rest : List (Slot Program)) :
    (fill sign b (.unit nested :: rest)).toOption =
      (nested.build sign).toOption.bind fun u =>
        (fill sign (b.addConstant (.unit u)) rest).toOption := by
  rw [fill, Checked.toOption_bind]

/-- The builder that a program begins with. -/
def opened (sign : SignConvention) (p : Program) : Builder :=
  { name := p.name.name, firstLine := p.firstLine, sign }

/-- The builder after steps of the code, if no name is bound again. -/
def run (entries : List Entry) (b : Builder) : Option Builder :=
  (entries.foldlM Entry.perform b).toOption

/-- A unit is built from its pool, then its code. -/
lemma toOption_build (p : Program) :
    (p.build sign).toOption =
      ((fill sign (p.opened sign) p.pool).toOption.bind (run p.code)).bind fun b =>
        (b.finish .standard).toOption := by
  cases p
  rw [build, Checked.toOption_bind, Option.bind_assoc]
  congr 1
  funext b
  exact Checked.toOption_bind _ _

/-! ## Code and pool -/

lemma run_append (first second : List Entry) (b : Builder) :
    run (first ++ second) b = (run first b).bind (run second) := by
  rw [run, List.foldlM_append, Checked.toOption_bind]
  rfl

/-- A step of the code does not mind a constant added before it. -/
lemma perform_addConstant (e : Entry) (b : Builder) (c : Constant CodeUnit) :
    (e.perform (b.addConstant c)).toOption =
      (e.perform b).toOption.map (Builder.addConstant · c) := by
  cases e with
  | label name =>
    have hlabels : (b.addConstant c).labels = b.labels := rfl
    rw [Entry.perform, Entry.perform, Builder.label, Builder.label, hlabels]
    cases b.labels.lookup name.name with
    | none => rfl
    | some k => rfl
  | insn i =>
    rw [Entry.perform, Entry.perform, Insn.perform, Insn.perform]
    cases i.arg <;> rfl

/-- The code does not mind a constant added before it. -/
lemma run_addConstant (entries : List Entry) (b : Builder) (c : Constant CodeUnit) :
    run entries (b.addConstant c) = (run entries b).map (Builder.addConstant · c) := by
  induction entries generalizing b with
  | nil => rfl
  | cons e rest ih =>
    have hcons : ∀ b, run (e :: rest) b = (e.perform b).toOption.bind (run rest) := by
      intro b
      rw [run, List.foldlM_cons, Checked.toOption_bind]
      rfl
    rw [hcons, hcons, perform_addConstant, Option.bind_map, Option.map_bind]
    congr 1
    funext b'
    exact ih b'

/-- **Code and pool do not mind each other**: code that comes first may as well come last.

**Proof sketch.** Induction along the pool; the code does not mind the constant of its first slot
(`run_addConstant`), whatever that is built from. -/
lemma run_fill (entries : List Entry) (pool : List (Slot Program)) (b : Builder) :
    (run entries b).bind (fun b => (fill sign b pool).toOption) =
      (fill sign b pool).toOption.bind (run entries) := by
  have hslot : ∀ (c : Constant CodeUnit) (rest : List (Slot Program)) (b : Builder),
      (∀ b, (run entries b).bind (fun b => (fill sign b rest).toOption) =
        (fill sign b rest).toOption.bind (run entries)) →
      (run entries b).bind (fun b => (fill sign (b.addConstant c) rest).toOption) =
        (fill sign (b.addConstant c) rest).toOption.bind (run entries) := by
    intro c rest b ih
    rw [← ih, run_addConstant, Option.bind_map]
    rfl
  induction pool generalizing b with
  | nil =>
    simp only [fill, Except.toOption, Option.bind_some]
    exact Option.bind_fun_some _
  | cons slot rest ih =>
    cases slot with
    | plain constant => exact hslot constant.value rest b ih
    | unit nested =>
      simp only [toOption_fill_unit]
      cases (nested.build sign).toOption with
      | none => exact Option.bind_fun_none _
      | some u => exact hslot (.unit u) rest b ih

/-! ## Clauses -/

/-- Clauses do to an open unit what steps of the code do to its builder, and leave it on line
`next`. -/
def Performs (current next : UInt32) (clauses : List Clause) (entries : List Entry) : Prop :=
  ∀ b : Builder, (clauses.foldlM OpenUnit.say ⟨b, current⟩).toOption =
    (run entries b).map fun b => ⟨b, next⟩

/-- Clauses one behind the other do what the steps do. -/
lemma Performs.append {current middle next : UInt32} {first second : List Clause}
    {before behind : List Entry} (h : Performs current middle first before)
    (h' : Performs middle next second behind) :
    Performs current next (first ++ second) (before ++ behind) := by
  intro b
  rw [List.foldlM_append, Checked.toOption_bind, h b, run_append, Option.bind_map, Option.map_bind]
  congr 1
  funext b'
  exact h' b'

/-- A label is bound. -/
lemma performs_label (current : UInt32) (name : LabelName) :
    Performs current current [.label name.name] [.label name] := by
  intro b
  show (OpenUnit.say ⟨b, current⟩ (.label name.name) >>= pure).toOption =
    Option.map _ ((Entry.label name).perform b >>= pure).toOption
  rw [bind_pure, bind_pure, OpenUnit.say, Entry.perform]
  rcases b.label name.name with ⟨cause | _, b'⟩
  · rfl
  · rfl

/-- An instruction is added on its line. -/
lemma performs_insn {current : UInt32} {i : Insn} {number : List Clause}
    (h : number = [] ∧ i.line = current ∨ number = [.line i.line]) :
    Performs current i.line (number ++ [i.clause]) [.insn i] := by
  intro b
  have hclause : (OpenUnit.say ⟨b, i.line⟩ i.clause).toOption = some ⟨i.perform b, i.line⟩ := by
    rw [Insn.clause, Insn.perform]
    cases i.arg <;> rfl
  have hrun : run [.insn i] b = some (i.perform b) := rfl
  have hline : ((number ++ [i.clause]).foldlM OpenUnit.say ⟨b, current⟩) =
      (OpenUnit.say ⟨b, i.line⟩ i.clause >>= pure) := by
    rcases h with ⟨rfl, rfl⟩ | rfl
    · rfl
    · rfl
  rw [hline, bind_pure, hclause, hrun]
  rfl

/-! ## Lines of a unit -/

/-- What lines add to the innermost open unit: constants to its pool, and steps to its code. -/
def Adds (current next : UInt32) (pool : List (Slot Program)) (code : List Entry)
    (lines : List (List Char)) : Prop :=
  ∀ (sign : SignConvention) (b : Builder) (outer : List OpenUnit),
    lines.foldlM (Source.readLine? sign) (.within (⟨b, current⟩ :: outer)) =
      ((fill sign b pool).toOption.bind (run code)).map fun b => .within (⟨b, next⟩ :: outer)

/-- A line of code in front of other lines adds its steps in front of theirs. -/
lemma Adds.code {current middle next : UInt32} {pool : List (Slot Program)}
    {entries code : List Entry} {clauses : List Clause} {core line : List Char}
    {rest : List (List Char)} (hline : Line core line) (hcore : Core core)
    (hstatement : Statement.ofLine core = .body clauses)
    (hclauses : Performs current middle clauses entries) (hrest : Adds middle next pool code rest) :
    Adds current next pool (entries ++ code) (line :: rest) := by
  intro sign b outer
  have hsay : ((Assembly.within (⟨b, current⟩ :: outer)).say sign (.body clauses)).toOption =
      (run entries b).map fun b => .within (⟨b, middle⟩ :: outer) := by
    rw [Assembly.say, Checked.toOption_bind, hclauses b, Option.bind_map]
    cases run entries b <;> rfl
  have hsplit : run (entries ++ code) = fun b => (run entries b).bind (run code) := by
    funext b
    exact run_append entries code b
  rw [List.foldlM_cons, hline.readLine? hcore, hstatement, hsay, hsplit, ← Option.bind_assoc,
    ← run_fill]
  show Option.bind (Option.map _ (run entries b)) _ = _
  rw [Option.bind_map, Option.bind_assoc, Option.map_bind]
  congr 1
  funext b'
  exact hrest sign b' outer

/-- The part described once a unit inside the units `outer` is closed. -/
def closed (outer : List OpenUnit) (u : CodeUnit) : Assembly :=
  match outer with
  | [] => .complete u
  | parent :: above =>
    .within ({ parent with builder := parent.builder.addConstant (.unit u) } :: above)

/-- A unit is opened inside those that are open. -/
lemma say_open (name : String) (firstLine : UInt32) (units : List OpenUnit) :
    (Assembly.within units).say sign (.open (.ok (name, firstLine))) =
      .ok (.within (⟨{ name, firstLine, sign }, firstLine⟩ :: units)) := by
  cases units <;> rfl

/-- A unit is closed by finishing it. -/
lemma say_close (b : Builder) (line : UInt32) (outer : List OpenUnit) :
    ((Assembly.within (⟨b, line⟩ :: outer)).say sign .close).toOption =
      (b.finish .standard).toOption.map (closed outer) := by
  cases hfinish : b.finish .standard with
  | error cause =>
    simp only [Assembly.say, hfinish]
    rfl
  | ok u => cases outer <;> simp only [Assembly.say, hfinish] <;> rfl

/-- The lines of a unit open it, add its pool and its code, and close it. -/
lemma Adds.close {last : UInt32} {p : Program} {text opening closing : List Char}
    {body rest : List (List Char)} (htext : Header p.name p.firstLine text)
    (hopen : Line text opening) (hbody : Adds p.firstLine last p.pool p.code body)
    (hclose : Line ".end".toList closing) (sign : SignConvention) (outer : List OpenUnit) :
    (opening :: (body ++ closing :: rest)).foldlM (Source.readLine? sign) (.within outer) =
      (p.build sign).toOption.bind fun u =>
        rest.foldlM (Source.readLine? sign) (closed outer u) := by
  obtain ⟨hcore, hheader⟩ := htext.statement
  obtain ⟨hendCore, hend⟩ := statement_end
  rw [List.foldlM_cons, hopen.readLine? hcore, hheader, say_open]
  show (body ++ closing :: rest).foldlM (Source.readLine? sign)
    (.within (⟨p.opened sign, p.firstLine⟩ :: outer)) = _
  rw [List.foldlM_append, hbody, toOption_build]
  cases (fill sign (p.opened sign) p.pool).toOption.bind (run p.code) with
  | none => rfl
  | some b =>
    show (closing :: rest).foldlM (Source.readLine? sign) (.within (⟨b, last⟩ :: outer)) =
      (b.finish .standard).toOption.bind _
    rw [List.foldlM_cons, hclose.readLine? hendCore, hend, say_close]
    exact Option.bind_map

/-- **The lines of a unit add its pool and its code**, however they are laid out.

**Proof sketch.** Induction along the lines. -/
theorem Body.adds {current : UInt32} {pool : List (Slot Program)} {code : List Entry}
    {lines : List (List Char)} (h : Body current pool code lines) :
    ∃ next, Adds current next pool code lines := by
  induction h with
  | @done current => exact ⟨current, fun _ _ _ => rfl⟩
  | blank hline _ ih =>
    obtain ⟨next, ih⟩ := ih
    refine ⟨next, fun sign b outer => ?_⟩
    rw [List.foldlM_cons, hline.readLine?_blank]
    exact ih sign b outer
  | @plain current constant pool code gap text line rest hgap htext hline _ ih =>
    obtain ⟨next, ih⟩ := ih
    obtain ⟨hcore, hstatement⟩ := htext.statement hgap
    refine ⟨next, fun sign b outer => ?_⟩
    rw [List.foldlM_cons, hline.readLine? hcore, hstatement]
    exact ih sign (b.addConstant constant.value) outer
  | unit htext hopen _ hclose _ ihbody ihrest =>
    obtain ⟨last, ihbody⟩ := ihbody
    obtain ⟨next, ihrest⟩ := ihrest
    refine ⟨next, fun sign b outer => ?_⟩
    rw [ihbody.close htext hopen hclose, toOption_fill_unit, Option.bind_assoc, Option.map_bind]
    congr 1
    funext u
    exact ihrest sign (b.addConstant (.unit u)) outer
  | @label current pool name code line rest hline _ ih =>
    obtain ⟨next, ih⟩ := ih
    obtain ⟨hcore, hstatement⟩ := statement_label name
    exact ⟨next, ih.code hline hcore hstatement (performs_label current name)⟩
  | insn htext hline _ ih =>
    obtain ⟨next, ih⟩ := ih
    obtain ⟨hcore, number, hnumber, hstatement⟩ := htext.statement
    exact ⟨next, ih.code hline hcore hstatement (performs_insn hnumber)⟩
  | @labelled current pool name i code gap text line rest hgap htext hline _ ih =>
    obtain ⟨next, ih⟩ := ih
    obtain ⟨hcore, number, hnumber, hstatement⟩ := @statement_labelled _ name _ _ _ hgap htext
    exact ⟨next, ih.code hline hcore hstatement
      ((performs_label current name).append (performs_insn hnumber))⟩

/-! ## Texts -/

/-- The lines of a unit are lines. -/
lemma Body.not_mem {current : UInt32} {pool : List (Slot Program)} {code : List Entry}
    {lines : List (List Char)} (h : Body current pool code lines) :
    ∀ line ∈ lines, '\n' ∉ line := by
  induction h with
  | done => exact List.forall_mem_nil _
  | blank hline _ ih => exact List.forall_mem_cons.2 ⟨hline.1, ih⟩
  | plain _ _ hline _ ih => exact List.forall_mem_cons.2 ⟨hline.1, ih⟩
  | unit _ hopen _ hclose _ ihbody ihrest =>
    refine List.forall_mem_cons.2 ⟨hopen.1, List.forall_mem_append.2 ⟨ihbody, ?_⟩⟩
    exact List.forall_mem_cons.2 ⟨hclose.1, ihrest⟩
  | label hline _ ih => exact List.forall_mem_cons.2 ⟨hline.1, ih⟩
  | insn _ hline _ ih => exact List.forall_mem_cons.2 ⟨hline.1, ih⟩
  | labelled _ _ hline _ ih => exact List.forall_mem_cons.2 ⟨hline.1, ih⟩

/-- The texts that print a program. -/
def IsText (p : Program) (source : String) : Prop :=
  ∃ lines, p.Prints lines ∧ source.toList = ['\n'].intercalate lines

/-- Assembling a text of a program comes to building the program, faults forgotten.

**Proof sketch.** A text is read line by line, without regard to line ends
(`Source.toOption_assemble`). A line is read as its core, whatever blanks and comments stand around
it (`Line.readLine?`), so the lines of a unit add its pool and its code to its builder
(`Body.adds`), and the last of them finishes it. -/
lemma IsText.toOption_assemble {p : Program} {source : String} (h : p.IsText source)
    (sign : SignConvention) :
    (Source.assemble sign source).toOption = (p.build sign).toOption := by
  obtain ⟨lines, ⟨before, text, opening, body, closing, after, hbefore, htext, hopen, hbody, hclose,
    hafter, rfl⟩, hsource⟩ := h
  have hlines : ∀ line ∈ before ++ opening :: (body ++ closing :: after), '\n' ∉ line := by
    refine List.forall_mem_append.2 ⟨fun line hl => (hbefore line hl).1, ?_⟩
    refine List.forall_mem_cons.2 ⟨hopen.1, List.forall_mem_append.2 ⟨hbody.not_mem, ?_⟩⟩
    exact List.forall_mem_cons.2 ⟨hclose.1, fun line hl => (hafter line hl).1⟩
  obtain ⟨last, hadds⟩ := hbody.adds
  rw [Source.toOption_assemble sign hlines hsource, List.foldlM_append, foldlM_blank hbefore]
  show Option.bind ((opening :: (body ++ closing :: after)).foldlM _ _) _ = _
  rw [hadds.close htext hopen hclose, Option.bind_assoc]
  have hroot : ∀ u, (after.foldlM (Source.readLine? sign) (closed [] u)).bind Source.root? =
      some u := by
    intro u
    rw [foldlM_blank hafter]
    rfl
  simp only [hroot]
  exact Option.bind_fun_some _

/-- **A text of a program is assembled to the unit that the program builds**, and is refused if the
program cannot be built. The layout of the text does not matter, nor how lines are written in the
tables. Every program has a text (`CoverProbe.Program.exists_source`). -/
theorem assemble_eq_ok_iff {p : Program} {source : String} (h : p.IsText source)
    (sign : SignConvention) (u : CodeUnit) :
    Source.assemble sign source = .ok u ↔ p.build sign = .ok u := by
  rw [← Checked.toOption_eq_some, h.toOption_assemble sign, Checked.toOption_eq_some]

/-- A unit that returns. -/
def returning : Program where
  name := ⟨"inner".toList, by decide, by decide⟩
  firstLine := 3
  pool := []
  code := [.insn ⟨.ret, .none, 4, rfl⟩]

/-- The label of a loop. -/
def loopLabel : LabelName :=
  ⟨⟨"loop".toList, by decide, by decide⟩, by decide, ⟨'l', by decide, by decide⟩, by decide⟩

/-- A unit that jumps to itself, with a unit nested that returns. -/
def endless : Program where
  name := ⟨"endless".toList, by decide, by decide⟩
  firstLine := 1
  pool := [.plain (.int (-1)), .unit returning]
  code := [.label loopLabel, .insn ⟨.jump, .label loopLabel, 2, rfl⟩]

/-- A text of these units. -/
def endlessText : String := "; two units
.unit endless 1
.const int -1
.unit inner 3 ; in slot one
  4: return ;
.end

loop: 2:Jump @loop
.end
"

/-- It is a text of theirs. -/
lemma isText_endless : endless.IsText endlessText := by
  have hspace : Gap [' '] := ⟨by decide, by decide⟩
  have hreturn : Insn.PrintsAt 3 ⟨.ret, .none, 4, rfl⟩
      (['4'] ++ (':' :: [' ']) ++ "return".toList) :=
    .numbered (by decide) (by decide) (.bare (by decide) rfl)
  have hjump : Insn.PrintsAt 1 ⟨.jump, .label loopLabel, 2, rfl⟩
      (['2'] ++ (':' :: []) ++ ("Jump".toList ++ [' '] ++ '@' :: loopLabel.text)) :=
    .numbered (by decide) (by decide) (.label (by decide) hspace rfl)
  have hinner : Header returning.name 3 _ :=
    ⟨[' '], [' '], ['3'], hspace, hspace, by decide, rfl⟩
  have houter : Header endless.name 1 _ :=
    ⟨[' '], [' '], ['1'], hspace, hspace, by decide, rfl⟩
  have hconstant : (Plain.int (-1)).Prints ("int".toList ++ [' '] ++ ['-', '1']) :=
    .int hspace (.inr ⟨['1'], 1, rfl, by decide, rfl⟩)
  have hnested : Body 3 [] returning.code _ :=
    .insn hreturn (.decorated [' ', ' '] [' '] [] (by decide) (by decide) (by simp)) .done
  have hbody : Body 1 endless.pool endless.code _ :=
    .plain hspace hconstant (.bare (by simp)) <|
    .unit hinner (.decorated [] [' '] " in slot one".toList (by decide) (by decide)
      (by simp [returning])) hnested (.bare (by simp)) <|
    .blank (.bare (by simp)) <|
    .labelled hspace.2 hjump (.bare (by simp [loopLabel])) .done
  refine ⟨_, ⟨["; two units".toList], _, _, _, _, [[]], ?_, houter,
    .bare (by simp [endless]), hbody, .bare (by simp), ?_, rfl⟩,
    by simp [endlessText, endless, returning, loopLabel]⟩
  · exact List.forall_mem_cons.2
      ⟨.decorated [] [] " two units".toList (by decide) (by decide) (by simp), by simp⟩
  · exact List.forall_mem_cons.2 ⟨.bare (by simp), by simp⟩

/-- The text is assembled to what the units build, with the inner one in slot one. -/
theorem assemble_endlessText : endless.IsText endlessText ∧
    Source.assemble .signed endlessText = .ok ⟨"endless", 1, [0x20, 0, 0, 0, 0],
      [.int (-1), .unit ⟨"inner", 3, [0x12], [], [0, 1]⟩], [0, 1]⟩ :=
  ⟨isText_endless, (assemble_eq_ok_iff isText_endless .signed _).2 rfl⟩

end Program

end CoverProbe
