import CoverProbe.Proofs.Assembly.Acceptance
import CoverProbe.Proofs.Assembly.Finish
import CoverProbe.Proofs.Assembly.Strings

set_option relaxedAutoImplicit false
set_option autoImplicit false

/-!
# A line that adds a constant

A line that adds a constant to an open unit changes nothing else: the tree of the text is the tree
without the line, but for the constant in the pool of that unit. Two runs are compared, with the line
and without it; behind the line they differ in that pool alone, and no other line looks at it.

## Main definitions

* `CoverProbe.Pool.Inserts` — a constant put into the pool of a unit of a tree.
* `CoverProbe.Assembly.Differs` — parts that differ by a constant.

## Main results

* `CoverProbe.Assembly.Differs.say` — a statement keeps parts apart by the constant.
* `CoverProbe.Source.assemble_string` — a line that adds a string adds just that.
-/

namespace CoverProbe

/-! ## Pools -/

/-- The second pool is the first with a constant in slot `slot` of the unit that the slots `path`
lead to, or of the pool itself if there are none. -/
inductive Pool.Inserts (value : Constant CodeUnit) (slot : Nat) :
    (path : List Nat) → Pool → Pool → Prop
  | here {front back : Pool} (h : front.length = slot) :
      Inserts value slot [] (front ++ back) (front ++ value :: back)
  | nested {path : List Nat} {front back consts : Pool} {u : CodeUnit}
      (h : Inserts value slot path u.consts consts) :
      Inserts value slot (front.length :: path) (front ++ .unit u :: back)
        (front ++ .unit { u with consts } :: back)

/-- A constant is added in the next slot. -/
lemma Pool.Inserts.last {value : Constant CodeUnit} {pool : Pool} :
    Inserts value pool.length [] pool (pool ++ [value]) := by
  have h := @here value pool.length pool [] rfl
  rwa [List.append_nil] at h

/-- Constants may be added behind. -/
lemma Pool.Inserts.append {value : Constant CodeUnit} {slot : Nat} {path : List Nat}
    {pool more : Pool} (h : Inserts value slot path pool more) (behind : Pool) :
    Inserts value slot path (pool ++ behind) (more ++ behind) := by
  cases h with
  | here h =>
    rw [List.append_assoc, List.append_assoc]
    exact .here h
  | nested h =>
    rw [List.append_assoc, List.append_assoc]
    exact .nested h

/-! ## Builders -/

/-- The pool does not bear on the code and the lines of a unit. -/
lemma Builder.finish_withConsts {b : Builder} {u : CodeUnit} (h : b.finish .standard = .ok u)
    (consts : Pool) : { b with consts }.finish .standard = .ok { u with consts } := by
  obtain ⟨insns, hinsns, hcode, htable, hname, hfirst, -⟩ := finish_eq_ok.1 h
  exact finish_eq_ok.2 ⟨insns, hinsns, hcode, htable, hname, hfirst, rfl⟩

namespace OpenUnit

variable {value : Constant CodeUnit} {slot : Nat} {path : List Nat} {u v : OpenUnit}

/-- The open unit with another pool. -/
def withConsts (u : OpenUnit) (consts : Pool) : OpenUnit :=
  { u with builder := { u.builder with consts } }

/-- A clause does not look at the pool; a constant is added behind. -/
lemma say_withConsts {clause : Clause} (h : u.say clause = .ok v) (consts : Pool)
    (hconsts : Pool.Inserts value slot path u.builder.consts consts) :
    ∃ consts', (u.withConsts consts).say clause = .ok (v.withConsts consts') ∧
      Pool.Inserts value slot path v.builder.consts consts' := by
  cases clause with
  | constant c =>
    obtain rfl := Except.ok.inj h
    exact ⟨consts ++ [c], rfl, hconsts.append [c]⟩
  | label name =>
    rw [say, Builder.label] at h
    have hlabels : (u.withConsts consts).builder.labels = u.builder.labels := rfl
    rw [say, Builder.label, hlabels]
    cases hlookup : u.builder.labels.lookup name with
    | some k =>
      rw [hlookup] at h
      cases h
    | none =>
      rw [hlookup] at h
      obtain rfl := Except.ok.inj h
      exact ⟨consts, rfl, hconsts⟩
  | line number =>
    obtain rfl := Except.ok.inj h
    exact ⟨consts, rfl, hconsts⟩
  | plain op arg =>
    obtain rfl := Except.ok.inj h
    exact ⟨consts, rfl, hconsts⟩
  | jump op name =>
    obtain rfl := Except.ok.inj h
    exact ⟨consts, rfl, hconsts⟩
  | malformed cause => cases h

/-- Clauses do not look at the pool. -/
lemma foldlM_say_withConsts {clauses : List Clause} (h : clauses.foldlM say u = .ok v)
    (consts : Pool) (hconsts : Pool.Inserts value slot path u.builder.consts consts) :
    ∃ consts', clauses.foldlM say (u.withConsts consts) = .ok (v.withConsts consts') ∧
      Pool.Inserts value slot path v.builder.consts consts' := by
  induction clauses generalizing u consts with
  | nil =>
    obtain rfl := Except.ok.inj h
    exact ⟨consts, rfl, hconsts⟩
  | cons clause rest ih =>
    rw [List.foldlM_cons] at h
    obtain ⟨middle, hsay, hrest⟩ := Checked.bind_eq_ok.1 h
    obtain ⟨consts', hsay', hconsts'⟩ := say_withConsts hsay consts hconsts
    obtain ⟨consts'', hrest', hconsts''⟩ := ih hrest consts' hconsts'
    refine ⟨consts'', ?_, hconsts''⟩
    rw [List.foldlM_cons, hsay']
    exact hrest'

end OpenUnit

/-! ## Parts -/

namespace Assembly

/-- The slots that lead to a unit that is open inside the units `outer`, from the root on. -/
def pathTo (outer : List OpenUnit) : List Nat :=
  (outer.map (·.builder.consts.length)).reverse

/-- The parts differ by the constant `value` in slot `slot` of the unit that `path` leads to. It is
in an open unit, or in one that is closed. -/
inductive Differs (value : Constant CodeUnit) (slot : Nat) (path : List Nat) :
    Assembly → Assembly → Prop
  | within (newer : List OpenUnit) {outer : List OpenUnit} {u : OpenUnit} {consts : Pool}
      {below : List Nat} (hconsts : Pool.Inserts value slot below u.builder.consts consts)
      (hpath : pathTo outer ++ below = path) :
      Differs value slot path (.within (newer ++ u :: outer))
        (.within (newer ++ u.withConsts consts :: outer))
  | complete {root : CodeUnit} {consts : Pool}
      (hconsts : Pool.Inserts value slot path root.consts consts) :
      Differs value slot path (.complete root) (.complete { root with consts })

variable {value : Constant CodeUnit} {slot : Nat} {path : List Nat} {sign : SignConvention}
  {part more next : Assembly}

/-- A nested unit is put into its slot, whatever else is open. -/
lemma differs_closed {newer outer : List OpenUnit} {u : OpenUnit} {consts : Pool}
    {below : List Nat} (hconsts : Pool.Inserts value slot below u.builder.consts consts)
    (hpath : pathTo outer ++ below = path) (nested : CodeUnit) :
    Differs value slot path (Program.closed (newer ++ u :: outer) nested)
      (Program.closed (newer ++ u.withConsts consts :: outer) nested) := by
  cases newer with
  | nil =>
    rw [List.nil_append, List.nil_append]
    exact .within [] (hconsts.append [.unit nested]) hpath
  | cons v newer =>
    exact .within (_ :: newer) hconsts hpath

/-- **The unit with the constant is put into its slot**, or is the root. -/
lemma differs_closed_unit {nested : CodeUnit} {outer : List OpenUnit} {consts : Pool}
    {below : List Nat} (hconsts : Pool.Inserts value slot below nested.consts consts)
    (hpath : pathTo outer ++ below = path) :
    Differs value slot path (Program.closed outer nested)
      (Program.closed outer { nested with consts }) := by
  cases outer with
  | nil =>
    obtain rfl : below = path := hpath
    exact .complete hconsts
  | cons parent above =>
    rw [pathTo, List.map_cons, List.reverse_cons, List.append_assoc] at hpath
    exact .within [] (.nested hconsts) hpath

/-- Closing a unit that is finished puts it into its slot. -/
lemma say_close_of_finish {u : OpenUnit} {outer : List OpenUnit} {nested : CodeUnit}
    (h : u.builder.finish .standard = .ok nested) :
    (within (u :: outer)).say sign .close = .ok (Program.closed outer nested) := by
  rw [← Checked.toOption_eq_some, Program.say_close, h]
  rfl

/-- Clauses speak of the innermost unit. -/
lemma say_body {u v : OpenUnit} {clauses : List Clause} (h : clauses.foldlM OpenUnit.say u = .ok v)
    (outer : List OpenUnit) :
    (within (u :: outer)).say sign (.body clauses) = .ok (within (v :: outer)) := by
  rw [say, h]
  rfl

/-- **A statement keeps parts apart by the constant**, and is taken with it if it is without.

The unit with the constant may be the innermost one or not. If it is not, the statement does not
reach it, but for a nested unit that is put behind its constants. -/
lemma Differs.say {statement : Statement} (h : Differs value slot path part more)
    (hsay : part.say sign statement = .ok next) :
    ∃ next', more.say sign statement = .ok next' ∧ Differs value slot path next next' := by
  cases h with
  | complete hconsts => cases hsay
  | @within newer outer u consts below hconsts hpath =>
    rcases say_cases hsay with ⟨name, firstLine, units, rfl, hpart, rfl⟩ |
      ⟨v, around, nested, rfl, hpart, hfinish, rfl⟩ | ⟨clauses, v, around, w, rfl, hpart, hfold, rfl⟩
    · obtain rfl := Assembly.within.inj hpart
      exact ⟨_, Program.say_open _ _ _, .within (_ :: newer) hconsts hpath⟩
    · have hunits := Assembly.within.inj hpart
      cases newer with
      | nil =>
        obtain ⟨rfl, rfl⟩ := List.cons.inj hunits
        obtain ⟨-, -, -, -, -, -, hpool⟩ := Builder.finish_eq_ok.1 hfinish
        rw [← hpool] at hconsts
        exact ⟨_, say_close_of_finish (Builder.finish_withConsts hfinish consts),
          differs_closed_unit hconsts hpath⟩
      | cons top newer =>
        obtain ⟨rfl, rfl⟩ := List.cons.inj hunits
        exact ⟨_, say_close_of_finish hfinish, differs_closed hconsts hpath nested⟩
    · have hunits := Assembly.within.inj hpart
      cases newer with
      | nil =>
        obtain ⟨rfl, rfl⟩ := List.cons.inj hunits
        obtain ⟨consts', hfold', hconsts'⟩ := OpenUnit.foldlM_say_withConsts hfold consts hconsts
        exact ⟨_, say_body hfold' _, .within [] hconsts' hpath⟩
      | cons top newer =>
        obtain ⟨rfl, rfl⟩ := List.cons.inj hunits
        exact ⟨_, say_body hfold _, .within (w :: newer) hconsts hpath⟩

/-- Lines keep parts apart by the constant. -/
lemma Differs.foldlM {lines : List (List Char)} (h : Differs value slot path part more)
    (hread : lines.foldlM (Source.readLine? sign) part = some next) :
    ∃ next', lines.foldlM (Source.readLine? sign) more = some next' ∧
      Differs value slot path next next' := by
  induction lines generalizing part more with
  | nil =>
    obtain rfl := Option.some.inj hread
    exact ⟨more, rfl, h⟩
  | cons line rest ih =>
    rw [List.foldlM_cons] at hread
    obtain ⟨middle, hline, hrest⟩ := Option.bind_eq_some_iff.1 hread
    have hmore : ∃ middle', Source.readLine? sign more line = some middle' ∧
        Differs value slot path middle middle' := by
      unfold Source.readLine? at hline ⊢
      dsimp only at hline ⊢
      split_ifs at hline ⊢ with hempty
      · obtain rfl := Option.some.inj hline
        exact ⟨more, rfl, h⟩
      · obtain ⟨middle', hsay, hmiddle⟩ := h.say (Checked.toOption_eq_some.1 hline)
        exact ⟨middle', Checked.toOption_eq_some.2 hsay, hmiddle⟩
    obtain ⟨middle', hline', hmiddle⟩ := hmore
    obtain ⟨next', hrest', hnext⟩ := ih hmiddle hrest
    refine ⟨next', ?_, hnext⟩
    rw [List.foldlM_cons, hline']
    exact hrest'

end Assembly

/-! ## Texts -/

namespace Source

variable {sign : SignConvention}

/-- A text is assembled exactly if its lines lead to a root that is closed. -/
lemma assemble_eq_ok_iff_foldlM {source : String} {lines : List (List Char)} {root : CodeUnit}
    (h : ∀ line ∈ lines, '\n' ∉ line) (hsource : source.toList = ['\n'].intercalate lines) :
    assemble sign source = .ok root ↔
      lines.foldlM (readLine? sign) (.within []) = some (.complete root) := by
  rw [← Checked.toOption_eq_some, toOption_assemble sign h hsource, Option.bind_eq_some_iff]
  constructor
  · rintro ⟨part, hpart, hroot⟩
    cases part with
    | within units => cases hroot
    | complete final =>
      obtain rfl := Option.some.inj hroot
      exact hpart
  · exact fun hlines => ⟨_, hlines, rfl⟩

/-- A line that adds a string, read inside a unit. -/
lemma readLine?_string {s : String} {text line : List Char} (htext : Literal.Directive s text)
    (hline : Program.Line text line) (u : OpenUnit) (outer : List OpenUnit) :
    readLine? sign (.within (u :: outer)) line =
      some (.within ({ u with builder := u.builder.addConstant (.str s) } :: outer)) := by
  obtain ⟨htrim, hne, hstatement⟩ := htext.reads hline
  rw [readLine?, htrim, if_neg hne, hstatement]
  rfl

/-- **A line that adds a string adds just that**, whatever the string contains. In a text whose lines
`before` leave the unit `u` open inside the units `outer`, and that is accepted with the lines
`after` behind them, the line puts the string into the next slot of that unit. The text with the
line is accepted, and its tree is the tree without the line, but for that constant in that pool.

**Proof sketch.** The line is read as its string (`Literal.Directive.reads`). Behind it, the parts
described with it and without it differ by the constant, which no line changes
(`Assembly.Differs.foldlM`). -/
theorem assemble_string {s source more : String} {text line : List Char}
    {before after : List (List Char)} {u : OpenUnit} {outer : List OpenUnit} {root : CodeUnit}
    (htext : Literal.Directive s text) (hline : Program.Line text line)
    (hlines : ∀ given ∈ before ++ after, '\n' ∉ given)
    (hsource : source.toList = ['\n'].intercalate (before ++ after))
    (hmore : more.toList = ['\n'].intercalate (before ++ line :: after))
    (hinside : readLines sign 1 (.within []) before = .ok (.within (u :: outer)))
    (hroot : assemble sign source = .ok root) :
    readLines sign 1 (.within []) (before ++ [line]) =
        .ok (.within ({ u with builder := u.builder.addConstant (.str s) } :: outer)) ∧
      ∃ consts, assemble sign more = .ok { root with consts } ∧
        Pool.Inserts (.str s) u.builder.consts.length (Assembly.pathTo outer) root.consts
          consts := by
  have hbefore : before.foldlM (readLine? sign) (.within []) = some (.within (u :: outer)) := by
    rw [← toOption_readLines sign 1, hinside]
    rfl
  have hadded : (before ++ [line]).foldlM (readLine? sign) (.within []) =
      some (.within ({ u with builder := u.builder.addConstant (.str s) } :: outer)) := by
    rw [List.foldlM_append, hbefore]
    exact (bind_pure _).trans (readLine?_string htext hline u outer)
  refine ⟨?_, ?_⟩
  · rw [← Checked.toOption_eq_some, toOption_readLines]
    exact hadded
  have hlines' : ∀ given ∈ before ++ line :: after, '\n' ∉ given := by
    obtain ⟨hbehind, hahead⟩ := List.forall_mem_append.1 hlines
    exact List.forall_mem_append.2 ⟨hbehind, List.forall_mem_cons.2 ⟨hline.1, hahead⟩⟩
  -- Without the line, the lines behind lead from the unit to the root.
  have hrest : after.foldlM (readLine? sign) (.within (u :: outer)) = some (.complete root) := by
    rw [assemble_eq_ok_iff_foldlM hlines hsource, List.foldlM_append, hbefore] at hroot
    exact hroot
  -- With it, they lead from a part that differs by the string.
  have hdiffers : Assembly.Differs (.str s) u.builder.consts.length (Assembly.pathTo outer)
      (.within (u :: outer))
      (.within ({ u with builder := u.builder.addConstant (.str s) } :: outer)) :=
    .within [] .last (List.append_nil _)
  obtain ⟨final, hfinal, hdiffer⟩ := hdiffers.foldlM hrest
  cases hdiffer with
  | @complete _ consts hconsts =>
    refine ⟨consts, ?_, hconsts⟩
    rw [assemble_eq_ok_iff_foldlM hlines' hmore, List.append_cons, List.foldlM_append, hadded]
    exact hfinal

/-- A unit with one constant. -/
def outerOpen : OpenUnit :=
  ⟨{ name := "outer", firstLine := 1, sign := .signed, consts := [.int 7] }, 1⟩

/-- A unit without constants. -/
def innerOpen : OpenUnit :=
  ⟨{ name := "inner", firstLine := 3, sign := .signed }, 3⟩

/-- A string with a quote, a semicolon behind a backslash and a line feed, in a unit inside another
one, on a line whose comment has quotes. -/
theorem assemble_string_quoted :
    readLines .signed 1 (.within []) [".unit outer 1".toList, ".const int 7".toList,
        ".unit inner 3".toList, "  .const str \"a\\\"b\\\\;\\n\" ; not \"here\"".toList] =
      .ok (.within
        [⟨innerOpen.builder.addConstant (.str "a\"b\\;\n"), innerOpen.line⟩, outerOpen]) ∧
    ∃ consts, assemble .signed (".unit outer 1\n.const int 7\n.unit inner 3\n" ++
        "  .const str \"a\\\"b\\\\;\\n\" ; not \"here\"\n4: return\n.end\n.end") =
          .ok ⟨"outer", 1, [], consts, []⟩ ∧
      Pool.Inserts (.str "a\"b\\;\n") 0 [1]
        [.int 7, .unit ⟨"inner", 3, [0x12], [], [0, 1]⟩] consts := by
  have hspace : Program.Gap [' '] := ⟨by decide, by decide⟩
  have hescapes : Literal.Escapes "a\"b\\;\n".toList "a\\\"b\\\\;\\n".toList :=
    .char (by decide) (by decide) (by decide) <| .quote <|
    .char (by decide) (by decide) (by decide) <| .backslash <|
    .char (by decide) (by decide) (by decide) <| .newline .nil
  have htext : Literal.Directive "a\"b\\;\n" ".const str \"a\\\"b\\\\;\\n\"".toList :=
    ⟨[' '], [' '], _, hspace, hspace, hescapes, rfl⟩
  have hline : Program.Line ".const str \"a\\\"b\\\\;\\n\"".toList
      "  .const str \"a\\\"b\\\\;\\n\" ; not \"here\"".toList :=
    .decorated [' ', ' '] [' '] " not \"here\"".toList (by decide) (by decide) (by decide)
  have hinside : readLines .signed 1 (.within []) [".unit outer 1".toList, ".const int 7".toList,
      ".unit inner 3".toList] = .ok (.within [innerOpen, outerOpen]) := rfl
  have hroot : assemble .signed
      ".unit outer 1\n.const int 7\n.unit inner 3\n4: return\n.end\n.end" =
        .ok ⟨"outer", 1, [], [.int 7, .unit ⟨"inner", 3, [0x12], [], [0, 1]⟩], []⟩ := rfl
  exact @assemble_string _ _ _ _ _ _ _ ["4: return".toList, ".end".toList, ".end".toList] _ _ _
    htext hline (by decide) rfl rfl hinside hroot

end Source

end CoverProbe
