import CoverProbe.Proofs.Assembly.Acceptance
import CoverProbe.Proofs.Assembly.Finish
import CoverProbe.Proofs.Unit.PostOrder

set_option relaxedAutoImplicit false
set_option autoImplicit false

/-!
# What a text says to a builder

The statements between those that open and close a unit are calls to its builder: each clause is one
call at most, and a nested unit is one call, once it is finished. So every unit of a tree that is
assembled is finished by calls that its own part of the text makes.

## Main definitions

* `CoverProbe.OpenUnit.callsOf` — the calls that clauses make.
* `CoverProbe.Source.Drafts` — the calls that statements inside a unit make.
* `CoverProbe.Source.Spoken` — a unit that a part of a text speaks of.

## Main results

* `CoverProbe.Source.tells_say` — what one statement does to drafts.
* `CoverProbe.Source.spoken_of_assemble` — every unit that is assembled is finished by the calls of
  its part of the text.

## Implementation notes

Statements are read from the front, so drafts grow at their end. The invariant of the run is that the
open units, from the outermost in, are drafts one inside the other (`CoverProbe.Source.Opened`).
-/

namespace CoverProbe

open Builder

namespace Builder

variable {name : String} {firstLine : UInt32} {sign : SignConvention}

/-- Calls are made one after the other. -/
lemma build_append (calls more : List Call) :
    build name firstLine sign (calls ++ more) =
      more.foldl Call.perform (build name firstLine sign calls) := by
  rw [build, build, List.foldl_append]

/-- Constants are added one after the other. -/
lemma added_append (calls more : List Call) : added (calls ++ more) = added calls ++ added more := by
  rw [added, added, added, List.filterMap_append]

end Builder

/-! ## Clauses -/

namespace OpenUnit

/-- The call that a clause makes to the builder of a unit on source line `line`. -/
def call? (line : UInt32) : Clause → Option Call
  | .constant value => some (.constant value)
  | .label name => some (.label name)
  | .plain op arg => some (.emit line op.byte arg)
  | .jump op name => some (.jump line op.byte name)
  | .line _ | .malformed _ => none

/-- The source line behind a clause. -/
def lineAfter (line : UInt32) : Clause → UInt32
  | .line number => number
  | _ => line

/-- The calls that clauses make, one after the other. -/
def callsOf (line : UInt32) : List Clause → List Call
  | [] => []
  | clause :: rest => (call? line clause).toList ++ callsOf (lineAfter line clause) rest

variable {u v : OpenUnit}

/-- A clause that is taken makes its call. -/
lemma say_eq {clause : Clause} (h : u.say clause = .ok v) :
    v = ⟨(call? u.line clause).toList.foldl Call.perform u.builder, lineAfter u.line clause⟩ := by
  cases clause with
  | constant value => exact (Except.ok.inj h).symm
  | label name =>
    rw [say] at h
    have hperform : Call.perform u.builder (.label name) = (u.builder.label name).2 := rfl
    rcases hlabel : u.builder.label name with ⟨cause | _, builder⟩
    · rw [hlabel] at h
      cases h
    · rw [hlabel] at h hperform
      obtain rfl := Except.ok.inj h
      exact congrArg (OpenUnit.mk · u.line) hperform.symm
  | line number => exact (Except.ok.inj h).symm
  | plain op arg => exact (Except.ok.inj h).symm
  | jump op name => exact (Except.ok.inj h).symm
  | malformed cause => cases h

/-- Clauses that are taken make their calls. -/
lemma foldlM_say_eq {clauses : List Clause} (h : clauses.foldlM say u = .ok v) :
    v = ⟨(callsOf u.line clauses).foldl Call.perform u.builder,
      clauses.foldl lineAfter u.line⟩ := by
  induction clauses generalizing u with
  | nil => exact (Except.ok.inj h).symm
  | cons clause rest ih =>
    rw [List.foldlM_cons] at h
    obtain ⟨middle, hsay, hrest⟩ := Checked.bind_eq_ok.1 h
    rw [ih hrest, say_eq hsay, callsOf, List.foldl_append, List.foldl_cons]

end OpenUnit

/-- The constants that clauses add are no units. -/
def Clause.Flat (clauses : List Clause) : Prop :=
  ∀ value, .constant value ∈ clauses → value.unit? = none

/-- The constants of flat clauses hold no tree. -/
lemma OpenUnit.poolOrder_added_callsOf {clauses : List Clause} (h : Clause.Flat clauses)
    (line : UInt32) : CodeUnit.poolOrder (added (callsOf line clauses)) = [] := by
  induction clauses generalizing line with
  | nil => rw [callsOf, added, List.filterMap_nil, CodeUnit.poolOrder]
  | cons clause rest ih =>
    have hrest := ih (fun value hv => h value (List.mem_cons_of_mem _ hv)) (lineAfter line clause)
    have hfirst : CodeUnit.poolOrder (added (call? line clause).toList) = [] := by
      cases clause with
      | constant value =>
        have hadded : added (call? line (.constant value)).toList = [value] := rfl
        rw [hadded, PostOrder.poolOrder_plain (h value List.mem_cons_self), CodeUnit.poolOrder]
      | label name => exact CodeUnit.poolOrder.eq_1
      | line number => exact CodeUnit.poolOrder.eq_1
      | plain op arg => exact CodeUnit.poolOrder.eq_1
      | jump op name => exact CodeUnit.poolOrder.eq_1
      | malformed cause => exact CodeUnit.poolOrder.eq_1
    rw [callsOf, added_append, PostOrder.poolOrder_append, hfirst, hrest, List.append_nil]

namespace Clause

/-- An instruction is no constant. -/
lemma ofWords_ne_constant (value : Constant CodeUnit) (words : List (List Char)) :
    ofWords words ≠ .constant value := by
  unfold ofWords withOperand
  split
  · simp
  · split
    · simp
    · split
      · simp
      · simp
      · simp
      · simp
      · split
        · simp
        · split
          · simp
          · simp

/-- An instruction that may be missing adds no constants. -/
lemma constant_not_mem_instruction (value : Constant CodeUnit) (text : List Char) :
    .constant value ∉ instruction text := by
  rw [instruction]
  split_ifs
  · exact List.not_mem_nil
  · rw [List.mem_singleton]
    exact (ofWords_ne_constant value _).symm

/-- A line number adds no constants. -/
lemma constant_not_mem_numbered {value : Constant CodeUnit} {following : List Clause}
    (h : .constant value ∉ following) (head : List Char) :
    .constant value ∉ numbered head following := by
  rw [numbered]
  cases Decimal.word head with
  | ok number => simpa using h
  | error cause => simp

/-- What stands behind a label adds no constants. -/
lemma constant_not_mem_afterHead (value : Constant CodeUnit) (text : List Char) :
    .constant value ∉ afterHead text := by
  rw [afterHead]
  cases colon? text with
  | none => exact constant_not_mem_instruction value text
  | some split =>
    dsimp only
    split_ifs
    · exact constant_not_mem_numbered (constant_not_mem_instruction value _) _
    · exact constant_not_mem_instruction value text

/-- A line of code adds no constants. -/
lemma constant_not_mem_ofLine (value : Constant CodeUnit) (text : List Char) :
    .constant value ∉ ofLine text := by
  rw [ofLine]
  cases colon? text with
  | none => exact constant_not_mem_instruction value text
  | some split =>
    dsimp only
    split_ifs
    · exact constant_not_mem_instruction value text
    · exact constant_not_mem_numbered (constant_not_mem_afterHead value _) _
    · simpa using constant_not_mem_afterHead value split.2

end Clause

/-- A constant that a text spells is no unit. -/
lemma Literal.unit?_constant {text : List Char} {value : Constant CodeUnit}
    (h : constant text = .ok value) : value.unit? = none := by
  unfold constant at h
  dsimp only at h
  split at h
  · obtain rfl := Except.ok.inj h
    rfl
  · obtain rfl := Except.ok.inj h
    rfl
  · obtain rfl := Except.ok.inj h
    rfl
  · obtain ⟨n, -, rfl⟩ := Checked.map_eq_ok.1 h
    rfl
  · obtain ⟨x, -, rfl⟩ := Checked.map_eq_ok.1 h
    rfl
  · obtain ⟨s, -, rfl⟩ := Checked.map_eq_ok.1 h
    rfl
  · obtain ⟨bs, -, rfl⟩ := Checked.map_eq_ok.1 h
    rfl
  · cases h

/-- What a line says of the open unit is flat: units are nested by lines of their own. -/
lemma Statement.flat_of_ofLine {text : List Char} {clauses : List Clause}
    (h : ofLine text = .body clauses) : Clause.Flat clauses := by
  intro value hvalue
  unfold ofLine at h
  split at h
  · cases h
  · split_ifs at h
    split at h
    · split at h
      · rename_i c hc
        obtain rfl := Statement.body.inj h
        obtain rfl := Clause.constant.inj (List.mem_singleton.1 hvalue)
        exact Literal.unit?_constant hc
      · obtain rfl := Statement.body.inj h
        simp at hvalue
    · obtain rfl := Statement.body.inj h
      exact absurd hvalue (Clause.constant_not_mem_ofLine value text)

/-! ## Units -/

namespace Source

open OpenUnit

/-- The statements `said` inside a unit with base line `firstLine` make the calls `calls` to its
builder, and the line behind them is `line`. A nested unit is finished from its own draft. -/
inductive Drafts (sign : SignConvention) :
    (firstLine : UInt32) → (said : List Statement) → (calls : List Call) → (line : UInt32) → Prop
  | nil {firstLine : UInt32} : Drafts sign firstLine [] [] firstLine
  | body {firstLine line : UInt32} {said : List Statement} {calls : List Call}
      {clauses : List Clause} (hflat : Clause.Flat clauses)
      (h : Drafts sign firstLine said calls line) :
      Drafts sign firstLine (said ++ [.body clauses]) (calls ++ callsOf line clauses)
        (clauses.foldl lineAfter line)
  | unit {firstLine line base last : UInt32} {said inner : List Statement}
      {calls nestedCalls : List Call} {name : String} {nested : CodeUnit}
      (h : Drafts sign firstLine said calls line) (hinner : Drafts sign base inner nestedCalls last)
      (hfinish : (build name base sign nestedCalls).finish .standard = .ok nested) :
      Drafts sign firstLine (said ++ .open (.ok (name, base)) :: (inner ++ [.close]))
        (calls ++ [.unit nested]) line

/-- A part of the text opens the unit, drafts it by `calls` and closes it; the unit is what these
calls finish. -/
def Spoken (sign : SignConvention) (said : List Statement) (u : CodeUnit) (calls : List Call) :
    Prop :=
  ∃ before inner after line,
    said = before ++ .open (.ok (u.name, u.firstLine)) :: (inner ++ .close :: after) ∧
      Drafts sign u.firstLine inner calls line ∧
      (build u.name u.firstLine sign calls).finish .standard = .ok u

variable {sign : SignConvention} {said : List Statement} {calls : List Call} {u : CodeUnit}

/-- What part of a text speaks of, the text speaks of. -/
lemma Spoken.append (h : Spoken sign said u calls) (before after : List Statement) :
    Spoken sign (before ++ (said ++ after)) u calls := by
  obtain ⟨front, inner, back, line, rfl, hdrafts, hfinish⟩ := h
  exact ⟨before ++ front, inner, back ++ after, line, by simp, hdrafts, hfinish⟩

/-- A unit that is opened, drafted, closed and finished is spoken of. -/
lemma spoken_of_finish {name : String} {base last : UInt32} {inner : List Statement}
    (hinner : Drafts sign base inner calls last)
    (hfinish : (build name base sign calls).finish .standard = .ok u) :
    Spoken sign (.open (.ok (name, base)) :: (inner ++ [.close])) u calls := by
  obtain ⟨hname, hfirst, -⟩ := head_build name base sign calls
  obtain ⟨-, -, -, -, huname, hufirst, -⟩ := finish_eq_ok.1 hfinish
  rw [hname] at huname
  rw [hfirst] at hufirst
  refine ⟨[], inner, [], last, ?_, hufirst ▸ hinner, huname ▸ hufirst ▸ hfinish⟩
  rw [huname, hufirst]
  rfl

/-- Every unit of a tree that a draft finishes is spoken of, if those nested in the draft are. -/
lemma spoken_of_nestedOrder {name : String} {base last : UInt32} {inner : List Statement}
    (hinner : Drafts sign base inner calls last)
    (hfinish : (build name base sign calls).finish .standard = .ok u)
    (hpool : ∀ v ∈ CodeUnit.poolOrder (added calls), ∃ calls', Spoken sign inner v calls') :
    ∀ v ∈ u.nestedOrder,
      ∃ calls', Spoken sign (.open (.ok (name, base)) :: (inner ++ [.close])) v calls' := by
  intro v hv
  obtain ⟨-, -, -, -, -, -, hconsts⟩ := finish_eq_ok.1 hfinish
  rw [PostOrder.nestedOrder_eq, hconsts, consts_build, List.mem_append, List.mem_singleton] at hv
  rcases hv with hv | rfl
  · obtain ⟨calls', hspoken⟩ := hpool v hv
    exact ⟨calls', hspoken.append [.open (.ok (name, base))] [.close]⟩
  · exact ⟨calls, spoken_of_finish hinner hfinish⟩

/-- **Every unit nested in a draft is spoken of there**, at any depth. -/
lemma Drafts.spoken {firstLine line : UInt32} (h : Drafts sign firstLine said calls line) :
    ∀ v ∈ CodeUnit.poolOrder (added calls), ∃ calls', Spoken sign said v calls' := by
  induction h with
  | nil =>
    intro v hv
    rw [added, List.filterMap_nil, CodeUnit.poolOrder] at hv
    exact absurd hv List.not_mem_nil
  | body hflat h ih =>
    intro v hv
    rw [added_append, PostOrder.poolOrder_append, poolOrder_added_callsOf hflat,
      List.append_nil] at hv
    obtain ⟨calls', hspoken⟩ := ih v hv
    exact ⟨calls', hspoken.append [] _⟩
  | @unit firstLine line base last said inner calls nestedCalls name nested h hinner hfinish ih
      ihinner =>
    intro v hv
    have hadded : CodeUnit.poolOrder (added [.unit nested]) = nested.nestedOrder := by
      show CodeUnit.poolOrder [.unit nested] = _
      rw [CodeUnit.poolOrder, CodeUnit.poolOrder, List.append_nil]
    rw [added_append, PostOrder.poolOrder_append, hadded, List.mem_append] at hv
    rcases hv with hv | hv
    · obtain ⟨calls', hspoken⟩ := ih v hv
      exact ⟨calls', hspoken.append [] _⟩
    · obtain ⟨calls', hspoken⟩ := spoken_of_nestedOrder hinner hfinish ihinner v hv
      refine ⟨calls', ?_⟩
      have hwithin := hspoken.append said []
      rwa [List.append_nil] at hwithin

/-! ## Texts -/

/-- The units that are open, the innermost first, are drafts one inside the other. -/
inductive Opened (sign : SignConvention) : (said : List Statement) → List OpenUnit → Prop
  | nil : Opened sign [] []
  | cons {said inner : List Statement} {outer : List OpenUnit} {name : String} {base line : UInt32}
      {calls : List Call} (houter : Opened sign said outer)
      (hinner : Drafts sign base inner calls line) :
      Opened sign (said ++ .open (.ok (name, base)) :: inner)
        (⟨build name base sign calls, line⟩ :: outer)

/-- What has been said has described a part: open drafts, or a tree of which every unit is spoken
of. -/
def Tells (sign : SignConvention) (said : List Statement) : Assembly → Prop
  | .within units => Opened sign said units
  | .complete root => ∀ u ∈ root.nestedOrder, ∃ calls, Spoken sign said u calls

/-- A unit that is closed is a call to the one around it, or the root. -/
lemma Opened.close {v : OpenUnit} {outer : List OpenUnit} {nested : CodeUnit}
    (h : Opened sign said (v :: outer)) (hfinish : v.builder.finish .standard = .ok nested) :
    Tells sign (said ++ [.close]) (Program.closed outer nested) := by
  cases h with
  | cons houter hinner =>
    cases houter with
    | nil =>
      rw [List.nil_append]
      exact spoken_of_nestedOrder hinner hfinish hinner.spoken
    | @cons said' inner' _ name' base' line' calls' houter' hinner' =>
      have hopened : Opened sign _ (⟨build name' base' sign _, line'⟩ :: _) :=
        houter'.cons (hinner'.unit hinner hfinish)
      rw [build_concat] at hopened
      rw [List.append_assoc, List.cons_append, List.append_assoc, List.cons_append]
      exact hopened

/-- **One statement more**: what it does to the open units is one step of their drafts. -/
lemma tells_say {part next : Assembly} {text : List Char} (h : Tells sign said part)
    (hsay : part.say sign (.ofLine text) = .ok next) :
    Tells sign (said ++ [.ofLine text]) next := by
  rcases Assembly.say_cases hsay with ⟨name, firstLine, units, hstatement, rfl, rfl⟩ |
    ⟨u, outer, nested, hstatement, rfl, hfinish, rfl⟩ |
    ⟨clauses, u, outer, v, hstatement, rfl, hclauses, rfl⟩
  · rw [hstatement]
    exact Opened.cons h .nil
  · rw [hstatement]
    exact Opened.close h hfinish
  · have hflat := Statement.flat_of_ofLine hstatement
    rw [hstatement, foldlM_say_eq hclauses]
    cases h with
    | cons houter hinner =>
      rw [← build_append, List.append_assoc, List.cons_append]
      exact houter.cons (hinner.body hflat)

/-- The statements of a text. -/
def statements (source : String) : List Statement :=
  (cores source).map .ofLine

/-- Statements tell the part they describe, behind what was said before. -/
lemma tells_foldlM {part final : Assembly} {lines : List (List Char)} (h : Tells sign said part)
    (hsay : lines.foldlM (Assembly.sayLine sign) part = .ok final) :
    Tells sign (said ++ lines.map .ofLine) final := by
  induction lines generalizing part said with
  | nil =>
    obtain rfl := Except.ok.inj hsay
    rwa [List.map_nil, List.append_nil]
  | cons core rest ih =>
    rw [List.foldlM_cons] at hsay
    obtain ⟨next, hline, hrest⟩ := Checked.bind_eq_ok.1 hsay
    rw [List.map_cons, List.append_cons]
    exact ih (tells_say h hline) hrest

/-- **Every unit that is assembled is spoken of**: it is what the calls finish that its part of the
text makes.

**Proof sketch.** Induction along the lines. The open units are drafts one inside the other, which
each statement continues (`tells_say`); a unit that is closed is a call to the draft around it, and
every unit nested in a draft is spoken of there (`Drafts.spoken`). -/
theorem spoken_of_assemble {source : String} {root : CodeUnit}
    (h : assemble sign source = .ok root) :
    ∀ u ∈ root.nestedOrder, ∃ calls, Spoken sign (statements source) u calls := by
  obtain ⟨part, hread, hpart⟩ := Checked.bind_eq_ok.1 h
  have hnothing : Tells sign [] (.within []) := Opened.nil
  have htells : Tells sign (statements source) part :=
    tells_foldlM hnothing (foldlM_coresOf hread)
  cases part with
  | within units => cases units <;> cases hpart
  | complete closed =>
    obtain rfl := Except.ok.inj hpart
    exact htells

end Source

end CoverProbe
