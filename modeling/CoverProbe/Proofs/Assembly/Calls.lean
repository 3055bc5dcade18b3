import CoverProbe.Assembly.Builder
import CoverProbe.Proofs.Checked
import Mathlib.Data.List.Induction
import Mathlib.Tactic.Lemma

set_option relaxedAutoImplicit false
set_option autoImplicit false

/-!
# Calls to a builder

A unit is built by a sequence of calls that add constants, nested units and instructions and bind
names. What a builder holds after them is told by the calls alone.

## Main definitions

* `CoverProbe.Builder.Call` — a call, `Call.perform` its effect.
* `CoverProbe.Builder.build` — the builder after a sequence of calls.
* `CoverProbe.Builder.emitted`, `CoverProbe.Builder.added` — the instructions and the constants added.
* `CoverProbe.Builder.Binds` — the item that a name is bound to.

## Main results

* `CoverProbe.Builder.toList_items_build`, `consts_build` — a builder holds what was added, in order.
* `CoverProbe.Builder.lookup_build` — and finds the newest binding of a name.
-/

namespace CoverProbe.Builder

/-! ## Calls -/

/-- A call to a builder. -/
inductive Call
  | constant (value : Constant CodeUnit)
  | unit (nested : CodeUnit)
  | label (name : String)
  | emit (line : UInt32) (opcode : UInt8) (arg : Option UInt32)
  | jump (line : UInt32) (opcode : UInt8) (name : String)

namespace Call

/-- The builder after a call. A name bound again has its new binding. -/
def perform (b : Builder) : Call → Builder
  | constant value => b.addConstant value
  | unit nested => b.addConstant (.unit nested)
  | label name => (b.label name).2
  | emit line opcode arg => b.emit line opcode arg
  | jump line opcode name => b.jump line opcode name

/-- The constant that a call adds, if it adds one. -/
def constant? : Call → Option (Constant CodeUnit)
  | constant value => some value
  | unit nested => some (.unit nested)
  | _ => none

/-- The item that a call adds, if it adds one. -/
def item? : Call → Option Item
  | emit line opcode none => some ⟨opcode, .none, line⟩
  | emit line opcode (some value) => some ⟨opcode, .immediate value, line⟩
  | jump line opcode name => some ⟨opcode, .label name, line⟩
  | _ => none

/-- A call adds its constant behind those there are. -/
@[simp] lemma consts_perform (b : Builder) (c : Call) :
    (c.perform b).consts = b.consts ++ c.constant?.toList := by
  cases c with
  | constant value => rfl
  | unit nested => rfl
  | label name =>
    rw [perform, Builder.label]
    cases b.labels.lookup name <;> exact (List.append_nil _).symm
  | emit line opcode arg => exact (List.append_nil _).symm
  | jump line opcode name => exact (List.append_nil _).symm

/-- A call adds its item behind those there are. -/
@[simp] lemma toList_items_perform (b : Builder) (c : Call) :
    (c.perform b).items.toList = b.items.toList ++ c.item?.toList := by
  cases c with
  | constant value => exact (List.append_nil _).symm
  | unit nested => exact (List.append_nil _).symm
  | label name =>
    rw [perform, Builder.label]
    cases b.labels.lookup name <;> exact (List.append_nil _).symm
  | emit line opcode arg => cases arg <;> exact Array.toList_push
  | jump line opcode name => exact Array.toList_push

/-- Only a call that binds a name changes what names are bound to. -/
lemma labels_perform (b : Builder) (c : Call) :
    (∃ name, c = label name ∧
      (c.perform b).labels = (name, b.items.toList.length) :: b.labels) ∨
      ((∀ name, c ≠ label name) ∧ (c.perform b).labels = b.labels) := by
  cases c with
  | label name =>
    refine .inl ⟨name, rfl, ?_⟩
    rw [perform, Builder.label]
    cases b.labels.lookup name <;> rfl
  | _ => exact .inr ⟨nofun, rfl⟩

/-- Calls do not change the head of a unit. -/
@[simp] lemma head_perform (b : Builder) (c : Call) : (c.perform b).name = b.name ∧
    (c.perform b).firstLine = b.firstLine ∧ (c.perform b).sign = b.sign := by
  cases c with
  | label name =>
    rw [perform, Builder.label]
    cases b.labels.lookup name <;> exact ⟨rfl, rfl, rfl⟩
  | _ => exact ⟨rfl, rfl, rfl⟩

end Call

/-! ## Sequences of calls -/

/-- The builder after a sequence of calls. -/
def build (name : String) (firstLine : UInt32) (sign : SignConvention) (calls : List Call) :
    Builder :=
  calls.foldl Call.perform { name, firstLine, sign }

/-- The constants added by calls, in order. -/
def added (calls : List Call) : Pool :=
  calls.filterMap Call.constant?

/-- The instructions added by calls, in order. -/
def emitted (calls : List Call) : List Item :=
  calls.filterMap Call.item?

/-- The newest binding of a name by the calls stands before item number `k`, or behind the last item
for the number of items. -/
def Binds (calls : List Call) (name : String) (k : Nat) : Prop :=
  ∃ before after, calls = before ++ .label name :: after ∧ .label name ∉ after ∧
    k = (emitted before).length

variable {name : String} {firstLine : UInt32} {sign : SignConvention} {calls : List Call}

lemma build_concat (calls : List Call) (c : Call) :
    build name firstLine sign (calls ++ [c]) = c.perform (build name firstLine sign calls) := by
  rw [build, List.foldl_append]
  rfl

@[simp] lemma emitted_concat (calls : List Call) (c : Call) :
    emitted (calls ++ [c]) = emitted calls ++ c.item?.toList := by
  rw [emitted, List.filterMap_append]
  cases h : c.item? <;> simp [emitted, h]

/-- A builder keeps the head it began with. -/
lemma head_build (name : String) (firstLine : UInt32) (sign : SignConvention) (calls : List Call) :
    (build name firstLine sign calls).name = name ∧
      (build name firstLine sign calls).firstLine = firstLine ∧
      (build name firstLine sign calls).sign = sign := by
  induction calls using List.reverseRecOn with
  | nil => exact ⟨rfl, rfl, rfl⟩
  | append_singleton calls c ih => simpa only [build_concat, Call.head_perform] using ih

/-- **A builder holds the constants added**, in order. -/
theorem consts_build : (build name firstLine sign calls).consts = added calls := by
  induction calls using List.reverseRecOn with
  | nil => rfl
  | append_singleton calls c ih =>
    rw [build_concat, Call.consts_perform, ih, added, added, List.filterMap_append]
    cases h : c.constant? <;> simp [h]

/-- **A builder holds the instructions added**, in order. -/
theorem toList_items_build : (build name firstLine sign calls).items.toList = emitted calls := by
  induction calls using List.reverseRecOn with
  | nil => rfl
  | append_singleton calls c ih => rw [build_concat, Call.toList_items_perform, ih, emitted_concat]

/-! ## Bindings -/

/-- A call of a sequence is its last one, or stands before that. -/
lemma concat_eq_append_cons {before after : List Call} {c d : Call}
    (h : calls ++ [c] = before ++ d :: after) :
    (after = [] ∧ before = calls ∧ d = c) ∨
      ∃ middle, after = middle ++ [c] ∧ calls = before ++ d :: middle := by
  rcases List.eq_nil_or_concat' after with rfl | ⟨middle, last, rfl⟩
  · obtain ⟨rfl, hlast⟩ := List.append_inj' h rfl
    exact .inl ⟨rfl, rfl, (List.cons.inj hlast).1.symm⟩
  · rw [← List.cons_append, ← List.append_assoc] at h
    obtain ⟨rfl, hlast⟩ := List.append_inj' h rfl
    exact .inr ⟨middle, by rw [hlast], rfl⟩

/-- A name bound last is bound behind all items. -/
lemma binds_concat_label {k : Nat} :
    Binds (calls ++ [.label name]) name k ↔ k = (emitted calls).length := by
  constructor
  · rintro ⟨before, after, heq, hnew, rfl⟩
    rcases concat_eq_append_cons heq with ⟨-, rfl, -⟩ | ⟨middle, rfl, -⟩
    · rfl
    · exact absurd (List.mem_append_right _ (List.mem_singleton_self _)) hnew
  · rintro rfl
    exact ⟨calls, [], rfl, List.not_mem_nil, rfl⟩

/-- A call that does not bind a name keeps its binding. -/
lemma binds_concat_of_ne {c : Call} (h : c ≠ .label name) {k : Nat} :
    Binds (calls ++ [c]) name k ↔ Binds calls name k := by
  constructor
  · rintro ⟨before, after, heq, hnew, rfl⟩
    rcases concat_eq_append_cons heq with ⟨-, -, hc⟩ | ⟨middle, rfl, rfl⟩
    · exact absurd hc.symm h
    · exact ⟨before, middle, rfl, fun hm => hnew (List.mem_append_left _ hm), rfl⟩
  · rintro ⟨before, after, rfl, hnew, rfl⟩
    refine ⟨before, after ++ [c], by simp, fun hm => ?_, rfl⟩
    rcases List.mem_append.1 hm with hm | hm
    · exact hnew hm
    · exact h (List.mem_singleton.1 hm).symm

/-- **A builder finds the newest binding of a name.**

**Proof sketch.** Induction along the calls. The newest call is the newest binding of its own name,
and leaves every other name as it was. -/
theorem lookup_build (wanted : String) (k : Nat) :
    (build name firstLine sign calls).labels.lookup wanted = some k ↔ Binds calls wanted k := by
  induction calls using List.reverseRecOn with
  | nil =>
    constructor
    · intro h
      simp [build] at h
    · rintro ⟨before, after, heq, -, -⟩
      simp at heq
  | append_singleton calls c ih =>
    rw [build_concat]
    rcases c.labels_perform (build name firstLine sign calls) with
      ⟨bound, rfl, hlabels⟩ | ⟨hother, hlabels⟩
    · rw [hlabels, toList_items_build]
      by_cases hname : wanted = bound
      · subst hname
        rw [List.lookup_cons_self, binds_concat_label, Option.some.injEq, eq_comm]
      · rw [List.lookup_cons, beq_eq_false_iff_ne.2 hname]
        dsimp only
        rw [ih, binds_concat_of_ne]
        exact fun heq => hname (Call.label.inj heq).symm
    · rw [hlabels, ih, binds_concat_of_ne (hother wanted)]

end CoverProbe.Builder
