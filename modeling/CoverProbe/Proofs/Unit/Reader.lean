import CoverProbe.Proofs.Checked
import CoverProbe.Proofs.Word
import CoverProbe.Unit.Container

set_option relaxedAutoImplicit false
set_option autoImplicit false

/-!
# Exact readers

A reader is exact for a format if it succeeds on just those inputs that begin with bytes of the
format, with the value that they spell, and leaves what follows them. Exactness goes from the parts
of a reader to the whole, and a format with an exact reader spells no two values alike.

A reader of nested values is bounded in its depth, so exactness is told up to a length of the input:
what is read behind at least `least` bytes may be exact for inputs that are shorter by as many.

## Main definitions

* `CoverProbe.Container.Format` — which bytes spell which value.
* `CoverProbe.Container.Reader.Exact` — a reader accepts just a format, on inputs up to a length.

## Main results

* `CoverProbe.Container.Reader.Exact.bind` — two exact readers, one behind the other.
* `CoverProbe.Container.Reader.exact_number`, `exact_blob`, `exact_text`, `exact_items` — the parts
  of containers.
-/

namespace CoverProbe.Container

/-- Which bytes spell which value. -/
abbrev Format (α : Type) := α → List UInt8 → Prop

namespace Reader

variable {α β : Type} {F G : Format α} {bound least : Nat}

/-- On inputs of up to `bound` bytes, the reader succeeds just on those that begin with bytes of the
format. It finds the value that they spell and leaves the bytes behind them. -/
def Exact (bound : Nat) (r : Reader α) (F : Format α) : Prop :=
  ∀ bs, bs.length ≤ bound → ∀ a rest,
    r bs = .ok (a, rest) ↔ ∃ front, F a front ∧ bs = front ++ rest

/-! ## Putting readers together -/

/-- Reading one value behind another. -/
lemma run_bind_eq_ok {r : Reader α} {f : α → Reader β} {bs rest : List UInt8} {b : β} :
    (r >>= f) bs = .ok (b, rest) ↔
      ∃ a middle, r bs = .ok (a, middle) ∧ f a middle = .ok (b, rest) := by
  show (r bs >>= fun p => f p.1 p.2) = _ ↔ _
  rw [Checked.bind_eq_ok, Prod.exists]

/-- Looking at the bytes left. -/
lemma run_get {bs rest found : List UInt8} :
    (get : Reader (List UInt8)) bs = .ok (found, rest) ↔ found = bs ∧ rest = bs := by
  show Except.ok (bs, bs) = .ok (found, rest) ↔ _
  simp [eq_comm]

/-- Refusing on a condition before going on. -/
lemma run_refuse {p : Prop} [Decidable p] {cause : Fault} {next : PUnit → Reader α}
    {bs rest : List UInt8} {a : α} :
    (if p then (do let x ← throw cause; next x) else next ⟨⟩) bs = .ok (a, rest) ↔
      ¬ p ∧ next ⟨⟩ bs = .ok (a, rest) := by
  split_ifs with h
  · show Except.error cause = .ok (a, rest) ↔ _
    simp [h]
  · simp [h]

/-- Going on only under a condition. -/
lemma run_require {p : Prop} [Decidable p] {cause : Fault} {next : Reader α}
    {bs rest : List UInt8} {a : α} :
    (if p then next else (do let _ : PUnit ← throw cause; next)) bs = .ok (a, rest) ↔
      p ∧ next bs = .ok (a, rest) := by
  rw [← ite_not, @run_refuse _ (¬ p) _ cause (fun _ => next), not_not]

/-- A reader is exact for every description of its format. -/
lemma Exact.congr {r : Reader α} (h : Exact bound r F) (hFG : ∀ a front, F a front ↔ G a front) :
    Exact bound r G := by
  intro bs hbs a rest
  simp only [h bs hbs, hFG]

/-- Reading nothing. -/
lemma exact_pure (bound : Nat) (a : α) :
    Exact bound (pure a) fun b front => b = a ∧ front = [] := by
  intro bs _ b rest
  show Except.ok (a, bs) = .ok (b, rest) ↔ _
  constructor
  · intro h
    obtain ⟨rfl, rfl⟩ := Prod.mk.inj (Except.ok.inj h)
    exact ⟨[], ⟨rfl, rfl⟩, rfl⟩
  · rintro ⟨front, ⟨rfl, rfl⟩, rfl⟩
    rfl

/-- Refusing everything. -/
lemma exact_throw (bound : Nat) (cause : Fault) :
    Exact bound (throw cause : Reader α) fun _ _ => False := by
  intro bs _ a rest
  show Except.error cause = .ok (a, rest) ↔ _
  simp

/-- **Two exact readers, one behind the other, are exact** for the bytes of the two formats one
behind the other. -/
theorem Exact.bind {r : Reader α} {f : α → Reader β} {G : α → Format β}
    (hr : Exact (least + bound) r F) (hleast : ∀ a front, F a front → least ≤ front.length)
    (hf : ∀ a, Exact bound (f a) (G a)) :
    Exact (least + bound) (r >>= f) fun b front =>
      ∃ a first second, F a first ∧ G a b second ∧ front = first ++ second := by
  intro bs hbs b rest
  rw [run_bind_eq_ok]
  constructor
  · rintro ⟨a, middle, ha, hb⟩
    obtain ⟨first, hfirst, rfl⟩ := (hr _ hbs _ _).1 ha
    have hlen := hleast _ _ hfirst
    rw [List.length_append] at hbs
    obtain ⟨second, hsecond, rfl⟩ := (hf a _ (by omega) _ _).1 hb
    exact ⟨first ++ second, ⟨a, first, second, hfirst, hsecond, rfl⟩,
      (List.append_assoc _ _ _).symm⟩
  · rintro ⟨front, ⟨a, first, second, hfirst, hsecond, rfl⟩, rfl⟩
    have hlen := hleast _ _ hfirst
    rw [List.append_assoc] at hbs ⊢
    rw [List.length_append] at hbs
    exact ⟨a, second ++ rest, (hr _ (by rw [List.length_append]; omega) _ _).2 ⟨first, hfirst, rfl⟩,
      (hf a _ (by omega) _ _).2 ⟨second, hsecond, rfl⟩⟩

/-- Two exact readers, one behind the other, on inputs of any length up to the bound. -/
lemma Exact.andThen {r : Reader α} {f : α → Reader β} {G : α → Format β} (hr : Exact bound r F)
    (hf : ∀ a, Exact bound (f a) (G a)) :
    Exact bound (r >>= f) fun b front =>
      ∃ a first second, F a first ∧ G a b second ∧ front = first ++ second := by
  have hr' : Exact (0 + bound) r F := by rwa [Nat.zero_add]
  have h := hr'.bind (fun _ _ _ => Nat.zero_le _) hf
  rwa [Nat.zero_add] at h

/-- A value made of the one that is read. -/
lemma Exact.map {r : Reader α} (hr : Exact bound r F) (g : α → β) :
    Exact bound (do return g (← r)) fun b front => ∃ a, F a front ∧ b = g a := by
  refine (hr.andThen fun a => exact_pure bound (g a)).congr fun b front => ?_
  constructor
  · rintro ⟨a, first, _, hfirst, ⟨rfl, rfl⟩, rfl⟩
    exact ⟨a, by rwa [List.append_nil], rfl⟩
  · rintro ⟨a, hfront, rfl⟩
    exact ⟨a, front, [], hfront, ⟨rfl, rfl⟩, (List.append_nil _).symm⟩

/-! ## The parts of containers -/

/-- A fixed number of bytes. -/
lemma exact_take (bound count : Nat) (short : Fault) :
    Exact bound (take count short) fun bs front => bs = front ∧ front.length = count := by
  intro bs _ a rest
  simp only [take]
  split_ifs with h
  · simp only [false_iff]
    rintro ⟨front, ⟨rfl, rfl⟩, rfl⟩
    simp at h
  · rw [Except.ok.injEq, Prod.mk.injEq]
    constructor
    · rintro ⟨rfl, rfl⟩
      rw [List.length_take] at h
      exact ⟨_, ⟨rfl, by rw [List.length_take]; omega⟩, (List.take_append_drop count bs).symm⟩
    · rintro ⟨front, ⟨rfl, rfl⟩, rfl⟩
      simp

/-- A number in a fixed number of bytes. -/
lemma exact_number (bound count : Nat) :
    Exact bound (number count) fun n front =>
      front = Word.bytes count n ∧ n < 256 ^ count := by
  refine ((exact_take bound count _).map Word.value).congr fun n front => ?_
  constructor
  · rintro ⟨_, ⟨rfl, rfl⟩, rfl⟩
    exact ⟨(Word.bytes_value _).symm, Word.value_lt _⟩
  · rintro ⟨rfl, hn⟩
    exact ⟨_, ⟨rfl, Word.length_bytes count n⟩, (Word.value_bytes hn).symm⟩

/-- What stands for a word of eight bytes is read from its bytes. -/
lemma exact_word (bound : Nat) (f : UInt64 → α) :
    Exact bound (do return f (UInt64.ofNat (← number 8)))
      fun a front => ∃ word, Word.bytes 8 word.toNat = front ∧ f word = a := by
  refine ((exact_number bound 8).map _).congr fun a front => ?_
  constructor
  · rintro ⟨n, ⟨rfl, hn⟩, rfl⟩
    exact ⟨UInt64.ofNat n, by rw [UInt64.toNat_ofNat_of_lt' hn], rfl⟩
  · rintro ⟨word, rfl, rfl⟩
    exact ⟨word.toNat, ⟨rfl, word.toNat_lt⟩, by rw [UInt64.ofNat_toNat]⟩

/-- The bytes of a length. -/
lemma lengthBytes_eq_ok {n : Nat} {front : List UInt8} :
    lengthBytes n = .ok front ↔ n < 4294967296 ∧ front = Word.bytes 4 n := by
  rw [lengthBytes, Word.ofNat?]
  split_ifs with h
  · simp [h, eq_comm]
  · simp [h]

/-- The bytes of a blob. -/
lemma blobBytes_eq_ok {bs front : List UInt8} :
    blobBytes bs = .ok front ↔
      bs.length < 4294967296 ∧ front = Word.bytes 4 bs.length ++ bs := by
  rw [blobBytes, Checked.bind_eq_ok]
  constructor
  · rintro ⟨length, hlength, h⟩
    obtain ⟨hfits, rfl⟩ := lengthBytes_eq_ok.1 hlength
    exact ⟨hfits, (Except.ok.inj h).symm⟩
  · rintro ⟨hfits, rfl⟩
    exact ⟨_, lengthBytes_eq_ok.2 ⟨hfits, rfl⟩, rfl⟩

/-- A blob. -/
lemma exact_blob (bound : Nat) : Exact bound blob fun bs front => blobBytes bs = .ok front := by
  refine ((exact_number bound 4).andThen fun n => exact_take bound n _).congr fun bs front => ?_
  rw [blobBytes_eq_ok]
  constructor
  · rintro ⟨n, _, _, ⟨rfl, hn⟩, ⟨rfl, rfl⟩, rfl⟩
    exact ⟨hn, rfl⟩
  · rintro ⟨hn, rfl⟩
    exact ⟨_, _, _, ⟨rfl, hn⟩, ⟨rfl, rfl⟩, rfl⟩

/-- Bytes are read as the text that they encode. -/
lemma fromUTF8?_eq_some_iff {bs : List UInt8} {s : String} :
    String.fromUTF8? ⟨bs.toArray⟩ = some s ↔ Utf8.encode s = bs := by
  rw [String.fromUTF8?]
  constructor
  · intro h
    split_ifs at h with hvalid
    obtain rfl := Option.some.inj h
    rfl
  · rintro rfl
    exact dif_pos s.isValidUTF8

/-- A text. -/
lemma exact_text (bound : Nat) : Exact bound text fun s front => textBytes s = .ok front := by
  have hread : Exact bound text fun s front => ∃ bs first second, blobBytes bs = .ok first ∧
      (Utf8.encode s = bs ∧ second = []) ∧ front = first ++ second := by
    refine (exact_blob bound).andThen fun bs => ?_
    cases hs : String.fromUTF8? ⟨bs.toArray⟩ with
    | some s =>
      refine (exact_pure bound s).congr fun t front => and_congr_left fun _ => ?_
      rw [← fromUTF8?_eq_some_iff, hs, Option.some.injEq, eq_comm]
    | none =>
      refine (exact_throw bound _).congr fun t front => ?_
      rw [← fromUTF8?_eq_some_iff, hs]
      simp
  refine hread.congr fun s front => ?_
  rw [textBytes]
  constructor
  · rintro ⟨_, first, _, hfirst, ⟨rfl, rfl⟩, rfl⟩
    rwa [List.append_nil]
  · intro h
    exact ⟨_, front, [], h, ⟨rfl, rfl⟩, (List.append_nil _).symm⟩

/-- A truth value. -/
lemma exact_bool (bound : Nat) :
    Exact bound bool fun b front => front = [if b then 1 else 0] := by
  have hread : Exact bound bool fun b front => ∃ n first second,
      (first = Word.bytes 1 n ∧ n < 256 ^ 1) ∧ (n = (if b then 1 else 0) ∧ second = []) ∧
        front = first ++ second := by
    refine (exact_number bound 1).andThen fun n => ?_
    rcases n with _ | _ | n
    · exact (exact_pure bound false).congr fun b front => by cases b <;> simp
    · exact (exact_pure bound true).congr fun b front => by cases b <;> simp
    · exact (exact_throw bound _).congr fun b front => by cases b <;> simp
  refine hread.congr fun b front => ?_
  constructor
  · rintro ⟨n, _, _, ⟨rfl, -⟩, ⟨rfl, rfl⟩, rfl⟩
    cases b <;> rfl
  · rintro rfl
    refine ⟨if b then 1 else 0, _, [], ⟨rfl, ?_⟩, ⟨rfl, rfl⟩, ?_⟩
    · cases b <;> decide
    · cases b <;> rfl

/-- The bytes of a list of values, one behind the other. -/
def Format.list (F : Format α) : Format (List α)
  | [], front => front = []
  | a :: rest, front => ∃ first second, F a first ∧ Format.list F rest second ∧
      front = first ++ second

/-- As many values as a count says. -/
lemma exact_items {r : Reader α} (hr : Exact bound r F) (count : Nat) :
    Exact bound (items r count) fun l front => l.length = count ∧ Format.list F l front := by
  induction count with
  | zero =>
    refine (exact_pure bound []).congr fun l front => ?_
    constructor
    · rintro ⟨rfl, rfl⟩
      exact ⟨rfl, rfl⟩
    · rintro ⟨hlen, hl⟩
      obtain rfl := List.eq_nil_of_length_eq_zero hlen
      exact ⟨rfl, hl⟩
  | succ count ih =>
    refine (hr.andThen fun a => ih.map (a :: ·)).congr fun l front => ?_
    constructor
    · rintro ⟨a, first, second, hfirst, ⟨more, ⟨rfl, hmore⟩, rfl⟩, rfl⟩
      exact ⟨rfl, first, second, hfirst, hmore, rfl⟩
    · rintro ⟨hlen, hl⟩
      obtain ⟨a, more, rfl⟩ := List.exists_cons_of_length_eq_add_one hlen
      obtain ⟨first, second, hfirst, hmore, rfl⟩ := hl
      exact ⟨a, first, second, hfirst, ⟨more, ⟨Nat.succ.inj hlen, hmore⟩, rfl⟩, rfl⟩

end Reader

end CoverProbe.Container
