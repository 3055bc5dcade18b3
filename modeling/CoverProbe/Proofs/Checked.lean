import Mathlib.Data.List.Forall2

set_option relaxedAutoImplicit false
set_option autoImplicit false

/-!
# Checked computations

What the success of a checked computation says about its steps. Decoders, encoders and checks of
this library are sequences of such steps; each fact below peels one step off.

## Main results

* `CoverProbe.Checked.bind_eq_ok`, `mapError_eq_ok`, `map_eq_ok` — a sequence succeeds when its
  steps do.
* `CoverProbe.Checked.mapM_eq_ok`, `mapM_eq_ok_iff_getElem?`, `forM_eq_ok` — a traversal succeeds
  when it does at every element.
* `CoverProbe.Checked.toOption_eq_some`, `toOption_bind` — a computation whose fault does not matter.
* `CoverProbe.Checked.run_bind`, `run_map`, `run_adapt` — the steps of a computation that also
  draws from a source, run from a state of it; `run_bind_eq_ok` and `run_adapt_eq_ok` tell when they
  succeed.
* `CoverProbe.Checked.Agree.bind`, `Alike.bind` — two computations that agree in each step agree.
-/

namespace CoverProbe.Checked

variable {ε ε' α β : Type}

/-- A sequence of two steps succeeds exactly when both do, one after the other. -/
theorem bind_eq_ok {x : Except ε α} {f : α → Except ε β} {b : β} :
    x >>= f = .ok b ↔ ∃ a, x = .ok a ∧ f a = .ok b := by
  cases x with
  | error e => simp [bind, Except.bind]
  | ok a => simp [bind, Except.bind]

/-- Renaming faults keeps successes. -/
theorem mapError_eq_ok {x : Except ε α} {f : ε → ε'} {a : α} :
    x.mapError f = .ok a ↔ x = .ok a := by
  cases x with
  | error e => simp [Except.mapError]
  | ok a => simp [Except.mapError]

/-- A computation whose result is changed succeeds when it did before. -/
theorem map_eq_ok {x : Except ε α} {f : α → β} {b : β} :
    x.map f = .ok b ↔ ∃ a, x = .ok a ∧ f a = b := by
  cases x with
  | error e => simp [Except.map]
  | ok a => simp [Except.map]

/-- A traversal succeeds exactly with the results of its elements. -/
theorem mapM_eq_ok {f : α → Except ε β} {l : List α} {out : List β} :
    l.mapM f = .ok out ↔ List.Forall₂ (fun a b => f a = .ok b) l out := by
  induction l generalizing out with
  | nil =>
    rw [List.mapM_nil, List.forall₂_nil_left_iff]
    exact ⟨fun h => (Except.ok.inj h).symm, fun h => by rw [h]; rfl⟩
  | cons a l ih =>
    rw [List.mapM_cons, bind_eq_ok, List.forall₂_cons_left_iff]
    constructor
    · rintro ⟨b, hb, h⟩
      obtain ⟨bs, hbs, h⟩ := bind_eq_ok.1 h
      exact ⟨b, bs, hb, ih.1 hbs, (Except.ok.inj h).symm⟩
    · rintro ⟨b, bs, hb, hbs, rfl⟩
      exact ⟨b, hb, bind_eq_ok.2 ⟨bs, ih.2 hbs, rfl⟩⟩

/-- A traversal succeeds exactly when it does at every element. -/
theorem exists_mapM_eq_ok {f : α → Except ε β} {l : List α} :
    (∃ out, l.mapM f = .ok out) ↔ ∀ a ∈ l, ∃ b, f a = .ok b := by
  induction l with
  | nil => exact ⟨fun _ => by simp, fun _ => ⟨[], rfl⟩⟩
  | cons a l ih =>
    rw [List.forall_mem_cons, ← ih, List.mapM_cons]
    constructor
    · rintro ⟨out, h⟩
      obtain ⟨b, hb, h⟩ := bind_eq_ok.1 h
      obtain ⟨bs, hbs, -⟩ := bind_eq_ok.1 h
      exact ⟨⟨b, hb⟩, bs, hbs⟩
    · rintro ⟨⟨b, hb⟩, bs, hbs⟩
      exact ⟨b :: bs, by rw [hb, hbs]; rfl⟩

/-- A traversal succeeds exactly with as many results as there are elements, each of its own
element. -/
theorem mapM_eq_ok_iff_getElem? {f : α → Except ε β} {l : List α} {out : List β} :
    l.mapM f = .ok out ↔ out.length = l.length ∧
      ∀ (k : Nat) a b, l[k]? = some a → out[k]? = some b → f a = .ok b := by
  rw [mapM_eq_ok, List.forall₂_iff_get]
  constructor
  · rintro ⟨hlen, h⟩
    refine ⟨hlen.symm, fun k a b ha hb => ?_⟩
    obtain ⟨hk, rfl⟩ := List.getElem?_eq_some_iff.1 ha
    obtain ⟨hk', rfl⟩ := List.getElem?_eq_some_iff.1 hb
    exact h k hk hk'
  · rintro ⟨hlen, h⟩
    exact ⟨hlen.symm, fun k hk hk' =>
      h k _ _ (List.getElem?_eq_getElem hk) (List.getElem?_eq_getElem hk')⟩

/-- A traversal whose steps all succeed is a map. -/
theorem mapM_eq_map {f : α → Except ε β} {g : α → β} {l : List α}
    (h : ∀ a ∈ l, f a = .ok (g a)) : l.mapM f = .ok (l.map g) := by
  rw [mapM_eq_ok, List.forall₂_map_right_iff, List.forall₂_same]
  exact h

/-- A pass over a list succeeds exactly when it does at every element. -/
theorem forM_eq_ok {f : α → Except ε Unit} {l : List α} :
    l.forM f = .ok () ↔ ∀ a ∈ l, f a = .ok () := by
  induction l with
  | nil => exact ⟨fun _ => by simp, fun _ => rfl⟩
  | cons a l ih =>
    rw [List.forM, bind_eq_ok, ih, List.forall_mem_cons]
    constructor
    · rintro ⟨_, ha, hl⟩
      exact ⟨ha, hl⟩
    · rintro ⟨ha, hl⟩
      exact ⟨(), ha, hl⟩

/-! ## Faults forgotten -/

/-- What is left of a success is its result. -/
theorem toOption_eq_some {x : Except ε α} {a : α} : x.toOption = some a ↔ x = .ok a := by
  cases x with
  | error e => simp [Except.toOption]
  | ok b => simp [Except.toOption]

/-- A sequence of two steps is one with faults forgotten, too. -/
theorem toOption_bind (x : Except ε α) (f : α → Except ε β) :
    (x >>= f).toOption = x.toOption.bind fun a => (f a).toOption := by
  cases x <;> rfl

/-! ## Computations that draw -/

variable {ρ : Type}

/-- The second step runs from the state that the first leaves, if that succeeds. -/
theorem run_bind (x : ExceptT ε (StateM ρ) α) (f : α → ExceptT ε (StateM ρ) β) (s : ρ) :
    (x >>= f).run.run s = match x.run.run s with
      | (.error e, s') => (.error e, s')
      | (.ok a, s') => (f a).run.run s' := by
  rw [ExceptT.run_bind, StateT.run_bind]
  show (match x.run.run s with | (a, s') => _) = _
  rcases x.run.run s with ⟨_ | a, s'⟩
  · rfl
  · rfl

/-- Two steps succeed exactly when both do, the second from the state that the first leaves. -/
theorem run_bind_eq_ok {x : ExceptT ε (StateM ρ) α} {f : α → ExceptT ε (StateM ρ) β} {s s' : ρ}
    {b : β} : (x >>= f).run.run s = (.ok b, s') ↔
      ∃ a s₁, x.run.run s = (.ok a, s₁) ∧ (f a).run.run s₁ = (.ok b, s') := by
  constructor
  · intro h
    rw [run_bind] at h
    rcases hx : x.run.run s with ⟨e | a, s₁⟩
    · rw [hx] at h
      exact absurd (Prod.mk.inj h).1 (by simp)
    · rw [hx] at h
      exact ⟨a, s₁, rfl, h⟩
  · rintro ⟨a, s₁, hx, hf⟩
    rw [run_bind, hx]
    exact hf

/-- A map keeps the state and the fault. -/
theorem run_map (x : ExceptT ε (StateM ρ) α) (f : α → β) (s : ρ) :
    (f <$> x).run.run s = ((x.run.run s).1.map f, (x.run.run s).2) := by
  rw [ExceptT.run_map, StateT.run_map]
  rfl

/-- Renaming faults keeps the state and the result. -/
theorem run_adapt (x : ExceptT ε (StateM ρ) α) (f : ε → ε') (s : ρ) :
    (x.adapt f).run.run s = ((x.run.run s).1.mapError f, (x.run.run s).2) := rfl

/-- Renaming faults keeps successes. -/
theorem run_adapt_eq_ok {x : ExceptT ε (StateM ρ) α} {f : ε → ε'} {s s' : ρ} {a : α} :
    (x.adapt f).run.run s = (.ok a, s') ↔ x.run.run s = (.ok a, s') := by
  constructor
  · intro h
    obtain ⟨hok, hstate⟩ := Prod.mk.inj h
    exact Prod.ext (mapError_eq_ok.1 hok) hstate
  · intro h
    rw [run_adapt, h]
    rfl

/-! ## Two computations -/

section Pairs

variable {γ δ : Type} {R : α → γ → Prop} {S : β → δ → Prop}

/-- Two computations agree: both fail with the same fault, or both succeed with results in the
relation. -/
inductive Agree (R : α → γ → Prop) : Except ε α → Except ε γ → Prop
  | error (fault : ε) : Agree R (.error fault) (.error fault)
  | ok {a : α} {c : γ} (h : R a c) : Agree R (.ok a) (.ok c)

/-- A computation agrees with itself. -/
theorem Agree.refl (x : Except ε α) : Agree Eq x x := by
  cases x with
  | error fault => exact .error fault
  | ok a => exact .ok rfl

/-- Computations that agree in the same results are the same. -/
theorem Agree.eq {R : α → α → Prop} {x y : Except ε α} (h : Agree R x y)
    (hR : ∀ a c, R a c → a = c) : x = y := by
  cases h with
  | error fault => rfl
  | ok h => rw [hR _ _ h]

/-- What agrees has results of the two computations. -/
theorem Agree.results {x : Except ε α} {y : Except ε γ} (h : Agree R x y) :
    Agree (fun a c => x = .ok a ∧ y = .ok c ∧ R a c) x y := by
  cases h with
  | error fault => exact .error fault
  | ok h => exact .ok ⟨rfl, rfl, h⟩

/-- Where one of two computations that agree succeeds, so does the other. -/
theorem Agree.exists_of_ok {x : Except ε α} {y : Except ε γ} {a : α} (h : Agree R x y)
    (hx : x = .ok a) : ∃ c, y = .ok c ∧ R a c := by
  cases h with
  | error fault => simp at hx
  | ok h =>
    obtain rfl := Except.ok.inj hx
    exact ⟨_, rfl, h⟩

/-- Two computations that agree in each step agree. -/
theorem Agree.bind {x : Except ε α} {y : Except ε γ} {f : α → Except ε β} {g : γ → Except ε δ}
    (h : Agree R x y) (hfg : ∀ a c, R a c → Agree S (f a) (g c)) :
    Agree S (x >>= f) (y >>= g) := by
  cases h with
  | error fault => exact .error fault
  | ok h => exact hfg _ _ h

/-- Renaming the faults of two computations alike keeps them in agreement. -/
theorem Agree.mapError {x : Except ε α} {y : Except ε γ} (h : Agree R x y) (f : ε → ε') :
    Agree R (x.mapError f) (y.mapError f) := by
  cases h with
  | error fault => exact .error (f fault)
  | ok h => exact .ok h

/-- Traversals whose steps agree agree. -/
theorem Agree.mapM {f : α → Except ε β} {g : γ → Except ε δ} {l : List α} {m : List γ}
    (h : List.Forall₂ (fun a c => Agree S (f a) (g c)) l m) :
    Agree (List.Forall₂ S) (l.mapM f) (m.mapM g) := by
  induction h with
  | nil => exact .ok .nil
  | cons hfg _ ih =>
    rw [List.mapM_cons, List.mapM_cons]
    apply hfg.bind
    intro b d hbd
    apply ih.bind
    intro bs ds hrest
    exact .ok (.cons hbd hrest)

/-- Two computations that draw end alike: they agree, and leave the same state. -/
def Alike (R : α → γ → Prop) (x : Except ε α × ρ) (y : Except ε γ × ρ) : Prop :=
  Agree R x.1 y.1 ∧ x.2 = y.2

/-- Two computations whose steps end alike end alike. -/
theorem Alike.bind {x : ExceptT ε (StateM ρ) α} {y : ExceptT ε (StateM ρ) γ}
    {f : α → ExceptT ε (StateM ρ) β} {g : γ → ExceptT ε (StateM ρ) δ} {s : ρ}
    (h : Alike R (x.run.run s) (y.run.run s))
    (hfg : ∀ a c, R a c → ∀ s', Alike S ((f a).run.run s') ((g c).run.run s')) :
    Alike S ((x >>= f).run.run s) ((y >>= g).run.run s) := by
  rw [run_bind, run_bind]
  rcases hx : x.run.run s with ⟨xr, s₁⟩
  rcases hy : y.run.run s with ⟨yr, s₂⟩
  rw [hx, hy] at h
  obtain ⟨hagree, hstate⟩ := h
  obtain rfl : s₁ = s₂ := hstate
  cases hagree with
  | error fault => exact ⟨.error fault, rfl⟩
  | ok h => exact hfg _ _ h s₁

/-- Renaming the faults of two computations alike lets them end alike. -/
theorem Alike.adapt {x : ExceptT ε (StateM ρ) α} {y : ExceptT ε (StateM ρ) γ} {s : ρ}
    (h : Alike R (x.run.run s) (y.run.run s)) (f : ε → ε') :
    Alike R ((x.adapt f).run.run s) ((y.adapt f).run.run s) := by
  rw [run_adapt, run_adapt]
  exact ⟨h.1.mapError f, h.2⟩

end Pairs

end CoverProbe.Checked
