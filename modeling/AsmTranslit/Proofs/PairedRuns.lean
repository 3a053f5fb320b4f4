import Mathlib.Data.List.Forall2

/-!
# Paired runs

Two computations that may fail, side by side.  Their results are paired if both fail, or if both
succeed with related values; where gains are allowed, the second may also succeed alone.  Each way to
put computations together keeps pairs, so two runs of one program are compared step by step.
-/

namespace AsmTranslit

universe u v w

/-- How the results of two runs go together.  With `gains`, the second run may succeed where the first
one fails. -/
inductive Paired {ε ε' : Type u} {α β : Type v} (gains : Prop) (R : α → β → Prop) :
    Except ε α → Except ε' β → Prop
  | ok {a : α} {b : β} (related : R a b) : Paired gains R (.ok a) (.ok b)
  | error (e : ε) (e' : ε') : Paired gains R (.error e) (.error e')
  | gained (allowed : gains) (e : ε) (b : β) : Paired gains R (.error e) (.ok b)

/-- What related members have in common, their lists have in common. -/
theorem map_eq_of_forall₂ {α β γ : Type v} {R : α → β → Prop} {f : α → γ} {g : β → γ} {xs : List α}
    {ys : List β} (h : List.Forall₂ R xs ys) (same : ∀ x y, R x y → f x = g y) :
    xs.map f = ys.map g := by
  induction h with
  | nil => rfl
  | cons first _ ih => rw [List.map_cons, List.map_cons, same _ _ first, ih]

namespace Paired

variable {ε ε' : Type u} {α β γ δ : Type v} {gains : Prop} {R : α → β → Prop} {S : γ → δ → Prop}
  {x : Except ε α} {y : Except ε' β}

theorem same (x : Except ε α) : Paired gains Eq x x := by
  cases x with
  | error e => exact .error e e
  | ok a => exact .ok rfl

theorem mono {R' : α → β → Prop} (h : Paired gains R x y) (weaker : ∀ a b, R a b → R' a b) :
    Paired gains R' x y := by
  cases h with
  | ok related => exact .ok (weaker _ _ related)
  | error e e' => exact .error e e'
  | gained allowed e b => exact .gained allowed e b

theorem remember (h : Paired gains R x y) : Paired gains (fun a b => x = .ok a ∧ R a b) x y := by
  cases h with
  | ok related => exact .ok ⟨rfl, related⟩
  | error e e' => exact .error e e'
  | gained allowed e b => exact .gained allowed e b

theorem remember_second (h : Paired gains R x y) :
    Paired gains (fun a b => y = .ok b ∧ R a b) x y := by
  cases h with
  | ok related => exact .ok ⟨rfl, related⟩
  | error e e' => exact .error e e'
  | gained allowed e b => exact .gained allowed e b

theorem of_error (allowed : gains) (e : ε) (y : Except ε' β) : Paired gains R (.error e) y := by
  cases y with
  | error e' => exact .error e e'
  | ok b => exact .gained allowed e b

theorem exists_of_eq_ok {a : α} (h : Paired gains R x y) (first : x = .ok a) :
    ∃ b, y = .ok b ∧ R a b := by
  cases h with
  | ok related =>
    obtain rfl := Except.ok.inj first
    exact ⟨_, rfl, related⟩
  | error => cases first
  | gained => cases first

/-- Without gains, the two runs fail alike and show the same. -/
theorem toOption_map_eq {first : α → γ} {second : β → γ}
    (h : Paired False (fun a b => first a = second b) x y) :
    y.toOption.map second = x.toOption.map first := by
  cases h with
  | ok related => exact congrArg some related.symm
  | error => rfl
  | gained allowed => exact allowed.elim

theorem toOption_eq {y : Except ε' α} (h : Paired False Eq x y) : y.toOption = x.toOption := by
  have shown : Paired False (fun a b => id a = id b) x y := h
  simpa using shown.toOption_map_eq

theorem of_toOption_eq {y : Except ε' α} (h : y.toOption = x.toOption) : Paired gains Eq x y := by
  cases x with
  | error e =>
    cases y with
    | error e' => exact .error e e'
    | ok b => cases h
  | ok a =>
    cases y with
    | error e' => cases h
    | ok b => exact .ok (Option.some.inj h).symm

theorem bind {f : α → Except ε γ} {g : β → Except ε' δ} (h : Paired gains R x y)
    (step : ∀ a b, R a b → Paired gains S (f a) (g b)) : Paired gains S (x >>= f) (y >>= g) := by
  cases h with
  | ok related => exact step _ _ related
  | error e e' => exact .error e e'
  | gained allowed e b => exact .of_error allowed e _

theorem bind_eq {y : Except ε' α} {f : α → Except ε γ} {g : α → Except ε' δ} (h : Paired gains Eq x y)
    (step : ∀ a, Paired gains S (f a) (g a)) : Paired gains S (x >>= f) (y >>= g) := by
  apply h.bind
  rintro a _ rfl
  exact step a

theorem map {f : α → γ} {g : β → δ} (h : Paired gains R x y) (step : ∀ a b, R a b → S (f a) (g b)) :
    Paired gains S (x.map f) (y.map g) := by
  cases h with
  | ok related => exact .ok (step _ _ related)
  | error e e' => exact .error e e'
  | gained allowed e b => exact .gained allowed e (g b)

theorem mapError {ι ι' : Type u} {f : ε → ι} {g : ε' → ι'} (h : Paired gains R x y) :
    Paired gains R (x.mapError f) (y.mapError g) := by
  cases h with
  | ok related => exact .ok related
  | error e e' => exact .error (f e) (g e')
  | gained allowed e b => exact .gained allowed (f e) b

/-- Steps that go together member by member go together as lists. -/
theorem mapM {Q : γ → δ → Prop} {f : γ → Except ε α} {g : δ → Except ε' β} {xs : List γ} {ys : List δ}
    (h : List.Forall₂ Q xs ys) (step : ∀ c d, Q c d → Paired gains R (f c) (g d)) :
    Paired gains (List.Forall₂ R) (xs.mapM f) (ys.mapM g) := by
  induction h with
  | nil => exact .ok .nil
  | cons first _ ih =>
    rw [List.mapM_cons, List.mapM_cons]
    apply (step _ _ first).bind
    intro a b related
    apply ih.bind
    intro as bs later
    exact .ok (.cons related later)

theorem mapM_eq {f g : γ → Except ε α} (step : ∀ c, Paired gains Eq (f c) (g c)) (xs : List γ) :
    Paired gains Eq (xs.mapM f) (xs.mapM g) := by
  have self : List.Forall₂ Eq xs xs := List.forall₂_same.2 fun _ _ => rfl
  have lists : Paired gains (List.Forall₂ Eq) (xs.mapM f) (xs.mapM g) := by
    apply mapM self
    rintro c _ rfl
    exact step c
  apply lists.mono
  intro as bs equal
  rwa [List.forall₂_eq_eq_eq] at equal

/-- Walks along one list that agree at every step agree at the end. -/
theorem foldlM_eq {f g : α → γ → Except ε α} (step : ∀ a c, Paired gains Eq (f a c) (g a c)) (a : α)
    (xs : List γ) : Paired gains Eq (xs.foldlM f a) (xs.foldlM g a) := by
  induction xs generalizing a with
  | nil => exact .same _
  | cons c cs ih =>
    rw [List.foldlM_cons, List.foldlM_cons]
    exact (step a c).bind_eq ih

end Paired

end AsmTranslit
