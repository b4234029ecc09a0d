/-
# Computations that return

`Returns x P`: the computation `x` does not fail, and `P` holds of what it returns.
The rules below follow the shape of a program: a value, a step followed by the
rest, a check, a loop.  `FailsOnly E x` is the other half: if `x` fails, then with
an error that has `E`.
-/

import Mathlib.Tactic.TypeStar

namespace Especial
namespace Lib

universe u v
variable {ε : Type u} {α β : Type v} {P Q : α → Prop}

/-- The computation returns a value with `P`. -/
def Returns (x : Except ε α) (P : α → Prop) : Prop := ∃ a, x = .ok a ∧ P a

namespace Returns

/-- A value returns. -/
theorem pure {a : α} (h : P a) : Returns (Pure.pure a : Except ε α) P := ⟨a, rfl, h⟩

/-- A step followed by the rest. -/
theorem bind {x : Except ε α} {f : α → Except ε β} {R : β → Prop} (hx : Returns x P)
    (hf : ∀ a, P a → Returns (f a) R) : Returns (x >>= f) R := by
  obtain ⟨a, rfl, ha⟩ := hx
  exact hf a ha

/-- A weaker property. -/
theorem mono {x : Except ε α} (hx : Returns x P) (h : ∀ a, P a → Q a) : Returns x Q := by
  obtain ⟨a, hx, ha⟩ := hx
  exact ⟨a, hx, h a ha⟩

/-- What a computation returns has every property it is shown to return with. -/
theorem of_eq_ok {x : Except ε α} {a : α} (hx : Returns x P) (h : x = .ok a) : P a := by
  obtain ⟨b, hb, hP⟩ := hx
  rw [h] at hb
  rw [Except.ok.inj hb]
  exact hP

/-- A loop whose body keeps `P`. -/
theorem foldlM {ι : Type v} {f : α → ι → Except ε α} {xs : List ι} {a : α}
    (hf : ∀ a, ∀ x ∈ xs, P a → Returns (f a x) P) (ha : P a) :
    Returns (xs.foldlM f a) P := by
  induction xs generalizing a with
  | nil => exact pure ha
  | cons x xs ih =>
    rw [List.foldlM_cons]
    exact (hf a x (List.mem_cons_self ..) ha).bind fun b hb =>
      ih (fun a y hy => hf a y (List.mem_cons_of_mem _ hy)) hb

end Returns

/-- A computation that is not an error has returned. -/
theorem toOption_eq_some {x : Except ε α} {a : α} : x.toOption = some a ↔ x = .ok a := by
  cases x <;> simp [Except.toOption]

/-- What a loop returns has every property that each turn keeps when it returns. -/
theorem foldlM_invariant {ι : Type v} {f : α → ι → Except ε α} {xs : List ι} {a b : α}
    (hf : ∀ a b, ∀ x ∈ xs, P a → f a x = .ok b → P b) (ha : P a)
    (h : xs.foldlM f a = .ok b) : P b := by
  induction xs generalizing a with
  | nil =>
    obtain rfl := Except.ok.inj h
    exact ha
  | cons x xs ih =>
    rw [List.foldlM_cons] at h
    cases hx : f a x with
    | error e =>
      rw [hx] at h
      exact absurd h (by simp [bind, Except.bind])
    | ok c =>
      rw [hx] at h
      exact ih (fun a b y hy => hf a b y (List.mem_cons_of_mem _ hy))
        (hf a c x (List.mem_cons_self ..) ha hx) h

/-- A loop returns exactly if every turn does, where that is seen from the input alone. -/
theorem foldlM_returns_iff {ι : Type v} {f : α → ι → Except ε α} {A : ι → Prop}
    (hP : ∀ a b x, P a → f a x = .ok b → P b)
    (hf : ∀ a x, P a → ((∃ b, f a x = .ok b) ↔ A x))
    {xs : List ι} {a : α} (ha : P a) : (∃ b, xs.foldlM f a = .ok b) ↔ ∀ x ∈ xs, A x := by
  induction xs generalizing a with
  | nil => exact iff_of_true ⟨a, rfl⟩ fun x hx => absurd hx List.not_mem_nil
  | cons x xs ih =>
    rw [List.forall_mem_cons, ← hf a x ha, List.foldlM_cons]
    cases hx : f a x with
    | error e =>
      refine iff_of_false ?_ ?_
      · rintro ⟨b, hb⟩
        cases hb
      · rintro ⟨⟨b, hb⟩, -⟩
        cases hb
    | ok c => exact (ih (hP a c x ha hx)).trans (iff_and_self.2 fun _ => ⟨c, rfl⟩)

/-- If the computation fails, then with an error that has `E`. -/
def FailsOnly (E : ε → Prop) (x : Except ε α) : Prop := ∀ e, x = .error e → E e

namespace FailsOnly

variable {E : ε → Prop}

/-- A value is no failure. -/
theorem pure (a : α) : FailsOnly E (Pure.pure a : Except ε α) := by
  intro e h
  cases h

/-- One computation after another fails as one of them does. -/
theorem bind {x : Except ε α} {f : α → Except ε β} (hx : FailsOnly E x)
    (hf : ∀ a, FailsOnly E (f a)) : FailsOnly E (x >>= f) := by
  cases x with
  | error e => exact fun e' h => hx e' (congrArg Except.error (Except.error.inj h))
  | ok a => exact hf a

/-- A loop whose body keeps `P`, and fails in this way where `P` holds. -/
theorem foldlM_of_invariant {ι : Type v} {f : α → ι → Except ε α} {xs : List ι} {a : α}
    (hP : ∀ a b, ∀ x ∈ xs, P a → f a x = .ok b → P b)
    (hf : ∀ a, ∀ x ∈ xs, P a → FailsOnly E (f a x)) (ha : P a) :
    FailsOnly E (xs.foldlM f a) := by
  induction xs generalizing a with
  | nil => exact pure a
  | cons x xs ih =>
    have hx := hf a x (List.mem_cons_self ..) ha
    rw [List.foldlM_cons]
    cases hfx : f a x with
    | error e => exact fun e' h => hx e' (hfx.trans (congrArg Except.error (Except.error.inj h)))
    | ok b =>
      exact ih (fun a b y hy => hP a b y (List.mem_cons_of_mem _ hy))
        (fun a y hy => hf a y (List.mem_cons_of_mem _ hy)) (hP a b x (List.mem_cons_self ..) ha hfx)

/-- A loop fails as one of its turns does. -/
theorem foldlM {ι : Type v} {f : α → ι → Except ε α} (hf : ∀ a x, FailsOnly E (f a x))
    (xs : List ι) (a : α) : FailsOnly E (xs.foldlM f a) :=
  foldlM_of_invariant (P := fun _ => True) (fun _ _ _ _ _ _ => trivial)
    (fun a x _ _ => hf a x) trivial

end FailsOnly

end Lib
end Especial
