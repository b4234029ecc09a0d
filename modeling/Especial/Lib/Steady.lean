/-
# More turns do not change a result

A program with loops takes a bound for their turns (`Especial.Lib.Settles`).  It is *steady*
if a result that it has under one bound is its result under every larger one.  All programs
that are put together from loops are: the parts of a program are (`Steady.bind`,
`Steady.ite`), and so are loops whose bodies are (`Steady.whileM`, `Steady.loopM`).

With that a program is run by evaluating it under one bound (`Steady.settles`).
-/

import Especial.Lib.Settles

namespace Especial
namespace Lib

universe u
variable {ε σ ρ α β : Type u}
variable {x : ℕ → ExceptT ε Option α} {y : α → ℕ → ExceptT ε Option β}

/-- A result under one bound is the result under every larger one. -/
def Steady (x : ℕ → ExceptT ε Option α) : Prop :=
  ∀ n r, (x n).run = some r → ∀ m ≥ n, (x m).run = some r

/-- **A steady program returns what it returns under one bound.** -/
theorem Steady.settles (h : Steady x) {n : ℕ} {a : α} (hrun : (x n).run = some (.ok a)) :
    Settles x (· = a) :=
  ⟨a, n, h n _ hrun, rfl⟩

/-- A program without loops is steady. -/
theorem Steady.const (x : ExceptT ε Option α) : Steady fun _ => x := fun _ _ h _ _ => h

/-- One steady program after another is steady. -/
theorem Steady.bind (hx : Steady x) (hy : ∀ a, Steady (y a)) :
    Steady fun n => x n >>= fun a => y a n := by
  intro n r hrun m hm
  rw [ExceptT.run_bind] at hrun ⊢
  cases hn : (x n).run with
  | none =>
    rw [hn] at hrun
    cases hrun
  | some e =>
    rw [hn] at hrun
    rw [hx n e hn m hm]
    cases e with
    | error e => exact hrun
    | ok a => exact hy a n r hrun m hm

/-- A choice between steady programs is steady. -/
theorem Steady.ite {c : Prop} [Decidable c] {z : ℕ → ExceptT ε Option α} (hx : Steady x)
    (hz : Steady z) : Steady fun n => if c then x n else z n := by
  split
  · exact hx
  · exact hz

/-- **A loop is steady** if its body is. -/
theorem Steady.whileM {body : ℕ → σ → ExceptT ε Option (Turn σ ρ)}
    (hbody : ∀ s, Steady fun n => body n s) (s : σ) :
    Steady fun n => Lib.whileM (body n) n s := by
  -- the turns and the bound for the loops of the body are counted apart
  have hmany : ∀ f s n r, (Lib.whileM (body n) f s).run = some r →
      ∀ m ≥ n, ∀ g ≥ f, (Lib.whileM (body m) g s).run = some r := by
    intro f
    induction f with
    | zero => exact fun s n r hrun => absurd hrun (Option.some_ne_none r).symm
    | succ f ih =>
      intro s n r hrun m hm g hg
      obtain ⟨g, rfl⟩ := Nat.exists_eq_add_of_le' (Nat.le_trans (Nat.le_add_left 1 f) hg)
      rw [Lib.whileM, ExceptT.run_bind] at hrun ⊢
      cases hn : (body n s).run with
      | none =>
        rw [hn] at hrun
        cases hrun
      | some e =>
        rw [hn] at hrun
        rw [hbody s n e hn m hm]
        rcases e with _ | (s' | _)
        · exact hrun
        · exact ih s' n r hrun m hm g (Nat.le_of_succ_le_succ hg)
        · exact hrun
  exact fun n r hrun m hm => hmany n s n r hrun m hm m hm

/-- A loop whose body has no loops is steady. -/
theorem Steady.loopM (body : σ → Except ε (Turn σ ρ)) (s : σ) :
    Steady fun n => Lib.loopM body n s := by
  let lifted : ℕ → σ → ExceptT ε Option (Turn σ ρ) := fun _ s => liftM (body s)
  have hlifted : ∀ s, Steady fun n => lifted n s := fun s => .const _
  simp only [loopM_eq_whileM]
  exact Steady.whileM hlifted s

/-- The same steady program for one element of a list after the other is steady. -/
theorem Steady.foldlM {f : ℕ → β → α → ExceptT ε Option β}
    (hf : ∀ b a, Steady fun n => f n b a) (as : List α) (b : β) :
    Steady fun n => as.foldlM (f n) b := by
  induction as generalizing b with
  | nil => exact .const _
  | cons a as ih =>
    simp only [List.foldlM_cons]
    exact (hf b a).bind ih

end Lib
end Especial
