/-
# Loops that may not end

A turn of a loop fails, leads to another turn or ends the loop with a result.  `loop body n s`
is what `n` turns from the state `s` come to, `none` if the loop goes on; a loop ends in its
`n`-th turn (`EndsIn`), or it goes on for ever (`Diverges`).

* `EndsIn.of_variant`: a loop ends if what is left to do gets less by one in each turn;
* `Diverges.of_invariant`: it goes on for ever if some property leads to another turn and is
  kept by it.
-/

import Mathlib.Data.Nat.Notation

namespace Especial
namespace Lib

universe u v
variable {ε : Type u} {σ ρ : Type v}

/-- What a turn of a loop leads to. -/
inductive Turn (σ ρ : Type v)
  | again (s : σ)
  | exit (r : ρ)

/-- At most `n` turns of a loop: `none` if it has not ended then. -/
def loop (body : σ → Except ε (Turn σ ρ)) : ℕ → σ → Option (Except ε ρ)
  | 0, _ => none
  | n + 1, s =>
    match body s with
    | .error e => some (.error e)
    | .ok (.exit r) => some (.ok r)
    | .ok (.again t) => loop body n t

variable {body : σ → Except ε (Turn σ ρ)} {s t : σ} {n m : ℕ} {r r' : Except ε ρ}

/-- A turn that goes on. -/
theorem loop_again (h : body s = .ok (.again t)) (n : ℕ) :
    loop body (n + 1) s = loop body n t := by
  rw [loop, h]

/-- The last turn. -/
theorem loop_exit {a : ρ} (h : body s = .ok (.exit a)) (n : ℕ) :
    loop body (n + 1) s = some (.ok a) := by
  rw [loop, h]

/-- A loop that has ended has ended. -/
theorem loop_mono (h : loop body n s = some r) (hnm : n ≤ m) : loop body m s = some r := by
  induction n generalizing s m with
  | zero => cases h
  | succ n ih =>
    obtain ⟨m, rfl⟩ := Nat.exists_eq_add_of_le' (Nat.one_le_of_lt hnm)
    rw [loop] at h ⊢
    split at h
    · exact h
    · exact h
    · exact ih h (Nat.le_of_succ_le_succ hnm)

/-- A loop has one result. -/
theorem loop_unique (h : loop body n s = some r) (h' : loop body m s = some r') : r = r' := by
  have hmax := loop_mono h (Nat.le_max_left n m)
  rw [loop_mono h' (Nat.le_max_right n m)] at hmax
  exact (Option.some.inj hmax).symm

/-- The loop ends in its `n`-th turn, with this result. -/
structure EndsIn (body : σ → Except ε (Turn σ ρ)) (s : σ) (n : ℕ) (r : Except ε ρ) :
    Prop where
  ends : loop body n s = some r
  not_before : ∀ m < n, loop body m s = none

/-- One turn more. -/
theorem EndsIn.again (hbody : body s = .ok (.again t)) (h : EndsIn body t n r) :
    EndsIn body s (n + 1) r := by
  refine ⟨(loop_again hbody n).trans h.ends, fun m hm => ?_⟩
  cases m with
  | zero => rfl
  | succ m => exact (loop_again hbody m).trans (h.not_before m (Nat.lt_of_succ_lt_succ hm))

/-- The number of turns is the loop's. -/
theorem EndsIn.unique (h : EndsIn body s n r) (h' : EndsIn body s m r') : n = m ∧ r = r' := by
  refine ⟨?_, loop_unique h.ends h'.ends⟩
  rcases Nat.lt_trichotomy n m with hlt | heq | hlt
  · exact absurd ((h'.not_before n hlt).symm.trans h.ends) nofun
  · exact heq
  · exact absurd ((h.not_before m hlt).symm.trans h'.ends) nofun

/-- **The rule of the variant.**  `V k` holds where `k` more turns follow after this one. -/
theorem EndsIn.of_variant {V : ℕ → σ → Prop} {a : ρ}
    (hagain : ∀ k s, V (k + 1) s → ∃ t, body s = .ok (.again t) ∧ V k t)
    (hexit : ∀ s, V 0 s → body s = .ok (.exit a)) (hs : V n s) :
    EndsIn body s (n + 1) (.ok a) := by
  induction n generalizing s with
  | zero =>
    refine ⟨loop_exit (hexit s hs) 0, fun m hm => ?_⟩
    rw [Nat.lt_one_iff.1 hm, loop]
  | succ n ih =>
    obtain ⟨t, hbody, ht⟩ := hagain n s hs
    exact (ih ht).again hbody

/-- The loop goes on for ever. -/
def Diverges (body : σ → Except ε (Turn σ ρ)) (s : σ) : Prop := ∀ n, loop body n s = none

/-- **The rule of the invariant.** -/
theorem Diverges.of_invariant {I : σ → Prop}
    (hagain : ∀ s, I s → ∃ t, body s = .ok (.again t) ∧ I t) (hs : I s) :
    Diverges body s := by
  intro n
  induction n generalizing s with
  | zero => rfl
  | succ n ih =>
    obtain ⟨t, hbody, ht⟩ := hagain s hs
    exact (loop_again hbody n).trans (ih ht)

end Lib
end Especial
