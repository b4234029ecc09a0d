/-
# Loops that handle one index at a time

A loop over distinct indices whose body at `i` reads and changes what belongs to `i`
and nothing else has the effect of all its bodies at once: what belongs to `i`
afterwards is a function of what belonged to `i` before.  The body may fail, and it
may add to a log; the loop then adds what the bodies add, in order.

`view s i` is what belongs to `i` in the state `s`.
-/

import Mathlib.Data.List.Nodup

namespace Especial
namespace Lib

universe u v w x y
variable {σ : Type u} {α : Type v} {β : Type w} {ε : Type x}

/-- What one body does at `i`: the view of `i` becomes `f i` of itself, `d i` of it
goes to the log, and it met the condition `q i` without which the body fails. -/
structure ActsAt (view : σ → ℕ → α) (log : σ → List β) (f : ℕ → α → α)
    (d : ℕ → α → List β) (q : ℕ → α → Prop) (i : ℕ) (s t : σ) : Prop where
  view_eq : ∀ j, view t j = if j = i then f i (view s i) else view s j
  log_eq : log t = log s ++ d i (view s i)
  cond : q i (view s i)

/-- What the bodies at the indices `l` do together. -/
structure ActsOn (view : σ → ℕ → α) (log : σ → List β) (f : ℕ → α → α)
    (d : ℕ → α → List β) (q : ℕ → α → Prop) (l : List ℕ) (s t : σ) : Prop where
  view_eq : ∀ j, view t j = if j ∈ l then f j (view s j) else view s j
  log_eq : log t = log s ++ l.flatMap fun i => d i (view s i)
  cond : ∀ i ∈ l, q i (view s i)

variable {view : σ → ℕ → α} {log : σ → List β} {f : ℕ → α → α}
    {d : ℕ → α → List β}
  {q : ℕ → α → Prop} {step : σ → ℕ → Except ε σ}

/-- **The rule for such loops.** -/
theorem actsOn_of_foldlM {l : List ℕ} (hl : l.Nodup) {s t : σ}
    (hstep : ∀ i ∈ l, ∀ s t, step s i = .ok t → ActsAt view log f d q i s t)
    (h : l.foldlM step s = .ok t) : ActsOn view log f d q l s t := by
  induction l generalizing s with
  | nil =>
      obtain rfl : s = t := by simpa [pure, Except.pure] using h
      exact ⟨fun j => by simp, by simp, by simp⟩
  | cons i l ih =>
      obtain ⟨hi, hl⟩ := List.nodup_cons.1 hl
      rw [List.foldlM_cons] at h
      cases hu : step s i with
      | error e => rw [hu] at h; cases h
      | ok u =>
          rw [hu] at h
          have hat := hstep i List.mem_cons_self s u hu
          have hrest := ih hl (fun j hj => hstep j (List.mem_cons_of_mem _ hj)) h
          -- the first body leaves the views of the others alone
          have hkept : ∀ j ∈ l, view u j = view s j := fun j hj => by
            rw [hat.view_eq, if_neg (ne_of_mem_of_not_mem hj hi)]
          refine ⟨fun j => ?_, ?_, fun j hj => ?_⟩
          · rw [hrest.view_eq]
            by_cases hj : j ∈ l
            · rw [if_pos hj, if_pos (List.mem_cons_of_mem _ hj), hkept j hj]
            · rw [if_neg hj, hat.view_eq]
              by_cases hji : j = i
              · subst hji
                simp
              · rw [if_neg hji, if_neg (by simp [hji, hj])]
          · have hlogs : (l.flatMap fun i => d i (view u i)) = l.flatMap fun i => d i (view s i) :=
              List.flatMap_congr fun j hj => by rw [hkept j hj]
            rw [hrest.log_eq, hat.log_eq, List.append_assoc, List.flatMap_cons, hlogs]
          · rcases List.mem_cons.1 hj with rfl | hj
            · exact hat.cond
            · rw [← hkept j hj]
              exact hrest.cond j hj

/-- **Such a loop does not fail** if every index meets its condition at the start. -/
theorem exists_foldlM_of_cond {l : List ℕ} (hl : l.Nodup) {s : σ}
    (hstep : ∀ i ∈ l, ∀ s t, step s i = .ok t → ActsAt view log f d q i s t)
    (hret : ∀ i ∈ l, ∀ s, q i (view s i) → ∃ t, step s i = .ok t)
    (hq : ∀ i ∈ l, q i (view s i)) : ∃ t, l.foldlM step s = .ok t := by
  induction l generalizing s with
  | nil => exact ⟨s, rfl⟩
  | cons i l ih =>
      obtain ⟨hi, hl⟩ := List.nodup_cons.1 hl
      obtain ⟨u, hu⟩ := hret i List.mem_cons_self s (hq i List.mem_cons_self)
      have hat := hstep i List.mem_cons_self s u hu
      rw [List.foldlM_cons, hu]
      refine ih hl (fun j hj => hstep j (List.mem_cons_of_mem _ hj))
        (fun j hj => hret j (List.mem_cons_of_mem _ hj)) fun j hj => ?_
      rw [hat.view_eq, if_neg (ne_of_mem_of_not_mem hj hi)]
      exact hq j (List.mem_cons_of_mem _ hj)

end Lib
end Especial
