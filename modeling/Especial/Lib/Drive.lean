/-
# What was said last

`LastOf P Q l`: of the entries of `l` with `P` there is a last one, and it has `Q`.
The rule `lastOf_snoc` computes it along a list that grows at the end.

A device drives its output lines by calls `(line, level)`; what a line shows is the
level of the last call for it, and low before the first (`lastLevel`).  A log of such
calls says more than the levels: it also tells which lines were left alone.
-/

import Mathlib.Data.List.Basic

namespace Especial
namespace Lib

section LastOf

variable {α : Type*} {P Q : α → Prop} {l : List α} {a : α}

/-- The last entry with `P` has `Q`. -/
def LastOf (P Q : α → Prop) (l : List α) : Prop :=
  ∃ l₁ a l₂, l = l₁ ++ a :: l₂ ∧ P a ∧ Q a ∧ ∀ b ∈ l₂, ¬P b

/-- An empty list has no last entry. -/
theorem not_lastOf_nil : ¬LastOf P Q [] := by
  rintro ⟨l₁, a, l₂, h, -⟩
  simp at h

/-- **One more entry** settles the question if it has `P`. -/
theorem lastOf_snoc : LastOf P Q (l ++ [a]) ↔ (P a ∧ Q a) ∨ (¬P a ∧ LastOf P Q l) := by
  constructor
  · rintro ⟨l₁, b, l₂, h, hP, hQ, hlast⟩
    rcases List.eq_nil_or_concat' l₂ with rfl | ⟨l₂, c, rfl⟩
    · obtain ⟨-, rfl⟩ : l = l₁ ∧ a = b := by simpa using h
      exact Or.inl ⟨hP, hQ⟩
    · rw [← List.cons_append, ← List.append_assoc] at h
      obtain ⟨rfl, hac⟩ := List.append_inj' h rfl
      obtain rfl : a = c := by simpa using hac
      exact Or.inr ⟨hlast a (by simp), l₁, b, l₂, rfl, hP, hQ,
        fun d hd => hlast d (by simp [hd])⟩
  · rintro (⟨hP, hQ⟩ | ⟨ha, l₁, b, l₂, rfl, hP, hQ, hlast⟩)
    · exact ⟨l, a, [], rfl, hP, hQ, by simp⟩
    · refine ⟨l₁, b, l₂ ++ [a], by simp, hP, hQ, fun d hd => ?_⟩
      rcases List.mem_append.1 hd with hd | hd
      · exact hlast d hd
      · rw [List.mem_singleton.1 hd]
        exact ha

end LastOf

variable {κ : Type*} [DecidableEq κ]

/-- The level a line was last driven to. -/
def lastLevel : List (κ × Bool) → κ → Bool
  | [], _ => false
  | (k', b) :: log, k => if log.any (·.1 = k) then lastLevel log k else if k' = k then b else false

variable {log log' : List (κ × Bool)} {k k' : κ} {b : Bool}

/-- A line that was never driven is low. -/
theorem lastLevel_of_not_driven (h : log.any (·.1 = k) = false) : lastLevel log k = false := by
  induction log with
  | nil => rfl
  | cons d log ih =>
      obtain ⟨hd, hl⟩ : ¬d.1 = k ∧ log.any (·.1 = k) = false := by simpa using h
      obtain ⟨k', b⟩ := d
      have hk' : ¬k' = k := hd
      rw [lastLevel, hl, if_neg (by decide), if_neg hk']

/-- Later calls win over earlier ones. -/
theorem lastLevel_append :
    lastLevel (log ++ log') k = if log'.any (·.1 = k) then lastLevel log' k
      else lastLevel log k := by
  induction log with
  | nil =>
      split_ifs with h
      · rfl
      · exact lastLevel_of_not_driven (Bool.eq_false_iff.2 h)
  | cons d log ih =>
      obtain ⟨k', b⟩ := d
      rw [List.cons_append, lastLevel, lastLevel, List.any_append, ih]
      cases log'.any (·.1 = k) <;> cases log.any (·.1 = k) <;> simp

/-- Calls that give each line one level, `f` of it: a line is at that level exactly if
one of them was for it. -/
theorem lastLevel_append_of_forall {f : κ → Bool} (h : ∀ d ∈ log', d.2 = f d.1) :
    lastLevel (log ++ log') k = if ∃ d ∈ log', d.1 = k then f k else lastLevel log k := by
  have hany : log'.any (·.1 = k) = true ↔ ∃ d ∈ log', d.1 = k := by simp
  rw [lastLevel_append]
  by_cases hk : log'.any (·.1 = k) = true
  · rw [if_pos hk, if_pos (hany.1 hk)]
    clear hany
    induction log' with
    | nil => simp at hk
    | cons d log' ih =>
        obtain ⟨k', b'⟩ := d
        rw [lastLevel]
        by_cases hl : log'.any (·.1 = k) = true
        · rw [if_pos hl]
          exact ih (fun d hd => h d (List.mem_cons_of_mem _ hd)) hl
        · have hk' : k' = k := by simpa [Bool.eq_false_iff.2 hl] using hk
          rw [if_neg hl, if_pos hk', ← hk']
          exact h (k', b') List.mem_cons_self
  · rw [if_neg hk, if_neg (mt hany.2 hk)]

/-- Calls that all give the same level. -/
theorem lastLevel_append_const (h : ∀ d ∈ log', d.2 = b) :
    lastLevel (log ++ log') k = if ∃ d ∈ log', d.1 = k then b else lastLevel log k :=
  lastLevel_append_of_forall (f := fun _ => b) h

/-- One more call. -/
theorem lastLevel_snoc : lastLevel (log ++ [(k', b)]) k = if k' = k then b
      else lastLevel log k := by
  rw [lastLevel_append_const (b := b) (by simp)]
  simp

end Lib
end Especial
