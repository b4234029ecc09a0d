/-
# Finite unions of intervals

A set of natural numbers, given by a list of intervals `(lo, hi)` with both ends
included.  Whether a number belongs to one (`Mem`) and whether one lies interval by
interval inside another (`Le`) are decided by looking at the ends, so a system that
computes with such sets is checked by running it.

`mulDiv` is the image under `n ↦ n * m / d`, with factors and divisors from two lists;
the map is monotone in `n`, and so the image of an interval lies between the images of
its ends (`Mem.mulDiv`).
-/

import Mathlib.Data.List.Basic

namespace Especial
namespace Lib

/-- A union of intervals. -/
abbrev Intervals := List (ℕ × ℕ)

namespace Intervals

/-- A number of the union. -/
def Mem (n : ℕ) (r : Intervals) : Prop := ∃ p ∈ r, p.1 ≤ n ∧ n ≤ p.2

/-- Each interval lies inside one of the other union. -/
def Le (r r' : Intervals) : Prop := ∀ p ∈ r, ∃ q ∈ r', q.1 ≤ p.1 ∧ p.2 ≤ q.2

instance (n : ℕ) (r : Intervals) : Decidable (Mem n r) := by
  unfold Mem
  infer_instance

instance (r r' : Intervals) : Decidable (Le r r') := by
  unfold Le
  infer_instance

variable {n m d : ℕ} {r r' : Intervals} {ms ds : List ℕ}

/-- A number of a union is in every larger one. -/
theorem Mem.of_le (h : Mem n r) (hle : Le r r') : Mem n r' := by
  obtain ⟨p, hp, hlo, hhi⟩ := h
  obtain ⟨q, hq, hqlo, hqhi⟩ := hle p hp
  exact ⟨q, hq, Nat.le_trans hqlo hlo, Nat.le_trans hhi hqhi⟩

/-- A gap above `0`. -/
theorem Mem.eq_zero_or_le {k max : ℕ} (h : Mem n r) (hle : Le r [(0, 0), (k, max)]) :
    n = 0 ∨ k ≤ n := by
  obtain ⟨p, hp, hlo, hhi⟩ := h.of_le hle
  rcases List.mem_cons.1 hp with rfl | hp
  · exact Or.inl (Nat.le_zero.1 hhi)
  · rw [List.mem_singleton.1 hp] at hlo
    exact Or.inr hlo

/-- The image under `n ↦ n * m / d`. -/
def mulDiv (r : Intervals) (ms ds : List ℕ) : Intervals :=
  r.flatMap fun p => ms.flatMap fun m => ds.map fun d => (p.1 * m / d, p.2 * m / d)

/-- The image of a number is in the image. -/
theorem Mem.mulDiv (h : Mem n r) (hm : m ∈ ms) (hd : d ∈ ds) :
    Mem (n * m / d) (r.mulDiv ms ds) := by
  obtain ⟨p, hp, hlo, hhi⟩ := h
  refine ⟨(p.1 * m / d, p.2 * m / d), ?_, ?_, ?_⟩
  · exact List.mem_flatMap.2
      ⟨p, hp, List.mem_flatMap.2 ⟨m, hm, List.mem_map.2 ⟨d, hd, rfl⟩⟩⟩
  · exact Nat.div_le_div_right (Nat.mul_le_mul_right m hlo)
  · exact Nat.div_le_div_right (Nat.mul_le_mul_right m hhi)

end Intervals

end Lib
end Especial
