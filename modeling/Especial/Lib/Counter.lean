/-
# Counters of a machine word

A variable of `w` bits counts as long as it does not wrap.  `Counts x n` says that the word
`x` is the number `n`, which is then less than `2 ^ w`; a counter that is not at its largest
value can be increased, and one that is not zero can be decreased.
-/

import Mathlib.Data.BitVec

namespace Especial
namespace Lib

variable {w : ℕ} {x : BitVec w} {n : ℕ}

/-- The counter `x` is at `n`. -/
def Counts (x : BitVec w) (n : ℕ) : Prop := x.toNat = n

/-- The word zero. -/
theorem toNat_zero_word : (0 : BitVec w).toNat = 0 := BitVec.toNat_zero

/-- The word one. -/
theorem toNat_one_word (h : 1 < 2 ^ w) : (1 : BitVec w).toNat = 1 :=
  (BitVec.toNat_ofNat 1 w).trans (Nat.mod_eq_of_lt h)

/-- A counter is below `2 ^ w`. -/
theorem Counts.lt (h : Counts x n) : n < 2 ^ w := h ▸ x.isLt

/-- A counter is at zero when its word is. -/
theorem Counts.eq_zero_iff (h : Counts x n) : x = 0 ↔ n = 0 := by
  rw [← h, ← BitVec.toNat_inj, toNat_zero_word]

/-- It is above zero when its word is. -/
theorem Counts.pos_iff (h : Counts x n) : x > 0 ↔ n > 0 := by
  rw [← h, gt_iff_lt, BitVec.lt_def, toNat_zero_word]

/-- **There is room for one more** unless all bits are set. -/
theorem Counts.room_iff (h : Counts x n) : x ≠ BitVec.allOnes w ↔ n + 1 < 2 ^ w := by
  have hlt : x.toNat < 2 ^ w := x.isLt
  rw [← h, Ne, ← BitVec.toNat_inj, BitVec.toNat_allOnes]
  omega

/-- **One more** does not wrap if there is room. -/
theorem Counts.succ (h : Counts x n) (hroom : n + 1 < 2 ^ w) : Counts (x + 1) (n + 1) := by
  rw [Counts, BitVec.toNat_add, toNat_one_word (by omega), h, Nat.mod_eq_of_lt hroom]

/-- **One less** does not wrap if there is something to take away. -/
theorem Counts.pred (h : Counts x n) (hpos : 0 < n) : Counts (x - 1) (n - 1) := by
  have hlt : x.toNat < 2 ^ w := x.isLt
  have hx : x.toNat = n := h
  have hone : (1 : BitVec w).toNat = 1 := toNat_one_word (by omega)
  have hle : (1 : BitVec w) ≤ x := by
    rw [BitVec.le_def, hone, hx]
    exact hpos
  rw [Counts, BitVec.toNat_sub_of_le hle, hone, hx]

end Lib
end Especial
