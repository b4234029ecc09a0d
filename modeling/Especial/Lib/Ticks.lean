/-
# Counters that wrap around

A counter of `w + 1` bits is incremented in each tick and wraps around, so two values of it
cannot be compared as numbers.  Their difference can: `Past deadline now` is the test that
`deadline - now`, as a signed number, is negative.  From a value `c` of the counter on, with the
deadline less than `2 ^ w` ticks ahead, the test is right for the next `2 ^ w` ticks
(`past_iff`), wherever `c` is.
-/

import Mathlib.Data.BitVec

namespace Especial
namespace Lib

variable {w : ℕ}

/-- The deadline is past. -/
def Past (deadline now : BitVec (w + 1)) : Prop := 2 ^ w ≤ (deadline - now).toNat

/-- The counter after `k` more ticks. -/
def ticked (c : BitVec (w + 1)) (k : ℕ) : BitVec (w + 1) := c + BitVec.ofNat (w + 1) k

/-- No tick. -/
@[simp] theorem ticked_zero (c : BitVec (w + 1)) : ticked c 0 = c := BitVec.add_zero c

/-- Ticks after ticks. -/
theorem ticked_add (c : BitVec (w + 1)) (k d : ℕ) : ticked (ticked c k) d = ticked c (k + d) := by
  rw [ticked, ticked, ticked, BitVec.ofNat_add, BitVec.add_assoc]

/-- How far ahead a later value is. -/
theorem toNat_ticked_sub_of_le (c : BitVec (w + 1)) {k d : ℕ} (hdk : d ≤ k)
    (hk : k < 2 ^ (w + 1)) : (ticked c k - ticked c d).toNat = k - d := by
  rw [ticked, ticked, add_sub_add_left_eq_sub, BitVec.toNat_sub, BitVec.toNat_ofNat,
    BitVec.toNat_ofNat, Nat.mod_eq_of_lt hk, Nat.mod_eq_of_lt (hdk.trans_lt hk)]
  have hsum : 2 ^ (w + 1) - d + k = k - d + 2 ^ (w + 1) := by omega
  rw [hsum, Nat.add_mod_right, Nat.mod_eq_of_lt (by omega)]

/-- How far ahead an earlier value is: the way round. -/
theorem toNat_ticked_sub_of_lt (c : BitVec (w + 1)) {k d : ℕ} (hkd : k < d)
    (hd : d < 2 ^ (w + 1)) : (ticked c k - ticked c d).toNat = 2 ^ (w + 1) - (d - k) := by
  rw [ticked, ticked, add_sub_add_left_eq_sub, BitVec.toNat_sub, BitVec.toNat_ofNat,
    BitVec.toNat_ofNat, Nat.mod_eq_of_lt hd, Nat.mod_eq_of_lt (hkd.trans hd)]
  have hsum : 2 ^ (w + 1) - d + k = 2 ^ (w + 1) - (d - k) := by omega
  rw [hsum, Nat.mod_eq_of_lt (by omega)]

/-- **When a deadline is past**: after `d` ticks, a deadline `k` ticks ahead of the start. -/
theorem past_iff (c : BitVec (w + 1)) {k d : ℕ} (hk : k < 2 ^ w) (hd : d ≤ 2 ^ w) :
    Past (ticked c k) (ticked c d) ↔ k < d := by
  have hpow : 2 ^ (w + 1) = 2 * 2 ^ w := Nat.pow_succ'
  unfold Past
  constructor
  · intro hpast
    by_contra hle
    rw [toNat_ticked_sub_of_le c (by omega) (by omega)] at hpast
    omega
  · intro hkd
    rw [toNat_ticked_sub_of_lt c hkd (by omega)]
    omega

end Lib
end Especial
