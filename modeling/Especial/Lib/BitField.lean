/-
# Bit fields of a machine word

Reading and replacing the `length` bits of a word from bit `start` up, with the
masks and shifts a C program uses for it, and what the result is bit by bit
(`getLsbD_extractField`, `getLsbD_depositField`).  A register that is handled one
bit at a time is a word whose one-bit fields are read with `extractField_one` and
written with `depositField_one`.
-/

import Mathlib.Tactic.Common

namespace Especial
namespace Lib

variable {w : ℕ}

/-- The mask of the `length` lowest bits, `~0 >> (w - length)`. -/
def lowMask (w length : ℕ) : BitVec w := BitVec.allOnes w >>> (w - length)

/-- The `length` bits of `value` from bit `start` up. -/
def extractField (value : BitVec w) (start length : ℕ) : BitVec w :=
  (value >>> start) &&& lowMask w length

/-- `value` with its `length` bits from bit `start` up replaced by the low bits
of `fieldval`. -/
def depositField (value : BitVec w) (start length : ℕ) (fieldval : BitVec w) : BitVec w :=
  (value &&& ~~~(lowMask w length <<< start)) |||
    ((fieldval <<< start) &&& (lowMask w length <<< start))

/-- The mask, bit by bit. -/
theorem getLsbD_lowMask {length : ℕ} (hl : length ≤ w) (i : ℕ) :
    (lowMask w length).getLsbD i = decide (i < length) := by
  simp only [lowMask, BitVec.getLsbD_ushiftRight, BitVec.getLsbD_allOnes]
  congr 1
  rw [eq_iff_iff]
  omega

/-- Bit `i` of a field is bit `start + i` of the word. -/
theorem getLsbD_extractField {length : ℕ} (hl : length ≤ w) (value : BitVec w) (start i : ℕ) :
    (extractField value start length).getLsbD i =
      (value.getLsbD (start + i) && decide (i < length)) := by
  simp only [extractField, BitVec.getLsbD_and, BitVec.getLsbD_ushiftRight, getLsbD_lowMask hl]

/-- Depositing a field changes the bits of the field and no other. -/
theorem getLsbD_depositField {length : ℕ} (hl : length ≤ w) (value fieldval : BitVec w)
    (start i : ℕ) (hi : i < w) :
    (depositField value start length fieldval).getLsbD i =
      if start ≤ i ∧ i < start + length then fieldval.getLsbD (i - start)
      else value.getLsbD i := by
  simp only [depositField, BitVec.getLsbD_or, BitVec.getLsbD_and, BitVec.getLsbD_not,
    BitVec.getLsbD_shiftLeft, getLsbD_lowMask hl, hi, decide_true, Bool.true_and]
  by_cases h₁ : i < start
  · rw [if_neg (by omega)]
    simp [h₁]
  · by_cases h₂ : i - start < length
    · rw [if_pos (by omega)]
      simp [h₁, h₂]
    · rw [if_neg (by omega)]
      simp [h₂]

/-- A one-bit field is `1` or `0` as the bit is set or not. -/
theorem extractField_one (hw : 1 ≤ w) (value : BitVec w) (i : ℕ) :
    extractField value i 1 = (BitVec.ofBool (value.getLsbD i)).setWidth w := by
  apply BitVec.eq_of_getLsbD_eq
  intro j hj
  rw [getLsbD_extractField hw]
  rcases Nat.eq_zero_or_pos j with rfl | hj'
  · simp [hj]
  · have h₁ : ¬j < 1 := by omega
    have h₂ : j ≠ 0 := by omega
    simp [h₁, h₂]

/-- Depositing the one-bit field `1` or `0` sets or clears the bit. -/
theorem getLsbD_depositField_one (hw : 1 ≤ w) (value : BitVec w) (b : Bool) (i j : ℕ)
    (hj : j < w) :
    (depositField value i 1 ((BitVec.ofBool b).setWidth w)).getLsbD j =
      if j = i then b else value.getLsbD j := by
  rw [getLsbD_depositField hw _ _ _ _ hj]
  by_cases h : j = i
  · subst h
    have : 0 < w := hw
    simp [this]
  · rw [if_neg (by omega), if_neg h]

/-- A single set bit, `1 << i`. -/
def bit (w i : ℕ) : BitVec w := 1#w <<< i

/-- The single bit, bit by bit. -/
@[simp] theorem getLsbD_bit (i j : ℕ) :
    (bit w i).getLsbD j = (decide (j = i) && decide (j < w)) := by
  simp only [bit, BitVec.getLsbD_shiftLeft, BitVec.getLsbD_one]
  by_cases h : j = i
  · subst h
    by_cases hj : j < w
    · have : 0 < w := by omega
      simp [hj, this]
    · simp [hj]
  · by_cases h' : j < i
    · simp [h, h']
    · have : ¬j - i = 0 := by omega
      simp [h, this]

/-- `value & ~(1 << i)` clears bit `i`. -/
theorem getLsbD_and_not_bit (value : BitVec w) (i j : ℕ) :
    (value &&& ~~~bit w i).getLsbD j = (value.getLsbD j && decide (j ≠ i)) := by
  by_cases hj : j < w
  · rw [BitVec.getLsbD_and, BitVec.getLsbD_not, getLsbD_bit]
    simp [hj]
  · rw [BitVec.getLsbD_of_ge _ _ (by omega), BitVec.getLsbD_of_ge _ _ (by omega)]
    rfl

/-- `value | 1 << i` sets bit `i`. -/
theorem getLsbD_or_bit (value : BitVec w) {i : ℕ} (hi : i < w) (j : ℕ) :
    (value ||| bit w i).getLsbD j = (value.getLsbD j || decide (j = i)) := by
  rw [BitVec.getLsbD_or, getLsbD_bit]
  by_cases hj : j = i
  · subst hj
    simp [hi]
  · simp [hj]

/-- A word has a bit in common with `1 << i` exactly when bit `i` is set. -/
theorem and_bit_ne_zero (value : BitVec w) (i : ℕ) :
    value &&& bit w i ≠ 0#w ↔ value.getLsbD i = true := by
  constructor
  · intro h
    by_contra hb
    refine h (BitVec.eq_of_getLsbD_eq fun j hj => ?_)
    by_cases hji : j = i
    · subst hji; simp [hb]
    · simp [hji]
  · intro h h0
    have hi : i < w := BitVec.lt_of_getLsbD h
    have hbit : (value &&& bit w i).getLsbD i = false := by rw [h0, BitVec.getLsbD_zero]
    rw [BitVec.getLsbD_and, h, getLsbD_bit] at hbit
    simp [hi] at hbit

/-- Bit `i` replaced by `b`: `value & ~(1 << i) | b << i`. -/
def writeBit (value : BitVec w) (i : ℕ) (b : Bool) : BitVec w :=
  (value &&& ~~~bit w i) ||| ((BitVec.ofBool b).setWidth w <<< i)

/-- The word with one bit replaced, bit by bit. -/
theorem getLsbD_writeBit (value : BitVec w) {i : ℕ} (hi : i < w) (b : Bool) (j : ℕ) :
    (writeBit value i b).getLsbD j = if j = i then b else value.getLsbD j := by
  rw [writeBit, BitVec.getLsbD_or, getLsbD_and_not_bit, BitVec.getLsbD_shiftLeft,
    BitVec.getLsbD_setWidth, BitVec.getLsbD_ofBool]
  rcases Nat.lt_trichotomy j i with hj | rfl | hj
  · have hne : ¬j = i := by omega
    simp [hj, hne]
  · simp [hi, (by omega : 0 < w)]
  · have h₁ : ¬j < i := by omega
    have h₂ : ¬j - i = 0 := by omega
    have hne : ¬j = i := by omega
    simp [h₁, h₂, hne]

/-- A property of the small words is checked one by one. -/
theorem of_forall_le {k : ℕ} {P : BitVec w → Prop} (h : ∀ n ≤ k, P (BitVec.ofNat w n))
    {x : BitVec w} (hx : x.toNat ≤ k) : P x := by
  have hP := h x.toNat hx
  rwa [BitVec.ofNat_toNat, BitVec.setWidth_eq] at hP

end Lib
end Especial
