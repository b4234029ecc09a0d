/-
# What the device models share: faults, bit operations, `muldiv64`

The STM32 devices of `qemu_stm32/hw` end a guest access in one of two ways: it
returns, or the emulator stops.  It stops in `hw_error` (`cpus.c`: the text goes
to stderr, then `abort`), in a failed `assert`, on a division by zero, or in a
recursion that never returns; `Fault` lists these and every operation that can
reach one is a function into `Except Fault`.

`include/qemu/bitops.h` gives the bit-field helpers (their `assert`s on `start`
and `length` hold at every call of the modelled files, which pass constants, or
a line number below 32), and `include/qemu-common.h` the 96-bit `muldiv64`.
-/

import Especial.Lib.BitField
import Mathlib.Tactic

namespace Especial
namespace Qemu

open Lib

/-- How an operation of the emulator can fail to return. -/
inductive Fault
  /-- `hw_error(msg)`, which aborts. -/
  | hwError (msg : String)
  /-- A failed `assert(cond)`. -/
  | assertFail (cond : String)
  /-- An array is indexed outside its bounds. -/
  | outOfBounds (array : String)
  /-- An integer division by zero. -/
  | divByZero
  /-- A recursion or loop that does not end. -/
  | diverges
  deriving DecidableEq, Repr

/-- `assert(cond)`. -/
def assert (cond : Bool) (text : String) : Except Fault Unit :=
  if cond then .ok () else .error (.assertFail text)

/-- An assertion returns when its condition holds. -/
@[simp] theorem assert_eq_ok {cond : Bool} {text : String} {u : Unit} :
    assert cond text = .ok u ↔ cond = true := by
  cases cond <;> simp [assert]

/-- `if(cond) { hw_error(msg); }`. -/
def hwErrorIf (cond : Bool) (msg : String) : Except Fault Unit :=
  if cond then .error (.hwError msg) else .ok ()

/-- The error does not come when its condition fails. -/
@[simp] theorem hwErrorIf_eq_ok {cond : Bool} {msg : String} {u : Unit} :
    hwErrorIf cond msg = .ok u ↔ cond = false := by
  cases cond <;> simp [hwErrorIf]

/-- A computation with a first step succeeds when the step does and the rest
does from there. -/
theorem bind_eq_ok {ε α β : Type} {x : Except ε α} {f : α → Except ε β} {b : β} :
    (x >>= f) = .ok b ↔ ∃ a, x = .ok a ∧ f a = .ok b := by
  cases x <;> simp [bind, Except.bind]

/-- A computation that has returned goes on. -/
@[simp] theorem ok_bind {ε α β : Type} (a : α) (f : α → Except ε β) :
    ((.ok a : Except ε α) >>= f) = f a := rfl

/-- What a value returns. -/
@[simp] theorem pure_eq_ok {ε α : Type} {a b : α} :
    (pure a : Except ε α) = .ok b ↔ a = b := by
  simp [pure, Except.pure]

/-- An error returns nothing. -/
@[simp] theorem throw_ne_ok {ε α : Type} {e : ε} {a : α} :
    (throw e : Except ε α) ≠ .ok a := by
  simp [throw, throwThe, MonadExceptOf.throw]

/-- A check in front of a computation, passed. -/
@[simp] theorem if_throw_eq_ok {ε α : Type} {p : Prop} [Decidable p] {e : ε}
    {x : Except ε α} {a : α} : (if p then throw e else x) = .ok a ↔ ¬p ∧ x = .ok a := by
  split_ifs with h <;> simp [h]

/-- `BIT(nr)`. -/
def BIT (nr : ℕ) : BitVec 32 := bit 32 nr

/-- `extract32(value, start, length)`. -/
def extract32 (value : BitVec 32) (start length : ℕ) : BitVec 32 :=
  extractField value start length

/-- A field is at most its mask. -/
theorem toNat_extract32_le (v : BitVec 32) (start length : ℕ) :
    (extract32 v start length).toNat ≤ (lowMask 32 length).toNat := by
  unfold extract32 extractField
  rw [BitVec.toNat_and]
  exact Nat.and_le_right

/-- `extract64(value, start, length)`. -/
def extract64 (value : BitVec 64) (start length : ℕ) : BitVec 64 :=
  extractField value start length

/-- `deposit32(value, start, length, fieldval)`. -/
def deposit32 (value : BitVec 32) (start length : ℕ) (fieldval : BitVec 32) : BitVec 32 :=
  depositField value start length fieldval

/-- `deposit64(value, start, length, fieldval)`. -/
def deposit64 (value : BitVec 64) (start length : ℕ) (fieldval : BitVec 64) : BitVec 64 :=
  depositField value start length fieldval

/-- `1` or `0`, as C's comparisons and one-bit fields give it. -/
def ofBit (b : Bool) : BitVec 32 := (BitVec.ofBool b).setWidth 32

/-- `deposit32(value, i, 1, b)` replaces bit `i`. -/
theorem getLsbD_deposit32_one (value : BitVec 32) {i : ℕ} (hi : i < 32) (b : Bool) (j : ℕ) :
    (deposit32 value i 1 (ofBit b)).getLsbD j = if j = i then b else value.getLsbD j := by
  by_cases hj : j < 32
  · exact getLsbD_depositField_one (by decide) value b i j hj
  · have hji : j ≠ i := by omega
    rw [if_neg hji, BitVec.getLsbD_of_ge _ _ (by omega), BitVec.getLsbD_of_ge _ _ (by omega)]

/-- `muldiv64(a, b, c)`: `a * b / c` through the two halves of `a`, as the source
computes it with a 96-bit intermediate result. -/
def muldiv64 (a : BitVec 64) (b c : BitVec 32) : Except Fault (BitVec 64) :=
  if c = 0#32 then .error .divByZero
  else
    let b' := b.setWidth 64
    let c' := c.setWidth 64
    let rl := (a &&& 0xffffffff#64) * b'
    let rh := (a >>> 32) * b' + (rl >>> 32)
    let high := (rh / c').setWidth 32
    let low := (((rh % c') <<< 32 + (rl &&& 0xffffffff#64)) / c').setWidth 32
    .ok (high ++ low)

/-- Division of a two-digit number digit by digit, in base `B`: the low digit of
the quotient comes from the remainder of the high one. -/
theorem div_mod_halves (R c B : ℕ) (hc : 0 < c) :
    R / c % B = (R / B % c * B + R % B) / c % B := by
  have h₁ : R = c * (R / B / c * B) + (R / B % c * B + R % B) := by
    calc R = R / B * B + R % B := by rw [Nat.mul_comm, Nat.div_add_mod]
      _ = (c * (R / B / c) + R / B % c) * B + R % B := by rw [Nat.div_add_mod]
      _ = c * (R / B / c * B) + (R / B % c * B + R % B) := by ring
  have h₂ : R / c = R / B / c * B + (R / B % c * B + R % B) / c := by
    conv_lhs => rw [h₁]
    rw [Nat.mul_add_div hc]
  rw [h₂, Nat.mul_add_mod_self_right]

/-- The lower half of a word. -/
theorem toNat_and_low (x : BitVec 64) : (x &&& 0xffffffff#64).toNat = x.toNat % 2 ^ 32 := by
  rw [BitVec.toNat_and, show (0xffffffff#64).toNat = 2 ^ 32 - 1 from rfl,
    Nat.and_two_pow_sub_one_eq_mod]

/-- **The low word of `muldiv64` is the low word of the quotient**, for a first
factor of 32 bits and a second factor and a divisor of 16 bits, as the clock tree
calls it. -/
theorem muldiv64_low {a : BitVec 64} {b c : BitVec 32} (ha : a.toNat < 2 ^ 32)
    (hb : b.toNat < 2 ^ 16) (hc : c.toNat < 2 ^ 16) (hc0 : c ≠ 0#32) :
    ∃ r, muldiv64 a b c = .ok r ∧
      r.setWidth 32 = BitVec.ofNat 32 (a.toNat * b.toNat / c.toNat) := by
  have hpos : 0 < c.toNat :=
    Nat.pos_of_ne_zero fun h => hc0 (BitVec.eq_of_toNat_eq (by simpa using h))
  refine ⟨_, by rw [muldiv64, if_neg hc0], ?_⟩
  have hab : a.toNat * b.toNat < 2 ^ 48 := by
    calc a.toNat * b.toNat < 2 ^ 32 * 2 ^ 16 := Nat.mul_lt_mul'' ha hb
      _ = 2 ^ 48 := by norm_num
  have hb' : (b.setWidth 64).toNat = b.toNat := BitVec.toNat_setWidth_of_le (by omega)
  have hc' : (c.setWidth 64).toNat = c.toNat := BitVec.toNat_setWidth_of_le (by omega)
  -- `rl`, `rh` and the numerator of the low word, as numbers
  have hrl : ((a &&& 0xffffffff#64) * b.setWidth 64).toNat = a.toNat * b.toNat := by
    rw [BitVec.toNat_mul, toNat_and_low, hb', Nat.mod_eq_of_lt ha, Nat.mod_eq_of_lt (by omega)]
  have hhi : a >>> 32 = 0#64 := by
    apply BitVec.eq_of_toNat_eq
    rw [BitVec.toNat_ushiftRight, Nat.shiftRight_eq_div_pow, Nat.div_eq_of_lt ha]
    rfl
  generalize (a &&& 0xffffffff#64) * b.setWidth 64 = rl at hrl ⊢
  have hrh : (a >>> 32 * b.setWidth 64 + rl >>> 32).toNat = a.toNat * b.toNat / 2 ^ 32 := by
    rw [hhi, BitVec.zero_mul, BitVec.zero_add, BitVec.toNat_ushiftRight, hrl,
      Nat.shiftRight_eq_div_pow]
  generalize a >>> 32 * b.setWidth 64 + rl >>> 32 = rh at hrh ⊢
  have hrem : a.toNat * b.toNat / 2 ^ 32 % c.toNat < 2 ^ 16 := (Nat.mod_lt _ hpos).trans hc
  have hnum : ((rh % c.setWidth 64) <<< 32 + (rl &&& 0xffffffff#64)).toNat =
      a.toNat * b.toNat / 2 ^ 32 % c.toNat * 2 ^ 32 + a.toNat * b.toNat % 2 ^ 32 := by
    rw [BitVec.toNat_add, BitVec.toNat_shiftLeft, toNat_and_low, hrl, Nat.shiftLeft_eq,
      BitVec.toNat_umod, hrh, hc', Nat.mod_eq_of_lt (by omega), Nat.mod_eq_of_lt (by omega)]
  rw [BitVec.setWidth_append_eq_right]
  apply BitVec.eq_of_toNat_eq
  rw [BitVec.toNat_ofNat, div_mod_halves _ _ _ hpos, ← hnum, BitVec.toNat_setWidth,
    BitVec.toNat_udiv, hc']

end Qemu
end Especial
