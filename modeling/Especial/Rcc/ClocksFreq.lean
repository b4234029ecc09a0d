/-
# What the firmware thinks its clocks are

`RCC_GetClocksFreq` of the firmware library (`stm32f10x_rcc.c`, a medium density
device with an 8 MHz crystal) computes the bus frequencies from the value it reads
from `CFGR`; the emulator computes them in its clock tree.  Both decode the same
fields.  They agree on `SYSCLK` (`sysclk_eq`) but not on every prescaler: the
firmware divides by `2, 4, 8, 16, 64, …`, the emulator by `2, 4, 6, 8, 10, …`, and
the firmware's one table also divides for the values `4..7` of `HPRE`, which mean
no division.  They agree exactly on the fields of `PrescalersAgree`.
-/

import Especial.Rcc.Writes
import Especial.Lib.Run

namespace Especial
namespace Rcc

open Qemu Stm32 Clktree Lib

/-! ### The firmware's computation -/

/-- `HSI_VALUE`. -/
def HSI_VALUE : BitVec 32 := 8000000

/-- `HSE_VALUE`. -/
def HSE_VALUE : BitVec 32 := 8000000

/-- `APBAHBPrescTable`. -/
def APBAHBPrescTable : List ℕ := [0, 0, 0, 0, 1, 2, 3, 4, 1, 2, 3, 4, 6, 7, 8, 9]

/-- `ADCPrescTable`. -/
def ADCPrescTable : List (BitVec 32) := [2, 4, 6, 8]

/-- `RCC_ClocksTypeDef`. -/
structure Clocks where
  SYSCLK_Frequency : BitVec 32
  HCLK_Frequency : BitVec 32
  PCLK1_Frequency : BitVec 32
  PCLK2_Frequency : BitVec 32
  ADCCLK_Frequency : BitVec 32
  deriving DecidableEq, Repr

/-- The `SYSCLK` part of `RCC_GetClocksFreq`. -/
def sysclkFrequency (cfgr : BitVec 32) : BitVec 32 :=
  let tmp := cfgr &&& 0xC#32
  if tmp = 0x00#32 then HSI_VALUE
  else if tmp = 0x04#32 then HSE_VALUE
  else if tmp = 0x08#32 then
    let pllmull := ((cfgr &&& 0x3C0000#32) >>> 18) + 2#32
    let pllsource := cfgr &&& 0x10000#32
    if pllsource = 0#32 then (HSI_VALUE >>> 1) * pllmull
    else if cfgr &&& 0x20000#32 ≠ 0#32 then (HSE_VALUE >>> 1) * pllmull
    else HSE_VALUE * pllmull
  else HSI_VALUE

/-- `APBAHBPrescTable[i]`. -/
def presc (i : BitVec 32) : ℕ := APBAHBPrescTable.getD i.toNat 0

/-- `RCC_GetClocksFreq`. -/
def getClocksFreq (cfgr : BitVec 32) : Clocks :=
  let sysclk := sysclkFrequency cfgr
  let hclk := sysclk >>> presc ((cfgr &&& 0xF0#32) >>> 4)
  let pclk1 := hclk >>> presc ((cfgr &&& 0x700#32) >>> 8)
  let pclk2 := hclk >>> presc ((cfgr &&& 0x3800#32) >>> 11)
  { SYSCLK_Frequency := sysclk
    HCLK_Frequency := hclk
    PCLK1_Frequency := pclk1
    PCLK2_Frequency := pclk2
    ADCCLK_Frequency := pclk2 / ADCPrescTable.getD ((cfgr &&& 0xC000#32) >>> 14).toNat 1#32 }

/-! ### Reading the fields back -/

/-- A field above smaller ones. -/
theorem or_eq_add {a b k : ℕ} (hb : b < 2 ^ k) : a <<< k ||| b = a * 2 ^ k + b := by
  rw [← Nat.shiftLeft_add_eq_or_of_lt hb, Nat.shiftLeft_eq]

/-- `(value & mask) >> k`, for the mask of the `n` bits from `k` up. -/
theorem toNat_and_shift (x mask : BitVec 32) (k n : ℕ) (hm : mask.toNat >>> k = 2 ^ n - 1) :
    ((x &&& mask) >>> k).toNat = x.toNat / 2 ^ k % 2 ^ n := by
  rw [BitVec.toNat_ushiftRight, BitVec.toNat_and, Nat.shiftRight_and_distrib, hm,
    Nat.and_two_pow_sub_one_eq_mod, Nat.shiftRight_eq_div_pow]

variable {s : Stm32Rcc}

/-- The value `CFGR` reads as, field by field; `SW` is there twice. -/
theorem cfgrRead_toNat (h : FieldsOk s) : (cfgrRead s).toNat =
    s.PLLMUL.toNat * 2 ^ 18 + (s.PLLXTPRE.toNat * 2 ^ 17 + (s.PLLSRC.toNat * 2 ^ 16 +
      (s.PPRE2.toNat * 2 ^ 11 + (s.PPRE1.toNat * 2 ^ 8 + (s.HPRE.toNat * 2 ^ 4 +
        5 * s.SW.toNat))))) := by
  obtain ⟨h₁, h₂, h₃, h₄, h₅, h₆, h₇⟩ := h
  have hshift : ∀ (x : BitVec 32) (k : ℕ), x.toNat * 2 ^ k < 2 ^ 32 →
      (x <<< k).toNat = x.toNat <<< k := by
    intro x k hx
    rw [BitVec.toNat_shiftLeft, Nat.shiftLeft_eq, Nat.mod_eq_of_lt hx]
  have hsw : s.SW.toNat ||| s.SW.toNat <<< 2 = 5 * s.SW.toNat := by
    have hcases : s.SW.toNat = 0 ∨ s.SW.toNat = 1 ∨ s.SW.toNat = 2 := by omega
    rcases hcases with h | h | h <;> rw [h] <;> rfl
  unfold cfgrRead
  simp only [BitVec.or_assoc, BitVec.toNat_or, BitVec.shiftLeft_zero]
  rw [hshift _ 18 (by omega), hshift _ 17 (by omega), hshift _ 16 (by omega),
    hshift _ 11 (by omega), hshift _ 8 (by omega), hshift _ 4 (by omega),
    hshift _ 2 (by omega), hsw,
    or_eq_add (k := 4) (by omega), or_eq_add (k := 8) (by omega), or_eq_add (k := 11) (by omega),
    or_eq_add (k := 16) (by omega), or_eq_add (k := 17) (by omega), or_eq_add (k := 18) (by omega)]

/-- A field between a higher and a lower part. -/
theorem field_eq {x f k n : ℕ} (hi lo : ℕ) (hx : x = (hi * 2 ^ n + f) * 2 ^ k + lo)
    (hf : f < 2 ^ n) (hlo : lo < 2 ^ k) : x / 2 ^ k % 2 ^ n = f := by
  rw [hx, Nat.add_comm, Nat.add_mul_div_right _ _ (Nat.two_pow_pos k), Nat.div_eq_of_lt hlo,
    Nat.zero_add, Nat.add_comm, Nat.add_mul_mod_self_right, Nat.mod_eq_of_lt hf]

/-- The fields of a number put together from them. -/
theorem fields_eq {v m x q p₂ p₁ a w : ℕ}
    (hv : v = m * 2 ^ 18 + (x * 2 ^ 17 + (q * 2 ^ 16 + (p₂ * 2 ^ 11 + (p₁ * 2 ^ 8 +
      (a * 2 ^ 4 + 5 * w))))))
    (h₁ : m ≤ 15) (h₂ : x ≤ 1) (h₃ : q ≤ 1) (h₄ : p₂ ≤ 7) (h₅ : p₁ ≤ 7)
      (h₆ : a ≤ 15) (h₇ : w ≤ 2) :
    v / 2 ^ 2 % 2 ^ 2 = w ∧ v / 2 ^ 18 % 2 ^ 4 = m ∧ v / 2 ^ 16 % 2 ^ 1 = q ∧
      v / 2 ^ 17 % 2 ^ 1 = x ∧ v / 2 ^ 4 % 2 ^ 4 = a ∧ v / 2 ^ 8 % 2 ^ 3 = p₁ ∧
      v / 2 ^ 11 % 2 ^ 3 = p₂ := by
  exact ⟨field_eq (m * 16384 + x * 8192 + q * 4096 + p₂ * 128 + p₁ * 16 + a) w
      (by rw [hv]; ring) (by omega) (by omega),
    field_eq 0 (x * 131072 + q * 65536 + p₂ * 2048 + p₁ * 256 + a * 16 + 5 * w)
      (by rw [hv]; ring) (by omega) (by omega),
    field_eq (m * 2 + x) (p₂ * 2048 + p₁ * 256 + a * 16 + 5 * w) (by rw [hv]; ring)
      (by omega) (by omega),
    field_eq m (q * 65536 + p₂ * 2048 + p₁ * 256 + a * 16 + 5 * w) (by rw [hv]; ring)
      (by omega) (by omega),
    field_eq (m * 1024 + x * 512 + q * 256 + p₂ * 8 + p₁) (5 * w) (by rw [hv]; ring)
      (by omega) (by omega),
    field_eq (m * 128 + x * 64 + q * 32 + p₂) (a * 16 + 5 * w) (by rw [hv]; ring)
      (by omega) (by omega),
    field_eq (m * 16 + x * 8 + q * 4) (p₁ * 256 + a * 16 + 5 * w) (by rw [hv]; ring)
      (by omega) (by omega)⟩

/-- **The firmware reads the fields the emulator keeps.** -/
theorem cfgrRead_fields (h : FieldsOk s) :
    (cfgrRead s &&& 0xC#32) >>> 2 = s.SW ∧ (cfgrRead s &&& 0x3C0000#32) >>> 18 = s.PLLMUL ∧
      (cfgrRead s &&& 0x10000#32) >>> 16 = s.PLLSRC ∧
      (cfgrRead s &&& 0x20000#32) >>> 17 = s.PLLXTPRE ∧
      (cfgrRead s &&& 0xF0#32) >>> 4 = s.HPRE ∧ (cfgrRead s &&& 0x700#32) >>> 8 = s.PPRE1 ∧
      (cfgrRead s &&& 0x3800#32) >>> 11 = s.PPRE2 := by
  obtain ⟨h₁, h₂, h₃, h₄, h₅, h₆, h₇⟩ :=
    fields_eq (cfgrRead_toNat h) h.pllmul h.pllxtpre h.pllsrc h.ppre2 h.ppre1 h.hpre h.sw
  have hfield : ∀ {x mask : BitVec 32} (k n : ℕ), mask.toNat >>> k = 2 ^ n - 1 →
      (cfgrRead s).toNat / 2 ^ k % 2 ^ n = x.toNat → (cfgrRead s &&& mask) >>> k = x :=
    fun k n hm hx => BitVec.eq_of_toNat_eq (by rw [toNat_and_shift _ _ k n hm, hx])
  exact ⟨hfield 2 2 rfl h₁, hfield 18 4 rfl h₂, hfield 16 1 rfl h₃, hfield 17 1 rfl h₄,
    hfield 4 4 rfl h₅, hfield 8 3 rfl h₆, hfield 11 3 rfl h₇⟩

/-- A masked value is its field, shifted back. -/
theorem and_eq_shiftLeft {x mask y : BitVec 32} (k : ℕ) (hm : ∀ i < k, mask.getLsbD i = false)
    (h : (x &&& mask) >>> k = y) : x &&& mask = y <<< k := by
  rw [← h]
  refine BitVec.eq_of_getLsbD_eq fun i hi => ?_
  rw [BitVec.getLsbD_shiftLeft, BitVec.getLsbD_ushiftRight]
  by_cases hik : i < k
  · rw [BitVec.getLsbD_and, hm i hik]
    simp [hik]
  · have hadd : k + (i - k) = i := by omega
    simp [hi, hik, hadd]

/-- `SYSCLK`, by the fields. -/
theorem sysclkFrequency_eq (h : FieldsOk s) : sysclkFrequency (cfgrRead s) =
    if s.SW = 0#32 then 8000000#32
    else if s.SW = 1#32 then 8000000#32
    else if s.PLLSRC = 0#32 then 4000000#32 * (s.PLLMUL + 2#32)
    else if s.PLLXTPRE = 0#32 then 8000000#32 * (s.PLLMUL + 2#32)
    else 4000000#32 * (s.PLLMUL + 2#32) := by
  obtain ⟨hsw, hmul, hsrc, hxt, -, -, -⟩ := cfgrRead_fields h
  have hsw' := and_eq_shiftLeft 2 (by decide) hsw
  have hsrc' := and_eq_shiftLeft 16 (by decide) hsrc
  have hxt' := and_eq_shiftLeft 17 (by decide) hxt
  unfold sysclkFrequency
  rw [hsw', hsrc', hxt', hmul]
  rcases eq_of_toNat_le_two h.sw with hw | hw | hw <;> rw [hw]
  · rfl
  · rfl
  · rcases eq_of_toNat_le_one h.pllsrc with hq | hq <;> rw [hq]
    · rfl
    · rcases eq_of_toNat_le_one h.pllxtpre with hx | hx <;> rw [hx] <;> rfl

/-! ### The emulator's clocks -/

/-- The oscillator that drives `SYSCLK` is on, and so is the PLL if it is in
between. -/
def ChainEnabled (s : Stm32Rcc) : Prop :=
  if s.SW = 0#32 then s.isEnabled HSICLK = true
  else if s.SW = 1#32 then s.isEnabled HSECLK = true
  else s.isEnabled PLLCLK = true ∧
    if s.PLLSRC = 0#32 then s.isEnabled HSICLK = true else s.isEnabled HSECLK = true

/-- A scale of one changes nothing. -/
theorem scale_one (f : BitVec 32) : scale f 1#16 1#16 = f := by
  unfold scale
  simp

/-- The multiplier of the PLL does not wrap. -/
theorem scale_pll {x f : BitVec 32} (hx : x.toNat ≤ 14) (hf : f = 4000000#32 ∨ f = 8000000#32) :
    scale f ((pllMultiplier x).setWidth 16) 1#16 = f * (x + 2#32) ∧
      8000000 ≤ (f * (x + 2#32)).toNat := by
  obtain ⟨n, hn, rfl⟩ : ∃ n : ℕ, n ≤ 14 ∧ x = BitVec.ofNat 32 n :=
    ⟨x.toNat, hx, by simp⟩
  rcases hf with rfl | rfl <;> interval_cases n <;> decide

/-- A division does not wrap. -/
theorem toNat_scale_div (f : BitVec 32) (d : BitVec 16) :
    (scale f 1#16 d).toNat = f.toNat / d.toNat := by
  unfold scale
  rw [BitVec.toNat_ofNat, show (1#16).toNat = 1 from rfl, Nat.mul_one]
  exact Nat.mod_eq_of_lt ((Nat.div_le_self _ _).trans_lt f.isLt)

/-- A prescaler of the firmware against one of the emulator. -/
theorem shift_eq_scale_iff {f : BitVec 32} {d : BitVec 16} {k e : ℕ} (hd : d.toNat = e) :
    f >>> k = scale f 1#16 d ↔ f.toNat / 2 ^ k = f.toNat / e := by
  rw [BitVec.toNat_eq, BitVec.toNat_ushiftRight, Nat.shiftRight_eq_div_pow, toNat_scale_div, hd]

/-- **The AHB prescaler.**  The firmware looks all sixteen values up in one table,
so it also divides for the values 4 to 7; above 9 the divisors differ. -/
theorem ahb_agree_iff {f x : BitVec 32} (hf : 8000000 ≤ f.toNat) (hx : x.toNat ≤ 15) :
    f >>> presc x = scale f 1#16 ((ahbDivisor x).setWidth 16) ↔
      x.toNat ≤ 3 ∨ x.toNat = 8 ∨ x.toNat = 9 := by
  have hlt := f.isLt
  obtain ⟨n, hn, rfl⟩ : ∃ n : ℕ, n ≤ 15 ∧ x = BitVec.ofNat 32 n :=
    ⟨x.toNat, hx, by simp⟩
  clear hx
  interval_cases n <;> rw [shift_eq_scale_iff rfl] <;>
    simp [presc, APBAHBPrescTable, ahbDivisor] <;>
    omega

/-- **The APB prescalers.**  Above 5 the divisors differ. -/
theorem apb_agree_iff {f x : BitVec 32} (hf : 1000000 ≤ f.toNat) (hx : x.toNat ≤ 7) :
    f >>> presc x = scale f 1#16 ((apbDivisor x).setWidth 16) ↔ x.toNat ≤ 5 := by
  have hlt := f.isLt
  obtain ⟨n, hn, rfl⟩ : ∃ n : ℕ, n ≤ 7 ∧ x = BitVec.ofNat 32 n :=
    ⟨x.toNat, hx, by simp⟩
  clear hx
  interval_cases n <;> rw [shift_eq_scale_iff rfl] <;>
    simp [presc, APBAHBPrescTable, apbDivisor] <;>
    omega

/-- The input of the PLL. -/
def pllInput (s : Stm32Rcc) : BitVec 32 :=
  if s.PLLSRC = 0#32 then 4000000#32
  else if s.PLLXTPRE = 0#32 then 8000000#32 else 4000000#32

/-- The PLL is fed with 4 or 8 MHz. -/
theorem pllInput_eq (s : Stm32Rcc) : pllInput s = 4000000#32 ∨ pllInput s = 8000000#32 := by
  unfold pllInput
  split_ifs <;> simp

section Clocks

variable {c : Cfg} (h : Has (c.ofFields s) s.regs s)
include h

/-- The HSI runs at 8 MHz. -/
theorem hsiclk_freq (hon : s.isEnabled HSICLK = true) : s.outputFreq HSICLK = 8000000#32 := by
  have hstep : s.outputFreq HSICLK = if c.hsi then scale HSI_FREQ 1#16 1#16 else 0#32 :=
    h.tree.outputFreq_step (i := HSICLK) rfl
  have hc : c.hsi = true := (h.isEnabled (i := HSICLK) rfl).symm.trans hon
  rw [hstep, hc, if_pos rfl, scale_one]
  rfl

/-- So does the HSE. -/
theorem hseclk_freq (hon : s.isEnabled HSECLK = true) : s.outputFreq HSECLK = 8000000#32 := by
  have hstep : s.outputFreq HSECLK = if c.hse then scale oscFreq 1#16 1#16 else 0#32 :=
    h.tree.outputFreq_step (i := HSECLK) rfl
  have hc : c.hse = true := (h.isEnabled (i := HSECLK) rfl).symm.trans hon
  rw [hstep, hc, if_pos rfl, scale_one]
  rfl

/-- Half of the HSI. -/
theorem hsi_div2_eq : s.outputFreq HSI_DIV2 = scale (s.outputFreq HSICLK) 1#16 2#16 :=
  h.outputFreq_eq (i := HSI_DIV2) rfl rfl rfl rfl

/-- `PLLXTPRE` is the HSE or half of it. -/
theorem pllxtpreclk_eq (hx : s.PLLXTPRE.toNat ≤ 1) : s.outputFreq PLLXTPRECLK =
    if s.PLLXTPRE = 0#32 then s.outputFreq HSECLK else scale (s.outputFreq HSECLK) 1#16 2#16 := by
  have hdiv : s.outputFreq HSE_DIV2 = scale (s.outputFreq HSECLK) 1#16 2#16 :=
    h.outputFreq_eq (i := HSE_DIV2) rfl rfl rfl rfl
  rcases eq_of_toNat_le_one hx with hx | hx
  · have hsel : s.outputFreq PLLXTPRECLK = scale (s.outputFreq HSECLK) 1#16 1#16 :=
      h.outputFreq_eq (i := PLLXTPRECLK) rfl rfl rfl (by unfold Cfg.ofFields; rw [hx]; rfl)
    rw [hsel, scale_one, if_pos hx]
  · have hsel : s.outputFreq PLLXTPRECLK = scale (s.outputFreq HSE_DIV2) 1#16 1#16 :=
      h.outputFreq_eq (i := PLLXTPRECLK) rfl rfl rfl (by unfold Cfg.ofFields; rw [hx]; rfl)
    rw [hsel, hdiv, scale_one, if_neg (by rw [hx]; decide)]

/-- The PLL multiplies half of the HSI or `PLLXTPRE`. -/
theorem pllclk_eq (hq : s.PLLSRC.toNat ≤ 1) (hpll : s.isEnabled PLLCLK = true) :
    s.outputFreq PLLCLK =
    scale (if s.PLLSRC = 0#32 then s.outputFreq HSI_DIV2 else s.outputFreq PLLXTPRECLK)
      ((pllMultiplier s.PLLMUL).setWidth 16) 1#16 := by
  have hon : c.pll = true := (h.isEnabled (i := PLLCLK) rfl).symm.trans hpll
  rcases eq_of_toNat_le_one hq with hq | hq
  · rw [if_pos hq]
    exact h.outputFreq_eq (i := PLLCLK) rfl rfl hon (by unfold Cfg.ofFields; rw [hq]; rfl)
  · rw [if_neg (by rw [hq]; decide)]
    exact h.outputFreq_eq (i := PLLCLK) rfl rfl hon (by unfold Cfg.ofFields; rw [hq]; rfl)

/-- **The PLL multiplies its input**, if its source is on. -/
theorem pllclk_freq (hok : FieldsOk s) (hpll : s.isEnabled PLLCLK = true)
    (hsrc : if s.PLLSRC = 0#32 then s.isEnabled HSICLK = true else s.isEnabled HSECLK = true) :
    s.outputFreq PLLCLK = scale (pllInput s) ((pllMultiplier s.PLLMUL).setWidth 16) 1#16 := by
  rw [pllclk_eq h hok.pllsrc hpll, pllInput]
  split_ifs at hsrc ⊢ with hq hx
  · rw [hsi_div2_eq h, hsiclk_freq h hsrc]
    rfl
  · rw [pllxtpreclk_eq h hok.pllxtpre, if_pos hx, hseclk_freq h hsrc]
  · rw [pllxtpreclk_eq h hok.pllxtpre, if_neg hx, hseclk_freq h hsrc]
    rfl

/-- `SYSCLK` is the clock that `SW` selects. -/
theorem sysclk_freq {j : ℕ}
    (hj : (⟨none, true, 1#16, 1#16, [HSICLK, HSECLK, PLLCLK], s.SW.toNat⟩ : Node).pred =
      some j) :
    s.outputFreq SYSCLK = s.outputFreq j := by
  have hstep : s.outputFreq SYSCLK = scale (s.outputFreq j) 1#16 1#16 :=
    h.outputFreq_eq (i := SYSCLK) rfl rfl rfl hj
  rw [hstep, scale_one]

/-- **`SYSCLK`: the firmware and the emulator agree.** -/
theorem sysclk_eq (hok : FieldsOk s) (hmul : s.PLLMUL.toNat ≤ 14) (hchain : ChainEnabled s) :
    s.outputFreq SYSCLK = sysclkFrequency (cfgrRead s) ∧
    8000000 ≤ (s.outputFreq SYSCLK).toNat := by
  rw [sysclkFrequency_eq hok]
  unfold ChainEnabled at hchain
  rcases eq_of_toNat_le_two hok.sw with hw | hw | hw
  · rw [if_pos hw] at hchain ⊢
    rw [sysclk_freq h (j := HSICLK) (by rw [hw]; rfl), hsiclk_freq h hchain]
    exact ⟨rfl, by decide⟩
  · have h₀ : s.SW ≠ 0#32 := by rw [hw]; decide
    rw [if_neg h₀, if_pos hw] at hchain ⊢
    rw [sysclk_freq h (j := HSECLK) (by rw [hw]; rfl), hseclk_freq h hchain]
    exact ⟨rfl, by decide⟩
  · have h₀ : s.SW ≠ 0#32 := by rw [hw]; decide
    have h₁ : s.SW ≠ 1#32 := by rw [hw]; decide
    rw [if_neg h₀, if_neg h₁] at hchain ⊢
    obtain ⟨hpll, hsrc⟩ := hchain
    rw [sysclk_freq h (j := PLLCLK) (by rw [hw]; rfl), pllclk_freq h hok hpll hsrc]
    obtain ⟨hscale, hlow⟩ := scale_pll hmul (pllInput_eq s)
    refine ⟨?_, by rw [hscale]; exact hlow⟩
    rw [hscale, pllInput]
    split_ifs <;> rfl

end Clocks

/-- The prescalers on which the two decoders agree. -/
def PrescalersAgree (cfgr : BitVec 32) : Prop :=
  (((cfgr &&& 0xF0#32) >>> 4).toNat ≤ 3 ∨ ((cfgr &&& 0xF0#32) >>> 4).toNat = 8 ∨
    ((cfgr &&& 0xF0#32) >>> 4).toNat = 9) ∧
  ((cfgr &&& 0x700#32) >>> 8).toNat ≤ 5 ∧ ((cfgr &&& 0x3800#32) >>> 11).toNat ≤ 5

/-- The four frequencies are the same on both sides. -/
def SameClocks (s : Stm32Rcc) (f : Clocks) : Prop :=
  f.SYSCLK_Frequency = s.outputFreq SYSCLK ∧ f.HCLK_Frequency = s.outputFreq HCLK ∧
    f.PCLK1_Frequency = s.outputFreq PCLK1 ∧ f.PCLK2_Frequency = s.outputFreq PCLK2

/-- **In a state whose settings follow its fields** the frequencies agree exactly
when the prescalers do. -/
theorem sameClocks_iff (hs : Coherent s) (hmul : s.PLLMUL.toNat ≤ 14) (hchain : ChainEnabled s) :
    SameClocks s (getClocksFreq (cfgrRead s)) ↔ PrescalersAgree (cfgrRead s) := by
  obtain ⟨c, h, hok⟩ := hs
  obtain ⟨-, -, -, -, hhpre, hppre1, hppre2⟩ := cfgrRead_fields hok
  obtain ⟨hsys, hlow⟩ := sysclk_eq h hok hmul hchain
  have hhclk : s.outputFreq HCLK =
      scale (s.outputFreq SYSCLK) 1#16 ((ahbDivisor s.HPRE).setWidth 16) :=
    h.outputFreq_eq (i := HCLK) rfl rfl rfl rfl
  have hpclk1 : s.outputFreq PCLK1 =
      scale (s.outputFreq HCLK) 1#16 ((apbDivisor s.PPRE1).setWidth 16) :=
    h.outputFreq_eq (i := PCLK1) rfl rfl rfl rfl
  have hpclk2 : s.outputFreq PCLK2 =
      scale (s.outputFreq HCLK) 1#16 ((apbDivisor s.PPRE2).setWidth 16) :=
    h.outputFreq_eq (i := PCLK2) rfl rfl rfl rfl
  have hahb := ahb_agree_iff hlow hok.hpre
  rw [← hhclk] at hahb
  -- where the AHB prescalers agree, `HCLK` is high enough for the APB ones to differ
  have hhigh : (s.HPRE.toNat ≤ 3 ∨ s.HPRE.toNat = 8 ∨ s.HPRE.toNat = 9) →
      1000000 ≤ (s.outputFreq HCLK).toNat := by
    intro hx
    obtain ⟨n, hn, hxn⟩ : ∃ n : ℕ, n ≤ 9 ∧ s.HPRE = BitVec.ofNat 32 n :=
      ⟨s.HPRE.toNat, by omega, by simp⟩
    rw [hhclk, toNat_scale_div]
    rw [hxn] at hx ⊢
    interval_cases n <;> simp [ahbDivisor] at hx ⊢ <;> omega
  have happ1 := fun hx => apb_agree_iff (hhigh hx) hok.ppre1
  have happ2 := fun hx => apb_agree_iff (hhigh hx) hok.ppre2
  simp only [← hpclk1, ← hpclk2] at happ1 happ2
  unfold SameClocks PrescalersAgree getClocksFreq
  dsimp only
  rw [← hsys, hhpre, hppre1, hppre2]
  constructor
  · rintro ⟨-, hH, h₁, h₂⟩
    have hx := hahb.1 hH
    rw [hH] at h₁ h₂
    exact ⟨hx, (happ1 hx).1 h₁, (happ2 hx).1 h₂⟩
  · rintro ⟨hx, h₁, h₂⟩
    have hH := hahb.2 hx
    rw [hH]
    exact ⟨rfl, rfl, (happ1 hx).2 h₁, (happ2 hx).2 h₂⟩

/-- **What the firmware computes and what the emulator does.**  After any sequence
of register writes since a reset, in a state with `PLLMUL ≤ 14` in which the
oscillators and the PLL that `SYSCLK` is taken from are on (`SW` is never `3`), the
four frequencies that `RCC_GetClocksFreq` computes from the value of `CFGR` are
those of the clock tree exactly when the prescaler fields are among those both
sides decode alike. -/
theorem rcc_clocksFreq_iff (s₀ s₁ s : Stm32Rcc) (l : List Event) (cfgr : BitVec 32)
    (hinit : init = .ok s₀) (hreset : reset s₀ = .ok s₁) (hrun : Run Step s₁ l s)
    (hread : readw s 0x04 = .ok cfgr) (hmul : ((cfgr &&& 0x3C0000#32) >>> 18).toNat ≤ 14)
    (hchain : ChainEnabled s) :
    SameClocks s (getClocksFreq cfgr) ↔ PrescalersAgree cfgr := by
  obtain ⟨s₀', hinit', h₀⟩ := init_has
  obtain rfl : s₀' = s₀ := Except.ok.inj (hinit'.symm.trans hinit)
  have hs : Coherent s := run_coherent h₀ hreset hrun
  obtain rfl : cfgrRead s = cfgr := pure_eq_ok.1 hread
  have hmul' : s.PLLMUL.toNat ≤ 14 := by
    obtain ⟨c, -, hok⟩ := hs
    rw [← (cfgrRead_fields hok).2.1]
    exact hmul
  exact sameClocks_iff hs hmul' hchain

/-- What `CFGR` reads as after a write of `v`. -/
def cfgrReadBack (v : BitVec 32) : BitVec 32 :=
  extract32 v 18 4 <<< 18 ||| extract32 v 17 1 <<< 17 ||| extract32 v 16 1 <<< 16 |||
    ((v &&& 0x3c00#32) >>> 11) <<< 11 ||| ((v &&& 0x700#32) >>> 8) <<< 8 |||
    ((v &&& 0xf0#32) >>> 4) <<< 4 ||| ((v &&& 0x3#32) >>> 0) <<< 0 ||| ((v &&& 0x3#32) >>> 0) <<< 2

/-- What `CFGR` reads as after a write. -/
theorem cfgrRead_cfgrRegs (v : BitVec 32) (r : Stm32Rcc) :
    cfgrRead (cfgrRegs v r) = cfgrReadBack v := rfl

/-- A reset and one write to `CFGR` that leaves the HSI in charge. -/
theorem exists_cfgr_run (v : BitVec 32) (hsw : v &&& 0x3#32 = 0#32) :
    ∃ s₀ s₁ s, init = .ok s₀ ∧ reset s₀ = .ok s₁ ∧
    Run Step s₁ [.write 0x04 v] s ∧
      ChainEnabled s ∧ Coherent s ∧ readw s 0x04 = .ok (cfgrReadBack v) := by
  have hne : v &&& 0x3#32 ≠ 0x3#32 := by rw [hsw]; decide
  obtain ⟨s₀, hinit, h₀⟩ := init_has
  obtain ⟨s₁, hreset, h₁⟩ := reset_has h₀
  have hret : Returns (cfgrWrite s₁ v false) _ := cfgrWrite_has h₁ hne
  obtain ⟨s, hwrite, h⟩ := hret
  have hon : s.isEnabled HSICLK = true := h.isEnabled (i := HSICLK) rfl
  have hSW : s.SW = 0#32 := by
    have hregs : s.regs.SW = (v &&& 0x3#32) >>> 0 := by rw [h.regs]; rfl
    rw [hsw] at hregs
    exact hregs
  refine ⟨s₀, s₁, s, hinit, hreset, .cons hwrite (.nil s), ?_, ?_,
    congrArg Except.ok ((congrArg cfgrRead h.regs :).trans (cfgrRead_cfgrRegs v _))⟩
  · unfold ChainEnabled
    rw [if_pos hSW]
    exact hon
  · exact h.coherent ⟨rfl, fieldsOk_cfgrRegs hne⟩

instance (cfgr : BitVec 32) : Decidable (PrescalersAgree cfgr) := by
  unfold PrescalersAgree
  infer_instance

/-- `SYSCLK / 4` on the AHB and half of it on the APB1. -/
theorem rcc_clocksFreq_small_prescalers :
    ∃ s₀ s₁ s, init = .ok s₀ ∧ reset s₀ = .ok s₁ ∧
    Run Step s₁ [.write 0x04 0x490] s ∧
      SameClocks s (getClocksFreq 0x490) := by
  obtain ⟨s₀, s₁, s, hinit, hreset, hrun, hchain, -, hread⟩ :=
    exists_cfgr_run 0x490 (by decide)
  exact ⟨s₀, s₁, s, hinit, hreset, hrun,
    (rcc_clocksFreq_iff s₀ s₁ s _ _ hinit hreset hrun hread (by decide) hchain).2 (by decide)⟩

/-- With `HPRE = 10` the firmware divides by eight and the emulator by six. -/
theorem rcc_clocksFreq_ahb_differs :
    ¬∀ (s₀ s₁ s : Stm32Rcc) (l : List Event) (cfgr : BitVec 32), init = .ok s₀ →
    reset s₀ = .ok s₁ →
      Run Step s₁ l s → readw s 0x04 = .ok cfgr →
      ((cfgr &&& 0x3C0000#32) >>> 18).toNat ≤ 14 →
      ChainEnabled s → SameClocks s (getClocksFreq cfgr) := by
  intro hall
  obtain ⟨s₀, s₁, s, hinit, hreset, hrun, hchain, hs, hread⟩ :=
    exists_cfgr_run 0xA0 (by decide)
  have hvalue : cfgrRead s = cfgrReadBack 0xA0 := pure_eq_ok.1 hread
  have hsame := hall s₀ s₁ s _ _ hinit hreset hrun hread (by decide) hchain
  rw [← hvalue] at hsame
  have hmul : s.PLLMUL.toNat ≤ 14 := by
    obtain ⟨c, -, hok⟩ := id hs
    rw [← (cfgrRead_fields hok).2.1, hvalue]
    decide
  have hagree := (sameClocks_iff hs hmul hchain).1 hsame
  rw [hvalue] at hagree
  exact absurd hagree (by decide)

end Rcc
end Especial
