/-
# The pins of a GPIO port, one at a time

The registers of a port hold sixteen pins: a nibble of `CRL` or `CRH`, a bit of the
output register and a bit of the direction mask for each, and the calls on its output
line.  A write that replaces one nibble, and a write of one bit to `BSRR` or `BRR`,
leave the nibbles, the output bits and the lines of all other pins alone (`Touches`);
the direction mask is computed again for eight pins at once, and a pin that was an
output stays one.
-/

import Especial.Gpio.Basic
import Especial.Lib.Returns

namespace Especial
namespace Gpio

open Qemu Stm32 Lib

variable {s s' : Stm32Gpio} {n m : ℕ}

/-! ### Nibbles -/

/-- The configuration of a pin, bit by bit. -/
theorem getLsbD_getPinConfig (s : Stm32Gpio) (n i : ℕ) : (getPinConfig s n).getLsbD i =
    (decide (i < 4) && if n < 8 then s.CRL.getLsbD (4 * n + i)
      else s.CRH.getLsbD (4 * n + i - 32)) := by
  have hfield := getLsbD_extractField (by decide : 4 ≤ 64)
    (s.CRH.setWidth 64 <<< 32 ||| s.CRL.setWidth 64) (n * 4) i
  unfold getPinConfig extract64
  rw [BitVec.getLsbD_setWidth, hfield, BitVec.getLsbD_or, BitVec.getLsbD_shiftLeft,
    BitVec.getLsbD_setWidth, BitVec.getLsbD_setWidth, Nat.mul_comm n 4]
  by_cases hi : i < 4
  · split_ifs with hn
    · have h₁ : 4 * n + i < 32 := by omega
      have h₂ : 4 * n + i < 64 := by omega
      have h₃ : i < 8 := by omega
      simp [hi, h₁, h₂, h₃]
    · have h₁ : ¬4 * n + i < 32 := by omega
      have h₃ : i < 8 := by omega
      by_cases h₂ : 4 * n + i < 64
      · have h₄ : 4 * n + i - 32 < 64 := by omega
        simp [hi, h₁, h₂, h₃, h₄, BitVec.getLsbD_of_ge s.CRL (4 * n + i) (by omega)]
      · simp [hi, h₂, h₃, BitVec.getLsbD_of_ge s.CRH (4 * n + i - 32) (by omega)]
  · simp [hi]

/-- The nibble of a pin in a configuration register. -/
def nibbleOf (cm : BitVec 32) : BitVec 8 := (cm.setWidth 4).setWidth 8

/-- The nibble of a pin, bit by bit. -/
theorem getLsbD_nibbleOf (cm : BitVec 32) (i : ℕ) :
    (nibbleOf cm).getLsbD i = (decide (i < 4) && cm.getLsbD i) := by
  rw [nibbleOf, BitVec.getLsbD_setWidth, BitVec.getLsbD_setWidth]
  by_cases hi : i < 4
  · simp [hi, (by omega : i < 8)]
  · simp [hi]

/-! ### Directions -/

/-- The direction mask is computed again for the pins of a list, from the
configuration; nothing else changes. -/
theorem foldl_updatePinDir (pins : List ℕ) (hpins : ∀ pin ∈ pins, pin < 16) (s : Stm32Gpio) :
    ∃ dirMask, pins.foldl updatePinDir s = { s with dirMask := dirMask } ∧
      ∀ m, dirMask.getLsbD m =
        if m ∈ pins then decide (getModeBits s m ≠ 0#8) else s.dirMask.getLsbD m := by
  induction pins generalizing s with
  | nil => exact ⟨s.dirMask, rfl, fun m => by simp⟩
  | cons pin pins ih =>
    obtain ⟨dirMask, hfold, hbit⟩ := ih (fun p hp => hpins p (List.mem_cons_of_mem pin hp))
      (updatePinDir s pin)
    refine ⟨dirMask, hfold, fun m => ?_⟩
    have hpin : pin < 16 := hpins pin List.mem_cons_self
    have hmode : getModeBits (updatePinDir s pin) m = getModeBits s m := rfl
    have hone : (updatePinDir s pin).dirMask.getLsbD m =
        if m = pin then decide (getModeBits s pin ≠ 0#8) else s.dirMask.getLsbD m :=
      getLsbD_writeBit s.dirMask hpin _ m
    rw [hbit, hmode, hone]
    by_cases hm : m = pin
    · simp [hm]
    · simp [hm]

/-- The pin is an output: its mode bits say so, and the direction mask does. -/
structure IsOutput (s : Stm32Gpio) (n : ℕ) : Prop where
  mode : getModeBits s n ≠ 0#8
  dir : s.dirMask.getLsbD n = true

/-- At most the nibble, the output bit and the line of pin `n` change, and the line
gets these calls. -/
structure Touches (n : ℕ) (s s' : Stm32Gpio) (calls : List (ℕ × Bool)) : Prop where
  config : ∀ m < 16, m ≠ n → getPinConfig s' m = getPinConfig s m
  odr : ∀ m < 16, m ≠ n → s'.ODR.getLsbD m = s.ODR.getLsbD m
  output : ∀ m < 16, m ≠ n → IsOutput s m → IsOutput s' m
  outIrq : s'.outIrq = s.outIrq ++ calls
  line : ∀ d ∈ calls, d.1 = n

/-- One change of a pin after another. -/
theorem Touches.trans {s'' : Stm32Gpio} {calls calls' : List (ℕ × Bool)}
    (h : Touches n s s' calls) (h' : Touches n s' s'' calls') :
    Touches n s s'' (calls ++ calls') where
  config m hm hn := (h'.config m hm hn).trans (h.config m hm hn)
  odr m hm hn := (h'.odr m hm hn).trans (h.odr m hm hn)
  output m hm hn ho := h'.output m hm hn (h.output m hm hn ho)
  outIrq := by rw [h'.outIrq, h.outIrq, List.append_assoc]
  line d hd := (List.mem_append.1 hd).elim (h.line d) (h'.line d)

/-! ### The configuration registers -/

/-- `stm32_gpio_update_dir` returns, with the directions of its eight pins. -/
theorem updateDir_returns {half : ℕ} (hhalf : half = 0 ∨ half = 1) (s : Stm32Gpio) :
    Returns (updateDir s half) fun s' => ∃ dirMask, s' = { s with dirMask := dirMask } ∧
      ∀ m, dirMask.getLsbD m =
        if m ∈ List.range' (half * 8) 8 then decide (getModeBits s m ≠ 0#8)
        else s.dirMask.getLsbD m := by
  have hpins : ∀ pin ∈ List.range' (half * 8) 8, pin < 16 := by
    intro pin hpin
    have := List.mem_range'_1.1 hpin
    omega
  obtain ⟨dirMask, hfold, hbit⟩ := foldl_updatePinDir _ hpins s
  refine ⟨_, ?_, dirMask, hfold, hbit⟩
  unfold updateDir
  rw [(assert_eq_ok (u := ())).2 (by simpa using hhalf)]
  rfl

/-- The port after the check of its clock. -/
def checked (clkEnabled : Bool) (s : Stm32Gpio) : Stm32Gpio :=
  if clkEnabled then s else warn s (periphClkWarning s.periph)

/-- The check of the clock only warns. -/
theorem checked_eq (clkEnabled : Bool) (s : Stm32Gpio) :
    ∃ w, checked clkEnabled s = { s with warnings := w } := by
  cases clkEnabled
  · exact ⟨_, rfl⟩
  · exact ⟨s.warnings, rfl⟩

/-! ### The set and reset registers -/

/-- The mask of the sixteen pins. -/
theorem getLsbD_0xffff (m : ℕ) : (0xffff#32).getLsbD m = decide (m < 16) :=
  getLsbD_lowMask (by decide : 16 ≤ 32) m

/-- Among the sixteen pins there is one with the number `n`. -/
theorem filter_range_eq :
    ∀ n < 16, (List.range PIN_COUNT).filter (fun m => decide (m = n)) = [n] := by
  decide

/-- The pin of a write that names one output. -/
theorem driveOutputs_one (hn : n < 16) (hdir : s.dirMask.getLsbD n = true) :
    driveOutputs s ((BIT n).setWidth 16 &&& s.dirMask) =
      { s with outIrq := s.outIrq ++ [(n, s.ODR.getLsbD n)] } := by
  have hmask : ∀ m, ((BIT n).setWidth 16 &&& s.dirMask).getLsbD m = decide (m = n) := by
    intro m
    rw [BitVec.getLsbD_and, BitVec.getLsbD_setWidth, BIT, getLsbD_bit]
    by_cases hm : m = n
    · simp [hm, hn, hdir, (by omega : n < 32)]
    · simp [hm]
  unfold driveOutputs
  rw [List.filter_congr (fun m _ => hmask m), filter_range_eq n hn]
  rfl

/-- **`stm32_gpio_trigger_irq`** for one output: its bit becomes `b`, and its line is
set to `b`, also if it had that value. -/
theorem triggerIrq_touches {newValue : BitVec 32} {b : Bool} (hn : n < 16) (ho : IsOutput s n)
    (hbits : ∀ m < 16, newValue.getLsbD m = if m = n then b else s.ODR.getLsbD m) :
    Touches n s (triggerIrq s newValue ((BIT n).setWidth 16)) [(n, b)] ∧
      IsOutput (triggerIrq s newValue ((BIT n).setWidth 16)) n ∧
      (triggerIrq s newValue ((BIT n).setWidth 16)).ODR.getLsbD n = b := by
  set u : Stm32Gpio := { s with ODR := newValue &&& 0xffff#32 } with hu
  have hodr : ∀ m < 16, u.ODR.getLsbD m = if m = n then b else s.ODR.getLsbD m := by
    intro m hm
    rw [hu, BitVec.getLsbD_and, getLsbD_0xffff, decide_eq_true hm, Bool.and_true, hbits m hm]
  have hn_odr : u.ODR.getLsbD n = b := (hodr n hn).trans (if_pos rfl)
  have htrigger : triggerIrq s newValue ((BIT n).setWidth 16) =
      { u with outIrq := s.outIrq ++ [(n, b)] } := by
    have hdrive := driveOutputs_one (s := u) hn ho.dir
    rw [hn_odr] at hdrive
    exact hdrive
  rw [htrigger]
  refine ⟨⟨fun _ _ _ => rfl, fun m hm hmn => ?_, fun _ _ _ h => ⟨h.mode, h.dir⟩,
    rfl, by simp⟩, ⟨ho.mode, ho.dir⟩, hn_odr⟩
  exact (hodr m hm).trans (if_neg hmn)

/-- A pin stays an output in the check of the clock. -/
theorem IsOutput.checked {clkEnabled : Bool} (h : IsOutput s n) :
    IsOutput (checked clkEnabled s) n := by
  cases clkEnabled <;> exact ⟨h.mode, h.dir⟩

/-- What happens to a pin after the check of the clock. -/
theorem Touches.of_checked {clkEnabled : Bool} {calls : List (ℕ × Bool)}
    (h : Touches n (Gpio.checked clkEnabled s) s' calls) : Touches n s s' calls := by
  cases clkEnabled
  · exact ⟨h.config, h.odr, fun m hm hmn ho => h.output m hm hmn ⟨ho.mode, ho.dir⟩,
      h.outIrq, h.line⟩
  · exact h

/-- What a write to `BSRR` or `BRR` of the bit of one output does. -/
structure Drives (n : ℕ) (b : Bool) (s s' : Stm32Gpio) : Prop where
  touches : Touches n s s' [(n, b)]
  output : IsOutput s' n
  odr : s'.ODR.getLsbD n = b

/-- **A write to `BSRR`** sets an output. -/
theorem write_BSRR_returns (clkEnabled : Bool) (hn : n < 16) (ho : IsOutput s n) :
    Returns (write clkEnabled s 0x10 (BIT n)) (Drives n true s) := by
  set u := checked clkEnabled s with hu
  have hbits :
      ∀ m < 16, (u.ODR &&& (~~~(BIT n >>> 16) &&& 0xffff#32) ||| BIT n &&& 0xffff#32).getLsbD m =
      if m = n then true else u.ODR.getLsbD m := by
    intro m hm
    have h₁ : ¬16 + m = n := by omega
    have h₂ : m < 32 := by omega
    simp only [BitVec.getLsbD_or, BitVec.getLsbD_and, BitVec.getLsbD_not,
      BitVec.getLsbD_ushiftRight,
      getLsbD_0xffff, BIT, getLsbD_bit, hm, h₁, h₂, decide_true, decide_false, Bool.false_and,
      Bool.not_false, Bool.and_true]
    by_cases hmn : m = n <;> simp [hmn]
  obtain ⟨htouches, hout, hodr⟩ := triggerIrq_touches hn (hu ▸ ho.checked) hbits
  exact ⟨_, rfl, htouches.of_checked, hout, hodr⟩

/-- **A write to `BRR`** resets an output. -/
theorem write_BRR_returns (clkEnabled : Bool) (hn : n < 16) (ho : IsOutput s n) :
    Returns (write clkEnabled s 0x14 (BIT n)) (Drives n false s) := by
  set u := checked clkEnabled s with hu
  have hbits : ∀ m < 16, (u.ODR &&& (~~~BIT n &&& 0xffff#32)).getLsbD m =
      if m = n then false else u.ODR.getLsbD m := by
    intro m hm
    have h₂ : m < 32 := by omega
    simp only [BitVec.getLsbD_and, BitVec.getLsbD_not, getLsbD_0xffff, BIT, getLsbD_bit, hm, h₂,
      decide_true, Bool.true_and, Bool.and_true]
    by_cases hmn : m = n <;> simp [hmn]
  obtain ⟨htouches, hout, hodr⟩ := triggerIrq_touches hn (hu ▸ ho.checked) hbits
  exact ⟨_, rfl, htouches.of_checked, hout, hodr⟩

end Gpio
end Especial
