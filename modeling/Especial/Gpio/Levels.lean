/-
# What the machine sees of an output pin

A port drives the line of an output with `qemu_set_irq`, from two places:
`stm32_gpio_GPIOx_ODR_write` drives the outputs whose bit changes, and
`stm32_gpio_trigger_irq`, for `BSRR` and `BRR`, those that the low half of the value
names.  `stm32_gpio_update_dir` drives nothing.

Each of the sixteen pins is handled by itself.  `PinState` is what a port keeps of one
pin, and `write_pin` says what a write of any register does to it.  The direction mask,
which decides what is driven, is that of the mode bits in every state
(`dir_mask_iff_mode_bits`).
-/

import Especial.Gpio.Pins
import Especial.Lib.Drive
import Especial.Lib.Run

namespace Especial
namespace Gpio

open Qemu Stm32 Lib

variable {s s' : Stm32Gpio} {n : ℕ} {v : BitVec 32}

/-! ### One pin -/

/-- What a port keeps of one pin: whether it is an output, its bit of the output
register, and the level that its line was last driven to. -/
structure PinState where
  out : Bool
  odr : Bool
  level : Bool

/-- A pin of a port. -/
def Stm32Gpio.pin (s : Stm32Gpio) (n : ℕ) : PinState :=
  ⟨s.dirMask.getLsbD n, s.ODR.getLsbD n, lastLevel s.outIrq n⟩

namespace PinState

/-- `stm32_gpio_GPIOx_ODR_write`: the line of an output follows a change of its bit. -/
def write (p : PinState) (b : Bool) : PinState :=
  { p with odr := b, level := if p.out && (p.odr != b) then b else p.level }

/-- `stm32_gpio_trigger_irq`: the line of an output is driven if the pin is named. -/
def trigger (p : PinState) (named b : Bool) : PinState :=
  { p with odr := b, level := if named && p.out then b else p.level }

end PinState

/-- The mode bits of pin `k` of a configuration register are not both `0`. -/
def outputMode (v : BitVec 32) (k : ℕ) : Bool := v.getLsbD (4 * k) || v.getLsbD (4 * k + 1)

/-- Pin `n` after a write of `v` to the register at `offset`. -/
def PinState.after (p : PinState) (n offset : ℕ) (v : BitVec 32) : PinState :=
  match offset with
  | 0x00 => if n < 8 then { p with out := outputMode v n } else p
  | 0x04 => if n < 8 then p else { p with out := outputMode v (n - 8) }
  | 0x0c => p.write (v.getLsbD n)
  | 0x10 => p.trigger (v.getLsbD n) ((p.odr && !v.getLsbD (16 + n)) || v.getLsbD n)
  | 0x14 => p.trigger (v.getLsbD n) (p.odr && !v.getLsbD n)
  | _ => p

/-! ### Configurations -/

/-- The mode bits of a pin, in the register that holds them. -/
theorem getModeBits_ne_zero (s : Stm32Gpio) (n : ℕ) : decide (getModeBits s n ≠ 0#8) =
    if n < 8 then outputMode s.CRL n else outputMode s.CRH (n - 8) := by
  have hbits : ∀ q : BitVec 8, decide (q &&& 0x3#8 ≠ 0#8) = (q.getLsbD 0 || q.getLsbD 1) := by
    decide
  rw [getModeBits, hbits, getLsbD_getPinConfig, getLsbD_getPinConfig]
  split_ifs with hn
  · rfl
  · have h₀ : 4 * n + 0 - 32 = 4 * (n - 8) := by omega
    have h₁ : 4 * n + 1 - 32 = 4 * (n - 8) + 1 := by omega
    rw [h₀, h₁]
    rfl

/-- The registers are consistent: the direction mask is that of the mode bits, and `ODR`
has sixteen bits. -/
structure PortOk (s : Stm32Gpio) : Prop where
  dir : ∀ n < 16, s.dirMask.getLsbD n = decide (getModeBits s n ≠ 0#8)
  odr : ∀ n, 16 ≤ n → s.ODR.getLsbD n = false

/-- The port after `stm32_gpio_update_dir`: the directions of eight pins. -/
theorem updateDir_pin {half : ℕ} (hhalf : half = 0 ∨ half = 1) (h : updateDir s half = .ok s')
    (n : ℕ) : s'.pin n =
      if n / 8 = half then { s.pin n with out := decide (getModeBits s n ≠ 0#8) }
        else s.pin n := by
  obtain ⟨dirMask, rfl, hmask⟩ := (updateDir_returns hhalf s).of_eq_ok h
  have hmem : n ∈ List.range' (half * 8) 8 ↔ n / 8 = half := by
    rw [List.mem_range'_1]
    omega
  simp only [Stm32Gpio.pin, hmask, hmem]
  split_ifs <;> rfl

/-! ### The output register -/

/-- The calls on the lines of the pins of a mask. -/
theorem driveOutputs_pin (s : Stm32Gpio) (mask : BitVec 16) (n : ℕ) :
    (driveOutputs s mask).pin n =
      { s.pin n with level := if mask.getLsbD n then s.ODR.getLsbD n else (s.pin n).level } := by
  set calls := ((List.range PIN_COUNT).filter mask.getLsbD).map fun pin =>
    (pin, s.ODR.getLsbD pin) with hcalls
  have hlevels : ∀ d ∈ calls, d.2 = s.ODR.getLsbD d.1 := by
    intro d hd
    obtain ⟨pin, -, rfl⟩ := List.mem_map.1 hd
    rfl
  have hdriven : (∃ d ∈ calls, d.1 = n) ↔ mask.getLsbD n = true := by
    constructor
    · rintro ⟨d, hd, rfl⟩
      obtain ⟨pin, hpin, rfl⟩ := List.mem_map.1 hd
      exact (List.mem_filter.1 hpin).2
    · intro hmask
      refine ⟨_, List.mem_map.2 ⟨n, List.mem_filter.2 ⟨?_, hmask⟩, rfl⟩, rfl⟩
      exact List.mem_range.2 (BitVec.lt_of_getLsbD hmask)
  have hlast : lastLevel (s.outIrq ++ calls) n =
      if mask.getLsbD n then s.ODR.getLsbD n else lastLevel s.outIrq n := by
    rw [lastLevel_append_of_forall (f := fun pin => s.ODR.getLsbD pin) hlevels]
    exact if_congr hdriven rfl rfl
  exact congrArg (PinState.mk (s.dirMask.getLsbD n) (s.ODR.getLsbD n)) hlast

/-- A pin of a port with another `ODR`, of which sixteen bits are stored. -/
theorem pin_setODR (s : Stm32Gpio) (v : BitVec 32) (hn : n < 16) :
    ({ s with ODR := v &&& 0xffff#32 } : Stm32Gpio).pin n =
      { s.pin n with odr := v.getLsbD n } := by
  have hodr : (v &&& 0xffff#32).getLsbD n = v.getLsbD n := by
    rw [BitVec.getLsbD_and, getLsbD_0xffff, decide_eq_true hn, Bool.and_true]
  rw [← hodr]
  rfl

/-- A write of `ODR`, pin by pin. -/
theorem odrWrite_pin (hn : n < 16) : (odrWrite s v).pin n = (s.pin n).write (v.getLsbD n) := by
  have hpin := pin_setODR s v hn
  have hmask : ((s.ODR ^^^ v).setWidth 16 &&& s.dirMask).getLsbD n =
      ((s.pin n).out && ((s.pin n).odr != v.getLsbD n)) := by
    rw [BitVec.getLsbD_and, BitVec.getLsbD_setWidth, BitVec.getLsbD_xor, decide_eq_true hn,
      Bool.true_and, Bool.and_comm]
    rfl
  unfold odrWrite
  dsimp only
  split_ifs with hchanged
  · rw [driveOutputs_pin, hpin, hmask]
    have hbit := congrArg PinState.odr hpin
    exact congrArg (fun b => { s.pin n with
      odr := v.getLsbD n
      level := if (s.pin n).out && ((s.pin n).odr != v.getLsbD n) then b
      else (s.pin n).level }) hbit
  · -- no output changes
    have hnone : ((s.pin n).out && ((s.pin n).odr != v.getLsbD n)) = false := by
      rw [← hmask, not_not.1 hchanged, BitVec.getLsbD_zero]
    rw [hpin, PinState.write, hnone]
    rfl

/-- `stm32_gpio_trigger_irq`, pin by pin. -/
theorem triggerIrq_pin {pinNbr : BitVec 16} (hn : n < 16) :
    (triggerIrq s v pinNbr).pin n = (s.pin n).trigger (pinNbr.getLsbD n) (v.getLsbD n) := by
  have hpin := pin_setODR s v hn
  have hbit := congrArg PinState.odr hpin
  unfold triggerIrq
  dsimp only
  rw [driveOutputs_pin, hpin, BitVec.getLsbD_and]
  exact congrArg (fun b => { s.pin n with
    odr := v.getLsbD n
    level := if pinNbr.getLsbD n && (s.pin n).out then b else (s.pin n).level }) hbit

/-! ### Any register -/

/-- What a write does, to the port after the check of its clock. -/
inductive Written (s : Stm32Gpio) (v : BitVec 32) : ℕ → Stm32Gpio → Prop
  | crl {s' : Stm32Gpio} (h : updateDir { s with CRL := v } 0 = .ok s') : Written s v 0x00 s'
  | crh {s' : Stm32Gpio} (h : updateDir { s with CRH := v } 1 = .ok s') : Written s v 0x04 s'
  | idr : Written s v 0x08 (warn s (warnRo "stm32_gpio_write" 0x08))
  | odr : Written s v 0x0c (odrWrite s v)
  | bsrr : Written s v 0x10 (triggerIrq s
      (s.ODR &&& (~~~(v >>> 16) &&& 0xffff#32) ||| v &&& 0xffff#32) (v.setWidth 16))
  | brr : Written s v 0x14 (triggerIrq s (s.ODR &&& (~~~v &&& 0xffff#32)) (v.setWidth 16))

/-- What a write does, by its register. -/
theorem write_written {clkEnabled : Bool} {offset : ℕ}
    (h : write clkEnabled s offset v = .ok s') : Written (checked clkEnabled s) v offset s' := by
  unfold write at h
  dsimp only at h
  split at h
  · exact .crl h
  · exact .crh h
  · obtain rfl := pure_eq_ok.1 h
    exact .idr
  · obtain rfl := pure_eq_ok.1 h
    exact .odr
  · obtain rfl := pure_eq_ok.1 h
    exact .bsrr
  · obtain rfl := pure_eq_ok.1 h
    exact .brr
  · exact absurd h throw_ne_ok
  · exact absurd h throw_ne_ok

/-- The check of the clock keeps the pins. -/
theorem checked_pin (clkEnabled : Bool) (s : Stm32Gpio) (n : ℕ) :
    (checked clkEnabled s).pin n = s.pin n := by
  cases clkEnabled <;> rfl

/-- **A write acts on each pin by itself.** -/
theorem write_pin {clkEnabled : Bool} {offset : ℕ} (h : write clkEnabled s offset v = .ok s')
    (hn : n < 16) : s'.pin n = (s.pin n).after n offset v := by
  have hlow : ∀ w : BitVec 32, (w.setWidth 16).getLsbD n = w.getLsbD n := fun w => by
    rw [BitVec.getLsbD_setWidth, decide_eq_true hn, Bool.true_and]
  have hset : ∀ w : BitVec 32, (w &&& 0xffff#32).getLsbD n = w.getLsbD n := fun w => by
    rw [BitVec.getLsbD_and, getLsbD_0xffff, decide_eq_true hn, Bool.and_true]
  have hreset : ∀ w : BitVec 32, (~~~w &&& 0xffff#32).getLsbD n = !w.getLsbD n := fun w => by
    rw [hset, BitVec.getLsbD_not, decide_eq_true (by omega : n < 32), Bool.true_and]
  rw [← checked_pin clkEnabled s n]
  generalize hu : checked clkEnabled s = u
  cases hu ▸ write_written h with
  | crl h =>
    rw [updateDir_pin (Or.inl rfl) h, getModeBits_ne_zero]
    by_cases h8 : n < 8
    · rw [if_pos (by omega), if_pos h8, PinState.after, if_pos h8]
      rfl
    · rw [if_neg (by omega), PinState.after, if_neg h8]
      rfl
  | crh h =>
    rw [updateDir_pin (Or.inr rfl) h, getModeBits_ne_zero]
    by_cases h8 : n < 8
    · rw [if_neg (by omega), PinState.after, if_pos h8]
      rfl
    · rw [if_pos (by omega), if_neg h8, PinState.after, if_neg h8]
      rfl
  | idr => rfl
  | odr => exact odrWrite_pin hn
  | bsrr =>
    rw [triggerIrq_pin hn, hlow, BitVec.getLsbD_or, BitVec.getLsbD_and, hreset, hset,
      BitVec.getLsbD_ushiftRight]
    rfl
  | brr =>
    rw [triggerIrq_pin hn, hlow, BitVec.getLsbD_and, hreset]
    rfl

/-- A write to a configuration register: the directions of its own half are computed
again, and those of the other half have to be right. -/
theorem updateDir_ok {half : ℕ} (hhalf : half = 0 ∨ half = 1) (h : updateDir s half = .ok s')
    (hdir : ∀ n < 16, n / 8 ≠ half → s.dirMask.getLsbD n = decide (getModeBits s n ≠ 0#8))
    (hodr : ∀ n, 16 ≤ n → s.ODR.getLsbD n = false) : PortOk s' := by
  have hout : ∀ n, s'.dirMask.getLsbD n =
      if n / 8 = half then decide (getModeBits s n ≠ 0#8) else s.dirMask.getLsbD n := fun n => by
    have hpin := congrArg PinState.out (updateDir_pin hhalf h n)
    rw [apply_ite PinState.out] at hpin
    exact hpin
  obtain ⟨dirMask, rfl, -⟩ := (updateDir_returns hhalf s).of_eq_ok h
  refine ⟨fun n hn => ?_, hodr⟩
  rw [hout]
  split_ifs with hn8
  · rfl
  · exact hdir n hn hn8

/-- **A write keeps the registers consistent.** -/
theorem PortOk.write {clkEnabled : Bool} {offset : ℕ} (hok : PortOk s)
    (h : write clkEnabled s offset v = .ok s') : PortOk s' := by
  have hu : PortOk (checked clkEnabled s) := by cases clkEnabled <;> exact ⟨hok.dir, hok.odr⟩
  have hhigh : ∀ (w : BitVec 32) (m : ℕ), 16 ≤ m → (w &&& 0xffff#32).getLsbD m = false := by
    intro w m hm
    rw [BitVec.getLsbD_and, getLsbD_0xffff, decide_eq_false (by omega), Bool.and_false]
  cases write_written h with
  | crl h =>
    refine updateDir_ok (Or.inl rfl) h (fun n hn hn8 => ?_) hu.odr
    have h8 : ¬n < 8 := by omega
    have hdir := hu.dir n hn
    rw [getModeBits_ne_zero, if_neg h8] at hdir ⊢
    exact hdir
  | crh h =>
    refine updateDir_ok (Or.inr rfl) h (fun n hn hn8 => ?_) hu.odr
    have h8 : n < 8 := by omega
    have hdir := hu.dir n hn
    rw [getModeBits_ne_zero, if_pos h8] at hdir ⊢
    exact hdir
  | idr => exact ⟨hu.dir, hu.odr⟩
  | odr =>
    unfold odrWrite
    dsimp only
    split_ifs <;> exact ⟨hu.dir, hhigh v⟩
  | bsrr => exact ⟨hu.dir, hhigh _⟩
  | brr => exact ⟨hu.dir, hhigh _⟩

/-! ### Every state of a port -/

/-- What can happen to a port; the AFIO sets the pointers `in_irq`. -/
inductive PortEvent
  | read (offset : ℕ)
  | write (clkEnabled : Bool) (offset : ℕ) (value : BitVec 32)
  | inTrigger (pin : ℕ) (level : Bool)
  | connect (pin : ℕ) (irq : Option ℕ)
  | reset
  deriving DecidableEq, Repr

/-- What it does. -/
def portStep (s : Stm32Gpio) : PortEvent → Except Fault Stm32Gpio
  | .read offset => do
    let (_, s) ← read s offset
    return s
  | .write clkEnabled offset value => write clkEnabled s offset value
  | .inTrigger pin level => do
    assert (pin < PIN_COUNT) "pin < STM32_GPIO_PIN_COUNT"
    return setInput s pin level
  | .connect pin irq => return { s with inIrq := Function.update s.inIrq pin irq }
  | .reset => return reset s

/-- A step that does not fault. -/
def PortStep (s : Stm32Gpio) (e : PortEvent) (s' : Stm32Gpio) : Prop := portStep s e = .ok s'

/-- A read changes nothing, apart from the warnings. -/
theorem read_frame {offset : ℕ} {value : BitVec 32} (h : read s offset = .ok (value, s')) :
    ∃ w, s' = { s with warnings := w } := by
  unfold read at h
  split at h
  all_goals first
    | exact absurd h throw_ne_ok
    | (obtain ⟨-, rfl⟩ := Prod.mk.inj (pure_eq_ok.1 h); exact ⟨_, rfl⟩)

/-- The registers are consistent after a reset. -/
theorem reset_ok (s : Stm32Gpio) : PortOk (reset s) := by
  refine ⟨fun n hn => ?_, fun n _ => BitVec.getLsbD_zero⟩
  have hmode : ∀ n < 16, (if n < 8 then outputMode 0x44444444#32 n
      else outputMode 0x44444444#32 (n - 8)) = false := by decide
  rw [getModeBits_ne_zero]
  exact BitVec.getLsbD_zero.trans (hmode n hn).symm

/-- **They stay consistent in every step.** -/
theorem portStep_ok {e : PortEvent} (hok : PortOk s) (h : PortStep s e s') : PortOk s' := by
  cases e with
  | read offset =>
    obtain ⟨⟨value, u⟩, hr, h⟩ := bind_eq_ok.1 h
    obtain rfl := pure_eq_ok.1 h
    obtain ⟨w, rfl⟩ := read_frame hr
    exact ⟨hok.dir, hok.odr⟩
  | write clkEnabled offset value => exact hok.write h
  | inTrigger pin level =>
    obtain ⟨_, -, h⟩ := bind_eq_ok.1 h
    obtain rfl := pure_eq_ok.1 h
    exact ⟨hok.dir, hok.odr⟩
  | connect pin irq =>
    obtain rfl := pure_eq_ok.1 h
    exact ⟨hok.dir, hok.odr⟩
  | reset =>
    obtain rfl := pure_eq_ok.1 h
    exact reset_ok s

/-- They are consistent when the port is allocated. -/
theorem alloc_ok (periph : Periph) : PortOk (.alloc periph) := by
  refine ⟨fun n _ => ?_, fun n _ => BitVec.getLsbD_zero⟩
  rw [getModeBits_ne_zero]
  simp [Stm32Gpio.alloc, outputMode]

/-- **A run keeps the registers consistent.** -/
theorem PortOk.run {l : List PortEvent} (hok : PortOk s) (h : Run PortStep s l s') : PortOk s' :=
  h.invariant (fun _ _ _ hs hi => portStep_ok hs hi) hok

/-- The registers of a port are consistent in every state. -/
theorem run_ok {periph : Periph} {l : List PortEvent} (h : Run PortStep (.alloc periph) l s) :
    PortOk s :=
  (alloc_ok periph).run h

/-- `CRH:CRL`. -/
def Stm32Gpio.cr64 (s : Stm32Gpio) : BitVec 64 := s.CRH ++ s.CRL

/-- The mode bits of a pin, in the value of both registers. -/
theorem getModeBits_ne_zero_cr64 (s : Stm32Gpio) (n : ℕ) : decide (getModeBits s n ≠ 0#8) =
    (s.cr64.getLsbD (4 * n) || s.cr64.getLsbD (4 * n + 1)) := by
  rw [getModeBits_ne_zero, Stm32Gpio.cr64, BitVec.getLsbD_append, BitVec.getLsbD_append]
  by_cases hn : n < 8
  · rw [if_pos hn, if_pos (by omega), if_pos (by omega)]
    rfl
  · have h₀ : 4 * n - 32 = 4 * (n - 8) := by omega
    have h₁ : 4 * n + 1 - 32 = 4 * (n - 8) + 1 := by omega
    rw [if_neg hn, if_neg (by omega), if_neg (by omega), h₀, h₁]
    rfl

/-- **The direction mask is that of the mode bits**, and `ODR` has sixteen bits, in every state
after a reset. -/
theorem dir_mask_iff_mode_bits (s₀ s : Stm32Gpio) (l : List PortEvent)
    (h : Run PortStep (reset s₀) l s) :
    (∀ pin < 16, s.dirMask.getLsbD pin = true ↔
      ¬(s.cr64.getLsbD (4 * pin) = false ∧ s.cr64.getLsbD (4 * pin + 1) = false)) ∧
      s.ODR >>> 16 = 0#32 := by
  have hok : PortOk s := (reset_ok s₀).run h
  refine ⟨fun pin hpin => ?_, ?_⟩
  · rw [hok.dir pin hpin, getModeBits_ne_zero_cr64]
    cases s.cr64.getLsbD (4 * pin) <;> cases s.cr64.getLsbD (4 * pin + 1) <;> decide
  · apply BitVec.eq_of_getLsbD_eq
    intro i _
    rw [BitVec.getLsbD_ushiftRight, hok.odr (16 + i) (by omega), BitVec.getLsbD_zero]

/-- Pin 9 becomes an output, an input changes, and all bits of the output register are set. -/
theorem dir_mask_pin9 : ∃ s, Run PortStep (reset (.alloc .gpioa))
    [.write true 0x04 0x44444424#32, .inTrigger 3 true, .write true 0x0c 0xffffffff#32] s ∧
    s.dirMask.getLsbD 9 = true ∧ s.ODR >>> 16 = 0#32 := by
  have hrun : ∃ s, Run PortStep (reset (.alloc .gpioa))
      [.write true 0x04 0x44444424#32, .inTrigger 3 true, .write true 0x0c 0xffffffff#32] s ∧
      s.cr64.getLsbD 37 = true :=
    ⟨_, .cons rfl (.cons rfl (.cons rfl (.nil _))), rfl⟩
  obtain ⟨s, hrun, hbit⟩ := hrun
  obtain ⟨hdir, hodr⟩ := dir_mask_iff_mode_bits _ s _ hrun
  refine ⟨s, hrun, (hdir 9 (by decide)).2 fun hboth => ?_, hodr⟩
  exact absurd (hbit.symm.trans hboth.2) (by decide)

end Gpio
end Especial
