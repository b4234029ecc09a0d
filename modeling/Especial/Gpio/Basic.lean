/-
# A GPIO port of the emulator

A translation of `hw/gpio/stm32_gpio.c`.  A port has sixteen pins.  Towards the
machine each pin has an input, which `stm32_gpio_in_trigger` serves, and an output
line; towards the other devices it has a line `in_irq` that relays a change of the
input.  That line is a pointer which the AFIO sets: `none` for `NULL`, and otherwise
the number of the input of the EXTI controller it points to.

The calls of `qemu_set_irq` on the outputs are kept in order.
-/

import Especial.Stm32.Basic

namespace Especial
namespace Gpio

open Qemu Stm32 Lib

/-- `STM32_GPIO_PIN_COUNT`. -/
def PIN_COUNT : ℕ := 16

/-- `Stm32Gpio`. -/
structure Stm32Gpio where
  periph : Periph
  /-- `GPIOx_CRy[0]` -/
  CRL : BitVec 32
  /-- `GPIOx_CRy[1]` -/
  CRH : BitVec 32
  ODR : BitVec 32
  /-- `in` -/
  inputs : BitVec 16
  /-- input = 0, output = 1 -/
  dirMask : BitVec 16
  /-- the calls on `out_irq` -/
  outIrq : List (ℕ × Bool)
  inIrq : ℕ → Option ℕ
  warnings : List String

/-- The port as it is allocated. -/
def Stm32Gpio.alloc (periph : Periph) : Stm32Gpio where
  periph := periph
  CRL := 0#32
  CRH := 0#32
  ODR := 0#32
  inputs := 0#16
  dirMask := 0#16
  outIrq := []
  inIrq := fun _ => none
  warnings := []

/-- `stm32_gpio_get_pin_config`. -/
def getPinConfig (s : Stm32Gpio) (pin : ℕ) : BitVec 8 :=
  let cr64 : BitVec 64 := s.CRH.setWidth 64 <<< 32 ||| s.CRL.setWidth 64
  (extract64 cr64 (pin * 4) 4).setWidth 8

/-- `stm32_gpio_get_config_bits`. -/
def getConfigBits (s : Stm32Gpio) (pin : ℕ) : BitVec 8 := getPinConfig s pin >>> 2 &&& 0x3#8

/-- `stm32_gpio_get_mode_bits`. -/
def getModeBits (s : Stm32Gpio) (pin : ℕ) : BitVec 8 := getPinConfig s pin &&& 0x3#8

/-- The level of an input changes: the first half of `stm32_gpio_in_trigger`. -/
def setInput (s : Stm32Gpio) (pin : ℕ) (level : Bool) : Stm32Gpio :=
  { s with inputs := writeBit s.inputs pin level }

/-- The body of the loop of `stm32_gpio_update_dir`. -/
def updatePinDir (s : Stm32Gpio) (pin : ℕ) : Stm32Gpio :=
  { s with dirMask := writeBit s.dirMask pin (getModeBits s pin ≠ 0#8) }

/-- `stm32_gpio_update_dir`. -/
def updateDir (s : Stm32Gpio) (crIndex : ℕ) : Except Fault Stm32Gpio := do
  assert (crIndex = 0 ∨ crIndex = 1) "(cr_index == 0) || (cr_index == 1)"
  return (List.range' (crIndex * 8) 8).foldl updatePinDir s

/-- The calls on the outputs of the pins of a mask, in order. -/
def driveOutputs (s : Stm32Gpio) (mask : BitVec 16) : Stm32Gpio :=
  { s with outIrq := s.outIrq ++
      ((List.range PIN_COUNT).filter mask.getLsbD).map fun pin => (pin, s.ODR.getLsbD pin) }

/-- `stm32_gpio_GPIOx_ODR_write`. -/
def odrWrite (s : Stm32Gpio) (newValue : BitVec 32) : Stm32Gpio :=
  let oldValue := s.ODR
  let s := { s with ODR := newValue &&& 0xffff#32 }
  let changed := (oldValue ^^^ newValue).setWidth 16
  let changedOut := changed &&& s.dirMask
  if changedOut ≠ 0#16 then driveOutputs s changedOut else s

/-- `stm32_gpio_trigger_irq`. -/
def triggerIrq (s : Stm32Gpio) (newValue : BitVec 32) (pinNbr : BitVec 16) : Stm32Gpio :=
  let pinNbr := pinNbr &&& s.dirMask
  driveOutputs { s with ODR := newValue &&& 0xffff#32 } pinNbr

/-- A text of `qemu_log_mask` or `stm32_hw_warn`. -/
def warn (s : Stm32Gpio) (text : String) : Stm32Gpio := { s with warnings := s.warnings ++ [text] }

/-- `STM32_WARN_RO_REG(offset)`. -/
def warnRo (fn : String) (offset : ℕ) : String := s!"{fn}: Read-only register 0x{hex offset}\n"

/-- `STM32_WARN_WO_REG(offset)`. -/
def warnWo (fn : String) (offset : ℕ) : String := s!"{fn}: Write-only register 0x{hex offset}\n"

/-- `stm32_gpio_read`. -/
def read (s : Stm32Gpio) (offset : ℕ) : Except Fault (BitVec 32 × Stm32Gpio) :=
  match offset with
  | 0x00 => return (s.CRL, s)
  | 0x04 => return (s.CRH, s)
  | 0x08 => return (s.inputs.setWidth 32, s)
  | 0x0c => return (s.ODR, s)
  | 0x10 => return (0#32, warn s (warnWo "stm32_gpio_read" offset))
  | 0x14 => return (0#32, warn s (warnWo "stm32_gpio_read" offset))
  | 0x18 => return (0#32, s)
  | _ => throw (badReg "stm32_gpio_read" offset 4)

/-- `stm32_gpio_write`; `clkEnabled` is the gate that `stm32_rcc_check_periph_clk`
looks at. -/
def write (clkEnabled : Bool) (s : Stm32Gpio) (offset : ℕ) (value : BitVec 32) :
    Except Fault Stm32Gpio :=
  let s := if clkEnabled then s else warn s (periphClkWarning s.periph)
  let pinNbr := value.setWidth 16
  match offset with
  | 0x00 => updateDir { s with CRL := value } 0
  | 0x04 => updateDir { s with CRH := value } 1
  | 0x08 => return warn s (warnRo "stm32_gpio_write" offset)
  | 0x0c => return odrWrite s value
  | 0x10 =>
    let setMask := value &&& 0xffff#32
    let resetMask := ~~~(value >>> 16) &&& 0xffff#32
    return triggerIrq s (s.ODR &&& resetMask ||| setMask) pinNbr
  | 0x14 =>
    let resetMask := ~~~value &&& 0xffff#32
    return triggerIrq s (s.ODR &&& resetMask) pinNbr
  | 0x18 => throw (notImplReg "stm32_gpio_write" offset 4)
  | _ => throw (badReg "stm32_gpio_write" offset 4)

/-- `stm32_gpio_reset`; the inputs stay as they are. -/
def reset (s : Stm32Gpio) : Stm32Gpio :=
  { s with
    CRL := 0x44444444#32
    CRH := 0x44444444#32
    ODR := 0#32
    dirMask := 0#16
    outIrq := s.outIrq ++ (List.range PIN_COUNT).map fun pin => (pin, false) }

/-! ### The port never rewires its own lines -/

variable {s s' : Stm32Gpio}

/-- The loop over the pins keeps the links to the EXTI controller. -/
theorem foldl_updatePinDir_inIrq (pins : List ℕ) (s : Stm32Gpio) :
    (pins.foldl updatePinDir s).inIrq = s.inIrq := by
  induction pins generalizing s with
  | nil => rfl
  | cons pin pins ih =>
    rw [List.foldl_cons, ih]
    rfl

/-- So does `stm32_gpio_update_dir`. -/
theorem updateDir_inIrq {crIndex : ℕ} (h : updateDir s crIndex = .ok s') :
    s'.inIrq = s.inIrq := by
  unfold updateDir at h
  obtain ⟨_, -, h⟩ := bind_eq_ok.1 h
  rw [← pure_eq_ok.1 h]
  exact foldl_updatePinDir_inIrq _ s

/-- So does a write of the output register. -/
theorem odrWrite_inIrq (s : Stm32Gpio) (newValue : BitVec 32) :
    (odrWrite s newValue).inIrq = s.inIrq := by
  unfold odrWrite
  dsimp only
  split_ifs <;> rfl

/-- **A write of a port keeps its links.** -/
theorem write_inIrq {clkEnabled : Bool} {offset : ℕ} {value : BitVec 32}
    (h : write clkEnabled s offset value = .ok s') : s'.inIrq = s.inIrq := by
  have hwarn : (if clkEnabled then s else warn s (periphClkWarning s.periph)).inIrq = s.inIrq := by
    cases clkEnabled <;> rfl
  unfold write at h
  dsimp only at h
  generalize (if clkEnabled then s else warn s (periphClkWarning s.periph)) = u at h hwarn
  rw [← hwarn]
  split at h
  · rw [updateDir_inIrq h]
  · rw [updateDir_inIrq h]
  · rw [← pure_eq_ok.1 h]
    rfl
  · rw [← pure_eq_ok.1 h]
    exact odrWrite_inIrq u value
  · rw [← pure_eq_ok.1 h]
    rfl
  · rw [← pure_eq_ok.1 h]
    rfl
  · exact absurd h throw_ne_ok
  · exact absurd h throw_ne_ok

end Gpio
end Especial
