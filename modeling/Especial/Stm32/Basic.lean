/-
# Peripherals, register faults and warnings of the STM32 devices

`include/hw/arm/stm32.h` and `hw/arm/stm32.c`: the peripherals that have a device
model, their names, and the texts of the two macros that stop the emulator on a
register it does not know (`STM32_BAD_REG`) or does not implement
(`STM32_NOT_IMPL_REG`).
-/

import Especial.Qemu.Basic

namespace Especial
namespace Stm32

open Qemu

/-- `stm32_periph_t`, as far as the machine has a model of the peripheral. -/
inductive Periph
  | gpioa | gpiob | gpioc | gpiod | gpioe | gpiof | gpiog
  | afio
  | uart1 | uart2 | uart3 | uart4 | uart5
  deriving DecidableEq, Repr

/-- `stm32_periph_name`. -/
def Periph.name : Periph → String
  | .gpioa => "GPIOA" | .gpiob => "GPIOB" | .gpioc => "GPIOC" | .gpiod => "GPIOD"
  | .gpioe => "GPIOE" | .gpiof => "GPIOF" | .gpiog => "GPIOG"
  | .afio => "AFIO"
  | .uart1 => "UART1" | .uart2 => "UART2" | .uart3 => "UART3" | .uart4 => "UART4"
  | .uart5 => "UART5"

/-- The number of the peripheral in `stm32.h`. -/
def Periph.number : Periph → ℕ
  | .gpioa => 1 | .gpiob => 2 | .gpioc => 3 | .gpiod => 4 | .gpioe => 5 | .gpiof => 6 | .gpiog => 7
  | .afio => 8
  | .uart1 => 9 | .uart2 => 10 | .uart3 => 11 | .uart4 => 12 | .uart5 => 13

/-- `%x`. -/
def hex (n : ℕ) : String := String.ofList (Nat.toDigits 16 n)

/-- `STM32_BAD_REG(offset, size)` in the function `fn`. -/
def badReg (fn : String) (offset size : ℕ) : Fault :=
  .hwError s!"{fn}: Bad register 0x{hex offset} - size {size}\n"

/-- `STM32_NOT_IMPL_REG(offset, size)` in the function `fn`. -/
def notImplReg (fn : String) (offset size : ℕ) : Fault :=
  .hwError s!"{fn}: Not implemented yet 0x{hex offset} - size {size}\n"

/-- The text `stm32_rcc_check_periph_clk` warns with. -/
def periphClkWarning (p : Periph) : String :=
  s!"Warning: You are attempting to use the {p.name} peripheral while its clock is disabled.\n"

/-- `STM32_GPIO_MODE_IN`. -/
def GPIO_MODE_IN : BitVec 8 := 0

/-- `STM32_GPIO_OUT_ALT_PUSHPULL`. -/
def GPIO_OUT_ALT_PUSHPULL : BitVec 8 := 2

/-- `STM32_GPIO_OUT_ALT_OPEN`. -/
def GPIO_OUT_ALT_OPEN : BitVec 8 := 3

/-- `FunctionalState` of the firmware library. -/
inductive FunctionalState
  | DISABLE
  | ENABLE
  deriving DecidableEq, Repr

end Stm32
end Especial
