/-
# The AFIO of the emulator, with the ports and the EXTI controller behind it

A translation of `hw/gpio/stm32_afio.c`.  The AFIO has links to the seven GPIO ports
and to the EXTI controller: a write to one of its `EXTICR` registers connects the
`in_irq` lines of the ports to the inputs of the controller.  So its functions act
on the state `Io` of all of them.

An index into the array of ports is a nibble of a register, and nothing keeps it
below seven: the access out of bounds is a fault here.
-/

import Especial.Gpio.Basic
import Especial.Exti.Basic

namespace Especial
namespace Afio

open Qemu Stm32 Lib Gpio Exti

/-- `STM32_GPIO_COUNT`. -/
def GPIO_COUNT : ℕ := 7

/-- `AFIO_EXTI_PER_CR`. -/
def EXTI_PER_CR : ℕ := 4

/-- `Stm32Afio`.  Nothing writes `AFIO_MAPR`. -/
structure Stm32Afio where
  USART1_REMAP : BitVec 32
  USART2_REMAP : BitVec 32
  USART3_REMAP : BitVec 32
  AFIO_MAPR : BitVec 32
  EXTICR : Fin 4 → BitVec 32
  warnings : List String

/-- The AFIO and what its links point to. -/
structure Io where
  gpio : Fin GPIO_COUNT → Stm32Gpio
  exti : Stm32Exti
  afio : Stm32Afio

/-- The port with an index, `STM32_GPIOA + i`. -/
def portPeriph : Fin GPIO_COUNT → Periph :=
  ![.gpioa, .gpiob, .gpioc, .gpiod, .gpioe, .gpiof, .gpiog]

/-- The devices as they are allocated. -/
def Io.alloc : Io where
  gpio i := Stm32Gpio.alloc (portPeriph i)
  exti := Stm32Exti.init
  afio :=
    { USART1_REMAP := 0#32, USART2_REMAP := 0#32, USART3_REMAP := 0#32, AFIO_MAPR := 0#32
      EXTICR := fun _ => 0#32, warnings := [] }

/-! ### Registers -/

/-- `stm32_afio_AFIO_MAPR_read`. -/
def maprRead (s : Stm32Afio) : BitVec 32 :=
  s.USART1_REMAP <<< 2 ||| s.USART2_REMAP <<< 3 ||| s.USART3_REMAP <<< 4

/-- `stm32_afio_AFIO_MAPR_write`, which takes two of its fields from the old register. -/
def maprWrite (s : Stm32Afio) (newValue : BitVec 32) : Stm32Afio :=
  { s with
    USART1_REMAP := extract32 s.AFIO_MAPR 2 1
    USART2_REMAP := extract32 s.AFIO_MAPR 3 1
    USART3_REMAP := (newValue &&& 0x30#32) >>> 4 }

/-- `sysbus_connect_irq(s->gpio[i], n, irq)`. -/
def connectIrq (io : Io) (i n : ℕ) (irq : Option ℕ) : Except Fault Io :=
  if h : i < GPIO_COUNT then
    let port := io.gpio ⟨i, h⟩
    .ok { io with
      gpio := Function.update io.gpio ⟨i, h⟩
        { port with inIrq := Function.update port.inIrq n irq } }
  else .error (.outOfBounds "gpio")

/-- `(value >> start) & 0xf`, for line `i` of a register. -/
def nibble (value : BitVec 32) (i : ℕ) : ℕ := (value >>> (i * 4) &&& 0xf#32).toNat

/-- Nibble `n` of the four `EXTICR` registers. -/
def extiPort (io : Io) (n : ℕ) : ℕ := nibble (io.afio.EXTICR (Fin.ofNat 4 (n / 4))) (n % 4)

/-- The body of the loop of `stm32_afio_AFIO_EXTICR_write`. -/
def exticrLine (index : Fin 4) (newValue : BitVec 32) (init : Bool) (io : Io) (i : ℕ) :
    Except Fault Io := do
  let extiLine := index * EXTI_PER_CR + i
  let io ← (if init then pure io
    else connectIrq io (nibble (io.afio.EXTICR index) i) extiLine none)
  connectIrq io (nibble newValue i) extiLine (some extiLine)

/-- `stm32_afio_AFIO_EXTICR_write`. -/
def exticrWrite (io : Io) (index : Fin 4) (newValue : BitVec 32) (init : Bool) :
    Except Fault Io := do
  let io ← (List.range EXTI_PER_CR).foldlM (exticrLine index newValue init) io
  return { io with
    afio := { io.afio with EXTICR := Function.update io.afio.EXTICR index newValue } }

/-- `stm32_rcc_check_periph_clk`. -/
def checkPeriphClk (clkEnabled : Bool) (io : Io) : Io :=
  if clkEnabled then io
  else { io with
    afio := { io.afio with warnings := io.afio.warnings ++ [periphClkWarning .afio] } }

/-- `stm32_afio_read`. -/
def read (clkEnabled : Bool) (io : Io) (offset : ℕ) : Except Fault (BitVec 32 × Io) :=
  let io := checkPeriphClk clkEnabled io
  match offset with
  | 0x00 => throw (notImplReg "stm32_afio_read" offset 4)
  | 0x04 => return (maprRead io.afio, io)
  | 0x08 => return (io.afio.EXTICR 0, io)
  | 0x0c => return (io.afio.EXTICR 1, io)
  | 0x10 => return (io.afio.EXTICR 2, io)
  | 0x14 => return (io.afio.EXTICR 3, io)
  | _ => throw (badReg "stm32_afio_read" offset 4)

/-- `stm32_afio_write`. -/
def write (clkEnabled : Bool) (io : Io) (offset : ℕ) (value : BitVec 32) : Except Fault Io :=
  let io := checkPeriphClk clkEnabled io
  match offset with
  | 0x00 => throw (notImplReg "stm32_afio_write" offset 4)
  | 0x04 => return { io with afio := maprWrite io.afio value }
  | 0x08 => exticrWrite io 0 value false
  | 0x0c => exticrWrite io 1 value false
  | 0x10 => exticrWrite io 2 value false
  | 0x14 => exticrWrite io 3 value false
  | _ => throw (badReg "stm32_afio_write" offset 4)

/-- `stm32_afio_reset`. -/
def reset (io : Io) : Except Fault Io := do
  let io := { io with afio := maprWrite io.afio 0#32 }
  let io ← exticrWrite io 0 0#32 true
  let io ← exticrWrite io 1 0#32 true
  let io ← exticrWrite io 2 0#32 true
  exticrWrite io 3 0#32 true

/-- `stm32_afio_get_periph_map`. -/
def getPeriphMap (s : Stm32Afio) (periph : Periph) : Except Fault (BitVec 32) :=
  match periph with
  | .uart1 => return s.USART1_REMAP
  | .uart2 => return s.USART2_REMAP
  | .uart3 => return s.USART3_REMAP
  | .uart5 => return BitVec.ofNat 32 Periph.uart5.number
  | _ => throw (.hwError "Invalid peripheral")

/-! ### Inputs and events -/

/-- `stm32_gpio_in_trigger`: the input register of the port, and then
`qemu_set_irq(s->in_irq[pin], level)`. -/
def gpioInTrigger (io : Io) (port : Fin GPIO_COUNT) (pin : ℕ) (level : Bool) :
    Except Fault Io := do
  assert (pin < PIN_COUNT) "pin < STM32_GPIO_PIN_COUNT"
  let io := { io with gpio := Function.update io.gpio port (setInput (io.gpio port) pin level) }
  match (io.gpio port).inIrq pin with
  | none => return io
  | some n =>
    let exti ← gpioInHandler io.exti n level
    return { io with exti := exti }

/-- The reset of all devices of `Io`. -/
def machineReset (io : Io) : Except Fault Io :=
  reset { io with gpio := fun i => Gpio.reset (io.gpio i), exti := Exti.reset io.exti }

/-- What can happen to the devices. -/
inductive Event
  | afioWrite (clkEnabled : Bool) (offset : ℕ) (value : BitVec 32)
  | afioReset
  | extiWrite (offset : ℕ) (value : BitVec 32)
  | extiReset
  | gpioWrite (port : Fin GPIO_COUNT) (clkEnabled : Bool) (offset : ℕ) (value : BitVec 32)
  | gpioReset (port : Fin GPIO_COUNT)
  | gpioIn (port : Fin GPIO_COUNT) (pin : ℕ) (level : Bool)
  deriving DecidableEq, Repr

/-- What it does. -/
def step (io : Io) : Event → Except Fault Io
  | .afioWrite clkEnabled offset value => write clkEnabled io offset value
  | .afioReset => reset io
  | .extiWrite offset value => do
    let exti ← Exti.write io.exti offset value
    return { io with exti := exti }
  | .extiReset => return { io with exti := Exti.reset io.exti }
  | .gpioWrite port clkEnabled offset value => do
    let gpio ← Gpio.write clkEnabled (io.gpio port) offset value
    return { io with gpio := Function.update io.gpio port gpio }
  | .gpioReset port =>
    return { io with gpio := Function.update io.gpio port (Gpio.reset (io.gpio port)) }
  | .gpioIn port pin level => gpioInTrigger io port pin level

/-- A step that does not fault. -/
def Step (io : Io) (e : Event) (io' : Io) : Prop := step io e = .ok io'

end Afio
end Especial
