/-
# The digital outputs of the firmware

A translation of `hal/digitaloutput.cpp` and `hal/digitaloutput.h`, with `GPIO_Init`,
`GPIO_SetBits` and `GPIO_ResetBits` of the firmware library, on the emulated RCC and
GPIO registers.  A `DigitalOutput` object keeps the state it was last set to; nothing
reads it back from the port.

`GPIO_Init` reads a configuration register, replaces the nibbles of its pins in a
loop and writes the register back.  For one pin that is an output it replaces one
nibble (`gpioInit_returns`).
-/

import Especial.Gpio.Pins
import Especial.Hal.Firmware
import Especial.Rcc.PeriphClocks

namespace Especial
namespace Hal

open Qemu Stm32 Lib Gpio Afio Rcc

/-! ### The firmware library -/

/-- The RCC and the GPIO ports. -/
structure Ports where
  rcc : Stm32Rcc
  gpio : Fin GPIO_COUNT → Stm32Gpio

/-- The gate that `stm32_rcc_check_periph_clk` looks at for a port. -/
def Ports.clkEnabled (s : Ports) (port : Fin GPIO_COUNT) : Bool :=
  s.rcc.isEnabled (PERIPHCLK (portPeriph port))

/-- A read of a register of a port. -/
def Ports.read (s : Ports) (port : Fin GPIO_COUNT) (offset : ℕ) :
    Except Fault (BitVec 32 × Ports) := do
  let (value, gpio) ← Gpio.read (s.gpio port) offset
  return (value, { s with gpio := Function.update s.gpio port gpio })

/-- A write of a register of a port. -/
def Ports.write (s : Ports) (port : Fin GPIO_COUNT) (offset : ℕ) (value : BitVec 32) :
    Except Fault Ports := do
  let gpio ← Gpio.write (s.clkEnabled port) (s.gpio port) offset value
  return { s with gpio := Function.update s.gpio port gpio }

/-- `GPIOMode_TypeDef`. -/
inductive GPIOMode
  | AIN | IN_FLOATING | IPD | IPU | Out_OD | Out_PP | AF_OD | AF_PP
  deriving DecidableEq, Repr

/-- The value of a mode. -/
def GPIOMode.val : GPIOMode → BitVec 32
  | .AIN => 0x0
  | .IN_FLOATING => 0x04
  | .IPD => 0x28
  | .IPU => 0x48
  | .Out_OD => 0x14
  | .Out_PP => 0x10
  | .AF_OD => 0x1c
  | .AF_PP => 0x18

/-- `GPIOSpeed_TypeDef`. -/
inductive GPIOSpeed
  | speed10MHz | speed2MHz | speed50MHz
  deriving DecidableEq, Repr

/-- The value of a speed. -/
def GPIOSpeed.val : GPIOSpeed → BitVec 32
  | .speed10MHz => 1
  | .speed2MHz => 2
  | .speed50MHz => 3

/-- `GPIO_InitTypeDef`. -/
structure GPIOInitTypeDef where
  pin : BitVec 16
  speed : GPIOSpeed
  mode : GPIOMode
  deriving DecidableEq, Repr

/-- The value that goes into the nibble of each pin. -/
def GPIOInitTypeDef.currentmode (init : GPIOInitTypeDef) : BitVec 32 :=
  let currentmode := init.mode.val &&& 0x0f#32
  if init.mode.val &&& 0x10#32 ≠ 0#32 then currentmode ||| init.speed.val else currentmode

/-- The body of the loops of `GPIO_Init`, for the eight pins from `base` up. -/
def gpioInitPin (init : GPIOInitTypeDef) (port : Fin GPIO_COUNT) (base : ℕ)
    (st : BitVec 32 × Ports) (pinpos : ℕ) : Except Fault (BitVec 32 × Ports) :=
  let (tmpreg, s) := st
  let pos := 1#32 <<< (pinpos + base)
  let currentpin := init.pin.setWidth 32 &&& pos
  if currentpin = pos then
    let pinmask := 0x0f#32 <<< (pinpos * 4)
    let tmpreg := tmpreg &&& ~~~pinmask ||| init.currentmode <<< (pinpos * 4)
    if init.mode = .IPD then return (tmpreg, ← s.write port 0x14 pos)
    else if init.mode = .IPU then return (tmpreg, ← s.write port 0x10 pos)
    else return (tmpreg, s)
  else return (tmpreg, s)

/-- One of the two halves of `GPIO_Init`: `CRL` or `CRH`. -/
def gpioInitHalf (init : GPIOInitTypeDef) (port : Fin GPIO_COUNT) (offset base : ℕ) (s : Ports) :
    Except Fault Ports := do
  let st ← s.read port offset
  let (tmpreg, s) ← (List.range 8).foldlM (gpioInitPin init port base) st
  s.write port offset tmpreg

/-- `GPIO_Init`. -/
def gpioInit (s : Ports) (port : Fin GPIO_COUNT) (init : GPIOInitTypeDef) : Except Fault Ports := do
  let s ←
    if init.pin.setWidth 32 &&& 0x00ff#32 ≠ 0#32 then gpioInitHalf init port 0x00 0 s else pure s
  if init.pin > 0x00ff#16 then gpioInitHalf init port 0x04 8 s else pure s

/-- `GPIO_SetBits`. -/
def gpioSetBits (s : Ports) (port : Fin GPIO_COUNT) (pin : BitVec 16) : Except Fault Ports :=
  s.write port 0x10 (pin.setWidth 32)

/-- `GPIO_ResetBits`. -/
def gpioResetBits (s : Ports) (port : Fin GPIO_COUNT) (pin : BitVec 16) : Except Fault Ports :=
  s.write port 0x14 (pin.setWidth 32)

/-! ### What they do to one pin -/

variable {s s' : Ports} {port : Fin GPIO_COUNT} {n : ℕ}

/-- Only this port changes, in this way. -/
structure OnPort (port : Fin GPIO_COUNT) (R : Stm32Gpio → Stm32Gpio → Prop) (s s' : Ports) :
    Prop where
  here : R (s.gpio port) (s'.gpio port)
  others : ∀ p, p ≠ port → s'.gpio p = s.gpio p
  rcc : s'.rcc = s.rcc

/-- A write of a port register, by what it does to its port. -/
theorem write_returns {offset : ℕ} {value : BitVec 32} {R : Stm32Gpio → Stm32Gpio → Prop}
    (h : Returns (Gpio.write (s.clkEnabled port) (s.gpio port) offset value) (R (s.gpio port))) :
    Returns (s.write port offset value) (OnPort port R s) := by
  obtain ⟨gpio, hwrite, hR⟩ := h
  refine ⟨{ s with gpio := Function.update s.gpio port gpio }, ?_, ?_, fun p hp => ?_, rfl⟩
  · rw [Ports.write, hwrite]
    rfl
  · show R _ (Function.update s.gpio port gpio port)
    rw [Function.update_self]
    exact hR
  · exact Function.update_of_ne hp gpio s.gpio

/-- `CRL` is read as it is. -/
theorem read_CRL (s : Ports) (port : Fin GPIO_COUNT) :
    s.read port 0x00 = .ok ((s.gpio port).CRL, s) := by
  show Except.ok (_, { s with gpio := Function.update s.gpio port (s.gpio port) }) = _
  rw [Function.update_eq_self]

/-- `CRH` is read as it is. -/
theorem read_CRH (s : Ports) (port : Fin GPIO_COUNT) :
    s.read port 0x04 = .ok ((s.gpio port).CRH, s) := by
  show Except.ok (_, { s with gpio := Function.update s.gpio port (s.gpio port) }) = _
  rw [Function.update_eq_self]

/-- What `DigitalOutput::initialize` asks for, for one pin. -/
def outputPin (n : ℕ) : GPIOInitTypeDef := ⟨(BIT n).setWidth 16, .speed50MHz, .Out_PP⟩

/-- The mask of a pin fits into sixteen bits. -/
theorem setWidth_setWidth_BIT : ∀ n < 16, ((BIT n).setWidth 16).setWidth 32 = BIT n := by
  decide

/-- **`GPIO_SetBits`** sets one output. -/
theorem gpioSetBits_returns (hn : n < 16) (ho : IsOutput (s.gpio port) n) :
    Returns (gpioSetBits s port ((BIT n).setWidth 16)) (OnPort port (Drives n true) s) := by
  unfold gpioSetBits
  rw [setWidth_setWidth_BIT n hn]
  exact write_returns (write_BSRR_returns _ hn ho)

/-- **`GPIO_ResetBits`** resets one output. -/
theorem gpioResetBits_returns (hn : n < 16) (ho : IsOutput (s.gpio port) n) :
    Returns (gpioResetBits s port ((BIT n).setWidth 16)) (OnPort port (Drives n false) s) := by
  unfold gpioResetBits
  rw [setWidth_setWidth_BIT n hn]
  exact write_returns (write_BRR_returns _ hn ho)

/-! ### Digital outputs -/

/-- The value of a `State`. -/
def State.val : State → ℤ
  | .off => -1
  | .on => 1
  | .invalid => 0

/-- `static_cast<State>(v)`, for the value of a `State`. -/
def State.ofVal (v : ℤ) : State :=
  if v = -1 then .off else if v = 1 then .on else .invalid

/-- `RCC_APB2Periph_AFIO`. -/
def apb2PeriphAfio : BitVec 32 := 0x1

/-- `Gpio::ports_rcc`. -/
def portsRcc : Fin GPIO_COUNT → BitVec 32 := ![0x4, 0x8, 0x10, 0x20, 0x40, 0x80, 0x100]

/-- `DigitalOutput`. -/
structure DigitalOutput where
  pin : Pin
  state : State
  deriving DecidableEq, Repr

variable {ι : Type} [DecidableEq ι]

/-- The registers and the `DigitalOutput` objects. -/
structure Outputs (ι : Type) where
  ports : Ports
  objects : ι → DigitalOutput

/-- The objects as they are constructed. -/
def Outputs.init (ports : Ports) (pins : ι → Pin) : Outputs ι where
  ports := ports
  objects o := { pin := pins o, state := .invalid }

/-- `DigitalOutput::setState`. -/
def setState (s : Outputs ι) (o : ι) (state : State) : Except Fault (Outputs ι) := do
  let object := { s.objects o with state := state }
  let s := { s with objects := Function.update s.objects o object }
  let pin := object.pin.pin.setWidth 16
  if object.state = .off then
    return { s with ports := ← gpioResetBits s.ports object.pin.base pin }
  else
    return { s with ports := ← gpioSetBits s.ports object.pin.base pin }

/-- `DigitalOutput::set`, and `operator=(bool)`, which calls it. -/
def set (s : Outputs ι) (o : ι) (state : Bool) : Except Fault (Outputs ι) :=
  if state then setState s o .on else setState s o .off

/-- `DigitalOutput::toggle`. -/
def toggle (s : Outputs ι) (o : ι) : Except Fault (Outputs ι) :=
  setState s o (State.ofVal (-(s.objects o).state.val))

/-- `DigitalOutput::initialize`. -/
def initializeOutput (s : Outputs ι) (o : ι) : Except Fault (Outputs ι) := do
  let pin := (s.objects o).pin
  let rcc ← apb2PeriphClockCmd s.ports.rcc (apb2PeriphAfio ||| portsRcc pin.base) .ENABLE
  let ports ← gpioInit { s.ports with rcc := rcc } pin.base
    { pin := pin.pin.setWidth 16, speed := .speed50MHz, mode := .Out_PP }
  set { s with ports := ports } o false

/-- A call of a method of one of the objects. -/
inductive Call (ι : Type)
  | initializeOutput (o : ι)
  | set (o : ι) (state : Bool)
  | assign (o : ι) (value : Bool)
  | toggle (o : ι)
  deriving DecidableEq, Repr

/-- The object of a call. -/
def Call.object : Call ι → ι
  | .initializeOutput o | .set o _ | .assign o _ | .toggle o => o

/-- What a call does. -/
def exec (s : Outputs ι) : Call ι → Except Fault (Outputs ι)
  | .initializeOutput o => initializeOutput s o
  | .set o state => set s o state
  | .assign o value => set s o value
  | .toggle o => toggle s o

end Hal
end Especial
