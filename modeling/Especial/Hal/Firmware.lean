/-
# The interrupt controller and the digital inputs of the firmware

A translation of `hal/controller/intcontroller.cpp` and `hal/digitalinput.cpp`, with
`NVIC_Init` of the firmware library.  The state is the registers, the callback table
of the controller, the `DigitalInput` objects by address, how far the interrupt
handler has come, and the calls of `irq` so far.

`DigitalInput` is the only class of interrupt callbacks, so a callback is the address
of such an object.  Code outside of the handler does not run while the handler runs;
the inputs of the ports change at any time, also between two steps of the handler.
-/

import Especial.Hal.StdPeriph

namespace Especial
namespace Hal

open Qemu Stm32 Lib Gpio Exti Afio

/-- `Gpio::Pin`, with the port letter that its constructor asserts and the pin number
that its comment asks for. -/
structure Pin where
  /-- port letter, from 'A' to 'G' -/
  port : BitVec 8
  /-- pin number, from 0 to 15 -/
  pinNumber : BitVec 8
  port_ok : 0x41 ≤ port.toNat ∧ port.toNat ≤ 0x47
  pinNumber_lt : pinNumber.toNat < 16
  deriving DecidableEq, Repr

namespace Pin

/-- Shifted pin number. -/
def pin (p : Pin) : BitVec 32 := 1#32 <<< p.pinNumber.toNat

/-- The index of the port: `ports_base.at(port)` is its base address. -/
def base (p : Pin) : Fin GPIO_COUNT :=
  ⟨p.port.toNat - 0x41, by have := p.port_ok; unfold GPIO_COUNT; omega⟩

/-- The line of the pin. -/
def line (p : Pin) : Fin 16 := ⟨p.pinNumber.toNat, p.pinNumber_lt⟩

end Pin

/-- `State`. -/
inductive State
  | off
  | on
  | invalid
  deriving DecidableEq, Repr

/-- `DigitalInput`. -/
structure DigitalInput where
  pin : Pin
  state : State
  deriving DecidableEq, Repr

/-- `DigitalInput::get`. -/
def DigitalInput.get (d : DigitalInput) : Bool := d.state = .on

/-- The registers that `NVIC_Init` uses. -/
structure Nvic where
  /-- `SCB->AIRCR` -/
  AIRCR : BitVec 32
  IP : ℕ → BitVec 8
  /-- the channels enabled through `ISER` -/
  enabled : ℕ → Bool

/-- `NVIC_Init`, for `NVIC_IRQChannelCmd = ENABLE`. -/
def nvicInit (s : Nvic) (channel preemptionPriority subPriority : BitVec 8) : Nvic :=
  let tmppriority := (0x700#32 - (s.AIRCR &&& 0x700#32)) >>> 8
  let tmppre := 0x4#32 - tmppriority
  let tmpsub := 0x0f#32 >>> tmppriority.toNat
  let tmppriority := preemptionPriority.setWidth 32 <<< tmppre.toNat
  let tmppriority := tmppriority ||| subPriority.setWidth 32 &&& tmpsub
  let tmppriority := tmppriority <<< 4
  { s with
    IP := Function.update s.IP channel.toNat (tmppriority.setWidth 8)
    enabled := Function.update s.enabled channel.toNat true }

/-- The interrupt handlers of the EXTI lines. -/
inductive IrqHandler
  | exti0 | exti1 | exti2 | exti3 | exti4
  | exti9_5
  | exti15_10
  deriving DecidableEq, Repr

/-- The calls of `checkLineFlag` that a handler makes. -/
def IrqHandler.lines : IrqHandler → List (Fin 16)
  | .exti0 => [0]
  | .exti1 => [1]
  | .exti2 => [2]
  | .exti3 => [3]
  | .exti4 => [4]
  | .exti9_5 => [5, 6, 7, 8, 9]
  | .exti15_10 => [10, 11, 12, 13, 14, 15]

/-- Where a handler is: before one of the three steps of `checkLineFlag`, with the
lines that it checks after this one. -/
inductive HandlerPc
  | idle
  | getITStatus (line : Fin 16) (rest : List (Fin 16))
  | callIsr (line : Fin 16) (rest : List (Fin 16))
  | clearITPendingBit (line : Fin 16) (rest : List (Fin 16))
  deriving DecidableEq, Repr

/-- The handler goes on to the next call of `checkLineFlag`, or returns. -/
def HandlerPc.next : List (Fin 16) → HandlerPc
  | [] => .idle
  | line :: rest => .getITStatus line rest

/-- The state of the firmware. -/
structure Firmware where
  io : Io
  nvic : Nvic
  /-- `_isrVector`; a null pointer is `none` -/
  isrVector : Fin 16 → Option ℕ
  /-- the objects by address -/
  inputs : ℕ → DigitalInput
  handler : HandlerPc
  /-- the objects whose `irq` has been called, one entry for each call -/
  irqs : List ℕ

/-- The firmware on devices that have just been reset; `_isrVector` is static. -/
def Firmware.init (io : Io) (aircr : BitVec 32) (pins : ℕ → Pin) : Firmware where
  io := io
  nvic := { AIRCR := aircr, IP := fun _ => 0#8, enabled := fun _ => false }
  isrVector := fun _ => none
  inputs := fun d => { pin := pins d, state := .invalid }
  handler := .idle
  irqs := []

/-! ### The interrupt controller -/

/-- The `NVIC` channel of a pin: `EXTI0_IRQn` to `EXTI15_10_IRQn`. -/
def irqChannel (pinNumber : BitVec 8) : BitVec 8 :=
  match pinNumber with
  | 0#8 => 6#8
  | 1#8 => 7#8
  | 2#8 => 8#8
  | 3#8 => 9#8
  | 4#8 => 10#8
  | 5#8 | 6#8 | 7#8 | 8#8 | 9#8 => 23#8
  | _ => 40#8

/-- `IntController::registerInt`. -/
def registerInt (clkEnabled : Bool) (s : Firmware) (isr : Option ℕ) (pin : Pin) :
    Except Fault (Bool × Firmware) := do
  let portSrc := pin.port - 0x41#8
  let io ← gpioEXTILineConfig clkEnabled s.io portSrc pin.pinNumber
  let io ← extiClearITPendingBit io pin.pin
  let io ← extiInit io ⟨pin.pin, .interrupt, .risingFalling, .ENABLE⟩
  let nvic := nvicInit s.nvic (irqChannel pin.pinNumber) 0x0f#8 0x00#8
  let s := { s with io := io, nvic := nvic }
  if s.isrVector pin.line ≠ none then return (false, s)
  else return (true, { s with isrVector := Function.update s.isrVector pin.line isr })

/-- `IntController::unregisterInt`. -/
def unregisterInt (s : Firmware) (pin : Pin) : Firmware :=
  { s with isrVector := Function.update s.isrVector pin.line none }

/-! ### Digital inputs -/

/-- `DigitalInput::read` of the object at an address. -/
def read (s : Firmware) (d : ℕ) : Except Fault (Bool × Firmware) := do
  let object := s.inputs d
  let bit ← gpioReadInputDataBit s.io object.pin.base object.pin.pin
  let object := { object with state := if bit then .on else .off }
  return (object.get, { s with inputs := Function.update s.inputs d object })

/-- `DigitalInput::irq`; the call is logged here, where it is made. -/
def irq (s : Firmware) (d : ℕ) : Except Fault Firmware := do
  let (_, s) ← read { s with irqs := s.irqs ++ [d] } d
  return s

/-- `DigitalInput::registerInterrupt`. -/
def registerInterrupt (clkEnabled : Bool) (s : Firmware) (d : ℕ) :
    Except Fault (Bool × Firmware) :=
  registerInt clkEnabled s (some d) (s.inputs d).pin

/-- `DigitalInput::unregisterInterrupt`. -/
def unregisterInterrupt (s : Firmware) (d : ℕ) : Firmware := unregisterInt s (s.inputs d).pin

/-! ### The handler -/

/-- `IntController::callIsr`. -/
def callIsr (s : Firmware) (extiLine : BitVec 32) : Except Fault (Bool × Firmware) :=
  match (List.finRange 16).find? (fun i => 1#32 <<< i.val = extiLine) with
  | none => return (false, s)
  | some i =>
    match s.isrVector i with
    | none => return (false, s)
    | some isr => do
      let s ← irq s isr
      return (true, s)

/-- The next step of the handler. -/
def handlerStep (s : Firmware) : Except Fault Firmware :=
  match s.handler with
  | .idle => return s
  | .getITStatus line rest => do
    let status ← extiGetITStatus s.io (BIT line)
    return { s with handler := if status then .callIsr line rest else .next rest }
  | .callIsr line rest => do
    let (valid, s) ← callIsr s (BIT line)
    assert valid "valid"
    return { s with handler := .clearITPendingBit line rest }
  | .clearITPendingBit line rest => do
    let io ← extiClearITPendingBit s.io (BIT line)
    return { s with io := io, handler := .next rest }

/-! ### The system -/

/-- What can happen: calls of the firmware outside of the handler, the start and the
steps of a handler, and changes of the inputs. -/
inductive Event
  | registerInt (clkEnabled : Bool) (isr : Option ℕ) (pin : Pin)
  | unregisterInt (pin : Pin)
  | read (d : ℕ)
  | enter (h : IrqHandler)
  | handler
  | gpioIn (port : Fin GPIO_COUNT) (pin : ℕ) (level : Bool)
  deriving DecidableEq, Repr

/-- The handler interrupts the rest of the firmware. -/
def Enabled (s : Firmware) : Event → Bool
  | .registerInt _ _ _ | .unregisterInt _ | .read _ | .enter _ => s.handler = .idle
  | .handler => s.handler ≠ .idle
  | .gpioIn _ _ _ => true

/-- What happens. -/
def step (s : Firmware) : Event → Except Fault Firmware
  | .registerInt clkEnabled isr pin => do
    let (_, s) ← registerInt clkEnabled s isr pin
    return s
  | .unregisterInt pin => return unregisterInt s pin
  | .read d => do
    let (_, s) ← read s d
    return s
  | .enter h => return { s with handler := .next h.lines }
  | .handler => handlerStep s
  | .gpioIn port pin level => do
    let io ← gpioInTrigger s.io port pin level
    return { s with io := io }

/-- An enabled step that does not fault. -/
def Step (s : Firmware) (e : Event) (s' : Firmware) : Prop :=
  Enabled s e = true ∧ step s e = .ok s'

/-- A step has one outcome. -/
theorem step_det (s : Firmware) (e : Event) (t t' : Firmware) (h : Step s e t) (h' : Step s e t') :
    t = t' := Except.ok.inj (h.2.symm.trans h'.2)

end Hal
end Especial
