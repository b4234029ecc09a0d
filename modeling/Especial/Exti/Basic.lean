/-
# The external interrupt controller of the emulator

A translation of `hw/gpio/stm32_exti.c`.  The five registers have one bit per
line; the ten outputs go to the NVIC, lines 5 to 9 and lines 10 to 15 sharing one
each.  The device keeps no level of its outputs, it only drives them when a pending
bit changes; the model logs these calls of `qemu_set_irq`.

A write to a register other than `IMR` and `EMR` is a loop over the twenty lines.
Line 19 has a bit in the registers but no output: to change its pending bit is an
`assert(false)`.
-/

import Especial.Stm32.Basic
import Especial.Lib.Drive

namespace Especial
namespace Exti

open Qemu Stm32 Lib

/-- `EXTI_LINE_COUNT`. -/
def EXTI_LINE_COUNT : ℕ := 20

/-- `EXTI_IRQ_COUNT`, the outputs to the NVIC. -/
def EXTI_IRQ_COUNT : ℕ := 10

/-- `STM32_GPIO_PIN_COUNT`. -/
def GPIO_PIN_COUNT : ℕ := 16

/-- `Stm32Exti`, with the calls of `qemu_set_irq` on its outputs. -/
structure Stm32Exti where
  IMR : BitVec 32
  RTSR : BitVec 32
  FTSR : BitVec 32
  SWIER : BitVec 32
  PR : BitVec 32
  irq : List (ℕ × Bool)
  deriving DecidableEq, Repr

/-- The device after the first reset, when no output has been driven. -/
def Stm32Exti.init : Stm32Exti where
  IMR := 0#32
  RTSR := 0#32
  FTSR := 0#32
  SWIER := 0#32
  PR := 0#32
  irq := []

/-- The level last driven on output `k`. -/
def Stm32Exti.level (s : Stm32Exti) (k : ℕ) : Bool := lastLevel s.irq k

/-- The output of a line. -/
def irqOf (pos : ℕ) : Option ℕ :=
  if pos ≤ 4 then some pos
  else if pos ≤ 9 then some 5
  else if pos ≤ 15 then some 6
  else if pos = 16 then some 7
  else if pos = 17 then some 8
  else if pos = 18 then some 9
  else none

/-- `stm32_exti_change_EXTI_PR_bit`. -/
def changePRBit (s : Stm32Exti) (pos : ℕ) (newBitValue : Bool) : Except Fault Stm32Exti := do
  assert (pos < EXTI_LINE_COUNT) "pos < EXTI_LINE_COUNT"
  let oldBitValue := s.PR.getLsbD pos
  if newBitValue ≠ oldBitValue then
    let s := if !newBitValue then { s with SWIER := s.SWIER &&& ~~~BIT pos } else s
    match irqOf pos with
    | some n =>
      let s := { s with irq := s.irq ++ [(n, newBitValue)] }
      return { s with PR := deposit32 s.PR pos 1 (ofBit newBitValue) }
    | none => throw (.assertFail "false")
  else return s

/-- `stm32_exti_trigger`. -/
def trigger (s : Stm32Exti) (line : ℕ) : Except Fault Stm32Exti :=
  if s.IMR &&& BIT line ≠ 0#32 then changePRBit s line true else return s

/-- `stm32_exti_gpio_in_handler`. -/
def gpioInHandler (s : Stm32Exti) (pin : ℕ) (level : Bool) : Except Fault Stm32Exti := do
  assert (pin < GPIO_PIN_COUNT) "pin < STM32_GPIO_PIN_COUNT"
  if (level ∧ s.RTSR &&& BIT pin ≠ 0#32) ∨ (¬level ∧ s.FTSR &&& BIT pin ≠ 0#32) then
    trigger s pin
  else return s

/-- The two trigger selection registers. -/
inductive Tsr
  | rising
  | falling
  deriving DecidableEq, Repr

/-- The register `tsr_register` points to. -/
def Stm32Exti.tsr (s : Stm32Exti) : Tsr → BitVec 32
  | .rising => s.RTSR
  | .falling => s.FTSR

/-- `*tsr_register = value`. -/
def Stm32Exti.setTsr (s : Stm32Exti) (value : BitVec 32) : Tsr → Stm32Exti
  | .rising => { s with RTSR := value }
  | .falling => { s with FTSR := value }

/-- `update_TSR_bit`. -/
def updateTSRBit (r : Tsr) (s : Stm32Exti) (pos : ℕ) (newBitValue : Bool) :
    Except Fault Stm32Exti := do
  assert (pos < EXTI_LINE_COUNT) "pos < EXTI_LINE_COUNT"
  let s ← (if newBitValue ≠ (s.tsr r).getLsbD pos then changePRBit s pos false else pure s)
  return s.setTsr (deposit32 (s.tsr r) pos 1 (ofBit newBitValue)) r

/-- `EXTI_SWIER_OFFSET`, for one line. -/
def writeSWIERBit (s : Stm32Exti) (pos : ℕ) (bitValue : Bool) : Except Fault Stm32Exti :=
  if bitValue = true ∧ s.SWIER &&& BIT pos = 0#32 then
    trigger { s with SWIER := s.SWIER ||| BIT pos } pos
  else return s

/-- `EXTI_PR_OFFSET`, for one line: writing `1` clears. -/
def writePRBit (s : Stm32Exti) (pos : ℕ) (bitValue : Bool) : Except Fault Stm32Exti :=
  if bitValue then changePRBit s pos false else return s

/-- The loop of `stm32_exti_write` over the lines. -/
def forLines (value : BitVec 32) (body : Stm32Exti → ℕ → Bool → Except Fault Stm32Exti)
    (s : Stm32Exti) : Except Fault Stm32Exti :=
  (List.range EXTI_LINE_COUNT).foldlM (fun s pos => body s pos (value.getLsbD pos)) s

/-- `stm32_exti_read`. -/
def read (s : Stm32Exti) (offset : ℕ) : Except Fault (BitVec 32) :=
  match offset with
  | 0x00 => return s.IMR
  | 0x04 => return 0#32
  | 0x08 => return s.RTSR
  | 0x0c => return s.FTSR
  | 0x10 => return s.SWIER
  | 0x14 => return s.PR
  | _ => throw (badReg "stm32_exti_read" offset 4)

/-- `stm32_exti_write`. -/
def write (s : Stm32Exti) (offset : ℕ) (value : BitVec 32) : Except Fault Stm32Exti :=
  match offset with
  | 0x00 => return { s with IMR := value }
  | 0x04 => return s
  | 0x08 => forLines value (updateTSRBit .rising) s
  | 0x0c => forLines value (updateTSRBit .falling) s
  | 0x10 => forLines value writeSWIERBit s
  | 0x14 => forLines value writePRBit s
  | _ => throw (badReg "stm32_exti_write" offset 4)

/-- `stm32_exti_reset`, which drives no output. -/
def reset (s : Stm32Exti) : Stm32Exti :=
  { s with IMR := 0#32, RTSR := 0#32, FTSR := 0#32, SWIER := 0#32, PR := 0#32 }

/-- What can happen to the device. -/
inductive Event
  | write (offset : ℕ) (value : BitVec 32)
  | gpioIn (pin : ℕ) (level : Bool)
  | reset
  deriving DecidableEq, Repr

/-- What it does. -/
def step (s : Stm32Exti) : Event → Except Fault Stm32Exti
  | .write offset value => write s offset value
  | .gpioIn pin level => gpioInHandler s pin level
  | .reset => return reset s

/-- A step that does not fault. -/
def Step (s : Stm32Exti) (e : Event) (s' : Stm32Exti) : Prop := step s e = .ok s'

end Exti
end Especial
