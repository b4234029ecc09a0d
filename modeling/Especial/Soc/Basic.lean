/-
# The RCC with its five UARTs

`hw/arm/stm32.c` creates the RCC and five UARTs; each UART registers itself as a user of
its peripheral clock (`stm32_uart_init`), and the RCC itself is the user of `HCLK`, for
the scales of the SysTick timer.  When the frequency of such a clock changes, the
handler runs in the middle of the update of the clock tree.  The handlers read the
tree, change the UART or the scales, and nothing of that is read by the update; so
here an access to the RCC first updates the tree and then runs the handlers, each with
the clocks as its notification found them.

The rest of the machine (pins, mapping, time) is an arbitrary `Env` at each event, of
which the frequency and the gate of the peripheral clock are the ones of the RCC.
-/

import Especial.Rcc.Basic
import Especial.Uart.Basic

namespace Especial
namespace Soc

open Qemu Stm32 Clktree Rcc Uart

/-- The UARTs of `stm32_init`. -/
inductive UartNumber
  | one
  | two
  | three
  | four
  | five
  deriving DecidableEq, Repr

namespace UartNumber

/-- The peripheral of a UART. -/
def periph : UartNumber → Periph
  | one => .uart1
  | two => .uart2
  | three => .uart3
  | four => .uart4
  | five => .uart5

/-- The UARTs in the order of their creation. -/
def all : List UartNumber := [one, two, three, four, five]

/-- `clk_irq[0]` of a UART; `hclk_upd_irq[0]` is `0`. -/
def clkIrq : UartNumber → ℕ
  | one => 1
  | two => 2
  | three => 3
  | four => 4
  | five => 5

/-- The UART behind such an interrupt. -/
def ofClkIrq : ℕ → Option UartNumber
  | 1 => some one
  | 2 => some two
  | 3 => some three
  | 4 => some four
  | 5 => some five
  | _ => none

end UartNumber

/-- The devices, and the two globals of `armv7m_nvic.c`. -/
structure Machine where
  rcc : Stm32Rcc
  uart : UartNumber → Stm32Uart
  systemClockScale : BitVec 32
  externalRefClockScale : BitVec 32

/-- The environment of a UART, with the clock that the RCC gives it. -/
def Machine.env (s : Machine) (env : Env) (n : UartNumber) : Env :=
  { env with
    periphFreq := s.rcc.outputFreq (PERIPHCLK n.periph)
    clkEnabled := s.rcc.isEnabled (PERIPHCLK n.periph) }

/-! ### Handlers -/

/-- `get_ticks_per_sec`. -/
def TICKS_PER_SEC : BitVec 64 := 1000000000

/-- The output frequency of a clock, in the clocks that a handler finds. -/
def freqOf (clks : List Clk) (i : ℕ) : BitVec 32 := (clks.getD i default).outputFreq

/-- `stm32_rcc_hclk_upd_irq_handler`. -/
def hclkUpdIrqHandler (clks : List Clk) (s : Machine) : Except Fault Machine :=
  let hclkFreq := freqOf clks HCLK
  if 0#32 < hclkFreq then
    let extRefFreq := hclkFreq / 8#32
    if extRefFreq = 0#32 then throw .divByZero
    else return { s with
      systemClockScale := (TICKS_PER_SEC / hclkFreq.setWidth 64).setWidth 32
      externalRefClockScale := (TICKS_PER_SEC / extRefFreq.setWidth 64).setWidth 32 }
  else return s

/-- `stm32_uart_clk_irq_handler` of a UART. -/
def uartClkIrqHandler (env : Env) (clks : List Clk) (s : Machine) (n : UartNumber) :
    Except Fault Machine := do
  let uart ← clkIrqHandler { env with periphFreq := freqOf clks (PERIPHCLK n.periph) }
    (s.uart n) true
  return { s with uart := Function.update s.uart n uart }

/-- One event of the clock tree: `qemu_set_irq(user, 1)` calls the handler of the user. -/
def deliver (env : Env) (s : Machine) : Clktree.Event → Except Fault Machine
  | .setIrq user clks =>
    if user = hclkUpdIrq then hclkUpdIrqHandler clks s
    else
      match UartNumber.ofClkIrq user with
      | some n => uartClkIrqHandler env clks s n
      | none => return s
  | .exceedsMax _ _ _ => return s

/-- The events of an update, in their order; the log has the latest first. -/
def newEvents (t t' : Tree) : List Clktree.Event :=
  (t'.log.take (t'.log.length - t.log.length)).reverse

/-! ### The machine -/

/-- `stm32_uart_init`: the UART becomes a user of its clock and is reset. -/
def uartInit (env : Env) (s : Machine) (n : UartNumber) : Except Fault Machine := do
  let tree ← s.rcc.tree.adduser (PERIPHCLK n.periph) n.clkIrq
  let s := { s with rcc := { s.rcc with tree := tree } }
  let uart ← Uart.reset (s.env env n) (s.uart n)
  return { s with uart := Function.update s.uart n uart }

/-- The devices as `stm32_init` creates them. -/
def init (env : Env) (connected : UartNumber → Bool) (afioBoardMap : UartNumber → BitVec 32) :
    Except Fault Machine := do
  let rcc ← Rcc.init
  let s : Machine :=
    { rcc := rcc
      uart := fun n => .alloc n.periph (connected n) (afioBoardMap n)
      systemClockScale := 0#32
      externalRefClockScale := 1000#32 }
  UartNumber.all.foldlM (uartInit env) s

/-- What can happen to the devices. -/
inductive Event
  | rcc (e : Rcc.Event)
  | uart (n : UartNumber) (e : Uart.Event)
  deriving DecidableEq, Repr

/-- What it does. -/
def step (env : Env) (s : Machine) : Event → Except Fault Machine
  | .rcc e => do
    let rcc ← Rcc.step s.rcc e
    (newEvents s.rcc.tree rcc.tree).foldlM (deliver env) { s with rcc := rcc }
  | .uart n e => do
    let uart ← Uart.step (s.env env n) (s.uart n) e
    return { s with uart := Function.update s.uart n uart }

/-- When it can happen. -/
def Event.Enabled (env : Env) (s : Machine) : Event → Prop
  | .rcc _ => True
  | .uart n e => e.Enabled (s.env env n) (s.uart n)

/-- A step of a run: an event, the machine it happens in, and no fault. -/
def Step (s : Machine) (i : Env × Event) (s' : Machine) : Prop :=
  i.2.Enabled i.1 s ∧ step i.1 s i.2 = .ok s'

end Soc
end Especial
