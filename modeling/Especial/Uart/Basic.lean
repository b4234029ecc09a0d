/-
# The USART of the emulator

A translation of `hw/char/stm32_uart.c` (default build: the baud delay is
simulated, overruns are not).  A flag that the source keeps in a `uint32_t` as `0`
or `1` is a `Bool`; a timer is its deadline while it is armed.

The USART looks at three other devices: the frequency and the gate of its
peripheral clock (RCC), its pin mapping (AFIO) and the configuration of its
transmit pin (GPIO).  With the virtual time they form the `Env` of a step; nothing
here constrains how they change between two steps.

UART5 is the debug port of the emulator: a write to any of its registers posts an
event and does nothing else, and a read of its data register waits for the
acknowledgement of that event.
-/

import Especial.Stm32.Basic

namespace Especial
namespace Uart

open Qemu Stm32

/-- What the USART sees of the rest of the machine. -/
structure Env where
  /-- `qemu_clock_get_ns(QEMU_CLOCK_VIRTUAL)` -/
  now : BitVec 64
  /-- `stm32_rcc_get_periph_freq` -/
  periphFreq : BitVec 32
  /-- `clktree_is_enabled` of the peripheral clock -/
  clkEnabled : Bool
  /-- `stm32_afio_get_periph_map`, which knows neither UART4 nor a GPIO -/
  periphMap : Periph → Except Fault (BitVec 32)
  /-- `stm32_gpio_get_mode_bits` -/
  modeBits : Periph → ℕ → BitVec 8
  /-- `stm32_gpio_get_config_bits` -/
  configBits : Periph → ℕ → BitVec 8

/-- A machine in which every USART is mapped to its default pins, all of them
alternate function outputs; the examples are about it. -/
def exampleEnv (now : BitVec 64) : Env where
  now := now
  periphFreq := 8000000#32
  clkEnabled := true
  periphMap _ := .ok 0#32
  modeBits _ _ := 1#8
  configBits _ _ := GPIO_OUT_ALT_PUSHPULL

/-- `Stm32Uart`. -/
structure Stm32Uart where
  periph : Periph
  bitsPerSec : BitVec 32
  nsPerChar : BitVec 64
  RDR : BitVec 32
  TDR : BitVec 32
  BRR : BitVec 32
  CR1 : BitVec 32
  CR2 : BitVec 32
  CR3 : BitVec 32
  TXE : Bool
  TC : Bool
  RXNE : Bool
  ORE : Bool
  UE : Bool
  TXEIE : Bool
  TCIE : Bool
  RXNEIE : Bool
  TE : Bool
  RE : Bool
  srReadSinceOreSet : Bool
  receiving : Bool
  /-- deadline of `rx_timer` while it is armed -/
  rxTimer : Option (BitVec 64)
  /-- deadline of `tx_timer` while it is armed -/
  txTimer : Option (BitVec 64)
  /-- the character backend with the bytes it was handed; `none` for a null `chr` -/
  chr : Option (List (BitVec 8))
  afioBoardMap : BitVec 32
  /-- level last driven on the NVIC line -/
  irq : Bool
  currIrqLevel : Bool
  /-- texts of `stm32_hw_warn` -/
  warnings : List String
  /-- arguments of `post_event_c` -/
  events : List (BitVec 8)
  deriving DecidableEq, Repr

/-- The device as it is allocated, connected to a backend (`stm32_uart_connect`):
every field is zero. -/
def Stm32Uart.alloc (periph : Periph) (connected : Bool) (afioBoardMap : BitVec 32) :
    Stm32Uart where
  periph := periph
  bitsPerSec := 0#32
  nsPerChar := 0#64
  RDR := 0#32
  TDR := 0#32
  BRR := 0#32
  CR1 := 0#32
  CR2 := 0#32
  CR3 := 0#32
  TXE := false
  TC := false
  RXNE := false
  ORE := false
  UE := false
  TXEIE := false
  TCIE := false
  RXNEIE := false
  TE := false
  RE := false
  srReadSinceOreSet := false
  receiving := false
  rxTimer := none
  txTimer := none
  chr := if connected then some [] else none
  afioBoardMap := afioBoardMap
  irq := false
  currIrqLevel := false
  warnings := []
  events := []

/-! ### Helper functions -/

/-- `stm32_uart_baud_update`. -/
def baudUpdate (env : Env) (s : Stm32Uart) : Except Fault Stm32Uart :=
  if s.BRR = 0#32 ∨ env.periphFreq = 0#32 then
    return { s with bitsPerSec := 0#32 }
  else
    let bitsPerSec := env.periphFreq / s.BRR
    if bitsPerSec = 0#32 then throw .divByZero
    else
      let nsPerBit := 1000000000#64 / bitsPerSec.setWidth 64
      return { s with bitsPerSec := bitsPerSec, nsPerChar := nsPerBit * 10#64 }

/-- `stm32_uart_clk_irq_handler`. -/
def clkIrqHandler (env : Env) (s : Stm32Uart) (level : Bool) : Except Fault Stm32Uart :=
  if level then baudUpdate env s else return s

/-- The level `stm32_uart_update_irq` computes. -/
def Stm32Uart.newIrqLevel (s : Stm32Uart) : Bool :=
  (s.TCIE && s.TC) || (s.TXEIE && s.TXE) || (s.RXNEIE && (s.ORE || s.RXNE))

/-- `stm32_uart_update_irq`. -/
def updateIrq (s : Stm32Uart) : Stm32Uart :=
  if s.newIrqLevel != s.currIrqLevel then
    { s with irq := s.newIrqLevel, currIrqLevel := s.newIrqLevel }
  else s

/-- `stm32_uart_start_tx`.  The conversion to `uint8_t` drops the ninth bit. -/
def startTx (env : Env) (s : Stm32Uart) (value : BitVec 32) : Stm32Uart :=
  let ch : BitVec 8 := value.setWidth 8
  { s with
    TC := false
    chr := s.chr.map (· ++ [ch])
    txTimer := some (env.now + s.nsPerChar) }

/-- `stm32_uart_tx_complete`. -/
def txComplete (env : Env) (s : Stm32Uart) : Stm32Uart :=
  if s.TXE then updateIrq { s with TC := true }
  else
    let s := updateIrq { s with TXE := true }
    startTx env s s.TDR

/-- The port and the pin of the transmit line, by the mapping of the USART. -/
def txPin (env : Env) : Periph → Except Fault (Periph × ℕ)
  | .uart1 => do
    let map ← env.periphMap .uart1
    if map = 0#32 then return (.gpioa, 9)
    else if map = 1#32 then return (.gpiob, 6)
    else throw (.assertFail "false")
  | .uart2 => do
    let map ← env.periphMap .uart2
    if map = 0#32 then return (.gpioa, 2)
    else if map = 1#32 then return (.gpiod, 5)
    else throw (.assertFail "false")
  | .uart3 => do
    let map ← env.periphMap .uart3
    if map = 0#32 then return (.gpiob, 10)
    else if map = 1#32 then return (.gpioc, 10)
    else if map = 3#32 then return (.gpiod, 8)
    else throw (.assertFail "false")
  | _ => throw (.assertFail "false")

/-- `stm32_uart_check_tx_pin`; the debug port has no pin to check. -/
def checkTxPin (env : Env) (s : Stm32Uart) : Except Fault Unit :=
  if s.periph = .uart5 then return ()
  else do
    let (txPeriph, pin) ← txPin env s.periph
    hwErrorIf (env.modeBits txPeriph pin = GPIO_MODE_IN)
      "UART TX pin needs to be configured as output"
    let config := env.configBits txPeriph pin
    hwErrorIf (config ≠ GPIO_OUT_ALT_PUSHPULL ∧ config ≠ GPIO_OUT_ALT_OPEN)
      "UART TX pin needs to be configured as alternate function output"

/-! ### Timers and the character backend -/

/-- `stm32_uart_rx_timer_expire`. -/
def rxTimerExpire (s : Stm32Uart) : Stm32Uart := { s with receiving := false }

/-- `stm32_uart_tx_timer_expire`. -/
def txTimerExpire (env : Env) (s : Stm32Uart) : Stm32Uart := txComplete env s

/-- `stm32_uart_can_receive`. -/
def canReceive (s : Stm32Uart) : Bool :=
  if s.UE && s.RE then
    if s.receiving then false
    else if s.RXNE then false
    else true
  else true

/-- `stm32_uart_receive`, for the first byte of a non-empty buffer. -/
def receive (env : Env) (s : Stm32Uart) (ch : BitVec 8) : Stm32Uart :=
  let s :=
    if s.UE && s.RE then
      let s := if s.RXNE then updateIrq { s with ORE := true, srReadSinceOreSet := false } else s
      updateIrq { s with RDR := ch.setWidth 32, RXNE := true }
    else s
  { s with receiving := true, rxTimer := some (env.now + s.nsPerChar) }

/-! ### Registers -/

/-- The value `stm32_uart_USART_SR_read` returns. -/
def Stm32Uart.SR (s : Stm32Uart) : BitVec 32 :=
  ofBit s.TXE <<< 7 ||| ofBit s.TC <<< 6 ||| ofBit s.RXNE <<< 5 ||| ofBit s.ORE <<< 3

/-- `stm32_uart_USART_SR_read`. -/
def srRead (s : Stm32Uart) : BitVec 32 × Stm32Uart :=
  (s.SR, if s.ORE then { s with srReadSinceOreSet := true } else s)

/-- `stm32_uart_USART_SR_write`. -/
def srWrite (s : Stm32Uart) (newValue : BitVec 32) : Except Fault Stm32Uart := do
  let newTC := newValue.getLsbD 6
  hwErrorIf newTC "Software attempted to set USART TC bit\n"
  let s := { s with TC := newTC }
  let newRXNE := newValue.getLsbD 5
  hwErrorIf newRXNE "Software attempted to set USART RXNE bit\n"
  let s := { s with RXNE := newRXNE }
  return updateIrq s

/-- `stm32_uart_USART_DR_read`. -/
def drRead (s : Stm32Uart) : Except Fault (BitVec 32 × Stm32Uart) := do
  let s := if s.ORE && s.srReadSinceOreSet then { s with ORE := false } else s
  hwErrorIf (!s.UE) "Attempted to read from USART_DR while UART was disabled."
  hwErrorIf (!s.RE) "Attempted to read from USART_DR while UART receiver was disabled."
  if s.RXNE then
    return (s.RDR, updateIrq { s with RXNE := false })
  else throw (.hwError "Read value from USART_DR while it was empty.")

/-- `stm32_uart_USART_DR_write`. -/
def drWrite (env : Env) (s : Stm32Uart) (newValue : BitVec 32) : Except Fault Stm32Uart := do
  let writeValue := newValue &&& 0x1ff#32
  hwErrorIf (!s.UE) "Attempted to write to USART_DR while UART was disabled."
  hwErrorIf (!s.TE) "Attempted to write to USART_DR while UART transmitter was disabled."
  checkTxPin env s
  if s.TC then return updateIrq (startTx env s writeValue)
  else if s.TXE then return updateIrq { s with TDR := writeValue, TXE := false }
  else throw (.hwError "Wrote new value to USART_DR while it was non-empty.")

/-- `stm32_uart_USART_BRR_write`. -/
def brrWrite (env : Env) (s : Stm32Uart) (newValue : BitVec 32) : Except Fault Stm32Uart :=
  baudUpdate env { s with BRR := newValue &&& 0xffff#32 }

/-- The check of the pin mapping when a USART is enabled. -/
def checkMapping (env : Env) (s : Stm32Uart) : Except Fault Unit :=
  if s.UE then do
    let map ← env.periphMap s.periph
    hwErrorIf (s.afioBoardMap ≠ map) s!"Bad AFIO mapping for {s.periph.name}"
  else return ()

/-- `stm32_uart_USART_CR1_write`. -/
def cr1Write (env : Env) (s : Stm32Uart) (newValue : BitVec 32) : Except Fault Stm32Uart := do
  let s := { s with UE := newValue.getLsbD 13 }
  checkMapping env s
  let s := { s with
    TXEIE := newValue.getLsbD 7
    TCIE := newValue.getLsbD 6
    RXNEIE := newValue.getLsbD 5
    TE := newValue.getLsbD 3
    RE := newValue.getLsbD 2
    CR1 := newValue &&& 0x3fff#32 }
  return updateIrq s

/-- `stm32_uart_USART_CR2_write`. -/
def cr2Write (s : Stm32Uart) (newValue : BitVec 32) : Stm32Uart :=
  { s with CR2 := newValue &&& 0x7f7f#32 }

/-- `stm32_uart_USART_CR3_write`. -/
def cr3Write (s : Stm32Uart) (newValue : BitVec 32) : Stm32Uart :=
  { s with CR3 := newValue &&& 0x7ff#32 }

/-- `stm32_uart_reset`.  The timers, `receiving` and the data registers stay. -/
def reset (env : Env) (s : Stm32Uart) : Except Fault Stm32Uart := do
  let s := { s with TXE := true, TC := true, RXNE := false, ORE := false }
  let s ← brrWrite env s 0#32
  let s ← cr1Write env s 0#32
  let s := cr2Write s 0#32
  let s := cr3Write s 0#32
  return updateIrq s

/-! ### Guest accesses -/

/-- `MONITOR_ACK_READ`, what a read of the debug port returns once it is acknowledged. -/
def MONITOR_ACK_READ : BitVec 64 := 0x1ff

/-- `stm32_uart_read`; `size` is in bytes. -/
def read (s : Stm32Uart) (offset size : ℕ) : Except Fault (BitVec 64 × Stm32Uart) :=
  let start := offset % 4 * 8
  let length := size * 8
  match offset / 4 * 4 with
  | 0x00 =>
    let (value, s) := srRead s
    return (extract64 (value.setWidth 64) start length, s)
  | 0x04 =>
    if s.periph = .uart5 then return (MONITOR_ACK_READ, s)
    else do
      let (value, s) ← drRead s
      return (extract64 (value.setWidth 64) start length, s)
  | 0x08 => return (extract64 (s.BRR.setWidth 64) start length, s)
  | 0x0c => return (extract64 (s.CR1.setWidth 64) start length, s)
  | 0x10 => return (extract64 (s.CR2.setWidth 64) start length, s)
  | 0x14 => return (extract64 (s.CR3.setWidth 64) start length, s)
  | 0x18 => throw (notImplReg "stm32_uart_read" offset size)
  | _ => throw (badReg "stm32_uart_read" offset size)

/-- The 32-bit value a write function gets: the written bytes over the old ones. -/
def merge (old : BitVec 32) (offset : ℕ) (value : BitVec 64) (size : ℕ) : BitVec 32 :=
  (deposit64 (old.setWidth 64) (offset % 4 * 8) (size * 8) value).setWidth 32

/-- `stm32_rcc_check_periph_clk`. -/
def checkPeriphClk (env : Env) (s : Stm32Uart) : Stm32Uart :=
  if env.clkEnabled then s else { s with warnings := s.warnings ++ [periphClkWarning s.periph] }

/-- `stm32_uart_write`; `size` is in bytes. -/
def write (env : Env) (s : Stm32Uart) (offset : ℕ) (value : BitVec 64) (size : ℕ) :
    Except Fault Stm32Uart :=
  if s.periph = .uart5 then return { s with events := s.events ++ [value.setWidth 8] }
  else
    let s := checkPeriphClk env s
    match offset / 4 * 4 with
    | 0x00 =>
      let (old, s) := srRead s
      srWrite s (merge old offset value size)
    | 0x04 => drWrite env s (merge 0#32 offset value size)
    | 0x08 => brrWrite env s (merge s.BRR offset value size)
    | 0x0c => cr1Write env s (merge s.CR1 offset value size)
    | 0x10 => return cr2Write s (merge s.CR2 offset value size)
    | 0x14 => return cr3Write s (merge s.CR3 offset value size)
    | 0x18 => throw (notImplReg "stm32_uart_write" offset 2)
    | _ => throw (badReg "stm32_uart_write" offset 2)

/-- What can happen to a USART. -/
inductive Event
  | read (offset size : ℕ)
  | write (offset : ℕ) (value : BitVec 64) (size : ℕ)
  | receive (ch : BitVec 8)
  | rxTimer
  | txTimer
  | clkIrq (level : Bool)
  | reset
  deriving DecidableEq, Repr

/-- When it can happen: the memory region takes aligned accesses of one, two or four
bytes, and a timer expires at or after its deadline.  (The region asks for two bytes at
least, but `memory_region_access_valid` looks at that only where there is an `accepts`.) -/
def Event.Enabled (env : Env) (s : Stm32Uart) : Event → Prop
  | .read offset size | .write offset _ size =>
    (size = 1 ∨ size = 2 ∨ size = 4) ∧ offset % size = 0
  | .rxTimer => ∃ d ∈ s.rxTimer, d ≤ env.now
  | .txTimer => ∃ d ∈ s.txTimer, d ≤ env.now
  | .receive _ | .clkIrq _ | .reset => True

/-- What it does. -/
def step (env : Env) (s : Stm32Uart) : Event → Except Fault Stm32Uart
  | .read offset size => do
    let (_, s) ← read s offset size
    return s
  | .write offset value size => write env s offset value size
  | .receive ch => return receive env s ch
  | .rxTimer => return rxTimerExpire { s with rxTimer := none }
  | .txTimer => return txTimerExpire env { s with txTimer := none }
  | .clkIrq level => clkIrqHandler env s level
  | .reset => reset env s

/-- A step of a run: an event, the machine it happens in, and no fault. -/
def Step (s : Stm32Uart) (i : Env × Event) (s' : Stm32Uart) : Prop :=
  i.2.Enabled i.1 s ∧ step i.1 s i.2 = .ok s'

end Uart
end Especial
