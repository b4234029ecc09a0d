/-
# The firmware library on the registers of a USART

`USART_ClockInit`, `USART_Init` and `USART_Cmd` of `stm32f10x_usart.c`, on the registers of
the emulator.  All of them read a control register, replace some of its bits and write it
back, as a half-word; `Reconfigured` says what that leaves.
-/

import Especial.Rcc.ClocksFreq
import Especial.Uart.Divider

namespace Especial
namespace Hal

open Qemu Stm32 Clktree Lib Rcc Uart

/-! ### The functions -/

/-- A read of `USARTx->reg`. -/
def usartRead (u : Stm32Uart) (r : Ctrl) : Except Fault (BitVec 16 × Stm32Uart) := do
  let (value, u) ← Uart.read u r.offset 2
  return (value.setWidth 16, u)

/-- `USARTx->reg = value`. -/
def usartWrite (env : Env) (u : Stm32Uart) (r : Ctrl) (value : BitVec 16) :
    Except Fault Stm32Uart :=
  Uart.write env u r.offset (value.setWidth 64) 2

/-- `USARTx->reg = f(USARTx->reg)`. -/
def usartModify (env : Env) (u : Stm32Uart) (r : Ctrl) (f : BitVec 16 → BitVec 16) :
    Except Fault Stm32Uart := do
  let (value, u) ← usartRead u r
  usartWrite env u r (f value)

/-- `USART_WordLength`. -/
inductive USARTWordLength
  | b8
  | b9
  deriving DecidableEq, Repr

/-- The value of a word length. -/
def USARTWordLength.val : USARTWordLength → BitVec 16
  | .b8 => 0x0000
  | .b9 => 0x1000

/-- `USART_StopBits`. -/
inductive USARTStopBits
  | one
  | half
  | two
  | oneAndAHalf
  deriving DecidableEq, Repr

/-- The value of the stop bits. -/
def USARTStopBits.val : USARTStopBits → BitVec 16
  | .one => 0x0000
  | .half => 0x1000
  | .two => 0x2000
  | .oneAndAHalf => 0x3000

/-- `USART_Parity`. -/
inductive USARTParity
  | no
  | even
  | odd
  deriving DecidableEq, Repr

/-- The value of a parity. -/
def USARTParity.val : USARTParity → BitVec 16
  | .no => 0x0000
  | .even => 0x0400
  | .odd => 0x0600

/-- `USART_Mode`: one of the two bits, or both. -/
inductive USARTMode
  | rx
  | tx
  | rxTx
  deriving DecidableEq, Repr

/-- The value of a mode. -/
def USARTMode.val : USARTMode → BitVec 16
  | .rx => 0x0004
  | .tx => 0x0008
  | .rxTx => 0x000C

/-- `USART_HardwareFlowControl`. -/
inductive USARTHardwareFlowControl
  | none
  | rts
  | cts
  | rtsCts
  deriving DecidableEq, Repr

/-- The value of a flow control. -/
def USARTHardwareFlowControl.val : USARTHardwareFlowControl → BitVec 16
  | .none => 0x0000
  | .rts => 0x0100
  | .cts => 0x0200
  | .rtsCts => 0x0300

/-- `USART_InitTypeDef`. -/
structure USARTInitTypeDef where
  baudRate : BitVec 32
  wordLength : USARTWordLength
  stopBits : USARTStopBits
  parity : USARTParity
  mode : USARTMode
  hardwareFlowControl : USARTHardwareFlowControl

/-- `USART_StructInit`. -/
def USARTInitTypeDef.default : USARTInitTypeDef where
  baudRate := 9600
  wordLength := .b8
  stopBits := .one
  parity := .no
  mode := .rxTx
  hardwareFlowControl := .none

/-- The divider that `USART_Init` computes; `over8` is the oversampling bit of `CR1`. -/
def usartDivider (over8 : Bool) (apbclock baudRate : BitVec 32) : BitVec 32 :=
  let integerdivider :=
    if over8 then 25#32 * apbclock / (2#32 * baudRate) else 25#32 * apbclock / (4#32 * baudRate)
  let tmpreg := (integerdivider / 100#32) <<< 4
  let fractionaldivider := integerdivider - 100#32 * (tmpreg >>> 4)
  if over8 then tmpreg ||| (fractionaldivider * 8#32 + 50#32) / 100#32 &&& 0x07#32
  else tmpreg ||| (fractionaldivider * 16#32 + 50#32) / 100#32 &&& 0x0F#32

/-- `USART_Init`, with the frequencies that `RCC_GetClocksFreq` computes.  The source reads the
oversampling bit once for each part of the divider. -/
def usartInit (env : Env) (clocks : Clocks) (u : Stm32Uart) (init : USARTInitTypeDef) :
    Except Fault Stm32Uart := do
  let u ← usartModify env u .CR2 fun tmpreg => tmpreg &&& 0xCFFF#16 ||| init.stopBits.val
  let u ← usartModify env u .CR1 fun tmpreg =>
    tmpreg &&& 0xE9F3#16 ||| (init.wordLength.val ||| init.parity.val ||| init.mode.val)
  let u ← usartModify env u .CR3 fun tmpreg =>
    tmpreg &&& 0xFCFF#16 ||| init.hardwareFlowControl.val
  let apbclock := if u.periph = .uart1 then clocks.PCLK2_Frequency else clocks.PCLK1_Frequency
  let (cr1, u) ← usartRead u .CR1
  let over8 := decide (cr1 &&& 0x8000#16 ≠ 0#16)
  usartWrite env u .BRR ((usartDivider over8 apbclock init.baudRate).setWidth 16)

/-- `USART_ClockInitTypeDef`, with the values of its constants. -/
structure USARTClockInitTypeDef where
  clock : BitVec 16
  cpol : BitVec 16
  cpha : BitVec 16
  lastBit : BitVec 16

/-- `USART_ClockInit`. -/
def usartClockInit (env : Env) (u : Stm32Uart) (init : USARTClockInitTypeDef) :
    Except Fault Stm32Uart :=
  usartModify env u .CR2 fun tmpreg =>
    tmpreg &&& 0xF0FF#16 ||| (init.clock ||| init.cpol ||| init.cpha ||| init.lastBit)

/-- `USART_Cmd`. -/
def usartCmd (env : Env) (u : Stm32Uart) : FunctionalState → Except Fault Stm32Uart
  | .ENABLE => usartModify env u .CR1 (· ||| 0x2000#16)
  | .DISABLE => usartModify env u .CR1 (· &&& 0xDFFF#16)

/-! ### One register -/

variable {env : Env} {u u' u'' : Stm32Uart} {r : Ctrl} {reg : Ctrl → BitVec 32}

/-- The USART without its control registers, their flags, the rate and the interrupt. -/
def traffic (u : Stm32Uart) : Stm32Uart :=
  { u with
    bitsPerSec := 0#32
    nsPerChar := 0#64
    BRR := 0#32
    CR1 := 0#32
    CR2 := 0#32
    CR3 := 0#32
    UE := false
    TXEIE := false
    TCIE := false
    RXNEIE := false
    TE := false
    RE := false
    irq := false
    currIrqLevel := false }

/-- The USART has the control registers `reg` now, and nothing of its traffic has changed. -/
structure Reconfigured (reg : Ctrl → BitVec 32) (u u' : Stm32Uart) : Prop where
  file : u'.file = .ofRegs reg
  traffic : traffic u' = traffic u

/-- A USART that the firmware can configure: it is not the debug port, its clock is on and
its pins are mapped as they are wired. -/
structure Reachable (env : Env) (u : Stm32Uart) : Prop where
  port : u.periph ≠ .uart5
  clk : env.clkEnabled = true
  map : env.periphMap u.periph = .ok u.afioBoardMap
  decoded : Decoded u

/-- A USART stays reachable when it is configured. -/
theorem Reconfigured.reachable (h : Reconfigured reg u u') (hu : Reachable env u) :
    Reachable env u' := by
  have hperiph : u'.periph = u.periph := (congrArg Stm32Uart.periph h.traffic :)
  have hboard : u'.afioBoardMap = u.afioBoardMap := (congrArg Stm32Uart.afioBoardMap h.traffic :)
  refine ⟨hperiph ▸ hu.port, hu.clk, ?_, (of_file_eq h.file).2⟩
  rw [hperiph, hboard]
  exact hu.map

/-- A control register is read as it is, its lower half. -/
theorem usartRead_eq (u : Stm32Uart) (r : Ctrl) :
    usartRead u r = .ok ((u.ctrl r).setWidth 16, u) := by
  have hoff : r.offset % 4 = 0 ∧ r.offset / 4 * 4 = r.offset := by cases r <;> decide
  have hlow : (extract64 ((u.ctrl r).setWidth 64) 0 16).setWidth 16 = (u.ctrl r).setWidth 16 := by
    ext i hi
    have h64 : i < 64 := by omega
    have h32 : i < 32 := by omega
    rw [← BitVec.getLsbD_eq_getElem, ← BitVec.getLsbD_eq_getElem,
      BitVec.getLsbD_setWidth, extract64,
      getLsbD_extractField (by decide), BitVec.getLsbD_setWidth, BitVec.getLsbD_setWidth]
    simp [hi, h64]
  unfold usartRead
  rw [read_ctrl_eq hoff.2, hoff.1]
  exact congrArg (fun v => Except.ok (v, u)) hlow

/-- Every bit that is implemented is in the low half. -/
theorem merge_and_mask (old : BitVec 32) (r : Ctrl) (value : BitVec 16) :
    merge old r.offset (value.setWidth 64) 2 &&& r.mask = value.setWidth 32 &&& r.mask := by
  have hoff : r.offset % 4 = 0 := by cases r <;> rfl
  have hmask : ∀ i < 32, ¬i < 16 → r.mask.getLsbD i = false := by
    cases r <;> decide
  refine BitVec.eq_of_getLsbD_eq fun i hi => ?_
  rw [BitVec.getLsbD_and, BitVec.getLsbD_and]
  by_cases h16 : i < 16
  · have h64 : i < 64 := by omega
    rw [getLsbD_merge hi (by decide), hoff, if_pos (by omega), BitVec.getLsbD_setWidth,
      BitVec.getLsbD_setWidth]
    simp [h64, hi]
  · rw [hmask i hi h16, Bool.and_false, Bool.and_false]

/-- A half-word write replaces the half of the register that is there. -/
theorem setReg_merge (reg : Ctrl → BitVec 32) (r : Ctrl) (old : BitVec 32) (value : BitVec 16) :
    setReg reg r (merge old r.offset (value.setWidth 64) 2) = setReg reg r (value.setWidth 32) := by
  rw [setReg, setReg, merge_and_mask]

/-- The interrupt is no traffic. -/
theorem traffic_updateIrq (u : Stm32Uart) : traffic (updateIrq u) = traffic u := by
  rw [updateIrq_eq]
  rfl

/-- **A write of a control register** other than `BRR`. -/
theorem usartWrite_returns (hu : Reachable env u) (hr : r ≠ .BRR) (value : BitVec 16) :
    Returns (usartWrite env u r value) (Reconfigured (setReg u.ctrl r (value.setWidth 32)) u) := by
  have hoff : r.offset / 4 * 4 = r.offset := by cases r <;> rfl
  have hclk : checkPeriphClk env u = u := if_pos hu.clk
  have heq : usartWrite env u r value =
      ctrlWrite env u r (merge (u.ctrl r) r.offset (value.setWidth 64) 2) := by
    rw [usartWrite, write_ctrl_eq hoff hu.port, hclk]
  have hfile : ∀ u', usartWrite env u r value = .ok u' →
      u'.file = .ofRegs (setReg u.ctrl r (value.setWidth 32)) := fun u' h => by
    rw [write_file hu.decoded hu.port hoff h, setReg_merge]
  have hdone : ∀ u', usartWrite env u r value = .ok u' → traffic u' = traffic u →
      Returns (usartWrite env u r value) (Reconfigured (setReg u.ctrl r (value.setWidth 32)) u) :=
    fun u' h ht => ⟨u', h, hfile u' h, ht⟩
  cases r with
  | BRR => exact absurd rfl hr
  | CR2 => exact hdone _ heq rfl
  | CR3 => exact hdone _ heq rfl
  | CR1 =>
    have hmap : ∀ on : Bool, checkMapping env { u with UE := on } = .ok () := fun on => by
      unfold checkMapping
      dsimp only
      rw [hu.map, ok_bind]
      cases on
      · rfl
      · simp [hwErrorIf]
    have hret : ∀ v, ∃ u', cr1Write env u v = .ok u' := fun v => by
      unfold cr1Write
      dsimp only
      rw [hmap]
      exact ⟨_, rfl⟩
    obtain ⟨u', hw⟩ := hret (merge (u.ctrl .CR1) Ctrl.CR1.offset (value.setWidth 64) 2)
    refine hdone u' (heq.trans hw) ?_
    rw [cr1Write_frame hw, traffic_updateIrq]
    rfl

/-- **A control register is modified.** -/
theorem usartModify_returns (hu : Reachable env u) (hr : r ≠ .BRR) (f : BitVec 16 → BitVec 16) :
    Returns (usartModify env u r f) fun u' =>
      Reconfigured (setReg u.ctrl r ((f ((u.ctrl r).setWidth 16)).setWidth 32)) u u' ∧
        Reachable env u' := by
  unfold usartModify
  rw [usartRead_eq, ok_bind]
  exact (usartWrite_returns hu hr _).mono fun u' h => ⟨h, h.reachable hu⟩

/-- **The divider is written**, and the rate follows from it. -/
theorem usartWrite_BRR_returns (hu : Reachable env u) (value : BitVec 16)
    (hdiv : Divides (value.setWidth 32) env.periphFreq) :
    Returns (usartWrite env u .BRR value) fun u' =>
      Reconfigured (setReg u.ctrl .BRR (value.setWidth 32)) u u' ∧ BaudOk u' env.periphFreq := by
  have hmask : value.setWidth 32 &&& 0xffff#32 = value.setWidth 32 := by
    have hlow : (value.setWidth 32).setWidth 16 = value := by
      rw [BitVec.setWidth_setWidth_of_le _ (by decide), BitVec.setWidth_eq]
    rw [and_ffff, hlow]
  have hbrr : merge u.BRR Ctrl.BRR.offset (value.setWidth 64) 2 &&& 0xffff#32 = value.setWidth 32 :=
    (merge_and_mask u.BRR .BRR value).trans hmask
  have hclk : checkPeriphClk env u = u := if_pos hu.clk
  have heq : usartWrite env u .BRR value =
      baudUpdate env { u with BRR := value.setWidth 32 } := by
    have hctrl : usartWrite env u .BRR value =
        ctrlWrite env (checkPeriphClk env u) .BRR
          (merge (u.ctrl .BRR) Ctrl.BRR.offset (value.setWidth 64) 2) :=
      write_ctrl_eq rfl hu.port
    rw [hctrl, hclk, ← hbrr]
    rfl
  obtain ⟨u', hw, -⟩ : Returns (baudUpdate env { u with BRR := value.setWidth 32 }) _ :=
    baudUpdate_returns_iff.2 hdiv
  have hwrite : usartWrite env u .BRR value = .ok u' := heq.trans hw
  refine ⟨u', hwrite, ⟨?_, ?_⟩, baudUpdate_baudOk hw⟩
  · have hoff : Ctrl.BRR.offset / 4 * 4 = Ctrl.BRR.offset := rfl
    rw [write_file hu.decoded hu.port hoff hwrite, setReg_merge]
  · obtain ⟨bps, ns, rfl⟩ := baudUpdate_frame hw
    rfl

end Hal
end Especial
