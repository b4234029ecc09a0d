/-
# Reset and clock control of the emulator

A translation of `hw/arm/stm32_rcc.c` on the P103 board (8 MHz and 32768 Hz
crystals).  The device keeps its clocks in a clock tree and only part of its
registers: `CR`, `BDCR` and `CSR` are read back from the clocks, `CFGR` from its
fields, and the four peripheral registers from masked copies of what was written.

The users of a clock are notified through the log of the tree; what the devices
behind them do with it is not part of the RCC.
-/

import Especial.Clktree.Interface
import Especial.Stm32.Basic

namespace Especial
namespace Rcc

open Qemu Stm32 Clktree

/-! ### The clocks, numbered in the order of their creation -/

def HSICLK : ℕ := 0
def LSICLK : ℕ := 1
def HSECLK : ℕ := 2
def LSECLK : ℕ := 3
def HSI_DIV2 : ℕ := 4
def HSE_DIV2 : ℕ := 5
def PLLXTPRECLK : ℕ := 6
def PLLCLK : ℕ := 7
def SYSCLK : ℕ := 8
def HCLK : ℕ := 9
def PCLK1 : ℕ := 10
def PCLK2 : ℕ := 11

/-- `PERIPHCLK[periph]`. -/
def PERIPHCLK : Periph → ℕ
  | .gpioa => 12 | .gpiob => 13 | .gpioc => 14 | .gpiod => 15 | .gpioe => 16 | .gpiof => 17
  | .gpiog => 18
  | .afio => 19
  | .uart1 => 20 | .uart2 => 21 | .uart3 => 22 | .uart4 => 23 | .uart5 => 24

/-- `HSI_FREQ`. -/
def HSI_FREQ : BitVec 32 := 8000000

/-- `LSI_FREQ`. -/
def LSI_FREQ : BitVec 32 := 40000

/-- `osc_freq` of the board. -/
def oscFreq : BitVec 32 := 8000000

/-- `osc32_freq` of the board. -/
def osc32Freq : BitVec 32 := 32768

/-- The user of `HCLK`, `hclk_upd_irq[0]`. -/
def hclkUpdIrq : ℕ := 0

/-- A peripheral clock as `stm32_rcc_init_clk` creates it. -/
def createPeriphClk (p : Periph) (input : ℕ) : Op :=
  .createClk p.name 1#16 1#16 false NO_MAX_FREQ 0 [input]

/-- The calls of `stm32_rcc_init_clk`. -/
def initOps : List Op :=
  [ .createSrcClk "HSI" HSI_FREQ false,
    .createSrcClk "LSI" LSI_FREQ false,
    .createSrcClk "HSE" oscFreq false,
    .createSrcClk "LSE" osc32Freq false,
    .createClk "HSI/2" 1#16 2#16 true NO_MAX_FREQ 0 [HSICLK],
    .createClk "HSE/2" 1#16 2#16 true NO_MAX_FREQ 0 [HSECLK],
    .createClk "PLLXTPRE" 1#16 1#16 true NO_MAX_FREQ NO_INPUT [HSECLK, HSE_DIV2],
    .createClk "PLLCLK" 0#16 1#16 false 72000000#32 NO_INPUT [HSI_DIV2, PLLXTPRECLK],
    .createClk "SYSCLK" 1#16 1#16 true 72000000#32 NO_INPUT [HSICLK, HSECLK, PLLCLK],
    .createClk "HCLK" 0#16 1#16 true 72000000#32 0 [SYSCLK],
    .adduser HCLK hclkUpdIrq,
    .createClk "PCLK1" 0#16 1#16 true 36000000#32 0 [HCLK],
    .createClk "PCLK2" 0#16 1#16 true 72000000#32 0 [HCLK],
    createPeriphClk .gpioa PCLK2,
    createPeriphClk .gpiob PCLK2,
    createPeriphClk .gpioc PCLK2,
    createPeriphClk .gpiod PCLK2,
    createPeriphClk .gpioe PCLK2,
    createPeriphClk .gpiof PCLK2,
    createPeriphClk .gpiog PCLK2,
    createPeriphClk .afio PCLK2,
    createPeriphClk .uart1 PCLK2,
    createPeriphClk .uart2 PCLK1,
    createPeriphClk .uart3 PCLK1,
    createPeriphClk .uart4 PCLK1,
    createPeriphClk .uart5 PCLK1 ]

/-- `stm32_rcc_init_clk`. -/
def initClk : Except Fault Tree := initOps.foldlM Tree.exec {}

/-! ### The device -/

/-- `Stm32Rcc`, with the texts of its warnings. -/
structure Stm32Rcc where
  tree : Tree
  APB1ENR : BitVec 32
  APB2ENR : BitVec 32
  APB1RSTR : BitVec 32
  APB2RSTR : BitVec 32
  PLLMUL : BitVec 32
  PLLXTPRE : BitVec 32
  PLLSRC : BitVec 32
  PPRE1 : BitVec 32
  PPRE2 : BitVec 32
  HPRE : BitVec 32
  SW : BitVec 32
  warnings : List String

/-- `stm32_rcc_init`; the fields of a new device are zero. -/
def init : Except Fault Stm32Rcc := do
  let tree ← initClk
  return {
    tree := tree
    APB1ENR := 0#32
    APB2ENR := 0#32
    APB1RSTR := 0#32
    APB2RSTR := 0#32
    PLLMUL := 0#32
    PLLXTPRE := 0#32
    PLLSRC := 0#32
    PPRE1 := 0#32
    PPRE2 := 0#32
    HPRE := 0#32
    SW := 0#32
    warnings := [] }

namespace Stm32Rcc

/-- `clktree_is_enabled`. -/
def isEnabled (s : Stm32Rcc) (clk : ℕ) : Bool := (s.tree.clk clk).enabled

/-- `clktree_get_output_freq`. -/
def outputFreq (s : Stm32Rcc) (clk : ℕ) : BitVec 32 := (s.tree.clk clk).outputFreq

/-- `clktree_set_enabled`. -/
def setEnabled (s : Stm32Rcc) (clk : ℕ) (enabled : Bool) : Except Fault Stm32Rcc := do
  let tree ← s.tree.setEnabled clk enabled
  return { s with tree := tree }

/-- `clktree_set_scale`. -/
def setScale (s : Stm32Rcc) (clk : ℕ) (multiplier divisor : BitVec 32) :
    Except Fault Stm32Rcc := do
  let tree ← s.tree.setScale clk (multiplier.setWidth 16) (divisor.setWidth 16)
  return { s with tree := tree }

/-- `clktree_set_selected_input`. -/
def setSelectedInput (s : Stm32Rcc) (clk : ℕ) (selectedInput : BitVec 32) :
    Except Fault Stm32Rcc := do
  let tree ← s.tree.setSelectedInput clk selectedInput.toNat
  return { s with tree := tree }

/-- `if(cond) { stm32_hw_warn(text); }`. -/
def warnIf (s : Stm32Rcc) (cond : Bool) (text : String) : Stm32Rcc :=
  if cond then { s with warnings := s.warnings ++ [text] } else s

end Stm32Rcc

/-! ### Registers -/

/-- `stm32_rcc_RCC_CR_read`. -/
def crRead (s : Stm32Rcc) : BitVec 32 :=
  let pllonBit := ofBit (s.isEnabled PLLCLK)
  let hseonBit := ofBit (s.isEnabled HSECLK)
  let hsionBit := ofBit (s.isEnabled HSICLK)
  pllonBit <<< 25 ||| pllonBit <<< 24 ||| hseonBit <<< 17 ||| hseonBit <<< 16 |||
    hsionBit <<< 1 ||| hsionBit <<< 0

/-- `stm32_rcc_RCC_CR_write`.  The third warning repeats the condition on the HSE,
which is then no longer enabled. -/
def crWrite (s : Stm32Rcc) (newValue : BitVec 32) : Except Fault Stm32Rcc := do
  let newPllon := newValue.getLsbD 24
  let s := s.warnIf (s.isEnabled PLLCLK && !newPllon && s.SW == 2#32)
    "PLL cannot be disabled while it is selected as the system clock."
  let s ← s.setEnabled PLLCLK newPllon
  let newHseon := newValue.getLsbD 16
  let s := s.warnIf (s.isEnabled HSECLK && !newHseon &&
      (s.SW == 1#32 || (s.SW == 2#32 && s.PLLSRC == 1#32)))
    "HSE oscillator cannot be disabled while it is driving the system clock."
  let s ← s.setEnabled HSECLK newHseon
  let newHsion := newValue.getLsbD 0
  let s := s.warnIf (s.isEnabled HSECLK && !newHseon &&
      (s.SW == 0#32 || (s.SW == 2#32 && s.PLLSRC == 0#32)))
    "HSI oscillator cannot be disabled while it is driving the system clock."
  s.setEnabled HSICLK newHsion

/-- `stm32_rcc_RCC_CFGR_read`. -/
def cfgrRead (s : Stm32Rcc) : BitVec 32 :=
  s.PLLMUL <<< 18 ||| s.PLLXTPRE <<< 17 ||| s.PLLSRC <<< 16 ||| s.PPRE2 <<< 11 ||| s.PPRE1 <<< 8 |||
    s.HPRE <<< 4 ||| s.SW <<< 0 ||| s.SW <<< 2

/-- The `PLLMUL` part of `stm32_rcc_RCC_CFGR_write`. -/
def pllmulWrite (s : Stm32Rcc) (newPLLMUL : BitVec 32) (init : Bool) : Except Fault Stm32Rcc := do
  let s := s.warnIf (!init && s.isEnabled PLLCLK && newPLLMUL != s.PLLMUL)
    "Can only change PLLMUL while PLL is disabled"
  assert (newPLLMUL ≤ 0xf#32) "new_PLLMUL <= 0xf"
  let s ← s.setScale PLLCLK (if newPLLMUL = 0xf#32 then 16#32 else newPLLMUL + 2#32) 1#32
  return { s with PLLMUL := newPLLMUL }

/-- The `PLLXTPRE` part. -/
def pllxtpreWrite (s : Stm32Rcc) (newPLLXTPRE : BitVec 32) (init : Bool) :
    Except Fault Stm32Rcc := do
  let s := s.warnIf (!init && s.isEnabled PLLCLK && newPLLXTPRE != s.PLLXTPRE)
    "Can only change PLLXTPRE while PLL is disabled"
  let s ← s.setSelectedInput PLLXTPRECLK newPLLXTPRE
  return { s with PLLXTPRE := newPLLXTPRE }

/-- The `PLLSRC` part. -/
def pllsrcWrite (s : Stm32Rcc) (newPLLSRC : BitVec 32) (init : Bool) : Except Fault Stm32Rcc := do
  let s := s.warnIf (!init && s.isEnabled PLLCLK && newPLLSRC != s.PLLSRC)
    "Can only change PLLSRC while PLL is disabled"
  let s ← s.setSelectedInput PLLCLK newPLLSRC
  return { s with PLLSRC := newPLLSRC }

/-- The divisor of an APB prescaler. -/
def apbDivisor (ppre : BitVec 32) : BitVec 32 :=
  if ppre < 4#32 then 1#32 else 2#32 * (ppre - 3#32)

/-- The divisor of the AHB prescaler. -/
def ahbDivisor (hpre : BitVec 32) : BitVec 32 :=
  if hpre < 8#32 then 1#32 else 2#32 * (hpre - 7#32)

/-- The `SW` part. -/
def swWrite (s : Stm32Rcc) (newSW : BitVec 32) : Except Fault Stm32Rcc :=
  let s := { s with SW := newSW }
  if s.SW = 0#32 ∨ s.SW = 1#32 ∨ s.SW = 2#32 then s.setSelectedInput SYSCLK s.SW
  else throw (.hwError "Invalid input selected for SYSCLK")

/-- `stm32_rcc_RCC_CFGR_write`. -/
def cfgrWrite (s : Stm32Rcc) (newValue : BitVec 32) (init : Bool) : Except Fault Stm32Rcc := do
  let s ← pllmulWrite s (extract32 newValue 18 4) init
  let s ← pllxtpreWrite s (extract32 newValue 17 1) init
  let s ← pllsrcWrite s (extract32 newValue 16 1) init
  let s := { s with PPRE2 := (newValue &&& 0x3c00#32) >>> 11 }
  let s ← s.setScale PCLK2 1#32 (apbDivisor s.PPRE2)
  let s := { s with PPRE1 := (newValue &&& 0x700#32) >>> 8 }
  let s ← s.setScale PCLK1 1#32 (apbDivisor s.PPRE1)
  let s := { s with HPRE := (newValue &&& 0xf0#32) >>> 4 }
  let s ← s.setScale HCLK 1#32 (ahbDivisor s.HPRE)
  swWrite s ((newValue &&& 0x3#32) >>> 0)

/-- `stm32_rcc_periph_enable`, for a list of peripherals with their bits. -/
def periphEnable (s : Stm32Rcc) (newValue : BitVec 32) (l : List (Periph × ℕ)) :
    Except Fault Stm32Rcc :=
  l.foldlM (fun s pb => s.setEnabled (PERIPHCLK pb.1) (newValue.getLsbD pb.2)) s

/-- The calls of `stm32_rcc_periph_enable` in `stm32_rcc_RCC_APB2ENR_write`; those
of `stm32_rcc_RCC_APB2RSTR_write` have the same bits. -/
def apb2Bits : List (Periph × ℕ) :=
  [(.uart1, 14), (.gpioe, 6), (.gpiod, 5), (.gpioc, 4), (.gpiob, 3), (.gpioa, 2), (.afio, 0),
    (.gpiog, 8), (.gpiof, 7)]

/-- The calls of `stm32_rcc_periph_enable` in `stm32_rcc_RCC_APB1ENR_write`; those
of `stm32_rcc_RCC_APB1RSTR_write` have the same bits. -/
def apb1Bits : List (Periph × ℕ) := [(.uart5, 20), (.uart4, 19), (.uart3, 18), (.uart2, 17)]

/-- `stm32_rcc_RCC_APB2ENR_write`. -/
def apb2enrWrite (s : Stm32Rcc) (newValue : BitVec 32) : Except Fault Stm32Rcc := do
  let s ← periphEnable s newValue apb2Bits
  return { s with APB2ENR := newValue &&& 0xfffd#32 }

/-- `stm32_rcc_RCC_APB2RSTR_write`, which enables clocks like its neighbour. -/
def apb2rstrWrite (s : Stm32Rcc) (newValue : BitVec 32) : Except Fault Stm32Rcc := do
  let s ← periphEnable s newValue apb2Bits
  return { s with APB2RSTR := newValue &&& 0xfffd#32 }

/-- `stm32_rcc_RCC_APB1ENR_write`; the mask has none of the bits it looks at. -/
def apb1enrWrite (s : Stm32Rcc) (newValue : BitVec 32) : Except Fault Stm32Rcc := do
  let s ← periphEnable s newValue apb1Bits
  return { s with APB1ENR := newValue &&& 0x5e7d#32 }

/-- `stm32_rcc_RCC_APB1RSTR_write`, which enables clocks like its neighbour. -/
def apb1rstrWrite (s : Stm32Rcc) (newValue : BitVec 32) : Except Fault Stm32Rcc := do
  let s ← periphEnable s newValue apb1Bits
  return { s with APB1RSTR := newValue &&& 0x5e7d#32 }

/-- `stm32_rcc_RCC_BDCR_read`. -/
def bdcrRead (s : Stm32Rcc) : BitVec 32 :=
  let lseonBit := ofBit (s.isEnabled LSECLK)
  lseonBit <<< 1 ||| lseonBit <<< 0

/-- `stm32_rcc_RCC_BDCR_write`. -/
def bdcrWrite (s : Stm32Rcc) (newValue : BitVec 32) : Except Fault Stm32Rcc :=
  s.setEnabled LSECLK (newValue.getLsbD 0)

/-- `stm32_rcc_RCC_CSR_read`. -/
def csrRead (s : Stm32Rcc) : BitVec 32 :=
  let lseonBit := ofBit (s.isEnabled LSICLK)
  lseonBit <<< 1 ||| lseonBit <<< 0

/-- `stm32_rcc_RCC_CSR_write`. -/
def csrWrite (s : Stm32Rcc) (newValue : BitVec 32) : Except Fault Stm32Rcc :=
  s.setEnabled LSICLK (newValue.getLsbD 0)

/-- `stm32_rcc_readw`. -/
def readw (s : Stm32Rcc) (offset : ℕ) : Except Fault (BitVec 32) :=
  match offset with
  | 0x00 => return crRead s
  | 0x04 => return cfgrRead s
  | 0x08 => return 0#32
  | 0x0c => return s.APB2RSTR
  | 0x10 => return s.APB1RSTR
  | 0x14 => throw (notImplReg "stm32_rcc_readw" offset 4)
  | 0x18 => return s.APB2ENR
  | 0x1c => return s.APB1ENR
  | 0x20 => return bdcrRead s
  | 0x24 => return csrRead s
  | 0x28 => throw (notImplReg "stm32_rcc_readw" offset 4)
  | 0x2c => throw (notImplReg "stm32_rcc_readw" offset 4)
  | _ => throw (badReg "stm32_rcc_readw" offset 4)

/-- `stm32_rcc_writew`. -/
def writew (s : Stm32Rcc) (offset : ℕ) (value : BitVec 32) : Except Fault Stm32Rcc :=
  match offset with
  | 0x00 => crWrite s value
  | 0x04 => cfgrWrite s value false
  | 0x08 => return s
  | 0x0c => apb2rstrWrite s value
  | 0x10 => apb1rstrWrite s value
  | 0x14 => throw (notImplReg "stm32_rcc_writew" offset 4)
  | 0x18 => apb2enrWrite s value
  | 0x1c => apb1enrWrite s value
  | 0x20 => bdcrWrite s value
  | 0x24 => csrWrite s value
  | 0x28 => throw (notImplReg "stm32_rcc_writew" offset 4)
  | 0x2c => throw (notImplReg "stm32_rcc_writew" offset 4)
  | _ => throw (badReg "stm32_rcc_writew" offset 4)

/-- `stm32_rcc_reset`; the reset registers keep their values. -/
def reset (s : Stm32Rcc) : Except Fault Stm32Rcc := do
  let s ← crWrite s 0x83#32
  let s ← cfgrWrite s 0#32 true
  let s ← apb2enrWrite s 0#32
  let s ← apb1enrWrite s 0#32
  let s ← bdcrWrite s 0#32
  csrWrite s 0x0c000000#32

/-- What can happen to the device. -/
inductive Event
  | write (offset : ℕ) (value : BitVec 32)
  | reset
  deriving DecidableEq, Repr

/-- What it does. -/
def step (s : Stm32Rcc) : Event → Except Fault Stm32Rcc
  | .write offset value => writew s offset value
  | .reset => reset s

/-- A step that does not fault. -/
def Step (s : Stm32Rcc) (e : Event) (s' : Stm32Rcc) : Prop := step s e = .ok s'

end Rcc
end Especial
