/-
# The firmware library configures a USART

`USART_Init` computes the divider for a baud rate, from the bus frequency that
`RCC_GetClocksFreq` computes: first the quotient in hundredths of a sixteenth, then its
integer part and its fraction, which is rounded to sixteenths.  A fraction of 97 hundredths
or more is rounded up to sixteen sixteenths, of which the four bits of the field keep
nothing (`usartDivider_toNat`): the divider is then 16 too small.
-/

import Especial.Hal.Usart
import Especial.Rcc.PeriphClocks
import Especial.Rcc.Ranges

namespace Especial
namespace Hal

open Qemu Stm32 Clktree Lib Rcc Uart

variable {env : Env} {u u' u'' : Stm32Uart} {r : Ctrl} {reg : Ctrl → BitVec 32}

/-! ### The divider -/

/-- The quotient of clock and baud rate that `USART_Init` computes first: sixteenths of it
in hundredths. -/
def hundredths (f baud : ℕ) : ℕ := 25 * f / (4 * baud)

/-- The divider that is nearest to the quotient. -/
def nearestDivider (f baud : ℕ) : ℕ := (16 * hundredths f baud + 50) / 100

/-- The fraction of a divider is rounded to sixteenths, and four bits are kept of it. -/
theorem rounded_sixteenths (n : ℕ) : n / 100 * 16 + (n % 100 * 16 + 50) / 100 % 16 =
    (16 * n + 50) / 100 - if 97 ≤ n % 100 then 16 else 0 := by
  have hsplit : (16 * n + 50) / 100 = n / 100 * 16 + (n % 100 * 16 + 50) / 100 := by
    have hn : 16 * n + 50 = n % 100 * 16 + 50 + n / 100 * 16 * 100 := by omega
    rw [hn, Nat.add_mul_div_right _ _ (by decide), Nat.add_comm]
  have hlt : n % 100 < 100 := Nat.mod_lt n (by decide)
  rw [hsplit]
  generalize n % 100 = m, n / 100 = q at hlt
  split_ifs with hm <;> omega

/-- **The divider in numbers.**  The fraction loses its carry. -/
theorem usartDivider_toNat {f baud : BitVec 32} (hf : 25 * f.toNat < 2 ^ 32)
    (hbaud : 4 * baud.toNat < 2 ^ 32) :
    (usartDivider false f baud).toNat = nearestDivider f.toNat baud.toNat -
      if 97 ≤ hundredths f.toNat baud.toNat % 100 then 16 else 0 := by
  have hint : (25#32 * f / (4#32 * baud)).toNat = hundredths f.toNat baud.toNat := by
    have hf' : (25#32 * f).toNat = 25 * f.toNat := by
      rw [BitVec.toNat_mul]
      exact Nat.mod_eq_of_lt hf
    have hbaud' : (4#32 * baud).toNat = 4 * baud.toNat := by
      rw [BitVec.toNat_mul]
      exact Nat.mod_eq_of_lt hbaud
    rw [BitVec.toNat_udiv, hf', hbaud', hundredths]
  have hlt : (25#32 * f / (4#32 * baud)).toNat < 2 ^ 32 := (25#32 * f / (4#32 * baud)).isLt
  unfold usartDivider nearestDivider
  simp only [Bool.false_eq_true, if_false]
  rw [← hint]
  generalize 25#32 * f / (4#32 * baud) = x at hlt ⊢
  -- the integer part, and what is left of it
  have hhigh : (x / 100#32).toNat = x.toNat / 100 := BitVec.toNat_udiv
  have hback : ((x / 100#32) <<< 4) >>> 4 = x / 100#32 := by
    apply BitVec.eq_of_toNat_eq
    rw [BitVec.toNat_ushiftRight, BitVec.toNat_shiftLeft, hhigh, Nat.shiftLeft_eq,
      Nat.shiftRight_eq_div_pow, Nat.mod_eq_of_lt (by omega)]
    omega
  have hfrac : (x - 100#32 * (x / 100#32)).toNat = x.toNat % 100 := by
    have hmul : (100#32 * (x / 100#32)).toNat = 100 * (x.toNat / 100) := by
      rw [BitVec.toNat_mul, hhigh]
      exact Nat.mod_eq_of_lt (show 100 * (x.toNat / 100) < 2 ^ 32 by omega)
    rw [BitVec.toNat_sub, hmul]
    omega
  have hround : (((x - 100#32 * (x / 100#32)) * 16#32 + 50#32) / 100#32 &&& 0x0F#32).toNat =
      (x.toNat % 100 * 16 + 50) / 100 % 16 := by
    have hsum : ((x - 100#32 * (x / 100#32)) * 16#32 + 50#32).toNat = x.toNat % 100 * 16 + 50 := by
      rw [BitVec.toNat_add, BitVec.toNat_mul, hfrac]
      simp only [BitVec.toNat_ofNat]
      omega
    rw [BitVec.toNat_and, BitVec.toNat_udiv, hsum]
    exact Nat.and_two_pow_sub_one_eq_mod _ 4
  rw [hback, BitVec.toNat_or, hround, BitVec.toNat_shiftLeft, hhigh, Nat.shiftLeft_eq,
    Nat.mod_eq_of_lt (by omega), ← Nat.shiftLeft_eq, or_eq_add (by omega)]
  exact rounded_sixteenths x.toNat

/-- **How near it is**: between 0.65 below the quotient and half above. -/
theorem nearestDivider_bounds (f : ℕ) {baud : ℕ} (hbaud : 0 < baud) :
    100 * nearestDivider f baud * baud ≤ 100 * f + 50 * baud ∧
      100 * f < (100 * nearestDivider f baud + 65) * baud := by
  have hdiv : hundredths f baud * (4 * baud) ≤ 25 * f := Nat.div_mul_le_self _ _
  have hmod : 25 * f < (hundredths f baud + 1) * (4 * baud) :=
    Nat.lt_mul_of_div_lt (Nat.lt_succ_self _) (by omega)
  have hlow : 100 * nearestDivider f baud ≤ 16 * hundredths f baud + 50 := by
    unfold nearestDivider
    omega
  have hhigh : 16 * hundredths f baud ≤ 100 * nearestDivider f baud + 49 := by
    unfold nearestDivider
    omega
  have hlow' := Nat.mul_le_mul_right baud hlow
  have hhigh' := Nat.mul_le_mul_right baud hhigh
  constructor <;> nlinarith

/-! ### `USART_Init` -/

/-- What `USART_Init` leaves, for a bus that runs at `f`. -/
structure UsartReady (env : Env) (f : BitVec 32) (init : USARTInitTypeDef) (u u' : Stm32Uart) :
    Prop where
  traffic : traffic u' = traffic u
  reachable : Reachable env u'
  UE : u'.UE = u.UE
  TE : u'.TE = init.mode.val.getLsbD 3
  RE : u'.RE = init.mode.val.getLsbD 2
  BRR : u'.BRR = ((usartDivider false f init.baudRate).setWidth 16).setWidth 32
  baud : BaudOk u' env.periphFreq

/-- The bit of `CR1` that would halve the divider is not implemented. -/
theorem over8_eq_false (reg : Ctrl → BitVec 32) (v : BitVec 32) :
    decide ((setReg reg .CR1 v .CR1).setWidth 16 &&& 0x8000#16 ≠ 0#16) = false := by
  have hzero : (setReg reg .CR1 v .CR1).setWidth 16 &&& 0x8000#16 = 0#16 := by
    refine BitVec.eq_of_getLsbD_eq fun i hi => ?_
    have hbit : ∀ i < 16, ((0x3fff#32).getLsbD i && (0x8000#16).getLsbD i) = false := by decide
    have hmask : Ctrl.CR1.mask = 0x3fff#32 := rfl
    rw [setReg, Function.update_self, hmask, BitVec.getLsbD_and, BitVec.getLsbD_setWidth,
      BitVec.getLsbD_and, Bool.and_assoc, Bool.and_assoc, hbit i hi]
    simp
  rw [hzero]
  rfl

/-- The bits of `CR1` that the flags are decoded from, after `USART_Init` has set it. -/
theorem cr1_bits (init : USARTInitTypeDef) (cr1 : BitVec 32) :
    let v := (cr1.setWidth 16 &&& 0xE9F3#16 |||
      (init.wordLength.val ||| init.parity.val ||| init.mode.val)).setWidth 32 &&& 0x3fff#32
    v.getLsbD 13 = cr1.getLsbD 13 ∧ v.getLsbD 3 = init.mode.val.getLsbD 3 ∧
      v.getLsbD 2 = init.mode.val.getLsbD 2 := by
  obtain ⟨baud, wordLength, stopBits, parity, mode, hfc⟩ := init
  dsimp only
  simp only [BitVec.getLsbD_and, BitVec.getLsbD_or, BitVec.getLsbD_setWidth]
  cases wordLength <;> cases parity <;> cases mode <;>
    simp [USARTWordLength.val, USARTParity.val, USARTMode.val]

/-- **`USART_Init`** of a USART whose bus runs at the frequency that the firmware computes. -/
theorem usartInit_returns {clocks : Clocks} {f : BitVec 32} (hu : Reachable env u)
    (init : USARTInitTypeDef)
    (hf : (if u.periph = .uart1 then clocks.PCLK2_Frequency else clocks.PCLK1_Frequency) = f)
    (hdiv : Divides
      (((usartDivider false f init.baudRate).setWidth 16).setWidth 32) env.periphFreq) :
    Returns (usartInit env clocks u init) (UsartReady env f init u) := by
  unfold usartInit
  refine (usartModify_returns hu (by decide) _).bind fun u₁ h₁ => ?_
  obtain ⟨h₁, hu₁⟩ := h₁
  refine (usartModify_returns hu₁ (by decide) _).bind fun u₂ h₂ => ?_
  obtain ⟨h₂, hu₂⟩ := h₂
  refine (usartModify_returns hu₂ (by decide) _).bind fun u₃ h₃ => ?_
  obtain ⟨h₃, hu₃⟩ := h₃
  have htraffic : traffic u₃ = traffic u := h₃.traffic.trans (h₂.traffic.trans h₁.traffic)
  have hperiph : u₃.periph = u.periph := (congrArg Stm32Uart.periph htraffic :)
  have hcr1 : u₃.ctrl .CR1 = u₂.ctrl .CR1 := by
    rw [(of_file_eq h₃.file).1, setReg, Function.update_of_ne (by decide)]
  have hcr1' : u₁.ctrl .CR1 = u.ctrl .CR1 := by
    rw [(of_file_eq h₁.file).1, setReg, Function.update_of_ne (by decide)]
  have hover : decide ((u₃.ctrl .CR1).setWidth 16 &&& 0x8000#16 ≠ 0#16) = false := by
    rw [hcr1, (of_file_eq h₂.file).1]
    exact over8_eq_false _ _
  rw [hperiph, hf, usartRead_eq, ok_bind]
  dsimp only
  rw [hover]
  refine (usartWrite_BRR_returns hu₃ _ hdiv).mono fun u₄ h₄ => ?_
  obtain ⟨h₄, hbaud⟩ := h₄
  -- the flags, from what is now in `CR1`
  obtain ⟨hctrl, hdec⟩ := of_file_eq h₄.file
  have hfinal : u₄.CR1 = u₂.CR1 := by
    have hsame : u₄.ctrl .CR1 = u₂.ctrl .CR1 := by
      rw [hctrl, setReg, Function.update_of_ne (by decide), hcr1]
    exact hsame
  have hvalue : u₂.CR1 = (((u.CR1).setWidth 16 &&& 0xE9F3#16 |||
      (init.wordLength.val ||| init.parity.val ||| init.mode.val)).setWidth 32) &&& 0x3fff#32 := by
    have hset := congrFun (of_file_eq h₂.file).1 .CR1
    rw [setReg, Function.update_self, hcr1'] at hset
    exact hset
  obtain ⟨hUE, hTE, hRE⟩ := cr1_bits init u.CR1
  rw [← hvalue, ← hfinal] at hUE hTE hRE
  refine ⟨h₄.traffic.trans htraffic, h₄.reachable hu₃, ?_, ?_, ?_, ?_, hbaud⟩
  · rw [hdec.UE, hUE, hu.decoded.UE]
  · rw [hdec.TE, hTE]
  · rw [hdec.RE, hRE]
  · have hbrr := congrFun hctrl .BRR
    rw [setReg, Function.update_self] at hbrr
    refine hbrr.trans ?_
    show _ &&& 0xffff#32 = _
    rw [and_ffff, BitVec.setWidth_setWidth_of_le (_ : BitVec 16) (by decide), BitVec.setWidth_eq]

/-! ### The rate -/

section Rate

variable {s₀ s : Stm32Rcc} {l : List Rcc.Event}

/-- No clock is ever faster than 128 MHz. -/
theorem run_outputFreq_le (hinit : Rcc.init = .ok s₀) (hrun : Run Rcc.Step s₀ l s) {i : ℕ}
    (hi : i < 25) : (s.outputFreq i).toNat ≤ 128000000 := by
  have hsafe : boardRanges.Safe s.tree :=
    hrun.invariant (P := fun s => boardRanges.Safe s.tree) (fun _ _ _ h hs => step_safe h hs)
      (init_safe hinit)
  exact (inBounds_of_safe hsafe).output i hi

/-- The bus that a UART is clocked from. -/
def busClk (p : Periph) : ℕ := if p = .uart1 then PCLK2 else PCLK1

/-- A UART whose clock is on runs at the frequency of its bus. -/
theorem outputFreq_periphclk {c : Cfg} {r : Stm32Rcc} (h : Has c r s) {p : Periph}
    (hp : p = .uart1 ∨ p = .uart2 ∨ p = .uart3 ∨ p = .uart4)
    (hon : s.isEnabled (PERIPHCLK p) = true) :
    s.outputFreq (PERIPHCLK p) = s.outputFreq (busClk p) := by
  have hgates : HasGates c.periph (enr r) s := ⟨c, r, h, rfl, rfl⟩
  rw [hgates.isEnabled] at hon
  have hscale : s.outputFreq (PERIPHCLK p) = scale (s.outputFreq (busClk p)) 1#16 1#16 := by
    rcases hp with rfl | rfl | rfl | rfl
    · exact h.outputFreq_eq (i := PERIPHCLK .uart1) (j := PCLK2) rfl rfl hon rfl
    · exact h.outputFreq_eq (i := PERIPHCLK .uart2) (j := PCLK1) rfl rfl hon rfl
    · exact h.outputFreq_eq (i := PERIPHCLK .uart3) (j := PCLK1) rfl rfl hon rfl
    · exact h.outputFreq_eq (i := PERIPHCLK .uart4) (j := PCLK1) rfl rfl hon rfl
  rw [hscale, scale_one]

end Rate

/-- The divider fits into its register and does not exceed the frequency. -/
theorem divides_usartDivider {f baud : BitVec 32} (hf : f.toNat ≤ 128000000)
    (hbaud : 0 < baud.toNat) (hmax : baud.toNat < 0x0044AA21)
    (hfit : f.toNat < 65535 * baud.toNat) :
    ((usartDivider false f baud).setWidth 16).setWidth 32 = usartDivider false f baud ∧
      (usartDivider false f baud).toNat ≤ f.toNat := by
  have hnum : (usartDivider false f baud).toNat = nearestDivider f.toNat baud.toNat - _ :=
    usartDivider_toNat (by omega) (by omega)
  obtain ⟨hlow, -⟩ := nearestDivider_bounds f.toNat hbaud
  have hle : (usartDivider false f baud).toNat ≤ nearestDivider f.toNat baud.toNat := by
    rw [hnum]
    exact Nat.sub_le _ _
  have h16 : nearestDivider f.toNat baud.toNat < 65536 := by nlinarith
  have hfreq : nearestDivider f.toNat baud.toNat ≤ f.toNat := by nlinarith
  refine ⟨BitVec.eq_of_toNat_eq ?_, hle.trans hfreq⟩
  rw [BitVec.toNat_setWidth, BitVec.toNat_setWidth]
  omega

/-- The flags of a USART are the bits of `CR1`, since it was made. -/
theorem run_decoded {p : Periph} {connected : Bool} {boardMap : BitVec 32}
    {k : List (Env × Uart.Event)} (hu : Run Uart.Step (.alloc p connected boardMap) k u) :
    u.periph = p ∧ Decoded u := by
  refine hu.invariant (P := fun u => u.periph = p ∧ Decoded u)
    (fun u i u' h hs => ?_) ⟨rfl, ?_⟩
  · exact ⟨(Uart.step_effect hs.2).periph.trans h.1, h.2.step hs.2⟩
  · constructor <;> exact BitVec.getLsbD_zero.symm

/-- **The rate of a USART.**  The RCC and a USART, other than UART5, are in any state since
they were made, the clock of the USART is on and its pins are mapped as they are wired; and
the bus frequencies that `RCC_GetClocksFreq` computes are those of the clock tree.  For every
baud rate of the library that the divider can be made for, `USART_Init` returns.  The rate of
the emulator is then the frequency divided by `BRR`, and `BRR` is the divider nearest to the
quotient, between 0.65 below and 0.5 above it; unless the hundredths of the quotient end in
97, 98 or 99, where it is 16 less than that. -/
theorem usartInit_rate (s₀ s : Stm32Rcc) (l : List Rcc.Event) (hinit : Rcc.init = .ok s₀)
    (hrun : Run Rcc.Step s₀ l s) (p : Periph)
    (hp : p = .uart1 ∨ p = .uart2 ∨ p = .uart3 ∨ p = .uart4) (connected : Bool)
    (boardMap : BitVec 32) (k : List (Env × Uart.Event)) (u : Stm32Uart)
    (hu : Run Uart.Step (.alloc p connected boardMap) k u) (env : Env)
    (hfreq : env.periphFreq = s.outputFreq (PERIPHCLK p))
    (hgate : env.clkEnabled = s.isEnabled (PERIPHCLK p)) (hon : env.clkEnabled = true)
    (hmap : env.periphMap p = .ok u.afioBoardMap)
    (hclocks : SameClocks s (getClocksFreq (cfgrRead s)))
    (init : USARTInitTypeDef) (hbaud : 0 < init.baudRate.toNat)
    (hmax : init.baudRate.toNat < 0x0044AA21)
    (hfit : env.periphFreq.toNat < 65535 * init.baudRate.toNat) :
    ∃ u', usartInit env (getClocksFreq (cfgrRead s)) u init = .ok u' ∧
      (let f := env.periphFreq.toNat
       let baud := init.baudRate.toNat
       (if u'.BRR = 0#32 ∨ f = 0 then u'.bitsPerSec = 0#32
        else u'.bitsPerSec.toNat = f / u'.BRR.toNat) ∧
        u'.BRR.toNat =
          nearestDivider f baud - (if 97 ≤ hundredths f baud % 100 then 16 else 0) ∧
        100 * nearestDivider f baud * baud ≤ 100 * f + 50 * baud ∧
        100 * f < (100 * nearestDivider f baud + 65) * baud) := by
  obtain ⟨c, r, h⟩ := run_has hinit hrun
  have hle : env.periphFreq.toNat ≤ 128000000 := by
    rw [hfreq]
    exact run_outputFreq_le hinit hrun (periphclk_lt p)
  -- the bus that the firmware looks at is the one of the USART
  have hbus : (if p = .uart1 then (getClocksFreq (cfgrRead s)).PCLK2_Frequency
      else (getClocksFreq (cfgrRead s)).PCLK1_Frequency) = env.periphFreq := by
    obtain ⟨-, -, hpclk1, hpclk2⟩ := hclocks
    rw [hfreq, outputFreq_periphclk h hp (hgate.symm.trans hon), busClk, hpclk1, hpclk2]
    split_ifs <;> rfl
  have hport : p ≠ .uart5 := by
    rcases hp with rfl | rfl | rfl | rfl <;> decide
  obtain ⟨hperiph, hdec⟩ := run_decoded hu
  have hreach : Reachable env u := ⟨hperiph ▸ hport, hon, by rw [hperiph, hmap], hdec⟩
  obtain ⟨hbrr, hsmall⟩ := divides_usartDivider hle hbaud hmax hfit
  rw [← hperiph] at hbus
  obtain ⟨u', hret, hready⟩ := usartInit_returns hreach init hbus
    (by rw [hbrr]; exact Or.inr (Or.inr hsmall))
  have hBRR : u'.BRR = usartDivider false env.periphFreq init.baudRate := hready.BRR.trans hbrr
  refine ⟨u', hret, ?_, ?_, nearestDivider_bounds _ hbaud⟩
  · have hrate := hready.baud.bitsPerSec
    have hzero : env.periphFreq = 0#32 ↔ env.periphFreq.toNat = 0 := by
      rw [BitVec.toNat_eq]
      rfl
    simp only [hzero] at hrate
    exact hrate
  · rw [hBRR]
    exact usartDivider_toNat (by omega) (by omega)

/-- After a reset, at 9600 baud on the 8 MHz of the HSI. -/
theorem usartInit_rate_9600 : ∃ s₀ s env u', Rcc.init = .ok s₀ ∧
    Run Rcc.Step s₀ [.reset, .write 0x1c 0x20000#32] s ∧
    env.periphFreq = s.outputFreq (PERIPHCLK .uart2) ∧
    usartInit env (getClocksFreq (cfgrRead s)) (.alloc .uart2 true 0#32) .default = .ok u' ∧
    u'.BRR = 0x341#32 := by
  obtain ⟨s₀, hinit, h₀⟩ := init_has
  obtain ⟨s₁, hreset, h₁⟩ := reset_has h₀
  obtain ⟨s, hw, h⟩ : Returns (writew s₁ 0x1c 0x20000#32) _ := writew_has h₁ trivial
  have hrun : Run Rcc.Step s₀ [.reset, .write 0x1c 0x20000#32] s :=
    .cons hreset (.cons hw (.nil s))
  have hon : s.isEnabled (PERIPHCLK .uart2) = true := h.isEnabled (i := PERIPHCLK .uart2) rfl
  have hcfgr : cfgrRead s = 0#32 := by
    have hregs : cfgrRead s.regs = cfgrRead (resetRegs s₀.regs) := by rw [h.regs]; rfl
    exact hregs.trans (by simp [cfgrRead, resetRegs])
  have hsw : s.SW = 0#32 := congrArg Stm32Rcc.SW h.regs
  have hmul : s.PLLMUL = 0#32 := congrArg Stm32Rcc.PLLMUL h.regs
  have hchain : ChainEnabled s := by
    unfold ChainEnabled
    rw [if_pos hsw]
    exact h.isEnabled (i := HSICLK) rfl
  have hfollows : Rcc.Follows (Cfg.reset.write (resetRegs s₀.regs) 0x1c 0x20000#32)
      (writeRegs (resetRegs s₀.regs) 0x1c 0x20000#32) :=
    Rcc.Follows.write ⟨rfl, fieldsOk_resetRegs _⟩ trivial
  have hclocks : SameClocks s (getClocksFreq (cfgrRead s)) :=
    (sameClocks_iff (h.coherent hfollows) (by rw [hmul]; decide) hchain).2 (by rw [hcfgr]; decide)
  have hfreq : s.outputFreq (PERIPHCLK .uart2) = 8000000#32 := by
    rw [outputFreq_periphclk h (by simp) hon]
    have hpclk1 := hclocks.2.2.1
    rw [hcfgr] at hpclk1
    exact hpclk1.symm
  set env : Env := ⟨0, s.outputFreq (PERIPHCLK .uart2), true, fun _ => .ok 0#32, fun _ _ => 1#8,
    fun _ _ => 2#8⟩ with henv
  have hnum : env.periphFreq.toNat = 8000000 := by
    rw [henv, hfreq]
    rfl
  obtain ⟨u', hret, -, hbrr, -⟩ :=
    usartInit_rate s₀ s _ hinit hrun .uart2 (by simp) true 0#32 []
    (.alloc .uart2 true 0#32) (.nil _) env rfl hon.symm rfl rfl hclocks .default
    (by decide) (by decide) (by rw [hnum]; decide)
  refine ⟨s₀, s, env, u', hinit, hrun, rfl, hret, BitVec.eq_of_toNat_eq ?_⟩
  rw [hbrr, hnum]
  decide

end Hal
end Especial
