/-
# Warnings when the system clock stops

`stm32_rcc_RCC_CR_write` switches the PLL, the HSE and the HSI one after another, and
warns before each if software turns off what drives the system clock.  The third warning,
the one for the HSI, tests the HSE once more, which has just been switched; it is never
issued (`crWrite_warnings`).

So the system clock stops without a warning exactly if it came from the HSI, directly
or through a PLL that stays on (`cr_warning_iff`).
-/

import Especial.Rcc.ClocksFreq

namespace Especial
namespace Rcc

open Qemu Stm32 Clktree Lib

variable {c : Cfg} {r s s' : Stm32Rcc} {v : BitVec 32} {i : ℕ}

/-! ### When the system clock runs -/

/-- A clock without input does not run. -/
theorem scale_zero (m d : BitVec 16) : scale 0#32 m d = 0#32 := by
  unfold scale
  simp

/-- A clock that is disabled does not run. -/
theorem Has.outputFreq_off (h : Has c r s) {n : Node} (hn : c.graph[i]? = some n)
    (hoff : n.enabled = false) : s.outputFreq i = 0#32 := by
  have hstep := h.tree.outputFreq_step hn
  rw [hoff] at hstep
  exact hstep

/-- The PLL multiplies by a factor that does not make its input vanish. -/
theorem scale_pllMultiplier_ne_zero {x f : BitVec 32} (hx : x.toNat ≤ 15)
    (hf : f = 4000000#32 ∨ f = 8000000#32) :
    scale f ((pllMultiplier x).setWidth 16) 1#16 ≠ 0#32 := by
  rcases hf with rfl | rfl
  · exact of_forall_le
      (P := fun x => scale 4000000#32 ((pllMultiplier x).setWidth 16) 1#16 ≠ 0#32) (by decide) hx
  · exact of_forall_le
      (P := fun x => scale 8000000#32 ((pllMultiplier x).setWidth 16) 1#16 ≠ 0#32) (by decide) hx

section Chain

variable (h : Has (c.ofFields s) s.regs s)
include h

/-- The HSI, when it is off. -/
theorem hsiclk_off (hoff : ¬s.isEnabled HSICLK = true) : s.outputFreq HSICLK = 0#32 :=
  h.outputFreq_off (i := HSICLK) rfl
    ((h.isEnabled (i := HSICLK) rfl).symm.trans (Bool.eq_false_iff.2 hoff))

/-- The HSE, when it is off. -/
theorem hseclk_off (hoff : ¬s.isEnabled HSECLK = true) : s.outputFreq HSECLK = 0#32 :=
  h.outputFreq_off (i := HSECLK) rfl
    ((h.isEnabled (i := HSECLK) rfl).symm.trans (Bool.eq_false_iff.2 hoff))

/-- **The PLL runs** exactly if it and the oscillator behind it are on. -/
theorem pllclk_ne_zero_iff (hok : FieldsOk s) : s.outputFreq PLLCLK ≠ 0#32 ↔
    s.isEnabled PLLCLK = true ∧
      if s.PLLSRC = 0#32 then s.isEnabled HSICLK = true else s.isEnabled HSECLK = true := by
  constructor
  · intro hne
    by_cases hpll : s.isEnabled PLLCLK = true
    · refine ⟨hpll, ?_⟩
      rw [pllclk_eq h hok.pllsrc hpll, hsi_div2_eq h, pllxtpreclk_eq h hok.pllxtpre] at hne
      by_contra hoff
      split_ifs at hoff hne with hq hx
      · exact hne (by rw [hsiclk_off h hoff, scale_zero, scale_zero])
      · exact hne (by rw [hseclk_off h hoff, scale_zero])
      · exact hne (by rw [hseclk_off h hoff, scale_zero, scale_zero])
    · exact absurd (h.outputFreq_off (i := PLLCLK) rfl
        ((h.isEnabled (i := PLLCLK) rfl).symm.trans (Bool.eq_false_iff.2 hpll))) hne
  · rintro ⟨hpll, hsrc⟩
    rw [pllclk_freq h hok hpll hsrc]
    exact scale_pllMultiplier_ne_zero hok.pllmul (pllInput_eq s)

/-- **The system clock runs** exactly if all that drives it is on. -/
theorem sysclk_ne_zero_iff (hok : FieldsOk s) : s.outputFreq SYSCLK ≠ 0#32 ↔
    ChainEnabled s := by
  unfold ChainEnabled
  rcases eq_of_toNat_le_two hok.sw with hw | hw | hw
  · rw [sysclk_freq h (j := HSICLK) (by rw [hw]; rfl), if_pos hw]
    refine ⟨fun hne => ?_, fun hon => ?_⟩
    · by_contra hoff
      exact hne (hsiclk_off h hoff)
    · rw [hsiclk_freq h hon]
      decide
  · rw [sysclk_freq h (j := HSECLK) (by rw [hw]; rfl), if_neg (by rw [hw]; decide), if_pos hw]
    refine ⟨fun hne => ?_, fun hon => ?_⟩
    · by_contra hoff
      exact hne (hseclk_off h hoff)
    · rw [hseclk_freq h hon]
      decide
  · rw [sysclk_freq h (j := PLLCLK) (by rw [hw]; rfl), if_neg (by rw [hw]; decide),
      if_neg (by rw [hw]; decide)]
    exact pllclk_ne_zero_iff h hok

end Chain

/-- **The system clock runs** exactly if the chain that drives it is enabled. -/
theorem Coherent.sysclk_ne_zero_iff (hs : Coherent s) :
    s.outputFreq SYSCLK ≠ 0#32 ↔ ChainEnabled s := by
  obtain ⟨c, h, hok⟩ := hs
  exact Rcc.sysclk_ne_zero_iff h hok

/-! ### The warnings of a write -/

/-- The warning about the PLL. -/
def WarnsPll (s : Stm32Rcc) (v : BitVec 32) : Bool :=
  s.isEnabled PLLCLK && !v.getLsbD 24 && s.SW == 2#32

/-- The warning about the HSE. -/
def WarnsHse (s : Stm32Rcc) (v : BitVec 32) : Bool :=
  s.isEnabled HSECLK && !v.getLsbD 16 && (s.SW == 1#32 || (s.SW == 2#32 && s.PLLSRC == 1#32))

/-- A warning, and the switch that it is about. -/
theorem setEnabled_warnings {cond on : Bool} {text : String}
    (h : (s.warnIf cond text).setEnabled i on = .ok s') :
    s'.warnings = s.warnings ++ if cond then [text] else [] := by
  obtain ⟨t, -, h⟩ := bind_eq_ok.1 h
  rw [← pure_eq_ok.1 h]
  unfold Stm32Rcc.warnIf
  split_ifs
  · rfl
  · exact (List.append_nil _).symm

/-- The settings after a clock was switched, with a warning before. -/
theorem Has.of_setEnabled {k : Cfg} {cond on : Bool} {text : String} (h : Has c r s)
    (hs : (s.warnIf cond text).setEnabled i on = .ok s') (hi : i < 25)
    (hg : c.graph.exec (.setEnabled i on) = k.graph) : Has k r s' := by
  have hret : Returns ((s.warnIf cond text).setEnabled i on) (Has k r) :=
    (h.warnIf cond text).setEnabled hi hg
  exact hret.of_eq_ok hs

/-- **Only the first two warnings of a write to `CR` are ever issued.** -/
theorem crWrite_warnings (h : Has c r s) (hw : crWrite s v = .ok s') :
    s'.warnings = s.warnings ++
      (if WarnsPll s v then ["PLL cannot be disabled while it is selected as the system clock."]
        else []) ++
      (if WarnsHse s v then
        ["HSE oscillator cannot be disabled while it is driving the system clock."]
        else []) := by
  unfold crWrite at hw
  obtain ⟨s₁, h₁, hw⟩ := bind_eq_ok.1 hw
  obtain ⟨s₂, h₂, h₃⟩ := bind_eq_ok.1 hw
  have hhas₁ : Has { c with pll := v.getLsbD 24 } r s₁ := h.of_setEnabled h₁ (by decide) rfl
  have hhas₂ : Has { c with pll := v.getLsbD 24, hse := v.getLsbD 16 } r s₂ :=
    hhas₁.of_setEnabled h₂ (by decide) rfl
  have hregs : s₁.regs = s.regs := hhas₁.regs.trans h.regs.symm
  have hSW : s₁.SW = s.SW := show s₁.regs.SW = s.regs.SW by rw [hregs]
  have hPLLSRC : s₁.PLLSRC = s.PLLSRC := show s₁.regs.PLLSRC = s.regs.PLLSRC by rw [hregs]
  have hhse₁ : s₁.isEnabled HSECLK = s.isEnabled HSECLK :=
    (hhas₁.isEnabled (i := HSECLK) rfl).trans (h.isEnabled (i := HSECLK) rfl).symm
  -- the HSE has been switched when the third condition asks for it
  have hhse₂ : s₂.isEnabled HSECLK = v.getLsbD 16 := hhas₂.isEnabled (i := HSECLK) rfl
  have hw₁ := setEnabled_warnings h₁
  have hw₂ := setEnabled_warnings h₂
  have hw₃ := setEnabled_warnings h₃
  rw [hhse₂, Bool.and_not_self, Bool.false_and, if_neg Bool.false_ne_true,
    List.append_nil] at hw₃
  rw [hhse₁, hSW, hPLLSRC] at hw₂
  rw [hw₃, hw₂, hw₁]
  rfl

/-! ### The system clock stops -/

/-- It comes from the HSE or from the PLL, and not from a PLL that stays on and is fed by
the HSI. -/
def StopWarned (s : Stm32Rcc) (v : BitVec 32) : Prop :=
  s.SW = 1#32 ∨ (s.SW = 2#32 ∧ (s.PLLSRC = 1#32 ∨ v.getLsbD 24 = false))

/-- **A write to `CR` that stops the system clock** issues a warning exactly if the clock
does not come from the HSI, directly or through a PLL that stays on. -/
theorem cr_warning_iff (s₀ s₁ s : Stm32Rcc) (l : List Event) (hinit : init = .ok s₀)
    (hreset : reset s₀ = .ok s₁) (hrun : Run Step s₁ l s) (v : BitVec 32) :
    ∃ s' ws, writew s 0x00 v = .ok s' ∧ s'.warnings = s.warnings ++ ws ∧
      (s.outputFreq SYSCLK ≠ 0#32 → s'.outputFreq SYSCLK = 0#32 →
        (ws ≠ [] ↔ StopWarned s v)) := by
  obtain ⟨s₀', hinit', h₀⟩ := init_has
  obtain rfl : s₀' = s₀ := Except.ok.inj (hinit'.symm.trans hinit)
  obtain ⟨c, h, hok⟩ := run_coherent h₀ hreset hrun
  obtain ⟨s', hw, hhas⟩ := crWrite_has (v := v) h
  have hstep : Step s (.write 0x00 v) s' := hw
  have hs : Coherent s := run_coherent h₀ hreset hrun
  have hs' : Coherent s' := run_coherent h₀ hreset (Run.snoc_iff.2 ⟨s, hrun, hstep⟩)
  refine ⟨s', _, hw, (crWrite_warnings h hw).trans (List.append_assoc _ _ _),
    fun hne hzero => ?_⟩
  have hchain : ChainEnabled s := hs.sysclk_ne_zero_iff.1 hne
  have hstop : ¬ChainEnabled s' := fun hchain => hs'.sysclk_ne_zero_iff.2 hchain hzero
  have hSW : s'.SW = s.SW := show s'.regs.SW = s.regs.SW by rw [hhas.regs]
  have hPLLSRC : s'.PLLSRC = s.PLLSRC := show s'.regs.PLLSRC = s.regs.PLLSRC by rw [hhas.regs]
  have hpll : s'.isEnabled PLLCLK = v.getLsbD 24 := hhas.isEnabled (i := PLLCLK) rfl
  have hhse : s'.isEnabled HSECLK = v.getLsbD 16 := hhas.isEnabled (i := HSECLK) rfl
  have hhsi : s'.isEnabled HSICLK = v.getLsbD 0 := hhas.isEnabled (i := HSICLK) rfl
  unfold ChainEnabled at hchain hstop
  rw [hSW, hPLLSRC, hpll, hhse, hhsi] at hstop
  unfold StopWarned WarnsPll WarnsHse
  generalize v.getLsbD 24 = pllon, v.getLsbD 16 = hseon, v.getLsbD 0 = hsion at hstop ⊢
  rcases eq_of_toNat_le_two hok.sw with hsw | hsw | hsw
  · simp [hsw]
  · rw [if_neg (by rw [hsw]; decide), if_pos hsw] at hchain hstop
    simp [hsw, hchain, hstop]
  · rw [if_neg (by rw [hsw]; decide), if_neg (by rw [hsw]; decide)] at hchain hstop
    obtain ⟨hpllOn, hsrcOn⟩ := hchain
    rcases eq_of_toNat_le_one hok.pllsrc with hsrc | hsrc
    · simp [hsw, hsrc, hpllOn]
    · rw [if_neg (by rw [hsrc]; decide)] at hsrcOn hstop
      -- the write turns off the PLL or the HSE
      rcases not_and_or.1 hstop with hoff | hoff <;> simp [hsw, hsrc, hpllOn, hsrcOn, hoff]

/-- The HSE drives the system and is turned off. -/
theorem cr_warning_hse : ∃ s₀ s₁ s s', init = .ok s₀ ∧ reset s₀ = .ok s₁ ∧
    Run Step s₁ [.write 0x00 0x10001#32, .write 0x04 0x1#32] s ∧
    writew s 0x00 0x1#32 = .ok s' ∧
    s.outputFreq SYSCLK ≠ 0#32 ∧ s'.outputFreq SYSCLK = 0#32 ∧
    s'.warnings ≠ s.warnings := by
  obtain ⟨s₀, hinit, h₀⟩ := init_has
  obtain ⟨s₁, hreset, h₁⟩ := reset_has h₀
  have hcr : Returns (writew s₁ 0x00 0x10001#32) _ := writew_has h₁ trivial
  obtain ⟨s₂, hcr, h₂⟩ := hcr
  have hcfgr : Returns (writew s₂ 0x04 0x1#32) _ := writew_has h₂ (by decide)
  obtain ⟨s, hcfgr, h⟩ := hcfgr
  have hrun : Run Step s₁ [.write 0x00 0x10001#32, .write 0x04 0x1#32] s :=
    .cons hcr (.cons hcfgr (.nil s))
  obtain ⟨s', ws, hw, hws, hiff⟩ := cr_warning_iff s₀ s₁ s _ hinit hreset hrun 0x1#32
  have h' := (crWrite_has (v := 0x1#32) h).of_eq_ok hw
  have hSW : s.SW = 1#32 := show s.regs.SW = 1#32 by rw [h.regs]; rfl
  have hSW' : s'.SW = 1#32 := show s'.regs.SW = 1#32 by rw [h'.regs]; rfl
  have hne : s.outputFreq SYSCLK ≠ 0#32 := by
    rw [(run_coherent h₀ hreset hrun).sysclk_ne_zero_iff, ChainEnabled, hSW]
    exact h.isEnabled (i := HSECLK) rfl
  have hzero : s'.outputFreq SYSCLK = 0#32 := by
    have hstep : Step s (.write 0x00 0x1#32) s' := hw
    have hoff : s'.isEnabled HSECLK = false := h'.isEnabled (i := HSECLK) rfl
    by_contra hne'
    rw [← Ne, (run_coherent h₀ hreset (Run.snoc_iff.2 ⟨s, hrun, hstep⟩)).sysclk_ne_zero_iff,
      ChainEnabled, hSW', hoff] at hne'
    exact Bool.false_ne_true hne'
  refine ⟨s₀, s₁, s, s', hinit, hreset, hrun, hw, hne, hzero, fun hsame => ?_⟩
  exact (hiff hne hzero).2 (Or.inl hSW) (List.append_right_eq_self.1 (hws.symm.trans hsame))

/-- The HSI drives the system after a reset and is turned off: no warning. -/
theorem cr_hsi_unwarned : ∃ s₀ s₁ s', init = .ok s₀ ∧ reset s₀ = .ok s₁ ∧
    writew s₁ 0x00 0x0#32 = .ok s' ∧ s₁.outputFreq SYSCLK ≠ 0#32 ∧
    s'.outputFreq SYSCLK = 0#32 ∧ s'.warnings = s₁.warnings := by
  obtain ⟨s₀, hinit, h₀⟩ := init_has
  obtain ⟨s₁, hreset, h₁⟩ := reset_has h₀
  obtain ⟨s', hw, h'⟩ := crWrite_has (v := 0x0#32) h₁
  have hSW : s₁.SW = 0#32 := show s₁.regs.SW = 0#32 by rw [h₁.regs]; rfl
  have hSW' : s'.SW = 0#32 := show s'.regs.SW = 0#32 by rw [h'.regs]; rfl
  have hne : s₁.outputFreq SYSCLK ≠ 0#32 := by
    rw [(run_coherent h₀ hreset (.nil s₁)).sysclk_ne_zero_iff, ChainEnabled, hSW]
    exact h₁.isEnabled (i := HSICLK) rfl
  have hzero : s'.outputFreq SYSCLK = 0#32 := by
    have hstep : Step s₁ (.write 0x00 0x0#32) s' := hw
    have hoff : s'.isEnabled HSICLK = false := h'.isEnabled (i := HSICLK) rfl
    by_contra hne'
    rw [← Ne, (run_coherent h₀ hreset (.cons hstep (.nil s'))).sysclk_ne_zero_iff,
      ChainEnabled, hSW', hoff] at hne'
    exact Bool.false_ne_true hne'
  refine ⟨s₀, s₁, s', hinit, hreset, hw, hne, hzero, ?_⟩
  have hpll : WarnsPll s₁ 0x0#32 = false := by simp [WarnsPll, hSW]
  have hhse : WarnsHse s₁ 0x0#32 = false := by simp [WarnsHse, hSW]
  rw [crWrite_warnings h₁ hw, hpll, hhse]
  simp

end Rcc
end Especial
