/-
# The clock tree of the RCC as a function of its settings

The twenty-five clocks never change their links; what the registers change is a
`Cfg`: which oscillators and gates are on, the multiplier of the PLL, the divisors
of the three prescalers and the three selections.  `Cfg.graph` is the clock graph
of a setting.

`Has c r s` says that the device `s` has the setting `c` and the register copies
`r`.  Every call on the tree moves it from one setting to the next, and never
fails (`Has.setEnabled`, `Has.setScale`, `Has.setSelectedInput`); the writes of the
registers are sequences of such calls.
-/

import Especial.Rcc.Basic

namespace Especial
namespace Rcc

open Qemu Stm32 Clktree Lib

/-- The settings of the clock tree. -/
structure Cfg where
  hsi : Bool
  lsi : Bool
  hse : Bool
  lse : Bool
  pll : Bool
  pllmul : BitVec 16
  pllxtpre : ℤ
  pllsrc : ℤ
  sw : ℤ
  /-- multiplier and divisor of `HCLK` -/
  hclk : BitVec 16 × BitVec 16
  /-- multiplier and divisor of `PCLK1` -/
  pclk1 : BitVec 16 × BitVec 16
  /-- multiplier and divisor of `PCLK2` -/
  pclk2 : BitVec 16 × BitVec 16
  periph : Periph → Bool

/-- An oscillator. -/
def oscNode (f : BitVec 32) (on : Bool) : Node := ⟨some f, on, 1#16, 1#16, [], NO_INPUT⟩

/-- A clock with one input. -/
def clkNode (on : Bool) (m d : BitVec 16) (input : ℕ) : Node := ⟨none, on, m, d, [input], 0⟩

/-- The clock graph of the settings. -/
def Cfg.graph (c : Cfg) : Graph :=
  [ oscNode HSI_FREQ c.hsi, oscNode LSI_FREQ c.lsi, oscNode oscFreq c.hse, oscNode osc32Freq c.lse,
    clkNode true 1#16 2#16 HSICLK, clkNode true 1#16 2#16 HSECLK,
    ⟨none, true, 1#16, 1#16, [HSECLK, HSE_DIV2], c.pllxtpre⟩,
    ⟨none, c.pll, c.pllmul, 1#16, [HSI_DIV2, PLLXTPRECLK], c.pllsrc⟩,
    ⟨none, true, 1#16, 1#16, [HSICLK, HSECLK, PLLCLK], c.sw⟩,
    clkNode true c.hclk.1 c.hclk.2 SYSCLK,
    clkNode true c.pclk1.1 c.pclk1.2 HCLK, clkNode true c.pclk2.1 c.pclk2.2 HCLK,
    clkNode (c.periph .gpioa) 1#16 1#16 PCLK2, clkNode (c.periph .gpiob) 1#16 1#16 PCLK2,
    clkNode (c.periph .gpioc) 1#16 1#16 PCLK2, clkNode (c.periph .gpiod) 1#16 1#16 PCLK2,
    clkNode (c.periph .gpioe) 1#16 1#16 PCLK2, clkNode (c.periph .gpiof) 1#16 1#16 PCLK2,
    clkNode (c.periph .gpiog) 1#16 1#16 PCLK2, clkNode (c.periph .afio) 1#16 1#16 PCLK2,
    clkNode (c.periph .uart1) 1#16 1#16 PCLK2, clkNode (c.periph .uart2) 1#16 1#16 PCLK1,
    clkNode (c.periph .uart3) 1#16 1#16 PCLK1, clkNode (c.periph .uart4) 1#16 1#16 PCLK1,
    clkNode (c.periph .uart5) 1#16 1#16 PCLK1 ]

/-- The settings right after `stm32_rcc_init_clk`. -/
def Cfg.init : Cfg where
  hsi := false
  lsi := false
  hse := false
  lse := false
  pll := false
  pllmul := 0#16
  pllxtpre := NO_INPUT
  pllsrc := NO_INPUT
  sw := NO_INPUT
  hclk := (0#16, 1#16)
  pclk1 := (0#16, 1#16)
  pclk2 := (0#16, 1#16)
  periph _ := false

/-- The peripheral clocks are among the 25 clocks. -/
theorem periphclk_lt (p : Periph) : PERIPHCLK p < 25 := by
  cases p <;> decide

/-- The register copies of the device. -/
def Stm32Rcc.regs (s : Stm32Rcc) : Stm32Rcc := { s with tree := {}, warnings := [] }

/-- The device has these settings and register copies. -/
structure Has (c : Cfg) (r : Stm32Rcc) (s : Stm32Rcc) : Prop where
  tree : Refines c.graph s.tree
  regs : s.regs = r

variable {c k : Cfg} {r s s' : Stm32Rcc} {i : ℕ}

/-- There are 25 clocks. -/
theorem Has.size (h : Has c r s) : s.tree.size = 25 := h.tree.shape.size

/-- A call on the tree that leads to another graph. -/
theorem Has.of_tree (h : Has c r s) {x : Except Fault Tree} {g : Graph}
    (hx : ∃ t, x = .ok t ∧ Refines g t) (hg : g = k.graph) :
    ∃ s', (x >>= fun t => pure { s with tree := t }) = .ok s' ∧ Has k r s' := by
  obtain ⟨t, hx, ht⟩ := hx
  refine ⟨{ s with tree := t }, by rw [hx]; rfl, by rw [← hg]; exact ht, ?_⟩
  rw [← h.regs]
  rfl

/-- `clktree_set_enabled`. -/
theorem Has.setEnabled (h : Has c r s) {on : Bool} (hi : i < 25)
    (hg : c.graph.exec (.setEnabled i on) = k.graph) :
    ∃ s', s.setEnabled i on = .ok s' ∧ Has k r s' :=
  h.of_tree (h.tree.setEnabled (by rw [h.size]; exact hi)) hg

/-- `clktree_set_scale`. -/
theorem Has.setScale (h : Has c r s) {m d : BitVec 32} (hi : i < 25) (hd : d.setWidth 16 ≠ 0#16)
    (hg : c.graph.exec (.setScale i (m.setWidth 16) (d.setWidth 16)) = k.graph) :
    ∃ s', s.setScale i m d = .ok s' ∧ Has k r s' :=
  h.of_tree (h.tree.setScale (by rw [h.size]; exact hi) hd) hg

/-- `clktree_set_selected_input`, on a clock with more inputs than the index. -/
theorem Has.setSelectedInput (h : Has c r s) {sel : BitVec 32} {n : Node}
    (hn : c.graph[i]? = some n) (hsrc : n.src = none) (hlt : sel.toNat < n.inputs.length)
    (hg : c.graph.exec (.setSelectedInput i sel.toNat) = k.graph) :
    ∃ s', s.setSelectedInput i sel = .ok s' ∧ Has k r s' := by
  have hinput := (h.tree.shape.node i n hn).1.input
  have hgsrc : c.graph.src i = none := by
    rw [Graph.src, hn]
    exact hsrc
  refine h.of_tree (h.tree.setSelectedInput (h.tree.shape.lt_size hn) hgsrc (by omega) ?_) hg
  rw [hinput]
  simpa using hlt

/-- A warning keeps the settings. -/
theorem Has.warnIf (h : Has c r s) (cond : Bool) (text : String) :
    Has c r (s.warnIf cond text) := by
  unfold Stm32Rcc.warnIf
  split_ifs
  · exact ⟨h.tree, h.regs⟩
  · exact h

/-- A clock is enabled as its settings say. -/
theorem Has.isEnabled (h : Has c r s) {n : Node} (hn : c.graph[i]? = some n) :
    s.isEnabled i = n.enabled := (h.tree.shape.node i n hn).1.enabled

/-- The frequency of an enabled clock with a selected input. -/
theorem Has.outputFreq_eq (h : Has c r s) {n : Node} {j : ℕ} (hn : c.graph[i]? = some n)
    (hsrc : n.src = none) (hon : n.enabled = true) (hj : n.pred = some j) :
    s.outputFreq i = scale (s.outputFreq j) n.multiplier n.divisor := by
  have hstep := h.tree.outputFreq_step hn
  rw [hsrc, hon, hj] at hstep
  exact hstep

/-- The calls of `stm32_rcc_init_clk` are valid, one after another. -/
theorem initOps_valid : (runCalls initOps ([], {})).isSome = true := by decide +kernel

/-- **The clocks of the P103 board.**  `stm32_rcc_init_clk` returns, and nothing is
selected or enabled yet. -/
theorem init_has : ∃ s, init = .ok s ∧ Has Cfg.init s.regs s := by
  obtain ⟨⟨g, t⟩, hcalls⟩ := Option.isSome_iff_exists.1 initOps_valid
  obtain ⟨hrun, hg, hfold⟩ := runCalls_spec hcalls
  have hclk : initClk = .ok t := hfold
  have hgraph : g = Cfg.init.graph := hg
  refine ⟨_, by rw [init, hclk]; rfl, ?_, rfl⟩
  rw [← hgraph]
  exact run_refines hrun

end Rcc
end Especial
