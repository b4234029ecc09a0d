/-
# What a reset forgets

A reset should leave nothing of what happened before: two devices of one kind, after any
two histories, should not be told apart once both are reset.  What can be told are the
values that the registers read, the clocks with their frequencies, the levels of the
lines to the NVIC and the readiness of a receiver.

* The UART keeps its data registers, timers and the rate of a character over a reset, and
  none of them shows: the receiver is off, and the record of the line is right.
* The RCC restores every setting of its clocks and every register but `APB1RSTR` and
  `APB2RSTR`.
* The EXTI clears its registers without a call for its outputs, so a line that was up
  stays up.

`resets_alike_iff` is the exact condition.
-/

import Especial.Exti.Basic
import Especial.Rcc.History
import Especial.Uart.Divider
import Especial.Uart.Interrupt

namespace Especial
namespace Soc

open Qemu Stm32 Clktree Rcc Exti Uart Lib

/-! ### What can be told -/

/-- Two RCCs that read the same and give the same clocks. -/
structure RccAlike (s t : Stm32Rcc) : Prop where
  read : ∀ offset, readw s offset = readw t offset
  enabled : ∀ i < 25, s.isEnabled i = t.isEnabled i
  freq : ∀ i < 25, s.outputFreq i = t.outputFreq i

/-- Two EXTIs that read the same, with all outputs low. -/
structure ExtiAlike (s t : Stm32Exti) : Prop where
  read : ∀ offset, Exti.read s offset = Exti.read t offset
  low : ∀ k < EXTI_IRQ_COUNT, s.level k = false ∧ t.level k = false

/-- Two UARTs that read the same, drive their line alike and take characters alike. -/
structure UartAlike (s t : Stm32Uart) : Prop where
  read :
    ∀ offset size, (Uart.read s offset size).map Prod.fst = (Uart.read t offset size).map Prod.fst
  irq : s.irq = t.irq
  canReceive : canReceive s = canReceive t

/-! ### The RCC -/

section Rcc

variable {c : Cfg} {r s s' t t' : Stm32Rcc}

/-- The same settings enable the same clocks. -/
theorem isEnabled_eq_of_has (h : Has c r s) {r' : Stm32Rcc} (h' : Has c r' t) {i : ℕ}
    (hi : i < 25) : s.isEnabled i = t.isEnabled i := by
  obtain ⟨n, hn⟩ := h.tree.shape.exists_node (i := i) (by rw [h.size]; exact hi)
  exact (h.isEnabled hn).trans (h'.isEnabled hn).symm

/-- Devices with the same settings and register copies are alike. -/
theorem rccAlike_of_has (h : Has c r s) (h' : Has c r t) : RccAlike s t := by
  have hen : ∀ i < 25, s.isEnabled i = t.isEnabled i := fun i hi => isEnabled_eq_of_has h h' hi
  obtain ⟨hcr, hcfgr, -⟩ := h.visible_eq h' rfl
  have hreg : ∀ {α : Type} (f : Stm32Rcc → α), f s.regs = f t.regs := fun f => by
    rw [h.regs, h'.regs]
  refine ⟨fun offset => ?_, hen, fun i hi => ?_⟩
  · unfold readw
    split
    · exact hcr
    · exact hcfgr
    · rfl
    · exact congrArg Except.ok (hreg Stm32Rcc.APB2RSTR)
    · exact congrArg Except.ok (hreg Stm32Rcc.APB1RSTR)
    · rfl
    · exact congrArg Except.ok (hreg Stm32Rcc.APB2ENR)
    · exact congrArg Except.ok (hreg Stm32Rcc.APB1ENR)
    · rw [bdcrRead, bdcrRead, hen LSECLK (by decide)]
    · rw [csrRead, csrRead, hen LSICLK (by decide)]
    all_goals rfl
  · rw [h.outputFreq_graph hi, h'.outputFreq_graph hi]

/-- **Two resets of the RCC** are alike exactly when the reset registers agreed. -/
theorem rcc_reset_alike_iff {c' : Cfg} {r' : Stm32Rcc} (h : Has c r s) (h' : Has c' r' t) :
    ∃ s' t', Rcc.reset s = .ok s' ∧ Rcc.reset t = .ok t' ∧
      (RccAlike s' t' ↔ s.APB1RSTR = t.APB1RSTR ∧ s.APB2RSTR = t.APB2RSTR) := by
  obtain ⟨s', hs', hhas⟩ := reset_has h
  obtain ⟨t', ht', hhas'⟩ := reset_has h'
  obtain ⟨-, rfl⟩ := h
  obtain ⟨-, rfl⟩ := h'
  refine ⟨s', t', hs', ht', fun ha => ⟨?_, ?_⟩, fun ⟨h₁, h₂⟩ => ?_⟩
  · have hread : s'.regs.APB1RSTR = t'.regs.APB1RSTR := Except.ok.inj (ha.read 0x10)
    rw [hhas.regs, hhas'.regs] at hread
    exact hread
  · have hread : s'.regs.APB2RSTR = t'.regs.APB2RSTR := Except.ok.inj (ha.read 0x0c)
    rw [hhas.regs, hhas'.regs] at hread
    exact hread
  · have hregs : resetRegs s.regs = resetRegs t.regs := by
      simp only [resetRegs, Stm32Rcc.regs, h₁, h₂]
    rw [← hregs] at hhas'
    exact rccAlike_of_has hhas hhas'

end Rcc

/-! ### The EXTI -/

/-- **Two resets of the EXTI** are alike exactly when all outputs were low. -/
theorem exti_reset_alike_iff (s t : Stm32Exti) : ExtiAlike (Exti.reset s) (Exti.reset t) ↔
    ∀ k < EXTI_IRQ_COUNT, s.level k = false ∧ t.level k = false := by
  constructor
  · intro h
    exact h.low
  · intro h
    refine ⟨fun offset => ?_, h⟩
    unfold Exti.read
    split <;> rfl

/-! ### The UART -/

/-- After a reset the registers of a UART read the same as those of any other. -/
theorem uart_read_resetState {s t : Stm32Uart} (hp : s.periph = t.periph) (offset size : ℕ) :
    (Uart.read (resetState s) offset size).map Prod.fst =
      (Uart.read (resetState t) offset size).map Prod.fst := by
  have hs : (resetState s).periph = s.periph := rfl
  have ht : (resetState t).periph = t.periph := rfl
  unfold Uart.read
  dsimp only
  rw [hs, ht, hp]
  split
  · rfl
  · split_ifs
    · rfl
    · rfl
  all_goals rfl

/-- **Two resets of a UART** are always alike. -/
theorem uart_resetState_alike {s t : Stm32Uart} (hp : s.periph = t.periph) (hs : LineOk s)
    (ht : LineOk t) : UartAlike (resetState s) (resetState t) := by
  refine ⟨uart_read_resetState hp, ?_, rfl⟩
  show (s.irq && !s.currIrqLevel) = (t.irq && !t.currIrqLevel)
  rw [hs.irq, hs.curr, ht.irq, ht.curr]
  simp

/-- What holds of a UART after any history. -/
theorem run_lineOk {periph : Periph} {connected : Bool} {afioBoardMap : BitVec 32} {s : Stm32Uart}
    {l : List (Env × Uart.Event)} (h : Run Uart.Step (.alloc periph connected afioBoardMap) l s) :
    s.periph = periph ∧ LineOk s :=
  h.invariant (P := fun s => s.periph = periph ∧ LineOk s)
    (fun _ _ _ hs hstep => ⟨(step_effect hstep.2).periph.trans hs.1,
      (step_effect hstep.2).lineOk hs.2⟩)
    ⟨rfl, rfl, rfl, fun _ => rfl⟩

/-! ### All three -/

/-- **Two histories, and a reset after each.**  Two states of the RCC and two of a UART,
reached in any two ways, and any two of the EXTI: the resets return, and what they leave
cannot be told apart, with the EXTI at rest, if and only if the reset registers of the RCC
agreed before and all outputs of the EXTI were low. -/
theorem resets_alike_iff (r₀ r₁ r₂ : Stm32Rcc) (lr₁ lr₂ : List Rcc.Event)
    (hinit : Rcc.init = .ok r₀) (hr₁ : Run Rcc.Step r₀ lr₁ r₁)
    (hr₂ : Run Rcc.Step r₀ lr₂ r₂)
    (x₁ x₂ : Stm32Exti) (periph : Periph) (connected : Bool) (afioBoardMap : BitVec 32)
    (u₁ u₂ : Stm32Uart) (lu₁ lu₂ : List (Env × Uart.Event))
    (hu₁ : Run Uart.Step (.alloc periph connected afioBoardMap) lu₁ u₁)
    (hu₂ : Run Uart.Step (.alloc periph connected afioBoardMap) lu₂ u₂)
    (env₁ env₂ : Env) :
    ∃ r₁' r₂' u₁' u₂', Rcc.reset r₁ = .ok r₁' ∧ Rcc.reset r₂ = .ok r₂' ∧
      Uart.reset env₁ u₁ = .ok u₁' ∧ Uart.reset env₂ u₂ = .ok u₂' ∧
      ((RccAlike r₁' r₂' ∧ ExtiAlike (Exti.reset x₁) (Exti.reset x₂) ∧
        UartAlike u₁' u₂') ↔
        (r₁.APB1RSTR = r₂.APB1RSTR ∧ r₁.APB2RSTR = r₂.APB2RSTR) ∧
          ∀ k < EXTI_IRQ_COUNT, x₁.level k = false ∧ x₂.level k = false) := by
  obtain ⟨_, _, h₁⟩ := run_has hinit hr₁
  obtain ⟨_, _, h₂⟩ := run_has hinit hr₂
  obtain ⟨r₁', r₂', hreset₁, hreset₂, hrcc⟩ := rcc_reset_alike_iff h₁ h₂
  obtain ⟨hp₁, hline₁⟩ := run_lineOk hu₁
  obtain ⟨hp₂, hline₂⟩ := run_lineOk hu₂
  have huart : UartAlike (resetState u₁) (resetState u₂) :=
    uart_resetState_alike (hp₁.trans hp₂.symm) hline₁ hline₂
  refine ⟨r₁', r₂', _, _, hreset₁, hreset₂, reset_eq env₁ u₁,
    reset_eq env₂ u₂, ?_⟩
  rw [hrcc, exti_reset_alike_iff]
  exact ⟨fun ⟨hr, hx, _⟩ => ⟨hr, hx⟩, fun ⟨hr, hx⟩ => ⟨hr, hx, huart⟩⟩

/-- The clocks of all ports, an unmasked line and a divider leave no trace. -/
theorem resets_alike_used : ∃ r₀ r r₁ r₂ x u u₁ u₂, Rcc.init = .ok r₀ ∧
    Run Rcc.Step r₀ [.reset, .write 0x18 0x1fc] r ∧ Run Exti.Step .init [.write 0x00 1] x ∧
    Run Uart.Step (.alloc .uart1 true 0) [(exampleEnv 0, .write 0x08 0x341 4)] u ∧
    Rcc.reset r = .ok r₁ ∧ Rcc.reset r₀ = .ok r₂ ∧
    Uart.reset (exampleEnv 1) u = .ok u₁ ∧
    Uart.reset (exampleEnv 0) (.alloc .uart1 true 0) = .ok u₂ ∧
    RccAlike r₁ r₂ ∧ ExtiAlike (Exti.reset x) (Exti.reset .init) ∧ UartAlike u₁ u₂ := by
  obtain ⟨r₀, hinit, h₀⟩ := init_has
  obtain ⟨b, hb, hhas⟩ := reset_has h₀
  have hgate : Writable 0x18 0x1fc := trivial
  obtain ⟨r, hr, hhas'⟩ := writew_has hhas hgate
  have hrun : Run Rcc.Step r₀ [.reset, .write 0x18 0x1fc] r := .cons hb (.cons hr (.nil r))
  have hx : Run Exti.Step .init [.write 0x00 1] { Stm32Exti.init with IMR := 1#32 } :=
    .cons rfl (.nil _)
  have hu : ∃ u, Run Uart.Step (.alloc .uart1 true 0) [(exampleEnv 0, .write 0x08 0x341 4)] u :=
    ⟨_, .cons ⟨⟨by decide, rfl⟩, rfl⟩ (.nil _)⟩
  obtain ⟨u, hu⟩ := hu
  obtain ⟨r₁, r₂, u₁, u₂, h₁, h₂, h₃, h₄, hiff⟩ :=
    resets_alike_iff r₀ r r₀ _ [] hinit hrun (.nil r₀)
    { Stm32Exti.init with IMR := 1#32 } .init .uart1 true 0 u (.alloc .uart1 true 0) _
    [] hu (.nil _) (exampleEnv 1) (exampleEnv 0)
  have hregs : ∀ {α : Type} (f : Stm32Rcc → α), f r.regs =
      f (writeRegs (resetRegs r₀.regs) 0x18 0x1fc) := fun f => congrArg f hhas'.regs
  exact ⟨r₀, r, r₁, r₂, _, u, u₁, u₂, hinit, hrun, hx, hu, h₁, h₂, h₃, h₄,
    hiff.2 ⟨⟨hregs Stm32Rcc.APB1RSTR, hregs Stm32Rcc.APB2RSTR⟩,
      fun k _ => ⟨rfl, rfl⟩⟩⟩

/-- A reset register that was written still reads its value, where a new device reads `0`;
and an output of the EXTI that was driven stays up. -/
theorem resets_told_apart : ∃ r₀ r r₁ r₂ x, Rcc.init = .ok r₀ ∧
    Run Rcc.Step r₀ [.write 0x0c 0x4] r ∧ Rcc.reset r = .ok r₁ ∧
    Rcc.reset r₀ = .ok r₂ ∧ readw r₁ 0x0c = .ok 4#32 ∧ readw r₂ 0x0c = .ok 0#32 ∧
    Run Exti.Step .init [.write 0x00 1, .write 0x08 1, .gpioIn 0 true] x ∧
    (Exti.reset x).level 0 = true := by
  obtain ⟨r₀, hinit, h₀⟩ := init_has
  have hoffset : Writable 0x0c 0x4 := trivial
  obtain ⟨r, hr, hhas⟩ := writew_has h₀ hoffset
  obtain ⟨r₁, hr₁, hhas₁⟩ := reset_has hhas
  obtain ⟨r₂, hr₂, hhas₂⟩ := reset_has h₀
  have hzero : r₀.APB2RSTR = 0#32 := by
    obtain ⟨t, -, h⟩ := bind_eq_ok.1 hinit
    rw [← pure_eq_ok.1 h]
  have hread₁ : r₁.regs.APB2RSTR = 4#32 := by
    rw [hhas₁.regs]
    rfl
  have hread₂ : r₂.regs.APB2RSTR = 0#32 := by
    rw [hhas₂.regs]
    exact hzero
  have hx : Run Exti.Step .init [.write 0x00 1, .write 0x08 1, .gpioIn 0 true]
      ⟨1, 1, 0, 0, 1, [(0, true)]⟩ := Run.ok_iff_foldlM.2 rfl
  exact ⟨r₀, r, r₁, r₂, _, hinit, .cons hr (.nil r), hr₁, hr₂,
    congrArg Except.ok hread₁, congrArg Except.ok hread₂, hx, rfl⟩

end Soc
end Especial
