/-
# The interrupt line of a USART

`stm32_uart_update_irq` drives the NVIC line with the OR of the enabled flags, if
that differs from `curr_irq_level`.  Most functions call it last.  The exception is
the transmit timer with a byte in the buffer: `stm32_uart_tx_complete` updates the
line and then `stm32_uart_start_tx` clears `TC`, without another update.

The line is right nevertheless, because of which flags can be set together: while a
byte waits in the buffer (`TXE = 0`), `TC` is clear already (`Tx.Ok.busy`).
-/

import Especial.Uart.Transmit

namespace Especial
namespace Uart

open Qemu Stm32 Lib

/-- The line and its record have the level of the flags, and the line is busy while
a byte waits. -/
structure LineOk (s : Stm32Uart) : Prop where
  irq : s.irq = s.newIrqLevel
  curr : s.currIrqLevel = s.newIrqLevel
  busy : s.TXE = false → s.TC = false

/-- The line and the flags are all that counts. -/
theorem Same.lineOk_iff {s t : Stm32Uart} (h : Same s t) : LineOk s ↔ LineOk t :=
  iff_of_eq (h.field LineOk fun _ => propext
    ⟨fun h => ⟨h.irq, h.curr, h.busy⟩, fun h => ⟨h.irq, h.curr, h.busy⟩⟩)

/-- **The update.**  If the record is right about the line, both get the level of
the flags. -/
theorem lineOk_updateIrq {s : Stm32Uart} (h : s.irq = s.currIrqLevel)
    (hbusy : s.TXE = false → s.TC = false) : LineOk (updateIrq s) := by
  rw [updateIrq_eq]
  refine ⟨?_, rfl, hbusy⟩
  change (if s.newIrqLevel = s.currIrqLevel then s.irq else s.newIrqLevel) = s.newIrqLevel
  split_ifs with hnew
  · exact h.trans hnew.symm
  · rfl

/-- **Every effect leaves the line right.** -/
theorem Effect.lineOk {s s' : Stm32Uart} {a : Access} (h : Effect s a s') (hs : LineOk s) :
    LineOk s' := by
  have hline : s.irq = s.currIrqLevel := hs.irq.trans hs.curr.symm
  cases h with
  | other h => exact h.lineOk_iff.2 hs
  | readDR ore _ _ _ _ h => exact h.lineOk_iff.2 (lineOk_updateIrq hline hs.busy)
  | writeSR h => exact h.lineOk_iff.2 (lineOk_updateIrq hline fun _ => rfl)
  | startDR b d _ h => exact h.lineOk_iff.2 (lineOk_updateIrq hline fun _ => rfl)
  | holdDR w hTC _ h => exact h.lineOk_iff.2 (lineOk_updateIrq hline fun _ => hTC)
  | writeCR1 _ _ _ _ _ _ h => exact h.lineOk_iff.2 (lineOk_updateIrq hline hs.busy)
  | ignored ch d _ h => exact h.lineOk_iff.2 ⟨hs.irq, hs.curr, hs.busy⟩
  | received ch d _ _ h => exact h.lineOk_iff.2 (lineOk_updateIrq hline hs.busy)
  | rxTimer h => exact h.lineOk_iff.2 ⟨hs.irq, hs.curr, hs.busy⟩
  | txFinish hTXE h =>
    refine h.lineOk_iff.2 (lineOk_updateIrq hline fun he => ?_)
    exact absurd (hTXE.symm.trans he) (by decide)
  | txShift d hTXE h =>
    -- `TC` was clear before, so clearing it after the update changes nothing
    have hTC : s.TC = false := hs.busy hTXE
    have hup : LineOk (updateIrq { s with TXE := true }) :=
      lineOk_updateIrq hline fun he => absurd he.symm Bool.false_ne_true
    have hTC' : (updateIrq { s with TXE := true }).TC = false := by
      rw [updateIrq_eq]
      exact hTC
    refine h.lineOk_iff.2 ⟨?_, ?_, fun _ => rfl⟩
    · rw [hup.irq]
      simp [Stm32Uart.newIrqLevel, hTC']
    · rw [hup.curr]
      simp [Stm32Uart.newIrqLevel, hTC']
  | reset h =>
    exact h.lineOk_iff.2 (lineOk_updateIrq hline fun he => absurd he.symm Bool.false_ne_true)

/-- **The interrupt line is right in every state.**  From the first reset on,
whatever happens to a USART, `curr_irq_level` and the level last driven on the NVIC
line are the OR of the enabled flags. -/
theorem uart_irq_level (periph : Periph) (connected : Bool) (afioBoardMap : BitVec 32)
    (env₀ : Env) (s₁ s : Stm32Uart) (l : List (Env × Event))
    (hreset : reset env₀ (.alloc periph connected afioBoardMap) = .ok s₁)
    (h : Run Step s₁ l s) :
    s.currIrqLevel = ((s.TCIE && s.TC) || (s.TXEIE && s.TXE) || (s.RXNEIE && (s.RXNE || s.ORE))) ∧
      s.irq = ((s.TCIE && s.TC) || (s.TXEIE && s.TXE) || (s.RXNEIE && (s.RXNE || s.ORE))) := by
  have hs₀ : LineOk (.alloc periph connected afioBoardMap) := ⟨rfl, rfl, fun _ => rfl⟩
  have hs : LineOk s :=
    h.invariant (fun _ _ _ hs hstep => (step_effect hstep.2).lineOk hs)
      ((reset_effect hreset).lineOk hs₀)
  rw [Bool.or_comm s.RXNE]
  exact ⟨hs.curr, hs.irq⟩

/-- A byte waits behind another one when the timer expires: the line falls for `TC`
and stays up for `TXE`. -/
theorem uart_irq_level_shift :
    ∃ s₁ s, reset (exampleEnv 0) (.alloc .uart1 true 0) = .ok s₁ ∧
      Run Step s₁ [(exampleEnv 0, .write 0x0c 0x20c8 4), (exampleEnv 1, .write 0x04 0x41 4),
        (exampleEnv 2, .write 0x04 0x42 4), (exampleEnv 3, .txTimer)] s ∧
      s.TXE = true ∧ s.TC = false ∧ s.irq = true ∧
      s.irq = ((s.TCIE && s.TC) || (s.TXEIE && s.TXE) || (s.RXNEIE && (s.RXNE || s.ORE))) := by
  have hall : ∃ s₁ s, reset (exampleEnv 0) (.alloc .uart1 true 0) = .ok s₁ ∧
      Run Step s₁ [(exampleEnv 0, .write 0x0c 0x20c8 4), (exampleEnv 1, .write 0x04 0x41 4),
        (exampleEnv 2, .write 0x04 0x42 4), (exampleEnv 3, .txTimer)] s ∧
      s.TXE = true ∧ s.TC = false ∧ s.irq = true :=
    ⟨_, _, rfl, .cons ⟨⟨by decide, rfl⟩, rfl⟩ (.cons ⟨⟨by decide, rfl⟩, rfl⟩
      (.cons ⟨⟨by decide, rfl⟩, rfl⟩ (.cons ⟨⟨_, rfl, by decide⟩, rfl⟩ (.nil _)))),
      rfl, rfl, rfl⟩
  obtain ⟨s₁, s, hreset, hrun, htxe, htc, hirq⟩ := hall
  exact ⟨s₁, s, hreset, hrun, htxe, htc, hirq, (uart_irq_level _ _ _ _ _ _ _ hreset hrun).2⟩

end Uart
end Especial
