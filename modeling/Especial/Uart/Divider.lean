/-
# When the rate of a USART can be computed

`stm32_uart_baud_update` divides the frequency of the peripheral clock by `BRR`, and then
a second by the result.  It looks for a zero in both operands of the first division and
in none of the second; so it returns exactly when one of the two is `0` or `BRR` is at
most the frequency (`baudUpdate_returns_iff`).

The writes that change `BRR`, and the reset, are followed up to that call.
-/

import Especial.Uart.Baud
import Especial.Lib.Returns

namespace Especial
namespace Uart

open Qemu Stm32 Lib

/-- The rate for this divider and this frequency is no `0` to divide by. -/
def Divides (brr freq : BitVec 32) : Prop := brr = 0#32 ∨ freq = 0#32 ∨ brr.toNat ≤ freq.toNat

variable {env : Env} {s s' : Stm32Uart}

/-- A quotient is `0` when the divisor is the larger one. -/
theorem udiv_eq_zero_iff {x y : BitVec 32} (hy : y ≠ 0#32) :
    x / y = 0#32 ↔ x.toNat < y.toNat := by
  have hpos : 0 < y.toNat := Nat.pos_of_ne_zero fun h => hy (BitVec.eq_of_toNat_eq h)
  rw [BitVec.toNat_eq, BitVec.toNat_udiv]
  exact Nat.div_eq_zero_iff_lt hpos

/-- The port `p` with the divider `brr`. -/
structure Divided (p : Periph) (brr : BitVec 32) (s : Stm32Uart) : Prop where
  periph : s.periph = p
  brr : s.BRR = brr

/-- **`stm32_uart_baud_update`** returns exactly when it does not divide by `0`. -/
theorem baudUpdate_returns_iff :
    Returns (baudUpdate env s) (Divided s.periph s.BRR) ↔ Divides s.BRR env.periphFreq := by
  unfold baudUpdate Divides
  by_cases hz : s.BRR = 0#32 ∨ env.periphFreq = 0#32
  · rw [if_pos hz]
    exact iff_of_true (Returns.pure ⟨rfl, rfl⟩) (hz.elim Or.inl fun h => Or.inr (Or.inl h))
  · rw [if_neg hz]
    obtain ⟨hbrr, hfreq⟩ := not_or.1 hz
    simp only [hbrr, hfreq, false_or, udiv_eq_zero_iff hbrr]
    split_ifs with hlt
    · exact iff_of_false (fun ⟨_, h, _⟩ => throw_ne_ok h) (by omega)
    · exact iff_of_true (Returns.pure ⟨rfl, rfl⟩) (by omega)

/-- The lower half of a word. -/
theorem and_ffff (x : BitVec 32) : x &&& 0xffff#32 = (x.setWidth 16).setWidth 32 := by
  have hlt : x.toNat % 2 ^ 16 < 2 ^ 32 := (Nat.mod_lt _ (by decide)).trans (by decide)
  apply BitVec.eq_of_toNat_eq
  rw [BitVec.toNat_and, BitVec.toNat_setWidth, BitVec.toNat_setWidth, Nat.mod_eq_of_lt hlt]
  exact Nat.and_two_pow_sub_one_eq_mod x.toNat 16

/-- **A write to `BRR`** sets the divider and computes the rate. -/
theorem write_brr_eq {offset : ℕ} (ho : offset / 4 * 4 = 0x08) (hport : s.periph ≠ .uart5)
    (env : Env) (value : BitVec 64) (size : ℕ) : ∃ w, write env s offset value size =
      baudUpdate env
        { s with warnings := w, BRR := merge s.BRR offset value size &&& 0xffff#32 } := by
  obtain ⟨w, hw⟩ := checkPeriphClk_frame env s
  have hwrite : write env s offset value size =
      ctrlWrite env (checkPeriphClk env s) .BRR (merge (s.ctrl .BRR) offset value size) :=
    write_ctrl_eq ho hport
  rw [hw] at hwrite
  exact ⟨w, hwrite⟩

/-- The debug port has no divider. -/
theorem write_uart5_returns {offset size : ℕ} {value : BitVec 64} (hport : s.periph = .uart5) :
    Returns (write env s offset value size) (Divided s.periph s.BRR) := by
  unfold write
  rw [if_pos hport]
  exact Returns.pure ⟨rfl, rfl⟩

/-- The state after `stm32_uart_reset`. -/
def resetState (s : Stm32Uart) : Stm32Uart :=
  { s with
    TXE := true, TC := true, RXNE := false, ORE := false
    BRR := 0#32, bitsPerSec := 0#32
    UE := false, TXEIE := false, TCIE := false, RXNEIE := false, TE := false, RE := false
    CR1 := 0#32, CR2 := 0#32, CR3 := 0#32
    irq := s.irq && !s.currIrqLevel
    currIrqLevel := false }

/-- **`stm32_uart_reset`** always returns: it sets `BRR` to `0`, and checks no mapping. -/
theorem reset_eq (env : Env) (s : Stm32Uart) : reset env s = .ok (resetState s) := by
  have hreset : reset env s = .ok (updateIrq { updateIrq { s with
      TXE := true, TC := true, RXNE := false, ORE := false
      BRR := 0#32, bitsPerSec := 0#32
      UE := false, TXEIE := false, TCIE := false, RXNEIE := false, TE := false, RE := false
      CR1 := 0#32 } with CR2 := 0#32, CR3 := 0#32 }) := rfl
  rw [hreset, updateIrq_eq, updateIrq_eq]
  cases hc : s.currIrqLevel <;> simp [resetState, Stm32Uart.newIrqLevel, hc]

end Uart
end Especial
