/-
# The baud rate of a USART

`bits_per_sec` and `ns_per_char` are derived from `BRR` and the frequency of the
peripheral clock.  `stm32_uart_baud_update` computes them, and it is called where one
of the two changes: by a write to `BRR`, and by the handler of the clock.  Nothing else
a USART does touches the three (`Stm32Uart.baud`), so a rate that is right for the
current frequency stays right (`step_baudOk`).
-/

import Especial.Uart.Registers

namespace Especial
namespace Uart

open Qemu Stm32

/-- `BRR` and what is derived from it. -/
def Stm32Uart.baud (s : Stm32Uart) : BitVec 32 × BitVec 32 × BitVec 64 :=
  (s.BRR, s.bitsPerSec, s.nsPerChar)

/-- **The rate is right** for a frequency `f` of the peripheral clock. -/
structure BaudOk (s : Stm32Uart) (f : BitVec 32) : Prop where
  bitsPerSec : if s.BRR = 0#32 ∨ f = 0#32 then s.bitsPerSec = 0#32
    else s.bitsPerSec.toNat = f.toNat / s.BRR.toNat
  nsPerChar : s.bitsPerSec ≠ 0#32 →
    s.nsPerChar.toNat = 10 * (10 ^ 9 / s.bitsPerSec.toNat)

variable {env : Env} {s s' : Stm32Uart} {f v : BitVec 32}

/-- The rate is right when `BRR` and the rate are kept. -/
theorem BaudOk.of_baud_eq (h : BaudOk s f) (hb : s'.baud = s.baud) : BaudOk s' f := by
  obtain ⟨hbrr, hrest⟩ := Prod.mk.inj hb
  obtain ⟨hbps, hns⟩ := Prod.mk.inj hrest
  refine ⟨?_, ?_⟩
  · rw [hbrr, hbps]
    exact h.bitsPerSec
  · rw [hbps, hns]
    exact h.nsPerChar

/-- **The update** makes the rate right, from anything. -/
theorem baudUpdate_baudOk (h : baudUpdate env s = .ok s') : BaudOk s' env.periphFreq := by
  unfold baudUpdate at h
  by_cases hz : s.BRR = 0#32 ∨ env.periphFreq = 0#32
  · rw [if_pos hz, pure_eq_ok] at h
    subst h
    exact ⟨by rw [if_pos hz], fun hne => absurd rfl hne⟩
  · rw [if_neg hz] at h
    obtain ⟨-, h⟩ := if_throw_eq_ok.1 h
    obtain rfl := pure_eq_ok.1 h
    refine ⟨?_, fun _ => ?_⟩
    · rw [if_neg hz]
      exact BitVec.toNat_udiv
    · dsimp only
      rw [BitVec.toNat_mul, BitVec.toNat_udiv, BitVec.toNat_setWidth_of_le (by decide),
        Nat.mul_comm]
      refine Nat.mod_eq_of_lt ?_
      have hle := Nat.div_le_self 1000000000 (env.periphFreq / s.BRR).toNat
      have hnum : (1000000000#64).toNat = 1000000000 := rfl
      have hten : (10#64).toNat = 10 := rfl
      rw [hnum, hten]
      omega

/-! ### Everything else leaves it alone -/

/-- They are part of the configuration. -/
theorem baud_of_config (h : s'.config = s.config) : s'.baud = s.baud := by
  have hbaud : s'.config.baud = s.config.baud := by rw [h]
  exact hbaud

/-- **A write to `BRR` makes the rate right.** -/
theorem brrWrite_baudOk (h : brrWrite env s v = .ok s') : BaudOk s' env.periphFreq :=
  baudUpdate_baudOk (s := { s with BRR := v &&& 0xffff#32 }) h

/-- A write to `CR1` keeps the rate. -/
theorem cr1Write_baud (h : cr1Write env s v = .ok s') : s'.baud = s.baud := by
  rw [cr1Write_frame h, baud_of_config (updateIrq_config _)]
  rfl

/-- A write to `BRR` makes the rate right, and one to another control register leaves it. -/
theorem ctrlWrite_baudOk {r : Ctrl} (hs : BaudOk s env.periphFreq)
    (h : ctrlWrite env s r v = .ok s') : BaudOk s' env.periphFreq := by
  cases r with
  | BRR => exact brrWrite_baudOk h
  | CR1 => exact hs.of_baud_eq (cr1Write_baud h)
  | CR2 | CR3 =>
    obtain rfl := pure_eq_ok.1 h
    exact hs.of_baud_eq rfl

/-- So does any other write. -/
theorem write_baudOk {offset size : ℕ} {value : BitVec 64} (hs : BaudOk s env.periphFreq)
    (h : write env s offset value size = .ok s') : BaudOk s' env.periphFreq := by
  by_cases hport : s.periph = .uart5
  · rw [write, if_pos hport] at h
    obtain rfl := pure_eq_ok.1 h
    exact hs.of_baud_eq rfl
  · by_cases hr : ∃ r : Ctrl, offset / 4 * 4 = r.offset
    · obtain ⟨r, ho⟩ := hr
      rw [write_ctrl_eq ho hport] at h
      obtain ⟨w, hw⟩ := checkPeriphClk_frame env s
      refine ctrlWrite_baudOk (hs.of_baud_eq ?_) h
      rw [hw]
      rfl
    · exact hs.of_baud_eq (baud_of_config (write_config h hport fun r ho => hr ⟨r, ho⟩))

/-- After a reset the rate is right. -/
theorem reset_baudOk (h : reset env s = .ok s') : BaudOk s' env.periphFreq := by
  unfold reset at h
  obtain ⟨s₁, h₁, h⟩ := bind_eq_ok.1 h
  obtain ⟨s₂, h₂, h⟩ := bind_eq_ok.1 h
  obtain rfl := pure_eq_ok.1 h
  refine (brrWrite_baudOk h₁).of_baud_eq ?_
  rw [baud_of_config (updateIrq_config _)]
  have hb := cr1Write_baud h₂
  exact hb

/-- **Every event** leaves the rate right for the frequency it finds. -/
theorem step_baudOk {e : Event} (hs : BaudOk s env.periphFreq) (h : step env s e = .ok s') :
    BaudOk s' env.periphFreq := by
  cases e with
  | read offset size =>
    obtain ⟨⟨_, s₁⟩, hr, h⟩ := bind_eq_ok.1 h
    obtain rfl := pure_eq_ok.1 h
    exact hs.of_baud_eq (baud_of_config (read_config hr))
  | write offset value size => exact write_baudOk hs h
  | receive ch =>
    obtain rfl := pure_eq_ok.1 h
    exact hs.of_baud_eq (baud_of_config (receive_config env s ch))
  | rxTimer =>
    obtain rfl := pure_eq_ok.1 h
    exact hs.of_baud_eq rfl
  | txTimer =>
    obtain rfl := pure_eq_ok.1 h
    exact hs.of_baud_eq (baud_of_config (txComplete_config env { s with txTimer := none }))
  | clkIrq level =>
    change clkIrqHandler env s level = .ok s' at h
    unfold clkIrqHandler at h
    split_ifs at h
    · exact baudUpdate_baudOk h
    · obtain rfl := pure_eq_ok.1 h
      exact hs
  | reset => exact reset_baudOk h

end Uart
end Especial
