/-
# The lines after another reset

`stm32_afio_reset` writes the `EXTICR` registers as at power-on (`init`), when no port
is connected yet: it connects port A to every line and disconnects nothing.  A line
that software has moved to another port is then connected to two ports, and stays
connected to the old one, because the register no longer names it.

`afio_onePort_iff` says that this is the only way: in a run, every line is connected
to one port after every step, exactly if every reset happens when all lines are on
port A.
-/

import Especial.Afio.Delivery

namespace Especial
namespace Afio

open Qemu Stm32 Lib Gpio Exti

variable {io io' : Io} {n : ℕ}

/-- Every line is connected to one port, the one that its nibble names. -/
def OnePort (io : Io) : Prop := ∀ n < 16, ∃ p : Fin GPIO_COUNT, p.val = extiPort io n ∧
  ∀ q, (io.gpio q).inIrq n = if q = p then some n else none

/-- A reset of the AFIO happens only when all lines are on port A. -/
def ResetsOnA (io : Io) (e : Event) : Prop := e = .afioReset → ∀ n < 16, extiPort io n = 0

/-- The nibbles name ports. -/
def PortsExist (io : Io) : Prop := ∀ n < 16, extiPort io n < GPIO_COUNT

/-- Every line is on one port when the routing invariant holds and the nibbles name ports. -/
theorem onePort_iff : OnePort io ↔ Routed io ∧ PortsExist io := by
  constructor
  · intro h
    refine ⟨fun n hn q => ?_, fun n hn => ?_⟩
    · obtain ⟨p, hp, hirq⟩ := h n hn
      show (io.gpio q).inIrq n = if q.val = extiPort io n then some n else none
      rw [hirq q, ← hp]
      simp only [Fin.ext_iff]
    · obtain ⟨p, hp, -⟩ := h n hn
      rw [← hp]
      exact p.isLt
  · rintro ⟨hr, hex⟩ n hn
    refine ⟨⟨extiPort io n, hex n hn⟩, rfl, fun q => ?_⟩
    rw [show (io.gpio q).inIrq n = _ from hr n hn q]
    simp only [Fin.ext_iff]
    rfl

/-! ### The nibbles name ports -/

/-- Whether the nibbles name ports is seen in the AFIO. -/
theorem PortsExist.of_eq (h : PortsExist io) (hafio : io'.afio = io.afio) : PortsExist io' := by
  intro n hn
  rw [extiPort, hafio]
  exact h n hn

/-- A write that names another port faults. -/
theorem exticrWrite_portsExist {index : Fin 4} {newValue : BitVec 32} {init : Bool}
    (h : PortsExist io) (hw : exticrWrite io index newValue init = .ok io') : PortsExist io' := by
  intro n hn
  have hroute := congrArg Route.port (exticrWrite_route hw hn)
  rw [show extiPort io' n = _ from hroute]
  obtain ⟨io₁, hloop, -⟩ := bind_eq_ok.1 hw
  split_ifs with hdiv
  · exact ((exticrLoop_acts hloop).cond n (mem_linesOf.2 hdiv)).1
  · exact h n hn

/-- The check of the clock keeps the nibbles. -/
theorem PortsExist.checkPeriphClk (h : PortsExist io) (clkEnabled : Bool) :
    PortsExist (checkPeriphClk clkEnabled io) := by
  cases clkEnabled <;> exact h

/-- A write of a register leaves nibbles that name ports, if it returns. -/
theorem write_portsExist {clkEnabled : Bool} {offset : ℕ} {value : BitVec 32} (h : PortsExist io)
    (hw : write clkEnabled io offset value = .ok io') : PortsExist io' := by
  have h' := h.checkPeriphClk clkEnabled
  rcases write_cases hw with rfl | ⟨index, hw⟩
  · exact h'
  · exact exticrWrite_portsExist h' hw

/-- After a reset all nibbles name port A. -/
theorem reset_portsExist (h : reset io = .ok io') : PortsExist io' := fun n hn => by
  rw [reset_extiPort h hn]
  decide

/-- **No step leaves a nibble without a port.** -/
theorem step_portsExist {e : Event} (h : PortsExist io) (hs : Step io e io') : PortsExist io' := by
  cases e with
  | afioWrite clkEnabled offset value => exact write_portsExist h hs
  | afioReset => exact reset_portsExist hs
  | extiWrite offset value =>
    obtain ⟨exti, -, hs⟩ := bind_eq_ok.1 hs
    rw [← pure_eq_ok.1 hs]
    exact h
  | extiReset =>
    rw [← pure_eq_ok.1 hs]
    exact h
  | gpioWrite port clkEnabled offset value =>
    obtain ⟨g, -, hs⟩ := bind_eq_ok.1 hs
    rw [← pure_eq_ok.1 hs]
    exact h.of_eq rfl
  | gpioReset port =>
    rw [← pure_eq_ok.1 hs]
    exact h.of_eq rfl
  | gpioIn port pin level =>
    obtain ⟨-, exti, -, rfl⟩ := gpioInTrigger_eq hs
    exact h.of_eq rfl

/-! ### Another reset -/

/-- **A reset of routed lines** keeps them routed exactly if they are all on port A. -/
theorem reset_routed_again (hr : Routed io) (hex : PortsExist io) (h : reset io = .ok io') :
    Routed io' ↔ ∀ n < 16, extiPort io n = 0 := by
  rw [reset_routed_iff h]
  constructor
  · intro hfree n hn
    by_contra hne
    have hnone := hfree n hn ⟨extiPort io n, hex n hn⟩ hne
    have hsome : (io.gpio ⟨extiPort io n, hex n hn⟩).inIrq n = some n := by
      rw [show (io.gpio ⟨extiPort io n, hex n hn⟩).inIrq n = _ from hr n hn _]
      exact if_pos rfl
    rw [hnone] at hsome
    exact absurd hsome (by simp)
  · intro hzero n hn p hp
    rw [show (io.gpio p).inIrq n = _ from hr n hn p]
    refine if_neg fun hpn => hp ?_
    rw [hpn]
    exact hzero n hn

/-- **A step keeps every line on one port** exactly if it is not a reset with a line elsewhere
than on port A. -/
theorem step_onePort_iff {e : Event} (h : OnePort io) (hs : Step io e io') :
    OnePort io' ↔ ResetsOnA io e := by
  obtain ⟨hr, hex⟩ := onePort_iff.1 h
  have hex' := step_portsExist hex hs
  rw [onePort_iff, and_iff_left hex']
  by_cases he : e = .afioReset
  · subst he
    rw [reset_routed_again hr hex hs]
    exact ⟨fun hzero _ => hzero, fun hzero => hzero rfl⟩
  · exact iff_of_true (step_routed hr he hs) fun h => absurd h he

/-- A step has one outcome. -/
theorem step_det (io : Io) (e : Event) (io₁ io₂ : Io) (h₁ : Step io e io₁)
    (h₂ : Step io e io₂) :
    io₁ = io₂ := Except.ok.inj (h₁.symm.trans h₂)

/-- **Every line is connected to one port**, after each step since the first reset,
exactly if every further reset happens when all lines are on port A. -/
theorem afio_onePort_iff (io₀ io₁ io : Io) (l : List Event)
    (hfree : ∀ n p, (io₀.gpio p).inIrq n = none) (hreset : reset io₀ = .ok io₁)
    (h : Run Step io₁ l io) :
    (∀ l₁ u, l₁ <+: l → Run Step io₁ l₁ u → OnePort u) ↔
    Run (Guarded Step ResetsOnA) io₁ l io := by
  have h₁ : OnePort io₁ :=
    onePort_iff.2 ⟨reset_routed hfree hreset, reset_portsExist hreset⟩
  exact Run.forall_prefix_iff (J := fun _ => True) step_det (fun _ _ _ _ _ => trivial)
    (fun _ _ _ _ hone hs => step_onePort_iff hone hs) h trivial h₁

/-- Line 0 goes to port B and back before the reset. -/
theorem afio_onePort_back_on_A : ∃ io₁ io, reset Io.alloc = .ok io₁ ∧
    Run (Guarded Step ResetsOnA) io₁
      [.afioWrite true 0x08 0x1, .afioWrite true 0x08 0x0, .afioReset] io ∧ OnePort io := by
  have hall : ∃ io₁ io₂ io₃ io, reset Io.alloc = .ok io₁ ∧
      Step io₁ (.afioWrite true 0x08 0x1) io₂ ∧
      Step io₂ (.afioWrite true 0x08 0x0) io₃ ∧ Step io₃ .afioReset io ∧
      ∀ n < 16, extiPort io₃ n = 0 :=
    ⟨_, _, _, _, rfl, rfl, rfl, rfl, by decide⟩
  obtain ⟨io₁, io₂, io₃, io, hreset, h₁, h₂, h₃, hzero⟩ := hall
  have hrun : Run (Guarded Step ResetsOnA) io₁
      [.afioWrite true 0x08 0x1, .afioWrite true 0x08 0x0, .afioReset] io :=
    .cons ⟨h₁, Event.noConfusion⟩
      (.cons ⟨h₂, Event.noConfusion⟩ (.cons ⟨h₃, fun _ => hzero⟩ (.nil _)))
  have hplain := hrun.mono fun _ _ _ h => h.1
  exact ⟨io₁, io, hreset, hrun,
    (afio_onePort_iff _ _ _ _ (fun _ _ => rfl) hreset hplain).2 hrun _ io List.prefix_rfl hplain⟩

/-- `GPIOA`. -/
def portA : Fin GPIO_COUNT := ⟨0, by decide⟩

/-- `GPIOB`. -/
def portB : Fin GPIO_COUNT := ⟨1, by decide⟩

/-- Line 0 is on port B when the AFIO is reset: it is then on port A and on port B,
although its nibble names port A. -/
theorem afio_two_ports_after_reset : ∃ io₁ io, reset Io.alloc = .ok io₁ ∧
    Run Step io₁ [.afioWrite true 0x08 0x1, .afioReset] io ∧ extiPort io 0 = 0 ∧
    (io.gpio portA).inIrq 0 = some 0 ∧ (io.gpio portB).inIrq 0 = some 0 ∧ ¬OnePort io := by
  have hall : ∃ io₁ io, reset Io.alloc = .ok io₁ ∧
      Run Step io₁ [.afioWrite true 0x08 0x1, .afioReset] io ∧ extiPort io 0 = 0 ∧
      (io.gpio portA).inIrq 0 = some 0 ∧ (io.gpio portB).inIrq 0 = some 0 :=
    ⟨_, _, rfl, .cons rfl (.cons rfl (.nil _)), rfl, rfl, rfl⟩
  obtain ⟨io₁, io, hreset, hrun, hport, hA, hB⟩ := hall
  refine ⟨io₁, io, hreset, hrun, hport, hA, hB, fun hone => ?_⟩
  obtain ⟨p, hp, hirq⟩ := hone 0 (by decide)
  have hne : portB ≠ p := fun h => by
    rw [← h, hport] at hp
    exact absurd hp (by decide)
  rw [hirq portB, if_neg hne] at hB
  exact absurd hB (by simp)

end Afio
end Especial
