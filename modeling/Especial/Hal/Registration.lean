/-
# A registration that fails

`registerInt` configures the hardware first and looks at its table afterwards.  When
the line is taken, it has by then connected the line to the port of the new pin and
cleared the pending bit; the masks of the line were set already
(`Firmware.Ok.enabled`).

So a registration that fails leaves everything as it was exactly when the new pin is
on the port the line is connected to and no interrupt is pending on the line
(`registerInt_failed_iff`).
-/

import Especial.Hal.Effects

namespace Especial
namespace Hal

open Qemu Stm32 Lib Gpio Exti Afio

variable {s s' : Firmware}

/-- The table, the port of every line and the registers of the EXTI controller are as
they were. -/
structure Unchanged (s s' : Firmware) : Prop where
  isrVector : s'.isrVector = s.isrVector
  route : ∀ m < 16, route s'.io m = route s.io m
  IMR : s'.io.exti.IMR = s.io.exti.IMR
  RTSR : s'.io.exti.RTSR = s.io.exti.RTSR
  FTSR : s'.io.exti.FTSR = s.io.exti.FTSR
  PR : s'.io.exti.PR = s.io.exti.PR

/-- Then every pin keeps receiving its interrupts. -/
theorem Unchanged.reaches_iff (h : Unchanged s s') (port : Fin GPIO_COUNT) {n : ℕ} (hn : n < 16)
    (level : Bool) : Reaches s'.io port n level ↔ Reaches s.io port n level := by
  have hport : extiPort s'.io n = extiPort s.io n := congrArg Route.port (h.route n hn)
  unfold Reaches
  rw [hport, h.IMR, h.RTSR, h.FTSR]

/-- Lines that are connected to the same ports are connected in the same way. -/
theorem route_eq_of_port {io io' : Io} {n : ℕ} (h : Routed io) (h' : Routed io') (hn : n < 16)
    (hport : extiPort io' n = extiPort io n) : route io' n = route io n := by
  have hirq : (route io' n).inIrq = (route io n).inIrq := funext fun p => by
    rw [h' n hn p, h n hn p]
    show (if p.val = extiPort io' n then _ else _) = if p.val = extiPort io n then _ else _
    rw [hport]
  show Route.mk (route io' n).inIrq (extiPort io' n) = Route.mk (route io n).inIrq (extiPort io n)
  rw [hirq, hport]

/-- Registering an enabled line with nothing pending leaves it as it was. -/
theorem enabledLine_eq_iff {l : Line} (himr : l.imr = true) (hrtsr : l.rtsr = true)
    (hftsr : l.ftsr = true) : enabledLine l = l ↔ l.pr = false := by
  obtain ⟨imr, rtsr, ftsr, swier, pr⟩ := l
  obtain rfl : imr = true := himr
  obtain rfl : rtsr = true := hrtsr
  obtain rfl : ftsr = true := hftsr
  cases pr <;> simp [enabledLine]

/-- **A failed registration**, in a state with the invariants. -/
theorem Registered.unchanged_iff {isr : Option ℕ} {pin : Pin} (h : s.Ok)
    (hr : Registered isr pin s false s') : Unchanged s s' ↔
      extiPort s.io pin.line = pin.base ∧ s.io.exti.PR.getLsbD pin.line = false := by
  have htaken : s.isrVector pin.line ≠ none := fun hfree => absurd (hr.free.2 hfree) (by decide)
  obtain ⟨himr, hrtsr, hftsr⟩ := h.enabled pin.line htaken
  constructor
  · intro hu
    have hport : extiPort s'.io pin.line = extiPort s.io pin.line :=
      congrArg Route.port (hu.route _ pin.line.isLt)
    rw [hr.port _ pin.line.isLt, if_pos rfl] at hport
    have hline := congrArg Line.pr (hr.line pin.line)
    rw [if_pos rfl] at hline
    have hpr : s'.io.exti.PR.getLsbD pin.line = false := hline
    rw [hu.PR] at hpr
    exact ⟨hport.symm, hpr⟩
  · rintro ⟨hport, hpr⟩
    have hline : ∀ j, s'.io.exti.line j = s.io.exti.line j := fun j => by
      rw [hr.line]
      split_ifs with hj
      · subst hj
        exact (enabledLine_eq_iff himr hrtsr hftsr).2 hpr
      · rfl
    refine ⟨hr.vector, fun m hm => route_eq_of_port h.routed (hr.routed h.routed) hm ?_,
      BitVec.eq_of_getLsbD_eq fun j _ => congrArg Line.imr (hline j),
      BitVec.eq_of_getLsbD_eq fun j _ => congrArg Line.rtsr (hline j),
      BitVec.eq_of_getLsbD_eq fun j _ => congrArg Line.ftsr (hline j),
      BitVec.eq_of_getLsbD_eq fun j _ => congrArg Line.pr (hline j)⟩
    rw [hr.port m hm]
    split_ifs with hm'
    · rw [hm', hport]
    · rfl

/-- **A registration that fails.**  In every state that the firmware reaches,
`registerInt` returns; it returns `false` exactly when the line is taken; and then it
has left everything as it was exactly when the pin is on the port that the line is
connected to and the line is not pending. -/
theorem registerInt_failed_iff (io₀ : Io) (aircr : BitVec 32) (pins : ℕ → Pin)
    (l : List Event) (s : Firmware) (hreset : machineReset Io.alloc = .ok io₀)
    (hrun : Run Step (Firmware.init io₀ aircr pins) l s) (clkEnabled : Bool) (isr : Option ℕ)
    (pin : Pin) : ∃ b s', registerInt clkEnabled s isr pin = .ok (b, s') ∧
      (b = false ↔ s.isrVector pin.line ≠ none) ∧
      (b = false → (Unchanged s s' ↔
        extiPort s.io pin.line = pin.base ∧ s.io.exti.PR.getLsbD pin.line = false)) := by
  have hok := run_ok hreset hrun
  obtain ⟨⟨b, s'⟩, hcall, hr⟩ := registerInt_returns clkEnabled isr pin hok.ports
  refine ⟨b, s', hcall, ?_, ?_⟩
  · rw [Ne, ← hr.free, Bool.not_eq_true]
  · rintro rfl
    exact hr.unchanged_iff hok

/-- `PA.3`. -/
def pinA3 : Pin := ⟨0x41#8, 3#8, by decide, by decide⟩

/-- `PB.3`. -/
def pinB3 : Pin := ⟨0x42#8, 3#8, by decide, by decide⟩

/-- The firmware after an input on `PA.3` was registered. -/
theorem exists_registered_a3 : ∃ io₀ s, machineReset Io.alloc = .ok io₀ ∧
    Run Step (Firmware.init io₀ 0#32 fun _ => pinA3) [.registerInt true (some 0) pinA3] s ∧
    s.isrVector 3 = some 0 ∧ extiPort s.io 3 = 0 ∧
    s.io.exti.line 3 = ⟨true, true, true, false, false⟩ := by
  obtain ⟨io₀, hreset, hexti⟩ : ∃ io₀, machineReset Io.alloc = .ok io₀ ∧
      io₀.exti.line 3 = ⟨false, false, false, false, false⟩ := ⟨_, rfl, rfl⟩
  have hok : (Firmware.init io₀ 0#32 fun _ => pinA3).Ok := init_ok hreset
  obtain ⟨⟨b, s⟩, hcall, hr⟩ := registerInt_returns true (some 0) pinA3 hok.ports
  obtain rfl : b = true := hr.free.2 rfl
  refine ⟨io₀, s, hreset, .cons ⟨rfl, bind_eq_ok.2 ⟨_, hcall, rfl⟩⟩ (.nil s), ?_,
    hr.port 3 (by decide), ?_⟩
  · rw [hr.vector]
    rfl
  · rw [hr.line 3, if_pos (show 3 = pinA3.line.val from rfl)]
    show enabledLine (io₀.exti.line 3) = _
    rw [hexti]
    rfl

/-- A second registration of `PA.3` fails and leaves everything as it was. -/
theorem registerInt_failed_same_port : ∃ io₀ s s', machineReset Io.alloc = .ok io₀ ∧
    Run Step (Firmware.init io₀ 0#32 fun _ => pinA3) [.registerInt true (some 0) pinA3] s ∧
    registerInt true s (some 1) pinA3 = .ok (false, s') ∧ Unchanged s s' := by
  obtain ⟨io₀, s, hreset, hrun, hvector, hport, hline⟩ := exists_registered_a3
  obtain ⟨b, s', hcall, hfalse, hiff⟩ :=
    registerInt_failed_iff io₀ 0#32 (fun _ => pinA3) _ s hreset hrun true (some 1) pinA3
  have hpr : s.io.exti.PR.getLsbD 3 = false := congrArg Line.pr hline
  obtain rfl : b = false := hfalse.2 (by rw [show pinA3.line = 3 from rfl, hvector]; decide)
  exact ⟨io₀, s, s', hreset, hrun, hcall, (hiff rfl).2 ⟨hport, hpr⟩⟩

/-- A registration of `PB.3` after one of `PA.3` fails, and the edges of `PA.3` do not
reach the EXTI controller any more. -/
theorem registerInt_failed_other_port : ∃ io₀ s s', machineReset Io.alloc = .ok io₀ ∧
    Run Step (Firmware.init io₀ 0#32 fun _ => pinA3) [.registerInt true (some 0) pinA3] s ∧
    registerInt true s (some 1) pinB3 = .ok (false, s') ∧
    extiPort s.io 3 = 0 ∧ extiPort s'.io 3 = 1 ∧
    Reaches s.io pinA3.base 3 true ∧ ¬Reaches s'.io pinA3.base 3 true ∧ ¬Unchanged s s' := by
  obtain ⟨io₀, s, hreset, hrun, hvector, hport, hline⟩ := exists_registered_a3
  obtain ⟨⟨b, s'⟩, hcall, hr⟩ :=
    registerInt_returns true (some 1) pinB3 (run_ok hreset hrun).ports
  have htaken : s.isrVector pinB3.line = some 0 := hvector
  have hb : ¬b = true := fun h => absurd (htaken.symm.trans (hr.free.1 h)) (by decide)
  obtain rfl : b = false := Bool.eq_false_iff.2 hb
  have hport' : extiPort s'.io 3 = 1 := hr.port 3 (by decide)
  have hreach : Reaches s.io pinA3.base 3 true :=
    ⟨hport, congrArg Line.imr hline, congrArg Line.rtsr hline⟩
  have hlost : ¬Reaches s'.io pinA3.base 3 true := fun h =>
    absurd (hport'.symm.trans h.1) (by decide)
  exact ⟨io₀, s, s', hreset, hrun, hcall, hport, hport', hreach, hlost,
    fun hu => hlost ((hu.reaches_iff _ (by decide) true).2 hreach)⟩

end Hal
end Especial
