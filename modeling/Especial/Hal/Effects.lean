/-
# What a step of the firmware does

One lemma for each function of the firmware says what it does to the registers, the
table and the objects, and `step_effect` collects them: every step from a reachable
state is one of eight (`Effect`).  Every invariant of the firmware is proved by cases
on these.
-/

import Especial.Afio.Delivery
import Especial.Hal.Firmware

namespace Especial
namespace Hal

open Qemu Stm32 Lib Gpio Exti Afio

variable {s s' : Firmware} {io₀ : Io} {aircr : BitVec 32} {pins : ℕ → Pin}

/-! ### What the functions do -/

/-- The object at an address has read the level of its pin. -/
def refresh (s : Firmware) (d : ℕ) : Firmware :=
  let object := s.inputs d
  let state := if level s.io object.pin.base object.pin.line then State.on else State.off
  { s with inputs := Function.update s.inputs d { object with state := state } }

/-- The `irq` of an object has been called. -/
def called (s : Firmware) (d : ℕ) : Firmware := { refresh s d with irqs := s.irqs ++ [d] }

/-- `DigitalInput::read` reads the level of the pin. -/
theorem digitalInputRead_eq (s : Firmware) (d : ℕ) :
    Hal.read s d = .ok (((refresh s d).inputs d).get, refresh s d) := by
  have hread : gpioReadInputDataBit s.io (s.inputs d).pin.base (s.inputs d).pin.pin =
      .ok (level s.io (s.inputs d).pin.base (s.inputs d).pin.line) :=
    gpioReadInputDataBit_eq s.io _ (s.inputs d).pin.line.isLt
  unfold Hal.read
  dsimp only
  rw [hread]
  simp [refresh]

/-- `DigitalInput::irq` does as well. -/
theorem irq_eq (s : Firmware) (d : ℕ) : irq s d = .ok (called s d) := by
  unfold irq
  rw [digitalInputRead_eq]
  rfl

/-- `callIsr` finds the callback of its line. -/
theorem callIsr_eq (s : Firmware) (n : Fin 16) : callIsr s (BIT n) =
    match s.isrVector n with
    | none => .ok (false, s)
    | some d => .ok (true, called s d) := by
  have hfind : (List.finRange 16).find? (fun i => 1#32 <<< i.val = BIT n) = some n := by
    revert n
    decide
  unfold callIsr
  rw [hfind]
  dsimp only
  cases s.isrVector n with
  | none => rfl
  | some d =>
    dsimp only
    rw [irq_eq]
    rfl

/-- What a registration does: everything but the table, whether it succeeds or not. -/
structure Registered (isr : Option ℕ) (pin : Pin) (s : Firmware) (b : Bool) (s' : Firmware) :
    Prop where
  free : b = true ↔ s.isrVector pin.line = none
  vector : s'.isrVector = if b then Function.update s.isrVector pin.line isr else s.isrVector
  line : ∀ j, s'.io.exti.line j =
    if j = pin.line then enabledLine (s.io.exti.line j) else s.io.exti.line j
  port : ∀ m < 16, extiPort s'.io m = if m = pin.line then pin.base.val else extiPort s.io m
  routed : Routed s.io → Routed s'.io
  level : ∀ p, (s'.io.gpio p).inputs = (s.io.gpio p).inputs
  inputs : s'.inputs = s.inputs
  handler : s'.handler = s.handler

/-- **A registration returns.** -/
theorem registerInt_returns (clkEnabled : Bool) (isr : Option ℕ) (pin : Pin)
    (hports : ∀ m < 16, extiPort s.io m < GPIO_COUNT) :
    Returns (registerInt clkEnabled s isr pin) fun r => Registered isr pin s r.1 r.2 := by
  have hsrc : (pin.port - 0x41#8).toNat = pin.base := by
    obtain ⟨h₁, h₂⟩ := pin.port_ok
    rw [BitVec.toNat_sub_of_le (by rw [BitVec.le_def]; exact h₁)]
    rfl
  have hbase : (pin.port - 0x41#8).toNat < GPIO_COUNT := by rw [hsrc]; exact pin.base.isLt
  refine .bind (gpioEXTILineConfig_returns clkEnabled hports hbase pin.pinNumber_lt)
    fun io₁ h₁ => ?_
  rw [hsrc] at h₁
  refine .bind (extiClearITPendingBit_returns pin.pinNumber_lt) fun io₂ h₂ => ?_
  refine .bind (P := ActsLine pin.line enabledLine io₁) (extiInit_returns pin.pinNumber_lt h₂)
    fun io₃ h₃ => ?_
  have hline : ∀ j, io₃.exti.line j =
      if j = pin.line then enabledLine (s.io.exti.line j) else s.io.exti.line j := fun j => by
    rw [h₃.line, h₁.same.exti]
    split_ifs with hj
    · rw [hj]
    · rfl
  have hport : ∀ m, extiPort io₃ m = extiPort io₁ m := fun m => by
    rw [extiPort, h₃.afio]
    rfl
  have hrouted : Routed s.io → Routed io₃ := fun h =>
    (h₁.routed h).of_eq (fun p => by rw [h₃.gpio]) h₃.afio
  have hlevel : ∀ p, (io₃.gpio p).inputs = (s.io.gpio p).inputs := fun p => by
    rw [h₃.gpio]
    exact h₁.same.inputs p
  dsimp only
  split_ifs with hfree
  · exact .pure
      ⟨by simp [hfree], rfl, hline, fun m hm => (hport m).trans (h₁.port m hm), hrouted,
      hlevel, rfl, rfl⟩
  · exact .pure ⟨by simpa using hfree, rfl, hline, fun m hm => (hport m).trans (h₁.port m hm),
      hrouted, hlevel, rfl, rfl⟩

/-! ### What holds in every state -/

/-- The lines are routed to ports that exist, and those that are taken are unmasked
and sensitive to both edges. -/
structure Firmware.Ok (s : Firmware) : Prop where
  routed : Routed s.io
  ports : ∀ m < 16, extiPort s.io m < GPIO_COUNT
  enabled : ∀ n : Fin 16, s.isrVector n ≠ none → (s.io.exti.line n).imr = true ∧
    (s.io.exti.line n).rtsr = true ∧ (s.io.exti.line n).ftsr = true

/-- After a reset every line is on port A and no line is taken. -/
theorem init_ok (hreset : machineReset Io.alloc = .ok io₀) :
    (Firmware.init io₀ aircr pins).Ok where
  routed := reset_routed (fun _ _ => rfl) hreset
  ports m hm := by
    show extiPort io₀ m < GPIO_COUNT
    rw [reset_extiPort hreset hm]
    decide
  enabled _ h := absurd rfl h

/-- A change of the lines that leaves their masks as they were. -/
theorem Firmware.Ok.of_masks (h : s.Ok) (hrouted : Routed s'.io)
    (hport : ∀ m, extiPort s'.io m = extiPort s.io m)
    (hvector : ∀ n, s'.isrVector n ≠ none → s.isrVector n ≠ none)
    (hmasks : ∀ n, (s'.io.exti.line n).imr = (s.io.exti.line n).imr ∧
      (s'.io.exti.line n).rtsr = (s.io.exti.line n).rtsr ∧
      (s'.io.exti.line n).ftsr = (s.io.exti.line n).ftsr) : s'.Ok where
  routed := hrouted
  ports m hm := by
    rw [hport]
    exact h.ports m hm
  enabled n hn := by
    obtain ⟨himr, hrtsr, hftsr⟩ := hmasks n
    rw [himr, hrtsr, hftsr]
    exact h.enabled n (hvector n hn)

/-- A request keeps the mask and the triggers of a line. -/
theorem masks_apply (l : Line) (r : Option Bool) :
    (l.apply r).imr = l.imr ∧ (l.apply r).rtsr = l.rtsr ∧ (l.apply r).ftsr = l.ftsr := by
  cases r <;> exact ⟨rfl, rfl, rfl⟩

/-- A request for one line. -/
theorem Firmware.Ok.acts {n : ℕ} {r : Option Bool} (h : s.Ok)
    (hio : ActsLine n (fun l => l.apply r) s.io s'.io) (hvector : s'.isrVector = s.isrVector) :
    s'.Ok := by
  refine h.of_masks (h.routed.of_eq (fun p => by rw [hio.gpio]) hio.afio)
    (fun m => by rw [extiPort, hio.afio]; rfl) (fun _ hn => hvector ▸ hn) fun j => ?_
  rw [hio.line]
  split_ifs with hj
  · rw [hj]
    exact masks_apply _ _
  · exact ⟨rfl, rfl, rfl⟩

/-- **A registration keeps the invariant**, whether it succeeds or not. -/
theorem Registered.ok {isr : Option ℕ} {pin : Pin} {b : Bool} (hr : Registered isr pin s b s')
    (h : s.Ok) : s'.Ok where
  routed := hr.routed h.routed
  ports m hm := by
    rw [hr.port m hm]
    split_ifs
    · exact pin.base.isLt
    · exact h.ports m hm
  enabled n hn := by
    rw [hr.line]
    split_ifs with hline
    · exact ⟨rfl, rfl, rfl⟩
    · have hne : n ≠ pin.line := fun h => hline (congrArg Fin.val h)
      refine h.enabled n fun hnone => hn ?_
      rw [hr.vector]
      split_ifs
      · rw [Function.update_of_ne hne, hnone]
      · exact hnone

/-! ### The steps -/

/-- What a step does. -/
inductive Effect (s : Firmware) : Event → Firmware → Prop
  | register {clkEnabled : Bool} {isr : Option ℕ} {pin : Pin} {b : Bool} {s' : Firmware}
      (hidle : s.handler = .idle) (hr : Registered isr pin s b s') :
      Effect s (.registerInt clkEnabled isr pin) s'
  | unregister {pin : Pin} (hidle : s.handler = .idle) :
      Effect s (.unregisterInt pin) (unregisterInt s pin)
  | read {d : ℕ} (hidle : s.handler = .idle) : Effect s (.read d) (refresh s d)
  | enter {h : IrqHandler} (hidle : s.handler = .idle) :
      Effect s (.enter h) { s with handler := .next h.lines }
  | test {line : Fin 16} {rest : List (Fin 16)} (hpc : s.handler = .getITStatus line rest) :
      Effect s .handler { s with
        handler := if (s.io.exti.line line).pr && (s.io.exti.line line).imr then .callIsr line rest
          else .next rest }
  | call {line : Fin 16} {rest : List (Fin 16)} {d : ℕ} (hpc : s.handler = .callIsr line rest)
      (hd : s.isrVector line = some d) :
      Effect s .handler { called s d with handler := .clearITPendingBit line rest }
  | clear {line : Fin 16} {rest : List (Fin 16)} {io : Io}
      (hpc : s.handler = .clearITPendingBit line rest)
      (hio : ActsLine line (fun l => l.apply (some false)) s.io io) :
      Effect s .handler { s with io := io, handler := .next rest }
  | notify {port : Fin GPIO_COUNT} {n : ℕ} {level : Bool} {io : Io}
      (hio : Notified port n level s.io io) :
      Effect s (.gpioIn port n level) { s with io := io }

/-- What a step of the handler does. -/
theorem handlerStep_effect (hpc : s.handler ≠ .idle) (h : handlerStep s = .ok s') :
    Effect s .handler s' := by
  unfold handlerStep at h
  split at h
  next hidle => exact absurd hidle hpc
  next line rest hpc =>
    rw [extiGetITStatus_eq, ok_bind] at h
    rw [← pure_eq_ok.1 h]
    exact .test hpc
  next line rest hpc =>
    rw [callIsr_eq] at h
    cases hd : s.isrVector line with
    | none =>
      rw [hd] at h
      cases h
    | some d =>
      rw [hd] at h
      rw [← pure_eq_ok.1 h]
      exact .call hpc hd
  next line rest hpc =>
    obtain ⟨io, hio, h⟩ := bind_eq_ok.1 h
    rw [← pure_eq_ok.1 h]
    exact .clear hpc ((extiClearITPendingBit_returns line.isLt).of_eq_ok hio)

/-- A step other than a registration, on routed lines. -/
theorem step_effect_of_routed {e : Event} (hr : Routed s.io)
    (he : ∀ clkEnabled isr pin, e ≠ .registerInt clkEnabled isr pin) (hs : Step s e s') :
    Effect s e s' := by
  obtain ⟨hen, hs⟩ := hs
  cases e with
  | registerInt clkEnabled isr pin => exact absurd rfl (he clkEnabled isr pin)
  | unregisterInt pin =>
    rw [← pure_eq_ok.1 hs]
    exact .unregister (of_decide_eq_true hen)
  | read d =>
    obtain ⟨r, hr, hs⟩ := bind_eq_ok.1 hs
    obtain rfl := Except.ok.inj ((digitalInputRead_eq s d).symm.trans hr)
    obtain rfl := pure_eq_ok.1 hs
    exact .read (of_decide_eq_true hen)
  | enter h =>
    rw [← pure_eq_ok.1 hs]
    exact .enter (of_decide_eq_true hen)
  | handler => exact handlerStep_effect (of_decide_eq_true hen) hs
  | gpioIn port n level =>
    obtain ⟨io, hio, hs⟩ := bind_eq_ok.1 hs
    rw [← pure_eq_ok.1 hs]
    exact .notify (gpioInTrigger_notified hr hio)

/-- **A step** is one of the eight. -/
theorem step_effect {e : Event} (h : s.Ok) (hs : Step s e s') : Effect s e s' := by
  by_cases he : ∃ clkEnabled isr pin, e = .registerInt clkEnabled isr pin
  · obtain ⟨clkEnabled, isr, pin, rfl⟩ := he
    obtain ⟨hen, hs⟩ := hs
    obtain ⟨⟨b, u⟩, hu, hs⟩ := bind_eq_ok.1 hs
    rw [← pure_eq_ok.1 hs]
    exact .register (of_decide_eq_true hen)
      ((registerInt_returns clkEnabled isr pin h.ports).of_eq_ok hu)
  · exact step_effect_of_routed h.routed (fun c i p heq => he ⟨c, i, p, heq⟩) hs

/-- **A step** keeps what holds in every state. -/
theorem Effect.ok {e : Event} (he : Effect s e s') (h : s.Ok) : s'.Ok := by
  cases he with
  | register _ hr => exact hr.ok h
  | @unregister pin _ =>
    refine h.of_masks h.routed (fun _ => rfl) (fun n hn hnone => hn ?_) fun _ => ⟨rfl, rfl, rfl⟩
    rcases eq_or_ne n pin.line with rfl | hne
    · exact Function.update_self ..
    · exact (Function.update_of_ne hne ..).trans hnone
  | read => exact ⟨h.routed, h.ports, h.enabled⟩
  | enter => exact ⟨h.routed, h.ports, h.enabled⟩
  | test => exact ⟨h.routed, h.ports, h.enabled⟩
  | call => exact ⟨h.routed, h.ports, h.enabled⟩
  | clear _ hio => exact h.acts hio rfl
  | notify hio =>
    refine h.of_masks hio.routed hio.port (fun _ hn => hn) fun j => ?_
    dsimp only
    rw [hio.line]
    split_ifs
    · exact masks_apply _ _
    · exact ⟨rfl, rfl, rfl⟩

/-- **Every state** has it. -/
theorem run_ok {l : List Event} (hreset : machineReset Io.alloc = .ok io₀)
    (hrun : Run Step (Firmware.init io₀ aircr pins) l s) : s.Ok :=
  hrun.invariant (fun _ _ _ h hs => (step_effect h hs).ok h) (init_ok hreset)

end Hal
end Especial
