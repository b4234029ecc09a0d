/-
# The buttons of the board

A frame of the monitor sets the level of one of four buttons, which are inputs of
`GPIOC` (`stm32_p103_init`).  `stm32_gpio_in_trigger` stores the level and passes it on
to the EXTI controller, also if it is the level that was stored already; the controller
assumes "that this handler will only be called if the pin actually changed state" and
takes every call for an edge.

`edges_are_changes_iff` says that this is the only source of edges that are none: a
pending bit is set by a notification on the pin of its line, and by nothing else.
-/

import Especial.Afio.Resets
import Especial.Emul.Events
import Especial.Exti.Writes

namespace Especial
namespace Emul

open Qemu Stm32 Lib Gpio Exti Afio

/-- The input of a button, in `stm32_p103_init`. -/
def BtnIrq.pin : BtnIrq → ℕ
  | .btn0 => 6
  | .btn1 => 0
  | .btn2 => 1
  | .btn3 => 2

/-- What the event thread does to the inputs: `qemu_set_irq(btIrq, btValue)`. -/
def Action.event : Action → Option Afio.Event
  | .setIrq button level => some (.gpioIn portC button.pin (level ≠ 0#8))
  | .ack => none

/-- What happens to the inputs and the devices: a frame of the monitor, or something
else. -/
inductive Stimulus
  | frame (bytes : List (BitVec 8))
  | event (e : Afio.Event)

/-- The events of a stimulus. -/
def Stimulus.events : Stimulus → List Afio.Event
  | .frame bytes => (decode bytes).filterMap Action.event
  | .event e => [e]

/-- It is no software event, and no reset of the AFIO. -/
def Quiet (e : Afio.Event) : Prop := e ≠ .afioReset ∧ ∀ v, e ≠ .extiWrite 0x10 v

variable {io io' : Io} {e : Afio.Event} {n : ℕ}

/-- The line is unmasked and sensitive to both edges. -/
def Armed (io : Io) (n : ℕ) : Prop :=
  io.exti.IMR.getLsbD n = true ∧ io.exti.RTSR.getLsbD n = true ∧ io.exti.FTSR.getLsbD n = true

/-- The event is a notification on the pin that the line is connected to, with a level
that differs from the one in the input register. -/
def IsChange (io : Io) (e : Afio.Event) (n : ℕ) : Prop :=
  ∃ port level, e = .gpioIn port n level ∧ extiPort io n = port ∧
    (io.gpio port).inputs.getLsbD n ≠ level

/-- A notification on the pin of an armed line that is not pending has a new level. -/
def NewLevel (io : Io) (e : Afio.Event) : Prop :=
  ∀ port n level, e = .gpioIn port n level → n < 16 → extiPort io n = port → Armed io n →
    io.exti.PR.getLsbD n = false → (io.gpio port).inputs.getLsbD n ≠ level

/-- **A pending bit is set** by a notification on the pin of its line and by nothing
else. -/
theorem step_sets_pending (hr : Routed io) (he : Quiet e) (hs : Afio.Step io e io') (hn : n < 16)
    (h₀ : (io.exti.line n).pr = false) (h₁ : (io'.exti.line n).pr = true) :
    ∃ port level, e = .gpioIn port n level ∧ extiPort io n = port := by
  -- a step that leaves the controller as it is sets nothing
  have hkept : io'.exti = io.exti → False := fun h => by
    rw [h, h₀] at h₁
    exact absurd h₁ (by decide)
  cases e with
  | afioWrite clkEnabled offset value => exact (hkept (write_sameInputs hs).exti).elim
  | afioReset => exact absurd rfl he.1
  | extiWrite offset value =>
    obtain ⟨exti, hw, hs⟩ := bind_eq_ok.1 hs
    rw [← pure_eq_ok.1 hs] at h₁
    have hline : (exti.line n).pr = true := h₁
    rw [write_line hw n, Line.write_pr _ (by omega)] at hline
    -- of all requests only that of a software event sets the bit
    have hreq : (io.exti.line n).request offset (value.getLsbD n) ≠ some true := by
      unfold Line.request
      split
      · exact fun h => absurd (Line.eq_of_tsrRequest h) (by decide)
      · exact fun h => absurd (Line.eq_of_tsrRequest h) (by decide)
      · exact absurd rfl (he.2 value)
      · exact fun h => absurd (Line.eq_of_prRequest h) (by decide)
      · nofun
    rcases hr' : (io.exti.line n).request offset (value.getLsbD n) with _ | _ | _
    · rw [hr'] at hline
      exact absurd (h₀.symm.trans hline) (by decide)
    · rw [hr'] at hline
      exact absurd hline Bool.false_ne_true
    · exact absurd hr' hreq
  | extiReset =>
    rw [← pure_eq_ok.1 hs] at h₁
    simp [Exti.reset, Stm32Exti.line] at h₁
  | gpioWrite port clkEnabled offset value =>
    obtain ⟨g, hg, hs⟩ := bind_eq_ok.1 hs
    exact (hkept (by rw [← pure_eq_ok.1 hs])).elim
  | gpioReset port => exact (hkept (by rw [← pure_eq_ok.1 hs])).elim
  | gpioIn port pin level =>
    have hline := (gpioInTrigger_notified hr hs).line n
    split_ifs at hline with hpin
    · obtain ⟨rfl, hport⟩ := hpin
      exact ⟨port, level, rfl, hport⟩
    · rw [hline, h₀] at h₁
      exact absurd h₁ (by decide)

/-- A notification on the pin of an armed line makes it pending. -/
theorem notification_sets_pending {port : Fin GPIO_COUNT} {level : Bool} (hr : Routed io)
    (hs : Afio.Step io (.gpioIn port n level) io') (hport : extiPort io n = port)
    (harmed : Armed io n) : (io'.exti.line n).pr = true := by
  obtain ⟨himr, hrtsr, hftsr⟩ := harmed
  have hreq : (io.exti.line n).edgeRequest level = some true := by
    rw [edgeRequest_eq_ite, if_pos]
    cases level
    · exact ⟨himr, hftsr⟩
    · exact ⟨himr, hrtsr⟩
  rw [(gpioInTrigger_notified hr hs).line n, if_pos ⟨rfl, hport⟩, hreq]
  rfl

/-- **A step** sets pending bits of armed lines at real changes only, exactly if it is no
notification that repeats the stored level. -/
theorem step_isChange_iff (hr : Routed io) (he : Quiet e) (hs : Afio.Step io e io') :
    (∀ n < 16, Armed io n → io.exti.PR.getLsbD n = false → io'.exti.PR.getLsbD n = true →
      IsChange io e n) ↔ NewLevel io e := by
  constructor
  · rintro hall port n level rfl hn hport harmed h₀
    obtain ⟨port', level', heq, -, hne⟩ :=
      hall n hn harmed h₀ (notification_sets_pending hr hs hport harmed)
    obtain ⟨rfl, -, rfl⟩ := Afio.Event.gpioIn.inj heq
    exact hne
  · intro hnew n hn harmed h₀ h₁
    obtain ⟨port, level, rfl, hport⟩ := step_sets_pending hr he hs hn h₀ h₁
    exact ⟨port, level, rfl, hport, hnew port n level rfl hn hport harmed h₀⟩

/-- **Edges are changes.**  For every sequence of monitor frames, notifications on the
pins and accesses to the registers other than software events: the pending bit of a line
that is unmasked and sensitive to both edges is set only at a notification on its pin
whose level differs from the stored one, if and only if no notification on the pin of
such a line, when it is not pending, repeats the stored level. -/
theorem edges_are_changes_iff (io₀ io : Io) (l : List Stimulus)
    (hreset : machineReset Io.alloc = .ok io₀) (hl : ∀ x ∈ l, ∀ e ∈ x.events, Quiet e)
    (hrun : Run Afio.Step io₀ (l.flatMap Stimulus.events) io) :
    (∀ l₁ e u v, l₁ ++ [e] <+: l.flatMap Stimulus.events → Run Afio.Step io₀ l₁ u →
      Afio.Step u e v → ∀ n < 16, Armed u n → u.exti.PR.getLsbD n = false →
        v.exti.PR.getLsbD n = true → IsChange u e n) ↔
      Run (Guarded Afio.Step NewLevel) io₀ (l.flatMap Stimulus.events) io := by
  have hquiet : ∀ e ∈ l.flatMap Stimulus.events, Quiet e := fun e he => by
    obtain ⟨x, hx, he⟩ := List.mem_flatMap.1 he
    exact hl x hx e he
  rw [hrun.guarded_iff Afio.step_det]
  have hrouted : ∀ {l₁ u}, l₁ <+: l.flatMap Stimulus.events →
      Run Afio.Step io₀ l₁ u → Routed u :=
    fun hl₁ hu => run_routed hreset (fun e he => (hquiet e (hl₁.subset he)).1) hu
  constructor
  · intro hall l₁ e u hl₁ hu
    obtain ⟨l₂, hl₂⟩ := hl₁
    have hrun' := hrun
    rw [← hl₂, Run.append_iff] at hrun'
    obtain ⟨v, hv, -⟩ := hrun'
    obtain ⟨u', hu', hstep⟩ := Run.snoc_iff.1 hv
    obtain rfl := hu.unique Afio.step_det hu'
    have hl₁ : l₁ ++ [e] <+: l.flatMap Stimulus.events := ⟨l₂, hl₂⟩
    refine (step_isChange_iff (hrouted ((List.prefix_append _ _).trans hl₁) hu) ?_ hstep).1
      (hall l₁ e u v hl₁ hu hstep)
    exact hquiet e (hl₁.subset (by simp))
  · intro hall l₁ e u v hl₁ hu hstep
    refine (step_isChange_iff (hrouted ((List.prefix_append _ _).trans hl₁) hu) ?_ hstep).2
      (hall l₁ e u hl₁ hu)
    exact hquiet e (hl₁.subset (by simp))

/-- Line 0 is connected to port C, unmasked and sensitive to both edges. -/
def armC0 : List Stimulus :=
  [.event (.afioWrite true 0x08 0x2), .event (.extiWrite 0x00 0x1), .event (.extiWrite 0x08 0x1),
    .event (.extiWrite 0x0c 0x1)]

/-- Arming line 0 is no software event and no reset of the AFIO. -/
theorem armC0_quiet : ∀ x ∈ armC0, ∀ e ∈ x.events, Quiet e := by
  intro x hx e he
  simp only [armC0, List.mem_cons, List.not_mem_nil, or_false] at hx
  rcases hx with rfl | rfl | rfl | rfl <;>
    (obtain rfl := List.mem_singleton.1 he; exact ⟨by simp, by simp⟩)

/-- Arming line 0 notifies no input. -/
theorem armC0_silent : ∀ e ∈ armC0.flatMap Stimulus.events, ∀ port n level,
    e ≠ .gpioIn port n level := by
  simp [armC0, Stimulus.events]

/-- The monitor sends that button 1 is pressed. -/
def pressed : Stimulus := .frame [0x56#8, 0x00#8, 0x01#8, 0x01#8]

/-- The monitor sends that button 1 is released. -/
def released : Stimulus := .frame [0x56#8, 0x00#8, 0x01#8, 0x00#8]

/-- The frame of a press raises `PC.0`. -/
theorem events_pressed : pressed.events = [.gpioIn portC 0 true] := by decide

/-- The frame of a release lowers `PC.0`. -/
theorem events_released : released.events = [.gpioIn portC 0 false] := by decide

/-- The devices with line 0 armed. -/
theorem exists_armC0 : ∃ io₀ u, machineReset Io.alloc = .ok io₀ ∧
    Run Afio.Step io₀ (armC0.flatMap Stimulus.events) u ∧ Armed u 0 ∧
    extiPort u 0 = portC ∧ u.exti.PR.getLsbD 0 = false ∧
    (u.gpio portC).inputs.getLsbD 0 = false :=
  ⟨_, _, rfl, .cons rfl (.cons rfl (.cons rfl (.cons rfl (.nil _)))), ⟨rfl, rfl, rfl⟩,
    rfl, rfl, rfl⟩

/-- A notification is no software event and no reset of the AFIO. -/
theorem quiet_gpioIn (port : Fin GPIO_COUNT) (n : ℕ) (level : Bool) :
    Quiet (.gpioIn port n level) := ⟨nofun, nofun⟩

/-- The button is pressed: a real change. -/
theorem edges_are_changes_pressed : ∃ io₀ u v, machineReset Io.alloc = .ok io₀ ∧
    Run Afio.Step io₀ (armC0.flatMap Stimulus.events) u ∧ Armed u 0 ∧
    Afio.Step u (.gpioIn portC 0 true) v ∧ u.exti.PR.getLsbD 0 = false ∧
    v.exti.PR.getLsbD 0 = true ∧ IsChange u (.gpioIn portC 0 true) 0 := by
  obtain ⟨io₀, u, hreset, hu, harmed, hport, hpr, hlow⟩ := exists_armC0
  have hrouted : Routed u := run_routed hreset (by decide) hu
  obtain ⟨v, hv⟩ : ∃ v, Afio.Step u (.gpioIn portC 0 true) v :=
    hrouted.gpioInTrigger_returns portC (by decide) true
  have hset := notification_sets_pending hrouted hv hport harmed
  have hflat : (armC0 ++ [pressed]).flatMap Stimulus.events =
      armC0.flatMap Stimulus.events ++ [.gpioIn portC 0 true] := by
    rw [List.flatMap_append, List.flatMap_singleton, events_pressed]
  have hquiet : ∀ x ∈ armC0 ++ [pressed], ∀ e ∈ x.events, Quiet e := by
    intro x hx e he
    rcases List.mem_append.1 hx with hx | hx
    · exact armC0_quiet x hx e he
    · rw [List.mem_singleton.1 hx, events_pressed] at he
      rw [List.mem_singleton.1 he]
      exact quiet_gpioIn portC 0 true
  have hguarded : Run (Guarded Afio.Step NewLevel) io₀
      ((armC0 ++ [pressed]).flatMap Stimulus.events) v := by
    rw [hflat]
    refine Run.snoc_iff.2
      ⟨u, (hu.guarded_of_forall armC0_silent).mono fun _ _ _ h => ⟨h.1, ?_⟩, hv, ?_⟩
    · rintro port n level rfl
      exact absurd rfl (h.2 port n level)
    · intro port n level heq _ _ _ _
      obtain ⟨rfl, rfl, rfl⟩ := Afio.Event.gpioIn.inj heq
      rw [hlow]
      decide
  refine ⟨io₀, u, v, hreset, hu, harmed, hv, hpr, hset, ?_⟩
  have hall := (edges_are_changes_iff io₀ v (armC0 ++ [pressed]) hreset hquiet
    (hguarded.mono fun _ _ _ h => h.1)).2 hguarded
  exact hall _ _ u v (by rw [hflat]) hu hv 0 (by decide) harmed hpr hset

/-- The monitor sends that the button is released, which it was before: it makes the line
pending. -/
theorem edges_are_changes_released : ∃ io₀ u v, machineReset Io.alloc = .ok io₀ ∧
    Run Afio.Step io₀ (armC0.flatMap Stimulus.events) u ∧ Armed u 0 ∧
    released.events = [.gpioIn portC 0 false] ∧ Afio.Step u (.gpioIn portC 0 false) v ∧
    u.exti.PR.getLsbD 0 = false ∧ v.exti.PR.getLsbD 0 = true ∧
    ¬IsChange u (.gpioIn portC 0 false) 0 := by
  obtain ⟨io₀, u, hreset, hu, harmed, hport, hpr, hlow⟩ := exists_armC0
  have hrouted : Routed u := run_routed hreset (by decide) hu
  obtain ⟨v, hv⟩ : ∃ v, Afio.Step u (.gpioIn portC 0 false) v :=
    hrouted.gpioInTrigger_returns portC (by decide) false
  refine ⟨io₀, u, v, hreset, hu, harmed, events_released, hv, hpr,
    notification_sets_pending hrouted hv hport harmed, ?_⟩
  rintro ⟨port, level, heq, -, hne⟩
  obtain ⟨rfl, -, rfl⟩ := Afio.Event.gpioIn.inj heq
  exact hne hlow

end Emul
end Especial
