/-
# What a change of an input does

Every state since the first reset has its lines routed (`run_routed`).  So
`gpio_in_delivers` says what a change of an input does, across the port, the AFIO and
the EXTI controller.
-/

import Especial.Afio.Routing

namespace Especial
namespace Afio

open Qemu Stm32 Lib Gpio Exti

variable {io io' : Io} {n : ℕ}

/-! ### Every event keeps the lines routed -/

/-- The routing invariant is about the AFIO and the links of the ports only. -/
theorem Routed.of_eq (h : Routed io) (hgpio : ∀ p, (io'.gpio p).inIrq = (io.gpio p).inIrq)
    (hafio : io'.afio = io.afio) : Routed io' := by
  intro n hn p
  have hport : (route io' n).port = (route io n).port := by
    show extiPort io' n = extiPort io n
    rw [extiPort, hafio]
    rfl
  have hirq : (route io' n).inIrq p = (route io n).inIrq p := congrFun (hgpio p) n
  rw [hport, hirq]
  exact h n hn p

/-- A port that keeps its links keeps the links of all ports. -/
theorem inIrq_update {port : Fin GPIO_COUNT} {g : Stm32Gpio} (hg : g.inIrq = (io.gpio port).inIrq)
    (p : Fin GPIO_COUNT) : (Function.update io.gpio port g p).inIrq = (io.gpio p).inIrq := by
  rcases eq_or_ne p port with rfl | hp
  · rw [Function.update_self, hg]
  · rw [Function.update_of_ne hp]

/-- What `stm32_gpio_in_trigger` does: the input register changes, and the EXTI
controller is told if the line is connected. -/
theorem gpioInTrigger_eq {port : Fin GPIO_COUNT} {level : Bool}
    (h : gpioInTrigger io port n level = .ok io') : n < 16 ∧
      ∃ exti, (match (io.gpio port).inIrq n with
        | none => exti = io.exti
        | some m => gpioInHandler io.exti m level = .ok exti) ∧
      io' = { io with
        gpio := Function.update io.gpio port (setInput (io.gpio port) n level), exti := exti } := by
  unfold gpioInTrigger at h
  obtain ⟨_, hn, h⟩ := bind_eq_ok.1 h
  refine ⟨of_decide_eq_true (assert_eq_ok.1 hn), ?_⟩
  have hirq : (Function.update io.gpio port (setInput (io.gpio port) n level) port).inIrq n =
      (io.gpio port).inIrq n := by rw [Function.update_self]; rfl
  dsimp only at h
  rw [hirq] at h
  cases hm : (io.gpio port).inIrq n with
  | none =>
    rw [hm] at h
    exact ⟨io.exti, rfl, (pure_eq_ok.1 h).symm⟩
  | some m =>
    rw [hm] at h
    obtain ⟨exti, hexti, h⟩ := bind_eq_ok.1 h
    exact ⟨exti, hexti, (pure_eq_ok.1 h).symm⟩

/-- It returns if the line is connected to its own input or to nothing. -/
theorem gpioInTrigger_returns {port : Fin GPIO_COUNT}
    (h : ∀ m, (io.gpio port).inIrq n = some m → m = n)
    (hn : n < 16) (level : Bool) : ∃ io', gpioInTrigger io port n level = .ok io' := by
  have hassert : assert (n < PIN_COUNT) "pin < STM32_GPIO_PIN_COUNT" = .ok () :=
    assert_eq_ok.2 (decide_eq_true hn)
  have hirq : (Function.update io.gpio port (setInput (io.gpio port) n level) port).inIrq n =
      (io.gpio port).inIrq n := by rw [Function.update_self]; rfl
  unfold gpioInTrigger
  rw [hassert, ok_bind]
  dsimp only
  rw [hirq]
  cases hm : (io.gpio port).inIrq n with
  | none => exact ⟨_, rfl⟩
  | some m =>
    obtain rfl := h m hm
    obtain ⟨exti, hexti⟩ := gpioInHandler_returns hn
    dsimp only
    rw [hexti]
    exact ⟨_, rfl⟩

/-- So it returns on routed lines. -/
theorem Routed.gpioInTrigger_returns (h : Routed io) (port : Fin GPIO_COUNT) (hn : n < 16)
    (level : Bool) : ∃ io', gpioInTrigger io port n level = .ok io' := by
  refine Afio.gpioInTrigger_returns (fun m hm => ?_) hn level
  have hirq : (io.gpio port).inIrq n = if port.val = extiPort io n then some n else none :=
    h n hn port
  rw [hirq] at hm
  split_ifs at hm
  exact (Option.some.inj hm).symm

/-- What a change of an input does: the line of the pin gets an edge if it is
connected to the port, and the level of the pin changes. -/
structure Notified (port : Fin GPIO_COUNT) (n : ℕ) (level : Bool) (io io' : Io) : Prop where
  line : ∀ j, io'.exti.line j = if j = n ∧ extiPort io n = port
    then (io.exti.line j).apply ((io.exti.line j).edgeRequest level) else io.exti.line j
  input : ∀ p j, (io'.gpio p).inputs.getLsbD j =
    if p = port ∧ j = n then level else (io.gpio p).inputs.getLsbD j
  routed : Routed io'
  port : ∀ m, extiPort io' m = extiPort io m

/-- **A change of an input**, on routed lines. -/
theorem gpioInTrigger_notified {port : Fin GPIO_COUNT} {level : Bool} (hr : Routed io)
    (h : gpioInTrigger io port n level = .ok io') : Notified port n level io io' := by
  obtain ⟨hn, exti, hexti, rfl⟩ := gpioInTrigger_eq h
  refine ⟨fun j => ?_, fun p j => ?_, hr.of_eq (inIrq_update rfl) rfl, fun _ => rfl⟩
  · have hirq : (io.gpio port).inIrq n = if port.val = extiPort io n then some n else none :=
      hr n hn port
    rcases eq_or_ne port.val (extiPort io n) with hport | hport
    · rw [hirq, if_pos hport] at hexti
      have hline := (gpioInHandler_acts hexti).2.view_eq j
      rcases eq_or_ne j n with rfl | hj
      · rw [if_pos ⟨rfl, hport.symm⟩]
        rwa [if_pos rfl] at hline
      · rw [if_neg fun h => hj h.1]
        rwa [if_neg hj] at hline
    · rw [hirq, if_neg hport] at hexti
      obtain rfl : exti = io.exti := hexti
      rw [if_neg fun hj => hport hj.2.symm]
  · rcases eq_or_ne p port with rfl | hp
    · dsimp only
      rw [Function.update_self]
      simp only [true_and]
      exact getLsbD_writeBit (io.gpio p).inputs hn level j
    · dsimp only
      rw [Function.update_of_ne hp, if_neg fun hj => hp hj.1]

/-- **A step** other than a reset of the AFIO keeps the lines routed. -/
theorem step_routed {e : Event} (h : Routed io) (he : e ≠ .afioReset) (hs : Step io e io') :
    Routed io' := by
  cases e with
  | afioWrite clkEnabled offset value => exact write_routed h hs
  | afioReset => exact absurd rfl he
  | extiWrite offset value =>
    obtain ⟨exti, -, hs⟩ := bind_eq_ok.1 hs
    rw [← pure_eq_ok.1 hs]
    exact h
  | extiReset =>
    rw [← pure_eq_ok.1 hs]
    exact h
  | gpioWrite port clkEnabled offset value =>
    obtain ⟨g, hg, hs⟩ := bind_eq_ok.1 hs
    rw [← pure_eq_ok.1 hs]
    exact h.of_eq (inIrq_update (write_inIrq hg)) rfl
  | gpioReset port =>
    rw [← pure_eq_ok.1 hs]
    exact h.of_eq (inIrq_update rfl) rfl
  | gpioIn port pin level =>
    obtain ⟨-, exti, -, rfl⟩ := gpioInTrigger_eq hs
    exact h.of_eq (inIrq_update rfl) rfl

/-- **Every state** since the first reset, without another reset of the AFIO, has its
lines routed. -/
theorem run_routed {io₀ : Io} {l : List Event} (hreset : machineReset Io.alloc = .ok io₀)
    (hl : ∀ e ∈ l, e ≠ .afioReset) (hrun : Run Step io₀ l io) : Routed io := by
  have h₀ : Routed io₀ := reset_routed (fun _ _ => rfl) hreset
  exact (hrun.guarded_of_forall hl).invariant (fun _ _ _ h hs => step_routed h hs.2 hs.1) h₀

/-! ### Delivery of an edge -/

/-- An edge on a pin reaches the pending register: its line is connected to the
port, unmasked, and sensitive to the edge. -/
def Reaches (io : Io) (port : Fin GPIO_COUNT) (n : ℕ) (level : Bool) : Prop :=
  extiPort io n = port ∧ io.exti.IMR.getLsbD n = true ∧
    (if level then io.exti.RTSR else io.exti.FTSR).getLsbD n = true

instance (io : Io) (port : Fin GPIO_COUNT) (n : ℕ) (level : Bool) :
    Decidable (Reaches io port n level) := by
  unfold Reaches
  infer_instance

/-- An edge asks for the pending bit of an unmasked line that is sensitive to it, and of no
other. -/
theorem edgeRequest_eq_ite (s : Stm32Exti) (n : ℕ) (level : Bool) : (s.line n).edgeRequest level =
    if s.IMR.getLsbD n = true ∧ (if level then s.RTSR else s.FTSR).getLsbD n = true then some true
    else none := by
  have hsel : (if level then s.RTSR else s.FTSR).getLsbD n =
      if level then (s.line n).rtsr else (s.line n).ftsr := by
    cases level <;> rfl
  rw [hsel, show s.IMR.getLsbD n = (s.line n).imr from rfl, Line.edgeRequest]
  generalize (if level then (s.line n).rtsr else (s.line n).ftsr) = e
  cases e <;> cases (s.line n).imr <;> rfl

/-- The pending bits after a change of an input. -/
theorem Notified.pr_iff {port : Fin GPIO_COUNT} {level : Bool}
    (h : Notified port n level io io') (j : ℕ) :
    (io'.exti.line j).pr = true ↔ (io.exti.line j).pr = true ∨
    j = n ∧ Reaches io port n level := by
  rw [h.line j]
  by_cases hj : j = n ∧ extiPort io n = port
  · obtain ⟨rfl, hport⟩ := hj
    rw [if_pos ⟨rfl, hport⟩, edgeRequest_eq_ite]
    by_cases hreq : io.exti.IMR.getLsbD j = true ∧
        (if level then io.exti.RTSR else io.exti.FTSR).getLsbD j = true
    · rw [if_pos hreq]
      exact iff_of_true rfl (.inr ⟨rfl, hport, hreq⟩)
    · rw [if_neg hreq]
      exact ⟨.inl, fun hor => hor.resolve_right fun h => hreq h.2.2⟩
  · rw [if_neg hj]
    exact ⟨.inl, fun hor => hor.resolve_right fun h => hj ⟨h.1, h.2.1⟩⟩

/-- The masks after a change of an input. -/
theorem Notified.imr_eq {port : Fin GPIO_COUNT} {level : Bool}
    (h : Notified port n level io io') (j : ℕ) :
    (io'.exti.line j).imr = (io.exti.line j).imr := by
  rw [h.line j]
  split_ifs
  · cases (io.exti.line j).edgeRequest level <;> rfl
  · rfl

/-- An edge that the line takes. -/
theorem gpioInHandler_set {s t : Stm32Exti} {level : Bool} (h : gpioInHandler s n level = .ok t)
    (hreq : (s.line n).edgeRequest level = some true) : t.PR.getLsbD n = true ∧
      (s.PR.getLsbD n = false → ∃ k, irqOf n = some k ∧ t.irq = s.irq ++ [(k, true)]) := by
  obtain ⟨hn, hacts⟩ := gpioInHandler_acts h
  obtain ⟨k, hk⟩ := exists_irqOf (by omega : n < 19)
  constructor
  · have hline := hacts.view_eq n
    rw [if_pos rfl, hreq] at hline
    exact congrArg Line.pr hline
  · intro hpr
    have hlog := hacts.log_eq
    have hpr' : ¬(s.line n).pr = true := by rw [show (s.line n).pr = false from hpr]; decide
    dsimp only at hlog
    rw [hreq, Line.drives, if_neg hpr', hk] at hlog
    exact ⟨k, hk, hlog⟩

/-- An edge that the line does not take. -/
theorem gpioInHandler_ignore {s t : Stm32Exti} {level : Bool} (h : gpioInHandler s n level = .ok t)
    (hreq : (s.line n).edgeRequest level = none) :
    t.PR = s.PR ∧ t.SWIER = s.SWIER ∧ t.irq = s.irq := by
  obtain ⟨-, hacts⟩ := gpioInHandler_acts h
  have hline : ∀ j, t.line j = s.line j := fun j => by
    rw [hacts.view_eq j]
    split_ifs with hj
    · rw [hj, hreq]
      rfl
    · rfl
  have hlog := hacts.log_eq
  dsimp only at hlog
  rw [hreq] at hlog
  exact ⟨BitVec.eq_of_getLsbD_eq fun j _ => congrArg Line.pr (hline j),
    BitVec.eq_of_getLsbD_eq fun j _ => congrArg Line.swier (hline j),
    by simpa [Line.drives] using hlog⟩

/-- **Delivery of a change of an input.**  In every state since the first reset, a
call of `stm32_gpio_in_trigger` returns; it sets the bit of the pin in the input
register; if the edge reaches the pending register, the pending bit is set, and the
NVIC line is driven high if it was not; otherwise the pending and software event
registers and all NVIC lines stay; and no other pending bit, no other bit of the
input register and no other port's input register changes. -/
theorem gpio_in_delivers (io₀ io : Io) (l : List Event) (port : Fin GPIO_COUNT) (n : ℕ)
    (level : Bool) (hreset : machineReset Io.alloc = .ok io₀) (hl : ∀ e ∈ l, e ≠ .afioReset)
    (hrun : Run Step io₀ l io) (hn : n < 16) :
    ∃ io', gpioInTrigger io port n level = .ok io' ∧
      (∀ j, (io'.gpio port).inputs.getLsbD j =
        if j = n then level else (io.gpio port).inputs.getLsbD j) ∧
      (if Reaches io port n level then io'.exti.PR.getLsbD n = true ∧
          (io.exti.PR.getLsbD n = false →
            ∃ k, irqOf n = some k ∧ io'.exti.irq = io.exti.irq ++ [(k, true)])
        else io'.exti.PR = io.exti.PR ∧ io'.exti.SWIER = io.exti.SWIER ∧
          io'.exti.irq = io.exti.irq) ∧
      (∀ j, j ≠ n → io'.exti.PR.getLsbD j = io.exti.PR.getLsbD j) ∧
      (∀ q, q ≠ port → (io'.gpio q).inputs = (io.gpio q).inputs) := by
  have hrouted := run_routed hreset hl hrun
  have hirq : (io.gpio port).inIrq n = if port.val = extiPort io n then some n else none :=
    hrouted n hn port
  obtain ⟨io', hio'⟩ := hrouted.gpioInTrigger_returns port hn level
  have hno := gpioInTrigger_notified hrouted hio'
  refine ⟨io', hio', fun j => ?_, ?_, fun j hj => ?_, fun q hq => ?_⟩
  · rw [hno.input]
    simp only [true_and]
  · obtain ⟨-, exti, hexti, rfl⟩ := gpioInTrigger_eq hio'
    rcases eq_or_ne port.val (extiPort io n) with hport | hport
    · rw [hirq, if_pos hport] at hexti
      have hreq := edgeRequest_eq_ite io.exti n level
      split_ifs with hreach
      · rw [if_pos hreach.2] at hreq
        exact gpioInHandler_set hexti hreq
      · rw [if_neg fun h => hreach ⟨hport.symm, h⟩] at hreq
        exact gpioInHandler_ignore hexti hreq
    · rw [hirq, if_neg hport] at hexti
      obtain rfl : exti = io.exti := hexti
      rw [if_neg fun hreach => hport hreach.1.symm]
      exact ⟨rfl, rfl, rfl⟩
  · have hline := hno.line j
    rw [if_neg fun h => hj h.1] at hline
    exact congrArg Line.pr hline
  · refine BitVec.eq_of_getLsbD_eq fun j _ => ?_
    rw [hno.input, if_neg fun h => hq h.1]

/-- `GPIOC`. -/
def portC : Fin GPIO_COUNT := ⟨2, by decide⟩

/-- Line 3 is connected to port C, unmasked and sensitive to rising edges. -/
def routeC3 : List Event :=
  [.afioWrite true 0x08 0x2000, .extiWrite 0x00 0x8, .extiWrite 0x08 0x8]

/-- A rising edge on `PC.3` makes it pending. -/
theorem gpio_in_delivers_c3 : ∃ io₀ io io', machineReset Io.alloc = .ok io₀ ∧
    Run Step io₀ routeC3 io ∧ gpioInTrigger io portC 3 true = .ok io' ∧
    io.exti.PR.getLsbD 3 = false ∧ io'.exti.PR.getLsbD 3 = true ∧ io'.exti.level 3 = true := by
  have hall : ∃ io₀ io, machineReset Io.alloc = .ok io₀ ∧ Run Step io₀ routeC3 io ∧
      Reaches io portC 3 true ∧ io.exti.PR.getLsbD 3 = false :=
    ⟨_, _, rfl, .cons rfl (.cons rfl (.cons rfl (.nil _))), ⟨rfl, rfl, rfl⟩, rfl⟩
  obtain ⟨io₀, io, hreset, hrun, hreach, hpr⟩ := hall
  obtain ⟨io', htrigger, -, hexti, -, -⟩ :=
    gpio_in_delivers io₀ io routeC3 portC 3 true hreset (by decide) hrun (by decide)
  rw [if_pos hreach] at hexti
  obtain ⟨hset, hdrive⟩ := hexti
  obtain ⟨k, hk, hlog⟩ := hdrive hpr
  obtain rfl : 3 = k := Option.some.inj hk
  refine ⟨io₀, io, io', hreset, hrun, htrigger, hpr, hset, ?_⟩
  rw [Stm32Exti.level, hlog, lastLevel_snoc, if_pos rfl]

end Afio
end Especial
