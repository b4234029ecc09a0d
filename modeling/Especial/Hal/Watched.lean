/-
# A registered input, as a signal with a copy and a server

For an input that is registered on the line of its pin: the signal is the pin, the
copy is what `get` returns, the flag is the pending bit, and the server is the call of
`checkLineFlag` for the line.  Every step of the firmware is an action on these
(`view_step`), so that the rules of `Lib.Mirror` apply (`mirrored`).
-/

import Especial.Hal.Effects
import Especial.Lib.Mirror

namespace Especial
namespace Hal

open Qemu Stm32 Lib Gpio Exti Afio

/-! ### What is observed -/

/-- Whether the handler is in the call of `checkLineFlag` for a line: behind the test
of the pending bit, or behind the callback. -/
def HandlerPc.phase (n : Fin 16) : HandlerPc → Phase
  | .callIsr line _ => if line = n then .called else .outside
  | .clearITPendingBit line _ => if line = n then .served else .outside
  | _ => .outside

/-- The call leaves the registration on a line alone. -/
def Event.Spares (n : Fin 16) : Event → Bool
  | .registerInt _ _ pin | .unregisterInt pin => pin.line ≠ n
  | _ => true

/-- Every interleaving of changes of the inputs with the steps of the handlers and
with calls for other lines. -/
def Interleaved (n : Fin 16) : Firmware → Event → Firmware → Prop :=
  Guarded Step fun _ e => e.Spares n = true

/-- The levels of the pin that come with an event. -/
def Pin.levels (pin : Pin) : Event → List Bool
  | .gpioIn port n level => if port = pin.base ∧ n = pin.line then [level] else []
  | _ => []

/-- The handler clears the pending bit of the line. -/
def ClearsPending (n : Fin 16) (s : Firmware) (e : Event) : Prop :=
  e = .handler ∧ s.handler.phase n = .served

instance (n : Fin 16) (s : Firmware) (e : Event) : Decidable (ClearsPending n s e) := by
  unfold ClearsPending
  infer_instance

/-! ### A registered input -/

variable {d : ℕ} {pin : Pin} {s s' : Firmware} {e : Event}

/-- The input is registered on the line of its pin. -/
structure Watched (d : ℕ) (pin : Pin) (s : Firmware) : Prop where
  ok : s.Ok
  vector : s.isrVector pin.line = some d
  port : extiPort s.io pin.line = pin.base
  object : (s.inputs d).pin = pin

/-- The pin, the cached state, the pending bit and the handler. -/
def view (d : ℕ) (pin : Pin) (s : Firmware) : Mirror Bool where
  level := level s.io pin.base pin.line
  copy := (s.inputs d).get
  raised := (s.io.exti.line pin.line).pr
  phase := s.handler.phase pin.line

/-- What an event is to them. -/
def action (d : ℕ) (pin : Pin) (s : Firmware) : Event → Action Bool
  | .gpioIn port n level => if port = pin.base ∧ n = pin.line then .notify level else .stay
  | .read d' => if d' = d then .refresh else .stay
  | .handler =>
    match s.handler with
    | .getITStatus line _ =>
      if line = pin.line ∧ ((s.io.exti.line line).pr && (s.io.exti.line line).imr) = true
      then .call else .stay
    | .callIsr line _ =>
      if line = pin.line then .serve else if s.isrVector line = some d then .refresh else .stay
    | .clearITPendingBit line _ => if line = pin.line then .lower else .stay
    | .idle => .stay
  | _ => .stay

/-- Between two lines the handler is in the call for none. -/
theorem phase_next (n : Fin 16) (rest : List (Fin 16)) :
    (HandlerPc.next rest).phase n = .outside := by
  cases rest <;> rfl

/-- The object that has read its pin. -/
theorem inputs_refresh (s : Firmware) (d : ℕ) : (refresh s d).inputs d = { s.inputs d with
    state := if level s.io (s.inputs d).pin.base (s.inputs d).pin.line then .on else .off } :=
  Function.update_self ..

/-- The others. -/
theorem inputs_refresh_of_ne (s : Firmware) {d d' : ℕ} (hd : d' ≠ d) :
    (refresh s d').inputs d = s.inputs d := Function.update_of_ne hd.symm ..

/-- Reading a pin moves no object. -/
theorem pin_refresh (s : Firmware) (d d' : ℕ) :
    ((refresh s d').inputs d).pin = (s.inputs d).pin := by
  rcases eq_or_ne d' d with rfl | hd
  · rw [inputs_refresh]
  · rw [inputs_refresh_of_ne s hd]

/-- An object that has just read its pin has its level. -/
theorem get_refresh (s : Firmware) (d : ℕ) : ((refresh s d).inputs d).get =
    level s.io (s.inputs d).pin.base (s.inputs d).pin.line := by
  rw [inputs_refresh]
  cases level s.io (s.inputs d).pin.base (s.inputs d).pin.line <;> rfl

/-- **A step** that leaves the registration alone keeps the input registered. -/
theorem Watched.step (h : Watched d pin s) (he : Effect s e s') (hsp : e.Spares pin.line = true) :
    Watched d pin s' := by
  have hok := he.ok h.ok
  cases he with
  | register _ hr =>
    have hne : pin.line ≠ _ := (of_decide_eq_true hsp).symm
    refine ⟨hok, ?_, ?_, ?_⟩
    · rw [hr.vector]
      split_ifs
      · rw [Function.update_of_ne hne]
        exact h.vector
      · exact h.vector
    · rw [hr.port _ pin.line.isLt, if_neg fun heq => hne (Fin.ext heq)]
      exact h.port
    · rw [hr.inputs]
      exact h.object
  | unregister =>
    exact ⟨hok, (Function.update_of_ne (of_decide_eq_true hsp).symm ..).trans h.vector,
      h.port, h.object⟩
  | read => exact ⟨hok, h.vector, h.port, (pin_refresh s d _).trans h.object⟩
  | enter => exact ⟨hok, h.vector, h.port, h.object⟩
  | test => exact ⟨hok, h.vector, h.port, h.object⟩
  | call => exact ⟨hok, h.vector, h.port, (pin_refresh s d _).trans h.object⟩
  | clear _ hio =>
    refine ⟨hok, h.vector, ?_, h.object⟩
    dsimp only
    rw [extiPort, hio.afio]
    exact h.port
  | notify hio => exact ⟨hok, h.vector, (hio.port _).trans h.port, h.object⟩

/-- A refreshed object is the watched one or another. -/
theorem view_refresh (h : Watched d pin s) (d' : ℕ) (pc : HandlerPc) :
    view d pin { refresh s d' with handler := pc } = { view d pin s with
      copy := if d' = d then level s.io pin.base pin.line else (s.inputs d).get
      phase := pc.phase pin.line } := by
  have hget : ((refresh s d').inputs d).get =
      if d' = d then level s.io pin.base pin.line else (s.inputs d).get := by
    split_ifs with hd
    · rw [hd, get_refresh, h.object]
    · rw [inputs_refresh_of_ne s hd]
  unfold view
  dsimp only
  rw [hget]
  rfl

/-- The handler tests a line. -/
theorem view_test {line : Fin 16} {rest : List (Fin 16)}
    (hpc : s.handler = .getITStatus line rest) :
    view d pin { s with
      handler := if (s.io.exti.line line).pr && (s.io.exti.line line).imr then .callIsr line rest
        else .next rest } = (view d pin s).act (action d pin s .handler) := by
  have haction : action d pin s .handler =
      if line = pin.line ∧ ((s.io.exti.line line).pr && (s.io.exti.line line).imr) = true
      then .call else .stay := by
    unfold action
    rw [hpc]
  rw [haction]
  unfold view
  dsimp only
  rw [hpc]
  generalize ((s.io.exti.line line).pr && (s.io.exti.line line).imr) = status
  cases status with
  | false =>
    rw [if_neg (by decide), if_neg (by simp), phase_next]
    rfl
  | true =>
    simp only [HandlerPc.phase, if_true, and_true]
    split_ifs <;> rfl

/-- The handler calls an object. -/
theorem view_call (h : Watched d pin s) {line : Fin 16} {rest : List (Fin 16)} {d' : ℕ}
    (hpc : s.handler = .callIsr line rest) (hd : s.isrVector line = some d') :
    view d pin { refresh s d' with handler := .clearITPendingBit line rest } =
      (view d pin s).act (action d pin s .handler) := by
  have haction : action d pin s .handler = if line = pin.line then .serve
      else if d' = d then .refresh else .stay := by
    unfold action
    rw [hpc]
    dsimp only
    rw [hd]
    simp only [Option.some.injEq]
  rw [haction, view_refresh h]
  unfold view
  dsimp only
  rw [hpc]
  rcases eq_or_ne line pin.line with rfl | hline
  · obtain rfl : d' = d := Option.some.inj (hd.symm.trans h.vector)
    simp [HandlerPc.phase, Mirror.act]
  · simp only [HandlerPc.phase, hline, if_false]
    split_ifs <;> rfl

/-- The handler clears a pending bit. -/
theorem view_clear {line : Fin 16} {rest : List (Fin 16)} {io : Io}
    (hpc : s.handler = .clearITPendingBit line rest)
    (hio : ActsLine line (fun l => l.apply (some false)) s.io io) :
    view d pin { s with io := io, handler := .next rest } =
      (view d pin s).act (action d pin s .handler) := by
  have haction : action d pin s .handler = if line = pin.line then .lower else .stay := by
    unfold action
    rw [hpc]
  have hlevel : level io pin.base pin.line = level s.io pin.base pin.line := by
    unfold level
    rw [hio.gpio]
  rw [haction]
  unfold view
  dsimp only
  rw [hlevel, hio.line, phase_next, hpc]
  rcases eq_or_ne line pin.line with rfl | hline
  · rw [if_pos rfl, if_pos rfl]
    rfl
  · rw [if_neg fun heq => hline (Fin.ext heq.symm), if_neg hline]
    simp [HandlerPc.phase, hline, Mirror.act]

/-- A change of the watched pin makes its line pending: it is enabled on both edges. -/
theorem edgeRequest_watched (h : Watched d pin s) (lv : Bool) :
    (s.io.exti.line pin.line).edgeRequest lv = some true := by
  obtain ⟨himr, hrtsr, hftsr⟩ :=
    h.ok.enabled pin.line (by rw [h.vector]; exact Option.some_ne_none d)
  unfold Line.edgeRequest
  rw [himr, hrtsr, hftsr]
  cases lv <;> rfl

/-- An input changes, of the watched pin or of another. -/
theorem view_notify (h : Watched d pin s) {port : Fin GPIO_COUNT} {n : ℕ} {lv : Bool} {io : Io}
    (hio : Notified port n lv s.io io) : view d pin { s with io := io } =
      (view d pin s).act (action d pin s (.gpioIn port n lv)) := by
  show view d pin { s with io := io } = (view d pin s).act
    (if port = pin.base ∧ n = pin.line then .notify lv else .stay)
  unfold view
  dsimp only
  by_cases hpin : port = pin.base ∧ n = pin.line
  · obtain ⟨rfl, rfl⟩ := hpin
    have hlevel : level io pin.base pin.line = lv := (hio.input _ _).trans (if_pos ⟨rfl, rfl⟩)
    rw [hlevel, hio.line, if_pos ⟨rfl, h.port⟩, edgeRequest_watched h, if_pos ⟨rfl, rfl⟩]
    rfl
  · have hlevel : level io pin.base pin.line = level s.io pin.base pin.line :=
      (hio.input _ _).trans (if_neg fun heq => hpin ⟨heq.1.symm, heq.2.symm⟩)
    rw [hlevel, hio.line, if_neg hpin, if_neg]
    · rfl
    · rintro ⟨rfl, hport⟩
      exact hpin ⟨Fin.ext (hport.symm.trans h.port), rfl⟩

/-- **A step** does its action. -/
theorem view_step (h : Watched d pin s) (he : Effect s e s') (hsp : e.Spares pin.line = true) :
    view d pin s' = (view d pin s).act (action d pin s e) := by
  cases he with
  | register hidle hr =>
    have hne : pin.line ≠ _ := (of_decide_eq_true hsp).symm
    have hline : s'.io.exti.line pin.line = s.io.exti.line pin.line := by
      rw [hr.line, if_neg fun heq => hne (Fin.ext heq)]
    unfold view Hal.level
    rw [hr.level, hr.inputs, hline, hr.handler]
    rfl
  | unregister => rfl
  | @read d' hidle =>
    have hview := view_refresh h d' s.handler
    show view d pin (refresh s d') = (view d pin s).act (if d' = d then .refresh else .stay)
    split_ifs at hview ⊢ <;> exact hview
  | enter hidle =>
    unfold view
    dsimp only
    rw [phase_next, hidle]
    rfl
  | test hpc => exact view_test hpc
  | call hpc hd => exact view_call h hpc hd
  | clear hpc hio => exact view_clear hpc hio
  | notify hio => exact view_notify h hio

/-- The levels that an action notifies are those of its event. -/
theorem action_levels (d : ℕ) (pin : Pin) (s : Firmware) (e : Event) :
    (action d pin s e).levels = pin.levels e := by
  unfold action Pin.levels
  cases e with
  | gpioIn port n level =>
    dsimp only
    split_ifs <;> rfl
  | read d' =>
    dsimp only
    split_ifs <;> rfl
  | handler =>
    cases s.handler with
    | idle => rfl
    | getITStatus line rest =>
      dsimp only
      split_ifs <;> rfl
    | callIsr line rest =>
      dsimp only
      split_ifs <;> rfl
    | clearITPendingBit line rest =>
      dsimp only
      split_ifs <;> rfl
  | _ => rfl

/-- The copy is made in the callback, and the flag is lowered when the handler clears
the pending bit. -/
theorem action_handler (d : ℕ) (pin : Pin) (s : Firmware) (e : Event) :
    (action d pin s e = .serve ↔ e = .handler ∧ s.handler.phase pin.line = .called) ∧
    (action d pin s e = .lower ↔ ClearsPending pin.line s e) := by
  unfold action ClearsPending HandlerPc.phase
  cases e with
  | handler =>
    cases s.handler with
    | idle => simp
    | getITStatus line rest =>
      dsimp only
      split_ifs <;> simp
    | callIsr line rest =>
      dsimp only
      split_ifs <;> simp
    | clearITPendingBit line rest =>
      dsimp only
      split_ifs <;> simp
  | gpioIn port n level =>
    dsimp only
    split_ifs <;> simp
  | read d' =>
    dsimp only
    split_ifs <;> simp
  | _ => simp

/-- **The input, its cached state and the handler** are a signal, a copy and a server. -/
def mirrored (d : ℕ) (pin : Pin) : Mirrored (Interleaved pin.line) (Watched d pin) Bool where
  view := view d pin
  action := action d pin
  levels := pin.levels
  inv _ _ _ h hs := h.step (step_effect h.ok hs.1) hs.2
  levels_eq s e _ _ _ := action_levels d pin s e
  enabled s e _ _ _ hlower := ((action_handler d pin s e).2.1 hlower).2
  view_eq _ _ _ h hs := view_step h (step_effect h.ok hs.1) hs.2

/-- A successful registration outside of the handler. -/
theorem registerInterrupt_watched {clkEnabled : Bool} {s₁ : Firmware} (hok : s.Ok)
    (hidle : s.handler = .idle) (hpin : (s.inputs d).pin = pin)
    (hreg : registerInterrupt clkEnabled s d = .ok (true, s₁)) :
    Watched d pin s₁ ∧ s₁.handler.phase pin.line = .outside := by
  unfold registerInterrupt at hreg
  rw [hpin] at hreg
  have hr : Registered (some d) pin s true s₁ :=
    (registerInt_returns clkEnabled (some d) pin hok.ports).of_eq_ok hreg
  refine ⟨⟨hr.ok hok, ?_, ?_, ?_⟩, ?_⟩
  · rw [hr.vector, if_pos rfl]
    exact Function.update_self ..
  · rw [hr.port _ pin.line.isLt, if_pos rfl]
  · rw [hr.inputs, hpin]
  · rw [hr.handler, hidle]
    rfl

end Hal
end Especial
