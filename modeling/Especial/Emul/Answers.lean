/-
# The acknowledgements are those of the events

`processed` counts the frames of acknowledgement.  Every event sent is in the queue or on
the socket, the monitor answers every one it has read with one frame, and so `processed`
never runs ahead of the events: the last frame processed answers the last event
(`processed_le_events`).
-/

import Especial.Emul.Protocol

namespace Especial
namespace Emul
namespace Handshake

open Lib Uart Qemu

variable {env : Env} {s t : System} {l : Label}

/-- The event thread has a frame in hand. -/
def EvtPc.inHand : EvtPc → ℕ
  | .read => 0
  | _ => 1

/-- Every event sent is in the queue or on the socket, and every one that the
monitor has read is answered by one frame. -/
structure Counted (s : System) : Prop where
  queue : QueueOk s.emul
  events : (frames s.emul).countP eventFrame = s.uart.events.length
  received : s.received ≤ s.emul.sent.length
  answers : s.processed + s.evt.inHand + s.acks + s.toAck =
    (s.emul.sent.take s.received).countP eventFrame

/-- Twelve characters say whether a frame is the frame of an event. -/
theorem eventFrame_append {q : List Char} (hq : 12 ≤ q.length) (r : List Char) :
    eventFrame (q ++ r) = eventFrame q := by
  have hiff : eventFrame (q ++ r) = true ↔ eventFrame q = true := by
    simp only [eventFrame, List.isPrefixOf_iff_prefix]
    exact ⟨fun h => List.prefix_of_prefix_length_le h (List.prefix_append q r) hq,
      fun h => h.trans (List.prefix_append q r)⟩
  exact Bool.eq_iff_iff.2 hiff

/-- The monitor takes the frame of an event for one. -/
theorem eventFrame_cmdEvent {cmd : P103Cmd} (h : cmd.id = .C_EVENT) :
    eventFrame (cmdEvent cmd) = true := by
  have hlength : 12 ≤ ("\x7b\"msgId\":".toList ++ decimal EventId.C_EVENT.val ++
      ",\"value\":".toList).length := by decide +kernel
  unfold cmdEvent
  rewrite [h, List.append_assoc, eventFrame_append hlength]
  decide +kernel

/-- The monitor does not take the frame of an output for one. -/
theorem eventFrame_cmdPeriph {cmd : P103Cmd} (h : cmd.id = .DIGITAL_OUT) :
    eventFrame (cmdPeriph cmd) = false := by
  have hlength : 12 ≤ ("\x7b\"msgId\":".toList ++ decimal EventId.DIGITAL_OUT.val ++
      ",\"pin\":\x7b\"port\":\"".toList).length := by decide +kernel
  unfold cmdPeriph
  iterate 5 rewrite [List.append_assoc]
  rewrite [h, eventFrame_append hlength]
  decide +kernel

/-- A transition of the emulator, with the events it adds. -/
theorem Counted.emul {emul : P103EmulState} {k : Emul.Label} (h : Counted s)
    (hstep : Emul.Step s.emul k emul) (hk : Regular s.emul k) (he : t.emul = emul)
    (hevents : t.uart.events.length = s.uart.events.length + k.posted.countP eventFrame)
    (hr : t.received = s.received)
    (ha : t.processed + t.evt.inHand + t.acks + t.toAck =
      s.processed + s.evt.inHand + s.acks + s.toAck) : Counted t := by
  obtain ⟨hok, hframes, sent, hsent⟩ := step_frames h.queue hk hstep
  refine ⟨by rw [he]; exact hok, ?_, ?_, ?_⟩
  · rw [he, hframes, List.countP_append, h.events, hevents]
  · rw [he, hr, ← hsent, List.length_append]
    exact h.received.trans (Nat.le_add_right _ _)
  · rw [ha, h.answers, he, hr, ← hsent, List.take_append_of_le_length h.received]

/-- A transition that touches neither the queue nor the monitor. -/
theorem Counted.of_eq (h : Counted s) (he : t.emul = s.emul)
    (hevents : t.uart.events = s.uart.events) (hr : t.received = s.received)
    (ha : t.processed + t.evt.inHand + t.acks + t.toAck =
      s.processed + s.evt.inHand + s.acks + s.toAck) : Counted t := by
  obtain ⟨hq, hev, hrec, hans⟩ := h
  constructor
  · rw [he]; exact hq
  · rw [he, hevents]; exact hev
  · rw [he, hr]; exact hrec
  · rw [ha, he, hr]; exact hans

/-- The firmware keeps the count. -/
theorem vcpuStep_counted (hp : s.uart.periph = .uart5) (h : Counted s)
    (hact : vcpuStep s = some t) : Counted t := by
  cases hv : s.vcpu <;> simp only [vcpuStep, hv] at hact
  case running | blocked => simp at hact
  case output | sendData =>
    rcases finishPost_eq hact with rfl | ⟨emul, hemul, rfl⟩
    · exact h.of_eq rfl rfl rfl rfl
    · exact h.emul hemul trivial rfl rfl rfl rfl
  case pollTxe =>
    obtain ⟨sr, u, hread, -, hevents⟩ := read_sr s.uart
    rw [hread] at hact
    obtain rfl := Option.some.inj hact
    exact h.of_eq rfl hevents rfl rfl
  case lock | woken | spurious =>
    obtain ⟨-, rfl⟩ := vcpuLock_eq hact
    exact h.of_eq rfl rfl rfl rfl
  case wait | unlock =>
    obtain rfl := Option.some.inj hact
    exact h.of_eq rfl rfl rfl rfl
  case compare =>
    rw [read_dr hp] at hact
    obtain rfl := Option.some.inj hact
    exact h.of_eq rfl rfl rfl rfl

/-- The event thread keeps the count. -/
theorem evtStep_counted (h : Counted s) (hact : evtStep s = some t) : Counted t := by
  cases he : s.evt <;> simp only [evtStep, he] at hact
  case read =>
    split_ifs at hact
    obtain rfl := Option.some.inj hact
    refine h.of_eq rfl rfl rfl ?_
    simp only [he, EvtPc.inHand]
    omega
  case lock =>
    split_ifs at hact
    obtain rfl := Option.some.inj hact
    exact h.of_eq rfl rfl rfl (by rw [he]; rfl)
  case signal =>
    obtain rfl := Option.some.inj hact
    exact h.of_eq rfl rfl rfl (by rw [he]; rfl)
  case unlock =>
    obtain rfl := Option.some.inj hact
    exact h.of_eq rfl rfl rfl (by rw [he]; rfl)

/-- **A transition** keeps the count. -/
theorem step_counted (hp : s.uart.periph = .uart5) (h : Counted s) (hstep : Step env s l t) :
    Counted t := by
  have hact := act_of_step hstep
  cases l with
  | digitalOut port pin value =>
    unfold act at hact
    split_ifs at hact
    obtain ⟨emul, hemul, rfl⟩ := post_eq hact
    exact h.emul hemul (Or.inr rfl) rfl
      (by simp [Emul.Label.posted, frame, format, postEventDigitalOut, eventFrame_cmdPeriph])
      rfl rfl
  | sendEvent id =>
    unfold act at hact
    split_ifs at hact
    obtain ⟨emul, hemul, rfl⟩ := sendData_eq hp hact
    exact h.emul hemul (Or.inl rfl) rfl
      (by simp [Emul.Label.posted, frame, format, postEventC, eventFrame_cmdEvent]) rfl rfl
  | vcpu => exact vcpuStep_counted hp h hact
  | vcpuSpurious =>
    obtain ⟨-, rfl⟩ := vcpuSpurious_eq hact
    exact h.of_eq rfl rfl rfl rfl
  | connect ok | cmd | cmdSpurious =>
    obtain ⟨emul, hemul, rfl⟩ := cmdThread_eq hact
    exact h.emul hemul trivial rfl rfl rfl rfl
  | write ok =>
    obtain ⟨emul, hemul, rfl⟩ := cmdThread_eq hact
    exact h.emul hemul (by cases ok <;> simp [Regular]) rfl rfl rfl rfl
  | receive =>
    obtain ⟨frame, hframe, rfl⟩ := receive_eq hact
    have hlt : s.received < s.emul.sent.length := (List.getElem?_eq_some_iff.1 hframe).1
    refine ⟨h.queue, h.events, hlt, ?_⟩
    have hans := h.answers
    simp only [List.take_add_one, hframe, List.countP_append, Option.toList, List.countP_singleton]
    split_ifs <;> omega
  | reply =>
    obtain ⟨hpos, rfl⟩ := reply_eq hact
    refine h.of_eq rfl rfl rfl ?_
    dsimp only
    omega
  | evt => exact evtStep_counted h hact

/-- **The acknowledgements never run ahead of the events**: the frames processed
answer the first events sent. -/
theorem processed_le_events {uart : Stm32Uart} {ls : List Label} (hp : uart.periph = .uart5)
    (he : uart.events = []) (hrun : Run (Step env) (init uart) ls t) :
    t.processed ≤ t.uart.events.length := by
  have hinit : Counted (init uart) :=
    ⟨init_queueOk, by rw [show (init uart).uart.events = [] from he]; rfl, le_rfl, rfl⟩
  have hcounted : Ok t ∧ Counted t :=
    hrun.invariant (P := fun s => Ok s ∧ Counted s)
      (fun s l t hs h => ⟨step_ok hs.1 h, step_counted hs.1.periph hs.2 h⟩)
      ⟨init_ok hp he, hinit⟩
  obtain ⟨-, h⟩ := hcounted
  calc t.processed ≤ t.processed + t.evt.inHand + t.acks + t.toAck := by omega
    _ = (t.emul.sent.take t.received).countP eventFrame := h.answers
    _ ≤ t.emul.sent.countP eventFrame := (List.take_sublist _ _).countP_le
    _ ≤ (frames t.emul).countP eventFrame := (List.sublist_append_left _ _).countP_le
    _ = t.uart.events.length := h.events

end Handshake
end Emul
end Especial
