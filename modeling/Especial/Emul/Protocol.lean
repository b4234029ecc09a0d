/-
# The two threads that meet on `evt_ack_cond`

The firmware and the event thread form a small protocol of their own: `View` is what
they see, `Move` what they do, and every transition of the system is a move or changes
nothing of it (`step_moves`).  What holds of the protocol in every state (`View.Ok`) is
shown on moves, and so is what holds until a spurious wake-up comes through
(`View.InTime`).
-/

import Especial.Emul.Handshake

namespace Especial
namespace Emul
namespace Handshake

open Lib Uart Qemu

/-! ### The protocol of the two threads -/

/-- What the two threads see. -/
structure View where
  vcpu : VcpuPc
  evt : EvtPc
  evtMutex : Option EvtThread
  events : ℕ
  processed : ℕ
  returned : ℕ

/-- The view of a state. -/
def view (s : System) : View where
  vcpu := s.vcpu
  evt := s.evt
  evtMutex := s.evtMutex
  events := s.uart.events.length
  processed := s.processed
  returned := s.returned

/-- In `send_event`, and the read has not returned. -/
def VcpuPc.pending : VcpuPc → ℕ
  | .running | .output | .compare => 0
  | _ => 1

/-- Outside of `event_wait_ack`. -/
def VcpuPc.Outside (pc : VcpuPc) : Prop :=
  pc ≠ .wait ∧ pc ≠ .blocked ∧ pc ≠ .woken ∧ pc ≠ .spurious ∧ pc ≠ .unlock

/-- What they do. -/
inductive Move (v : View) : View → Prop
  | outside {pc : VcpuPc} {n : ℕ} (hv : v.vcpu.Outside) (hpc : pc.Outside)
      (hn : n + v.vcpu.pending = v.events + pc.pending) : Move v { v with vcpu := pc, events := n }
  | lock (hv : v.vcpu = .lock) (hm : v.evtMutex = none) :
      Move v { v with vcpu := .wait, evtMutex := some .vcpu }
  | wait (hv : v.vcpu = .wait) : Move v { v with vcpu := .blocked, evtMutex := none }
  | spurious (hv : v.vcpu = .blocked) : Move v { v with vcpu := .spurious }
  | relock (hv : v.vcpu = .woken ∨ v.vcpu = .spurious) (hm : v.evtMutex = none) :
      Move v { v with vcpu := .unlock, evtMutex := some .vcpu }
  | unlock (hv : v.vcpu = .unlock) :
      Move v { v with vcpu := .compare, evtMutex := none, returned := v.returned + 1 }
  | evtRead (he : v.evt = .read) : Move v { v with evt := .lock }
  | evtLock (he : v.evt = .lock) (hm : v.evtMutex = none) :
      Move v { v with evt := .signal, evtMutex := some .evt }
  | evtSignal (he : v.evt = .signal) : Move v { v with vcpu := v.vcpu.signal, evt := .unlock }
  | evtUnlock (he : v.evt = .unlock) :
      Move v { v with evt := .read, evtMutex := none, processed := v.processed + 1 }

/-- What holds in every state: who has the mutex; a signal has woken the firmware if
it was blocked; and how many reads have returned. -/
structure View.Ok (v : View) : Prop where
  vcpuMutex : v.evtMutex = some .vcpu ↔ v.vcpu = .wait ∨ v.vcpu = .unlock
  evtMutex : v.evtMutex = some .evt ↔ v.evt = .signal ∨ v.evt = .unlock
  signalled : v.evt = .unlock → v.vcpu ≠ .blocked
  events : v.events = v.returned + v.vcpu.pending

/-- What holds as long as no spurious wake-up has come through: the firmware is past its
wait only when its event is acknowledged. -/
structure View.InTime (v : View) : Prop where
  returned : v.returned ≤ v.processed
  woken : v.vcpu = .woken → v.evt = .unlock ∨ v.returned + 1 ≤ v.processed
  unlock : v.vcpu = .unlock → v.returned + 1 ≤ v.processed

/-- Nobody sleeps on after a signal. -/
theorem VcpuPc.signal_ne_blocked (pc : VcpuPc) : pc.signal ≠ .blocked := by
  cases pc <;> simp [VcpuPc.signal]

/-- While the mutex is free, or the firmware has it, the event thread is not between its
lock and its unlock. -/
theorem View.Ok.evt_outside {v : View} (h : v.Ok) (hm : v.evtMutex ≠ some .evt) :
    ¬(v.evt = .signal ∨ v.evt = .unlock) := mt h.evtMutex.2 hm

/-- **A move** keeps what holds in every state. -/
theorem Move.ok {v w : View} (h : Move v w) (hv : v.Ok) : w.Ok := by
  have hout := hv.evt_outside
  obtain ⟨hvm, hem, hsig, hev⟩ := hv
  cases h with
  | outside ho hpc hn =>
    obtain ⟨h₁, h₂, h₃, h₄, h₅⟩ := ho
    obtain ⟨k₁, k₂, k₃, k₄, k₅⟩ := hpc
    refine ⟨?_, hem, fun _ => k₂, ?_⟩
    · simpa [h₁, h₅, k₁, k₅] using hvm
    · show _ = _ + _
      dsimp only at *
      omega
  | lock hv hm =>
    refine ⟨by simp, ?_, fun _ => by simp, ?_⟩
    · simpa [hm] using hem
    · simpa [hv, VcpuPc.pending] using hev
  | wait hv =>
    have he := hout (by simp [hvm.2 (Or.inl hv)])
    refine ⟨by simp, by simpa using he, fun hu => absurd (Or.inr hu) he, ?_⟩
    simpa [hv, VcpuPc.pending] using hev
  | spurious hv =>
    refine ⟨?_, hem, fun _ => by simp, ?_⟩
    · simpa [hv] using hvm
    · simpa [hv, VcpuPc.pending] using hev
  | relock hv hm =>
    have he := hout (by simp [hm])
    refine ⟨by simp, by simpa using he, fun _ => by simp, ?_⟩
    rcases hv with hv | hv <;> simpa [hv, VcpuPc.pending] using hev
  | unlock hv =>
    have he := hout (by simp [hvm.2 (Or.inr hv)])
    refine ⟨by simp, by simpa using he, fun _ => by simp, ?_⟩
    simpa [hv, VcpuPc.pending] using hev
  | evtRead he =>
    refine ⟨hvm, ?_, by simp, hev⟩
    simpa [he] using hem
  | evtLock he hm =>
    refine ⟨?_, by simp, by simp, hev⟩
    simpa [hm] using hvm
  | evtSignal he =>
    have hm : v.evtMutex = some .evt := hem.2 (Or.inl he)
    have hne : v.vcpu ≠ .wait ∧ v.vcpu ≠ .unlock := by
      rw [hm] at hvm
      simpa [not_or] using hvm
    refine ⟨?_, by simp [hm], fun _ => VcpuPc.signal_ne_blocked _, ?_⟩
    · cases hv : v.vcpu <;> simp_all [VcpuPc.signal]
    · rw [hev]
      cases v.vcpu <;> rfl
  | evtUnlock he =>
    have hm : v.evtMutex = some .evt := hem.2 (Or.inr he)
    refine ⟨?_, by simp, by simp, hev⟩
    simpa [hm] using hvm

/-- **A move** keeps the firmware in time, unless it gets the mutex back after a spurious
wake-up; then the acknowledgement must have been processed before. -/
theorem Move.inTime {v w : View} (h : Move v w) (hok : v.Ok) (hv : v.InTime)
    (hspurious : v.vcpu = .spurious → w.vcpu = .unlock → v.returned + 1 ≤ v.processed) :
    w.InTime := by
  obtain ⟨hret, hwok, hunl⟩ := hv
  cases h with
  | outside _ hpc _ =>
    exact ⟨hret, fun hw => absurd hw hpc.2.2.1, fun hu => absurd hu hpc.2.2.2.2⟩
  | lock | wait | spurious => exact ⟨hret, nofun, nofun⟩
  | relock hv hm =>
    refine ⟨hret, nofun, fun _ => ?_⟩
    rcases hv with hv | hv
    · -- the event thread has left its critical section, so the frame is processed
      have he := hok.evt_outside (by simp [hm])
      exact (hwok hv).resolve_left fun hu => he (Or.inr hu)
    · exact hspurious hv rfl
  | unlock hv => exact ⟨hunl hv, nofun, nofun⟩
  | evtRead he | evtLock he =>
    exact ⟨hret, fun hw => Or.inr ((hwok hw).resolve_left (by simp [he])), hunl⟩
  | evtSignal he =>
    have hne : v.vcpu ≠ .unlock := fun hu => by
      have hm := (hok.vcpuMutex.2 (Or.inr hu)).symm.trans (hok.evtMutex.2 (Or.inl he))
      cases hm
    refine ⟨hret, fun _ => Or.inl rfl, fun hu => ?_⟩
    cases hv : v.vcpu <;> simp_all [VcpuPc.signal]
  | evtUnlock he =>
    exact ⟨hret.trans (Nat.le_succ _), fun _ => Or.inr (Nat.succ_le_succ hret),
      fun hu => (hunl hu).trans (Nat.le_succ _)⟩

/-! ### The system makes moves -/

variable {env : Env} {s t : System} {l : Label}

/-- A transition makes a move or changes nothing that the two threads see; it is the
firmware's if it moves the firmware's program counter into or out of the wait. -/
def Moves (s t : System) : Prop :=
  t.uart.periph = .uart5 ∧ (view t = view s ∨ Move (view s) (view t))

/-- The firmware moves outside of `event_wait_ack`. -/
theorem Moves.of_outside {pc : VcpuPc} {emul : P103EmulState} {uart : Stm32Uart}
    (hp : uart.periph = .uart5) (hs : s.vcpu.Outside) (hpc : pc.Outside)
    (hn : uart.events.length + s.vcpu.pending = s.uart.events.length + pc.pending) :
    Moves s { s with emul := emul, uart := uart, vcpu := pc } :=
  ⟨hp, Or.inr (Move.outside (v := view s) hs hpc hn)⟩

/-- What a post of the firmware does. -/
theorem post_eq {cmd : P103Cmd} {next : VcpuPc} (h : s.post cmd next = some t) :
    ∃ emul, Emul.Step s.emul (.post cmd) emul ∧ t = { s with emul := emul, vcpu := next } := by
  obtain ⟨emul, hemul, rfl⟩ := Option.map_eq_some_iff.1 h
  exact ⟨emul, hemul, rfl⟩

/-- A write to UART5 logs the event and does nothing else. -/
theorem write_uart5 {u : Stm32Uart} (hp : u.periph = .uart5) (value : BitVec 64) :
    Uart.write env u 0x04 value 2 = .ok { u with events := u.events ++ [value.setWidth 8] } :=
  if_pos hp

/-- The data register takes the byte of the event as it is. -/
theorem setWidth_and_0x1ff : ∀ id : BitVec 8, (id.setWidth 64 &&& 0x1ff#64).setWidth 8 = id := by
  decide

/-- What `USART_SendData` does on UART5: it posts the event. -/
theorem sendData_eq {id : BitVec 8} (hp : s.uart.periph = .uart5)
    (h : sendData env s id = some t) : ∃ emul, Emul.Step s.emul (.post (postEventC id)) emul ∧
      t = { s with emul := emul, vcpu := .sendData,
                   uart := { s.uart with events := s.uart.events ++ [id] } } := by
  simp only [sendData, write_uart5 hp, setWidth_and_0x1ff] at h
  obtain ⟨emul, hemul, rfl⟩ := post_eq h
  exact ⟨emul, hemul, rfl⟩

/-- What the end of a post does: the firmware goes on, or stays in the post. -/
theorem finishPost_eq {next : VcpuPc} (h : s.finishPost next = some t) :
    t = { s with vcpu := next } ∨
      ∃ emul, Emul.Step s.emul .poster emul ∧ t = { s with emul := emul } := by
  unfold System.finishPost at h
  split_ifs at h with hi
  · exact Or.inl (Option.some.inj h).symm
  · obtain ⟨emul, hemul, rfl⟩ := Option.map_eq_some_iff.1 h
    exact Or.inr ⟨emul, hemul, rfl⟩

/-- The firmware gets a free mutex. -/
theorem vcpuLock_eq {next : VcpuPc} (h : s.vcpuLock next = some t) :
    s.evtMutex = none ∧ t = { s with evtMutex := some .vcpu, vcpu := next } := by
  unfold System.vcpuLock at h
  split_ifs at h with hm
  exact ⟨hm, (Option.some.inj h).symm⟩

/-- A spurious wake-up takes the firmware out of `blocked`. -/
theorem vcpuSpurious_eq (h : vcpuSpurious s = some t) :
    s.vcpu = .blocked ∧ t = { s with vcpu := .spurious } := by
  unfold vcpuSpurious at h
  split_ifs at h with hv
  exact ⟨hv, (Option.some.inj h).symm⟩

/-- A read of the data register of UART5 gives the acknowledgement. -/
theorem read_dr {u : Stm32Uart} (hp : u.periph = .uart5) :
    Uart.read u 0x04 2 = .ok (MONITOR_ACK_READ, u) := by
  unfold Uart.read
  simp [hp, pure, Except.pure]

/-- A read of the status register keeps the events. -/
theorem read_sr (u : Stm32Uart) : ∃ sr u', Uart.read u 0x00 2 = .ok (sr, u') ∧
    u'.periph = u.periph ∧ u'.events = u.events := by
  unfold Uart.read srRead
  refine ⟨_, _, rfl, ?_, ?_⟩ <;> split_ifs <;> rfl

/-- **Each step of the firmware is a move.** -/
theorem vcpuStep_moves (hp : s.uart.periph = .uart5) (h : vcpuStep s = some t) : Moves s t := by
  have hout : ∀ pc : VcpuPc, pc = .running ∨ pc = .output ∨ pc = .sendData ∨
      pc = .pollTxe ∨ pc = .lock ∨ pc = .compare → pc.Outside := by
    rintro pc (rfl | rfl | rfl | rfl | rfl | rfl) <;> simp [VcpuPc.Outside]
  cases hv : s.vcpu <;> simp only [vcpuStep, hv] at h
  case running | blocked => simp at h
  case output | sendData =>
    rcases finishPost_eq h with rfl | ⟨emul, -, rfl⟩
    · exact Moves.of_outside hp (hout _ (by simp [hv])) (hout _ (by simp))
        (by simp [hv, VcpuPc.pending])
    · exact ⟨hp, Or.inl rfl⟩
  case pollTxe =>
    obtain ⟨sr, u, hread, hper, hevents⟩ := read_sr s.uart
    rw [hread] at h
    obtain rfl := Option.some.inj h
    refine Moves.of_outside (hper.trans hp) (hout _ (by simp [hv])) (hout _ ?_) ?_
    · split_ifs <;> simp
    · rw [hevents, hv]
      split_ifs <;> rfl
  case lock =>
    obtain ⟨hm, rfl⟩ := vcpuLock_eq h
    exact ⟨hp, Or.inr (Move.lock (v := view s) hv hm)⟩
  case wait =>
    obtain rfl := Option.some.inj h
    exact ⟨hp, Or.inr (Move.wait (v := view s) hv)⟩
  case woken =>
    obtain ⟨hm, rfl⟩ := vcpuLock_eq h
    exact ⟨hp, Or.inr (Move.relock (v := view s) (Or.inl hv) hm)⟩
  case spurious =>
    obtain ⟨hm, rfl⟩ := vcpuLock_eq h
    exact ⟨hp, Or.inr (Move.relock (v := view s) (Or.inr hv) hm)⟩
  case unlock =>
    obtain rfl := Option.some.inj h
    exact ⟨hp, Or.inr (Move.unlock (v := view s) hv)⟩
  case compare =>
    rw [read_dr hp] at h
    obtain rfl := Option.some.inj h
    exact Moves.of_outside hp (hout _ (by simp [hv])) (hout _ (by decide)) (by rw [hv]; rfl)

/-- **Each step of the event thread is a move.** -/
theorem evtStep_moves (hp : s.uart.periph = .uart5) (h : evtStep s = some t) : Moves s t := by
  cases he : s.evt <;> simp only [evtStep, he] at h
  case read =>
    split_ifs at h
    obtain rfl := Option.some.inj h
    exact ⟨hp, Or.inr (Move.evtRead (v := view s) he)⟩
  case lock =>
    split_ifs at h with hm
    obtain rfl := Option.some.inj h
    exact ⟨hp, Or.inr (Move.evtLock (v := view s) he hm)⟩
  case signal =>
    obtain rfl := Option.some.inj h
    exact ⟨hp, Or.inr (Move.evtSignal (v := view s) he)⟩
  case unlock =>
    obtain rfl := Option.some.inj h
    exact ⟨hp, Or.inr (Move.evtUnlock (v := view s) he)⟩

/-- A step of the command thread is one of the emulator. -/
theorem cmdThread_eq {k : Emul.Label} (h : s.cmdThread k = some t) :
    ∃ emul, Emul.Step s.emul k emul ∧ t = { s with emul := emul } := by
  obtain ⟨emul, hemul, rfl⟩ := Option.map_eq_some_iff.1 h
  exact ⟨emul, hemul, rfl⟩

/-- The monitor reads the next frame. -/
theorem receive_eq (h : receive s = some t) : ∃ frame, s.emul.sent[s.received]? = some frame ∧
    t = { s with received := s.received + 1,
                 toAck := if eventFrame frame then s.toAck + 1 else s.toAck } := by
  unfold receive at h
  split at h
  · rename_i frame hf
    exact ⟨frame, hf, (Option.some.inj h).symm⟩
  · simp at h

/-- The monitor answers an event that it has read. -/
theorem reply_eq (h : reply s = some t) :
    0 < s.toAck ∧ t = { s with toAck := s.toAck - 1, acks := s.acks + 1 } := by
  unfold reply at h
  split_ifs at h with hpos
  exact ⟨hpos, (Option.some.inj h).symm⟩

/-- A transition is what happens in its turn. -/
theorem act_of_step (h : Step env s l t) : act env s l = some t := by
  unfold Step step at h
  split_ifs at h
  exact h

/-- **A transition** makes a move or none. -/
theorem step_moves (hp : s.uart.periph = .uart5) (hstep : Step env s l t) : Moves s t := by
  have h := act_of_step hstep
  cases l with
  | digitalOut port pin value =>
    unfold act at h
    split_ifs at h with hv
    obtain ⟨emul, -, rfl⟩ := post_eq h
    exact Moves.of_outside hp (by simp [hv, VcpuPc.Outside]) (by simp [VcpuPc.Outside])
      (by rw [hv]; rfl)
  | sendEvent id =>
    unfold act at h
    split_ifs at h with hv
    obtain ⟨emul, -, rfl⟩ := sendData_eq hp h
    exact Moves.of_outside hp (by simp [hv, VcpuPc.Outside]) (by simp [VcpuPc.Outside])
      (by simp [hv, VcpuPc.pending])
  | vcpu => exact vcpuStep_moves hp h
  | vcpuSpurious =>
    obtain ⟨hv, rfl⟩ := vcpuSpurious_eq h
    exact ⟨hp, Or.inr (Move.spurious (v := view s) hv)⟩
  | connect ok | cmd | cmdSpurious | write ok =>
    obtain ⟨emul, -, rfl⟩ := cmdThread_eq h
    exact ⟨hp, Or.inl rfl⟩
  | receive =>
    obtain ⟨frame, -, rfl⟩ := receive_eq h
    exact ⟨hp, Or.inl rfl⟩
  | reply =>
    obtain ⟨-, rfl⟩ := reply_eq h
    exact ⟨hp, Or.inl rfl⟩
  | evt => exact evtStep_moves hp h

/-- What holds in every state of the system. -/
structure Ok (s : System) : Prop where
  periph : s.uart.periph = .uart5
  view : (view s).Ok

/-- **Every transition keeps the invariant.** -/
theorem step_ok (hs : Ok s) (h : Step env s l t) : Ok t := by
  obtain ⟨hp, hview | hmove⟩ := step_moves hs.periph h
  · exact ⟨hp, by rw [hview]; exact hs.view⟩
  · exact ⟨hp, hmove.ok hs.view⟩

/-- The invariant holds at the beginning. -/
theorem init_ok {uart : Stm32Uart} (hp : uart.periph = .uart5) (he : uart.events = []) :
    Ok (init uart) := by
  refine ⟨hp, ?_⟩
  constructor <;> simp [view, init, VcpuPc.pending, he]

end Handshake
end Emul
end Especial
