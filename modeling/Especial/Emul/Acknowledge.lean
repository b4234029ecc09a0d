/-
# When the acknowledgement of an event reaches the firmware

The firmware sleeps on `evt_ack_cond` and nothing records the signal: it may fall asleep
after the acknowledgement of its event was processed, and then it waits for ever.  And it
tests nothing when it comes back: a spurious wake-up may let the read return before the
acknowledgement.  `ack_handshake_iff` says that a run is free of both exactly if the
firmware always falls asleep before the frame is processed and always gets the mutex back
after that.
-/

import Especial.Emul.Answers
import Especial.Lib.Wakeup

namespace Especial
namespace Emul
namespace Handshake

open Lib Uart Qemu

variable {env : Env} {s t : System} {l : Label}

/-! ### The firmware as a sleeper -/

/-- The firmware waits for an acknowledgement that is already processed. -/
def AckMissed (s : System) : Prop := s.vcpu = .blocked ∧ s.uart.events.length ≤ s.processed

/-- The firmware is past its wait, and the last event is not acknowledged. -/
def EarlyReturn (s : System) : Prop :=
  (s.vcpu = .unlock ∨ s.vcpu = .compare ∨ s.vcpu = .running ∨ s.vcpu = .output) ∧
    s.processed < s.uart.events.length

/-- The firmware enters `qemu_cond_wait` before the acknowledgement of its event is
processed. -/
def WaitsBeforeAck (s : System) (l : Label) : Prop :=
  l = .vcpu → s.vcpu = .wait → s.processed < s.uart.events.length

/-- When `qemu_cond_wait` has come back without a signal, the firmware gets the mutex only
after the acknowledgement of its event is processed. -/
def SpuriousAfterAck (s : System) (l : Label) : Prop :=
  l = .vcpu → s.vcpu = .spurious → s.uart.events.length ≤ s.processed

/-- Both. -/
def AckInTime (s : System) (l : Label) : Prop := WaitsBeforeAck s l ∧ SpuriousAfterAck s l

/-- The firmware in a call of `qemu_cond_wait` that only itself goes on from: about to
block, or about to take the mutex back. -/
def VcpuPc.Alone (pc : VcpuPc) : Prop := pc = .wait ∨ pc = .woken ∨ pc = .spurious

/-- Nobody else moves the firmware then. -/
theorem vcpu_eq_of_alone (hstep : Step env s l t) (hv : s.vcpu.Alone) (hl : l ≠ .vcpu) :
    t.vcpu = s.vcpu := by
  have hne : s.vcpu ≠ .running ∧ s.vcpu ≠ .blocked := by
    rcases hv with hv | hv | hv <;> simp [hv]
  have h := act_of_step hstep
  cases l with
  | digitalOut port pin value =>
    rw [act, if_neg hne.1] at h
    simp at h
  | sendEvent id =>
    rw [act, if_neg hne.1] at h
    simp at h
  | vcpu => exact absurd rfl hl
  | vcpuSpurious => exact absurd (vcpuSpurious_eq h).1 hne.2
  | connect ok | cmd | cmdSpurious | write ok =>
    obtain ⟨emul, -, rfl⟩ := cmdThread_eq h
    rfl
  | receive =>
    obtain ⟨frame, -, rfl⟩ := receive_eq h
    rfl
  | reply =>
    obtain ⟨-, rfl⟩ := reply_eq h
    rfl
  | evt =>
    cases he : s.evt <;> simp only [act, evtStep, he] at h
    case read | lock =>
      split_ifs at h
      rw [← Option.some.inj h]
    case signal =>
      rw [← Option.some.inj h]
      cases hpc : s.vcpu <;> first | rfl | exact absurd hpc hne.2
    case unlock => rw [← Option.some.inj h]

/-- The firmware blocks. -/
theorem step_wait (hstep : Step env s .vcpu t) (hv : s.vcpu = .wait) :
    t = { s with evtMutex := none, vcpu := .blocked } := by
  have h : vcpuStep s = some t := act_of_step hstep
  rw [vcpuStep, hv] at h
  exact (Option.some.inj h).symm

/-- The firmware takes the mutex back after a spurious wake-up. -/
theorem step_spurious (hstep : Step env s .vcpu t) (hv : s.vcpu = .spurious) :
    t = { s with evtMutex := some .vcpu, vcpu := .unlock } := by
  have h : vcpuStep s = some t := act_of_step hstep
  rw [vcpuStep, hv] at h
  exact (vcpuLock_eq h).2

/-- A move of the firmware into the block. -/
theorem Move.vcpu_eq_wait {v w : View} (h : Move v w) (hv : v.vcpu ≠ .blocked)
    (hw : w.vcpu = .blocked) : v.vcpu = .wait := by
  cases h with
  | outside ho hpc hn => exact absurd hw hpc.2.1
  | wait hv => exact hv
  | evtSignal he => exact absurd hw (VcpuPc.signal_ne_blocked _)
  | lock | spurious | relock | unlock => simp at hw
  | evtRead | evtLock | evtUnlock => exact absurd hw hv

/-- While the firmware is blocked, no frame is processed. -/
theorem Move.processed_eq {v w : View} (h : Move v w) (hok : v.Ok) (hv : v.vcpu = .blocked)
    (hw : w.vcpu = .blocked) : w.events = v.events ∧ w.processed = v.processed := by
  cases h with
  | outside ho hpc hn => exact absurd hw hpc.2.1
  | evtSignal he => exact absurd hw (VcpuPc.signal_ne_blocked _)
  | lock | spurious | relock | unlock => simp at hw
  | wait hw' => simp [hv] at hw'
  | evtRead | evtLock => exact ⟨rfl, rfl⟩
  | evtUnlock he => exact absurd hv (hok.signalled he)

/-- The firmware as a sleeper; no signal is coming once a frame is processed. -/
def vcpuSleeper (env : Env) : Sleeper (Step env) Ok where
  asleep s := s.vcpu = .blocked
  due s := s.uart.events.length ≤ s.processed
  coming _ := False
  falls s l := l = .vcpu ∧ s.vcpu = .wait
  inv _ _ _ hs h := step_ok hs h
  falls_iff s l t hs h hns := by
    constructor
    · intro ht
      have hw : s.vcpu = .wait := by
        rcases (step_moves hs.periph h).2 with hview | hmove
        · exact absurd ((congrArg View.vcpu hview).symm.trans ht) hns
        · exact hmove.vcpu_eq_wait hns ht
      refine ⟨?_, hw⟩
      by_contra hl
      rw [vcpu_eq_of_alone h (Or.inl hw) hl, hw] at ht
      simp at ht
    · rintro ⟨rfl, hw⟩
      rw [step_wait h hw]
  of_falls s l t hs h hf := by
    obtain ⟨rfl, hw⟩ := hf
    rw [step_wait h hw]
    exact ⟨by simp [hw], Iff.rfl, Iff.rfl⟩
  new_work s l t hs h has hat hdue hdue' := by
    rcases (step_moves hs.periph h).2 with hview | hmove
    · refine hdue ?_
      rw [← show t.uart.events.length = s.uart.events.length from congrArg View.events hview,
        ← show t.processed = s.processed from congrArg View.processed hview]
      exact hdue'
    · obtain ⟨hevents, hprocessed⟩ := hmove.processed_eq hs.view has hat
      refine hdue ?_
      rw [← show t.uart.events.length = s.uart.events.length from hevents,
        ← show t.processed = s.processed from hprocessed]
      exact hdue'
  no_signal _ _ _ _ _ _ _ hc := hc

/-- No acknowledgement is missed when the sleeper is rested. -/
theorem ackMissed_iff (env : Env) : ¬AckMissed s ↔ (vcpuSleeper env).Rested s := by
  show ¬(_ ∧ _) ↔ (s.vcpu = .blocked → s.uart.events.length ≤ s.processed → False)
  exact not_and

/-- The firmware waits in time when the sleeper falls asleep rested. -/
theorem waitsBeforeAck_iff : WaitsBeforeAck s l ↔ (vcpuSleeper env).FallsRested s l := by
  show (_ → _ → _) ↔
      (l = .vcpu ∧ s.vcpu = .wait → s.uart.events.length ≤ s.processed → False)
  rw [and_imp]
  exact forall₂_congr fun _ _ => not_le.symm

/-- A firmware in time has not returned early. -/
theorem not_earlyReturn (hs : Ok s) (hv : (view s).InTime) : ¬EarlyReturn s := by
  rintro ⟨hpc, hlt⟩
  have hevents : s.uart.events.length = s.returned + s.vcpu.pending := hs.view.events
  have hret : s.returned ≤ s.processed := hv.returned
  rcases hpc with hpc | hpc | hpc | hpc
  · have hdone : s.returned + 1 ≤ s.processed := hv.unlock hpc
    simp only [hpc, VcpuPc.pending] at hevents
    omega
  all_goals
    simp only [hpc, VcpuPc.pending] at hevents
    omega

/-- What is left to do for a firmware that has come back from its wait without a signal. -/
theorem returned_of_spurious (hs : Ok s) (hv : s.vcpu = .spurious) :
    s.uart.events.length = s.returned + 1 := by
  have hevents : s.uart.events.length = s.returned + s.vcpu.pending := hs.view.events
  rwa [hv] at hevents

/-- **A transition** keeps the firmware in time exactly if a spurious wake-up gets the mutex
only after the acknowledgement. -/
theorem step_inTime_iff (hs : Ok s) (hv : (view s).InTime) (h : Step env s l t) :
    (view t).InTime ↔ SpuriousAfterAck s l := by
  constructor
  · rintro ht rfl hpc
    have hunlock := ht.unlock
    rw [step_spurious h hpc] at hunlock
    rw [returned_of_spurious hs hpc]
    exact hunlock rfl
  · intro hguard
    rcases (step_moves hs.periph h).2 with hview | hmove
    · rwa [hview]
    · refine hmove.inTime hs.view hv fun hpc hunlock => ?_
      have hl : l = .vcpu := by
        by_contra hl
        have hkept : t.vcpu = s.vcpu := vcpu_eq_of_alone h (Or.inr (Or.inr hpc)) hl
        have hunlock : t.vcpu = .unlock := hunlock
        rw [hkept, show s.vcpu = .spurious from hpc] at hunlock
        cases hunlock
      have hdone := hguard hl hpc
      rwa [returned_of_spurious hs hpc] at hdone

/-- A transition that does not lead to an early return keeps the firmware in time. -/
theorem step_inTime (hs : Ok s) (hv : (view s).InTime) (h : Step env s l t) (ht : ¬EarlyReturn t) :
    (view t).InTime := by
  refine (step_inTime_iff hs hv h).2 ?_
  rintro rfl hpc
  by_contra hearly
  refine ht ?_
  rw [step_spurious h hpc]
  exact ⟨Or.inl rfl, not_le.1 hearly⟩

/-- A transition has one outcome. -/
theorem step_unique (s : System) (l : Label) (t t' : System) (h : Step env s l t)
    (h' : Step env s l t') : t = t' :=
  Option.some.inj (h.symm.trans h')

/-- **The handshake.**  The frames processed answer the first events sent.  In every state of
a run the firmware does not wait for an acknowledgement that is already processed, and the read of
the data register has not returned before the acknowledgement of its event was processed, exactly if
in the run the firmware always enters `qemu_cond_wait` before that happens, and after a spurious
wake-up always gets the mutex back after that has happened. -/
theorem ack_handshake_iff (env : Env) (uart : Stm32Uart) (ls : List Label) (t : System)
    (hp : uart.periph = .uart5) (he : uart.events = []) (hrun : Run (Step env) (init uart) ls t) :
    t.processed ≤ t.uart.events.length ∧
      ((∀ l₁ u, l₁ <+: ls → Run (Step env) (init uart) l₁ u →
        ¬AckMissed u ∧ ¬EarlyReturn u) ↔
        Run (Guarded (Step env) AckInTime) (init uart) ls t) := by
  refine ⟨processed_le_events hp he hrun, ?_⟩
  refine Run.forall_prefix_iff_of_stronger (J := Ok)
    (Q := fun s => ¬AckMissed s ∧ (view s).InTime ∧ ¬EarlyReturn s) step_unique
    (fun _ _ _ hs h => step_ok hs h) (fun s hs => ⟨hs.1, hs.2.2⟩) (fun s l t hs hq h => ?_)
    (fun s l t hs hq h ht => ⟨ht.1, step_inTime hs hq.2.1 h ht.2, ht.2⟩) hrun (init_ok hp he) ?_
  · have hmissed : ¬AckMissed t ↔ WaitsBeforeAck s l := by
      rw [ackMissed_iff env, waitsBeforeAck_iff]
      exact (vcpuSleeper env).step_iff hs ((ackMissed_iff env).1 hq.1) h
    rw [AckInTime, hmissed, step_inTime_iff hs hq.2.1 h]
    refine and_congr_right fun _ => and_iff_left_of_imp fun hguard => ?_
    exact not_earlyReturn (step_ok hs h) ((step_inTime_iff hs hq.2.1 h).2 hguard)
  · refine ⟨fun hm => by simp [AckMissed, init] at hm, ⟨le_rfl, nofun, nofun⟩, ?_⟩
    exact not_earlyReturn (init_ok hp he) ⟨le_rfl, nofun, nofun⟩

instance (s : System) (l : Label) : Decidable (AckInTime s l) := by
  unfold AckInTime WaitsBeforeAck SpuriousAfterAck
  infer_instance

/-- UART5 after its reset. -/
def uart5 : Stm32Uart := { Stm32Uart.alloc .uart5 false 0#32 with TXE := true, TC := true }

example : Uart.reset (exampleEnv 0) (Stm32Uart.alloc .uart5 false 0#32) = .ok uart5 := by
      decide +kernel

/-- The command thread waits, the firmware sends an event, and the command thread
sends it to the monitor. -/
def sendOne : List Label :=
  [.connect true, .cmd, .cmd, .sendEvent 0x41] ++ List.replicate 6 .vcpu ++
    List.replicate 6 .cmd ++ [.write true]

/-- The monitor answers and the answer is processed. -/
def answerOne : List Label := [.receive, .reply, .evt, .evt, .evt, .evt]

/-- The firmware waits first.  Its wait comes back without a signal, but it gets the mutex
after the answer is processed, and goes on. -/
theorem ack_handshake_waiting : ∃ l t, Run (Step (exampleEnv 0)) (init uart5) l t ∧
    (∀ l₁ u, l₁ <+: l → Run (Step (exampleEnv 0)) (init uart5) l₁ u →
      ¬AckMissed u ∧ ¬EarlyReturn u) ∧ t.vcpu = .running ∧ t.returned = 1 := by
  let l : List Label := sendOne ++ List.replicate 4 .vcpu ++ [.vcpuSpurious] ++ answerOne ++
    List.replicate 3 .vcpu
  have hend : (l.foldlM (fun s i => if AckInTime s i then step (exampleEnv 0) s i else none)
      (init uart5)).map (fun t => (t.vcpu, t.returned)) = some (.running, 1) := by
    decide +kernel
  obtain ⟨t, ht, hend⟩ := Option.map_eq_some_iff.1 hend
  have hguarded : Run (Guarded (Step (exampleEnv 0)) AckInTime) (init uart5) l t :=
    Run.guarded_of_foldlM ht
  have hrun : Run (Step (exampleEnv 0)) (init uart5) l t := hguarded.mono fun _ _ _ h => h.1
  obtain ⟨hv, hr⟩ := Prod.mk.inj hend
  exact ⟨l, t, hrun,
    (ack_handshake_iff (exampleEnv 0) uart5 l t rfl rfl hrun).2.2 hguarded, hv, hr⟩

/-- The answer is processed before the firmware waits, and the firmware waits for it; or
`qemu_cond_wait` comes back without a signal, and the read returns before the answer. -/
theorem ack_handshake_missed :
    (¬∀ (env : Env) (uart : Stm32Uart) (l : List Label) (t : System), uart.periph = .uart5 →
      uart.events = [] → Run (Step env) (init uart) l t → ¬AckMissed t) ∧
    ¬∀ (env : Env) (uart : Stm32Uart) (l : List Label) (t : System), uart.periph = .uart5 →
      uart.events = [] → Run (Step env) (init uart) l t → ¬EarlyReturn t := by
  constructor
  · intro hall
    let l : List Label := sendOne ++ answerOne ++ List.replicate 4 .vcpu
    have hend : (l.foldlM (step (exampleEnv 0)) (init uart5)).map
        (fun t => (t.vcpu, t.uart.events.length, t.processed)) = some (.blocked, 1, 1) := by
      decide +kernel
    obtain ⟨t, ht, hend⟩ := Option.map_eq_some_iff.1 hend
    simp only [Prod.mk.injEq] at hend
    obtain ⟨hv, hevents, hprocessed⟩ := hend
    refine hall (exampleEnv 0) uart5 l t rfl rfl (Run.some_iff_foldlM.2 ht) ⟨hv, ?_⟩
    rw [hevents, hprocessed]
  · intro hall
    let l : List Label := sendOne ++ List.replicate 4 .vcpu ++ [.vcpuSpurious, .vcpu, .vcpu]
    have hend : (l.foldlM (step (exampleEnv 0)) (init uart5)).map
        (fun t => (t.vcpu, t.processed, t.uart.events.length)) = some (.compare, 0, 1) := by
      decide +kernel
    obtain ⟨t, ht, hend⟩ := Option.map_eq_some_iff.1 hend
    simp only [Prod.mk.injEq] at hend
    obtain ⟨hv, hprocessed, hevents⟩ := hend
    refine hall (exampleEnv 0) uart5 l t rfl rfl (Run.some_iff_foldlM.2 ht)
      ⟨Or.inr (Or.inl hv), ?_⟩
    rw [hevents, hprocessed]
    exact Nat.zero_lt_one

end Handshake
end Emul
end Especial
