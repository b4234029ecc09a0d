/-
# The command thread and its wake-ups

The command thread enters `qemu_cond_wait` without looking at the queue: a command
posted while it was awake, after its last test of the queue, is not seen until the
next signal, and neither is `cmd_thread_terminate`.  `cmd_wakeup_iff` says that this
is the only way to lose a wake-up.
-/

import Especial.Emul.Effects
import Especial.Lib.Wakeup

namespace Especial
namespace Emul

open Lib

variable {s t : P103EmulState} {l : Label}

/-- The command is in the queue and its signal is not sent yet. -/
def PosterPc.inserted : PosterPc → Bool
  | .count _ | .signal _ => true
  | _ => false

/-- A call is between what it stored and its signal. -/
def SignalComing (s : P103EmulState) : Prop := s.poster.inserted = true ∨ s.exit = .signal

/-- There is something to do for the command thread. -/
def WorkDue (s : P103EmulState) : Prop := s.cmdList ≠ [] ∨ s.cmdThreadTerminate ≠ 0#32

/-- **No wake-up is lost**: if the command thread is blocked with no signal pending,
the queue is empty and it is not told to terminate. -/
def NoLostWakeup (s : P103EmulState) : Prop :=
  s.cmdThread = .blocked → ¬SignalComing s → s.cmdList = [] ∧ s.cmdThreadTerminate = 0#32

/-- The command thread enters `qemu_cond_wait` only with nothing to do, or if a
signal is still to come. -/
def WaitsIdle (s : P103EmulState) (l : Label) : Prop :=
  l = .cmd → s.cmdThread = .wait →
    (s.cmdList = [] ∧ s.cmdThreadTerminate = 0#32) ∨ SignalComing s

/-! ### What a transition can do -/

/-- After a signal the thread is not blocked. -/
theorem CmdPc.signal_eq_blocked {pc : CmdPc} : pc.signal ≠ .blocked := by
  cases pc <;> simp [CmdPc.signal]

section Awake

variable {pc next : CmdPc} {cmd : Cell}

/-- A thread that takes the mutex is awake. -/
theorem CmdPc.Locks.awake (h : pc.Locks next) :
    pc ≠ .blocked ∧ (next = .blocked ↔ pc = .wait) := by
  cases h <;> simp

/-- A thread that gives it back is awake, and blocks only in `qemu_cond_wait`. -/
theorem CmdPc.Unlocks.awake (h : pc.Unlocks next) :
    pc ≠ .blocked ∧ (next = .blocked ↔ pc = .wait) := by
  cases h <;> simp

/-- A thread that frees its record is awake. -/
theorem CmdPc.Frees.awake (h : pc.Frees cmd next) :
    pc ≠ .blocked ∧ (next = .blocked ↔ pc = .wait) := by
  cases h <;> simp

/-- A thread that goes on is awake. -/
theorem CmdPc.Goes.awake (h : pc.Goes s l next) :
    pc ≠ .blocked ∧ (next = .blocked ↔ l = .cmd ∧ pc = .wait) := by
  cases h <;> simp

end Awake

/-- What a transition of a thread that posts or exits, or a spurious wake-up, does to the
command thread: at most it wakes it, and a signal comes after all new work. -/
structure Calls (s t : P103EmulState) : Prop where
  cmdThread : t.cmdThread = s.cmdThread ∨ t.cmdThread = s.cmdThread.signal
  due : WorkDue t → WorkDue s ∨ SignalComing t
  coming : SignalComing s → SignalComing t ∨ t.cmdThread = s.cmdThread.signal

/-- Away from the signal, the calls change nothing for the command thread. -/
theorem Calls.of_due (hc : t.cmdThread = s.cmdThread) (hdue : WorkDue t → WorkDue s)
    (hcoming : SignalComing s → SignalComing t) : Calls s t :=
  ⟨Or.inl hc, fun h => Or.inl (hdue h), fun h => Or.inl (hcoming h)⟩

/-- Without a command in the queue whose signal is to come, a signal comes from
`stm32p103_emul_exit`. -/
theorem SignalComing.of_exit (hp : s.poster.inserted = false) (he : t.exit = s.exit)
    (h : SignalComing s) : SignalComing t := by
  rcases h with h | h
  · simp [hp] at h
  · exact Or.inr (he.trans h)

/-- **A transition** is one of the other threads, or one of the command thread, which
is not blocked. -/
theorem step_cases (h : Step s l t) : (l ≠ .cmd ∧ Calls s t) ∨
    (s.cmdThread ≠ .blocked ∧
      (t.cmdThread = .blocked ↔ l = .cmd ∧ s.cmdThread = .wait)) := by
  cases step_effect h with
  | post cmd hp => exact Or.inl ⟨nofun, .of_due rfl id (.of_exit (by rw [hp]; rfl) rfl)⟩
  | posterLock _ _ hp _ | posterUnlock _ hp | check _ hp =>
    exact Or.inl ⟨nofun, .of_due rfl id (.of_exit (by rw [hp]; rfl) rfl)⟩
  | insert _ _ hp =>
    exact Or.inl ⟨nofun, Or.inl rfl, fun _ => Or.inr (Or.inl rfl), fun _ => Or.inl (Or.inl rfl)⟩
  | count _ hp => exact Or.inl ⟨nofun, .of_due rfl id fun _ => Or.inl rfl⟩
  | posterSignal _ _ | exitSignal _ | spurious _ =>
    exact Or.inl ⟨nofun, Or.inr rfl, Or.inl, fun _ => Or.inr rfl⟩
  | terminate _ =>
    exact Or.inl ⟨nofun, Or.inl rfl, fun _ => Or.inr (Or.inr rfl), fun _ => Or.inl (Or.inr rfl)⟩
  | join he =>
    refine Or.inl ⟨nofun, .of_due rfl id fun hs => Or.inl ?_⟩
    exact hs.resolve_right (by simp [he])
  | cmdLock hc _ => exact Or.inr ⟨hc.awake.1, by simp [hc.awake.2]⟩
  | cmdUnlock hc => exact Or.inr ⟨hc.awake.1, by simp [hc.awake.2]⟩
  | free _ hc => exact Or.inr ⟨hc.awake.1, by simp [hc.awake.2]⟩
  | cmdGo hc => exact Or.inr hc.awake
  | pop _ hc _ | write _ _ hc | removeHead _ hc | countDown _ hc => exact Or.inr (by simp [hc])

/-- A thread that is still blocked has not moved. -/
theorem Calls.cmdThread_eq (h : Calls s t) (ht : t.cmdThread = .blocked) :
    t.cmdThread = s.cmdThread := by
  rcases h.cmdThread with hc | hc
  · exact hc
  · exact absurd (hc.symm.trans ht) CmdPc.signal_eq_blocked

/-- A signal that was coming is still coming, as long as the thread is blocked. -/
theorem Calls.coming_of_blocked (h : Calls s t) (ht : t.cmdThread = .blocked)
    (hs : SignalComing s) : SignalComing t := by
  rcases h.coming hs with hc | hc
  · exact hc
  · exact absurd (hc.symm.trans ht) CmdPc.signal_eq_blocked

/-- Entering `qemu_cond_wait` gives the mutex back. -/
theorem step_wait (h : Step s .cmd t) (hw : s.cmdThread = .wait) :
    t = { s with cmdMutex := none, cmdThread := .blocked } := by
  have hact : cmdStep s = some t := act_of_step h
  rw [cmdStep, hw] at hact
  exact (Option.some.inj hact).symm

/-! ### Runs -/

/-- The command thread as a sleeper. -/
def cmdSleeper : Sleeper Step fun _ => True where
  asleep s := s.cmdThread = .blocked
  due := WorkDue
  coming := SignalComing
  falls s l := l = .cmd ∧ s.cmdThread = .wait
  inv _ _ _ _ _ := trivial
  falls_iff s l t _ h hs := by
    rcases step_cases h with ⟨hl, hcalls⟩ | ⟨-, ht⟩
    · refine iff_of_false (fun ht => hs ?_) fun hf => hl hf.1
      rw [← hcalls.cmdThread_eq ht]
      exact ht
    · exact ht
  of_falls s l t _ h hf := by
    obtain ⟨rfl, hw⟩ := hf
    rw [step_wait h hw]
    exact ⟨by simp [hw], Iff.rfl, Iff.rfl⟩
  new_work s l t _ h hs ht hdue hdue' := by
    rcases step_cases h with ⟨-, hcalls⟩ | ⟨hs', -⟩
    · exact (hcalls.due hdue').resolve_left hdue
    · exact absurd hs hs'
  no_signal s l t _ h hs ht hcoming := by
    rcases step_cases h with ⟨-, hcalls⟩ | ⟨hs', -⟩
    · exact hcalls.coming_of_blocked ht hcoming
    · exact absurd hs hs'

/-- There is nothing to do when the queue is empty and no end is asked for. -/
theorem not_workDue : ¬WorkDue s ↔ s.cmdList = [] ∧ s.cmdThreadTerminate = 0#32 := by
  simp [WorkDue]

/-- No wake-up is lost when the sleeper is rested. -/
theorem noLostWakeup_iff : NoLostWakeup s ↔ cmdSleeper.Rested s := by
  show (_ → _ → _) ↔ (s.cmdThread = .blocked → WorkDue s → SignalComing s)
  rw [← not_workDue]
  exact forall_congr' fun _ => not_imp_not

/-- The thread waits with nothing to do when the sleeper falls asleep rested. -/
theorem waitsIdle_iff : WaitsIdle s l ↔ cmdSleeper.FallsRested s l := by
  show (_ → _ → _) ↔ (l = .cmd ∧ s.cmdThread = .wait → WorkDue s → SignalComing s)
  rw [← not_workDue, and_imp]
  exact forall₂_congr fun _ _ => imp_iff_not_or.symm

/-- A transition has one outcome. -/
theorem step_unique (s : P103EmulState) (l : Label) (t t' : P103EmulState) (h : Step s l t)
    (h' : Step s l t') : t = t' :=
  Option.some.inj (h.symm.trans h')

/-- **Wake-ups of the command thread.**  In every state of a run no wake-up is lost
exactly if in the run the thread never enters `qemu_cond_wait` with something to do
and no signal to come. -/
theorem cmd_wakeup_iff (ls : List Label) (t : P103EmulState) (hrun : Run Step init ls t) :
    (∀ l₁ u, l₁ <+: ls → Run Step init l₁ u → NoLostWakeup u) ↔
      Run (Guarded Step WaitsIdle) init ls t := by
  have hguard : (WaitsIdle : P103EmulState → Label → Prop) = cmdSleeper.FallsRested :=
    funext fun s => funext fun l => propext waitsIdle_iff
  have hinit : cmdSleeper.Rested init := noLostWakeup_iff.1 fun hb => by simp [init] at hb
  simp only [noLostWakeup_iff, hguard]
  exact cmdSleeper.rested_iff step_unique hrun trivial hinit

instance (s : P103EmulState) (l : Label) : Decidable (WaitsIdle s l) := by
  unfold WaitsIdle SignalComing
  infer_instance

/-- A command that is posted while the thread waits is sent. -/
theorem cmd_wakeup_waiting : ∃ l t, Run Step init l t ∧
    (∀ l₁ u, l₁ <+: l → Run Step init l₁ u → NoLostWakeup u) ∧
    t.sent = [cmdEvent (postEventC 0x41)] := by
  let l : List Label := [.connect true, .cmd, .cmd, .post (postEventC 0x41)] ++
    List.replicate 6 .poster ++ List.replicate 6 .cmd ++ [.write (some 24)]
  have hsent : (l.foldlM (fun s i => if WaitsIdle s i then step s i else none) init).map (·.sent) =
      some [cmdEvent (postEventC 0x41)] := by decide
  obtain ⟨t, ht, hsent⟩ := Option.map_eq_some_iff.1 hsent
  have hguarded : Run (Guarded Step WaitsIdle) init l t := Run.guarded_of_foldlM ht
  have hrun : Run Step init l t := hguarded.mono fun _ _ _ h => h.1
  exact ⟨l, t, hrun, (cmd_wakeup_iff l t hrun).2 hguarded, hsent⟩

/-- A command that is posted before the thread waits: it sleeps on it. -/
theorem cmd_wakeup_lost : ¬∀ l t, Run Step init l t → NoLostWakeup t := by
  intro hall
  let l : List Label := .post (postEventC 0x41) :: List.replicate 6 .poster ++
    [.connect true, .cmd, .cmd]
  have hlost : ∃ t, l.foldlM step init = some t ∧ ¬NoLostWakeup t := by
    refine ⟨_, rfl, fun h => ?_⟩
    have hempty := (h rfl (by unfold SignalComing; decide)).1
    simp at hempty
  obtain ⟨t, ht, hlost⟩ := hlost
  exact hlost (hall l t (Run.some_iff_foldlM.2 ht))

end Emul
end Especial
