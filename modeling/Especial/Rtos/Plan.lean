/-
# What the pieces do to the scheduler

`perform` is what a piece of a call does.  `Keeps` says of an operation that it leaves the running
task where it is and the most important one, or asks for a switch; most operations keep that, and
each has a lemma for it.
-/

import Especial.Rtos.SaneTasks
import Especial.Rtos.System

namespace Especial
namespace Rtos

open Lib

namespace Sched

variable {T : Type} {a b : Sched T} {t u idle : T} {l : Place} {n : ℕ}

/-- The running task is ready. -/
def Runs (a : Sched T) : Prop := a.At a.current (.ready (a.priority a.current))

/-- A ready task with a higher priority than the running one has one up to `n`. -/
def TopBut (n : ℕ) (a : Sched T) : Prop :=
  ∀ u q, a.At u (.ready q) → a.priority a.current < q → (q : ℕ) ≤ n

/-- Nothing is missed while the scheduler is not locked. -/
def Quiet (a : Sched T) : Prop :=
  a.locks = 0 → a.pending = [] ∧ a.missedTicks = 0 ∧ a.missedYield = false

/-- The running task stays as important if its priority does not fall and no more important task
becomes ready. -/
theorem TopBut.mono (h : a.TopBut n) {m : ℕ} (hn : n ≤ m)
    (hpriority : a.priority a.current ≤ b.priority b.current)
    (hready : ∀ u q, b.At u (.ready q) → b.priority b.current < q → a.At u (.ready q)) :
    b.TopBut m :=
  fun u q hu hq => (h u q (hready u q hu hq) (hpriority.trans_lt hq)).trans hn

/-- What an operation keeps that leaves the running task where it is. -/
structure KeepsRunning (a b : Sched T) : Prop where
  current : b.current = a.current
  locks : b.locks = a.locks
  missedYield : b.missedYield = a.missedYield
  switchPending : a.switchPending = true → b.switchPending = true
  quiet : a.Quiet → b.Quiet
  timely : a.Timely → b.Timely
  runs : a.Runs → b.Runs

/-- It also leaves the running task the most important one, or asks for a switch. -/
structure Keeps (a b : Sched T) : Prop extends KeepsRunning a b where
  top : ∀ n, a.TopBut n → b.switchPending = true ∨ b.TopBut n

/-- Nothing happens. -/
theorem KeepsRunning.refl (a : Sched T) : KeepsRunning a a := ⟨rfl, rfl, rfl, id, id, id, id⟩

/-- Nothing happens. -/
theorem Keeps.refl (a : Sched T) : Keeps a a := ⟨.refl a, fun _ => Or.inr⟩

/-- A switch is asked for. -/
theorem KeepsRunning.yield (h : KeepsRunning a b) : Keeps a b.yield :=
  ⟨⟨h.current, h.locks, h.missedYield, fun _ => rfl, h.quiet, h.timely, h.runs⟩,
    fun _ _ => Or.inl rfl⟩

/-- A task that moves leaves the running one alone, if it is another one. -/
theorem Moves.keepsRunning (h : Moves t l a b) (ht : a.Runs → t ≠ a.current)
    (hcurrent : b.current = a.current) (hlocks : b.locks = a.locks)
    (hticks : b.missedTicks = a.missedTicks) (hyield : b.missedYield = a.missedYield)
    (hswitch : b.switchPending = a.switchPending) (htimely : a.Timely → b.Timely) :
    KeepsRunning a b where
  current := hcurrent
  locks := hlocks
  missedYield := hyield
  switchPending hpending := hswitch.trans hpending
  quiet hquiet hzero := by
    obtain ⟨hpending, hrest⟩ := hquiet (hlocks ▸ hzero)
    rw [hticks, hyield]
    refine ⟨List.eq_nil_iff_forall_not_mem.2 fun u hu => ?_, hrest⟩
    have hmem := (h.pending u hu).2
    rw [hpending] at hmem
    exact absurd hmem List.not_mem_nil
  timely := htimely
  runs hruns := by
    rw [Runs, h.at_iff, hcurrent, h.priority]
    exact Or.inl ⟨(ht hruns).symm, hruns⟩

/-- It leaves it the most important one, if it is not more important itself. -/
theorem Moves.keeps (h : Moves t l a b) (hk : KeepsRunning a b)
    (hl : ∀ q, l = .ready q → q ≤ a.priority a.current) : Keeps a b := by
  refine ⟨hk, fun n htop => Or.inr ?_⟩
  have hsame : b.priority b.current = a.priority a.current := by rw [hk.current, h.priority]
  refine htop.mono le_rfl hsame.ge fun u q hu hq => ?_
  rcases h.at_iff.1 hu with ⟨-, hu⟩ | ⟨-, hq'⟩
  · exact hu
  · exact absurd (hl q hq'.symm) (not_le.2 (hsame ▸ hq))

variable [DecidableEq T]

/-- A task less, and what the others wait for is still to come. -/
theorem timely_take (h : a.Timely) (t : T) : (a.take t).Timely :=
  fun x hx => h x (List.mem_of_mem_filter hx)

/-- What a piece does to the scheduler, and the pieces that follow from it. -/
def perform (a : Sched T) : Piece T → Sched T × List (Piece T)
  | .vTaskSuspendAll => (a.lock, [])
  | .xTaskResumeAll => (a.unlock.1, [])
  | .xTaskResumeAllAndYield => (a.unlock.1, if a.unlock.2 then [] else [.portYIELD])
  | .vTaskDelayBody xTicksToDelay => (a.delay a.current xTicksToDelay.toNat, [])
  | .vTaskDelayUntilBody xPreviousWakeTime xTimeIncrement =>
    (a.delayUntil a.current (BitVec.ofNat 32 a.now - xPreviousWakeTime).toNat xTimeIncrement.toNat,
      [])
  | .portYIELD => (a.yield, [])
  | .vTaskSuspend h =>
    (a.suspend (h.getD a.current), if h.getD a.current = a.current then [.portYIELD] else [])
  | .vTaskResume t => (a.resume t, [])
  | .xTaskIsTaskSuspended t =>
    (a, if t ≠ a.current ∧ a.IsSuspended t then [.readySuspendedTask t] else [])
  | .readySuspendedTask t =>
    (if a.priority t ≥ a.priority a.current then ((a.take t).enqueue t).yield
      else (a.take t).enqueue t, [])
  | .vTaskPrioritySet h n => (a.setPriority (h.getD a.current) (Kernel.cappedPriority n), [])
  | .vTaskDelete h =>
    (a.delete (h.getD a.current), if h.getD a.current = a.current then [.portYIELD] else [])
  | .xTaskGenericCreate t n => (a.create t n, [.yieldAfterCreate n])
  | .yieldAfterCreate n => (if a.priority a.current < n then a.yield else a, [])
  | .prvCheckTasksWaitingTermination =>
    (a, if a.deletions > 0 then [.vTaskSuspendAll, .xListIsEmpty] else [])
  | .xListIsEmpty =>
    (a, .xTaskResumeAll :: if a.deleted = [] then [] else .removeDeletedTask :: Piece.prvDeleteTCB)
  | .removeDeletedTask => (a.reap, [])
  | .yieldIfShared => (if (a.ready tskIDLE_PRIORITY).length > 1 then a.yield else a, [])

/-- What the kernel asks of the application when a piece is done. -/
def AdmitsPiece (a : Sched T) (idle : T) : Piece T → Prop
  | .vTaskSuspendAll => a.locks + 1 < 2 ^ 32
  | .vTaskSuspend h | .vTaskDelete h =>
    a.Live (h.getD a.current) ∧ h.getD a.current ≠ idle ∧
      (h.getD a.current = a.current → a.locks = 0)
  | .vTaskResume t | .xTaskIsTaskSuspended t => a.Live t
  | .vTaskPrioritySet h _ => a.Live (h.getD a.current) ∧ h.getD a.current ≠ idle
  | .xTaskGenericCreate t _ => ¬ a.Holds t ∧ a.tasks.length + 1 < 2 ^ 32
  | _ => True

/-- What the kernel asks of the application when a call is made. -/
def AdmitsCall (a : Sched T) : Call T → Prop
  | .vTaskDelay _ | .vTaskDelayUntil _ _ => a.locks = 0
  | .xTaskResumeAll => a.locks > 0
  | _ => True

/-! ### Ready tasks stay ready when others wake up -/

/-- Tasks that become ready leave the ready ones in their queues. -/
theorem Sane.at_ready_foldl_wake (h : a.Sane idle) {q : Priority} (hu : a.At u (.ready q))
    (ts : List T) : (ts.foldl Sched.wake a).At u (.ready q) := by
  rw [at_foldl_wake]
  by_cases hmem : u ∈ ts
  · exact Or.inr ⟨hmem, by rw [h.ready hu]⟩
  · exact Or.inl ⟨hmem, hu⟩

/-- So does a tick. -/
theorem Sane.at_ready_advance (h : a.Sane idle) {q : Priority} (hu : a.At u (.ready q)) :
    a.advance.At u (.ready q) :=
  Sane.at_ready_foldl_wake (a := { a with now := a.now + 1 }) h.vary hu _

/-- What a missed tick leaves alone when it is counted. -/
theorem countMissed_frame {β : Type} (f : Sched T → β) (hf : ∀ a t, f (wake a t) = f a)
    (hnow : ∀ (a : Sched T) n, f { a with now := n } = f a)
    (hmissed : ∀ (a : Sched T) n, f { a with missedTicks := n } = f a) (a : Sched T) :
    f a.countMissed = f a := by
  rw [countMissed, hmissed, advance_frame f hf hnow]

/-- What counting all missed ticks leaves alone. -/
theorem catchUp_frame {β : Type} (f : Sched T → β) (hf : ∀ a t, f (wake a t) = f a)
    (hnow : ∀ (a : Sched T) n, f { a with now := n } = f a)
    (hmissed : ∀ (a : Sched T) n, f { a with missedTicks := n } = f a) (a : Sched T) :
    f a.catchUp = f a := by
  rw [catchUp]
  generalize a.missedTicks = n
  induction n generalizing a with
  | zero => rfl
  | succ n ih =>
    rw [Function.iterate_succ_apply, ih]
    exact countMissed_frame f hf hnow hmissed a

/-! ### What the operations keep -/

/-- Suspending another task keeps the running one. -/
theorem keeps_suspend (ht : t ≠ a.current) : Keeps a (a.suspend t) :=
  moves_suspend.keeps
    (moves_suspend.keepsRunning (fun _ => ht) rfl rfl rfl rfl rfl (timely_take · t)) (by simp)

/-- A suspended task is resumed. -/
theorem Sane.keepsRunning_take_enqueue (h : a.Sane idle) (ht : a.IsSuspended t) :
    KeepsRunning a ((a.take t).enqueue t) := by
  refine (moves_take_enqueue ht.2).keepsRunning (fun hruns heq => ?_) rfl rfl rfl rfl rfl
    (timely_take · t)
  have hsuspended : a.At a.current .suspended := heq ▸ ht.1
  exact absurd (h.unique hruns hsuspended) (by simp)

/-- It has the running task make way if its priority is not lower. -/
theorem Sane.keeps_take_enqueue (h : a.Sane idle) (ht : a.IsSuspended t) :
    Keeps a (if a.priority t ≥ a.priority a.current then ((a.take t).enqueue t).yield
      else (a.take t).enqueue t) := by
  have hk := h.keepsRunning_take_enqueue ht
  split
  · exact hk.yield
  · rename_i hlower
    refine (moves_take_enqueue ht.2).keeps hk fun q hq => ?_
    rw [← Place.ready.inj hq]
    exact (not_le.1 hlower).le

/-- Resuming a task keeps the running one, or asks for a switch. -/
theorem Sane.keeps_resume (h : a.Sane idle) (t : T) : Keeps a (a.resume t) := by
  rw [Sched.resume]
  split
  · rename_i ht
    exact h.keeps_take_enqueue ht.2
  · exact .refl a

/-- So does an interrupt handler that resumes one. -/
theorem Sane.keeps_resumeFromISR (h : a.Sane idle) (t : T) : Keeps a (a.resumeFromISR t) := by
  rw [Sched.resumeFromISR]
  split
  · rename_i ht
    split
    · exact h.keeps_take_enqueue ht
    · rename_i hlocks
      exact ⟨⟨rfl, rfl, rfl, id, fun _ hzero => absurd hzero hlocks, id, id⟩,
        fun _ => Or.inr⟩
  · exact .refl a

/-- Tasks that become ready are pending no longer. -/
theorem foldl_wake_pending (a : Sched T) (ts : List T) :
    (ts.foldl wake a).pending = a.pending.filter (· ∉ ts) := by
  induction ts generalizing a with
  | nil => simp
  | cons t ts ih =>
    rw [List.foldl_cons, ih]
    show (a.pending.filter (· ≠ t)).filter (· ∉ ts) = _
    rw [List.filter_filter]
    exact List.filter_congr fun u _ => by simp [Bool.and_comm]

/-- A tick makes no task pending. -/
theorem advance_pending (h : a.pending = []) : a.advance.pending = [] := by
  rw [advance, wakeDue, foldl_wake_pending]
  show a.pending.filter _ = []
  rw [h, List.filter_nil]

/-- A tick comes, and asks for a switch. -/
theorem Sane.keeps_tick (h : a.Sane idle) : Keeps a a.yield.tick := by
  rw [Sched.tick]
  split
  · rename_i hlocks
    have hsame {β : Type} (f : Sched T → β) (hf : ∀ a t, f (Sched.wake a t) = f a)
        (hnow : ∀ (a : Sched T) n, f { a with now := n } = f a) : f a.yield.advance = f a.yield :=
      advance_frame f hf hnow a.yield
    have hyield : a.yield.Sane idle := h.vary
    have hswitch := hsame (·.switchPending) (fun _ _ => rfl) fun _ _ => rfl
    have hcurrent : a.yield.advance.current = a.current :=
      hsame (·.current) (fun _ _ => rfl) fun _ _ => rfl
    have hpriority : a.yield.advance.priority = a.priority :=
      hsame (·.priority) (fun _ _ => rfl) fun _ _ => rfl
    have hlocks : a.yield.advance.locks = a.locks :=
      hsame (·.locks) (fun _ _ => rfl) fun _ _ => rfl
    have hmissed : a.yield.advance.missedYield = a.missedYield :=
      hsame (·.missedYield) (fun _ _ => rfl) fun _ _ => rfl
    have hticks : a.yield.advance.missedTicks = a.missedTicks :=
      hsame (·.missedTicks) (fun _ _ => rfl) fun _ _ => rfl
    refine ⟨⟨hcurrent, hlocks, hmissed, fun _ => hswitch, fun hquiet hzero => ?_,
      fun _ => timely_advance _, fun hruns => ?_⟩, fun _ _ => Or.inl hswitch⟩
    · obtain ⟨hnil, hrest⟩ := hquiet (hlocks ▸ hzero)
      rw [hmissed, hticks]
      exact ⟨advance_pending (a := a.yield) hnil, hrest⟩
    · rw [Runs, hcurrent, hpriority]
      exact hyield.at_ready_advance hruns
  · rename_i hlocks
    exact ⟨⟨rfl, rfl, rfl, fun _ => rfl, fun _ hzero => absurd hzero hlocks, id, id⟩,
      fun _ _ => Or.inl rfl⟩

/-- Removing a deleted task keeps the running one. -/
theorem Sane.keeps_reap (h : a.Sane idle) : Keeps a a.reap := by
  rw [Sched.reap]
  split
  · exact .refl a
  · rename_i t ts hcons
    have ht : a.At t .deleted := by
      show t ∈ a.deleted
      rw [hcons]
      exact List.mem_cons_self
    refine ⟨⟨rfl, rfl, rfl, id, id, (timely_take · t), fun hruns => ?_⟩,
      fun n htop => Or.inr ?_⟩
    · refine at_take.2 ⟨?_, hruns⟩
      rintro rfl
      exact absurd (h.unique hruns ht) (by simp)
    · exact htop.mono (b := { a.take t with
        tasks := a.tasks.filter (· ≠ t), deletions := a.deletions - 1 }) le_rfl le_rfl
        fun u q hu _ => (at_take.1 hu).2

/-- Deleting another task keeps the running one. -/
theorem keeps_delete (ht : t ≠ a.current) : Keeps a (a.delete t) := by
  refine ⟨⟨rfl, rfl, rfl, id, fun hquiet hzero => ?_, (timely_take · t), fun hruns => ?_⟩,
    fun n htop => Or.inr ?_⟩
  · obtain ⟨hnil, hrest⟩ := hquiet hzero
    refine ⟨?_, hrest⟩
    show a.pending.filter (· ≠ t) = []
    rw [hnil]
    rfl
  · exact at_delete.2 (Or.inl ⟨ht.symm, hruns⟩)
  · refine htop.mono (b := a.delete t) le_rfl le_rfl fun u q hu _ => ?_
    rcases at_delete.1 hu with ⟨-, hu⟩ | ⟨-, hq⟩
    · exact hu
    · simp at hq

/-! ### A new priority -/

/-- What a new priority leaves alone. -/
theorem changePriority_frame {β : Type} (f : Sched T → β)
    (hf : ∀ (a : Sched T) t, f ((a.take t).enqueue t) = f a)
    (hpriority : ∀ (a : Sched T) p q, f { a with priority := p, base := q } = f a)
    (a : Sched T) (t : T) (p : Priority) : f (a.changePriority t p) = f a := by
  rw [changePriority]
  split
  · rw [hf]
    exact hpriority a _ _
  · exact hpriority a _ _

/-- The priorities after one was changed. -/
theorem Sane.changePriority_priority (h : a.Sane idle) (t : T) (p : Priority) :
    (a.changePriority t p).priority = Function.update a.priority t p := by
  rw [← h.withPriority_priority, Sched.changePriority]
  split <;> rfl

/-- Where a task is when it or another one has got the priority `p`. -/
theorem Sane.at_changePriority (h : a.Sane idle) {p : Priority} : (a.changePriority t p).At u l ↔
    if u = t ∧ t ∈ a.ready (a.base t) then l = .ready p else a.At u l := by
  rw [Sched.changePriority]
  split
  · rename_i hready
    have hpriority : ((a.withPriority t p).take t).priority t = p := by
      show (a.withPriority t p).priority t = p
      rw [h.withPriority_priority, Function.update_self]
    rw [at_enqueue, at_take, at_withPriority, hpriority]
    by_cases heq : u = t <;> simp [heq, hready]
  · rename_i hready
    rw [at_withPriority, if_neg fun hand => hready hand.2]

/-- A new priority leaves the running task where it is. -/
theorem Sane.keepsRunning_changePriority (h : a.Sane idle) (t : T) (p : Priority) :
    KeepsRunning a (a.changePriority t p) := by
  have hsame {β : Type} (f : Sched T → β) (hf : ∀ (a : Sched T) t,
      f ((a.take t).enqueue t) = f a)
      (hpriority : ∀ (a : Sched T) p q, f { a with priority := p, base := q } = f a) :
      f (a.changePriority t p) = f a := changePriority_frame f hf hpriority a t p
  have hcurrent := hsame (·.current) (fun _ _ => rfl) fun _ _ _ => rfl
  have hlocks := hsame (·.locks) (fun _ _ => rfl) fun _ _ _ => rfl
  have hmissed := hsame (·.missedYield) (fun _ _ => rfl) fun _ _ _ => rfl
  have hswitch := hsame (·.switchPending) (fun _ _ => rfl) fun _ _ _ => rfl
  refine ⟨hcurrent, hlocks, hmissed, hswitch.trans, fun hquiet hzero => ?_, fun htimely => ?_,
    fun hruns => ?_⟩
  · rw [hmissed, hsame (·.pending) (fun _ _ => rfl) fun _ _ _ => rfl,
      hsame (·.missedTicks) (fun _ _ => rfl) fun _ _ _ => rfl]
    exact hquiet (hlocks ▸ hzero)
  · rw [Sched.changePriority]
    split
    · exact timely_take (a := a.withPriority t p) htimely t
    · exact htimely
  · rw [Runs, hcurrent, h.at_changePriority, h.changePriority_priority]
    split
    · rename_i hself
      rw [hself.1, Function.update_self]
    · rename_i hother
      have hne : a.current ≠ t := by
        rintro rfl
        exact hother ⟨rfl, h.mem_ready_base hruns⟩
      rw [Function.update_of_ne hne]
      exact hruns

/-- Without a switch: the running task has become more important, or another one less so. -/
theorem Sane.keeps_changePriority (h : a.Sane idle) {p : Priority} (hne : a.base t ≠ p)
    (hyields : ¬ a.Yields t p) : Keeps a (a.changePriority t p) := by
  refine ⟨h.keepsRunning_changePriority t p, fun n htop => Or.inr fun u q hu hq => ?_⟩
  have hcurrent : (a.changePriority t p).current = a.current :=
    changePriority_frame (·.current) (fun _ _ => rfl) (fun _ _ _ => rfl) a t p
  rw [hcurrent, h.changePriority_priority] at hq
  rw [h.at_changePriority] at hu
  rw [Yields, h.base] at hyields
  rw [h.base] at hne
  by_cases hup : p > a.priority t
  · obtain rfl : t = a.current := by simpa [hup] using hyields
    rw [Function.update_self] at hq
    split at hu
    · exact absurd hq (by rw [Place.ready.inj hu]; exact lt_irrefl p)
    · exact htop u q hu (hup.trans hq)
  · have hother : t ≠ a.current := by simpa [hup] using hyields
    have hdown : p < a.priority t := lt_of_le_of_ne (not_lt.1 hup) (Ne.symm hne)
    rw [Function.update_of_ne hother.symm] at hq
    split at hu
    · rename_i hready
      obtain rfl := Place.ready.inj hu
      have hle := htop t (a.priority t) (h.base ▸ hready.2) (hq.trans hdown)
      exact (Fin.le_def.1 hdown.le).trans hle
    · exact htop u q hu hq

/-- **`vTaskPrioritySet` keeps the most important task running**, or asks for a switch. -/
theorem Sane.keeps_setPriority (h : a.Sane idle) (t : T) (p : Priority) :
    Keeps a (a.setPriority t p) := by
  rcases a.setPriority_cases t p with heq | ⟨-, -, heq⟩ | ⟨hne, hyields, heq⟩ <;> rw [heq]
  · exact .refl a
  · exact (h.keepsRunning_changePriority t p).yield
  · exact h.keeps_changePriority hne hyields

end Sched

end Rtos
end Especial
