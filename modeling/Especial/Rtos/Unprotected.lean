/-
# Critical sections that are not protected

The kernel's critical sections write `configMAX_SYSCALL_INTERRUPT_PRIORITY` to `basepri`.  In
`FreeRTOSConfig.h` of the demos that is 191, and the kernel's own interrupts have 127, which is
more urgent: neither `SysTick` nor `PendSV` is masked.  (The comment there says that 127 is what
works with QEMU; and the emulator's processor does not look at `basepri` at all.)

So a task can be preempted in a critical section.  `demo_lists_disagree` is a run in which that
happens to a `vTaskResume`, between the test whether the task is suspended and the move of its
item: meanwhile another task deletes the suspended one, and then the deleted task becomes ready,
and runs.  `kernel_lists_agree` does not hold there.
-/

import Especial.Rtos.Runs

namespace Especial
namespace Rtos

open Lib

/-- The settings of the demos do not protect a critical section. -/
theorem demoConfig_masks (basepri : Bool) : (demoConfig basepri).masks = false := by
  cases basepri <;> decide

namespace System

/-- The third task suspends itself.  The first one calls `vTaskResume` for it, and is preempted by
the second one when it has seen that the task is suspended.  The second one deletes the task; then
the first one goes on, and after two more ticks it is the turn of the third. -/
def resumeRun : List (Event Task) :=
  [.call (.vTaskSuspend none), .piece, .piece, .xPortPendSVHandler,
    .call (.vTaskResume .three), .piece, .xPortSysTickHandler, .xPortPendSVHandler,
    .call (.vTaskDelete (some .three)), .piece, .xPortSysTickHandler, .xPortPendSVHandler,
    .piece, .xPortPendSVHandler, .xPortSysTickHandler, .xPortPendSVHandler, .xPortSysTickHandler,
    .xPortPendSVHandler]

/-- **With the settings of the demos a deleted task runs.**  They do not protect a critical section,
and there is a run after which a task that has been deleted is in a ready list and is the running
task; the idle task is told to remove one task and finds none. -/
theorem demo_lists_disagree (basepri : Bool) :
    (demoConfig basepri).masks = false ∧ ∃ s₀ s : System Task,
      Started (demoConfig basepri) [(.one, 3), (.two, 3), (.three, 3)] .idle s₀ ∧
      Run (Step .idle) s₀ resumeRun s ∧ s.kernel.pxCurrentTCB = some .three ∧
      s.kernel.heap.pvContainer (.xGenericListItem .three) = some (.pxReadyTasksLists 3) ∧
      s.kernel.uxTasksDeleted = 1 ∧
      s.kernel.heap.uxNumberOfItems .xTasksWaitingTermination = 0 ∧
      ¬ ListsAgree .idle s.kernel := by
  have htrial : trial (demoConfig basepri) [(.one, 3), (.two, 3), (.three, 3)] .idle 8 resumeRun
      (fun _ s => s.kernel.pxCurrentTCB = some .three ∧
        s.kernel.heap.pvContainer (.xGenericListItem .three) = some (.pxReadyTasksLists 3) ∧
        s.kernel.uxTasksDeleted = 1 ∧
        s.kernel.heap.uxNumberOfItems .xTasksWaitingTermination = 0) = true := by
    cases basepri <;> decide +kernel
  obtain ⟨s₀, s, hstart, hrun, hs⟩ := exists_run_of_trial htrial
  obtain ⟨hcurrent, hready, hdeleted, hnone⟩ := of_decide_eq_true hs
  refine ⟨demoConfig_masks basepri, s₀, s, hstart, hrun, hcurrent, hready, hdeleted, hnone,
    fun hagree => ?_⟩
  have hcount := hagree.deleted
  rw [hdeleted, hnone] at hcount
  exact absurd hcount (by decide)

end System

end Rtos
end Especial
