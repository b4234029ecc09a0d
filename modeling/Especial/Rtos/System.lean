/-
# Tasks and interrupts

The kernel under a load: tasks that call it, the tick, the context switch and interrupt
handlers that resume tasks, in any order.

A call of a task is a list of *pieces*.  A critical section is a piece, and so is what a
function does with the scheduler suspended; an interrupt may come between two pieces, and a
context switch with it.  `todo` is what is left of the call that a task is in: a task that is
preempted goes on with it when it runs again.  `PendSV` is taken before the running task's
next piece.

A critical section is a piece if `basepri` masks the kernel's interrupts in it (`Config`).  If it
does not, they come in the middle of it also, and `vTaskResume` is then two pieces: it looks
whether the task is suspended, and then moves it.  (The other critical sections are not split
further; one is enough to see what comes of it.)

The calls are those of `task.h`.  Tasks do not use queues, semaphores or mutexes: `queue.c` is not
modelled, and with it the event lists and the inheritance of priorities.

`Admits` says what the application owes to the kernel.  A handle is that of a task that has
been created and not deleted, and not of the idle task, whose handle is not given away.  A
task does not block while the scheduler is suspended, as `task.h` asks.  And the counters have
room: there are fewer than `2 ^ 32` tasks at a time, nested suspensions and ticks in a suspension.
-/

import Especial.Rtos.Tasks

namespace Especial
namespace Rtos

open Lib

/-- The settings by which the kernel protects its critical sections. -/
structure Config where
  /-- the priority of `SysTick` and of `PendSV` -/
  configKERNEL_INTERRUPT_PRIORITY : BitVec 8
  /-- what a critical section writes to `basepri` -/
  configMAX_SYSCALL_INTERRUPT_PRIORITY : BitVec 8
  /-- the processor looks at `basepri`; the emulator's only stores it -/
  basepri : Bool
  deriving DecidableEq

/-- A critical section masks the kernel's interrupts.  The processor has the four upper bits of a
priority, and zero in `basepri` masks nothing. -/
def Config.masks (c : Config) : Bool :=
  c.basepri && c.configMAX_SYSCALL_INTERRUPT_PRIORITY >>> 4 ≠ 0 &&
    c.configMAX_SYSCALL_INTERRUPT_PRIORITY >>> 4 ≤ c.configKERNEL_INTERRUPT_PRIORITY >>> 4

/-- `FreeRTOSConfig.h` of the demos, on a processor that looks at `basepri` or on one that does
not. -/
def demoConfig (basepri : Bool) : Config := ⟨127, 191, basepri⟩

/-- A piece of a call. -/
inductive Piece (T : Type)
  | vTaskSuspendAll
  | xTaskResumeAll
  /-- the end of a delay, with a yield if `xTaskResumeAll` has not done one -/
  | xTaskResumeAllAndYield
  | vTaskDelayBody (xTicksToDelay : BitVec 32)
  | vTaskDelayUntilBody (xPreviousWakeTime xTimeIncrement : BitVec 32)
  | portYIELD
  | vTaskSuspend (pxTaskToSuspend : Option T)
  | vTaskResume (pxTaskToResume : T)
  /-- the first half of a `vTaskResume` that is not protected -/
  | xTaskIsTaskSuspended (pxTCB : T)
  /-- the second half of it -/
  | readySuspendedTask (pxTCB : T)
  | vTaskPrioritySet (pxTask : Option T) (uxNewPriority : ℕ)
  | vTaskDelete (pxTaskToDelete : Option T)
  | xTaskGenericCreate (pxNewTCB : T) (uxPriority : ℕ)
  /-- the end of `xTaskGenericCreate` -/
  | yieldAfterCreate (uxPriority : ℕ)
  | prvCheckTasksWaitingTermination
  /-- `prvCheckTasksWaitingTermination` looks at its list -/
  | xListIsEmpty
  | removeDeletedTask
  /-- the end of a round of the idle task -/
  | yieldIfShared
  deriving DecidableEq

/-- A call of a task. -/
inductive Call (T : Type)
  | vTaskDelay (xTicksToDelay : BitVec 32)
  | vTaskDelayUntil (xPreviousWakeTime xTimeIncrement : BitVec 32)
  | taskYIELD
  | vTaskSuspend (pxTaskToSuspend : Option T)
  | vTaskResume (pxTaskToResume : T)
  | vTaskPrioritySet (pxTask : Option T) (uxNewPriority : ℕ)
  | vTaskDelete (pxTaskToDelete : Option T)
  /-- with the control block that `pvPortMalloc` finds for the task -/
  | xTaskGenericCreate (pxNewTCB : T) (uxPriority : ℕ)
  | vTaskSuspendAll
  | xTaskResumeAll
  /-- also `vPortFree` -/
  | pvPortMalloc
  /-- a round of the idle task -/
  | prvIdleTask
  deriving DecidableEq

/-- The pieces of `pvPortMalloc` and of `vPortFree`. -/
def Piece.pvPortMalloc {T : Type} : List (Piece T) := [.vTaskSuspendAll, .xTaskResumeAll]

/-- The pieces of `prvDeleteTCB`, which frees the stack and the control block. -/
def Piece.prvDeleteTCB {T : Type} : List (Piece T) := pvPortMalloc ++ pvPortMalloc

/-- The pieces of `prvAllocateTCBAndStack`. -/
def Piece.prvAllocateTCBAndStack {T : Type} : List (Piece T) := pvPortMalloc ++ pvPortMalloc

/-- The pieces of a call, if critical sections are protected. -/
def Call.pieces {T : Type} : Call T → List (Piece T)
  | .vTaskDelay xTicksToDelay =>
    if xTicksToDelay > 0 then
      [.vTaskSuspendAll, .vTaskDelayBody xTicksToDelay, .xTaskResumeAllAndYield]
    else [.portYIELD]
  | .vTaskDelayUntil xPreviousWakeTime xTimeIncrement =>
    [.vTaskSuspendAll, .vTaskDelayUntilBody xPreviousWakeTime xTimeIncrement,
      .xTaskResumeAllAndYield]
  | .taskYIELD => [.portYIELD]
  | .vTaskSuspend pxTaskToSuspend => [.vTaskSuspend pxTaskToSuspend]
  | .vTaskResume pxTaskToResume => [.vTaskResume pxTaskToResume]
  | .vTaskPrioritySet pxTask uxNewPriority => [.vTaskPrioritySet pxTask uxNewPriority]
  | .vTaskDelete pxTaskToDelete => [.vTaskDelete pxTaskToDelete]
  | .xTaskGenericCreate pxNewTCB uxPriority =>
    Piece.prvAllocateTCBAndStack ++ [.xTaskGenericCreate pxNewTCB uxPriority]
  | .vTaskSuspendAll => [.vTaskSuspendAll]
  | .xTaskResumeAll => [.xTaskResumeAll]
  | .pvPortMalloc => Piece.pvPortMalloc
  | .prvIdleTask => [.prvCheckTasksWaitingTermination, .yieldIfShared]

/-- The pieces of a call under the settings `config`. -/
def Call.piecesUnder {T : Type} (config : Config) : Call T → List (Piece T)
  | .vTaskResume pxTaskToResume =>
    if config.masks then [.vTaskResume pxTaskToResume] else [.xTaskIsTaskSuspended pxTaskToResume]
  | c => c.pieces

namespace Kernel

variable {T : Type} [DecidableEq T]

/-- A piece is done, and the pieces that follow from it are to be done next. -/
def perform (k : Kernel T) (n : ℕ) : Piece T → Prog (Kernel T × List (Piece T))
  | .vTaskSuspendAll => return (k.vTaskSuspendAll, [])
  | .xTaskResumeAll => do
    let (k, _) ← k.xTaskResumeAll n
    return (k, [])
  | .xTaskResumeAllAndYield => do
    let (k, xAlreadyYielded) ← k.xTaskResumeAll n
    return (k, if xAlreadyYielded then [] else [.portYIELD])
  | .vTaskDelayBody xTicksToDelay => do
    return (← k.vTaskDelayBody n xTicksToDelay, [])
  | .vTaskDelayUntilBody xPreviousWakeTime xTimeIncrement => do
    let (k, _) ← k.vTaskDelayUntilBody n xPreviousWakeTime xTimeIncrement
    return (k, [])
  | .portYIELD => return (k.portYIELD, [])
  | .vTaskSuspend pxTaskToSuspend => do
    let (k, yields) ← k.vTaskSuspend n pxTaskToSuspend
    return (k, if yields then [.portYIELD] else [])
  | .vTaskResume pxTaskToResume => do
    return (← k.vTaskResume (some pxTaskToResume), [])
  | .xTaskIsTaskSuspended pxTCB =>
    return (k, if some pxTCB ≠ k.pxCurrentTCB ∧ k.xTaskIsTaskSuspended pxTCB then
      [.readySuspendedTask pxTCB] else [])
  | .readySuspendedTask pxTCB => do
    return (← k.readySuspendedTask pxTCB, [])
  | .vTaskPrioritySet pxTask uxNewPriority => do
    return (← k.vTaskPrioritySet pxTask uxNewPriority, [])
  | .vTaskDelete pxTaskToDelete => do
    let (k, yields) ← k.vTaskDelete pxTaskToDelete
    return (k, if yields then [.portYIELD] else [])
  | .xTaskGenericCreate pxNewTCB uxPriority =>
    return (k.xTaskGenericCreate pxNewTCB uxPriority, [.yieldAfterCreate uxPriority])
  | .yieldAfterCreate uxPriority => do
    return (if ← k.yieldsAfterCreate uxPriority then k.portYIELD else k, [])
  | .prvCheckTasksWaitingTermination =>
    return (k, if k.uxTasksDeleted > 0 then [.vTaskSuspendAll, .xListIsEmpty] else [])
  | .xListIsEmpty =>
    return (k, .xTaskResumeAll ::
      if listLIST_IS_EMPTY k.heap .xTasksWaitingTermination then []
      else .removeDeletedTask :: Piece.prvDeleteTCB)
  | .removeDeletedTask => do
    return (← k.removeDeletedTask, [])
  | .yieldIfShared =>
    return (if k.heap.uxNumberOfItems (.pxReadyTasksLists tskIDLE_PRIORITY) > 1 then k.portYIELD
      else k, [])

/-- The task has been created, and has not been deleted. -/
def Alive (k : Kernel T) (pxTCB : T) : Prop :=
  k.heap.pvContainer (.xGenericListItem pxTCB) ≠ none ∧
    k.heap.pvContainer (.xGenericListItem pxTCB) ≠ some .xTasksWaitingTermination

instance (k : Kernel T) (pxTCB : T) : Decidable (k.Alive pxTCB) :=
  inferInstanceAs (Decidable (_ ∧ _))

/-- The handle is that of a task that the application may act on. -/
def Valid (k : Kernel T) (idle : T) (pxHandle : Option T) : Prop :=
  ∀ pxTCB ∈ pxHandle.or k.pxCurrentTCB, k.Alive pxTCB ∧ pxTCB ≠ idle

/-- If the handle is that of the running task, then the scheduler is not suspended. -/
def MayBlock (k : Kernel T) (pxHandle : Option T) : Prop :=
  pxHandle.or k.pxCurrentTCB = k.pxCurrentTCB → k.uxSchedulerSuspended = 0

/-- What the kernel asks of the application when a piece is done. -/
def AdmitsPiece (k : Kernel T) (idle : T) : Piece T → Prop
  | .vTaskSuspendAll => k.uxSchedulerSuspended ≠ BitVec.allOnes 32
  | .vTaskSuspend pxTask | .vTaskDelete pxTask => k.Valid idle pxTask ∧ k.MayBlock pxTask
  | .vTaskResume pxTask | .xTaskIsTaskSuspended pxTask => k.Alive pxTask
  | .vTaskPrioritySet pxTask _ => k.Valid idle pxTask
  | .xTaskGenericCreate pxNewTCB _ =>
    k.heap.pvContainer (.xGenericListItem pxNewTCB) = none ∧
      k.uxCurrentNumberOfTasks ≠ BitVec.allOnes 32
  | _ => True

/-- What the kernel asks of the application when a call is made. -/
def AdmitsCall (k : Kernel T) : Call T → Prop
  | .vTaskDelay _ | .vTaskDelayUntil _ _ => k.uxSchedulerSuspended = 0
  | .xTaskResumeAll => k.uxSchedulerSuspended > 0
  | _ => True

end Kernel

/-- What happens next. -/
inductive Event (T : Type)
  /-- the running task makes a call -/
  | call (c : Call T)
  /-- the running task does the next piece of its call -/
  | piece
  | xPortSysTickHandler
  | xPortPendSVHandler
  /-- an interrupt handler resumes a task, and ends with `portEND_SWITCHING_ISR`; its priority is
  one that critical sections mask -/
  | isr (pxTaskToResume : T)

/-- The kernel and its tasks. -/
structure System (T : Type) where
  config : Config
  kernel : Kernel T
  /-- what is left of the call that a task is in -/
  todo : T → List (Piece T)

namespace System

variable {T : Type} [DecidableEq T]

/-- A task that is created starts with its function. -/
def start (todo : T → List (Piece T)) : Piece T → T → List (Piece T)
  | .xTaskGenericCreate pxNewTCB _ => Function.update todo pxNewTCB []
  | _ => todo

/-- The running task does the next piece. -/
def execPiece (s : System T) (n : ℕ) : Prog (System T) := do
  let pxTCB ← s.kernel.currentTCB
  match s.todo pxTCB with
  | [] => return s
  | p :: ps =>
    let (kernel, qs) ← s.kernel.perform n p
    return { s with kernel, todo := Function.update (start s.todo p) pxTCB (qs ++ ps) }

/-- An event, with at most `n` turns of each loop. -/
def exec (s : System T) (n : ℕ) : Event T → Prog (System T)
  | .call c => do
    let pxTCB ← s.kernel.currentTCB
    return { s with todo := Function.update s.todo pxTCB (c.piecesUnder s.config) }
  | .piece => s.execPiece n
  | .xPortSysTickHandler => do
    return { s with kernel := ← s.kernel.xPortSysTickHandler n }
  | .xPortPendSVHandler => do
    return { s with kernel := ← s.kernel.xPortPendSVHandler n }
  | .isr pxTaskToResume => do
    let (kernel, xYieldRequired) ← s.kernel.xTaskResumeFromISR pxTaskToResume
    return { s with kernel := if xYieldRequired then kernel.portYIELD else kernel }

/-- The event can happen. -/
def Admits (s : System T) (idle : T) : Event T → Prop
  | .call c => s.kernel.PENDSVSET = false ∧ s.kernel.AdmitsCall c ∧
      ∀ t ∈ s.kernel.pxCurrentTCB, s.todo t = [] ∧ (c = .prvIdleTask ↔ t = idle)
  | .piece => s.kernel.PENDSVSET = false ∧
      ∀ t ∈ s.kernel.pxCurrentTCB, ∃ p ps, s.todo t = p :: ps ∧ s.kernel.AdmitsPiece idle p
  | .xPortSysTickHandler =>
    s.kernel.uxSchedulerSuspended ≠ 0 → s.kernel.uxMissedTicks ≠ BitVec.allOnes 32
  | .xPortPendSVHandler => s.kernel.PENDSVSET = true
  | .isr pxTaskToResume => s.kernel.Alive pxTaskToResume

/-- The event happens. -/
def Step (idle : T) (s : System T) (e : Event T) (s' : System T) : Prop :=
  s.Admits idle e ∧ Settles (fun n => s.exec n e) (· = s')

end System

/-! ### The start -/

namespace Kernel

variable {T : Type} [DecidableEq T]

/-- The kernel before the first task: its variables have the values they are defined with, and no
item is in a list. -/
def new : Kernel T where
  heap :=
    { pxNext := id
      pxPrevious := id
      xItemValue := fun _ => 0
      pvContainer := fun _ => none
      pxIndex := .listEnd
      uxNumberOfItems := fun _ => 0 }
  uxPriority := fun _ => 0
  uxBasePriority := fun _ => 0
  pxCurrentTCB := none
  pxDelayedTaskList := .xDelayedTaskList1
  pxOverflowDelayedTaskList := .xDelayedTaskList2
  uxTasksDeleted := 0
  uxCurrentNumberOfTasks := 0
  xTickCount := 0
  uxTopReadyPriority := tskIDLE_PRIORITY
  xSchedulerRunning := false
  uxSchedulerSuspended := 0
  uxMissedTicks := 0
  xMissedYield := false
  xNumOfOverflows := 0
  xNextTaskUnblockTime := portMAX_DELAY
  PENDSVSET := false

/-- `main` creates its tasks and starts the scheduler. -/
def main (n : ℕ) (tasks : List (T × ℕ)) (idle : T) : Prog (Kernel T) := do
  let k ← tasks.foldlM (fun (k : Kernel T) x => k.xTaskCreate n x.1 x.2) new
  k.vTaskStartScheduler n idle

end Kernel

/-- The system has started, with the settings `config`: no task is in a call yet. -/
structure System.Started {T : Type} [DecidableEq T] (config : Config) (tasks : List (T × ℕ))
    (idle : T) (s : System T) : Prop where
  config : s.config = config
  kernel : Settles (fun n => Kernel.main n tasks idle) (· = s.kernel)
  todo : s.todo = fun _ => []

end Rtos
end Especial
