/-
# The kernel

`tasks.c` of FreeRTOS, as the settings of the demo's `FreeRTOSConfig.h` leave it: five
priorities, preemption, ticks of 32 bits, no timers, no co-routines, no hooks and no trace
facility.  A task control block is an element of a type `T`; its two list items are its
`xGenericListItem` and its `xEventListItem`.

A critical section is one step: that is what `taskENTER_CRITICAL` is for, where the settings of
the interrupts let it be that.  What a function does outside of its critical sections is a step
of its own, and an interrupt may come in between; the pieces of a call are in
`Especial.Rtos.System`, with those of a critical section that is not protected.

A pointer to a task is an `Option T`, `none` for `NULL`.  The numbers of tasks, of deletions, of
missed ticks and of nested suspensions are words of 32 bits, as `unsigned portBASE_TYPE` is, and
wrap as they do.  `uxNumberOfItems` of a list is a natural number: the items are objects in
memory, and there are fewer than `2 ^ 32` of them.
-/

import Especial.Rtos.List
import Mathlib

namespace Especial
namespace Rtos

open Lib

/-- `configMAX_PRIORITIES`. -/
abbrev configMAX_PRIORITIES : ℕ := 5

instance : NeZero configMAX_PRIORITIES := ⟨by decide⟩

/-- `uxPriority` of a task, an index of `pxReadyTasksLists`. -/
abbrev Priority := Fin configMAX_PRIORITIES

/-- `tskIDLE_PRIORITY`. -/
def tskIDLE_PRIORITY : Priority := 0

/-- The lists of `tasks.c`. -/
inductive ListId
  | pxReadyTasksLists (uxPriority : Priority)
  | xDelayedTaskList1
  | xDelayedTaskList2
  | xPendingReadyList
  | xTasksWaitingTermination
  | xSuspendedTaskList
  deriving DecidableEq

/-- The list items of a task control block. -/
inductive Item (T : Type)
  | xGenericListItem (pxTCB : T)
  | xEventListItem (pxTCB : T)
  deriving DecidableEq

/-- `pvOwner`, as `prvInitialiseTCBVariables` sets it. -/
def Item.owner {T : Type} : Item T → T
  | .xGenericListItem pxTCB => pxTCB
  | .xEventListItem pxTCB => pxTCB

/-- The variables of `tasks.c`, with those of the task control blocks.  `PENDSVSET` is the bit
of the interrupt control register by which a context switch is asked for. -/
structure Kernel (T : Type) where
  heap : Heap ListId (Item T)
  uxPriority : T → Priority
  uxBasePriority : T → Priority
  pxCurrentTCB : Option T
  pxDelayedTaskList : ListId
  pxOverflowDelayedTaskList : ListId
  uxTasksDeleted : BitVec 32
  uxCurrentNumberOfTasks : BitVec 32
  xTickCount : BitVec 32
  uxTopReadyPriority : Priority
  xSchedulerRunning : Bool
  uxSchedulerSuspended : BitVec 32
  uxMissedTicks : BitVec 32
  xMissedYield : Bool
  xNumOfOverflows : BitVec 32
  xNextTaskUnblockTime : BitVec 32
  PENDSVSET : Bool

/-- A function with loops. -/
abbrev Prog (α : Type) := ExceptT Fault Option α

namespace Kernel

variable {T : Type} [DecidableEq T] (k : Kernel T)

/-- `portYIELD`. -/
def portYIELD : Kernel T := { k with PENDSVSET := true }

/-- `vListRemove`. -/
def listRemove (pxItem : Item T) : Except Fault (Kernel T) := do
  return { k with heap := ← vListRemove k.heap pxItem }

/-- `vListRemove` of the event item of a task that waits for an event also. -/
def listRemoveEvent (pxTCB : T) : Except Fault (Kernel T) :=
  if k.heap.pvContainer (.xEventListItem pxTCB) ≠ none then k.listRemove (.xEventListItem pxTCB)
  else return k

/-- `vListInsertEnd`. -/
def listInsertEnd (pxList : ListId) (pxItem : Item T) : Kernel T :=
  { k with heap := vListInsertEnd k.heap pxList pxItem }

/-- The running task, where the code follows `pxCurrentTCB`. -/
def currentTCB : Except Fault T :=
  match k.pxCurrentTCB with
  | some pxTCB => return pxTCB
  | none => throw .nullCurrentTCB

/-- `prvGetTCBFromHandle`. -/
def prvGetTCBFromHandle (pxHandle : Option T) : Except Fault T :=
  match pxHandle with
  | some pxTCB => return pxTCB
  | none => k.currentTCB

/-- `prvAddTaskToReadyQueue`. -/
def prvAddTaskToReadyQueue (pxTCB : T) : Kernel T :=
  let k :=
    if k.uxPriority pxTCB > k.uxTopReadyPriority then
      { k with uxTopReadyPriority := k.uxPriority pxTCB }
    else k
  k.listInsertEnd (.pxReadyTasksLists (k.uxPriority pxTCB)) (.xGenericListItem pxTCB)

/-! ### The tick -/

/-- A turn of the loop of `prvCheckDelayedTasks`. -/
def checkDelayedTurn : Except Fault (Turn (Kernel T) (Kernel T)) := do
  if listLIST_IS_EMPTY k.heap k.pxDelayedTaskList then
    return .exit { k with xNextTaskUnblockTime := portMAX_DELAY }
  else
    let pxTCB := (← listGET_OWNER_OF_HEAD_ENTRY k.heap k.pxDelayedTaskList).owner
    let xItemValue := k.heap.xItemValue (.item (.xGenericListItem pxTCB))
    if k.xTickCount < xItemValue then
      return .exit { k with xNextTaskUnblockTime := xItemValue }
    else
      let k ← k.listRemove (.xGenericListItem pxTCB)
      let k ← k.listRemoveEvent pxTCB
      return .again (k.prvAddTaskToReadyQueue pxTCB)

/-- `prvCheckDelayedTasks`, with at most `n` turns of its loop. -/
def prvCheckDelayedTasks (n : ℕ) : Prog (Kernel T) :=
  if k.xTickCount ≥ k.xNextTaskUnblockTime then loopM checkDelayedTurn n k
  else return k

/-- The tick count has overflowed, and the delay lists are swapped. -/
def swapDelayedLists : Except Fault (Kernel T) := do
  let k := { k with
    pxDelayedTaskList := k.pxOverflowDelayedTaskList
    pxOverflowDelayedTaskList := k.pxDelayedTaskList
    xNumOfOverflows := k.xNumOfOverflows + 1 }
  if listLIST_IS_EMPTY k.heap k.pxDelayedTaskList then
    return { k with xNextTaskUnblockTime := portMAX_DELAY }
  else
    let pxTCB := (← listGET_OWNER_OF_HEAD_ENTRY k.heap k.pxDelayedTaskList).owner
    return { k with
      xNextTaskUnblockTime := k.heap.xItemValue (.item (.xGenericListItem pxTCB)) }

/-- `vTaskIncrementTick`. -/
def vTaskIncrementTick (n : ℕ) : Prog (Kernel T) := do
  if k.uxSchedulerSuspended = 0 then
    let k := { k with xTickCount := k.xTickCount + 1 }
    let k ← if k.xTickCount = 0 then k.swapDelayedLists else pure k
    k.prvCheckDelayedTasks n
  else
    return { k with uxMissedTicks := k.uxMissedTicks + 1 }

/-- `xPortSysTickHandler`. -/
def xPortSysTickHandler (n : ℕ) : Prog (Kernel T) :=
  { k with PENDSVSET := true }.vTaskIncrementTick n

/-! ### The switch -/

/-- A turn of the loop of `vTaskSwitchContext`. -/
def switchTurn : Except Fault (Turn (Kernel T) (Kernel T)) :=
  if listLIST_IS_EMPTY k.heap (.pxReadyTasksLists k.uxTopReadyPriority) then
    if k.uxTopReadyPriority = 0 then throw .noReadyTask
    else return .again { k with uxTopReadyPriority := k.uxTopReadyPriority - 1 }
  else return .exit k

/-- `vTaskSwitchContext`. -/
def vTaskSwitchContext (n : ℕ) : Prog (Kernel T) := do
  if k.uxSchedulerSuspended ≠ 0 then
    return { k with xMissedYield := true }
  else
    let k ← loopM switchTurn n k
    let (pxItem, heap) ←
      listGET_OWNER_OF_NEXT_ENTRY k.heap (.pxReadyTasksLists k.uxTopReadyPriority)
    return { k with heap, pxCurrentTCB := some pxItem.owner }

/-- `xPortPendSVHandler`. -/
def xPortPendSVHandler (n : ℕ) : Prog (Kernel T) :=
  { k with PENDSVSET := false }.vTaskSwitchContext n

/-! ### The scheduler is suspended and resumed -/

/-- `vTaskSuspendAll`. -/
def vTaskSuspendAll : Kernel T := { k with uxSchedulerSuspended := k.uxSchedulerSuspended + 1 }

/-- A turn of the loop of `xTaskResumeAll` over the tasks that were readied meanwhile, with
`xYieldRequired`. -/
def pendingReadyTurn (s : Kernel T × Bool) :
    Except Fault (Turn (Kernel T × Bool) (Kernel T × Bool)) := do
  let (k, xYieldRequired) := s
  if listLIST_IS_EMPTY k.heap .xPendingReadyList then return .exit (k, xYieldRequired)
  else
    let pxTCB := (← listGET_OWNER_OF_HEAD_ENTRY k.heap .xPendingReadyList).owner
    let k ← k.listRemove (.xEventListItem pxTCB)
    let k ← k.listRemove (.xGenericListItem pxTCB)
    let k := k.prvAddTaskToReadyQueue pxTCB
    let pxCurrentTCB ← k.currentTCB
    return .again (k, xYieldRequired || k.uxPriority pxTCB ≥ k.uxPriority pxCurrentTCB)

/-- A turn of the loop of `xTaskResumeAll` over the ticks that were missed. -/
def missedTickTurn (n : ℕ) (k : Kernel T) : Prog (Turn (Kernel T) (Kernel T)) := do
  if k.uxMissedTicks > 0 then
    let k ← k.vTaskIncrementTick n
    return .again { k with uxMissedTicks := k.uxMissedTicks - 1 }
  else return .exit k

/-- What `xTaskResumeAll` does when the scheduler is no longer suspended. -/
def makeUp (n : ℕ) : Prog (Kernel T × Bool) := do
  let (k, xYieldRequired) ← loopM pendingReadyTurn n (k, false)
  let (k, xYieldRequired) ←
    if k.uxMissedTicks > 0 then do
      let k ← whileM (missedTickTurn n) n k
      pure (k, true)
    else pure (k, xYieldRequired)
  if xYieldRequired || k.xMissedYield then
    return ({ k with xMissedYield := false }.portYIELD, true)
  else return (k, false)

/-- `xTaskResumeAll`, with `xAlreadyYielded`. -/
def xTaskResumeAll (n : ℕ) : Prog (Kernel T × Bool) :=
  if k.uxSchedulerSuspended = 0 then throw .notSuspended
  else
    let k := { k with uxSchedulerSuspended := k.uxSchedulerSuspended - 1 }
    if k.uxSchedulerSuspended = 0 then
      if k.uxCurrentNumberOfTasks > 0 then k.makeUp n else return (k, false)
    else return (k, false)

/-! ### Delays -/

/-- `prvAddCurrentTaskToDelayedList`. -/
def prvAddCurrentTaskToDelayedList (n : ℕ) (xTimeToWake : BitVec 32) : Prog (Kernel T) := do
  let pxItem := .xGenericListItem (← k.currentTCB)
  let k := { k with heap := listSET_LIST_ITEM_VALUE k.heap pxItem xTimeToWake }
  if xTimeToWake < k.xTickCount then
    return { k with heap := ← vListInsert k.heap n k.pxOverflowDelayedTaskList pxItem }
  else
    let k := { k with heap := ← vListInsert k.heap n k.pxDelayedTaskList pxItem }
    if xTimeToWake < k.xNextTaskUnblockTime then
      return { k with xNextTaskUnblockTime := xTimeToWake }
    else return k

/-- The running task goes to sleep until `xTimeToWake`. -/
def delayCurrentTask (n : ℕ) (xTimeToWake : BitVec 32) : Prog (Kernel T) := do
  let k ← k.listRemove (.xGenericListItem (← k.currentTCB))
  k.prvAddCurrentTaskToDelayedList n xTimeToWake

/-- What `vTaskDelay` does while the scheduler is suspended. -/
def vTaskDelayBody (n : ℕ) (xTicksToDelay : BitVec 32) : Prog (Kernel T) :=
  k.delayCurrentTask n (k.xTickCount + xTicksToDelay)

/-- `xShouldDelay` of `vTaskDelayUntil`. -/
def xShouldDelay (xPreviousWakeTime xTimeToWake : BitVec 32) : Bool :=
  if k.xTickCount < xPreviousWakeTime then
    xTimeToWake < xPreviousWakeTime && xTimeToWake > k.xTickCount
  else
    xTimeToWake < xPreviousWakeTime || xTimeToWake > k.xTickCount

/-- What `vTaskDelayUntil` does while the scheduler is suspended, with the new value of
`*pxPreviousWakeTime`. -/
def vTaskDelayUntilBody (n : ℕ) (xPreviousWakeTime xTimeIncrement : BitVec 32) :
    Prog (Kernel T × BitVec 32) := do
  let xTimeToWake := xPreviousWakeTime + xTimeIncrement
  if k.xShouldDelay xPreviousWakeTime xTimeToWake then
    return (← k.delayCurrentTask n xTimeToWake, xTimeToWake)
  else return (k, xTimeToWake)

/-! ### Suspended tasks -/

/-- `vTaskSuspend`, with whether it goes on to yield. -/
def vTaskSuspend (n : ℕ) (pxTaskToSuspend : Option T) : Prog (Kernel T × Bool) := do
  let pxTaskToSuspend := if pxTaskToSuspend = k.pxCurrentTCB then none else pxTaskToSuspend
  let pxTCB ← k.prvGetTCBFromHandle pxTaskToSuspend
  let k ← k.listRemove (.xGenericListItem pxTCB)
  let k ← k.listRemoveEvent pxTCB
  let k := k.listInsertEnd .xSuspendedTaskList (.xGenericListItem pxTCB)
  if pxTaskToSuspend = none then
    if k.xSchedulerRunning then return (k, true)
    else if BitVec.ofNat 32 (k.heap.uxNumberOfItems .xSuspendedTaskList)
        = k.uxCurrentNumberOfTasks then
      return ({ k with pxCurrentTCB := none }, false)
    else return (← k.vTaskSwitchContext n, false)
  else return (k, false)

/-- `xTaskIsTaskSuspended`. -/
def xTaskIsTaskSuspended (pxTCB : T) : Bool :=
  k.heap.pvContainer (.xGenericListItem pxTCB) = some .xSuspendedTaskList &&
    (k.heap.pvContainer (.xEventListItem pxTCB) ≠ some .xPendingReadyList &&
      k.heap.pvContainer (.xEventListItem pxTCB) = none)

/-- What `vTaskResume` does with a task that it has found suspended. -/
def readySuspendedTask (pxTCB : T) : Except Fault (Kernel T) := do
  let k ← k.listRemove (.xGenericListItem pxTCB)
  let k := k.prvAddTaskToReadyQueue pxTCB
  if k.uxPriority pxTCB ≥ k.uxPriority (← k.currentTCB) then return k.portYIELD
  else return k

/-- `vTaskResume`. -/
def vTaskResume (pxTaskToResume : Option T) : Except Fault (Kernel T) := do
  match pxTaskToResume with
  | none => return k
  | some pxTCB =>
    if some pxTCB ≠ k.pxCurrentTCB then
      if k.xTaskIsTaskSuspended pxTCB then k.readySuspendedTask pxTCB
      else return k
    else return k

/-- `xTaskResumeFromISR`, with `xYieldRequired`. -/
def xTaskResumeFromISR (pxTCB : T) : Except Fault (Kernel T × Bool) := do
  if k.xTaskIsTaskSuspended pxTCB then
    if k.uxSchedulerSuspended = 0 then
      let xYieldRequired : Bool := k.uxPriority pxTCB ≥ k.uxPriority (← k.currentTCB)
      let k ← k.listRemove (.xGenericListItem pxTCB)
      return (k.prvAddTaskToReadyQueue pxTCB, xYieldRequired)
    else
      return (k.listInsertEnd .xPendingReadyList (.xEventListItem pxTCB), false)
  else return (k, false)

/-! ### Priorities -/

/-- A priority of the application, cut to those that there are. -/
def cappedPriority (uxPriority : ℕ) : Priority :=
  if h : uxPriority < configMAX_PRIORITIES then ⟨uxPriority, h⟩
  else ⟨configMAX_PRIORITIES - 1, by decide⟩

/-- The value of an event item, by which an event list is in the order of the priorities. -/
def eventValue (uxPriority : Priority) : BitVec 32 :=
  BitVec.ofNat 32 configMAX_PRIORITIES - BitVec.ofNat 32 uxPriority

/-- `vTaskPrioritySet` changes the priority of the task and, if it is in its ready list, moves it
to another one. -/
def changePriority (pxTCB : T) (uxNewPriority : Priority) : Except Fault (Kernel T) := do
  let uxCurrentPriority := k.uxBasePriority pxTCB
  let k := { k with
    uxPriority :=
      if k.uxBasePriority pxTCB = k.uxPriority pxTCB then
        Function.update k.uxPriority pxTCB uxNewPriority
      else k.uxPriority
    uxBasePriority := Function.update k.uxBasePriority pxTCB uxNewPriority
    heap := listSET_LIST_ITEM_VALUE k.heap (.xEventListItem pxTCB) (eventValue uxNewPriority) }
  if k.heap.pvContainer (.xGenericListItem pxTCB)
      = some (.pxReadyTasksLists uxCurrentPriority) then
    let k ← k.listRemove (.xGenericListItem pxTCB)
    return k.prvAddTaskToReadyQueue pxTCB
  else return k

/-- `vTaskPrioritySet`. -/
def vTaskPrioritySet (pxTask : Option T) (uxNewPriority : ℕ) : Except Fault (Kernel T) := do
  let uxNewPriority := cappedPriority uxNewPriority
  let pxTask := if pxTask = k.pxCurrentTCB then none else pxTask
  let pxTCB ← k.prvGetTCBFromHandle pxTask
  let uxCurrentPriority := k.uxBasePriority pxTCB
  if uxCurrentPriority ≠ uxNewPriority then
    let xYieldRequired : Bool :=
      if uxNewPriority > uxCurrentPriority then pxTask ≠ none else pxTask = none
    let k ← k.changePriority pxTCB uxNewPriority
    if xYieldRequired then return k.portYIELD else return k
  else return k

/-! ### Tasks are created and deleted -/

/-- `prvInitialiseTCBVariables`. -/
def prvInitialiseTCBVariables (pxTCB : T) (uxPriority : ℕ) : Kernel T :=
  let uxPriority := cappedPriority uxPriority
  let k := { k with
    uxPriority := Function.update k.uxPriority pxTCB uxPriority
    uxBasePriority := Function.update k.uxBasePriority pxTCB uxPriority }
  let k := { k with heap := vListInitialiseItem k.heap (.xGenericListItem pxTCB) }
  let k := { k with heap := vListInitialiseItem k.heap (.xEventListItem pxTCB) }
  { k with
    heap := listSET_LIST_ITEM_VALUE k.heap (.xEventListItem pxTCB) (eventValue uxPriority) }

/-- `prvInitialiseTaskLists`. -/
def prvInitialiseTaskLists : Kernel T :=
  let heap := (List.finRange configMAX_PRIORITIES).foldl
    (fun heap uxPriority => vListInitialise heap (.pxReadyTasksLists uxPriority)) k.heap
  let heap := vListInitialise heap .xDelayedTaskList1
  let heap := vListInitialise heap .xDelayedTaskList2
  let heap := vListInitialise heap .xPendingReadyList
  let heap := vListInitialise heap .xTasksWaitingTermination
  let heap := vListInitialise heap .xSuspendedTaskList
  { k with
    heap
    pxDelayedTaskList := .xDelayedTaskList1
    pxOverflowDelayedTaskList := .xDelayedTaskList2 }

/-- `xTaskGenericCreate` may make the new task the current one, and has the lists initialised for
the first task. -/
def chooseCurrentTCB (pxNewTCB : T) (uxPriority : ℕ) : Kernel T :=
  match k.pxCurrentTCB with
  | none =>
    let k := { k with pxCurrentTCB := some pxNewTCB }
    if k.uxCurrentNumberOfTasks = 1 then k.prvInitialiseTaskLists else k
  | some pxCurrentTCB =>
    if !k.xSchedulerRunning && k.uxPriority pxCurrentTCB ≤ uxPriority then
      { k with pxCurrentTCB := some pxNewTCB }
    else k

/-- `xTaskGenericCreate` for the control block `pxNewTCB`, up to the end of its critical
section. -/
def xTaskGenericCreate (pxNewTCB : T) (uxPriority : ℕ) : Kernel T :=
  let k := { k.prvInitialiseTCBVariables pxNewTCB uxPriority with
    uxCurrentNumberOfTasks := k.uxCurrentNumberOfTasks + 1 }
  (k.chooseCurrentTCB pxNewTCB uxPriority).prvAddTaskToReadyQueue pxNewTCB

/-- Whether `xTaskGenericCreate` then yields. -/
def yieldsAfterCreate (uxPriority : ℕ) : Except Fault Bool := do
  if k.xSchedulerRunning then
    return decide (k.uxPriority (← k.currentTCB) < uxPriority)
  else return false

/-- `vTaskDelete`, with whether it goes on to yield. -/
def vTaskDelete (pxTaskToDelete : Option T) : Except Fault (Kernel T × Bool) := do
  let pxTaskToDelete := if pxTaskToDelete = k.pxCurrentTCB then none else pxTaskToDelete
  let pxTCB ← k.prvGetTCBFromHandle pxTaskToDelete
  let k ← k.listRemove (.xGenericListItem pxTCB)
  let k ← k.listRemoveEvent pxTCB
  let k := k.listInsertEnd .xTasksWaitingTermination (.xGenericListItem pxTCB)
  let k := { k with uxTasksDeleted := k.uxTasksDeleted + 1 }
  return (k, k.xSchedulerRunning && pxTaskToDelete = none)

/-- The critical section of `prvCheckTasksWaitingTermination`. -/
def removeDeletedTask : Except Fault (Kernel T) := do
  let pxTCB := (← listGET_OWNER_OF_HEAD_ENTRY k.heap .xTasksWaitingTermination).owner
  let k ← k.listRemove (.xGenericListItem pxTCB)
  return { k with
    uxCurrentNumberOfTasks := k.uxCurrentNumberOfTasks - 1
    uxTasksDeleted := k.uxTasksDeleted - 1 }

/-- `pvPortMalloc` of `heap_3.c`, which suspends the scheduler around `malloc`. -/
def pvPortMalloc (n : ℕ) : Prog (Kernel T) := do
  let (k, _) ← k.vTaskSuspendAll.xTaskResumeAll n
  return k

/-- `main` creates a task: `prvAllocateTCBAndStack` finds `pxNewTCB` and a stack for it. -/
def xTaskCreate (n : ℕ) (pxNewTCB : T) (uxPriority : ℕ) : Prog (Kernel T) := do
  let k ← k.pvPortMalloc n
  let k ← k.pvPortMalloc n
  return k.xTaskGenericCreate pxNewTCB uxPriority

/-- `vTaskStartScheduler` with `pxIdleTCB` for the idle task, up to the start of the first
task. -/
def vTaskStartScheduler (n : ℕ) (pxIdleTCB : T) : Prog (Kernel T) := do
  let k ← k.xTaskCreate n pxIdleTCB tskIDLE_PRIORITY
  return { k with xSchedulerRunning := true, xTickCount := 0 }

end Kernel

end Rtos
end Especial
