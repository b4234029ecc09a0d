/-
# The kernel refines the scheduler

`Core k a`: the variables of the kernel `k` stand for the state `a` of the scheduler.  The
queue of a priority is the ready list read from its cursor on.  The agenda is the current
delayed list with the overflow list behind it: the times of the one are before the next
overflow of the tick count, those of the other are not, and a tick count has the low 32 bits
of a time.

One lemma for each function of `tasks.c` says that it returns, with loops that end and no
fault, and that the scheduler's function of the same purpose describes what it does.
-/

import Especial.Lib.Counter
import Especial.Rtos.ListOps
import Especial.Rtos.Sched

namespace Especial
namespace Rtos

open Lib

variable {T : Type}

/-- The time at which the tick count overflows next. -/
def Sched.epochEnd (a : Sched T) : ℕ := (a.now / 2 ^ 32 + 1) * 2 ^ 32

/-- The generic items of the entries of an agenda. -/
def entryItems (xs : List (T × ℕ)) : List (Item T) := xs.map fun x => .xGenericListItem x.1

/-- The kernel's lists are `zs`, and its variables stand for `a`. -/
structure Core (k : Kernel T) (a : Sched T) (zs : ListId → Zipper (Item T)) : Prop where
  heap : Represents k.heap zs
  ready : ∀ p, (zs (.pxReadyTasksLists p)).queue = (a.ready p).map .xGenericListItem
  delayed : zs k.pxDelayedTaskList = ⟨[], entryItems (a.delayed.filter (·.2 < a.epochEnd))⟩
  overflow : zs k.pxOverflowDelayedTaskList =
    ⟨[], entryItems (a.delayed.filter (a.epochEnd ≤ ·.2))⟩
  suspended : zs .xSuspendedTaskList = ⟨a.suspended.map .xGenericListItem, []⟩
  deleted : zs .xTasksWaitingTermination = ⟨a.deleted.map .xGenericListItem, []⟩
  pending : zs .xPendingReadyList = ⟨a.pending.map .xEventListItem, []⟩
  lists : k.pxDelayedTaskList = .xDelayedTaskList1 ∧
      k.pxOverflowDelayedTaskList = .xDelayedTaskList2 ∨
    k.pxDelayedTaskList = .xDelayedTaskList2 ∧ k.pxOverflowDelayedTaskList = .xDelayedTaskList1
  ordered : Agenda.Ordered a.delayed
  value : ∀ x ∈ a.delayed,
    k.heap.xItemValue (.item (.xGenericListItem x.1)) = BitVec.ofNat 32 x.2
  soon : ∀ x ∈ a.delayed, x.2 < a.now + 2 ^ 32
  unblock : ∀ x ∈ a.delayed, x.2 < a.epochEnd → k.xNextTaskUnblockTime.toNat ≤ x.2 % 2 ^ 32
  top : ∀ p, a.ready p ≠ [] → p ≤ k.uxTopReadyPriority
  tickCount : k.xTickCount = BitVec.ofNat 32 a.now
  overflows : k.xNumOfOverflows = BitVec.ofNat 32 (a.now / 2 ^ 32)
  current : k.pxCurrentTCB = some a.current
  priority : k.uxPriority = a.priority
  base : k.uxBasePriority = a.base
  tasks : Counts k.uxCurrentNumberOfTasks a.tasks.length
  deletions : Counts k.uxTasksDeleted a.deletions
  locks : Counts k.uxSchedulerSuspended a.locks
  missedTicks : Counts k.uxMissedTicks a.missedTicks
  missedYield : k.xMissedYield = a.missedYield
  switchPending : k.PENDSVSET = a.switchPending
  running : k.xSchedulerRunning = a.running

/-- The kernel is in the state `a` of the scheduler. -/
def Kernel.Is (k : Kernel T) (a : Sched T) : Prop := ∃ zs, Core k a zs

variable {k k' : Kernel T} {a b : Sched T} {zs : ListId → Zipper (Item T)} {t : T} {n : ℕ}

/-- The items of an agenda are those of its tasks. -/
theorem mem_entryItems {xs : List (T × ℕ)} :
    .xGenericListItem t ∈ entryItems xs ↔ ∃ w, (t, w) ∈ xs := by
  simp [entryItems]

/-- No event item is in an agenda. -/
theorem event_notMem_entryItems (xs : List (T × ℕ)) : .xEventListItem t ∉ entryItems xs := by
  simp [entryItems]

namespace Core

/-- What is in a ready list. -/
theorem mem_ready (hc : Core k a zs) {p : Priority} {i : Item T} :
    i ∈ (zs (.pxReadyTasksLists p)).toList ↔ i ∈ (a.ready p).map .xGenericListItem := by
  rw [← Zipper.mem_queue, hc.ready]

/-- The delayed lists are not one of the others. -/
theorem delayed_ne (hc : Core k a zs) {l : ListId} (h₁ : l ≠ .xDelayedTaskList1)
    (h₂ : l ≠ .xDelayedTaskList2) :
    k.pxDelayedTaskList ≠ l ∧ k.pxOverflowDelayedTaskList ≠ l := by
  rcases hc.lists with ⟨hd, ho⟩ | ⟨hd, ho⟩ <;> rw [hd, ho]
  · exact ⟨h₁.symm, h₂.symm⟩
  · exact ⟨h₂.symm, h₁.symm⟩

/-- The two delay lists are two. -/
theorem delayed_ne_overflow (hc : Core k a zs) :
    k.pxDelayedTaskList ≠ k.pxOverflowDelayedTaskList := by
  rcases hc.lists with ⟨hd, ho⟩ | ⟨hd, ho⟩ <;> simp [hd, ho]

/-- The lists of a place. -/
def listsOf (k : Kernel T) : Place → List ListId
  | .ready p => [.pxReadyTasksLists p]
  | .delayed => [k.pxDelayedTaskList, k.pxOverflowDelayedTaskList]
  | .suspended => [.xSuspendedTaskList]
  | .deleted => [.xTasksWaitingTermination]

/-- A task is at a place just if its generic item is in a list of that place. -/
theorem mem_listsOf (hc : Core k a zs) {l : Place} :
    (∃ i ∈ listsOf k l, .xGenericListItem t ∈ (zs i).toList) ↔ a.At t l := by
  cases l with
  | ready p => simp [listsOf, Sched.At, hc.mem_ready]
  | delayed =>
    simp only [listsOf, List.mem_cons, List.not_mem_nil, or_false, exists_eq_or_imp, exists_eq_left,
      hc.delayed, hc.overflow, Zipper.toList, List.nil_append, mem_entryItems, List.mem_filter,
      decide_eq_true_eq, ← exists_or, ← and_or_left, Nat.lt_or_ge, and_true, Sched.At]
  | suspended => simp [listsOf, Sched.At, hc.suspended, Zipper.toList]
  | deleted => simp [listsOf, Sched.At, hc.deleted, Zipper.toList]

/-- Every list that a task is in belongs to a place. -/
theorem exists_place (hc : Core k a zs) {i : ListId} (hi : .xGenericListItem t ∈ (zs i).toList) :
    ∃ l, i ∈ listsOf k l := by
  cases i with
  | pxReadyTasksLists p => exact ⟨.ready p, by simp [listsOf]⟩
  | xDelayedTaskList1 | xDelayedTaskList2 =>
    exact ⟨.delayed,
      by rcases hc.lists with ⟨hd, ho⟩ | ⟨hd, ho⟩ <;> simp [listsOf, hd, ho]⟩
  | xPendingReadyList => simp [hc.pending, Zipper.toList] at hi
  | xTasksWaitingTermination => exact ⟨.deleted, by simp [listsOf]⟩
  | xSuspendedTaskList => exact ⟨.suspended, by simp [listsOf]⟩

/-- A generic item is in a list just if its task waits somewhere. -/
theorem exists_mem_generic (hc : Core k a zs) :
    (∃ i, .xGenericListItem t ∈ (zs i).toList) ↔ a.Holds t := by
  constructor
  · rintro ⟨i, hi⟩
    obtain ⟨l, hl⟩ := hc.exists_place hi
    exact ⟨l, hc.mem_listsOf.1 ⟨i, hl, hi⟩⟩
  · rintro ⟨l, hl⟩
    obtain ⟨i, -, hi⟩ := hc.mem_listsOf.2 hl
    exact ⟨i, hi⟩

/-- An event item is in the list of the tasks that were readied meanwhile, or in none. -/
theorem mem_event (hc : Core k a zs) {l : ListId} :
    .xEventListItem t ∈ (zs l).toList ↔ l = .xPendingReadyList ∧ t ∈ a.pending := by
  have hd : .xEventListItem t ∉ (zs k.pxDelayedTaskList).toList := by
    rw [hc.delayed]
    exact event_notMem_entryItems _
  have ho : .xEventListItem t ∉ (zs k.pxOverflowDelayedTaskList).toList := by
    rw [hc.overflow]
    exact event_notMem_entryItems _
  cases l with
  | pxReadyTasksLists p => simp [hc.mem_ready]
  | xDelayedTaskList1 =>
    refine iff_of_false ?_ nofun
    rcases hc.lists with ⟨hl, -⟩ | ⟨-, hl⟩
    · exact hl ▸ hd
    · exact hl ▸ ho
  | xDelayedTaskList2 =>
    refine iff_of_false ?_ nofun
    rcases hc.lists with ⟨-, hl⟩ | ⟨hl, -⟩
    · exact hl ▸ ho
    · exact hl ▸ hd
  | xPendingReadyList => simp [hc.pending, Zipper.toList]
  | xTasksWaitingTermination => simp [hc.deleted, Zipper.toList]
  | xSuspendedTaskList => simp [hc.suspended, Zipper.toList]

/-- A task that waits nowhere has its generic item in no list. -/
theorem generic_free (hc : Core k a zs) (ht : ¬ a.Holds t) (l : ListId) :
    .xGenericListItem t ∉ (zs l).toList :=
  fun hmem => ht (hc.exists_mem_generic.1 ⟨l, hmem⟩)

variable [DecidableEq T]

section Filter

/-- Taking a task out of a queue, by its item. -/
theorem filter_generic (xs : List T) :
    (xs.map Item.xGenericListItem).filter (· ≠ .xGenericListItem t)
    = (xs.filter (· ≠ t)).map .xGenericListItem := by
  simp [List.filter_map, Function.comp_def]

/-- Taking a task out of the pending ones, by its item. -/
theorem filter_event (xs : List T) : (xs.map Item.xEventListItem).filter (· ≠ .xEventListItem t)
    = (xs.filter (· ≠ t)).map .xEventListItem := by
  simp [List.filter_map, Function.comp_def]

/-- Taking a task out of an agenda, by its item. -/
theorem filter_entryItems (xs : List (T × ℕ)) :
    (entryItems xs).filter (· ≠ .xGenericListItem t) = entryItems (xs.filter (·.1 ≠ t)) := by
  simp [entryItems, List.filter_map, Function.comp_def]

end Filter

/-- **`vListRemove` of a generic item** takes the task out of where it waits. -/
theorem take (hc : Core k a zs) {h' : Heap ListId (Item T)}
    (hr : Represents h' fun l => (zs l).remove (.xGenericListItem t))
    (hv : h'.xItemValue = k.heap.xItemValue) :
    Core { k with heap := h' } (a.take t) fun l => (zs l).remove (.xGenericListItem t) := by
  refine { hc with
    heap := hr
    ready := fun p => ?_
    delayed := ?_
    overflow := ?_
    suspended := ?_
    deleted := ?_
    pending := ?_
    ordered := hc.ordered.filter _
    value := fun x hx => ?_
    soon := fun x hx => hc.soon x (List.mem_of_mem_filter hx)
    unblock := fun x hx => hc.unblock x (List.mem_of_mem_filter hx)
    top := fun p hp => hc.top p fun hnil => hp ?_ }
  · rw [Zipper.queue_remove, hc.ready, filter_generic]
    rfl
  · show (zs k.pxDelayedTaskList).remove _ = _
    rw [hc.delayed, Zipper.remove, filter_entryItems, List.filter_comm]
    rfl
  · show (zs k.pxOverflowDelayedTaskList).remove _ = _
    rw [hc.overflow, Zipper.remove, filter_entryItems, List.filter_comm]
    rfl
  · rw [hc.suspended, Zipper.remove, filter_generic]
    rfl
  · rw [hc.deleted, Zipper.remove, filter_generic]
    rfl
  · rw [hc.pending]
    exact Zipper.remove_of_notMem (by simp [Zipper.toList])
  · rw [← hc.value x (List.mem_of_mem_filter hx)]
    exact congrFun hv _
  · show (a.ready p).filter _ = []
    rw [hnil, List.filter_nil]

/-- **`vListRemove` of an event item.** -/
theorem unpend (hc : Core k a zs) {h' : Heap ListId (Item T)}
    (hr : Represents h' fun l => (zs l).remove (.xEventListItem t))
    (hv : h'.xItemValue = k.heap.xItemValue) :
    Core { k with heap := h' } (a.unpend t) fun l => (zs l).remove (.xEventListItem t) := by
  have hother : ∀ l ≠ .xPendingReadyList, (zs l).remove (.xEventListItem t) = zs l :=
    fun l hl =>
    Zipper.remove_of_notMem fun hmem => hl (hc.mem_event.1 hmem).1
  refine { hc with
    heap := hr
    ready := fun p => ?_
    delayed := ?_
    overflow := ?_
    suspended := ?_
    deleted := ?_
    pending := ?_
    value := fun x hx => ?_ }
  · rw [hother _ (by simp), hc.ready]
    rfl
  · show (zs k.pxDelayedTaskList).remove _ = _
    rw [hother _ (hc.delayed_ne (by simp) (by simp)).1, hc.delayed]
    rfl
  · show (zs k.pxOverflowDelayedTaskList).remove _ = _
    rw [hother _ (hc.delayed_ne (by simp) (by simp)).2, hc.overflow]
    rfl
  · rw [hother _ (by simp), hc.suspended]
    rfl
  · rw [hother _ (by simp), hc.deleted]
    rfl
  · rw [hc.pending, Zipper.remove, filter_event]
    rfl
  · rw [← hc.value x hx]
    exact congrFun hv _

/-- **`prvAddTaskToReadyQueue`.** -/
theorem enqueue (hc : Core k a zs) (ht : ¬ a.Holds t) :
    Core (k.prvAddTaskToReadyQueue t) (a.enqueue t) (Function.update zs
      (.pxReadyTasksLists (a.priority t))
      ((zs (.pxReadyTasksLists (a.priority t))).insertEnd (.xGenericListItem t))) := by
  have heq : k.prvAddTaskToReadyQueue t = { k with
      heap := vListInsertEnd k.heap (.pxReadyTasksLists (k.uxPriority t)) (.xGenericListItem t)
      uxTopReadyPriority := max (k.uxPriority t) k.uxTopReadyPriority } := by
    rw [Kernel.prvAddTaskToReadyQueue]
    split
    · rename_i hgt
      rw [max_eq_left hgt.le]
      rfl
    · rename_i hle
      rw [max_eq_right (not_lt.1 hle)]
      rfl
  rw [heq, hc.priority]
  have hother : ∀ l ≠ .pxReadyTasksLists (a.priority t), ∀ z, Function.update zs
      (.pxReadyTasksLists (a.priority t)) z l = zs l := fun l hl z => Function.update_of_ne hl z zs
  refine { hc with
    heap := vListInsertEnd_represents hc.heap (hc.generic_free ht) _
    ready := fun p => ?_
    delayed := ?_
    overflow := ?_
    suspended := ?_
    deleted := ?_
    pending := ?_
    priority := rfl
    top := fun p hp => ?_ }
  · rw [Sched.enqueue_ready]
    rcases eq_or_ne p (a.priority t) with rfl | hp
    · rw [Function.update_self, Zipper.queue_insertEnd, hc.ready, Function.update_self,
        List.map_append]
      rfl
    · rw [hother _ (by simpa using hp), hc.ready, Function.update_of_ne hp]
  · exact (hother _ (hc.delayed_ne (by simp) (by simp)).1 _).trans hc.delayed
  · exact (hother _ (hc.delayed_ne (by simp) (by simp)).2 _).trans hc.overflow
  · exact (hother _ (by simp) _).trans hc.suspended
  · exact (hother _ (by simp) _).trans hc.deleted
  · exact (hother _ (by simp) _).trans hc.pending
  · rcases eq_or_ne p (a.priority t) with rfl | hne
    · exact le_max_left _ _
    · refine (hc.top p ?_).trans (le_max_right _ _)
      rwa [Sched.enqueue_ready, Function.update_of_ne hne] at hp

/-- A task is put into the suspended list. -/
theorem insertSuspended (hc : Core k a zs) (ht : ¬ a.Holds t) :
    Core (k.listInsertEnd .xSuspendedTaskList (.xGenericListItem t))
      { a with suspended := a.suspended ++ [t] } (Function.update zs .xSuspendedTaskList
        ((zs .xSuspendedTaskList).insertEnd (.xGenericListItem t))) := by
  have hother :
      ∀ l ≠ .xSuspendedTaskList, ∀ z, Function.update zs .xSuspendedTaskList z l = zs l :=
    fun l hl z => Function.update_of_ne hl z zs
  refine { hc with
    heap := vListInsertEnd_represents hc.heap (hc.generic_free ht) _
    ready := fun p => (congrArg Zipper.queue (hother _ (by simp) _)).trans (hc.ready p)
    delayed := (hother _ (hc.delayed_ne (by simp) (by simp)).1 _).trans hc.delayed
    overflow := (hother _ (hc.delayed_ne (by simp) (by simp)).2 _).trans hc.overflow
    suspended := ?_
    deleted := (hother _ (by simp) _).trans hc.deleted
    pending := (hother _ (by simp) _).trans hc.pending }
  rw [Function.update_self, hc.suspended, Zipper.insertEnd, List.map_append]
  rfl

/-- A task is put into the list of those that wait for their termination. -/
theorem insertDeleted (hc : Core k a zs) (ht : ¬ a.Holds t) :
    Core (k.listInsertEnd .xTasksWaitingTermination (.xGenericListItem t))
      { a with deleted := a.deleted ++ [t] } (Function.update zs .xTasksWaitingTermination
        ((zs .xTasksWaitingTermination).insertEnd (.xGenericListItem t))) := by
  have hother : ∀ l ≠ .xTasksWaitingTermination, ∀ z,
      Function.update zs .xTasksWaitingTermination z l = zs l :=
    fun l hl z => Function.update_of_ne hl z zs
  refine { hc with
    heap := vListInsertEnd_represents hc.heap (hc.generic_free ht) _
    ready := fun p => (congrArg Zipper.queue (hother _ (by simp) _)).trans (hc.ready p)
    delayed := (hother _ (hc.delayed_ne (by simp) (by simp)).1 _).trans hc.delayed
    overflow := (hother _ (hc.delayed_ne (by simp) (by simp)).2 _).trans hc.overflow
    suspended := (hother _ (by simp) _).trans hc.suspended
    deleted := ?_
    pending := (hother _ (by simp) _).trans hc.pending }
  rw [Function.update_self, hc.deleted, Zipper.insertEnd, List.map_append]
  rfl

/-- A task is put into the pending list. -/
theorem insertPending (hc : Core k a zs) (ht : t ∉ a.pending) :
    Core (k.listInsertEnd .xPendingReadyList (.xEventListItem t))
      { a with pending := a.pending ++ [t] } (Function.update zs .xPendingReadyList
        ((zs .xPendingReadyList).insertEnd (.xEventListItem t))) := by
  have hother :
      ∀ l ≠ .xPendingReadyList, ∀ z, Function.update zs .xPendingReadyList z l = zs l :=
    fun l hl z => Function.update_of_ne hl z zs
  refine { hc with
    heap := vListInsertEnd_represents hc.heap (fun l hmem => ht (hc.mem_event.1 hmem).2) _
    ready := fun p => (congrArg Zipper.queue (hother _ (by simp) _)).trans (hc.ready p)
    delayed := (hother _ (hc.delayed_ne (by simp) (by simp)).1 _).trans hc.delayed
    overflow := (hother _ (hc.delayed_ne (by simp) (by simp)).2 _).trans hc.overflow
    suspended := (hother _ (by simp) _).trans hc.suspended
    deleted := (hother _ (by simp) _).trans hc.deleted
    pending := ?_ }
  rw [Function.update_self, hc.pending, Zipper.insertEnd, List.map_append]
  rfl

end Core

/-! ### The functions -/

namespace Kernel

/-- Another time at which to look at the delayed list again. -/
theorem Is.setUnblock (hk : k.Is a) {v : BitVec 32}
    (hv : ∀ x ∈ a.delayed, x.2 < a.epochEnd → v.toNat ≤ x.2 % 2 ^ 32) :
    { k with xNextTaskUnblockTime := v }.Is a := by
  obtain ⟨zs, hc⟩ := hk
  exact ⟨zs, { hc with unblock := hv }⟩

/-- The event item of a task is in a list when the task is pending. -/
theorem Is.event_container (hk : k.Is a) :
    k.heap.pvContainer (.xEventListItem t) = none ↔ t ∉ a.pending := by
  obtain ⟨zs, hc⟩ := hk
  rw [hc.heap.container_none]
  simp [hc.mem_event]

variable [DecidableEq T]

/-- **A task is taken out of the list it is in.** -/
theorem Is.listRemove (hk : k.Is a) (ht : a.Holds t) :
    Returns (k.listRemove (.xGenericListItem t)) (Is · (a.take t)) := by
  obtain ⟨zs, hc⟩ := hk
  obtain ⟨l, hl⟩ := hc.exists_mem_generic.2 ht
  exact (vListRemove_returns hc.heap hl).bind fun h' hh' => .pure ⟨_, hc.take hh'.1 hh'.2⟩

/-- A pending task is taken out of the pending list. -/
theorem Is.listRemove_event (hk : k.Is a) (ht : t ∈ a.pending) :
    Returns (k.listRemove (.xEventListItem t)) (Is · (a.unpend t)) := by
  obtain ⟨zs, hc⟩ := hk
  exact (vListRemove_returns hc.heap (hc.mem_event.2 ⟨rfl, ht⟩)).bind fun h' hh' =>
    .pure ⟨_, hc.unpend hh'.1 hh'.2⟩

/-- A task that is not pending. -/
theorem unpend_of_notMem (ht : t ∉ a.pending) : a.unpend t = a := by
  have hne : ∀ u ∈ a.pending, u ≠ t := fun u hu hut => ht (hut ▸ hu)
  rw [Sched.unpend, List.filter_eq_self.2 fun u hu => decide_eq_true (hne u hu)]

/-- The code that takes a task out of the pending list if it is in it. -/
theorem Is.listRemoveEvent (hk : k.Is a) (t : T) :
    Returns (k.listRemoveEvent t) (Is · (a.unpend t)) := by
  rw [Kernel.listRemoveEvent]
  by_cases ht : t ∈ a.pending
  · rw [if_pos fun hnone => hk.event_container.1 hnone ht]
    exact hk.listRemove_event ht
  · rw [if_neg (not_not.2 (hk.event_container.2 ht)), unpend_of_notMem ht]
    exact .pure hk

/-- **A task joins its ready list.** -/
theorem Is.enqueue (hk : k.Is a) (ht : ¬ a.Holds t) :
    (k.prvAddTaskToReadyQueue t).Is (a.enqueue t) := by
  obtain ⟨zs, hc⟩ := hk
  exact ⟨_, hc.enqueue ht⟩

/-- A task that was taken out becomes ready. -/
theorem Is.wake (hk : k.Is ((a.take t).unpend t)) :
    (k.prvAddTaskToReadyQueue t).Is (a.wake t) := by
  refine hk.enqueue ?_
  rintro ⟨l, hl⟩
  exact Sched.not_holds_take ⟨l, Sched.at_unpend.1 hl⟩

end Kernel

end Rtos
end Especial
