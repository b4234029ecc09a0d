/-
# What the tasks ask the kernel for

The functions of `tasks.c` that tasks and interrupt handlers call, against the scheduler's:
`vTaskSuspend` and `vTaskResume`, `vTaskPrioritySet`, `xTaskGenericCreate` and `vTaskDelete`.
-/

import Especial.Rtos.Delays

namespace Especial
namespace Rtos

open Lib

variable {T : Type} {k k' : Kernel T} {a b : Sched T} {t : T} [DecidableEq T]

namespace Kernel

/-! ### Suspended tasks -/

omit [DecidableEq T] in
/-- A handle is that of its task, or of the running one. -/
theorem Is.prvGetTCBFromHandle (hk : k.Is a) (h : Option T) :
    k.prvGetTCBFromHandle h = .ok (h.getD a.current) := by
  cases h with
  | none => exact hk.currentTCB
  | some t => rfl

/-- The handle of the running task is taken for `NULL`. -/
theorem Is.handle (hk : k.Is a) (h : Option T) :
    (if h = k.pxCurrentTCB then none else h).getD a.current = h.getD a.current ∧
      ((if h = k.pxCurrentTCB then none else h) = none ↔ h.getD a.current = a.current) := by
  obtain ⟨zs, hc⟩ := hk
  rw [hc.current]
  cases h with
  | none => simp
  | some t => by_cases heq : t = a.current <;> simp [heq]

/-- **`vTaskSuspend`** puts a task among the suspended ones. -/
theorem vTaskSuspend_settles (hk : k.Is a) (hrunning : a.running = true) {h : Option T}
    (hheld : a.Holds (h.getD a.current)) :
    Settles (fun n => k.vTaskSuspend n h) fun r =>
      r.1.Is (a.suspend (h.getD a.current)) ∧ r.2 = decide (h.getD a.current = a.current) := by
  obtain ⟨hget, hself⟩ := hk.handle h
  simp only [vTaskSuspend]
  set h' := if h = k.pxCurrentTCB then none else h
  set t := h.getD a.current
  refine (Settles.lift (P := (· = t)) ⟨_, hk.prvGetTCBFromHandle h', hget⟩).bind ?_
  rintro _ rfl
  refine (Settles.lift (hk.listRemove hheld)).bind fun k hk => ?_
  refine (Settles.lift (hk.listRemoveEvent _)).bind fun k hk => ?_
  obtain ⟨zs, hc⟩ := hk
  have hfree : ¬ ((a.take t).unpend t).Holds t := by
    rintro ⟨l, hl⟩
    exact Sched.not_holds_take ⟨l, Sched.at_unpend.1 hl⟩
  have hk : (k.listInsertEnd .xSuspendedTaskList (.xGenericListItem t)).Is (a.suspend t) :=
    ⟨_, hc.insertSuspended hfree⟩
  have hrunning' : (k.listInsertEnd .xSuspendedTaskList (.xGenericListItem t)).xSchedulerRunning
      = true := hc.running.trans hrunning
  by_cases hnone : h' = none
  · simp only [if_pos hnone, hrunning', if_true]
    exact Settles.pure ⟨hk, (decide_eq_true (hself.1 hnone)).symm⟩
  · simp only [if_neg hnone]
    exact Settles.pure ⟨hk, (decide_eq_false (mt hself.2 hnone)).symm⟩

omit [DecidableEq T] in
/-- A task is in the suspended list when it is suspended. -/
theorem Is.container_suspended (hk : k.Is a) :
    k.heap.pvContainer (.xGenericListItem t) = some .xSuspendedTaskList ↔ t ∈ a.suspended := by
  obtain ⟨zs, hc⟩ := hk
  rw [hc.heap.container, hc.suspended]
  simp [Zipper.toList]

omit [DecidableEq T] in
/-- A task is in a ready list when it is in the queue. -/
theorem Is.container_ready (hk : k.Is a) {p : Priority} :
    k.heap.pvContainer (.xGenericListItem t) = some (.pxReadyTasksLists p) ↔ t ∈ a.ready p := by
  obtain ⟨zs, hc⟩ := hk
  rw [hc.heap.container, hc.mem_ready]
  simp

/-- `xTaskIsTaskSuspended` answers for the scheduler. -/
theorem Is.xTaskIsTaskSuspended (hk : k.Is a) (t : T) :
    k.xTaskIsTaskSuspended t = decide (a.IsSuspended t) := by
  have hnone := hk.event_container (t := t)
  rw [Kernel.xTaskIsTaskSuspended, ← Bool.decide_and, ← Bool.decide_and, decide_eq_decide,
    hk.container_suspended, hnone, Sched.IsSuspended]
  refine and_congr_right fun _ => and_iff_right_of_imp fun hfree => ?_
  rw [hnone.2 hfree]
  exact nofun

/-- **`vTaskResume`** makes a suspended task ready. -/
theorem vTaskResume_returns (hk : k.Is a) (t : T) :
    Returns (k.vTaskResume (some t)) (Is · (a.resume t)) := by
  obtain ⟨zs, hc⟩ := id hk
  simp only [vTaskResume, Sched.resume, hc.current, ne_eq, Option.some.injEq,
    hk.xTaskIsTaskSuspended, decide_eq_true_eq]
  by_cases hcurrent : t = a.current
  · simp only [hcurrent, not_true, if_false, false_and]
    exact .pure hk
  · by_cases hsuspended : a.IsSuspended t
    · simp only [hcurrent, hsuspended, not_false_eq_true, if_true, and_self]
      refine (hk.listRemove ⟨.suspended, hsuspended.1⟩).bind fun k hk => ?_
      have hk := hk.enqueue Sched.not_holds_take
      refine Returns.bind ⟨_, hk.currentTCB, rfl⟩ ?_
      rintro _ rfl
      obtain ⟨zs, hc⟩ := id hk
      rw [hc.priority]
      show Returns (if a.priority t ≥ a.priority a.current then _ else _) _
      split
      · exact .pure hk.yield
      · exact .pure hk
    · simp only [hcurrent, hsuspended, not_false_eq_true, if_true, if_false, and_false]
      exact .pure hk

/-- **`xTaskResumeFromISR`**, and the yield of the handler. -/
theorem xTaskResumeFromISR_returns (hk : k.Is a) (t : T) :
    Returns (k.xTaskResumeFromISR t) fun r =>
      (if r.2 then r.1.portYIELD else r.1).Is (a.resumeFromISR t) := by
  obtain ⟨zs, hc⟩ := id hk
  simp only [xTaskResumeFromISR, Sched.resumeFromISR, hk.xTaskIsTaskSuspended, decide_eq_true_eq,
    hc.locks.eq_zero_iff]
  by_cases hsuspended : a.IsSuspended t
  · simp only [if_pos hsuspended]
    by_cases hlocks : a.locks = 0
    · simp only [if_pos hlocks]
      refine Returns.bind ⟨_, hk.currentTCB, rfl⟩ ?_
      rintro _ rfl
      refine (hk.listRemove ⟨.suspended, hsuspended.1⟩).bind fun k' hk' => .pure ?_
      have hk' := hk'.enqueue Sched.not_holds_take
      rw [hc.priority]
      by_cases hge : a.priority t ≥ a.priority a.current
      · simp only [if_pos hge, decide_eq_true hge, if_true]
        exact hk'.yield
      · simp only [if_neg hge, decide_eq_false hge]
        exact hk'
    · simp only [if_neg hlocks]
      exact .pure ⟨_, hc.insertPending hsuspended.2⟩
  · simp only [if_neg hsuspended]
    exact .pure hk

/-! ### Priorities -/

/-- The task gets another priority, and is where it was. -/
theorem Is.withPriority (hk : k.Is a) (t : T) (p : Priority) (v : BitVec 32) :
    { k with
      uxPriority := if k.uxBasePriority t = k.uxPriority t then Function.update k.uxPriority t p
        else k.uxPriority
      uxBasePriority := Function.update k.uxBasePriority t p
      heap := listSET_LIST_ITEM_VALUE k.heap (.xEventListItem t) v }.Is (a.withPriority t p) := by
  obtain ⟨zs, hc⟩ := hk
  refine ⟨zs, { hc with
    heap := hc.heap.setValue _ _
    value := fun x hx => ?_
    priority := by rw [hc.priority, hc.base]; rfl
    base := by rw [hc.base]; rfl }⟩
  exact (listSET_LIST_ITEM_VALUE_of_ne (by simp) v).trans (hc.value x hx)

/-- **A new priority**, in the kernel and in the scheduler. -/
theorem changePriority_returns (hk : k.Is a) (t : T) (p : Priority) :
    Returns (k.changePriority t p) (Is · (a.changePriority t p)) := by
  obtain ⟨zs, hc⟩ := id hk
  have hk' := hk.withPriority t p (eventValue p)
  have hbase : k.uxBasePriority t = a.base t := congrFun hc.base t
  simp only [Kernel.changePriority, Sched.changePriority]
  by_cases hready : t ∈ a.ready (a.base t)
  · rw [if_pos hready, if_pos (hk'.container_ready.2 (by rw [hbase]; exact hready))]
    refine (hk'.listRemove ⟨.ready (a.base t), hready⟩).bind fun k hk => .pure ?_
    exact hk.enqueue Sched.not_holds_take
  · rw [if_neg hready, if_neg (mt hk'.container_ready.1 (by rw [hbase]; exact hready))]
    exact .pure hk'

/-- **`vTaskPrioritySet`.** -/
theorem vTaskPrioritySet_returns (hk : k.Is a) (h : Option T) (uxNewPriority : ℕ) :
    Returns (k.vTaskPrioritySet h uxNewPriority)
      (Is · (a.setPriority (h.getD a.current) (cappedPriority uxNewPriority))) := by
  obtain ⟨hget, hself⟩ := hk.handle h
  simp only [vTaskPrioritySet, Sched.setPriority]
  set h' := if h = k.pxCurrentTCB then none else h
  set t := h.getD a.current
  set p := cappedPriority uxNewPriority
  refine Returns.bind (P := (· = t)) ⟨_, hk.prvGetTCBFromHandle h', hget⟩ ?_
  rintro _ rfl
  obtain ⟨zs, hc⟩ := id hk
  have hbase : k.uxBasePriority t = a.base t := congrFun hc.base t
  simp only [hbase]
  by_cases hne : a.base t ≠ p
  · have hyield : (if p > a.base t then decide (h' ≠ none) else decide (h' = none))
        = decide (if p > a.base t then t ≠ a.current else t = a.current) := by
      split <;> simp [hself]
    simp only [if_pos hne, hyield, decide_eq_true_eq]
    refine (changePriority_returns hk t p).bind fun k hk => ?_
    by_cases hthen : if p > a.base t then t ≠ a.current else t = a.current
    · simp only [if_pos hthen]
      exact .pure hk.yield
    · simp only [if_neg hthen]
      exact .pure hk
  · simp only [if_neg hne]
    exact .pure hk

/-! ### Tasks are created and deleted -/

/-- The variables of a new control block are set. -/
theorem Is.addTask (hk : k.Is a) (hroom : a.tasks.length + 1 < 2 ^ 32) (hfree : ¬ a.Holds t)
    (hpending : t ∉ a.pending) (uxPriority : ℕ) :
    { k.prvInitialiseTCBVariables t uxPriority with
      uxCurrentNumberOfTasks := k.uxCurrentNumberOfTasks + 1 }.Is
        (a.addTask t (cappedPriority uxPriority)) := by
  obtain ⟨zs, hc⟩ := hk
  have hr := ((hc.heap.initialiseItem (hc.generic_free hfree)).initialiseItem
    (x := .xEventListItem t) fun l hl => hpending (hc.mem_event.1 hl).2).setValue
      (.xEventListItem t) (eventValue (cappedPriority uxPriority))
  refine ⟨zs, { hc with
    heap := hr
    value := fun x hx => ?_
    priority := by rw [Sched.addTask, ← hc.priority]; rfl
    base := by rw [Sched.addTask, ← hc.base]; rfl
    tasks := hc.tasks.succ hroom }⟩
  exact (listSET_LIST_ITEM_VALUE_of_ne (by simp) (eventValue _)).trans (hc.value x hx)

/-- **`xTaskGenericCreate`**, once there is a task. -/
theorem Is.create (hk : k.Is a) (hroom : a.tasks.length + 1 < 2 ^ 32) (hfree : ¬ a.Holds t)
    (hpending : t ∉ a.pending) (uxPriority : ℕ) :
    (k.xTaskGenericCreate t uxPriority).Is (a.create t uxPriority) := by
  have hk' := hk.addTask hroom hfree hpending uxPriority
  have hfree' : ¬ (a.addTask t (cappedPriority uxPriority)).Holds t := hfree
  rw [xTaskGenericCreate, Sched.create]
  set k' := { k.prvInitialiseTCBVariables t uxPriority with
    uxCurrentNumberOfTasks := k.uxCurrentNumberOfTasks + 1 }
  set a' := a.addTask t (cappedPriority uxPriority)
  obtain ⟨zs, hc⟩ := id hk'
  have hchoose : k'.chooseCurrentTCB t uxPriority =
      if !a'.running && a'.priority a'.current ≤ uxPriority then
        { k' with pxCurrentTCB := some t }
      else k' := by
    rw [← hc.running, ← hc.priority]
    simp only [chooseCurrentTCB, hc.current]
  rw [hchoose]
  split
  · have hk' : { k' with pxCurrentTCB := some t }.Is { a' with current := t } :=
      ⟨zs, { hc with current := rfl }⟩
    exact hk'.enqueue hfree'
  · exact hk'.enqueue hfree'

/-- **`vTaskDelete`** puts a task among the deleted ones. -/
theorem vTaskDelete_returns (hk : k.Is a) (hrunning : a.running = true)
    (hroom : a.deletions + 1 < 2 ^ 32) {h : Option T} (hheld : a.Holds (h.getD a.current)) :
    Returns (k.vTaskDelete h) fun r =>
      r.1.Is (a.delete (h.getD a.current)) ∧ r.2 = decide (h.getD a.current = a.current) := by
  obtain ⟨hget, hself⟩ := hk.handle h
  simp only [vTaskDelete]
  set h' := if h = k.pxCurrentTCB then none else h
  set t := h.getD a.current
  refine Returns.bind (P := (· = t)) ⟨_, hk.prvGetTCBFromHandle h', hget⟩ ?_
  rintro _ rfl
  refine (hk.listRemove hheld).bind fun k hk => (hk.listRemoveEvent _).bind fun k hk => ?_
  obtain ⟨zs, hc⟩ := hk
  have hfree : ¬ ((a.take t).unpend t).Holds t := by
    rintro ⟨l, hl⟩
    exact Sched.not_holds_take ⟨l, Sched.at_unpend.1 hl⟩
  have hc := hc.insertDeleted hfree
  refine .pure ⟨⟨_, { hc with deletions := hc.deletions.succ hroom }⟩, ?_⟩
  show (k.xSchedulerRunning && decide (h' = none)) = _
  have hrunning' : k.xSchedulerRunning = true := hc.running.trans hrunning
  rw [hrunning', Bool.true_and, decide_eq_decide]
  exact hself

omit [DecidableEq T] in
/-- The list of the deleted tasks is empty, or its first item belongs to the first of them. -/
theorem Is.deleted_cases (hk : k.Is a) :
    (listLIST_IS_EMPTY k.heap .xTasksWaitingTermination = true ∧ a.deleted = []) ∨
      ∃ t ts, a.deleted = t :: ts ∧
        listLIST_IS_EMPTY k.heap .xTasksWaitingTermination = false ∧
        listGET_OWNER_OF_HEAD_ENTRY k.heap .xTasksWaitingTermination =
        .ok (.xGenericListItem t) := by
  obtain ⟨zs, hc⟩ := hk
  have hfirst := (hc.heap.list .xTasksWaitingTermination).first
  rw [hc.deleted, Zipper.toList, List.append_nil] at hfirst
  rcases hfirst with ⟨hempty, hnil⟩ | ⟨i, is, hcons, hempty, hhead⟩
  · exact Or.inl ⟨hempty, List.map_eq_nil_iff.1 hnil⟩
  · obtain ⟨t, ts, hts, rfl, rfl⟩ := List.map_eq_cons_iff.1 hcons
    exact Or.inr ⟨t, ts, hts, hempty, hhead⟩

/-- The idle task removes a deleted task. -/
theorem removeDeletedTask_returns (hk : k.Is a) (hdeleted : a.deleted ≠ [])
    (hdeletions : 0 < a.deletions) (hnodup : a.tasks.Nodup)
    (htasks : ∀ t ∈ a.deleted, t ∈ a.tasks) : Returns k.removeDeletedTask (Is · a.reap) := by
  obtain ⟨t, ts, hcons, -, hhead⟩ := hk.deleted_cases.resolve_left fun h => hdeleted h.2
  have hmem : t ∈ a.deleted := by rw [hcons]; exact List.mem_cons_self
  rw [removeDeletedTask, hhead, Sched.reap, hcons]
  refine (hk.listRemove ⟨.deleted, hmem⟩).bind fun k hk => .pure ?_
  obtain ⟨zs, hc⟩ := hk
  refine ⟨zs, { hc with
    tasks := ?_
    deletions := hc.deletions.pred hdeletions }⟩
  have hcount := hc.tasks.pred (List.length_pos_of_mem (htasks t hmem))
  obtain ⟨p, q, hpq⟩ := List.append_of_mem (htasks t hmem)
  rw [hpq] at hnodup
  have hrest : (a.tasks.filter (· ≠ t)).length = a.tasks.length - 1 := by
    rw [hpq, Zipper.filter_ne_of_nodup hnodup]
    simp
  show Counts _ (a.tasks.filter (· ≠ t)).length
  rw [hrest]
  exact hcount

end Kernel

end Rtos
end Especial
