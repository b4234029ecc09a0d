/-
# The kernel in every run

`System.Is`: the kernel stands for the scheduler, and the same is left of the tasks' calls.  Each
event keeps that (`exec_settles`): it returns, with loops that end and no fault, and the scheduler
does the same.
-/

import Especial.Lib.Run
import Especial.Rtos.Events

namespace Especial
namespace Rtos

open Lib

variable {T : Type} {k : Kernel T} {a : Sched T} {t idle : T}

namespace Kernel

/-! ### What the kernel asks of the application -/

/-- A task without a list waits nowhere. -/
theorem Is.container_none (hk : k.Is a) :
    k.heap.pvContainer (.xGenericListItem t) = none ↔ ¬ a.Holds t := by
  obtain ⟨zs, hc⟩ := hk
  rw [← hc.exists_mem_generic, Option.eq_none_iff_forall_ne_some, not_exists]
  exact forall_congr' fun i => not_congr (hc.heap.container _ i)

/-- A task that is alive in the kernel lives in the scheduler. -/
theorem Is.live_of_alive (hk : k.Is a) (ht : k.Alive t) : a.Live t := by
  obtain ⟨l, hl⟩ := not_not.1 (mt hk.container_none.2 ht.1)
  refine ⟨l, ?_, hl⟩
  rintro rfl
  obtain ⟨zs, hc⟩ := hk
  refine ht.2 ((hc.heap.container _ _).2 ?_)
  have hmem : t ∈ a.deleted := hl
  rw [hc.deleted, Zipper.toList, List.append_nil]
  exact List.mem_map_of_mem hmem

/-- The number of items of a ready list. -/
theorem Is.uxNumberOfItems_ready (hk : k.Is a) (p : Priority) :
    k.heap.uxNumberOfItems (.pxReadyTasksLists p) = (a.ready p).length := by
  obtain ⟨zs, hc⟩ := hk
  rw [(hc.heap.list _).count, ← (Zipper.queue_perm _).length_eq, hc.ready, List.length_map]

/-- A handle that the application may use is that of a task that lives, and not the idle task. -/
theorem Is.valid (hk : k.Is a) {h : Option T} (hv : k.Valid idle h) :
    a.Live (h.getD a.current) ∧ h.getD a.current ≠ idle := by
  obtain ⟨zs, hc⟩ := id hk
  have hmem : h.getD a.current ∈ h.or k.pxCurrentTCB := by
    rw [hc.current]
    cases h <;> simp
  exact ⟨hk.live_of_alive (hv _ hmem).1, (hv _ hmem).2⟩

/-- A task that may block does not hold a lock. -/
theorem Is.mayBlock (hk : k.Is a) {h : Option T} (hb : k.MayBlock h)
    (hself : h.getD a.current = a.current) : a.locks = 0 := by
  obtain ⟨zs, hc⟩ := hk
  refine hc.locks.eq_zero_iff.1 (hb ?_)
  rw [hc.current]
  cases h with
  | none => rfl
  | some t => exact congrArg some hself

/-- **What the kernel admits, the scheduler admits**, piece by piece. -/
theorem Is.admitsPiece (hk : k.Is a) {i : Piece T} (hi : k.AdmitsPiece idle i) :
    a.AdmitsPiece idle i := by
  obtain ⟨zs, hc⟩ := id hk
  cases i with
  | vTaskSuspendAll => exact hc.locks.room_iff.1 hi
  | vTaskSuspend h | vTaskDelete h =>
    exact ⟨(hk.valid hi.1).1, (hk.valid hi.1).2, hk.mayBlock hi.2⟩
  | vTaskResume t | xTaskIsTaskSuspended t => exact hk.live_of_alive hi
  | vTaskPrioritySet h n => exact hk.valid hi
  | xTaskGenericCreate t n => exact ⟨hk.container_none.1 hi.1, hc.tasks.room_iff.1 hi.2⟩
  | _ => exact trivial

/-- The same for the calls. -/
theorem Is.admitsCall (hk : k.Is a) {c : Call T} (hcall : k.AdmitsCall c) : a.AdmitsCall c := by
  obtain ⟨zs, hc⟩ := hk
  cases c with
  | vTaskDelay x | vTaskDelayUntil w x => exact hc.locks.eq_zero_iff.1 hcall
  | xTaskResumeAll => exact hc.locks.pos_iff.1 hcall
  | _ => exact trivial

/-- Whether a new task is more important than the running one. -/
theorem Is.yieldsAfterCreate (hk : k.Is a) (hrunning : a.running = true) (n : ℕ) :
    k.yieldsAfterCreate n = .ok (decide (a.priority a.current < n)) := by
  obtain ⟨zs, hc⟩ := id hk
  rw [Kernel.yieldsAfterCreate, hc.running, hrunning, if_pos rfl, hk.currentTCB, hc.priority]
  rfl

end Kernel

namespace Plan

variable [DecidableEq T] {p : Plan T} {i : Piece T} {is : List (Piece T)}

namespace Next

/-- **Every piece returns**, and the scheduler does the same. -/
theorem settles (h : Next idle p i is) (ha : p.sched.AdmitsPiece idle i) (hk : k.Is p.sched) :
    Settles (fun n => k.perform n i) fun r =>
      r.1.Is (p.sched.perform i).1 ∧ r.2 = (p.sched.perform i).2 := by
  obtain ⟨zs, hc⟩ := id hk
  have hsane := h.ok.sane
  have hheld : p.sched.PendingHeld := fun t ht => ⟨_, hsane.pending t ht⟩
  cases i with
  | vTaskSuspendAll => exact .pure ⟨⟨zs, { hc with locks := hc.locks.succ ha }⟩, rfl⟩
  | xTaskResumeAll =>
    refine (Kernel.xTaskResumeAll_settles hk h.ok.timely hheld hsane.tasks_ne_nil h.fits.1).bind ?_
    rintro ⟨k, y⟩ ⟨hk, -⟩
    exact .pure ⟨hk, rfl⟩
  | xTaskResumeAllAndYield =>
    obtain ⟨-, hone, -⟩ := h.fits
    have hpos : 0 < p.sched.locks := by rw [hone]; exact Nat.one_pos
    refine (Kernel.xTaskResumeAll_settles hk h.ok.timely hheld hsane.tasks_ne_nil hpos).bind ?_
    rintro ⟨k, y⟩ ⟨hk, rfl⟩
    exact .pure ⟨hk, rfl⟩
  | vTaskDelayBody x =>
    obtain ⟨-, -, hpos, -⟩ := h.fits
    have hruns := h.runs ⟨by simp, by simp, by simp⟩
    exact (Kernel.vTaskDelayBody_settles hk h.ok.timely ⟨_, hruns⟩ hpos).bind fun k hk =>
      .pure ⟨hk, rfl⟩
  | vTaskDelayUntilBody w x =>
    have hruns := h.runs ⟨by simp, by simp, by simp⟩
    refine (Kernel.vTaskDelayUntilBody_settles hk h.ok.timely ⟨_, hruns⟩ w x).bind ?_
    rintro ⟨k, w'⟩ ⟨hk, -⟩
    exact .pure ⟨hk, rfl⟩
  | portYIELD => exact .pure ⟨hk.yield, rfl⟩
  | vTaskSuspend c =>
    refine (Kernel.vTaskSuspend_settles hk hsane.running ha.1.holds).bind ?_
    rintro ⟨k, y⟩ ⟨hk, rfl⟩
    exact .pure ⟨hk, by simp [Sched.perform]⟩
  | vTaskResume t =>
    exact (Settles.lift (Kernel.vTaskResume_returns hk t)).bind fun k hk => .pure ⟨hk, rfl⟩
  | xTaskIsTaskSuspended t | readySuspendedTask t => exact h.fits.elim
  | vTaskPrioritySet c n =>
    exact (Settles.lift (Kernel.vTaskPrioritySet_returns hk c n)).bind fun k hk =>
      .pure ⟨hk, rfl⟩
  | vTaskDelete c =>
    have hroom : p.sched.deletions + 1 < 2 ^ 32 :=
      Nat.lt_of_le_of_lt (hsane.deletions_lt ha.1) hc.tasks.lt
    refine (Settles.lift (Kernel.vTaskDelete_returns hk hsane.running hroom ha.1.holds)).bind ?_
    rintro ⟨k, y⟩ ⟨hk, rfl⟩
    exact .pure ⟨hk, by simp [Sched.perform]⟩
  | xTaskGenericCreate t n =>
    have hpending : t ∉ p.sched.pending := fun hmem => ha.1 ⟨_, hsane.pending t hmem⟩
    exact .pure ⟨hk.create ha.2 ha.1 hpending n, rfl⟩
  | yieldAfterCreate n =>
    refine (Settles.lift ⟨_, hk.yieldsAfterCreate hsane.running n, rfl⟩).bind ?_
    rintro _ rfl
    refine .pure ⟨?_, rfl⟩
    by_cases hlower : p.sched.priority p.sched.current < n
    · simp only [Sched.perform, decide_eq_true_eq, if_pos hlower]
      exact hk.yield
    · simp only [Sched.perform, decide_eq_true_eq, if_neg hlower]
      exact hk
  | prvCheckTasksWaitingTermination =>
    refine .pure ⟨hk, ?_⟩
    simp only [hc.deletions.pos_iff]
    rfl
  | xListIsEmpty =>
    refine .pure ⟨hk, ?_⟩
    rcases hk.deleted_cases with ⟨hempty, hnil⟩ | ⟨u, us, hcons, hempty, -⟩
    · simp only [Sched.perform, hempty, hnil, if_true]
    · simp [Sched.perform, hempty, hcons]
  | removeDeletedTask =>
    have hidle : p.sched.current = idle := of_decide_eq_true h.fits.1
    have hne : p.sched.deleted ≠ [] := by
      refine h.ok.reapable ?_
      rw [← hidle, h.todo]
      exact List.mem_cons_self
    have htasks : ∀ t ∈ p.sched.deleted, t ∈ p.sched.tasks :=
      fun t ht => (hsane.tasks t).2 ⟨.deleted, ht⟩
    have hpos : 0 < p.sched.deletions := by
      rw [hsane.deletions]
      exact List.length_pos_iff.2 hne
    exact (Settles.lift (Kernel.removeDeletedTask_returns hk hne hpos hsane.nodup htasks)).bind
      fun k hk => .pure ⟨hk, rfl⟩
  | yieldIfShared =>
    refine .pure ⟨?_, rfl⟩
    rw [hk.uxNumberOfItems_ready, Sched.perform]
    split
    · exact hk.yield
    · exact hk

end Next

end Plan

/-- The pieces of a call, if critical sections are protected. -/
theorem Call.piecesUnder_of_masks {config : Config} (h : config.masks = true) (c : Call T) :
    c.piecesUnder config = c.pieces := by
  cases c with
  | vTaskResume t => exact if_pos h
  | _ => rfl

namespace System

variable [DecidableEq T] {s s' : System T} {p : Plan T} {e : Event T}

/-- Critical sections are protected, the kernel stands for the scheduler, and the same is left of
the tasks' calls. -/
structure Is (s : System T) (p : Plan T) : Prop where
  masks : s.config.masks = true
  kernel : s.kernel.Is p.sched
  todo : s.todo = p.todo

omit [DecidableEq T] in
/-- **Every event that can happen in the system can happen in the plan.** -/
theorem Is.admits (h : s.Is p) (he : s.Admits idle e) : p.Admits idle e := by
  obtain ⟨zs, hc⟩ := id h.kernel
  have hcurrent : p.sched.current ∈ s.kernel.pxCurrentTCB := hc.current
  cases e with
  | call c =>
    obtain ⟨hs, hcall, htodo⟩ := he
    obtain ⟨hnil, hidle⟩ := htodo _ hcurrent
    exact ⟨hc.switchPending ▸ hs, h.kernel.admitsCall hcall, h.todo ▸ hnil, hidle⟩
  | piece =>
    obtain ⟨hs, htodo⟩ := he
    obtain ⟨i, is, hcons, hi⟩ := htodo _ hcurrent
    exact ⟨hc.switchPending ▸ hs, i, is, h.todo ▸ hcons, h.kernel.admitsPiece hi⟩
  | xPortSysTickHandler =>
    exact fun hlocks => hc.missedTicks.room_iff.1 (he (mt hc.locks.eq_zero_iff.1 hlocks))
  | xPortPendSVHandler => exact hc.switchPending.symm.trans he
  | isr t => exact h.kernel.live_of_alive he

/-- **Every event returns**, and the scheduler does the same. -/
theorem exec_settles (h : s.Is p) (hok : p.Ok idle) (he : p.Admits idle e) :
    Settles (fun n => s.exec n e) (Is · (p.exec e)) := by
  obtain ⟨hmask, hk, htodo⟩ := h
  obtain ⟨zs, hc⟩ := id hk
  cases e with
  | call c =>
    refine (Settles.lift (P := (· = p.sched.current)) ⟨_, hk.currentTCB, rfl⟩).bind ?_
    rintro _ rfl
    exact .pure ⟨hmask, hk, by rw [htodo, Call.piecesUnder_of_masks hmask]; rfl⟩
  | piece =>
    obtain ⟨hs, i, is, hcons, ha⟩ := he
    have hn : Plan.Next idle p i is := ⟨hok, hcons, hs⟩
    have hsame : p.execPiece = ⟨(p.sched.perform i).1,
        Function.update (start p.todo i) p.sched.current ((p.sched.perform i).2 ++ is)⟩ := by
      rw [Plan.execPiece, hcons]
    simp only [exec, execPiece, Plan.exec, hsame]
    refine (Settles.lift (P := (· = p.sched.current)) ⟨_, hk.currentTCB, rfl⟩).bind ?_
    rintro _ rfl
    rw [htodo, hcons]
    refine (hn.settles ha hk).bind ?_
    rintro ⟨k, qs⟩ ⟨hk, rfl⟩
    exact .pure ⟨hmask, hk, rfl⟩
  | xPortSysTickHandler =>
    exact (Kernel.vTaskIncrementTick_settles (a := p.sched.yield) hk.yield hok.timely he).bind
      fun k hk => .pure ⟨hmask, hk, htodo⟩
  | xPortPendSVHandler =>
    have hk' : ({ s.kernel with PENDSVSET := false } : Kernel T).Is
        { p.sched with switchPending := false } := ⟨zs, { hc with switchPending := rfl }⟩
    exact (Kernel.vTaskSwitchContext_settles hk' (List.ne_nil_of_mem hok.sane.idle)).bind
      fun k hk =>
      .pure ⟨hmask, hk, htodo⟩
  | isr t =>
    refine (Settles.lift (Kernel.xTaskResumeFromISR_returns hk t)).bind ?_
    rintro ⟨k, y⟩ hk
    exact .pure ⟨hmask, hk, htodo⟩

end System

end Rtos
end Especial
