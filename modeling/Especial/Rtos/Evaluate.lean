/-
# Runs that are evaluated

The kernel's functions take a bound for the turns of their loops, and all of them are steady: a
result under one bound is the result.  So a run is found by evaluating it: `System.after` does
the events one after the other, and `System.trial` does so from the start.  What it finds is a
run of the system (`exists_run_of_trial`).
-/

import Especial.Lib.Run
import Especial.Lib.Steady
import Especial.Rtos.System

namespace Especial
namespace Rtos

open Lib

/-! ### The functions of the kernel -/

section List

variable {L I : Type} [DecidableEq L] [DecidableEq I] (h : Heap L I)

/-- `vListInsert` is steady. -/
theorem vListInsert_steady (pxList : L) (pxItem : I) :
    Steady fun n => vListInsert h n pxList pxItem :=
  (Steady.ite (.const _) (.loopM _ _)).bind fun _ => .const _

end List

namespace Kernel

variable {T : Type} [DecidableEq T] (k : Kernel T)

/-- `vTaskIncrementTick` is steady. -/
theorem vTaskIncrementTick_steady : Steady fun n => k.vTaskIncrementTick n := by
  have hcheck (k : Kernel T) : Steady fun n => k.prvCheckDelayedTasks n :=
    .ite (.loopM _ _) (.const _)
  exact .ite (.ite ((Steady.const _).bind hcheck) ((Steady.const _).bind hcheck)) (.const _)

/-- `vTaskSwitchContext` is steady. -/
theorem vTaskSwitchContext_steady : Steady fun n => k.vTaskSwitchContext n :=
  .ite (.const _) ((Steady.loopM _ _).bind fun _ => .const _)

/-- `xTaskResumeAll` is steady. -/
theorem xTaskResumeAll_steady : Steady fun n => k.xTaskResumeAll n := by
  have hturn (k : Kernel T) : Steady fun n => missedTickTurn n k :=
    .ite (k.vTaskIncrementTick_steady.bind fun _ => .const _) (.const _)
  have hmakeUp (k : Kernel T) : Steady fun n => k.makeUp n := by
    refine (Steady.loopM _ _).bind ?_
    rintro ⟨k, y⟩
    exact .ite ((Steady.whileM hturn k).bind fun _ => .const _) (.const _)
  exact .ite (.const _) (.ite (.ite (hmakeUp _) (.const _)) (.const _))

/-- A delay is steady. -/
theorem delayCurrentTask_steady (xTimeToWake : BitVec 32) :
    Steady fun n => k.delayCurrentTask n xTimeToWake := by
  have hadd (k : Kernel T) : Steady fun n => k.prvAddCurrentTaskToDelayedList n xTimeToWake := by
    refine (Steady.const _).bind fun t => ?_
    exact .ite ((vListInsert_steady _ _ _).bind fun _ => .const _)
      ((vListInsert_steady _ _ _).bind fun _ => .const _)
  exact (Steady.const _).bind fun t => (Steady.const _).bind hadd

/-- `vTaskSuspend` is steady. -/
theorem vTaskSuspend_steady (pxTask : Option T) : Steady fun n => k.vTaskSuspend n pxTask := by
  refine (Steady.const _).bind fun t => (Steady.const _).bind fun k =>
    (Steady.const _).bind fun k => ?_
  exact .ite (.ite (.const _) (.ite (.const _)
    ((vTaskSwitchContext_steady _).bind fun _ => .const _))) (.const _)

/-- **Every piece is steady.** -/
theorem perform_steady (p : Piece T) : Steady fun n => k.perform n p := by
  cases p with
  | xTaskResumeAll | xTaskResumeAllAndYield => exact k.xTaskResumeAll_steady.bind fun _ => .const _
  | vTaskDelayBody x => exact (k.delayCurrentTask_steady _).bind fun _ => .const _
  | vTaskDelayUntilBody w x =>
    refine Steady.bind ?_ fun _ => .const _
    exact .ite ((k.delayCurrentTask_steady _).bind fun _ => .const _) (.const _)
  | vTaskSuspend t => exact (k.vTaskSuspend_steady t).bind fun _ => .const _
  | _ => exact .const _

/-- `xTaskCreate` is steady. -/
theorem xTaskCreate_steady (pxTCB : T) (uxPriority : ℕ) :
    Steady fun n => k.xTaskCreate n pxTCB uxPriority := by
  have hmalloc (k : Kernel T) : Steady fun n => k.pvPortMalloc n :=
    (xTaskResumeAll_steady _).bind fun _ => .const _
  exact (hmalloc k).bind fun k => (hmalloc k).bind fun _ => .const _

/-- `main` is steady. -/
theorem main_steady (tasks : List (T × ℕ)) (idle : T) :
    Steady fun n => Kernel.main n tasks idle := by
  have hcreate (k : Kernel T) (x : T × ℕ) : Steady fun n => k.xTaskCreate n x.1 x.2 :=
    k.xTaskCreate_steady x.1 x.2
  have hstart (k : Kernel T) : Steady fun n => k.vTaskStartScheduler n idle := by
    simp only [vTaskStartScheduler]
    exact (k.xTaskCreate_steady idle _).bind fun _ => .const _
  exact (Steady.foldlM hcreate tasks new).bind hstart

end Kernel

namespace System

variable {T : Type} [DecidableEq T] {idle : T} {s s' : System T} {es : List (Event T)} {n : ℕ}

/-- **Every event is steady.** -/
theorem exec_steady (s : System T) (e : Event T) : Steady fun n => s.exec n e := by
  cases e with
  | call c | isr t => exact .const _
  | piece =>
    refine (Steady.const _).bind fun t => ?_
    split
    · exact .const _
    · exact (Kernel.perform_steady _ _).bind fun _ => .const _
  | xPortSysTickHandler => exact (Kernel.vTaskIncrementTick_steady _).bind fun _ => .const _
  | xPortPendSVHandler => exact (Kernel.vTaskSwitchContext_steady _).bind fun _ => .const _

/-! ### Evaluation -/

instance (k : Kernel T) (idle : T) (h : Option T) : Decidable (k.Valid idle h) :=
  inferInstanceAs (Decidable (∀ _ ∈ _, _))

instance (k : Kernel T) (h : Option T) : Decidable (k.MayBlock h) :=
  inferInstanceAs (Decidable (_ → _))

instance (k : Kernel T) (idle : T) : DecidablePred (k.AdmitsPiece idle)
  | .vTaskSuspendAll => inferInstanceAs (Decidable (_ ≠ _))
  | .vTaskSuspend _ | .vTaskDelete _ => inferInstanceAs (Decidable (_ ∧ _))
  | .vTaskResume t | .xTaskIsTaskSuspended t => inferInstanceAs (Decidable (k.Alive t))
  | .vTaskPrioritySet h _ => inferInstanceAs (Decidable (k.Valid idle h))
  | .xTaskGenericCreate _ _ => inferInstanceAs (Decidable (_ ∧ _))
  | .xTaskResumeAll | .xTaskResumeAllAndYield | .vTaskDelayBody _ | .vTaskDelayUntilBody _ _
  | .portYIELD | .readySuspendedTask _ | .yieldAfterCreate _ | .prvCheckTasksWaitingTermination
  | .xListIsEmpty | .removeDeletedTask | .yieldIfShared => .isTrue trivial

instance (k : Kernel T) : DecidablePred k.AdmitsCall
  | .vTaskDelay _ | .vTaskDelayUntil _ _ => inferInstanceAs (Decidable (_ = _))
  | .xTaskResumeAll => inferInstanceAs (Decidable (_ > _))
  | .taskYIELD | .vTaskSuspend _ | .vTaskResume _ | .vTaskPrioritySet _ _ | .vTaskDelete _
  | .xTaskGenericCreate _ _ | .vTaskSuspendAll | .pvPortMalloc | .prvIdleTask => .isTrue trivial

instance (k : Kernel T) (idle : T) (ps : List (Piece T)) :
    Decidable (∃ p qs, ps = p :: qs ∧ k.AdmitsPiece idle p) :=
  match ps with
  | [] => .isFalse (by simp)
  | p :: qs => decidable_of_iff (k.AdmitsPiece idle p)
      ⟨fun h => ⟨p, qs, rfl, h⟩, fun ⟨_, _, heq, h⟩ => (List.cons.inj heq).1 ▸ h⟩

instance (s : System T) (idle : T) : DecidablePred (s.Admits idle)
  | .call _ | .piece => inferInstanceAs (Decidable (_ ∧ _))
  | .xPortSysTickHandler => inferInstanceAs (Decidable (_ → _))
  | .xPortPendSVHandler => inferInstanceAs (Decidable (_ = _))
  | .isr t => inferInstanceAs (Decidable (s.kernel.Alive t))

/-- The system after an event, with at most `n` turns of each loop: `none` if the event cannot
happen or does not return. -/
def next (idle : T) (n : ℕ) (s : System T) (e : Event T) : Option (System T) :=
  if s.Admits idle e then (s.exec n e).run.bind Except.toOption else none

/-- The system after the events. -/
def after (idle : T) (n : ℕ) (s : System T) (es : List (Event T)) : Option (System T) :=
  es.foldlM (next idle n) s

/-- The system when `main` has started the scheduler. -/
def boot (config : Config) (tasks : List (T × ℕ)) (idle : T) (n : ℕ) : Option (System T) :=
  ((Kernel.main n tasks idle).run.bind Except.toOption).map fun kernel =>
    { config, kernel, todo := fun _ => [] }

/-- The system starts and does the events, and `P` is true of how it begins and ends. -/
def trial (config : Config) (tasks : List (T × ℕ)) (idle : T) (n : ℕ) (es : List (Event T))
    (P : System T → System T → Bool) : Bool :=
  (boot config tasks idle n).any fun s₀ => (after idle n s₀ es).any (P s₀)

/-- A program that gives a value when it is run has returned it. -/
theorem run_eq_of_bind_toOption {α : Type} {x : Prog α} {a : α}
    (h : x.run.bind Except.toOption = some a) : x.run = some (.ok a) := by
  obtain ⟨r, hr, ha⟩ := Option.bind_eq_some_iff.1 h
  cases r with
  | error e => cases ha
  | ok b => rw [hr, ← Option.some.inj ha]

/-- An event that is evaluated is a step. -/
theorem step_of_next {e : Event T} (h : next idle n s e = some s') : Step idle s e s' := by
  rw [next] at h
  split at h
  · exact ⟨by assumption, (s.exec_steady e).settles (run_eq_of_bind_toOption h)⟩
  · cases h

/-- Events that are evaluated are a run. -/
theorem run_of_after (h : after idle n s es = some s') : Run (Step idle) s es s' :=
  (Run.some_iff_foldlM.2 h).mono fun _ _ _ => step_of_next

/-- A start that is evaluated is a start. -/
theorem started_of_boot {config : Config} {tasks : List (T × ℕ)}
    (h : boot config tasks idle n = some s) : Started config tasks idle s := by
  obtain ⟨k, hk, rfl⟩ := Option.map_eq_some_iff.1 h
  exact ⟨rfl, (Kernel.main_steady tasks idle).settles (run_eq_of_bind_toOption hk), rfl⟩

/-- **What is evaluated is a run from the start**, and it ends as it is evaluated to. -/
theorem exists_run_of_trial {config : Config} {tasks : List (T × ℕ)}
    {P : System T → System T → Bool} (h : trial config tasks idle n es P = true) :
    ∃ s₀ s, Started config tasks idle s₀ ∧ Run (Step idle) s₀ es s ∧
    P s₀ s = true := by
  obtain ⟨s₀, hboot, h⟩ := (Option.any_eq_true _ _).1 h
  obtain ⟨s, hafter, hp⟩ := (Option.any_eq_true _ _).1 h
  exact ⟨s₀, s, started_of_boot hboot, run_of_after hafter, hp⟩

end System

end Rtos
end Especial
