/-
# The lock is opened, and the switch is taken

What the two functions of the scheduler that make up for something come to.  To open the lock
(`unlock`) leaves another lock, or asks for a switch, or nothing was missed (`unlock_cases`); each
property of the scheduler then follows by these three cases.  The switch takes a task of the
highest priority that has one (`Sane.switch_eq`).
-/

import Especial.Rtos.Calls
import Especial.Rtos.Plan

namespace Especial
namespace Rtos

open Lib

namespace Sched

variable {T : Type} [DecidableEq T] {a b : Sched T} {t u idle : T} {n : ℕ}

/-! ### A lock is opened -/

/-- Without missed ticks there is nothing to make up for. -/
theorem catchUp_of_missedTicks_eq_zero (h : a.missedTicks = 0) : a.catchUp = a := by
  rw [catchUp, h]
  rfl

/-- What opening a lock comes to: another lock is left, or a switch is asked for, or nothing has
been missed but tasks of lower priorities. -/
theorem unlock_cases (a : Sched T) :
    (a.locks - 1 ≠ 0 ∧ a.unlock = ({ a with locks := a.locks - 1 }, false)) ∨
    (a.locks - 1 = 0 ∧ a.unlock = ({ { a with locks := 0 }.wakePending.catchUp with
      missedYield := false, switchPending := true }, true)) ∨
    (a.locks - 1 = 0 ∧ a.urgent = false ∧ a.missedTicks = 0 ∧ a.missedYield = false ∧
      a.unlock = ({ a with locks := 0 }.wakePending, false)) := by
  rw [unlock]
  by_cases hlocks : a.locks - 1 = 0
  · rw [if_pos hlocks, makeUp]
    by_cases hmust :
      ({ a with locks := 0 } : Sched T).urgent || a.missedTicks ≠ 0 || a.missedYield
    · exact Or.inr (Or.inl ⟨hlocks, if_pos hmust⟩)
    · refine Or.inr (Or.inr ?_)
      rw [if_neg hmust]
      simp only [Bool.or_eq_true, decide_eq_true_eq, not_or, not_not, Bool.not_eq_true] at hmust
      obtain ⟨⟨hurgent, hticks⟩, hyield⟩ := hmust
      have hsame : ({ a with locks := 0 } : Sched T).wakePending.missedTicks = 0 :=
        (foldl_wake_frame (·.missedTicks) (fun _ _ => rfl) _ _).trans hticks
      exact ⟨hlocks, hurgent, hticks, hyield, by rw [catchUp_of_missedTicks_eq_zero hsame]⟩
  · exact Or.inl ⟨hlocks, if_neg hlocks⟩

/-- Missed ticks make no task pending. -/
theorem catchUp_pending (h : a.pending = []) : a.catchUp.pending = [] := by
  rw [catchUp]
  generalize a.missedTicks = n
  induction n generalizing a with
  | zero => exact h
  | succ n ih => exact ih (a := a.countMissed) (advance_pending h)

/-- Afterwards no tick is missed. -/
theorem catchUp_missedTicks (a : Sched T) : a.catchUp.missedTicks = 0 := by
  have hmany :
      ∀ n (a : Sched T), (Nat.iterate countMissed n a).missedTicks = a.missedTicks - n := by
    intro n
    induction n with
    | zero => exact fun _ => rfl
    | succ n ih =>
      intro a
      have hone : a.countMissed.missedTicks = a.missedTicks - 1 :=
        congrArg (· - 1) (advance_frame (·.missedTicks) (fun _ _ => rfl) (fun _ _ => rfl) a)
      rw [Function.iterate_succ_apply, ih, hone]
      omega
  rw [catchUp, hmany]
  omega

/-- Afterwards no task is pending. -/
theorem wakePending_pending (a : Sched T) : a.wakePending.pending = [] := by
  rw [wakePending, foldl_wake_pending]
  exact List.filter_eq_nil_iff.2 fun u hu => by simp [hu]

/-- Nobody waits for a time that is past, after all ticks are counted. -/
theorem Timely.catchUp (h : a.Timely) : a.catchUp.Timely := by
  rw [Sched.catchUp]
  generalize a.missedTicks = n
  induction n generalizing a with
  | zero => exact h
  | succ n ih => exact ih (a := a.countMissed) (timely_advance a)

/-- Counting ticks leaves the ready tasks in their queues. -/
theorem Sane.at_ready_catchUp (h : a.Sane idle) {q : Priority} (hu : a.At u (.ready q)) :
    a.catchUp.At u (.ready q) := by
  rw [Sched.catchUp]
  generalize a.missedTicks = n
  induction n generalizing a with
  | zero => exact hu
  | succ n ih => exact ih h.countMissed (h.at_ready_advance hu)

/-- Opening a lock keeps the running task. -/
theorem unlock_current (a : Sched T) : a.unlock.1.current = a.current := by
  rcases a.unlock_cases with ⟨-, heq⟩ | ⟨-, heq⟩ | ⟨-, -, -, -, heq⟩ <;> rw [heq]
  · exact (catchUp_frame (·.current) (fun _ _ => rfl) (fun _ _ => rfl) (fun _ _ => rfl) _).trans
      (foldl_wake_frame (·.current) (fun _ _ => rfl) _ _)
  · exact foldl_wake_frame (·.current) (fun _ _ => rfl) _ _

/-- It keeps the priorities. -/
theorem unlock_priority (a : Sched T) : a.unlock.1.priority = a.priority := by
  rcases a.unlock_cases with ⟨-, heq⟩ | ⟨-, heq⟩ | ⟨-, -, -, -, heq⟩ <;> rw [heq]
  · exact (catchUp_frame (·.priority) (fun _ _ => rfl) (fun _ _ => rfl) (fun _ _ => rfl) _).trans
      (foldl_wake_frame (·.priority) (fun _ _ => rfl) _ _)
  · exact foldl_wake_frame (·.priority) (fun _ _ => rfl) _ _

/-- There is one lock less. -/
theorem unlock_locks (a : Sched T) : a.unlock.1.locks = a.locks - 1 := by
  rcases a.unlock_cases with ⟨-, heq⟩ | ⟨hzero, heq⟩ | ⟨hzero, -, -, -, heq⟩ <;>
    rw [heq]
  · rw [hzero]
    exact (catchUp_frame (·.locks) (fun _ _ => rfl) (fun _ _ => rfl) (fun _ _ => rfl) _).trans
      (foldl_wake_frame (·.locks) (fun _ _ => rfl) _ _)
  · rw [hzero]
    exact foldl_wake_frame (·.locks) (fun _ _ => rfl) _ _

/-- Nobody waits for a time that is past. -/
theorem Timely.unlock (h : a.Timely) : a.unlock.1.Timely := by
  have hwoken : ({ a with locks := 0 } : Sched T).wakePending.Timely :=
    Timely.foldl_wake (a := { a with locks := 0 }) h _
  rcases a.unlock_cases with ⟨-, heq⟩ | ⟨-, heq⟩ | ⟨-, -, -, -, heq⟩ <;> rw [heq]
  · exact h
  · exact hwoken.catchUp
  · exact hwoken

/-- **With the last lock open nothing is missed.** -/
theorem quiet_unlock (a : Sched T) : a.unlock.1.Quiet := by
  intro hzero
  rcases a.unlock_cases with ⟨hlocks, heq⟩ | ⟨-, heq⟩ | ⟨-, -, hticks, hyield, heq⟩ <;>
    rw [heq] at hzero ⊢
  · exact absurd hzero hlocks
  · exact ⟨catchUp_pending (wakePending_pending _), catchUp_missedTicks _, rfl⟩
  · exact ⟨wakePending_pending _,
      (foldl_wake_frame (·.missedTicks) (fun _ _ => rfl) _ _).trans hticks,
      (foldl_wake_frame (·.missedYield) (fun _ _ => rfl) _ _).trans hyield⟩

/-- The running task stays ready. -/
theorem Sane.runs_unlock (h : a.Sane idle) (hruns : a.Runs) : a.unlock.1.Runs := by
  rw [Runs, unlock_current, unlock_priority]
  have hopen : ({ a with locks := 0 } : Sched T).Sane idle := h.vary
  have hwoken : ({ a with locks := 0 } : Sched T).wakePending.At a.current
      (.ready (a.priority a.current)) := hopen.at_ready_foldl_wake hruns _
  rcases a.unlock_cases with ⟨-, heq⟩ | ⟨-, heq⟩ | ⟨-, -, -, -, heq⟩ <;> rw [heq]
  · exact hruns
  · exact hopen.wakePending.at_ready_catchUp hwoken
  · exact hwoken

/-- Opening a lock asks for a switch, or the running task is still the most important one. -/
theorem unlock_top (htop : a.TopBut n) (hno : a.unlock.2 = false) : a.unlock.1.TopBut n := by
  intro u q hu hq
  rw [unlock_current, unlock_priority] at hq
  rcases a.unlock_cases with ⟨-, heq⟩ | ⟨-, heq⟩ | ⟨-, hurgent, -, -, heq⟩ <;>
    rw [heq] at hu hno
  · exact htop u q hu hq
  · exact absurd hno (by simp)
  · rcases at_foldl_wake.1 hu with ⟨-, hu⟩ | ⟨hmem, hp⟩
    · exact htop u q hu hq
    · have hlow := List.any_eq_false.1 hurgent u hmem
      rw [decide_eq_true_eq, not_le] at hlow
      exact absurd (Place.ready.inj hp ▸ hlow : q < a.priority a.current) (not_lt.2 hq.le)

/-- A yield in it asks for a switch. -/
theorem unlock_yields (h : a.unlock.2 = true) : a.unlock.1.switchPending = true := by
  rcases a.unlock_cases with ⟨-, heq⟩ | ⟨-, heq⟩ | ⟨-, -, -, -, heq⟩ <;>
    rw [heq] at h ⊢
  · exact absurd h (by simp)
  · exact absurd h (by simp)

/-- A yield that was missed is made up for, or still to be. -/
theorem unlock_missedYield (h : a.missedYield = true) :
    a.unlock.1.switchPending = true ∨ a.unlock.1.missedYield = true := by
  rcases a.unlock_cases with ⟨-, heq⟩ | ⟨-, heq⟩ | ⟨-, -, -, hyield, heq⟩
  · rw [heq]
    exact Or.inr h
  · rw [heq]
    exact Or.inl rfl
  · rw [h] at hyield
    cases hyield

/-- Tasks that become ready were not deleted. -/
theorem foldl_wake_deleted {ts : List T} (hts : ∀ t ∈ ts, t ∉ a.deleted) :
    (ts.foldl wake a).deleted = a.deleted := by
  induction ts generalizing a with
  | nil => rfl
  | cons t ts ih =>
    have hone : (a.wake t).deleted = a.deleted := filter_ne_of_notMem (hts t List.mem_cons_self)
    rw [List.foldl_cons, ih fun u hu => by rw [hone]; exact hts u (List.mem_cons_of_mem _ hu), hone]

/-- A tick deletes no task and removes none. -/
theorem Sane.advance_deleted (h : a.Sane idle) : a.advance.deleted = a.deleted := by
  refine foldl_wake_deleted (a := { a with now := a.now + 1 }) fun t ht hdel => ?_
  obtain ⟨w, hw, -⟩ := mem_due ht
  exact absurd (h.unique (l := .delayed) ⟨w, hw⟩ (m := .deleted) hdel) (by simp)

/-- Neither do the missed ticks. -/
theorem Sane.catchUp_deleted (h : a.Sane idle) : a.catchUp.deleted = a.deleted := by
  rw [Sched.catchUp]
  generalize a.missedTicks = n
  induction n generalizing a with
  | zero => rfl
  | succ n ih => exact (ih h.countMissed).trans h.advance_deleted

/-- Neither does opening a lock. -/
theorem Sane.unlock_deleted (h : a.Sane idle) : a.unlock.1.deleted = a.deleted := by
  have hopen : ({ a with locks := 0 } : Sched T).Sane idle := h.vary
  have hwoken : ({ a with locks := 0 } : Sched T).wakePending.deleted = a.deleted :=
    foldl_wake_deleted (a := { a with locks := 0 }) fun t ht hdel =>
      absurd (h.unique (h.pending t ht) (m := .deleted) hdel) (by simp)
  rcases a.unlock_cases with ⟨-, heq⟩ | ⟨-, heq⟩ | ⟨-, -, -, -, heq⟩ <;> rw [heq]
  · exact hopen.wakePending.catchUp_deleted.trans hwoken
  · exact hwoken

/-! ### The deleted tasks -/

/-- Neither does taking a task out of another place. -/
theorem Sane.take_deleted (h : a.Sane idle) {l : Place} (ht : a.At t l) (hl : l ≠ .deleted) :
    (a.take t).deleted = a.deleted :=
  filter_ne_of_notMem (h.live_ne_deleted ⟨l, hl, ht⟩)

/-- Neither does resuming a task. -/
theorem Sane.resume_deleted (h : a.Sane idle) (t : T) : (a.resume t).deleted = a.deleted := by
  rw [Sched.resume]
  split
  · rename_i ht
    have htaken := h.take_deleted (l := .suspended) ht.2.1 (by simp)
    split <;> exact htaken
  · rfl

/-- Neither does it in an interrupt handler. -/
theorem Sane.resumeFromISR_deleted (h : a.Sane idle) (t : T) :
    (a.resumeFromISR t).deleted = a.deleted := by
  rw [Sched.resumeFromISR]
  split
  · rename_i ht
    have htaken := h.take_deleted (l := .suspended) ht.1 (by simp)
    split
    · split <;> exact htaken
    · rfl
  · rfl

/-- Neither does a new priority. -/
theorem Sane.changePriority_deleted (h : a.Sane idle) (t : T) (p : Priority) :
    (a.changePriority t p).deleted = a.deleted := by
  rw [Sched.changePriority]
  split
  · rename_i hready
    exact h.take_deleted (l := .ready (a.base t)) hready (by simp)
  · rfl

/-- Neither does `vTaskPrioritySet`. -/
theorem Sane.setPriority_deleted (h : a.Sane idle) (t : T) (p : Priority) :
    (a.setPriority t p).deleted = a.deleted := by
  rcases a.setPriority_cases t p with heq | ⟨-, -, heq⟩ | ⟨-, -, heq⟩ <;> rw [heq]
  · exact h.changePriority_deleted t p
  · exact h.changePriority_deleted t p

/-! ### The switch -/

omit [DecidableEq T] in
/-- The switch takes a task of the highest priority with a ready task. -/
theorem Sane.switch_eq (h : a.Sane idle) (hlocks : a.locks = 0) :
    ∃ p t ts, a.ready p = t :: ts ∧ (∀ q, a.ready q ≠ [] → q ≤ p) ∧
      a.switch = { a with current := t, ready := Function.update a.ready p (ts ++ [t]) } := by
  have hidle : a.ready tskIDLE_PRIORITY ≠ [] := List.ne_nil_of_mem h.idle
  obtain ⟨p, hp, hmax⟩ :=
    Finset.exists_max_image (Finset.univ.filter fun p => a.ready p ≠ []) id
    ⟨tskIDLE_PRIORITY, by simpa using hidle⟩
  have hp : a.ready p ≠ [] := by simpa using hp
  have hmax : ∀ q, a.ready q ≠ [] → q ≤ p := fun q hq => hmax q (by simpa using hq)
  obtain ⟨t, ts, hcons⟩ := List.exists_cons_of_ne_nil hp
  refine ⟨p, t, ts, hcons, hmax, ?_⟩
  rw [Sched.switch, if_neg (not_not.2 hlocks), highest_eq hp hmax]
  simp only [hcons]

omit [DecidableEq T] in
/-- **The switch gives the processor to a most important task.** -/
theorem Sane.switch_runs (h : a.Sane idle) (hlocks : a.locks = 0) :
    a.switch.Runs ∧ a.switch.TopBut n := by
  obtain ⟨p, t, ts, hcons, hmax, heq⟩ := h.switch_eq hlocks
  have ht : a.At t (.ready p) := by
    show t ∈ a.ready p
    rw [hcons]
    exact List.mem_cons_self
  have hpriority : a.switch.priority a.switch.current = p := by
    rw [heq]
    exact h.ready ht
  have hcurrent : a.switch.current = t := by rw [heq]
  constructor
  · rw [Runs, hpriority, hcurrent, at_switch]
    exact ht
  · intro u q hu hq
    rw [hpriority] at hq
    exact absurd (hmax q (List.ne_nil_of_mem (at_switch.1 hu))) (not_le.2 hq)

end Sched

end Rtos
end Especial
