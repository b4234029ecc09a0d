/-
# What every operation of the scheduler keeps

`Sane`: a task is at one place, the tasks at some place are those that count as tasks, the ready
ones are in the queue of their priority, the idle task is always ready, and the deletions that
the idle task has to see to are those of the deleted tasks.  All operations keep it.

Most of them move one task.  `Moves` says that, and `Sane.moves` is the one argument for them.
-/

import Especial.Rtos.Sched

namespace Especial
namespace Rtos

open Lib

namespace Sched

variable {T : Type} {a b : Sched T} {t u idle : T} {l : Place}

/-- The task has not been deleted. -/
def Live (a : Sched T) (t : T) : Prop := ∃ l ≠ Place.deleted, a.At t l

/-- What is true of the tasks and of where they are. -/
structure Sane (idle : T) (a : Sched T) : Prop where
  running : a.running = true
  unique : ∀ {t l m}, a.At t l → a.At t m → l = m
  nodup : a.tasks.Nodup
  tasks : ∀ t, t ∈ a.tasks ↔ a.Holds t
  idle : a.At idle (.ready tskIDLE_PRIORITY)
  ready : ∀ {t p}, a.At t (.ready p) → a.priority t = p
  base : a.base = a.priority
  pending : ∀ t ∈ a.pending, a.At t .suspended
  deletedNodup : a.deleted.Nodup
  deletions : a.deletions = a.deleted.length

/-- The other variables have nothing to do with it. -/
theorem Sane.vary (h : a.Sane idle) {now locks missedTicks : ℕ} {current : T}
    {missedYield switchPending : Bool} :
    { a with now, locks, missedTicks, current, missedYield, switchPending }.Sane idle where
  running := h.running
  unique {t l m} hl hm := h.unique (t := t) (l := l) (m := m) (by cases l <;> exact hl)
    (by cases m <;> exact hm)
  nodup := h.nodup
  tasks t := (h.tasks t).trans (exists_congr fun l => by cases l <;> exact Iff.rfl)
  idle := h.idle
  ready hr := h.ready hr
  base := h.base
  pending := h.pending
  deletedNodup := h.deletedNodup
  deletions := h.deletions

/-- There is a task, the idle task. -/
theorem Sane.tasks_ne_nil (h : a.Sane idle) : a.tasks ≠ [] :=
  List.ne_nil_of_mem ((h.tasks idle).2 ⟨_, h.idle⟩)

/-- Only a suspended task can be one that became ready while the scheduler was locked. -/
theorem Sane.notMem_pending (h : a.Sane idle) (ht : a.At t l) (hl : l ≠ .suspended) :
    t ∉ a.pending :=
  fun hmem => hl (h.unique ht (h.pending t hmem))

/-- A task that lives waits for no termination. -/
theorem Sane.live_ne_deleted (h : a.Sane idle) (ht : a.Live t) : t ∉ a.deleted := by
  obtain ⟨l, hl, hat⟩ := ht
  exact fun hmem => hl (h.unique hat (m := .deleted) hmem)

/-- As long as a task lives, the deleted ones are not all of them. -/
theorem Sane.deletions_lt (h : a.Sane idle) (ht : a.Live t) : a.deletions < a.tasks.length := by
  have hsub : t :: a.deleted ⊆ a.tasks := by
    intro u hu
    rcases List.mem_cons.1 hu with rfl | hu
    · obtain ⟨l, -, hl⟩ := ht
      exact (h.tasks u).2 ⟨l, hl⟩
    · exact (h.tasks u).2 ⟨.deleted, hu⟩
  have hnodup : (t :: a.deleted).Nodup :=
    List.nodup_cons.2 ⟨h.live_ne_deleted ht, h.deletedNodup⟩
  rw [h.deletions]
  exact (List.subperm_of_subset hnodup hsub).length_le

/-- A task that lives waits somewhere. -/
theorem Live.holds (h : a.Live t) : a.Holds t := by
  obtain ⟨l, -, hl⟩ := h
  exact ⟨l, hl⟩

/-- The task `t` moves to the place `l`, and no other task does anything. -/
structure Moves (t : T) (l : Place) (a b : Sched T) : Prop where
  at_iff : ∀ {u m}, b.At u m ↔ u ≠ t ∧ a.At u m ∨ u = t ∧ m = l
  running : b.running = a.running
  tasks : b.tasks = a.tasks
  priority : b.priority = a.priority
  base : b.base = a.base
  pending : ∀ u ∈ b.pending, u ≠ t ∧ u ∈ a.pending
  deleted : t ∉ a.deleted → l ≠ .deleted → b.deleted = a.deleted
  deletions : l ≠ .deleted → b.deletions = a.deletions

section Moved

variable (hat : ∀ {u m}, b.At u m ↔ u ≠ t ∧ a.At u m ∨ u = t ∧ m = l)

include hat

/-- A task that has moved is in one place, as the others are. -/
theorem Sane.unique_of_at_iff (h : a.Sane idle) {m n : Place} (hm : b.At u m) (hn : b.At u n) :
    m = n := by
  rcases hat.1 hm with ⟨hu, hm⟩ | ⟨rfl, rfl⟩ <;>
    rcases hat.1 hn with ⟨hu', hn⟩ | ⟨hu', hn⟩
  · exact h.unique hm hn
  · exact absurd hu' hu
  · exact absurd rfl hu'
  · exact hn.symm

/-- The same tasks wait somewhere. -/
theorem holds_of_at_iff (ht : a.Holds t) : b.Holds u ↔ a.Holds u := by
  constructor
  · rintro ⟨m, hu⟩
    rcases hat.1 hu with ⟨-, hu⟩ | ⟨rfl, -⟩
    · exact ⟨m, hu⟩
    · exact ht
  · rintro ⟨m, hu⟩
    by_cases heq : u = t
    · exact ⟨l, hat.2 (Or.inr ⟨heq, rfl⟩)⟩
    · exact ⟨m, hat.2 (Or.inl ⟨heq, hu⟩)⟩

end Moved

/-- **A task that is not deleted may move** to any place but the queue of another priority. -/
theorem Sane.moves (h : a.Sane idle) (hm : Moves t l a b) (ht : a.Live t) (hl : l ≠ .deleted)
    (hready : ∀ p, l = .ready p → a.priority t = p)
    (hidle : t = idle → l = .ready tskIDLE_PRIORITY) : b.Sane idle where
  running := hm.running.trans h.running
  unique := h.unique_of_at_iff hm.at_iff
  nodup := hm.tasks ▸ h.nodup
  tasks u := by rw [hm.tasks, h.tasks, holds_of_at_iff hm.at_iff ht.holds]
  idle := by
    rcases eq_or_ne idle t with rfl | hne
    · exact hm.at_iff.2 (Or.inr ⟨rfl, (hidle rfl).symm⟩)
    · exact hm.at_iff.2 (Or.inl ⟨hne, h.idle⟩)
  ready {u p} hu := by
    rw [hm.priority]
    rcases hm.at_iff.1 hu with ⟨-, hu⟩ | ⟨rfl, hp⟩
    · exact h.ready hu
    · exact hready p hp.symm
  base := by rw [hm.base, hm.priority, h.base]
  pending u hu := by
    obtain ⟨hne, hu⟩ := hm.pending u hu
    exact hm.at_iff.2 (Or.inl ⟨hne, h.pending u hu⟩)
  deletedNodup := by
    rw [hm.deleted (h.live_ne_deleted ht) hl]
    exact h.deletedNodup
  deletions := by
    rw [hm.deleted (h.live_ne_deleted ht) hl, hm.deletions hl]
    exact h.deletions

variable [DecidableEq T]

/-- Taking out what is not there. -/
theorem filter_ne_of_notMem {xs : List T} (h : t ∉ xs) : xs.filter (· ≠ t) = xs :=
  List.filter_eq_self.2 fun _ hu => decide_eq_true fun heq => h (heq ▸ hu)

/-! ### The operations that move a task -/

/-- A task that becomes ready moves to the queue of its priority. -/
theorem moves_wake : Moves t (.ready (a.priority t)) a (a.wake t) where
  at_iff := at_wake
  running := rfl
  tasks := rfl
  priority := rfl
  base := rfl
  pending _ hu := by
    obtain ⟨hmem, hne⟩ := List.mem_filter.1 hu
    exact ⟨of_decide_eq_true hne, hmem⟩
  deleted ht _ := filter_ne_of_notMem ht
  deletions _ := rfl

/-- So does one that is taken out and put in again. -/
theorem moves_take_enqueue (ht : t ∉ a.pending) :
    Moves t (.ready (a.priority t)) a ((a.take t).enqueue t) where
  at_iff {u m} := by rw [at_enqueue, at_take]; rfl
  running := rfl
  tasks := rfl
  priority := rfl
  base := rfl
  pending _ hu := ⟨fun heq => ht (heq ▸ hu), hu⟩
  deleted ht _ := filter_ne_of_notMem ht
  deletions _ := rfl

/-- A task that waits for a time moves to the agenda. -/
theorem moves_delay (ht : t ∉ a.pending) (n : ℕ) : Moves t .delayed a (a.delay t n) where
  at_iff := at_delay
  running := rfl
  tasks := rfl
  priority := rfl
  base := rfl
  pending _ hu := ⟨fun heq => ht (heq ▸ hu), hu⟩
  deleted ht _ := filter_ne_of_notMem ht
  deletions _ := rfl

/-- A task that is suspended moves to the suspended ones. -/
theorem moves_suspend : Moves t .suspended a (a.suspend t) where
  at_iff := at_suspend
  running := rfl
  tasks := rfl
  priority := rfl
  base := rfl
  pending _ hu := by
    obtain ⟨hmem, hne⟩ := List.mem_filter.1 hu
    exact ⟨of_decide_eq_true hne, hmem⟩
  deleted ht _ := filter_ne_of_notMem ht
  deletions _ := rfl

/-- Becoming ready keeps the tasks in order. -/
theorem Sane.wake (h : a.Sane idle) (ht : a.Live t) : (a.wake t).Sane idle := by
  refine h.moves moves_wake ht (by simp) (by simp) ?_
  rintro rfl
  rw [h.ready h.idle]

/-- It deletes no task. -/
theorem Live.wake (ht : a.Live t) : (a.wake u).Live t := by
  obtain ⟨l, hl, hat⟩ := ht
  by_cases heq : t = u
  · exact ⟨_, by simp, at_wake.2 (Or.inr ⟨heq, rfl⟩)⟩
  · exact ⟨l, hl, at_wake.2 (Or.inl ⟨heq, hat⟩)⟩

/-- Several tasks wake up. -/
theorem Sane.foldl_wake {ts : List T} (h : a.Sane idle) (hts : ∀ t ∈ ts, a.Live t) :
    (ts.foldl Sched.wake a).Sane idle := by
  induction ts generalizing a with
  | nil => exact h
  | cons t ts ih =>
    exact ih (h.wake (hts t List.mem_cons_self)) fun u hu =>
      (hts u (List.mem_cons_of_mem _ hu)).wake

omit [DecidableEq T] in
/-- A task that is due waits for a time that has come. -/
theorem mem_due (ht : t ∈ a.due) : ∃ w, (t, w) ∈ a.delayed ∧ w ≤ a.now := by
  obtain ⟨x, hx, rfl⟩ := List.mem_map.1 ht
  obtain ⟨hmem, hle⟩ := List.mem_filter.1 hx
  exact ⟨x.2, hmem, of_decide_eq_true hle⟩

/-- A tick of the time keeps the tasks in order. -/
theorem Sane.advance (h : a.Sane idle) : a.advance.Sane idle := by
  have h' : { a with now := a.now + 1 }.Sane idle := h.vary
  refine h'.foldl_wake fun t ht => ?_
  obtain ⟨w, hw, -⟩ := mem_due ht
  exact ⟨.delayed, by simp, w, hw⟩

/-- So does a tick that comes. -/
theorem Sane.tick (h : a.Sane idle) : a.tick.Sane idle := by
  rw [Sched.tick]
  split
  · exact h.advance
  · exact h.vary

/-- So does a missed tick that is counted. -/
theorem Sane.countMissed (h : a.Sane idle) : a.countMissed.Sane idle := h.advance.vary

/-- So do all missed ticks. -/
theorem Sane.catchUp (h : a.Sane idle) : a.catchUp.Sane idle := by
  rw [Sched.catchUp]
  generalize a.missedTicks = n
  induction n generalizing a with
  | zero => exact h
  | succ n ih => exact ih h.countMissed

/-- So do the pending tasks that become ready. -/
theorem Sane.wakePending (h : a.Sane idle) : a.wakePending.Sane idle :=
  h.foldl_wake fun t ht => ⟨.suspended, by simp, h.pending t ht⟩

/-- **So does opening a lock.** -/
theorem Sane.unlock (h : a.Sane idle) : a.unlock.1.Sane idle := by
  have hmade : ({ a with locks := 0 }.wakePending.catchUp).Sane idle :=
    (Sane.wakePending (a := { a with locks := 0 }) h.vary).catchUp
  rw [Sched.unlock]
  split
  · rw [Sched.makeUp]
    split
    · exact hmade.vary
    · exact hmade
  · exact h.vary

/-- A ready task goes to sleep. -/
theorem Sane.delay (h : a.Sane idle) (ht : a.At t (.ready (a.priority t)))
    (hidle : t ≠ idle) (n : ℕ) : (a.delay t n).Sane idle :=
  h.moves (moves_delay (h.notMem_pending ht (by simp)) n) ⟨_, by simp, ht⟩ (by simp) (by simp)
    fun heq => absurd heq hidle

/-- A task is suspended. -/
theorem Sane.suspend (h : a.Sane idle) (ht : a.Live t) (hidle : t ≠ idle) :
    (a.suspend t).Sane idle :=
  h.moves moves_suspend ht (by simp) (by simp) fun heq => absurd heq hidle

/-- A suspended task is resumed. -/
theorem Sane.take_enqueue (h : a.Sane idle) (ht : a.IsSuspended t) :
    ((a.take t).enqueue t).Sane idle := by
  refine h.moves (moves_take_enqueue ht.2) ⟨.suspended, by simp, ht.1⟩ (by simp) (by simp) ?_
  rintro rfl
  rw [h.ready h.idle]

/-- A task is resumed. -/
theorem Sane.resume (h : a.Sane idle) (t : T) : (a.resume t).Sane idle := by
  rw [Sched.resume]
  split
  · rename_i ht
    split
    · exact (h.take_enqueue ht.2).vary
    · exact h.take_enqueue ht.2
  · exact h

/-- An interrupt handler resumes a task. -/
theorem Sane.resumeFromISR (h : a.Sane idle) (t : T) : (a.resumeFromISR t).Sane idle := by
  rw [Sched.resumeFromISR]
  split
  · rename_i ht
    split
    · split
      · exact (h.take_enqueue ht).vary
      · exact h.take_enqueue ht
    · exact { h with
        unique := fun {t l m} hl hm => h.unique (t := t) (l := l) (m := m) (by cases l <;> exact hl)
          (by cases m <;> exact hm)
        tasks := fun t => (h.tasks t).trans (exists_congr fun l => by cases l <;> exact Iff.rfl)
        pending := fun u hu => by
          rcases List.mem_append.1 hu with hu | hu
          · exact h.pending u hu
          · exact List.mem_singleton.1 hu ▸ ht.1 }
  · exact h

end Sched
end Rtos
end Especial
