/-
# Priorities, new tasks and the switch

A new priority moves a ready task to another queue; a new task joins a queue, and a deleted
one waits for the idle task to remove it; a switch puts the task that is to run at the end of
its queue.  All of them keep the tasks in order (`Sane`).
-/

import Especial.Rtos.Sane

namespace Especial
namespace Rtos

open Lib

namespace Sched

variable {T : Type} {a b : Sched T} {t u idle : T} {l : Place} [DecidableEq T]

/-! ### Priorities -/

/-- A new priority alone moves no task. -/
theorem at_withPriority {p : Priority} : (a.withPriority t p).At u l ↔ a.At u l := by
  cases l <;> exact Iff.rfl

/-- The priorities after one was set. -/
theorem Sane.withPriority_priority (h : a.Sane idle) (t : T) (p : Priority) :
    (a.withPriority t p).priority = Function.update a.priority t p := by
  rw [Sched.withPriority, h.base]
  simp

omit [DecidableEq T] in
/-- A ready task is in the queue of its base priority. -/
theorem Sane.mem_ready_base (h : a.Sane idle) {p : Priority} (ht : a.At t (.ready p)) :
    t ∈ a.ready (a.base t) := by
  rw [h.base, h.ready ht]
  exact ht

/-- A task that is not ready gets another priority. -/
theorem Sane.withPriority (h : a.Sane idle) {p : Priority} (ht : ∀ q, ¬ a.At t (.ready q)) :
    (a.withPriority t p).Sane idle where
  running := h.running
  unique hl hm := h.unique (at_withPriority.1 hl) (at_withPriority.1 hm)
  nodup := h.nodup
  tasks u := (h.tasks u).trans (exists_congr fun _ => at_withPriority.symm)
  idle := h.idle
  ready {u q} hu := by
    have hne : u ≠ t := by
      rintro rfl
      exact ht q (at_withPriority.1 hu)
    rw [h.withPriority_priority, Function.update_of_ne hne]
    exact h.ready (at_withPriority.1 hu)
  base := by
    rw [h.withPriority_priority, ← h.base]
    rfl
  pending := h.pending
  deletedNodup := h.deletedNodup
  deletions := h.deletions

/-- A ready task gets another priority, and goes to another queue. -/
theorem Sane.requeue (h : a.Sane idle) {p q : Priority} (ht : a.At t (.ready q))
    (hidle : t ≠ idle) : (((a.withPriority t p).take t).enqueue t).Sane idle := by
  have hpriority : ((a.withPriority t p).take t).priority = Function.update a.priority t p :=
    h.withPriority_priority t p
  have hat {u : T} {l : Place} : (((a.withPriority t p).take t).enqueue t).At u l ↔
      u ≠ t ∧ a.At u l ∨ u = t ∧ l = .ready p := by
    rw [at_enqueue, at_take, at_withPriority, hpriority, Function.update_self]
  have hdeleted : (a.deleted.filter (· ≠ t)) = a.deleted :=
    filter_ne_of_notMem (h.live_ne_deleted ⟨_, by simp, ht⟩)
  refine ⟨h.running, h.unique_of_at_iff hat, h.nodup,
    fun u => (h.tasks u).trans (holds_of_at_iff hat ⟨_, ht⟩).symm,
    hat.2 (Or.inl ⟨hidle.symm, h.idle⟩), fun {u m} hu => ?_, ?_, fun u hu => ?_, ?_, ?_⟩
  · show ((a.withPriority t p).take t).priority u = m
    rw [hpriority]
    rcases hat.1 hu with ⟨hne, hu⟩ | ⟨rfl, hm⟩
    · rw [Function.update_of_ne hne]
      exact h.ready hu
    · rw [Function.update_self]
      exact (Place.ready.inj hm).symm
  · show Function.update a.base t p = (a.withPriority t p).priority
    rw [h.withPriority_priority, h.base]
  · refine hat.2 (Or.inl ⟨?_, h.pending u hu⟩)
    rintro rfl
    exact h.notMem_pending ht (by simp) hu
  · show (a.deleted.filter (· ≠ t)).Nodup
    rw [hdeleted]
    exact h.deletedNodup
  · show a.deletions = (a.deleted.filter (· ≠ t)).length
    rw [hdeleted]
    exact h.deletions

/-- A task gets another priority, and another queue. -/
theorem Sane.changePriority (h : a.Sane idle) (p : Priority) (hidle : t ≠ idle) :
    (a.changePriority t p).Sane idle := by
  rw [Sched.changePriority]
  split
  · rename_i hready
    exact h.requeue (q := a.base t) hready hidle
  · rename_i hready
    exact h.withPriority fun q hq => hready (h.mem_ready_base hq)

/-- Whether a new priority calls for a switch: that of another task if it is higher, that of the
running task if it is lower. -/
def Yields (a : Sched T) (t : T) (p : Priority) : Prop :=
  if p > a.base t then t ≠ a.current else t = a.current

/-- `vTaskPrioritySet` does nothing, or changes the priority with or without a yield. -/
theorem setPriority_cases (a : Sched T) (t : T) (p : Priority) :
    a.setPriority t p = a ∨
      a.base t ≠ p ∧ a.Yields t p ∧ a.setPriority t p = (a.changePriority t p).yield ∨
      a.base t ≠ p ∧ ¬ a.Yields t p ∧ a.setPriority t p = a.changePriority t p := by
  rw [setPriority]
  by_cases hne : a.base t ≠ p
  · rw [if_pos hne]
    by_cases hyields : a.Yields t p
    · exact Or.inr (Or.inl ⟨hne, hyields, if_pos hyields⟩)
    · exact Or.inr (Or.inr ⟨hne, hyields, if_neg hyields⟩)
  · exact Or.inl (if_neg hne)

/-- **A new priority keeps the tasks in order.** -/
theorem Sane.setPriority (h : a.Sane idle) (p : Priority) (hidle : t ≠ idle) :
    (a.setPriority t p).Sane idle := by
  rcases a.setPriority_cases t p with heq | ⟨-, -, heq⟩ | ⟨-, -, heq⟩ <;> rw [heq]
  · exact h
  · exact (h.changePriority p hidle).vary
  · exact h.changePriority p hidle

/-! ### Tasks come and go -/

/-- A new task is in the queue of its priority; the others stay. -/
theorem at_create {n : ℕ} : (a.create t n).At u l ↔
    a.At u l ∨ u = t ∧ l = .ready (Kernel.cappedPriority n) := by
  have hadd : (a.addTask t (Kernel.cappedPriority n)).priority t = Kernel.cappedPriority n :=
    Function.update_self ..
  have hat : ∀ b : Sched T, b.priority = (a.addTask t (Kernel.cappedPriority n)).priority →
      (b.At u l ↔ a.At u l) →
      ((b.enqueue t).At u l ↔ a.At u l ∨ u = t ∧ l = .ready (Kernel.cappedPriority n)) := by
    intro b hb hsame
    rw [at_enqueue, hb, hadd, hsame]
  rw [create]
  split
  · exact hat _ rfl (by cases l <;> exact Iff.rfl)
  · exact hat _ rfl (by cases l <;> exact Iff.rfl)

/-- The priorities with the new task. -/
theorem create_priority (a : Sched T) (t : T) (n : ℕ) :
    (a.create t n).priority = Function.update a.priority t (Kernel.cappedPriority n) := by
  rw [create]
  split <;> rfl

/-- What a new task leaves alone. -/
theorem create_frame {β : Type} (f : Sched T → β) (hf : ∀ a t, f (enqueue a t) = f a)
    (hcurrent : ∀ (a : Sched T) c, f { a with current := c } = f a) (a : Sched T)
    (t : T) (n : ℕ) : f (a.create t n) = f (a.addTask t (Kernel.cappedPriority n)) := by
  rw [create]
  split
  · rw [hf, hcurrent]
  · rw [hf]

/-- **A new task keeps the tasks in order.** -/
theorem Sane.create (h : a.Sane idle) (ht : ¬ a.Holds t) (n : ℕ) : (a.create t n).Sane idle := by
  have hne : ∀ {u l}, a.At u l → u ≠ t := by
    rintro u l hu rfl
    exact ht ⟨l, hu⟩
  have htasks : (a.create t n).tasks = t :: a.tasks :=
    create_frame (·.tasks) (fun _ _ => rfl) (fun _ _ => rfl) a t n
  have hdeleted : (a.create t n).deleted = a.deleted :=
    create_frame (·.deleted) (fun _ _ => rfl) (fun _ _ => rfl) a t n
  refine ⟨?_, fun {u l m} hl hm => ?_, ?_, fun u => ?_, at_create.2 (Or.inl h.idle),
    fun {u m} hu => ?_, ?_, fun u hu => ?_, hdeleted ▸ h.deletedNodup, ?_⟩
  · exact (create_frame (·.running) (fun _ _ => rfl) (fun _ _ => rfl) a t n).trans h.running
  · rcases at_create.1 hl with hl | ⟨rfl, rfl⟩ <;> rcases at_create.1 hm with hm | ⟨hu, hm⟩
    · exact h.unique hl hm
    · exact absurd hu (hne hl)
    · exact absurd rfl (hne hm)
    · exact hm.symm
  · rw [htasks]
    exact List.nodup_cons.2 ⟨fun hmem => ht ((h.tasks t).1 hmem), h.nodup⟩
  · rw [htasks, List.mem_cons, h.tasks]
    constructor
    · rintro (rfl | ⟨l, hl⟩)
      · exact ⟨_, at_create.2 (Or.inr ⟨rfl, rfl⟩)⟩
      · exact ⟨l, at_create.2 (Or.inl hl)⟩
    · rintro ⟨l, hl⟩
      rcases at_create.1 hl with hl | ⟨rfl, -⟩
      · exact Or.inr ⟨l, hl⟩
      · exact Or.inl rfl
  · rw [create_priority]
    rcases at_create.1 hu with hu | ⟨rfl, hm⟩
    · rw [Function.update_of_ne (hne hu)]
      exact h.ready hu
    · rw [Function.update_self]
      exact (Place.ready.inj hm).symm
  · rw [create_priority, ← h.base]
    exact create_frame (·.base) (fun _ _ => rfl) (fun _ _ => rfl) a t n
  · refine at_create.2 (Or.inl (h.pending u ?_))
    exact (create_frame (·.pending) (fun _ _ => rfl) (fun _ _ => rfl) a t n) ▸ hu
  · rw [hdeleted, ← h.deletions]
    exact create_frame (·.deletions) (fun _ _ => rfl) (fun _ _ => rfl) a t n

/-- A task is deleted. -/
theorem Sane.delete (h : a.Sane idle) (ht : a.Live t) (hidle : t ≠ idle) :
    (a.delete t).Sane idle := by
  have hdeleted : (a.delete t).deleted = a.deleted ++ [t] :=
    congrArg (· ++ [t]) (filter_ne_of_notMem (h.live_ne_deleted ht))
  refine ⟨h.running, h.unique_of_at_iff at_delete, h.nodup,
    fun u => (h.tasks u).trans (holds_of_at_iff at_delete ht.holds).symm,
    at_delete.2 (Or.inl ⟨hidle.symm, h.idle⟩), fun {u m} hu => ?_, h.base,
    fun u hu => ?_, ?_, ?_⟩
  · rcases at_delete.1 hu with ⟨-, hu⟩ | ⟨-, hm⟩
    · exact h.ready hu
    · simp at hm
  · obtain ⟨hmem, hne⟩ := List.mem_filter.1 hu
    exact at_delete.2 (Or.inl ⟨of_decide_eq_true hne, h.pending u hmem⟩)
  · rw [hdeleted]
    exact List.Nodup.append h.deletedNodup (List.nodup_singleton t)
      (List.disjoint_singleton.2 (h.live_ne_deleted ht))
  · rw [hdeleted, List.length_append, ← h.deletions]
    rfl

/-- The first deleted task is removed, if there is one. -/
theorem Sane.reap (h : a.Sane idle) : a.reap.Sane idle := by
  rw [Sched.reap]
  split
  · exact h
  · rename_i t ts hcons
    have ht : a.At t .deleted := by
      show t ∈ a.deleted
      rw [hcons]
      exact List.mem_cons_self
    have hat {u : T} {l : Place} : ({ a.take t with
        tasks := a.tasks.filter (· ≠ t), deletions := a.deletions - 1 } : Sched T).At u l ↔
          u ≠ t ∧ a.At u l := by
      rw [← at_take]
      cases l <;> exact Iff.rfl
    have hnot : t ∉ ts := (List.nodup_cons.1 (hcons ▸ h.deletedNodup)).1
    have hrest : a.deleted.filter (· ≠ t) = ts := by
      rw [hcons, List.filter_cons_of_neg (by simp), filter_ne_of_notMem hnot]
    refine ⟨h.running, fun {u l m} hl hm => h.unique (hat.1 hl).2 (hat.1 hm).2, h.nodup.filter _,
      fun u => ?_, hat.2 ⟨?_, h.idle⟩, fun {u m} hu => h.ready (hat.1 hu).2, h.base,
      fun u hu => hat.2 ⟨?_, h.pending u hu⟩, ?_, ?_⟩
    · rw [List.mem_filter, h.tasks, decide_eq_true_eq, and_comm]
      constructor
      · rintro ⟨hne, l, hl⟩
        exact ⟨l, hat.2 ⟨hne, hl⟩⟩
      · rintro ⟨l, hl⟩
        exact ⟨(hat.1 hl).1, l, (hat.1 hl).2⟩
    · rintro rfl
      exact absurd (h.unique h.idle ht) (by simp)
    · rintro rfl
      exact absurd (h.unique (h.pending u hu) ht) (by simp)
    · exact h.deletedNodup.filter _
    · show a.deletions - 1 = (a.deleted.filter (· ≠ t)).length
      rw [hrest, h.deletions, hcons, List.length_cons, Nat.add_sub_cancel]

/-! ### The switch -/

omit [DecidableEq T] in
/-- A switch moves no task to another place. -/
theorem at_switch : a.switch.At u l ↔ a.At u l := by
  rw [switch]
  split
  · cases l <;> exact Iff.rfl
  · split
    · exact Iff.rfl
    · rename_i p _
      split
      · exact Iff.rfl
      · rename_i t ts hcons
        cases l with
        | ready q =>
          show u ∈ Function.update a.ready p (ts ++ [t]) q ↔ u ∈ a.ready q
          rcases eq_or_ne q p with rfl | hne
          · rw [Function.update_self, hcons, List.mem_append, List.mem_singleton, List.mem_cons,
              or_comm]
          · rw [Function.update_of_ne hne]
        | delayed | suspended | deleted => exact Iff.rfl

omit [DecidableEq T] in
/-- What a switch leaves alone. -/
theorem switch_frame {β : Type} (f : Sched T → β)
    (hready : ∀ (a : Sched T) c r, f { a with current := c, ready := r } = f a)
    (hmissed : ∀ (a : Sched T) y, f { a with missedYield := y } = f a) (a : Sched T) :
    f a.switch = f a := by
  rw [switch]
  split
  · exact hmissed a true
  · split
    · rfl
    · split
      · rfl
      · exact hready a _ _

omit [DecidableEq T] in
/-- **A switch keeps the tasks in order.** -/
theorem Sane.switch (h : a.Sane idle) : a.switch.Sane idle where
  running := (switch_frame (·.running) (fun _ _ _ => rfl) (fun _ _ => rfl) a).trans h.running
  unique hl hm := h.unique (at_switch.1 hl) (at_switch.1 hm)
  nodup := (switch_frame (·.tasks) (fun _ _ _ => rfl) (fun _ _ => rfl) a).symm ▸ h.nodup
  tasks t := by
    rw [switch_frame (·.tasks) (fun _ _ _ => rfl) (fun _ _ => rfl) a, h.tasks]
    exact exists_congr fun _ => at_switch.symm
  idle := at_switch.2 h.idle
  ready ht := by
    rw [switch_frame (·.priority) (fun _ _ _ => rfl) (fun _ _ => rfl) a]
    exact h.ready (at_switch.1 ht)
  base := by
    rw [switch_frame (·.base) (fun _ _ _ => rfl) (fun _ _ => rfl) a,
      switch_frame (·.priority) (fun _ _ _ => rfl) (fun _ _ => rfl) a, h.base]
  pending t ht := by
    rw [switch_frame (·.pending) (fun _ _ _ => rfl) (fun _ _ => rfl) a] at ht
    exact at_switch.2 (h.pending t ht)
  deletedNodup :=
    (switch_frame (·.deleted) (fun _ _ _ => rfl) (fun _ _ => rfl) a).symm ▸ h.deletedNodup
  deletions := by
    rw [switch_frame (·.deletions) (fun _ _ _ => rfl) (fun _ _ => rfl) a,
      switch_frame (·.deleted) (fun _ _ _ => rfl) (fun _ _ => rfl) a, h.deletions]

end Sched

end Rtos
end Especial
