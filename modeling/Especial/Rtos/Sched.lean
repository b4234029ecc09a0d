/-
# A scheduler of tasks with priorities

What the kernel of `Especial.Rtos.Tasks` is for, without its lists of pointers.  The time is a
natural number that does not overflow.  The tasks that are ready wait in one queue for each
priority, and the one whose turn is next stands first.  Those that wait for a time stand in
one agenda.  `Sched` has no list of tasks to be woken in another epoch, no highest priority
that is remembered, and no time at which to look at the agenda again.

`Especial.Rtos.Refines` shows that the kernel is such a scheduler.
-/

import Especial.Lib.Agenda
import Especial.Rtos.Tasks

namespace Especial
namespace Rtos

open Lib

/-- The state of a scheduler. -/
structure Sched (T : Type) where
  /-- the ticks that have been counted -/
  now : ℕ
  current : T
  priority : T → Priority
  /-- the priority that the application has set -/
  base : T → Priority
  ready : Priority → List T
  /-- the tasks that wait for a time, with that time -/
  delayed : List (T × ℕ)
  suspended : List T
  /-- deleted tasks that the idle task has not removed yet -/
  deleted : List T
  /-- tasks that became ready while the scheduler was locked -/
  pending : List T
  /-- all tasks -/
  tasks : List T
  /-- the deletions that the idle task has not seen to -/
  deletions : ℕ
  /-- how many times the scheduler is locked -/
  locks : ℕ
  missedTicks : ℕ
  missedYield : Bool
  /-- a switch has been asked for -/
  switchPending : Bool
  running : Bool

namespace Sched

variable {T : Type} [DecidableEq T] (a : Sched T)

/-! ### Tasks move -/

/-- A task is taken out of where it waits. -/
def take (t : T) : Sched T :=
  { a with
    ready := fun p => (a.ready p).filter (· ≠ t)
    delayed := a.delayed.filter (·.1 ≠ t)
    suspended := a.suspended.filter (· ≠ t)
    deleted := a.deleted.filter (· ≠ t) }

/-- A task no longer counts as one that became ready while the scheduler was locked. -/
def unpend (t : T) : Sched T := { a with pending := a.pending.filter (· ≠ t) }

/-- A task joins the queue of its priority. -/
def enqueue (t : T) : Sched T :=
  { a with ready := Function.update a.ready (a.priority t) (a.ready (a.priority t) ++ [t]) }

/-- A task becomes ready. -/
def wake (t : T) : Sched T := ((a.take t).unpend t).enqueue t

/-- A switch is asked for. -/
def yield : Sched T := { a with switchPending := true }

/-! ### Time -/

/-- The tasks whose time has come. -/
def due : List T := (a.delayed.filter (·.2 ≤ a.now)).map Prod.fst

/-- The due tasks become ready. -/
def wakeDue : Sched T := a.due.foldl wake a

/-- The time goes on by one tick. -/
def advance : Sched T := { a with now := a.now + 1 }.wakeDue

/-- A tick comes. -/
def tick : Sched T :=
  if a.locks = 0 then a.advance else { a with missedTicks := a.missedTicks + 1 }

/-! ### The switch -/

/-- The highest priority with a task that is ready. -/
def highest : Option Priority := [4, 3, 2, 1, 0].find? fun p => a.ready p ≠ []

/-- The first task of the highest priority runs, and is the last one of its queue then. -/
def switch : Sched T :=
  if a.locks ≠ 0 then { a with missedYield := true }
  else
    match a.highest with
    | none => a
    | some p =>
      match a.ready p with
      | [] => a
      | t :: ts => { a with current := t, ready := Function.update a.ready p (ts ++ [t]) }

/-! ### Locks -/

/-- The scheduler is locked once more. -/
def lock : Sched T := { a with locks := a.locks + 1 }

/-- The tasks that became ready meanwhile join their queues. -/
def wakePending : Sched T := a.pending.foldl wake a

/-- Whether one of them must run before the current task. -/
def urgent : Bool := a.pending.any fun t => a.priority a.current ≤ a.priority t

/-- A tick that was missed is counted. -/
def countMissed : Sched T := { a.advance with missedTicks := a.advance.missedTicks - 1 }

/-- The ticks that were missed are counted. -/
def catchUp : Sched T := Nat.iterate countMissed a.missedTicks a

/-- The scheduler makes up for what it has missed, and asks for a switch if the running task may
not be the right one any more. -/
def makeUp : Sched T × Bool :=
  if a.urgent || a.missedTicks ≠ 0 || a.missedYield then
    ({ a.wakePending.catchUp with missedYield := false }.yield, true)
  else (a.wakePending.catchUp, false)

/-- A lock is opened. -/
def unlock : Sched T × Bool :=
  if a.locks - 1 = 0 then { a with locks := 0 }.makeUp
  else ({ a with locks := a.locks - 1 }, false)

/-! ### What a task asks for -/

/-- The task waits for `n` ticks. -/
def delay (t : T) (n : ℕ) : Sched T :=
  { a.take t with delayed := Agenda.insert (a.take t).delayed (t, a.now + n) }

/-- The task waits until `n` ticks have gone by since a time that is `elapsed` ticks ago. -/
def delayUntil (t : T) (elapsed n : ℕ) : Sched T :=
  if elapsed < n then a.delay t (n - elapsed) else a

/-- A task is suspended, wherever it waits. -/
def suspend (t : T) : Sched T :=
  let a := (a.take t).unpend t
  { a with suspended := a.suspended ++ [t] }

/-- The task is suspended, and nothing has resumed it yet. -/
def IsSuspended (t : T) : Prop := t ∈ a.suspended ∧ t ∉ a.pending

instance (t : T) : Decidable (a.IsSuspended t) := inferInstanceAs (Decidable (_ ∧ _))

/-- A suspended task becomes ready, and runs if it is as important as the running one. -/
def resume (t : T) : Sched T :=
  if t ≠ a.current ∧ a.IsSuspended t then
    if a.priority t ≥ a.priority a.current then ((a.take t).enqueue t).yield
    else (a.take t).enqueue t
  else a

/-- An interrupt handler resumes a task. -/
def resumeFromISR (t : T) : Sched T :=
  if a.IsSuspended t then
    if a.locks = 0 then
      if a.priority t ≥ a.priority a.current then ((a.take t).enqueue t).yield
      else (a.take t).enqueue t
    else { a with pending := a.pending ++ [t] }
  else a

/-- The priorities that a task has when the application has set its priority to `p`. -/
def withPriority (t : T) (p : Priority) : Sched T :=
  { a with
    priority := if a.base t = a.priority t then Function.update a.priority t p else a.priority
    base := Function.update a.base t p }

/-- The task gets another priority, and another queue if it is ready. -/
def changePriority (t : T) (p : Priority) : Sched T :=
  if t ∈ a.ready (a.base t) then ((a.withPriority t p).take t).enqueue t else a.withPriority t p

/-- The application sets the priority of a task. -/
def setPriority (t : T) (p : Priority) : Sched T :=
  if a.base t ≠ p then
    if (if p > a.base t then t ≠ a.current else t = a.current) then (a.changePriority t p).yield
    else a.changePriority t p
  else a

/-- There is one more task, which waits nowhere yet. -/
def addTask (t : T) (p : Priority) : Sched T :=
  { a with
    priority := Function.update a.priority t p
    base := Function.update a.base t p
    tasks := t :: a.tasks }

/-- A new task.  Before the scheduler runs, the last of the most important ones is to run first. -/
def create (t : T) (n : ℕ) : Sched T :=
  let a := a.addTask t (Kernel.cappedPriority n)
  if !a.running && a.priority a.current ≤ n then { a with current := t }.enqueue t
    else a.enqueue t

/-- A task is deleted; the idle task removes it. -/
def delete (t : T) : Sched T :=
  let a := (a.take t).unpend t
  { a with deleted := a.deleted ++ [t], deletions := a.deletions + 1 }

/-- The idle task removes a deleted task. -/
def reap : Sched T :=
  match a.deleted with
  | [] => a
  | t :: _ =>
    { a.take t with tasks := a.tasks.filter (· ≠ t), deletions := a.deletions - 1 }

end Sched

/-! ### Where a task is -/

/-- Where a task waits. -/
inductive Place
  | ready (p : Priority)
  | delayed
  | suspended
  | deleted
  deriving DecidableEq

namespace Sched

variable {T : Type} {a : Sched T} {t u : T} {l : Place}

/-- The task `t` is at the place `l`. -/
def At (a : Sched T) (t : T) : Place → Prop
  | .ready p => t ∈ a.ready p
  | .delayed => ∃ w, (t, w) ∈ a.delayed
  | .suspended => t ∈ a.suspended
  | .deleted => t ∈ a.deleted

/-- The task waits somewhere. -/
def Holds (a : Sched T) (t : T) : Prop := ∃ l, a.At t l

/-- The queues after a task has joined one. -/
theorem enqueue_ready : (a.enqueue t).ready =
    Function.update a.ready (a.priority t) (a.ready (a.priority t) ++ [t]) := rfl

/-- Where the tasks are when one has joined its queue. -/
@[simp] theorem at_enqueue : (a.enqueue t).At u l ↔
    a.At u l ∨ u = t ∧ l = .ready (a.priority t) := by
  cases l with
  | ready p =>
    rcases eq_or_ne p (a.priority t) with rfl | hp
    · simp [At, enqueue]
    · simp [At, enqueue, hp]
  | delayed | suspended | deleted => simp [At, enqueue]

variable [DecidableEq T]

/-- Where they are when one was taken out. -/
@[simp] theorem at_take : (a.take t).At u l ↔ u ≠ t ∧ a.At u l := by
  cases l <;> simp [At, take, and_comm]

/-- Pending or not, a task waits where it does. -/
@[simp] theorem at_unpend : (a.unpend t).At u l ↔ a.At u l := by
  cases l <;> rfl

/-- **A task is woken**: it is ready then. -/
@[simp] theorem at_wake :
    (a.wake t).At u l ↔ u ≠ t ∧ a.At u l ∨ u = t ∧ l = .ready (a.priority t) := by
  rw [wake, at_enqueue, at_unpend, at_take]
  rfl

/-- Where the tasks are when one goes to sleep. -/
@[simp] theorem at_delay {n : ℕ} : (a.delay t n).At u l ↔
    u ≠ t ∧ a.At u l ∨ u = t ∧ l = .delayed := by
  cases l with
  | delayed =>
    simp only [At, delay, Agenda.mem_insert, take, List.mem_filter, decide_eq_true_eq,
      Prod.mk.injEq]
    grind
  | ready p => simp [At, delay, take, and_comm]
  | suspended | deleted => simp [At, delay, take, and_comm]

/-- Where they are when one is suspended. -/
@[simp] theorem at_suspend : (a.suspend t).At u l ↔
    u ≠ t ∧ a.At u l ∨ u = t ∧ l = .suspended := by
  cases l <;> simp [At, suspend, take, unpend, and_comm]

/-- Where they are when one is deleted. -/
@[simp] theorem at_delete : (a.delete t).At u l ↔
    u ≠ t ∧ a.At u l ∨ u = t ∧ l = .deleted := by
  cases l <;> simp [At, delete, take, unpend, and_comm]

/-- A task that was taken out waits nowhere. -/
@[simp] theorem not_holds_take : ¬ (a.take t).Holds t := by
  rintro ⟨l, hl⟩
  exact (at_take.1 hl).1 rfl

/-! ### Several tasks wake up -/

/-- To wake tasks leaves alone what it is not about. -/
theorem foldl_wake_frame {β : Type} (f : Sched T → β) (hf : ∀ a t, f (wake a t) = f a)
    (ts : List T) (a : Sched T) : f (ts.foldl wake a) = f a := by
  induction ts generalizing a with
  | nil => rfl
  | cons t ts ih => rw [List.foldl_cons, ih, hf]

/-- The tasks are ready then, and the others are where they were. -/
theorem at_foldl_wake {ts : List T} : (ts.foldl wake a).At u l ↔
    u ∉ ts ∧ a.At u l ∨ u ∈ ts ∧ l = .ready (a.priority u) := by
  induction ts generalizing a with
  | nil => simp
  | cons t ts ih =>
    rw [List.foldl_cons, ih, at_wake, List.mem_cons]
    have hpriority : (a.wake t).priority = a.priority := rfl
    rw [hpriority]
    grind

/-- Tasks that become ready sleep no longer. -/
theorem mem_foldl_wake_delayed {ts : List T} {x : T × ℕ} :
    x ∈ (ts.foldl wake a).delayed ↔ x ∈ a.delayed ∧ x.1 ∉ ts := by
  induction ts generalizing a with
  | nil => simp
  | cons t ts ih =>
    rw [List.foldl_cons, ih]
    have hwake : (a.wake t).delayed = a.delayed.filter (·.1 ≠ t) := rfl
    rw [hwake, List.mem_filter, decide_eq_true_eq, List.mem_cons]
    tauto

/-- What a task waits for is still to come. -/
def Timely (a : Sched T) : Prop := ∀ x ∈ a.delayed, a.now < x.2

/-- Once the due tasks are woken, none is late. -/
theorem timely_wakeDue (a : Sched T) : a.wakeDue.Timely := by
  intro x hx
  rw [wakeDue] at hx ⊢
  rw [foldl_wake_frame (·.now) (fun _ _ => rfl)]
  obtain ⟨hmem, hdue⟩ := mem_foldl_wake_delayed.1 hx
  by_contra hle
  exact hdue (List.mem_map_of_mem (List.mem_filter.2 ⟨hmem, decide_eq_true (Nat.not_lt.1 hle)⟩))

/-- What the others wait for is still to come. -/
theorem Timely.foldl_wake (h : a.Timely) (ts : List T) : (ts.foldl wake a).Timely := by
  intro x hx
  rw [foldl_wake_frame (·.now) (fun _ _ => rfl)]
  exact h x (mem_foldl_wake_delayed.1 hx).1

/-- After a tick nobody waits for a time that is past. -/
theorem timely_advance (a : Sched T) : a.advance.Timely := timely_wakeDue _

/-- What a tick leaves alone. -/
theorem advance_frame {β : Type} (f : Sched T → β) (hf : ∀ a t, f (wake a t) = f a)
    (hnow : ∀ (a : Sched T) n, f { a with now := n } = f a) (a : Sched T) :
    f a.advance = f a := by
  rw [advance, wakeDue, foldl_wake_frame f hf, hnow]

end Sched

end Rtos
end Especial
