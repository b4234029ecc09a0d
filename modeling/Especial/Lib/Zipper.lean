/-
# Lists with a cursor

A list that is cut in two: the cursor stands on the last element of `before`, or in front
of the list.  Read from the cursor on, and round, the list is a queue (`Zipper.queue`): to
move the cursor on takes the first element and puts it at the end, and an element that is
put in behind the cursor, with the cursor then on it, is the last one of the queue.
-/

import Mathlib.Data.List.Nodup

namespace Especial
namespace Lib

/-- A list with a cursor. -/
structure Zipper (α : Type*) where
  before : List α
  after : List α

namespace Zipper

variable {α : Type*} {z z' : Zipper α} {x y : α}

/-- The elements in their order. -/
def toList (z : Zipper α) : List α := z.before ++ z.after

/-- The elements from the cursor on. -/
def queue (z : Zipper α) : List α := z.after ++ z.before

/-- The list without elements. -/
def empty : Zipper α := ⟨[], []⟩

/-- An element is put in behind the cursor, which moves to it. -/
def insertEnd (z : Zipper α) (x : α) : Zipper α := ⟨z.before ++ [x], z.after⟩

/-- The cursor moves to the next element. -/
def next? : Zipper α → Option (α × Zipper α)
  | ⟨p, y :: q⟩ => some (y, ⟨p ++ [y], q⟩)
  | ⟨y :: p, []⟩ => some (y, ⟨[y], p⟩)
  | ⟨[], []⟩ => none

/-- An element is taken out. -/
def remove [DecidableEq α] (z : Zipper α) (x : α) : Zipper α :=
  ⟨z.before.filter (· ≠ x), z.after.filter (· ≠ x)⟩

/-- The cursor only says where to begin. -/
theorem queue_perm (z : Zipper α) : z.queue.Perm z.toList := List.perm_append_comm

/-- The queue has the elements of the list. -/
@[simp] theorem mem_queue : x ∈ z.queue ↔ x ∈ z.toList := z.queue_perm.mem_iff

/-- What is put in behind the cursor is the last of the queue. -/
theorem queue_insertEnd (z : Zipper α) (x : α) : (z.insertEnd x).queue = z.queue ++ [x] := by
  simp [queue, insertEnd]

/-- **The cursor moves**: the first element of the queue becomes the last. -/
theorem queue_next (h : z.next? = some (y, z')) :
    ∃ ys, z.queue = y :: ys ∧ z'.queue = ys ++ [y] := by
  obtain ⟨p, q⟩ := z
  cases q with
  | cons x q =>
    obtain ⟨rfl, rfl⟩ := Prod.mk.inj (Option.some.inj h)
    exact ⟨q ++ p, rfl, by simp [queue]⟩
  | nil =>
    cases p with
    | nil => cases h
    | cons x p =>
      obtain ⟨rfl, rfl⟩ := Prod.mk.inj (Option.some.inj h)
      exact ⟨p, rfl, rfl⟩

/-- The order stays. -/
theorem toList_next (h : z.next? = some (y, z')) : z'.toList = z.toList := by
  obtain ⟨p, q⟩ := z
  cases q with
  | cons x q =>
    obtain ⟨rfl, rfl⟩ := Prod.mk.inj (Option.some.inj h)
    simp [toList]
  | nil =>
    cases p with
    | nil => cases h
    | cons x p =>
      obtain ⟨rfl, rfl⟩ := Prod.mk.inj (Option.some.inj h)
      simp [toList]

/-- In a list that is not empty the cursor can move. -/
theorem exists_next (h : z.toList ≠ []) : ∃ y z', z.next? = some (y, z') := by
  obtain ⟨p, q⟩ := z
  cases q with
  | cons x q => exact ⟨x, _, rfl⟩
  | nil =>
    cases p with
    | nil => exact absurd rfl h
    | cons x p => exact ⟨x, _, rfl⟩

section Remove

variable [DecidableEq α]

/-- The others stay in their order. -/
theorem queue_remove (z : Zipper α) (x : α) : (z.remove x).queue = z.queue.filter (· ≠ x) :=
  (List.filter_append ..).symm

/-- What is not there is not taken out. -/
theorem remove_of_notMem (h : x ∉ z.toList) : z.remove x = z := by
  obtain ⟨p, q⟩ := z
  have hne : ∀ y ∈ p ++ q, y ≠ x := fun y hy hyx => h (hyx ▸ hy)
  rw [remove, List.filter_eq_self.2, List.filter_eq_self.2]
  · exact fun y hy => decide_eq_true (hne y (List.mem_append_right p hy))
  · exact fun y hy => decide_eq_true (hne y (List.mem_append_left q hy))

/-- An element that occurs once is left out at its place. -/
theorem filter_ne_of_nodup {p q : List α} (h : (p ++ x :: q).Nodup) :
    (p ++ x :: q).filter (· ≠ x) = p ++ q := by
  have hx : x ∉ p ++ q := (List.nodup_middle.1 h).notMem
  have hne : ∀ y ∈ p ++ q, y ≠ x := fun y hy hyx => hx (hyx ▸ hy)
  rw [List.filter_append, List.filter_cons_of_neg (by simp), ← List.filter_append,
    List.filter_eq_self.2 fun y hy => decide_eq_true (hne y hy)]

/-- An element stands on one side of the cursor. -/
theorem remove_cases (h : z.toList.Nodup) (hx : x ∈ z.toList) :
    (∃ p q, z.before = p ++ x :: q ∧ z.remove x = ⟨p ++ q, z.after⟩) ∨
      ∃ p q, z.after = p ++ x :: q ∧ x ∉ z.before ∧
      z.remove x = ⟨z.before, p ++ q⟩ := by
  obtain ⟨b, a⟩ := z
  obtain ⟨hb, ha, hdisj⟩ := List.nodup_append.1 h
  have hself : ∀ {l : List α}, x ∉ l → l.filter (· ≠ x) = l := fun hxl =>
    List.filter_eq_self.2 fun y hy => decide_eq_true fun hyx => hxl (hyx ▸ hy)
  rcases List.mem_append.1 hx with hx | hx
  · obtain ⟨p, q, rfl⟩ := List.append_of_mem hx
    exact Or.inl ⟨p, q, rfl, by
      rw [remove, filter_ne_of_nodup hb, hself fun hxa => hdisj x hx x hxa rfl]⟩
  · obtain ⟨p, q, rfl⟩ := List.append_of_mem hx
    have hxb : x ∉ b := fun hxb => hdisj x hxb x hx rfl
    exact Or.inr ⟨p, q, rfl, hxb, by rw [remove, filter_ne_of_nodup ha, hself hxb]⟩

end Remove

end Zipper

end Lib
end Especial
