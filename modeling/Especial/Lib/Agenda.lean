/-
# Agendas

A list of entries with a time each, in the order of the times; of two entries with one time
the one that came first stands first (`Agenda.insert`).

A property that holds of an entry only if it holds of all those before it cuts such a list in
two: to stop at the first entry without it is to take out those that have it
(`takeWhile_eq_filter`).
-/

import Mathlib.Data.List.Basic
import Mathlib.Data.List.TakeWhile
import Mathlib.Data.Nat.Basic
import Mathlib.Tactic.Tauto

namespace Especial
namespace Lib

section Initial

variable {α : Type*} {p : α → Bool} {xs : List α}

/-- A property that only holds of a beginning of the list selects this beginning. -/
theorem takeWhile_eq_filter (h : xs.Pairwise fun a b => p b → p a) :
    xs.takeWhile p = xs.filter p := by
  induction h with
  | nil => rfl
  | @cons a xs ha _ ih =>
    by_cases hpa : p a
    · rw [List.takeWhile_cons_of_pos hpa, List.filter_cons_of_pos hpa, ih]
    · rw [List.takeWhile_cons_of_neg hpa, List.filter_cons_of_neg hpa, eq_comm,
        List.filter_eq_nil_iff]
      exact fun b hb hpb => hpa (ha b hb hpb)

/-- What is left then is the rest. -/
theorem dropWhile_eq_filter (h : xs.Pairwise fun a b => p b → p a) :
    xs.dropWhile p = xs.filter fun a => !p a := by
  induction h with
  | nil => rfl
  | @cons a xs ha _ ih =>
    by_cases hpa : p a
    · rw [List.dropWhile_cons_of_pos hpa, List.filter_cons_of_neg (by simpa using hpa), ih]
    · rw [List.dropWhile_cons_of_neg hpa, eq_comm, List.filter_eq_self]
      intro b hb
      rcases List.mem_cons.1 hb with rfl | hb
      · simpa using hpa
      · simpa using fun hpb => hpa (ha b hb hpb)

/-- The two together are the list, in its order. -/
theorem filter_append_filter_not (h : xs.Pairwise fun a b => p b → p a) :
    xs.filter p ++ xs.filter (fun a => !p a) = xs := by
  rw [← takeWhile_eq_filter h, ← dropWhile_eq_filter h, List.takeWhile_append_dropWhile]

end Initial

namespace Agenda

variable {α : Type*} {xs : List (α × ℕ)} {x y : α × ℕ}

/-- The entries are in the order of their times. -/
def Ordered (xs : List (α × ℕ)) : Prop := xs.Pairwise (·.2 ≤ ·.2)

/-- An entry goes behind those that are not later. -/
def insert (xs : List (α × ℕ)) (x : α × ℕ) : List (α × ℕ) :=
  xs.filter (·.2 ≤ x.2) ++ x :: xs.filter (x.2 < ·.2)

/-- What is in the agenda after an insertion. -/
@[simp] theorem mem_insert : y ∈ insert xs x ↔ y = x ∨ y ∈ xs := by
  have hsplit := Nat.lt_or_ge x.2 y.2
  simp only [insert, List.mem_append, List.mem_cons, List.mem_filter, decide_eq_true_eq]
  tauto

/-- Entries left out leave the order. -/
theorem Ordered.filter (h : Ordered xs) (p : α × ℕ → Bool) : Ordered (xs.filter p) :=
  List.Pairwise.filter p h

/-- **An insertion keeps the order.** -/
theorem Ordered.insert (h : Ordered xs) (x : α × ℕ) : Ordered (insert xs x) := by
  refine List.pairwise_append.2 ⟨h.filter _, List.pairwise_cons.2 ⟨?_, h.filter _⟩, ?_⟩
  · intro y hy
    exact (of_decide_eq_true (List.mem_filter.1 hy).2).le
  · intro y hy z hz
    have hy' : y.2 ≤ x.2 := of_decide_eq_true (List.mem_filter.1 hy).2
    rcases List.mem_cons.1 hz with rfl | hz
    · exact hy'
    · exact hy'.trans (of_decide_eq_true (List.mem_filter.1 hz).2).le

/-- An ordered list is cut in two by a time. -/
theorem Ordered.filter_lt_append (h : Ordered xs) (w : ℕ) :
    xs.filter (·.2 < w) ++ xs.filter (w ≤ ·.2) = xs := by
  have hdown : xs.Pairwise fun x y => decide (y.2 < w) → decide (x.2 < w) :=
    h.imp fun {x y} hxy hy => decide_eq_true (hxy.trans_lt (of_decide_eq_true hy))
  refine Eq.trans (congrArg _ (List.filter_congr fun x _ => ?_)) (filter_append_filter_not hdown)
  rw [← decide_not, decide_eq_decide, Nat.not_lt]

/-- The entries up to a time come before the later ones. -/
theorem Ordered.filter_le_append (h : Ordered xs) (w : ℕ) :
    xs.filter (·.2 ≤ w) ++ xs.filter (w < ·.2) = xs := by
  simpa only [Nat.lt_succ_iff, Nat.succ_le_iff] using h.filter_lt_append (w + 1)

/-- Of the entries with a property the new one is one. -/
theorem filter_insert_of_pos {p : α × ℕ → Bool} (hp : p x) :
    (insert xs x).filter p = insert (xs.filter p) x := by
  rw [insert, insert, List.filter_append, List.filter_cons_of_pos hp, List.filter_comm p,
    List.filter_comm p]

/-- An entry that is left out might as well not have been inserted. -/
theorem filter_insert_of_neg {p : α × ℕ → Bool} (h : Ordered xs) (hp : ¬ p x) :
    (insert xs x).filter p = xs.filter p := by
  rw [insert, List.filter_append, List.filter_cons_of_neg hp, ← List.filter_append,
    h.filter_le_append]

end Agenda

end Lib
end Especial
