/-
# The simple queue of `include/qemu/queue.h`

A `QSIMPLEQ` is a singly linked list with a pointer to the place where the next
element has to be stored: `sqh_last` is the address of a pointer, either the
`sqh_first` of the head or the `sqe_next` of the last element.  `Holds q l` says
that the queue `q` consists of the elements at the addresses `l`; the macros act on
it as a list is appended to at its end and shortened at its front.
-/

import Mathlib.Data.Nat.Notation
import Mathlib.Logic.Function.Basic

namespace Especial
namespace Qemu

/-- The address of a pointer of the queue. -/
inductive Link
  /-- `&(head)->sqh_first` -/
  | first
  /-- `&(elm)->field.sqe_next` -/
  | next (elm : ℕ)
  deriving DecidableEq, Repr

/-- `QSIMPLEQ_HEAD`, with the `sqe_next` of every element in memory. -/
structure Simpleq where
  sqhFirst : Option ℕ
  sqhLast : Link
  sqeNext : ℕ → Option ℕ

namespace Simpleq

/-- A store through a pointer of the queue. -/
def store (q : Simpleq) (v : Option ℕ) : Link → Simpleq
  | .first => { q with sqhFirst := v }
  | .next elm => { q with sqeNext := Function.update q.sqeNext elm v }

/-- `QSIMPLEQ_INIT`. -/
def init (q : Simpleq) : Simpleq := { q with sqhFirst := none, sqhLast := .first }

/-- `QSIMPLEQ_INSERT_TAIL`. -/
def insertTail (q : Simpleq) (elm : ℕ) : Simpleq :=
  let q := q.store none (.next elm)
  let q := q.store (some elm) q.sqhLast
  { q with sqhLast := .next elm }

/-- `QSIMPLEQ_REMOVE_HEAD`; on an empty queue it reads through a null pointer. -/
def removeHead (q : Simpleq) : Option Simpleq :=
  q.sqhFirst.map fun first =>
    let q := { q with sqhFirst := q.sqeNext first }
    if q.sqhFirst = none then { q with sqhLast := .first } else q

/-! ### The elements of a queue -/

/-- Following `next` from `p` to the null pointer, one comes by the elements `l`. -/
def Path (next : ℕ → Option ℕ) : Option ℕ → List ℕ → Prop
  | p, [] => p = none
  | p, elm :: l => p = some elm ∧ Path next (next elm) l

/-- The place after the elements `l`. -/
def lastLink (l : List ℕ) : Link := l.getLast?.elim .first .next

/-- The queue consists of the elements `l`. -/
structure Holds (q : Simpleq) (l : List ℕ) : Prop where
  path : Path q.sqeNext q.sqhFirst l
  last : q.sqhLast = lastLink l
  nodup : l.Nodup

variable {q : Simpleq} {l : List ℕ} {elm : ℕ}

/-- A pointer that no element of the path owns can be changed. -/
theorem Path.update {next : ℕ → Option ℕ} {p : Option ℕ} (h : Path next p l)
    (helm : elm ∉ l) (v : Option ℕ) : Path (Function.update next elm v) p l := by
  induction l generalizing p with
  | nil => exact h
  | cons a l ih =>
    obtain ⟨hp, hrest⟩ := h
    have hne : a ≠ elm := fun h => helm (by simp [h])
    refine ⟨hp, ?_⟩
    rw [Function.update_of_ne hne]
    exact ih hrest fun h => helm (List.mem_cons_of_mem a h)

/-- The last pointer of a path is the null pointer, and the path goes on through
what is stored there. -/
theorem Path.store_last {next : ℕ → Option ℕ} {a : ℕ} (h : Path next (some a) (a :: l))
    (hnodup : (a :: l).Nodup) (helm : next elm = none) (hnew : elm ∉ a :: l) :
    Path (Function.update next ((a :: l).getLast (List.cons_ne_nil a l)) (some elm)) (some a)
      (a :: l ++ [elm]) := by
  induction l generalizing a with
  | nil =>
    refine ⟨rfl, ?_⟩
    have hne : elm ≠ a := fun h => hnew (by simp [h])
    simp [Path, Function.update_of_ne hne, helm]
  | cons b l ih =>
    obtain ⟨-, hb⟩ := h
    obtain ⟨hmem, hrest⟩ := List.nodup_cons.1 hnodup
    have hbs : next a = some b := hb.1
    rw [hbs] at hb
    have hlast : (b :: l).getLast (List.cons_ne_nil b l) ≠ a := fun h =>
      hmem (h ▸ List.getLast_mem (List.cons_ne_nil b l))
    refine ⟨rfl, ?_⟩
    rw [List.getLast_cons (List.cons_ne_nil b l), Function.update_of_ne hlast.symm, hbs]
    exact ih hb hrest fun h => hnew (List.mem_cons_of_mem a h)

/-- `QSIMPLEQ_INIT` gives an empty queue. -/
theorem init_holds (q : Simpleq) : q.init.Holds [] := ⟨rfl, rfl, List.nodup_nil⟩

/-- **Insertion** puts a new element at the end. -/
theorem Holds.insertTail (h : q.Holds l) (helm : elm ∉ l) :
    (q.insertTail elm).Holds (l ++ [elm]) := by
  obtain ⟨hpath, hlast, hnodup⟩ := h
  have hpath' := hpath.update helm none
  refine ⟨?_, by simp [Simpleq.insertTail, lastLink], ?_⟩
  · cases l with
    | nil =>
      simp [Simpleq.insertTail, store, hlast, lastLink, Path]
    | cons a l =>
      have hfirst : q.sqhFirst = some a := hpath.1
      rw [hfirst] at hpath'
      have hlink : q.sqhLast = .next ((a :: l).getLast (List.cons_ne_nil a l)) := by
        rw [hlast, lastLink, List.getLast?_eq_some_getLast (List.cons_ne_nil a l)]
        rfl
      have hnew := hpath'.store_last hnodup (by simp) helm
      simpa [Simpleq.insertTail, store, hlink, hfirst] using hnew
  · exact List.nodup_append.2 ⟨hnodup, by simp, by
      intro a ha b hb hab
      rw [List.mem_singleton.1 hb] at hab
      exact helm (hab ▸ ha)⟩

/-- **Removal** takes the first element out. -/
theorem Holds.removeHead (h : q.Holds (elm :: l)) :
    ∃ q', q.removeHead = some q' ∧ q'.Holds l := by
  obtain ⟨⟨hfirst, hpath⟩, hlast, hnodup⟩ := h
  refine ⟨_, by rw [Simpleq.removeHead, hfirst]; rfl, ?_⟩
  dsimp only
  cases l with
  | nil =>
    have hnone : q.sqeNext elm = none := hpath
    rw [if_pos hnone]
    exact ⟨hnone, rfl, List.nodup_nil⟩
  | cons a l =>
    have hsome : q.sqeNext elm = some a := hpath.1
    rw [if_neg (by simp [hsome])]
    exact ⟨hpath, by rw [hlast]; simp [lastLink], (List.nodup_cons.1 hnodup).2⟩

end Simpleq
end Qemu
end Especial
