/-
# Networks of values with one selected predecessor

Nodes are numbered in the order they were made.  A node takes its value from at
most one predecessor, made before it, or from none.  Such a network has one
evaluation (`Network.eval`), and an assignment that is only *locally* right, each
node agreeing with the value cached at its predecessor, is that evaluation
(`Network.eq_eval`).  A cache kept up to date node by node can therefore be
compared with a computation from scratch by looking at single edges.
-/

import Mathlib.Tactic.Common

namespace Especial
namespace Lib

universe u

/-- A network over values in `α`: the selected predecessor of each node, and the
value of the node given the value of that predecessor. -/
structure Network (α : Type u) where
  pred : ℕ → Option ℕ
  node : ℕ → Option α → α

namespace Network

variable {α : Type u} (N : Network α)

/-- Predecessors were made before the nodes that select them. -/
def Ordered : Prop := ∀ i j, N.pred i = some j → j < i

/-- The value of node `i`, computed from scratch. -/
def eval (i : ℕ) : α :=
  N.node i (match N.pred i with
    | some j => if j < i then some (eval j) else none
    | none => none)
termination_by i

variable {N}

/-- In an ordered network the evaluation satisfies the equation of every node. -/
theorem eval_eq (hN : N.Ordered) (i : ℕ) : N.eval i = N.node i ((N.pred i).map N.eval) := by
  rw [eval]
  cases h : N.pred i with
  | none => rfl
  | some j => simp [hN i j h]

/-- **Local agreement is global agreement.**  If every node below `n` has the
value its own equation gives it, then they all have their evaluation. -/
theorem eq_eval (hN : N.Ordered) {n : ℕ} {v : ℕ → α}
    (hv : ∀ i < n, v i = N.node i ((N.pred i).map v)) : ∀ i < n, v i = N.eval i := by
  intro i
  induction i using Nat.strongRecOn with
  | ind i ih =>
    intro hi
    rw [hv i hi, eval_eq hN]
    cases h : N.pred i with
    | none => rfl
    | some j =>
        have hj : j < i := hN i j h
        simp [ih j hj (by omega)]

end Network
end Lib
end Especial
