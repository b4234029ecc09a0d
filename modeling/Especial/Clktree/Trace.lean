/-
# The heaps that an update of the clock tree passes through

One call of `clktree_set_scale`, `clktree_set_enabled` or `clktree_set_selected_input`
is a sequence of assignments: to the settings of the clock, and then one to the output
or input frequency of each clock that the recursion gets to.  A handler that is notified
on the way, and every multiplication and division on the way, finds one of the heaps in
between.

A `Trace` is the heap with all those before it, one for each assignment of the source.
The functions below are those of `Especial.Clktree.Basic` on traces, and they compute the
same heap (`tree_set`).
-/

import Especial.Clktree.Recalc

namespace Especial
namespace Clktree

open Qemu

/-- A heap, and the heaps after each assignment so far with the latest first. -/
structure Trace where
  tree : Tree
  past : List Tree := []

/-- A call that changes a setting of a clock. -/
inductive Setting
  | scale (clk : ℕ) (multiplier divisor : BitVec 16)
  | enabled (clk : ℕ) (enabled : Bool)
  | selectedInput (clk : ℕ) (selectedInput : ℤ)
  deriving DecidableEq, Repr

/-- The call in the public interface. -/
def Setting.op : Setting → Op
  | .scale i m d => .setScale i m d
  | .enabled i on => .setEnabled i on
  | .selectedInput i sel => .setSelectedInput i sel

namespace Trace

/-- Assigns to a field of one clock. -/
def assign (tr : Trace) (i : ℕ) (f : Clk → Clk) : Trace :=
  ⟨tr.tree.modify i f, tr.tree.modify i f :: tr.past⟩

/-- The warning and the loop over `clk->user`, which assign to no clock. -/
def tell (tr : Trace) (i : ℕ) (newFreq : BitVec 32) : Trace :=
  { tr with tree := (tr.tree.warnMax i newFreq).notifyUsers i }

/-- `clktree_set_input_freq`. -/
def setInputFreq (recalc : Trace → ℕ → Except Fault Trace) (tr : Trace) (i : ℕ)
    (inputFreq : BitVec 32) : Except Fault Trace :=
  recalc (tr.assign i fun c => { c with inputFreq := inputFreq }) i

/-- The body of the loop over `clk->output`. -/
def propagate (recalc : Trace → ℕ → Except Fault Trace) (i : ℕ) (newFreq : BitVec 32)
    (tr : Trace) (next : ℕ) : Except Fault Trace :=
  if (tr.tree.clk next).getInputClk = some i then setInputFreq recalc tr next newFreq else .ok tr

/-- `clktree_recalc_output_freq`, to a depth of at most `fuel` calls. -/
def recalcOutputFreq : ℕ → Trace → ℕ → Except Fault Trace
  | 0, _, _ => .error .diverges
  | fuel + 1, tr, i => do
      let newFreq ← (tr.tree.clk i).newOutputFreq
      if newFreq = (tr.tree.clk i).outputFreq then return tr
      else
        let tr := (tr.assign i fun c => { c with outputFreq := newFreq }).tell i newFreq
        (tr.tree.clk i).output.foldlM (propagate (recalcOutputFreq fuel) i newFreq) tr

/-- `clktree_recalc_output_freq`. -/
def recalc (tr : Trace) (i : ℕ) : Except Fault Trace := recalcOutputFreq tr.tree.size tr i

/-- A change of a setting.  `clktree_set_scale` assigns the multiplier first. -/
def set (tr : Trace) : Setting → Except Fault Trace
  | .scale i m d =>
    ((tr.assign i fun c => { c with multiplier := m }).assign i fun c =>
      { c with divisor := d }).recalc i
  | .enabled i on => (tr.assign i fun c => { c with enabled := on }).recalc i
  | .selectedInput i sel => do
    assert (0 ≤ sel + 1 ∧ (sel + 1).toNat < (tr.tree.clk i).input.length)
      "(selected_input + 1) < clk->input_count"
    let tr := tr.assign i fun c => { c with selectedInput := sel }
    setInputFreq recalc tr i (if sel > -1 then tr.tree.selectedFreq i else 0#32)

/-! ### The same heap -/

variable {recalc' : Trace → ℕ → Except Fault Trace}
    {recalc₀ : Tree → ℕ → Except Fault Tree}

/-- The heap of a loop over traces is the loop over heaps. -/
theorem tree_foldlM {ι : Type} {step' : Trace → ι → Except Fault Trace}
    {step : Tree → ι → Except Fault Tree}
    (hstep : ∀ tr x, tree <$> step' tr x = step tr.tree x)
    (xs : List ι) (tr : Trace) : tree <$> xs.foldlM step' tr = xs.foldlM step tr.tree := by
  induction xs generalizing tr with
  | nil => rfl
  | cons x xs ih =>
    rw [List.foldlM_cons, List.foldlM_cons, ← hstep, map_bind, bind_map_left]
    simp only [ih]

/-- The heap of the body of the loop over the children. -/
theorem tree_propagate (h : ∀ tr i, tree <$> recalc' tr i = recalc₀ tr.tree i) (i : ℕ)
    (newFreq : BitVec 32) (tr : Trace) (next : ℕ) :
    tree <$> propagate recalc' i newFreq tr next =
      Clktree.propagate recalc₀ i newFreq tr.tree next := by
  unfold propagate Clktree.propagate
  split_ifs
  · exact h _ _
  · rfl

/-- **The traced update computes the heap of the update.** -/
theorem tree_recalcOutputFreq (fuel : ℕ) (tr : Trace) (i : ℕ) :
    tree <$> recalcOutputFreq fuel tr i = Clktree.recalcOutputFreq fuel tr.tree i := by
  induction fuel generalizing tr i with
  | zero => rfl
  | succ fuel ih =>
    rw [recalcOutputFreq, Clktree.recalcOutputFreq, map_bind]
    refine bind_congr fun newFreq => ?_
    split_ifs
    · rfl
    · exact tree_foldlM (tree_propagate ih i newFreq) _ _

/-- **A traced call computes the heap of the call.** -/
theorem tree_set (tr : Trace) (x : Setting) : tree <$> tr.set x = tr.tree.exec x.op := by
  cases x with
  | scale i m d =>
    have hmodify : ((tr.tree.modify i fun c => { c with multiplier := m }).modify i fun c =>
        { c with divisor := d }) =
        tr.tree.modify i fun c => { c with multiplier := m, divisor := d } := by
      unfold Tree.modify
      rw [List.modify_modify_eq]
      rfl
    rw [set, recalc, tree_recalcOutputFreq]
    dsimp only [assign]
    rw [hmodify]
    rfl
  | enabled i on => exact tree_recalcOutputFreq _ _ _
  | selectedInput i sel =>
    rw [set, map_bind]
    refine bind_congr fun _ => ?_
    exact tree_recalcOutputFreq _ _ _

end Trace

/-- **A sequence of calls that returns has a trace** that ends in its heap. -/
theorem exists_trace {xs : List Setting} {tr : Trace} {t' : Tree}
    (h : xs.foldlM (fun t x => t.exec x.op) tr.tree = .ok t') :
    ∃ tr', xs.foldlM Trace.set tr = .ok tr' ∧ tr'.tree = t' := by
  rw [← Trace.tree_foldlM Trace.tree_set] at h
  cases hxs : xs.foldlM Trace.set tr with
  | error e =>
    rw [hxs] at h
    exact absurd h (by simp)
  | ok tr' =>
    rw [hxs] at h
    exact ⟨tr', rfl, Except.ok.inj h⟩

end Clktree
end Especial
