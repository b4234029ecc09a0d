/-
# Ranges of the frequencies in a clock tree

A range for each clock says which input frequencies, output frequencies, multipliers and
divisors it can have, whatever the other clocks have at that moment.  The ranges are
`Closed` when multiplying and dividing stays inside them and below a maximum, and a clock
`Feeds` another when every output of the one is an input of the other.

An update assigns one frequency or setting at a time, and mixes old and new ones on its
way.  None of that matters here: each assignment keeps the clock in its range
(`SafeTrace.assign`), so every heap that an update passes through is in range, and so is every
heap that a user was shown (`SafeTrace.set`).

All conditions on the ranges are decidable.
-/

import Especial.Clktree.Trace
import Especial.Lib.Intervals
import Especial.Lib.Returns

namespace Especial
namespace Clktree

open Qemu Lib

/-- The values that one clock can have. -/
structure ClkRange where
  input : Intervals
  output : Intervals
  multiplier : List ℕ
  divisor : List ℕ
  deriving DecidableEq, Repr, Inhabited

/-- Every output that the clock computes is in range, and at most `max`. -/
structure ClkRange.Closed (r : ClkRange) (max : ℕ) : Prop where
  divisor : 0 ∉ r.divisor
  disabled : r.output.Mem 0
  scaled : (r.input.mulDiv r.multiplier r.divisor).Le r.output
  max : r.output.Le [(0, max)]

instance (r : ClkRange) (max : ℕ) : Decidable (r.Closed max) :=
  decidable_of_iff (0 ∉ r.divisor ∧ r.output.Mem 0 ∧
      (r.input.mulDiv r.multiplier r.divisor).Le r.output ∧ r.output.Le [(0, max)])
    ⟨fun ⟨h₁, h₂, h₃, h₄⟩ => ⟨h₁, h₂, h₃, h₄⟩,
      fun ⟨h₁, h₂, h₃, h₄⟩ => ⟨h₁, h₂, h₃, h₄⟩⟩

/-- The ranges of the clocks, by their number. -/
abbrev Ranges := List ClkRange

namespace Ranges

/-- The range of a clock. -/
def clk (R : Ranges) (i : ℕ) : ClkRange := R.getD i default

/-- Clock `i` takes every output of clock `j`. -/
def Feeds (R : Ranges) (j i : ℕ) : Prop :=
  (j < R.length ∧ i < R.length) ∧ (R.clk j).output.Le (R.clk i).input

instance (R : Ranges) (j i : ℕ) : Decidable (R.Feeds j i) := by
  unfold Feeds
  infer_instance

/-- A clock with its values in range, linked to clocks that fit. -/
structure Fits (R : Ranges) (i : ℕ) (c : Clk) : Prop where
  input : (R.clk i).input.Mem c.inputFreq.toNat
  output : (R.clk i).output.Mem c.outputFreq.toNat
  multiplier : c.multiplier.toNat ∈ (R.clk i).multiplier
  divisor : c.divisor.toNat ∈ (R.clk i).divisor
  children : ∀ o ∈ c.output, R.Feeds i o
  parents : ∀ p ∈ c.input, ∀ j ∈ p, R.Feeds j i

instance (R : Ranges) (i : ℕ) (c : Clk) : Decidable (R.Fits i c) :=
  decidable_of_iff ((R.clk i).input.Mem c.inputFreq.toNat ∧
      (R.clk i).output.Mem c.outputFreq.toNat ∧
      c.multiplier.toNat ∈ (R.clk i).multiplier ∧ c.divisor.toNat ∈ (R.clk i).divisor ∧
      (∀ o ∈ c.output, R.Feeds i o) ∧ ∀ p ∈ c.input, ∀ j ∈ p, R.Feeds j i)
    ⟨fun ⟨h₁, h₂, h₃, h₄, h₅, h₆⟩ => ⟨h₁, h₂, h₃, h₄, h₅, h₆⟩,
      fun ⟨h₁, h₂, h₃, h₄, h₅, h₆⟩ => ⟨h₁, h₂, h₃, h₄, h₅, h₆⟩⟩

/-- **All clocks are in range.** -/
def InRange (R : Ranges) (clks : List Clk) : Prop :=
  clks.length = R.length ∧ ∀ i < R.length, R.Fits i (clks.getD i default)

instance (R : Ranges) (clks : List Clk) : Decidable (R.InRange clks) := by
  unfold InRange
  infer_instance

/-- The clocks are in range, and so were they whenever a user was notified. -/
structure Safe (R : Ranges) (t : Tree) : Prop where
  inRange : R.InRange t.clks
  shown : ∀ u clks, .setIrq u clks ∈ t.log → R.InRange clks

/-- The heap of a trace is safe, and so is every heap before. -/
structure SafeTrace (R : Ranges) (tr : Trace) : Prop where
  tree : R.Safe tr.tree
  past : ∀ t ∈ tr.past, R.Safe t

/-- The new setting is in range. -/
def Allows (R : Ranges) : Setting → Prop
  | .scale i m d => i < R.length ∧ m.toNat ∈ (R.clk i).multiplier ∧
      d.toNat ∈ (R.clk i).divisor
  | .enabled i _ => i < R.length
  | .selectedInput i _ => i < R.length ∧ (R.clk i).input.Mem 0

end Ranges

/-- The exact frequency for the input frequency and the settings of a clock. -/
def Clk.exactFreq (c : Clk) : ℕ :=
  if c.enabled then c.inputFreq.toNat * c.multiplier.toNat / c.divisor.toNat else 0

section

variable {R : Ranges} {max i : ℕ} {c : Clk} {t : Tree} {tr tr' : Trace} {f : Clk → Clk}

/-! ### One computation -/

/-- The exact frequency of a clock in range is in range. -/
theorem ClkRange.Closed.mem_exactFreq (hc : (R.clk i).Closed max) (h : R.Fits i c) :
    (R.clk i).output.Mem c.exactFreq := by
  unfold Clk.exactFreq
  split_ifs
  · exact (h.input.mulDiv h.multiplier h.divisor).of_le hc.scaled
  · exact hc.disabled

/-- An output in range is at most `max`. -/
theorem ClkRange.Closed.le_max {r : ClkRange} {n : ℕ} (hc : r.Closed max) (hn : r.output.Mem n) :
    n ≤ max := by
  obtain ⟨p, hp, -, hle⟩ := hn.of_le hc.max
  rw [List.mem_singleton.1 hp] at hle
  exact hle

/-- The divisor of a clock in range is not `0`. -/
theorem ClkRange.Closed.divisor_ne_zero (hc : (R.clk i).Closed max) (h : R.Fits i c) :
    c.divisor ≠ 0#16 := by
  rintro hz
  have hmem := h.divisor
  rw [hz] at hmem
  exact hc.divisor hmem

/-- **No computation wraps.**  The new output frequency of a clock in range is the
exact one. -/
theorem ClkRange.Closed.newOutputFreq (hc : (R.clk i).Closed max) (hmax : max < 2 ^ 32)
    (h : R.Fits i c) :
    ∃ newFreq, c.newOutputFreq = .ok newFreq ∧ newFreq.toNat = c.exactFreq := by
  refine ⟨c.outFreq, Clk.newOutputFreq_eq (hc.divisor_ne_zero h), ?_⟩
  have hle := hc.le_max (hc.mem_exactFreq h)
  unfold Clk.exactFreq at hle ⊢
  unfold Clk.outFreq
  split_ifs at hle ⊢
  · exact BitVec.toNat_ofNat _ _ ▸ Nat.mod_eq_of_lt (by omega)
  · rfl

/-! ### One assignment -/

/-- A clock of a safe heap is in range. -/
theorem Ranges.Safe.fits (h : R.Safe t) (hi : i < R.length) : R.Fits i (t.clk i) := h.inRange.2 i hi

/-- **An assignment** that keeps its clock in range. -/
theorem Ranges.Safe.modify (h : R.Safe t) (hi : i < R.length) (hf : R.Fits i (f (t.clk i))) :
    R.Safe (t.modify i f) := by
  have hlt : i < t.size := by
    rw [Tree.size, h.inRange.1]
    exact hi
  refine ⟨⟨(Tree.size_modify (t := t)).trans h.inRange.1, fun j hj => ?_⟩, h.shown⟩
  change R.Fits j ((t.modify i f).clk j)
  rw [Tree.clk_modify hlt]
  split_ifs with hji
  · rw [hji]
    exact hf
  · exact h.fits hj

/-- A clock takes the frequency of whatever input it selects. -/
theorem Ranges.Safe.mem_selectedFreq (h : R.Safe t) (hi : i < R.length)
    (hzero : (R.clk i).input.Mem 0) : (R.clk i).input.Mem (t.selectedFreq i).toNat := by
  unfold Tree.selectedFreq
  cases hj : (t.clk i).getInputClk with
  | none => exact hzero
  | some j =>
    have hmem : some j ∈ (t.clk i).input := List.mem_of_getElem? (Option.join_eq_some_iff.1 hj)
    obtain ⟨⟨hlt, -⟩, hle⟩ := (h.fits hi).parents _ hmem j rfl
    exact (h.fits hlt).output.of_le hle

/-- An assignment that keeps a clock in range keeps the trace safe. -/
theorem Ranges.SafeTrace.assign (h : R.SafeTrace tr) (hi : i < R.length)
    (hf : R.Fits i (tr.tree.clk i) → R.Fits i (f (tr.tree.clk i))) :
    R.SafeTrace (tr.assign i f) := by
  have hsafe := h.tree.modify hi (hf (h.tree.fits hi))
  refine ⟨hsafe, fun t ht => ?_⟩
  rcases List.mem_cons.1 ht with rfl | ht
  · exact hsafe
  · exact h.past t ht

/-- An event keeps the heap safe, if a user that it notifies finds the heap as it is. -/
theorem Ranges.Safe.emit {e : Event} (h : R.Safe t)
    (he : ∀ u clks, e = .setIrq u clks → clks = t.clks) : R.Safe (t.emit e) := by
  refine ⟨h.inRange, fun u clks hmem => ?_⟩
  rcases List.mem_cons.1 hmem with hmem | hmem
  · rw [he u clks hmem.symm]
    exact h.inRange
  · exact h.shown u clks hmem

/-- The users are shown the heap as it is. -/
theorem Ranges.Safe.notifyUsers (h : R.Safe t) (i : ℕ) : R.Safe (t.notifyUsers i) := by
  unfold Tree.notifyUsers
  generalize (t.clk i).user = us
  induction us generalizing t with
  | nil => exact h
  | cons u us ih => exact ih (h.emit fun v clks he => (Event.setIrq.inj he).2.symm)

/-- A warning keeps the heap safe. -/
theorem Ranges.Safe.warnMax (h : R.Safe t) (i : ℕ) (newFreq : BitVec 32) :
    R.Safe (t.warnMax i newFreq) := by
  unfold Tree.warnMax
  split_ifs
  · exact h.emit fun _ _ he => nomatch he
  · exact h

/-- So does the loop over the users. -/
theorem Ranges.SafeTrace.tell (h : R.SafeTrace tr) (i : ℕ) (newFreq : BitVec 32) :
    R.SafeTrace (tr.tell i newFreq) :=
  ⟨(h.tree.warnMax i newFreq).notifyUsers i, h.past⟩

end

/-! ### One update -/

section

variable {R : Ranges} {max i : ℕ} {tr tr' : Trace} (hR : ∀ i < R.length, (R.clk i).Closed max)
  (hmax : max < 2 ^ 32)

/-- **A new input frequency in range** keeps the trace safe, if the recalculation does. -/
theorem Ranges.SafeTrace.setInputFreq {recalc : Trace → ℕ → Except Fault Trace}
    {freq : BitVec 32}
    (hrec : ∀ {tr tr' : Trace} {i : ℕ}, R.SafeTrace tr → i < R.length →
      recalc tr i = .ok tr' → R.SafeTrace tr') (htr : R.SafeTrace tr) (hi : i < R.length)
    (hfreq : (R.clk i).input.Mem freq.toNat) (h : Trace.setInputFreq recalc tr i freq = .ok tr') :
    R.SafeTrace tr' :=
  hrec (htr.assign hi fun hfit =>
    ⟨hfreq, hfit.output, hfit.multiplier, hfit.divisor, hfit.children, hfit.parents⟩) hi h

/-- The loop over the children: each of them takes the new frequency. -/
theorem Ranges.SafeTrace.foldlM_propagate {recalc : Trace → ℕ → Except Fault Trace}
    {newFreq : BitVec 32} {os : List ℕ}
    (hrec : ∀ {tr tr' : Trace} {i : ℕ}, R.SafeTrace tr → i < R.length →
      recalc tr i = .ok tr' →
      R.SafeTrace tr') (hfreq : (R.clk i).output.Mem newFreq.toNat)
      (hos : ∀ o ∈ os, R.Feeds i o)
    (htr : R.SafeTrace tr) (h : os.foldlM (Trace.propagate recalc i newFreq) tr = .ok tr') :
    R.SafeTrace tr' := by
  refine foldlM_invariant (fun tr tr' o ho htr h => ?_) htr h
  obtain ⟨⟨-, hlt⟩, hle⟩ := hos o ho
  unfold Trace.propagate at h
  split_ifs at h
  · exact htr.setInputFreq hrec hlt (hfreq.of_le hle) h
  · obtain rfl := Except.ok.inj h
    exact htr

include hR hmax

/-- **The recursive update** passes through safe heaps only. -/
theorem Ranges.SafeTrace.recalcOutputFreq {fuel : ℕ} (htr : R.SafeTrace tr) (hi : i < R.length)
    (h : Trace.recalcOutputFreq fuel tr i = .ok tr') : R.SafeTrace tr' := by
  induction fuel generalizing tr tr' i with
  | zero => exact absurd h throw_ne_ok
  | succ fuel ih =>
    have hfit := htr.tree.fits hi
    obtain ⟨newFreq, hnew, hexact⟩ := (hR i hi).newOutputFreq hmax hfit
    rw [Trace.recalcOutputFreq, hnew, ok_bind] at h
    have hout : (R.clk i).output.Mem newFreq.toNat := by
      rw [hexact]
      exact (hR i hi).mem_exactFreq hfit
    split_ifs at h
    · obtain rfl := pure_eq_ok.1 h
      exact htr
    · have hassign := (htr.assign (f := fun c => { c with outputFreq := newFreq }) hi fun hfit =>
        ⟨hfit.input, hout, hfit.multiplier, hfit.divisor, hfit.children,
          hfit.parents⟩).tell i newFreq
      exact hassign.foldlM_propagate ih hout (hassign.tree.fits hi).children h

/-- **A change of a setting** passes through safe heaps only. -/
theorem Ranges.SafeTrace.set {x : Setting} (htr : R.SafeTrace tr) (hx : R.Allows x)
    (h : tr.set x = .ok tr') : R.SafeTrace tr' := by
  cases x with
  | scale i m d =>
    obtain ⟨hi, hm, hd⟩ := hx
    have hmul := htr.assign (f := fun c => { c with multiplier := m }) hi fun hfit =>
      ⟨hfit.input, hfit.output, hm, hfit.divisor, hfit.children, hfit.parents⟩
    have hdiv := hmul.assign (f := fun c => { c with divisor := d }) hi fun hfit =>
      ⟨hfit.input, hfit.output, hfit.multiplier, hd, hfit.children, hfit.parents⟩
    exact hdiv.recalcOutputFreq hR hmax hi h
  | enabled i on =>
    have hon := htr.assign (f := fun c => { c with enabled := on }) hx fun hfit =>
      ⟨hfit.input, hfit.output, hfit.multiplier, hfit.divisor, hfit.children, hfit.parents⟩
    exact hon.recalcOutputFreq hR hmax hx h
  | selectedInput i sel =>
    obtain ⟨hi, hzero⟩ := hx
    obtain ⟨_, -, h⟩ := bind_eq_ok.1 h
    have hsel := htr.assign (f := fun c => { c with selectedInput := sel }) hi fun hfit =>
      ⟨hfit.input, hfit.output, hfit.multiplier, hfit.divisor, hfit.children, hfit.parents⟩
    refine hsel.setInputFreq (fun htr hi h => htr.recalcOutputFreq hR hmax hi h) hi ?_ h
    split_ifs
    · exact hsel.tree.mem_selectedFreq hi hzero
    · exact hzero

end

end Clktree
end Especial
