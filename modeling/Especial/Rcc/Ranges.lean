/-
# The frequencies of the P103 board

Both high-speed oscillators run at 8 MHz and the PLL multiplies 4 or 8 MHz by at most
sixteen, so no clock exceeds 128 MHz.  The AHB prescaler divides by one or by an even
number up to sixteen, those of the APB by one or an even number up to eight; so a clock
that runs is not arbitrarily slow either.  Between the slowest frequency of the
peripherals, 62500 Hz, and the next one there is a gap.

`boardRanges` has these ranges for all clocks, and they are closed.  The device starts
inside them, and every write stays inside them at all times (`run_trace`).
-/

import Especial.Rcc.Settings
import Especial.Clktree.Ranges

namespace Especial
namespace Rcc

open Qemu Stm32 Clktree Lib

/-- The greatest frequency of any clock. -/
def MAX_FREQ : ℕ := 128000000

/-! ### The ranges -/

/-- An oscillator. -/
def oscRange (f : ℕ) : ClkRange := ⟨[(f, f)], [(0, 0), (f, f)], [1], [1]⟩

/-- The sources of the PLL. -/
def pllSources : Intervals := [(0, 0), (4000000, 4000000), (8000000, 8000000)]

/-- The frequencies of the system clock. -/
def sysFreqs : Intervals := [(0, 0), (8000000, 8000000), (12000000, MAX_FREQ)]

/-- The frequencies of the AHB. -/
def ahbFreqs : Intervals := [(0, 0), (500000, 500000), (571428, MAX_FREQ)]

/-- The frequencies of the two APB and of the peripherals. -/
def apbFreqs : Intervals := [(0, 0), (62500, 62500), (71428, MAX_FREQ)]

/-- A clock that is half an oscillator. -/
def halfRange : ClkRange :=
  ⟨[(0, 0), (8000000, 8000000)], [(0, 0), (4000000, 4000000)], [1], [2]⟩

/-- `PLLXTPRE`. -/
def pllxtpreRange : ClkRange := ⟨pllSources, pllSources, [1], [1]⟩

/-- `PLLCLK`; its multiplier is `0` until the first reset. -/
def pllRange : ClkRange :=
  ⟨pllSources, sysFreqs, [0, 2, 3, 4, 5, 6, 7, 8, 9, 10, 11, 12, 13, 14, 15, 16], [1]⟩

/-- `SYSCLK`. -/
def sysRange : ClkRange := ⟨sysFreqs, sysFreqs, [1], [1]⟩

/-- `HCLK`. -/
def hclkRange : ClkRange := ⟨sysFreqs, ahbFreqs, [0, 1], [1, 2, 4, 6, 8, 10, 12, 14, 16]⟩

/-- `PCLK1` and `PCLK2`. -/
def pclkRange : ClkRange := ⟨ahbFreqs, apbFreqs, [0, 1], [1, 2, 4, 6, 8]⟩

/-- The clock of a peripheral. -/
def periphRange : ClkRange := ⟨apbFreqs, apbFreqs, [1], [1]⟩

/-- The ranges of all clocks. -/
def boardRanges : Ranges :=
  [oscRange 8000000, oscRange 40000, oscRange 8000000, oscRange 32768, halfRange, halfRange,
    pllxtpreRange, pllRange, sysRange, hclkRange, pclkRange, pclkRange] ++
  List.replicate 13 periphRange

/-- **The ranges of the board are closed** under what the clocks compute. -/
theorem boardRanges_closed : ∀ i < boardRanges.length, (boardRanges.clk i).Closed MAX_FREQ := by
  decide +kernel

/-- The greatest frequency fits into a word. -/
theorem maxFreq_lt : MAX_FREQ < 2 ^ 32 := by decide

/-- The clocks start in range, and nobody has been notified. -/
theorem initClk_inRange : (initClk.map fun t => (decide (boardRanges.InRange t.clks), t.log)) =
    .ok (true, []) := by decide +kernel

variable {s s' : Stm32Rcc} {v : BitVec 32}

/-- A new device is in range. -/
theorem init_safe (h : init = .ok s) : boardRanges.Safe s.tree := by
  obtain ⟨t, ht, h⟩ := bind_eq_ok.1 h
  obtain rfl := pure_eq_ok.1 h
  have hinit := initClk_inRange
  rw [ht] at hinit
  obtain ⟨hrange, hlog⟩ := Prod.mk.inj (Except.ok.inj hinit)
  refine ⟨of_decide_eq_true hrange, fun u clks hmem => ?_⟩
  dsimp only at hmem
  rw [hlog] at hmem
  exact absurd hmem (List.not_mem_nil)

/-! ### The settings -/

/-- The multipliers of the PLL are in range. -/
theorem pllMultiplier_mem {x : BitVec 32} (hx : x.toNat ≤ 15) :
    ((pllMultiplier x).setWidth 16).toNat ∈ pllRange.multiplier :=
  of_forall_le (P := fun x => ((pllMultiplier x).setWidth 16).toNat ∈ pllRange.multiplier)
    (by decide) hx

/-- The divisors of the AHB are in range. -/
theorem ahbDivisor_mem {x : BitVec 32} (hx : x.toNat ≤ 15) :
    ((ahbDivisor x).setWidth 16).toNat ∈ hclkRange.divisor :=
  of_forall_le (P := fun x => ((ahbDivisor x).setWidth 16).toNat ∈ hclkRange.divisor)
    (by decide) hx

/-- The divisors of the APB are in range. -/
theorem apbDivisor_mem {x : BitVec 32} (hx : x.toNat ≤ 7) :
    ((apbDivisor x).setWidth 16).toNat ∈ pclkRange.divisor :=
  of_forall_le (P := fun x => ((apbDivisor x).setWidth 16).toNat ∈ pclkRange.divisor)
    (by decide) hx

/-- **The settings of `CFGR` are in range**, whatever its value. -/
theorem allows_cfgrSettings (v : BitVec 32) : ∀ x ∈ cfgrSettings v, boardRanges.Allows x := by
  have hpll := pllMultiplier_mem (toNat_extract32_le v 18 4)
  have hp₂ := apbDivisor_mem (toNat_and_shift_le v 0x3c00#32 11)
  have hp₁ := apbDivisor_mem (toNat_and_shift_le v 0x700#32 8)
  have hahb := ahbDivisor_mem (toNat_and_shift_le v 0xf0#32 4)
  simp only [cfgrSettings, List.forall_mem_cons, List.not_mem_nil, false_imp_iff, implies_true,
    and_true]
  exact ⟨⟨by decide, hpll, by decide⟩, ⟨by decide, by decide⟩, ⟨by decide, by decide⟩,
    ⟨by decide, by decide, hp₂⟩, ⟨by decide, by decide, hp₁⟩,
    ⟨by decide, by decide, hahb⟩, by decide, by decide⟩

/-- Switching a clock leaves the ranges alone. -/
theorem allows_enabled {i : ℕ} (hi : i < 25) (on : Bool) :
    boardRanges.Allows (.enabled i on) := hi

/-- The calls of a write to `CR` are in range. -/
theorem allows_crSettings (v : BitVec 32) : ∀ x ∈ crSettings v, boardRanges.Allows x := by
  simp only [crSettings, List.forall_mem_cons, List.not_mem_nil, false_imp_iff, implies_true,
    and_true]
  exact ⟨allows_enabled (by decide) _, allows_enabled (by decide) _,
    allows_enabled (by decide) _⟩

/-- The calls for the peripherals are in range. -/
theorem allows_periphSettings (v : BitVec 32) (l : List (Periph × ℕ)) :
    ∀ x ∈ periphSettings v l, boardRanges.Allows x := by
  intro x hx
  obtain ⟨⟨p, b⟩, -, rfl⟩ := List.mem_map.1 hx
  exact allows_enabled (periphclk_lt p) _

/-- **Every write makes calls in range.** -/
theorem allows_writeSettings (offset : ℕ) (v : BitVec 32) :
    ∀ x ∈ writeSettings offset v, boardRanges.Allows x := by
  unfold writeSettings
  split
  · exact allows_crSettings v
  · exact allows_cfgrSettings v
  · exact allows_periphSettings v apb2Bits
  · exact allows_periphSettings v apb2Bits
  · exact allows_periphSettings v apb1Bits
  · exact allows_periphSettings v apb1Bits
  · exact List.forall_mem_singleton.2 (allows_enabled (by decide) _)
  · exact List.forall_mem_singleton.2 (allows_enabled (by decide) _)
  · exact fun x hx => absurd hx List.not_mem_nil

/-- **Every setting that the device makes is in range.** -/
theorem allows_settings (e : Event) : ∀ x ∈ e.settings, boardRanges.Allows x := by
  cases e with
  | write offset v => exact allows_writeSettings offset v
  | reset =>
    show ∀ x ∈ resetSettings, _
    simp only [resetSettings, List.forall_mem_append, List.forall_mem_cons]
    exact ⟨⟨⟨⟨allows_crSettings _, allows_cfgrSettings _⟩, allows_periphSettings _ _⟩,
      allows_periphSettings _ _⟩, allows_enabled (by decide) _,
      allows_enabled (by decide) _, by simp⟩

/-- **A run of the device** and the heaps on its way, all of them safe. -/
theorem run_trace {l : List Event} (hs : boardRanges.Safe s.tree) (h : Run Step s l s') :
    ∃ tr, (l.flatMap Event.settings).foldlM Trace.set ⟨s.tree, []⟩ = .ok tr ∧
    tr.tree = s'.tree ∧
      boardRanges.SafeTrace tr := by
  have hsettings : (l.flatMap Event.settings).foldlM (fun t x => t.exec x.op)
      (Trace.mk s.tree []).tree = .ok s'.tree := run_settings h
  obtain ⟨tr, hfold, htree⟩ := exists_trace hsettings
  refine ⟨tr, hfold, htree,
    foldlM_invariant (fun tr tr' x hx htr hset => ?_) ⟨hs, by simp⟩ hfold⟩
  obtain ⟨e, -, hx⟩ := List.mem_flatMap.1 hx
  exact htr.set boardRanges_closed maxFreq_lt (allows_settings e x hx) hset

/-- One step. -/
theorem step_safe {e : Event} (hs : boardRanges.Safe s.tree) (h : Step s e s') :
    boardRanges.Safe s'.tree := by
  obtain ⟨tr, -, htree, hsafe⟩ := run_trace hs (.cons h (.nil _))
  rw [← htree]
  exact hsafe.tree

/-! ### Bounds -/

/-- **The clocks at any moment of an update.**  No divisor is `0`, the output frequency
that `clktree_recalc_output_freq` would compute for any clock is exact, no frequency is
above 128 MHz, and `HCLK` is off or at least 8 Hz. -/
structure InBounds (t : Tree) : Prop where
  size : t.size = 25
  divisor : ∀ i < 25, (t.clk i).divisor ≠ 0#16
  exact : ∀ i < 25, ∃ newFreq, (t.clk i).newOutputFreq = .ok newFreq ∧
    newFreq.toNat = (t.clk i).exactFreq ∧ newFreq.toNat ≤ MAX_FREQ
  output : ∀ i < 25, (t.clk i).outputFreq.toNat ≤ MAX_FREQ
  hclk : ¬(1 ≤ (t.clk HCLK).outputFreq.toNat ∧ (t.clk HCLK).outputFreq.toNat ≤ 7)

/-- Clocks in range are in bounds. -/
theorem inBounds_of_safe {t : Tree} (h : boardRanges.Safe t) : InBounds t := by
  refine ⟨h.inRange.1, fun i hi => ?_, fun i hi => ?_, fun i hi => ?_, ?_⟩
  · exact (boardRanges_closed i hi).divisor_ne_zero (h.fits hi)
  · have hc := boardRanges_closed i hi
    obtain ⟨newFreq, hnew, hexact⟩ := hc.newOutputFreq maxFreq_lt (h.fits hi)
    refine ⟨newFreq, hnew, hexact, ?_⟩
    rw [hexact]
    exact hc.le_max (hc.mem_exactFreq (h.fits hi))
  · exact (boardRanges_closed i hi).le_max (h.fits hi).output
  · have hgap : ahbFreqs.Le [(0, 0), (8, MAX_FREQ)] := by decide
    have hout := Intervals.Mem.eq_zero_or_le (h.fits (i := HCLK) (by decide)).output hgap
    omega

/-! ### Runs -/

/-- What the device takes: a reset, or a write to one of its registers without
`SW = 3`. -/
def Event.Taken : Event → Prop
  | .write offset v => Writable offset v
  | .reset => True

/-- The device takes every event that it should. -/
theorem Has.step {c : Cfg} {r : Stm32Rcc} {e : Event} (h : Has c r s) (he : e.Taken) :
    ∃ s', Step s e s' ∧ ∃ c' r', Has c' r' s' := by
  cases e with
  | write offset v =>
    obtain ⟨s', hs', h'⟩ := writew_has h he
    exact ⟨s', hs', _, _, h'⟩
  | reset =>
    obtain ⟨s', hs', h'⟩ := reset_has h
    exact ⟨s', hs', _, _, h'⟩

/-- Between two events the cached output frequencies are exact. -/
theorem Has.exactFreq {c : Cfg} {r : Stm32Rcc} (h : Has c r s) (hs : boardRanges.Safe s.tree)
    {i : ℕ} (hi : i < 25) : (s.outputFreq i).toNat = (s.tree.clk i).exactFreq := by
  obtain ⟨newFreq, hnew, hexact, -⟩ := (inBounds_of_safe hs).exact i hi
  have hout : s.outputFreq i = (s.tree.clk i).outFreq :=
    (h.tree.fresh i (by rw [h.size]; exact hi)).1
  rw [Clk.newOutputFreq_eq ((inBounds_of_safe hs).divisor i hi)] at hnew
  rw [hout, ← hexact, Except.ok.inj hnew]

end Rcc
end Especial
