/-
# Busy waiting

A translation of `src/hal/utils/delay.c`.  `delay_wait_us` computes a number of iterations from
the frequency of the clock and runs an empty loop that often; a wait of more than 1000 us is
made of waits of 1000 us.

The frequency is split into megahertz and the hertz that remain, which are scaled by `us` and
divided by `10^6` one by one.  The hertz are scaled twice, `hz *= us; hz /= 10^6` and then
`(hz * us) / 10^6`: the second quotient is always `0`, so that the part of the frequency below
1 MHz does not count at all (`toNat_delayIterations`).  `delay_wait_us_iff` says for which
frequencies this makes no difference.  It also says for which long waits the milliseconds are
right: `us + 999` wraps around for the last 999 values of `us`.
-/

import Especial.Lib.Loop
import Mathlib.Tactic
import Mathlib.Algebra.Order.Floor.Div

namespace Especial
namespace Utils

open Lib

/-! ### The loop -/

/-- A turn of `_delay_loop`: `subs.n r0, #1` and `bne.n 1b`. -/
def delayLoopTurn (r0 : BitVec 32) : Except Empty (Turn (BitVec 32) Unit) :=
  let r0 := r0 - 1#32
  if r0 ≠ 0#32 then .ok (.again r0) else .ok (.exit ())

/-- **`_delay_loop(n)` ends in its `n`-th turn**, and with `n = 0` in turn `2 ^ 32`. -/
theorem delayLoop_endsIn (n : BitVec 32) :
    EndsIn delayLoopTurn n (if n = 0#32 then 2 ^ 32 else n.toNat) (.ok ()) := by
  have hturns : (if n = 0#32 then 2 ^ 32 else n.toNat) = (n - 1#32).toNat + 1 := by
    have hn := n.isLt
    have hzero : n = 0#32 ↔ n.toNat = 0 := by rw [← BitVec.toNat_inj]; rfl
    rw [BitVec.toNat_sub, BitVec.toNat_ofNat]
    split_ifs with h0
    · rw [hzero.1 h0]
      rfl
    · have := mt hzero.2 h0
      omega
  rw [hturns]
  refine EndsIn.of_variant (V := fun k r0 => (r0 - 1#32).toNat = k) (fun k r0 hk => ?_)
    (fun r0 hr0 => ?_) rfl
  · have hne : r0 - 1#32 ≠ 0#32 := by
      intro h0
      rw [h0] at hk
      exact absurd hk (by simp)
    refine ⟨r0 - 1#32, if_pos hne, ?_⟩
    rw [BitVec.toNat_sub, hk, BitVec.toNat_ofNat]
    have := (r0 - 1#32).isLt
    omega
  · exact if_neg (not_not.2 (BitVec.eq_of_toNat_eq hr0))

/-! ### The waits -/

/-- What a wait calls. -/
inductive DelayCall
  /-- `delay_wait_us(us)`, by `delay_wait_ms` -/
  | waitUs (us : BitVec 32)
  /-- `_delay_loop(n)` -/
  | loop (n : BitVec 32)
  deriving DecidableEq, Repr

/-- The argument that `delay_wait_us` computes for `_delay_loop`. -/
def delayIterations (systemCoreClock us : BitVec 32) : BitVec 32 :=
  let mhz := systemCoreClock / 1000000#32
  let hz := systemCoreClock % 1000000#32
  let hz := hz * us
  let hz := hz / 1000000#32
  let i := mhz * us
  let i := i + hz * us / 1000000#32
  i / 7#32

mutual

/-- `delay_wait_ms`. -/
def delayWaitMs (systemCoreClock ms : BitVec 32) : List DelayCall :=
  (List.range ms.toNat).flatMap fun _ => .waitUs 1000#32 :: delayWaitUs systemCoreClock 1000#32
termination_by 1

/-- `delay_wait_us`. -/
def delayWaitUs (systemCoreClock us : BitVec 32) : List DelayCall :=
  if us > 1000#32 then delayWaitMs systemCoreClock ((us + 999#32) / 1000#32)
  else
    let i := delayIterations systemCoreClock us
    if i = 0#32 then [] else [.loop i]
termination_by if us > 1000#32 then 2 else 0
decreasing_by
  rw [if_pos (by assumption)]
  decide

end

/-- A wait runs the loop once, with `n` iterations, or with `n = 0` not at all. -/
def RunsLoop (calls : List DelayCall) (n : ℕ) : Prop :=
  (n = 0 ∧ calls = []) ∨ ∃ r0, calls = [.loop r0] ∧ EndsIn delayLoopTurn r0 n (.ok ())

variable {clk us : BitVec 32}

/-- At most a millisecond is a short wait. -/
theorem not_gt_of_le (hus : us.toNat ≤ 1000) : ¬us > 1000#32 := by
  rw [gt_iff_lt, BitVec.lt_def]
  exact Nat.not_lt.2 hus

/-- **A short wait** runs the loop as often as computed. -/
theorem runsLoop_iff (hus : us.toNat ≤ 1000) {n : ℕ} :
    RunsLoop (delayWaitUs clk us) n ↔ n = (delayIterations clk us).toNat := by
  rw [delayWaitUs, if_neg (not_gt_of_le hus)]
  by_cases hi : delayIterations clk us = 0#32
  · simp [RunsLoop, hi]
  · have hends := delayLoop_endsIn (delayIterations clk us)
    rw [if_neg hi] at hends
    constructor
    · rintro (⟨-, hnil⟩ | ⟨r0, hr0, hn⟩)
      · simp [hi] at hnil
      · simp only [hi, if_false, List.cons.injEq, DelayCall.loop.injEq, and_true] at hr0
        rw [← hr0] at hn
        exact (hn.unique hends).1
    · rintro rfl
      exact Or.inr ⟨_, by simp [hi], hends⟩

/-- **A wait in milliseconds** is made of as many waits of 1000 us. -/
theorem count_delayWaitMs (clk ms : BitVec 32) :
    (delayWaitMs clk ms).count (.waitUs 1000#32) = ms.toNat := by
  have hshort : (delayWaitUs clk 1000#32).count (.waitUs 1000#32) = 0 := by
    rw [delayWaitUs, if_neg (by decide)]
    dsimp only
    split_ifs <;> rfl
  rw [delayWaitMs, List.count_flatMap]
  simp [hshort, Function.comp_def]

/-! ### The arithmetic -/

/-- No product and no sum that `delay_wait_us` computes reaches `2 ^ 32`. -/
structure NoOverflow (clk us : ℕ) : Prop where
  hz : clk % 10 ^ 6 * us < 2 ^ 32
  mhz : clk / 10 ^ 6 * us < 2 ^ 32
  hz_again : clk % 10 ^ 6 * us / 10 ^ 6 * us < 2 ^ 32
  sum : clk / 10 ^ 6 * us + clk % 10 ^ 6 * us / 10 ^ 6 * us / 10 ^ 6 < 2 ^ 32

/-- The hertz, scaled once, are less than 1000, and scaled again less than `10 ^ 6`. -/
theorem hz_again_lt (clk : ℕ) {us : ℕ} (hus : us ≤ 1000) :
    clk % 10 ^ 6 * us / 10 ^ 6 * us < 10 ^ 6 := by
  have hmod : clk % 10 ^ 6 ≤ 10 ^ 6 - 1 := Nat.le_sub_one_of_lt (Nat.mod_lt _ (by decide))
  have hmul : clk % 10 ^ 6 * us ≤ (10 ^ 6 - 1) * 1000 := Nat.mul_le_mul hmod hus
  have hdiv : clk % 10 ^ 6 * us / 10 ^ 6 ≤ 999 := by omega
  have hagain : clk % 10 ^ 6 * us / 10 ^ 6 * us ≤ 999 * 1000 := Nat.mul_le_mul hdiv hus
  omega

/-- No product overflows in a short wait. -/
theorem noOverflow (clk : BitVec 32) {us : ℕ} (hus : us ≤ 1000) : NoOverflow clk.toNat us := by
  have hclk := clk.isLt
  have hmod : clk.toNat % 10 ^ 6 ≤ 10 ^ 6 - 1 := Nat.le_sub_one_of_lt (Nat.mod_lt _ (by decide))
  have hhz : clk.toNat % 10 ^ 6 * us ≤ (10 ^ 6 - 1) * 1000 := Nat.mul_le_mul hmod hus
  have hmhz : clk.toNat / 10 ^ 6 * us ≤ 4294 * 1000 := Nat.mul_le_mul (by omega) hus
  have hagain := hz_again_lt clk.toNat hus
  exact ⟨by omega, by omega, by omega, by omega⟩

/-- **What `delay_wait_us` computes**: the megahertz count, and nothing else does. -/
theorem toNat_delayIterations (hus : us.toNat ≤ 1000) :
    (delayIterations clk us).toNat = clk.toNat / 10 ^ 6 * us.toNat / 7 := by
  have hno := noOverflow clk hus
  have hquot : clk.toNat % 10 ^ 6 * us.toNat / 10 ^ 6 * us.toNat / 10 ^ 6 = 0 :=
    Nat.div_eq_of_lt (hz_again_lt clk.toNat hus)
  have hmillion : (1000000#32).toNat = 10 ^ 6 := rfl
  have hseven : (7#32).toNat = 7 := rfl
  have hmhz := hno.mhz
  rw [delayIterations]
  simp only [BitVec.toNat_udiv, BitVec.toNat_add, BitVec.toNat_mul, BitVec.toNat_umod, hmillion,
    hseven, Nat.mod_eq_of_lt hno.hz, Nat.mod_eq_of_lt hno.mhz, Nat.mod_eq_of_lt hno.hz_again, hquot,
    Nat.add_zero]

/-- The iterations that take `us` us, with 7 clocks in each. -/
def exactIterations (clk us : ℕ) : ℕ := clk * us / 10 ^ 6 / 7

/-- The iterations, with the megahertz taken out of the clock. -/
theorem exactIterations_eq (clk us : ℕ) : exactIterations clk us =
    (clk / 10 ^ 6 * us + clk % 10 ^ 6 * us / 10 ^ 6) / 7 := by
  have hsplit : clk * us = 10 ^ 6 * (clk / 10 ^ 6 * us) + clk % 10 ^ 6 * us := by
    rw [← Nat.mul_assoc, ← Nat.add_mul, Nat.div_add_mod]
  rw [exactIterations, hsplit, Nat.mul_add_div (by decide)]

/-- **What `delay_wait_us` waits.**  For at most 1000 us nothing overflows, and the loop runs as
often as the frequency asks for exactly if the hertz beyond whole megahertz make no further
iteration, as with a frequency of whole megahertz.  A longer wait consists of the milliseconds
that it takes, rounded up, exactly if `us` is at most `2 ^ 32 - 1000`. -/
theorem delay_wait_us_iff (clk us : BitVec 32) :
    (us.toNat ≤ 1000 → NoOverflow clk.toNat us.toNat ∧
      (RunsLoop (delayWaitUs clk us) (exactIterations clk.toNat us.toNat) ↔
        clk.toNat / 10 ^ 6 * us.toNat % 7 + clk.toNat % 10 ^ 6 * us.toNat / 10 ^ 6 < 7)) ∧
    (1000 < us.toNat → ((delayWaitUs clk us).count (.waitUs 1000#32) = us.toNat ⌈/⌉ 1000 ↔
      us.toNat ≤ 2 ^ 32 - 1000)) := by
  refine ⟨fun hus => ⟨noOverflow clk hus, ?_⟩, fun hus => ?_⟩
  · rw [runsLoop_iff hus, toNat_delayIterations hus, exactIterations_eq]
    omega
  · have hlong : us > 1000#32 := BitVec.lt_def.2 hus
    have hceil : us.toNat ⌈/⌉ 1000 = (us.toNat + 999) / 1000 := Nat.ceilDiv_eq_add_pred_div ..
    have hms : ((us + 999#32) / 1000#32).toNat = (us.toNat + 999) % 2 ^ 32 / 1000 := by
      rw [BitVec.toNat_udiv, BitVec.toNat_add]
      rfl
    have hlt := us.isLt
    rw [delayWaitUs, if_pos hlong, count_delayWaitMs, hms, hceil]
    omega

/-- At 72 MHz, 100 us and 2500 us. -/
theorem delay_wait_us_72MHz : RunsLoop (delayWaitUs 72000000#32 100#32) 1028 ∧
    (delayWaitUs 72000000#32 2500#32).count (.waitUs 1000#32) = 3 := by
  refine ⟨((delay_wait_us_iff 72000000#32 100#32).1 (by decide)).2.2 (by decide), ?_⟩
  exact ((delay_wait_us_iff 72000000#32 2500#32).2 (by decide)).2 (by decide)

/-- At 8.5 MHz a wait of 1000 us is 1142 iterations and not 1214, and the longest wait of all is
none. -/
theorem delay_wait_us_short :
    ¬RunsLoop (delayWaitUs 8500000#32 1000#32) (exactIterations 8500000 1000) ∧
      RunsLoop (delayWaitUs 8500000#32 1000#32) 1142 ∧ exactIterations 8500000 1000 = 1214 ∧
      delayWaitUs 8500000#32 0xffffffff#32 = [] := by
  have hus : (1000#32).toNat ≤ 1000 := by decide
  refine ⟨?_, ?_, rfl, ?_⟩
  · rw [runsLoop_iff hus]
    decide
  · rw [runsLoop_iff hus]
    decide
  · rw [delayWaitUs, if_pos (by decide), delayWaitMs]
    rfl

end Utils
end Especial
