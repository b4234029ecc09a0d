/-
# Time and timeouts

A translation of `src/hal/utils/time.c` and `include/hal/utils/time.h`.  The timer `TIM2` raises
an update flag, its interrupt counts them in `gTimeCounter`, and a timeout is a value of that
counter in the future.  The counter has 32 bits and wraps around after 49 days;
`time_elapsed` compares by the sign of a difference.

`time_elapsed_iff` says for which timeouts and for how long this is right.  While the timer runs,
as it does after `time_init` (`timeInit_running`), every such timeout elapses
(`exists_run_elapsed`).  A tick is a millisecond if the clock of the timer is a multiple of 2 MHz
(`timeInit_period_iff`).
-/

import Especial.Lib.Run
import Especial.Lib.Ticks
import Mathlib.Tactic

namespace Especial
namespace Utils

open Lib

/-! ### The timer -/

/-- `TIM_SR_UIF`. -/
def TIM_SR_UIF : BitVec 16 := 0x0001

/-- `TIM_IT_Update`, the bit of the update interrupt in `DIER` and in `SR`. -/
def TIM_IT_Update : BitVec 16 := 0x0001

/-- `TIM_CR1_CEN`. -/
def TIM_CR1_CEN : BitVec 16 := 0x0001

/-- The registers of `TIM2` that `time.c` uses, and `gTimeCounter`. -/
structure Tim2 where
  CR1 : BitVec 16
  DIER : BitVec 16
  SR : BitVec 16
  PSC : BitVec 16
  ARR : BitVec 16
  gTimeCounter : BitVec 32
  deriving DecidableEq, Repr

/-- `TIM_ClearITPendingBit`: the flags are cleared by writing `0`, and a `1` leaves them. -/
def clearITPendingBit (s : Tim2) (it : BitVec 16) : Tim2 := { s with SR := s.SR &&& ~~~it }

/-- `TIM_ITConfig`. -/
def itConfig (s : Tim2) (it : BitVec 16) (newState : Bool) : Tim2 :=
  { s with DIER := if newState then s.DIER ||| it else s.DIER &&& ~~~it }

/-- `TIM_Cmd`. -/
def cmd (s : Tim2) (newState : Bool) : Tim2 :=
  { s with CR1 := if newState then s.CR1 ||| TIM_CR1_CEN else s.CR1 &&& ~~~TIM_CR1_CEN }

/-- `TIM2_IRQHandler`. -/
def irqHandler (s : Tim2) : Tim2 :=
  if s.SR &&& TIM_SR_UIF ≠ 0#16 then
    clearITPendingBit { s with gTimeCounter := s.gTimeCounter + 1#32 } TIM_IT_Update
  else s

/-- `time_suspend`. -/
def timeSuspend (s : Tim2) : Tim2 := cmd (itConfig s TIM_IT_Update false) false

/-- `time_resume`. -/
def timeResume (s : Tim2) : Tim2 := cmd (itConfig s TIM_IT_Update true) true

/-- `TIM_TimeBaseInit`, counting up and with no clock division; the update event that it generates
loads the prescaler and raises the update flag. -/
def timeBaseInit (s : Tim2) (prescaler period : BitVec 16) : Tim2 :=
  { s with
    CR1 := s.CR1 &&& ~~~0x0070#16 &&& ~~~0x0300#16
    ARR := period
    PSC := prescaler
    SR := s.SR ||| TIM_SR_UIF }

/-- `time_init`, without the delay at its end. -/
def timeInit (systemCoreClock : BitVec 32) (s : Tim2) : Tim2 :=
  let s := { s with gTimeCounter := 0#32 }
  let prescaler := systemCoreClock / 1000000#32 / 2#32 - 1#32
  let s := timeBaseInit s (prescaler.setWidth 16) (2000 - 1)
  timeResume s

/-- What can happen to the timer. -/
inductive Tim2Event
  /-- the timer reaches `ARR` -/
  | update
  /-- its interrupt is served -/
  | irq
  | suspend
  | resume
  deriving DecidableEq, Repr

/-- What it does. -/
def tim2Step (s : Tim2) : Tim2Event → Tim2
  | .update => { s with SR := s.SR ||| TIM_SR_UIF }
  | .irq => irqHandler s
  | .suspend => timeSuspend s
  | .resume => timeResume s

/-- When it can happen: a timer that runs, or an interrupt that is pending and enabled. -/
def Tim2Event.Enabled (s : Tim2) : Tim2Event → Prop
  | .update => s.CR1 &&& TIM_CR1_CEN ≠ 0#16
  | .irq => s.SR &&& TIM_SR_UIF ≠ 0#16 ∧ s.DIER &&& TIM_IT_Update ≠ 0#16
  | .suspend | .resume => True

instance (s : Tim2) (e : Tim2Event) : Decidable (e.Enabled s) :=
  match e with
  | .update => inferInstanceAs (Decidable (_ ≠ _))
  | .irq => inferInstanceAs (Decidable (_ ≠ _ ∧ _ ≠ _))
  | .suspend | .resume => isTrue trivial

/-- A step of the timer. -/
def Tim2Step (s : Tim2) (e : Tim2Event) (t : Tim2) : Prop := e.Enabled s ∧ t = tim2Step s e

/-! ### Timeouts -/

/-- `timeout_t`. -/
structure Timeout where
  value : BitVec 32
  deriving DecidableEq, Repr

/-- `INT32_MAX`, compared with a `uint32_t`. -/
def INT32_MAX : BitVec 32 := 0x7fffffff

/-- `time_get`. -/
def timeGet (s : Tim2) : Timeout := ⟨s.gTimeCounter⟩

/-- `time_set_timeout_ms`. -/
def timeSetTimeoutMs (s : Tim2) (ms : BitVec 32) : Timeout :=
  let time := timeGet s
  let time : Timeout := ⟨time.value + ms⟩
  -- "The timeout should be at least ms"
  ⟨time.value + 1#32⟩

/-- `time_elapsed`. -/
def timeElapsed (s : Tim2) (timeout : Timeout) : Bool :=
  let now := timeGet s
  decide (timeout.value - now.value > INT32_MAX)

/-- `time_diff_ms`: an `int32_t`. -/
def timeDiffMs (now before : Timeout) : BitVec 32 := now.value - before.value

/-- Different times are at different distances from any third one. -/
theorem timeDiffMs_right_inj {s t before : Timeout} :
    timeDiffMs s before = timeDiffMs t before ↔ s = t := by
  obtain ⟨s⟩ := s
  obtain ⟨t⟩ := t
  rw [timeDiffMs, timeDiffMs, sub_left_inj, Timeout.mk.injEq]

/-! ### The counter -/

variable {s t : Tim2} {l : List Tim2Event}

/-- The number of ticks that have been counted. -/
def ticks (l : List Tim2Event) : ℕ := l.count .irq

/-- **One step**: the interrupt counts, and nothing else does. -/
theorem tim2Step_gTimeCounter {e : Tim2Event} (h : Tim2Step s e t) :
    t.gTimeCounter = ticked s.gTimeCounter (ticks [e]) := by
  obtain ⟨henabled, rfl⟩ := h
  cases e with
  | irq =>
    show (irqHandler s).gTimeCounter = _
    rw [irqHandler, if_pos henabled.1]
    rfl
  | update | suspend | resume => exact (ticked_zero s.gTimeCounter).symm

/-- **A run**: the counter goes on by the ticks, and wraps around. -/
theorem run_gTimeCounter (h : Run Tim2Step s l t) :
    t.gTimeCounter = ticked s.gTimeCounter (ticks l) := by
  refine h.invariant_hist (P := fun l t => t.gTimeCounter = ticked s.gTimeCounter (ticks l))
    (fun l u e t hu he => ?_) (ticked_zero s.gTimeCounter).symm
  rw [tim2Step_gTimeCounter he, hu, ticked_add, ticks, ticks, ticks, List.count_append]

/-- `time_elapsed` asks whether the timeout is past. -/
theorem timeElapsed_iff_past (s : Tim2) (timeout : Timeout) :
    timeElapsed s timeout = true ↔ Past (w := 31) timeout.value s.gTimeCounter := by
  unfold timeElapsed Past
  rw [decide_eq_true_iff, gt_iff_lt, BitVec.lt_def]
  exact Nat.lt_iff_add_one_le

/-- A timeout is one tick more than `ms` ahead. -/
theorem timeSetTimeoutMs_value (s : Tim2) (ms : BitVec 32) :
    (timeSetTimeoutMs s ms).value = ticked (w := 31) s.gTimeCounter (ms.toNat + 1) := by
  rw [ticked, BitVec.ofNat_add, BitVec.ofNat_toNat, BitVec.setWidth_eq, ← BitVec.add_assoc]
  rfl

/-- `time_elapsed` after a run. -/
theorem timeElapsed_run {ms : BitVec 32} (hms : ms.toNat ≤ 2 ^ 31 - 2) (h : Run Tim2Step s l t)
    (hl : ticks l ≤ 2 ^ 31) :
    timeElapsed t (timeSetTimeoutMs s ms) = true ↔ ms.toNat + 1 < ticks l := by
  rw [timeElapsed_iff_past, timeSetTimeoutMs_value, run_gTimeCounter h]
  exact past_iff s.gTimeCounter (by omega) hl

/-- **When a timeout has elapsed.**  A timeout of at most `2 ^ 31 - 2` ms is set, with any value
in the counter.  For the next `2 ^ 31` ticks, whether or not the counter wraps around, it has
elapsed exactly after more than `ms + 1` ticks: not before more than `ms` of them have passed,
and once it has elapsed it stays so. -/
theorem time_elapsed_iff (s t : Tim2) (ms : BitVec 32) (l : List Tim2Event)
    (hms : ms.toNat ≤ 2 ^ 31 - 2) (hrun : Run Tim2Step s l t) (hl : ticks l ≤ 2 ^ 31) :
    (timeElapsed t (timeSetTimeoutMs s ms) = true ↔ ticks l > ms.toNat + 1) ∧
      (timeElapsed t (timeSetTimeoutMs s ms) = true → ticks l > ms.toNat) ∧
      ∀ l' t', Run Tim2Step t l' t' → ticks (l ++ l') ≤ 2 ^ 31 →
        timeElapsed t (timeSetTimeoutMs s ms) = true →
        timeElapsed t' (timeSetTimeoutMs s ms) = true := by
  have hiff := timeElapsed_run hms hrun hl
  refine ⟨hiff, fun h => ?_, fun l' t' hrun' hl' h => ?_⟩
  · have := hiff.1 h
    omega
  · have hboth : Run Tim2Step s (l ++ l') t' := Run.append_iff.2 ⟨t, hrun, hrun'⟩
    have hle : ticks l ≤ ticks (l ++ l') := by
      rw [ticks, ticks, List.count_append]
      exact Nat.le_add_right _ _
    exact (timeElapsed_run hms hboth hl').2 (by have := hiff.1 h; omega)

/-- A timeout of `0` ms, set one tick before the counter wraps around. -/
theorem time_elapsed_wraps : ∃ s t l, s.gTimeCounter = 0xffffffff#32 ∧ Run Tim2Step s l t ∧
    ticks l = 2 ∧ timeElapsed t (timeSetTimeoutMs s 0#32) = true := by
  have hrun : Run Tim2Step ⟨1, 1, 0, 35, 1999, 0xffffffff⟩ [.update, .irq, .update, .irq]
      ⟨1, 1, 0, 35, 1999, 1⟩ :=
    .cons ⟨by decide, rfl⟩ (.cons ⟨by decide, rfl⟩ (.cons ⟨by decide, rfl⟩
      (.cons ⟨by decide, rfl⟩ (.nil _))))
  exact ⟨_, _, _, rfl, hrun, rfl, (time_elapsed_iff _ _ 0#32 _ (by decide) hrun (by decide)).1.2
    (by decide)⟩

/-! ### Milliseconds -/

/-- A timer that runs, with its interrupt enabled. -/
def Tim2.Running (s : Tim2) : Prop :=
  s.CR1 &&& TIM_CR1_CEN ≠ 0#16 ∧ s.DIER &&& TIM_IT_Update ≠ 0#16

/-- A bit that is set reads as set. -/
theorem and_ne_zero_of_or {v b : BitVec 16} (hb : b ≠ 0#16) : (v ||| b) &&& b ≠ 0#16 := by
  have hself : (v ||| b) &&& b = b := by
    apply BitVec.eq_of_getLsbD_eq
    intro i _
    rw [BitVec.getLsbD_and, BitVec.getLsbD_or]
    cases v.getLsbD i <;> cases b.getLsbD i <;> rfl
  rwa [hself]

/-- A timer that runs can tick any number of times. -/
theorem exists_run_ticks (hs : s.Running) (d : ℕ) :
    ∃ l t, Run Tim2Step s l t ∧ ticks l = d ∧ t.Running := by
  induction d generalizing s with
  | zero => exact ⟨[], s, .nil s, rfl, hs⟩
  | succ d ih =>
    set u := tim2Step s .update
    have hu : u.SR &&& TIM_SR_UIF ≠ 0#16 := and_ne_zero_of_or (by decide)
    have hv : (irqHandler u).Running := by
      rw [irqHandler, if_pos hu]
      exact hs
    obtain ⟨l, t, hrun, hl, ht⟩ := ih hv
    refine ⟨.update :: .irq :: l, t,
      .cons ⟨hs.1, rfl⟩ (.cons ⟨⟨hu, hs.2⟩, rfl⟩ hrun), ?_, ht⟩
    simp only [ticks, List.count_cons] at hl ⊢
    simp [hl]

/-- **A timeout elapses** while the timer runs, `ms + 2` ticks after it was set. -/
theorem exists_run_elapsed (hs : s.Running) {ms : BitVec 32} (hms : ms.toNat ≤ 2 ^ 31 - 2) :
    ∃ l t, Run Tim2Step s l t ∧ ticks l = ms.toNat + 2 ∧
      timeElapsed t (timeSetTimeoutMs s ms) = true := by
  obtain ⟨l, t, hrun, hl, -⟩ := exists_run_ticks hs (ms.toNat + 2)
  exact ⟨l, t, hrun, hl, (timeElapsed_run hms hrun (by omega)).2 (by omega)⟩

/-- `time_init` starts the timer; the timer counts to `ARR`, one in `PSC + 1` clocks. -/
theorem timeInit_running (clk : BitVec 32) (s : Tim2) : (timeInit clk s).Running :=
  ⟨and_ne_zero_of_or (by decide), and_ne_zero_of_or (by decide)⟩

/-- **When a tick is a millisecond**: 1000 ticks take as many clocks as there are in a second
exactly if the clock is a multiple of 2 MHz. -/
theorem timeInit_period_iff (clk : BitVec 32) (s : Tim2) :
    1000 * (((timeInit clk s).ARR.toNat + 1) * ((timeInit clk s).PSC.toNat + 1)) = clk.toNat ↔
      0 < clk.toNat ∧ 2000000 ∣ clk.toNat := by
  have hARR : (timeInit clk s).ARR.toNat = 1999 := rfl
  have hPSC : (timeInit clk s).PSC.toNat =
      (2 ^ 32 - 1 + clk.toNat / 1000000 / 2) % 2 ^ 32 % 2 ^ 16 := by
    show ((clk / 1000000#32 / 2#32 - 1#32).setWidth 16).toNat = _
    rw [BitVec.toNat_setWidth, BitVec.toNat_sub, BitVec.toNat_udiv, BitVec.toNat_udiv]
    rfl
  have hclk := clk.isLt
  rw [hARR, hPSC]
  omega

end Utils
end Especial
