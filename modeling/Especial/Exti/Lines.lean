/-
# The controller, line by line

Each loop of `stm32_exti_write` handles line `i` by looking at the five bits of line
`i` and changing no others (`Acts`).

What a body wants of a pending bit is a request: set it, clear it, or nothing.  A
pending bit that already has the requested value is left alone, and its output is
not driven.
-/

import Especial.Exti.Basic
import Especial.Lib.Pointwise

namespace Especial
namespace Exti

open Qemu Stm32 Lib

/-- The bits of one line. -/
@[ext]
structure Line where
  imr : Bool
  rtsr : Bool
  ftsr : Bool
  swier : Bool
  pr : Bool
  deriving DecidableEq, Repr

/-- Line `i` of the device. -/
def Stm32Exti.line (s : Stm32Exti) (i : ℕ) : Line where
  imr := s.IMR.getLsbD i
  rtsr := s.RTSR.getLsbD i
  ftsr := s.FTSR.getLsbD i
  swier := s.SWIER.getLsbD i
  pr := s.PR.getLsbD i

namespace Line

/-- The line after a request; clearing a set pending bit clears the software event. -/
def apply (l : Line) : Option Bool → Line
  | none => l
  | some b => { l with pr := b, swier := l.swier && (b || !l.pr) }

/-- The calls on the outputs that a request for line `i` makes. -/
def drives (i : ℕ) (l : Line) : Option Bool → List (ℕ × Bool)
  | none => []
  | some b => if l.pr = b then [] else (irqOf i).toList.map fun n => (n, b)

/-- A request that does not run into `assert(false)`. -/
def Allowed (i : ℕ) (l : Line) (r : Option Bool) : Prop :=
  ∀ b, r = some b → l.pr ≠ b → (irqOf i).isSome = true

/-- The trigger selection bit. -/
def tsr (l : Line) : Tsr → Bool
  | .rising => l.rtsr
  | .falling => l.ftsr

/-- The line with another trigger selection bit. -/
def setTsr (l : Line) (b : Bool) : Tsr → Line
  | .rising => { l with rtsr := b }
  | .falling => { l with ftsr := b }

/-- A change of the trigger selection asks to clear the pending bit. -/
def tsrRequest (r : Tsr) (bit : Bool) (l : Line) : Option Bool :=
  if bit ≠ l.tsr r then some false else none

/-- A new software event on an unmasked line asks to set it. -/
def swierRequest (bit : Bool) (l : Line) : Option Bool :=
  if bit && !l.swier && l.imr then some true else none

/-- A `1` written to the pending register asks to clear it. -/
def prRequest (bit : Bool) (_ : Line) : Option Bool := if bit then some false else none

/-- A change of the trigger selection only asks to clear. -/
theorem eq_of_tsrRequest {r : Tsr} {bit b : Bool} {l : Line} (h : l.tsrRequest r bit = some b) :
    b = false := by
  unfold tsrRequest at h
  split_ifs at h
  exact (Option.some.inj h).symm

/-- It asks when the bit changes. -/
theorem tsrRequest_eq_some {r : Tsr} {bit : Bool} {l : Line} :
    l.tsrRequest r bit = some false ↔ bit ≠ l.tsr r := by
  unfold tsrRequest
  split_ifs with h <;> simp [h]

/-- A software event only asks to set. -/
theorem eq_of_swierRequest {bit b : Bool} {l : Line} (h : l.swierRequest bit = some b) :
    b = true := by
  unfold swierRequest at h
  split_ifs at h
  exact (Option.some.inj h).symm

/-- A write of the pending register only asks to clear. -/
theorem eq_of_prRequest {bit b : Bool} {l : Line} (h : l.prRequest bit = some b) : b = false := by
  unfold prRequest at h
  split_ifs at h
  exact (Option.some.inj h).symm

/-- It asks for a `1`. -/
theorem prRequest_eq_some {bit : Bool} {l : Line} : l.prRequest bit = some false ↔
    bit = true := by
  unfold prRequest
  split_ifs with h <;> simp [h]

/-- An edge on an unmasked line with its trigger bit asks to set it. -/
def edgeRequest (level : Bool) (l : Line) : Option Bool :=
  if (if level then l.rtsr else l.ftsr) && l.imr then some true else none

/-- The request of an edge, by its direction. -/
theorem edgeRequest_eq (level : Bool) (l : Line) : l.edgeRequest level =
    if (if level then l.rtsr else l.ftsr) = true then (if l.imr then some true else none)
    else none := by
  unfold edgeRequest
  generalize (if level then l.rtsr else l.ftsr) = e
  cases e <;> cases l.imr <;> rfl

/-- An edge only asks to set. -/
theorem eq_of_edgeRequest {level b : Bool} {l : Line} (h : l.edgeRequest level = some b) :
    b = true := by
  rw [edgeRequest_eq] at h
  split_ifs at h <;> exact (Option.some.inj h).symm

end Line

/-- The body at line `i` makes the request `r` and otherwise does `f` to the line. -/
abbrev Acts (f : ℕ → Line → Line) (r : ℕ → Line → Option Bool) (i : ℕ)
    (s t : Stm32Exti) : Prop :=
  ActsAt Stm32Exti.line Stm32Exti.irq f (fun i l => l.drives i (r i l))
    (fun i l => l.Allowed i (r i l)) i s t

variable {s t : Stm32Exti} {i : ℕ} {b : Bool}

/-- `stm32_exti_change_EXTI_PR_bit` makes its request. -/
theorem changePRBit_acts (h : changePRBit s i b = .ok t) :
    i < 20 ∧ Acts (fun _ l => l.apply (some b)) (fun _ _ => some b) i s t := by
  unfold changePRBit at h
  obtain ⟨_, hi, h⟩ := bind_eq_ok.1 h
  have hlt : i < 20 := of_decide_eq_true (assert_eq_ok.1 hi)
  refine ⟨hlt, ?_⟩
  by_cases hb : b = s.PR.getLsbD i
  · rw [if_neg (by simpa using hb), pure_eq_ok] at h
    subst h
    refine ⟨fun j => ?_, by simp [Line.drives, Stm32Exti.line, hb], fun b' hb' hne => ?_⟩
    · split_ifs with hj
      · subst hj
        ext <;> simp [Line.apply, Stm32Exti.line, hb]
      · rfl
    · exact absurd ((Option.some.inj hb').symm.trans hb).symm hne
  · rw [if_pos (by simpa using hb)] at h
    dsimp only at h
    cases hn : irqOf i with
    | none => rw [hn] at h; exact absurd h throw_ne_ok
    | some n =>
      rw [hn] at h
      dsimp only at h
      rw [pure_eq_ok] at h
      have hpr : s.PR.getLsbD i = !b := by cases b <;> simpa using hb
      have hirq : t.irq = s.irq ++ [(n, b)] := by
        rw [← h]
        cases b <;> rfl
      have hPR : t.PR = deposit32 s.PR i 1 (ofBit b) := by
        rw [← h]
        cases b <;> rfl
      have hSW : t.SWIER = if b then s.SWIER else s.SWIER &&& ~~~BIT i := by
        rw [← h]
        cases b <;> rfl
      have hrest : t.IMR = s.IMR ∧ t.RTSR = s.RTSR ∧ t.FTSR = s.FTSR := by
        rw [← h]
        cases b <;> exact ⟨rfl, rfl, rfl⟩
      refine ⟨fun j => ?_, ?_, fun _ _ _ => by rw [hn]; rfl⟩
      · obtain ⟨hI, hR, hF⟩ := hrest
        have hpr' := getLsbD_deposit32_one s.PR (by omega : i < 32) b j
        have hsw' := getLsbD_and_not_bit s.SWIER i j
        unfold Stm32Exti.line
        rw [hI, hR, hF, hPR, hSW, hpr']
        by_cases hj : j = i
        · subst hj
          cases b <;> simp_all [Line.apply, BIT]
        · cases b <;> simp_all [BIT]
      · have hl : (s.line i).pr = !b := hpr
        rw [hirq, Line.drives, hl, if_neg (by cases b <;> decide), hn]
        rfl

/-- Only what a body does to its own line matters. -/
theorem Acts.congr {f f' : ℕ → Line → Line} {r r' : ℕ → Line → Option Bool}
    (h : Acts f r i s t)
    (hf : f' i (s.line i) = f i (s.line i)) (hr : r' i (s.line i) = r i (s.line i)) :
    Acts f' r' i s t := by
  refine ⟨fun j => ?_, ?_, ?_⟩
  · rw [hf]
    exact h.view_eq j
  · rw [hr]
    exact h.log_eq
  · rw [hr]
    exact h.cond

/-- A body that does nothing. -/
theorem Acts.nothing {f : ℕ → Line → Line} {r : ℕ → Line → Option Bool}
    (hf : f i (s.line i) = s.line i) (hr : r i (s.line i) = none) : Acts f r i s s := by
  refine ⟨fun j => ?_, ?_, fun b hb => ?_⟩
  · split_ifs with hj
    · rw [hj, hf]
    · rfl
  · rw [hr]
    simp [Line.drives]
  · rw [hr] at hb
    cases hb

/-- The mask of a line, as the code tests it. -/
theorem line_imr (s : Stm32Exti) (i : ℕ) : (s.line i).imr = true ↔ s.IMR &&& BIT i ≠ 0#32 :=
  (and_bit_ne_zero s.IMR i).symm

/-- `stm32_exti_trigger` asks to set the pending bit of an unmasked line. -/
theorem trigger_acts (h : trigger s i = .ok t) :
    Acts (fun _ l => l.apply (if l.imr then some true else none))
      (fun _ l => if l.imr then some true else none) i s t := by
  unfold trigger at h
  by_cases hm : s.IMR &&& BIT i ≠ 0#32
  · have himr := (line_imr s i).2 hm
    rw [if_pos hm] at h
    exact (changePRBit_acts h).2.congr (by rw [if_pos himr]) (by rw [if_pos himr])
  · have himr : ¬(s.line i).imr = true := mt (line_imr s i).1 hm
    rw [if_neg hm, pure_eq_ok] at h
    subst h
    exact .nothing (by rw [if_neg himr]; rfl) (by rw [if_neg himr])

/-- An edge on a GPIO pin. -/
theorem gpioInHandler_acts {level : Bool} (h : gpioInHandler s i level = .ok t) :
    i < 16 ∧ Acts (fun _ l => l.apply (l.edgeRequest level)) (fun _ l => l.edgeRequest level)
      i s t := by
  unfold gpioInHandler at h
  obtain ⟨_, hi, h⟩ := bind_eq_ok.1 h
  refine ⟨of_decide_eq_true (assert_eq_ok.1 hi), ?_⟩
  have hedge : ((level = true ∧ s.RTSR &&& BIT i ≠ 0#32) ∨
      (¬level = true ∧ s.FTSR &&& BIT i ≠ 0#32)) ↔
      (if level then (s.line i).rtsr else (s.line i).ftsr) = true := by
    have hr : s.RTSR &&& BIT i ≠ 0#32 ↔ s.RTSR.getLsbD i = true := and_bit_ne_zero s.RTSR i
    have hf : s.FTSR &&& BIT i ≠ 0#32 ↔ s.FTSR.getLsbD i = true := and_bit_ne_zero s.FTSR i
    rw [hr, hf]
    cases level <;> simp [Stm32Exti.line]
  have hreq := (s.line i).edgeRequest_eq level
  split_ifs at h with hc
  · have hl := hedge.1 hc
    exact (trigger_acts h).congr (by rw [hreq, if_pos hl]) (by rw [hreq, if_pos hl])
  · have hl := mt hedge.2 hc
    rw [pure_eq_ok] at h
    subst h
    exact .nothing (by rw [hreq, if_neg hl]; rfl) (by rw [hreq, if_neg hl])

/-- Every line below 19 has an output. -/
theorem exists_irqOf (hi : i < 19) : ∃ k, irqOf i = some k := by
  unfold irqOf
  split_ifs
  all_goals first
    | exact ⟨_, rfl⟩
    | omega

/-- A request for a line below 19 runs into no `assert`. -/
theorem Line.allowed_of_lt (hi : i < 19) (l : Line) (q : Option Bool) : l.Allowed i q := by
  obtain ⟨k, hk⟩ := exists_irqOf hi
  intro _ _ _
  rw [hk]
  rfl

/-- An allowed change of a pending bit does not fault. -/
theorem changePRBit_returns (hi : i < 20) (h : (s.line i).Allowed i (some b)) :
    ∃ t, changePRBit s i b = .ok t := by
  have hassert : assert (i < EXTI_LINE_COUNT) "pos < EXTI_LINE_COUNT" = .ok () :=
    assert_eq_ok.2 (decide_eq_true hi)
  unfold changePRBit
  rw [hassert, ok_bind]
  dsimp only
  rcases eq_or_ne b (s.PR.getLsbD i) with hb | hb
  · rw [if_neg (not_not.2 hb)]
    exact ⟨s, rfl⟩
  · obtain ⟨k, hk⟩ := Option.isSome_iff_exists.1 (h b rfl fun heq => hb heq.symm)
    rw [if_pos hb, hk]
    exact ⟨_, rfl⟩

/-- `stm32_exti_trigger` returns if its request is allowed. -/
theorem trigger_returns (hi : i < 20)
    (h : (s.line i).Allowed i (if (s.line i).imr then some true else none)) :
    ∃ t, trigger s i = .ok t := by
  unfold trigger
  split_ifs with hm
  · rw [if_pos ((line_imr s i).2 hm)] at h
    exact changePRBit_returns hi h
  · exact ⟨s, rfl⟩

/-- An edge on a GPIO pin does not fault. -/
theorem gpioInHandler_returns {level : Bool} (hi : i < 16) :
    ∃ t, gpioInHandler s i level = .ok t := by
  have hassert : assert (i < GPIO_PIN_COUNT) "pin < STM32_GPIO_PIN_COUNT" = .ok () :=
    assert_eq_ok.2 (decide_eq_true hi)
  unfold gpioInHandler
  rw [hassert, ok_bind]
  split_ifs
  · exact trigger_returns (by omega) (Line.allowed_of_lt (by omega) _ _)
  · exact ⟨_, rfl⟩

/-- The trigger selection of a line in its register. -/
theorem line_tsr (s : Stm32Exti) (r : Tsr) (i : ℕ) : (s.tsr r).getLsbD i = (s.line i).tsr r := by
  cases r <;> rfl

/-- A bit of a trigger selection register is written: the other lines stay as they are. -/
theorem line_setTsr (s : Stm32Exti) (r : Tsr) (hi : i < 32) (j : ℕ) :
    (s.setTsr (deposit32 (s.tsr r) i 1 (ofBit b)) r).line j =
      if j = i then (s.line j).setTsr b r else s.line j := by
  have hbit := getLsbD_deposit32_one (s.tsr r) hi b j
  cases r <;> split_ifs at hbit ⊢ with hj <;>
    · unfold Stm32Exti.line Stm32Exti.setTsr
      simp only [hbit]
      rfl

/-- A trigger selection bit is written. -/
theorem updateTSRBit_acts {r : Tsr} (h : updateTSRBit r s i b = .ok t) :
    Acts (fun _ l => (l.apply (l.tsrRequest r b)).setTsr b r)
      (fun _ l => l.tsrRequest r b) i s t := by
  unfold updateTSRBit at h
  obtain ⟨_, hi, h⟩ := bind_eq_ok.1 h
  have hlt : i < 20 := of_decide_eq_true (assert_eq_ok.1 hi)
  obtain ⟨u, hu, h⟩ := bind_eq_ok.1 h
  have hacts :
      Acts (fun _ l => l.apply (l.tsrRequest r b)) (fun _ l => l.tsrRequest r b) i s u := by
    rw [line_tsr] at hu
    unfold Line.tsrRequest
    split_ifs at hu with hc
    · exact (changePRBit_acts hu).2.congr (by rw [if_pos hc]) (by rw [if_pos hc])
    · rw [pure_eq_ok] at hu
      subst hu
      exact .nothing (by rw [if_neg hc]; rfl) (by rw [if_neg hc])
  have hirq : t.irq = u.irq := by
    rw [← pure_eq_ok.1 h]
    cases r <;> rfl
  refine ⟨fun j => ?_, by rw [hirq]; exact hacts.log_eq, hacts.cond⟩
  rw [← pure_eq_ok.1 h, line_setTsr u r (by omega), hacts.view_eq]
  split_ifs <;> rfl

/-- A software interrupt bit is written. -/
theorem writeSWIERBit_acts (hlt : i < 20) (h : writeSWIERBit s i b = .ok t) :
    Acts (fun _ l => { l with swier := l.swier || b }.apply (l.swierRequest b))
      (fun _ l => l.swierRequest b) i s t := by
  unfold writeSWIERBit at h
  have hsw : s.SWIER &&& BIT i = 0#32 ↔ ¬(s.line i).swier = true := by
    rw [← not_iff_not, not_not]
    exact and_bit_ne_zero s.SWIER i
  by_cases hc : b = true ∧ s.SWIER &&& BIT i = 0#32
  · rw [if_pos hc] at h
    obtain ⟨hb, hclear⟩ := hc
    have hsw' : (s.line i).swier = false := Bool.eq_false_iff.2 (hsw.1 hclear)
    set u : Stm32Exti := { s with SWIER := s.SWIER ||| BIT i } with hu
    have hline : ∀ j, u.line j = if j = i then { s.line i with swier := true } else s.line j := by
      intro j
      have hbit : (s.SWIER ||| BIT i).getLsbD j = (s.SWIER.getLsbD j || decide (j = i)) :=
        getLsbD_or_bit s.SWIER (by omega) j
      by_cases hj : j = i
      · subst hj
        ext <;> simp [hu, Stm32Exti.line, hbit]
      · ext <;> simp [hu, Stm32Exti.line, hbit, hj]
    have hreq : (s.line i).swierRequest b = if (u.line i).imr then some true else none := by
      rw [hline, if_pos rfl]
      simp [Line.swierRequest, hb, hsw']
    have hacts := trigger_acts h
    refine ⟨fun j => ?_, ?_, ?_⟩
    · rw [hacts.view_eq, hreq, hline i, if_pos rfl, hline j]
      split_ifs <;> simp [hb]
    · rw [hacts.log_eq]
      dsimp only
      rw [hreq]
      unfold Line.drives
      rw [hline i, if_pos rfl]
    · intro b' hb' hne
      refine hacts.cond b' (hreq.symm.trans hb') ?_
      rw [hline i, if_pos rfl]
      exact hne
  · rw [if_neg hc, pure_eq_ok] at h
    subst h
    have hkeep : ((s.line i).swier || b) = (s.line i).swier := by
      cases b
      · simp
      · have := mt hsw.2 (fun h => hc ⟨rfl, h⟩)
        simpa using this
    have hreq : (s.line i).swierRequest b = none := by
      unfold Line.swierRequest
      cases b
      · rfl
      · have := mt hsw.2 (fun h => hc ⟨rfl, h⟩)
        simp_all
    exact .nothing (by rw [hreq, hkeep]; rfl) hreq

/-- A pending bit is written. -/
theorem writePRBit_acts (h : writePRBit s i b = .ok t) :
    Acts (fun _ l => l.apply (l.prRequest b)) (fun _ l => l.prRequest b) i s t := by
  unfold writePRBit at h
  unfold Line.prRequest
  split_ifs at h with hb
  · exact (changePRBit_acts h).2.congr (by rw [if_pos hb]) (by rw [if_pos hb])
  · rw [pure_eq_ok] at h
    subst h
    exact .nothing (by rw [if_neg hb]; rfl) (by rw [if_neg hb])

end Exti
end Especial
