/-
# Writes to the EXTI registers, as words

The loops of `stm32_exti_write` handle one line after the other, through helpers that change up
to three registers.  Since a line looks at its own bits only (`write_line`), a loop is an
operation on whole registers: `writeWord` is what it would be without loops, and `exti_write_word`
says that it is.
-/

import Especial.Exti.Writes

namespace Especial
namespace Exti

open Qemu Stm32 Lib

/-- The bits of the twenty lines. -/
def LINES : BitVec 32 := 0xfffff#32

/-- A trigger selection register is written: a change of a bit clears the pending bit, and a
pending bit that is cleared clears the software event. -/
def writeTsrWord (r : Tsr) (s : Stm32Exti) (v : BitVec 32) : Stm32Exti :=
  let changed := (s.tsr r ^^^ v) &&& LINES
  { s with
    PR := s.PR &&& ~~~changed
    SWIER := s.SWIER &&& ~~~(s.PR &&& changed) }.setTsr (s.tsr r &&& ~~~LINES ||| v &&& LINES) r

/-- `SWIER` is written: the new software events of unmasked lines become pending. -/
def writeSWIERWord (s : Stm32Exti) (v : BitVec 32) : Stm32Exti :=
  { s with
    SWIER := s.SWIER ||| v &&& LINES
    PR := s.PR ||| v &&& LINES &&& ~~~s.SWIER &&& s.IMR }

/-- `PR` is written. -/
def writePRWord (s : Stm32Exti) (v : BitVec 32) : Stm32Exti :=
  { s with
    PR := s.PR &&& ~~~(v &&& LINES)
    SWIER := s.SWIER &&& ~~~(s.PR &&& v &&& LINES) }

/-- The registers after a write. -/
def writeWord (s : Stm32Exti) (offset : ℕ) (v : BitVec 32) : Stm32Exti :=
  match offset with
  | 0x00 => { s with IMR := v }
  | 0x08 => writeTsrWord .rising s v
  | 0x0c => writeTsrWord .falling s v
  | 0x10 => writeSWIERWord s v
  | 0x14 => writePRWord s v
  | _ => s

variable {s t : Stm32Exti} {v : BitVec 32} {i : ℕ}

/-! ### A line of the words -/

/-- The mask has the bits below 20. -/
theorem getLsbD_LINES (i : ℕ) : LINES.getLsbD i = decide (i < 20) :=
  getLsbD_lowMask (by decide : 20 ≤ 32) i

/-- The complement of a word, bit by bit. -/
theorem getLsbD_not_of_lt (x : BitVec 32) (hi : i < 32) : (~~~x).getLsbD i = !x.getLsbD i := by
  rw [BitVec.getLsbD_not, decide_eq_true hi, Bool.true_and]

/-- The word of a trigger selection register, line by line. -/
theorem writeTsrWord_line (r : Tsr) (hi : i < 32) : (writeTsrWord r s v).line i =
    if i < 20 then ((s.line i).apply ((s.line i).tsrRequest r (v.getLsbD i))).setTsr (v.getLsbD i) r
    else s.line i := by
  cases r
  all_goals
    simp only [writeTsrWord, Stm32Exti.setTsr, Stm32Exti.tsr, Stm32Exti.line, BitVec.getLsbD_and,
      BitVec.getLsbD_or, BitVec.getLsbD_xor, getLsbD_not_of_lt _ hi, getLsbD_LINES]
    generalize s.RTSR.getLsbD i = rtsr, s.FTSR.getLsbD i = ftsr, s.SWIER.getLsbD i = swier,
      s.PR.getLsbD i = pr, v.getLsbD i = b
    split_ifs with h20
    · rw [decide_eq_true h20]
      cases rtsr <;> cases ftsr <;> cases swier <;> cases pr <;> cases b <;> rfl
    · rw [decide_eq_false h20]
      simp

/-- The word of `SWIER`, line by line. -/
theorem writeSWIERWord_line (hi : i < 32) : (writeSWIERWord s v).line i =
    if i < 20 then { s.line i with swier := (s.line i).swier || v.getLsbD i }.apply
      ((s.line i).swierRequest (v.getLsbD i))
    else s.line i := by
  simp only [writeSWIERWord, Stm32Exti.line, BitVec.getLsbD_and, BitVec.getLsbD_or,
    getLsbD_not_of_lt _ hi, getLsbD_LINES]
  generalize s.IMR.getLsbD i = imr, s.SWIER.getLsbD i = swier, s.PR.getLsbD i = pr,
    v.getLsbD i = b
  split_ifs with h20
  · rw [decide_eq_true h20]
    cases imr <;> cases swier <;> cases pr <;> cases b <;> rfl
  · rw [decide_eq_false h20]
    simp

/-- The word of `PR`, line by line. -/
theorem writePRWord_line (hi : i < 32) : (writePRWord s v).line i =
    if i < 20 then (s.line i).apply ((s.line i).prRequest (v.getLsbD i)) else s.line i := by
  simp only [writePRWord, Stm32Exti.line, BitVec.getLsbD_and, getLsbD_not_of_lt _ hi, getLsbD_LINES]
  generalize s.SWIER.getLsbD i = swier, s.PR.getLsbD i = pr, v.getLsbD i = b
  split_ifs with h20
  · rw [decide_eq_true h20]
    cases swier <;> cases pr <;> cases b <;> rfl
  · rw [decide_eq_false h20]
    simp

/-- The word operations act on a line as the loops do. -/
theorem writeWord_line (s : Stm32Exti) (offset : ℕ) (v : BitVec 32) (hi : i < 32) :
    (writeWord s offset v).line i = (s.line i).write i offset (v.getLsbD i) := by
  unfold writeWord
  split
  · rfl
  · exact writeTsrWord_line .rising hi
  · exact writeTsrWord_line .falling hi
  · exact writeSWIERWord_line hi
  · exact writePRWord_line hi
  · next h₀ h₁ h₂ h₃ h₄ =>
      rw [Line.write.eq_6 i (s.line i) offset (v.getLsbD i) h₀ h₁ h₂ h₃ h₄]

/-- The registers are their lines. -/
theorem eq_of_lines (h : ∀ i < 32, s.line i = t.line i) : s = { t with irq := s.irq } := by
  have hword : ∀ (f : Line → Bool) {x y : BitVec 32},
      (∀ i, f (s.line i) = x.getLsbD i) → (∀ i, f (t.line i) = y.getLsbD i) → x = y := by
    intro f x y hx hy
    apply BitVec.eq_of_getLsbD_eq
    intro i hi
    rw [← hx, ← hy, h i hi]
  have hIMR : s.IMR = t.IMR := hword Line.imr (fun _ => rfl) fun _ => rfl
  have hRTSR : s.RTSR = t.RTSR := hword Line.rtsr (fun _ => rfl) fun _ => rfl
  have hFTSR : s.FTSR = t.FTSR := hword Line.ftsr (fun _ => rfl) fun _ => rfl
  have hSWIER : s.SWIER = t.SWIER := hword Line.swier (fun _ => rfl) fun _ => rfl
  have hPR : s.PR = t.PR := hword Line.pr (fun _ => rfl) fun _ => rfl
  rw [← hIMR, ← hRTSR, ← hFTSR, ← hSWIER, ← hPR]

/-- **The loops are word operations.**  A write that returns leaves in the five registers, for
every state and every value, what the operation on words does. -/
theorem exti_write_word (s t : Stm32Exti) (offset : ℕ) (v : BitVec 32)
    (h : write s offset v = .ok t) : t = { writeWord s offset v with irq := t.irq } := by
  refine eq_of_lines fun i hi => ?_
  rw [write_line h, writeWord_line s offset v hi]

/-- Lines 0 to 2 have software events, of which 0 and 2 are pending; the trigger selection of lines
0 and 1 changes. -/
theorem exti_write_word_rising : ∃ s t : Stm32Exti, write s 0x08 0x3#32 = .ok t ∧
    s.PR = 0x5#32 ∧ s.SWIER = 0x7#32 ∧ t.RTSR = 0x3#32 ∧ t.PR = 0x4#32 ∧
    t.SWIER = 0x6#32 := by
  have h : write ⟨0x7#32, 0x0#32, 0x0#32, 0x7#32, 0x5#32, []⟩ 0x08 0x3#32 =
    .ok ⟨0x7#32, 0x3#32, 0x0#32, 0x6#32, 0x4#32, [(0, false)]⟩ := rfl
  have hword := exti_write_word _ _ _ _ h
  exact ⟨_, _, h, rfl, rfl, congrArg Stm32Exti.RTSR hword, congrArg Stm32Exti.PR hword,
    congrArg Stm32Exti.SWIER hword⟩

end Exti
end Especial
