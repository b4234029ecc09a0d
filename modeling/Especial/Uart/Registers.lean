/-
# The control registers of a USART

`BRR`, `CR1`, `CR2` and `CR3` are read and written in halves and words: a write puts the
new bytes over the old ones (`deposit64`), masks the result and stores it, and a write to
`CR1` also decodes six of its bits into flags of their own.  Nothing else touches the four
registers and the flags (`Stm32Uart.file`), so after any sequence of events they are a
function of the writes alone (`step_file`).

The mask of every register is in its low half.  So a write of a word does what the write of
its low half does, and the write of the high half that follows stores the register over
itself.
-/

import Especial.Lib.Run
import Especial.Uart.RegisterFile

namespace Especial
namespace Uart

open Qemu Stm32 Lib

variable {env : Env} {s s' : Stm32Uart} {v : BitVec 32}

/-! ### Every event -/

/-- The event writes this control register. -/
def Event.Writes (r : Ctrl) : Event → Prop
  | .write offset _ _ => offset / 4 * 4 = r.offset
  | _ => False

/-- The flags stay decoded in the check of the clock. -/
theorem Decoded.checkPeriphClk (h : Decoded s) (env : Env) : Decoded (checkPeriphClk env s) := by
  obtain ⟨w, hw⟩ := checkPeriphClk_frame env s
  obtain ⟨h₁, h₂, h₃, h₄, h₅, h₆⟩ := h
  rw [hw]
  exact ⟨h₁, h₂, h₃, h₄, h₅, h₆⟩

/-- All control registers, in the check of the clock. -/
theorem checkPeriphClk_ctrl_eq (env : Env) (s : Stm32Uart) : (checkPeriphClk env s).ctrl = s.ctrl :=
  funext (checkPeriphClk_ctrl env s)

/-- **A write of a control register**: the merged value, and its flags. -/
theorem write_file {r : Ctrl} {offset size : ℕ} {value : BitVec 64} (hdec : Decoded s)
    (hport : s.periph ≠ .uart5) (ho : offset / 4 * 4 = r.offset)
    (h : write env s offset value size = .ok s') :
    s'.file = .ofRegs (setReg s.ctrl r (merge (s.ctrl r) offset value size)) := by
  rw [write_ctrl_eq ho hport] at h
  rw [ctrlWrite_file (hdec.checkPeriphClk env) h, checkPeriphClk_ctrl_eq]

/-- After a reset all control registers are `0`. -/
theorem reset_file (h : reset env s = .ok s') : s'.file = .ofRegs fun _ => 0#32 := by
  unfold reset at h
  obtain ⟨s₁, h₁, h⟩ := bind_eq_ok.1 h
  obtain ⟨s₂, h₂, h⟩ := bind_eq_ok.1 h
  obtain rfl := pure_eq_ok.1 h
  obtain ⟨bps, ns, rfl⟩ := baudUpdate_frame (s := { s with
    TXE := true, TC := true, RXNE := false, ORE := false, BRR := 0#32 &&& 0xffff#32 }) h₁
  rw [file_of_config (updateIrq_config _), cr1Write_frame h₂, updateIrq_eq]
  unfold Stm32Uart.file File.ofRegs
  congr 1
  funext r
  cases r <;> rfl

/-- **What an event does to the register file**: it writes one register, resets all, or
leaves them.  The debug port takes no writes. -/
theorem step_file {e : Event} (hdec : Decoded s) (h : step env s e = .ok s') :
    (∃ r offset value size, s.periph ≠ .uart5 ∧ e = .write offset value size ∧
      offset / 4 * 4 = Ctrl.offset r ∧
      s'.file = .ofRegs (setReg s.ctrl r (merge (s.ctrl r) offset value size))) ∨
    (e = .reset ∧ s'.file = .ofRegs fun _ => 0#32) ∨
    (e ≠ .reset ∧ (s.periph ≠ .uart5 → ∀ r, ¬e.Writes r) ∧ s'.file = s.file) := by
  cases e with
  | read offset size =>
    obtain ⟨⟨_, s₁⟩, hr, h⟩ := bind_eq_ok.1 h
    obtain rfl := pure_eq_ok.1 h
    exact Or.inr (Or.inr ⟨Event.noConfusion, fun _ _ => id, file_of_config (read_config hr)⟩)
  | write offset value size =>
    by_cases hport : s.periph = .uart5
    · refine Or.inr (Or.inr ⟨Event.noConfusion, fun hne => absurd hport hne, ?_⟩)
      change write env s offset value size = .ok s' at h
      rw [write, if_pos hport] at h
      obtain rfl := pure_eq_ok.1 h
      rfl
    · by_cases ho : ∃ r : Ctrl, offset / 4 * 4 = r.offset
      · obtain ⟨r, ho⟩ := ho
        exact Or.inl ⟨r, offset, value, size, hport, rfl, ho, write_file hdec hport ho h⟩
      · have ho' : ∀ r : Ctrl, offset / 4 * 4 ≠ r.offset := fun r hr => ho ⟨r, hr⟩
        exact Or.inr (Or.inr ⟨Event.noConfusion, fun _ => ho',
          file_of_config (write_config h hport ho')⟩)
  | receive ch =>
    obtain rfl := pure_eq_ok.1 h
    exact Or.inr
      (Or.inr ⟨Event.noConfusion, fun _ _ => id, file_of_config (receive_config env s ch)⟩)
  | rxTimer =>
    obtain rfl := pure_eq_ok.1 h
    exact Or.inr (Or.inr ⟨Event.noConfusion, fun _ _ => id, rfl⟩)
  | txTimer =>
    obtain rfl := pure_eq_ok.1 h
    exact Or.inr (Or.inr ⟨Event.noConfusion, fun _ _ => id,
      file_of_config (txComplete_config env { s with txTimer := none })⟩)
  | clkIrq level =>
    refine Or.inr (Or.inr ⟨Event.noConfusion, fun _ _ => id, ?_⟩)
    change clkIrqHandler env s level = .ok s' at h
    unfold clkIrqHandler at h
    split_ifs at h
    · obtain ⟨_, _, rfl⟩ := baudUpdate_frame h
      rfl
    · obtain rfl := pure_eq_ok.1 h
      rfl
  | reset => exact Or.inr (Or.inl ⟨rfl, reset_file h⟩)

/-- The flags stay the bits of `CR1`. -/
theorem Decoded.step {e : Event} (hdec : Decoded s) (h : step env s e = .ok s') : Decoded s' := by
  rcases step_file hdec h with ⟨_, _, _, _, -, -, -, hfile⟩ | ⟨-, hfile⟩ | ⟨-, -, hfile⟩
  · exact (of_file_eq hfile).2
  · exact (of_file_eq hfile).2
  · exact (of_file_eq (hfile.trans hdec.file_eq)).2

/-- After a reset the flags are decoded. -/
theorem reset_decoded (h : reset env s = .ok s') : Decoded s' := (of_file_eq (reset_file h)).2

/-- A USART with its registers at `0` is off. -/
theorem UE_of_file_eq_zero (h : s.file = .ofRegs fun _ => 0#32) : s.UE = false := by
  have hUE : s.UE = (0#32).getLsbD 13 := congrArg File.UE h
  rw [hUE, BitVec.getLsbD_zero]

/-- **The debug port is never enabled** after a reset. -/
theorem ne_uart5_of_UE {s₀ s₁ : Stm32Uart} {l : List (Env × Event)}
    (hreset : reset env s₀ = .ok s₁)
    (h : Run Step s₁ l s) (hUE : s.UE = true) : s.periph ≠ .uart5 := by
  have hinv : Decoded s ∧ (s.periph = .uart5 → s.UE = false) := by
    refine h.invariant (P := fun s => Decoded s ∧ (s.periph = .uart5 → s.UE = false)) ?_
      ⟨reset_decoded hreset, fun _ => UE_of_file_eq_zero (reset_file hreset)⟩
    rintro s ⟨env, e⟩ s' ⟨hdec, hoff⟩ ⟨-, hs⟩
    refine ⟨hdec.step hs, fun hport => ?_⟩
    rw [(step_effect hs).periph] at hport
    rcases step_file hdec hs with ⟨_, _, _, _, hne, -⟩ | ⟨-, hfile⟩ | ⟨-, -, hfile⟩
    · exact absurd hport hne
    · exact UE_of_file_eq_zero hfile
    · exact (congrArg File.UE hfile).trans (hoff hport)
  intro hport
  exact absurd (hUE.symm.trans (hinv.2 hport)) (by decide)

/-! ### The most recently written bits -/

/-- The value that an event gives to a bit of a register, if it writes it. -/
def Event.bit (r : Ctrl) (i : ℕ) : Event → Option Bool
  | .write offset value size =>
    if offset / 4 * 4 = r.offset ∧ offset % 4 * 8 ≤ i ∧ i < offset % 4 * 8 + size * 8 then
      some (value.getLsbD (i - offset % 4 * 8))
    else none
  | .reset => some false
  | _ => none

/-- The bit as it was most recently written. -/
def lastBit (r : Ctrl) (i : ℕ) (l : List (Env × Event)) : Bool :=
  l.foldl (fun b x => (x.2.bit r i).getD b) false

/-- One more event. -/
theorem lastBit_snoc (r : Ctrl) (i : ℕ) (l : List (Env × Event)) (x : Env × Event) :
    lastBit r i (l ++ [x]) = (x.2.bit r i).getD (lastBit r i l) := by
  rw [lastBit, List.foldl_append]
  rfl

/-- What does not write a register gives its bits no value. -/
theorem Event.bit_eq_none {e : Event} {r : Ctrl} (he : e ≠ .reset) (hw : ¬e.Writes r) (i : ℕ) :
    e.bit r i = none := by
  cases e with
  | write offset value size => exact if_neg fun h => hw h.1
  | reset => exact absurd rfl he
  | _ => rfl

/-- Each register has its own offset. -/
theorem Ctrl.offset_inj {r r' : Ctrl} (h : r.offset = r'.offset) : r = r' := by
  cases r <;> cases r' <;> first | rfl | cases h

/-- The registers hold the most recently written bits that are implemented. -/
structure Holds (l : List (Env × Event)) (s : Stm32Uart) : Prop where
  periph : s.periph ≠ .uart5
  decoded : Decoded s
  bits : ∀ r i, i < 32 → (s.ctrl r).getLsbD i = (r.mask.getLsbD i && lastBit r i l)

/-- **One step.** -/
theorem Holds.step {l : List (Env × Event)} {x : Env × Event} (h : Holds l s) (hs : Step s x s') :
    Holds (l ++ [x]) s' := by
  obtain ⟨env, e⟩ := x
  obtain ⟨hen, hs⟩ := hs
  have hperiph : s'.periph ≠ .uart5 := by
    rw [(step_effect hs).periph]
    exact h.periph
  rcases step_file h.decoded hs with ⟨r, offset, value, size, -, rfl, ho, hfile⟩ |
    ⟨rfl, hfile⟩ | ⟨he, hw, hfile⟩
  · obtain ⟨hctrl, hdec⟩ := of_file_eq hfile
    refine ⟨hperiph, hdec, fun r' i hi => ?_⟩
    rw [hctrl, setReg, lastBit_snoc]
    rcases eq_or_ne r' r with rfl | hne
    · have hsize : size * 8 ≤ 64 := by
        rcases hen.1 with rfl | rfl | rfl <;> decide
      rw [Function.update_self, BitVec.getLsbD_and, getLsbD_merge hi hsize, Event.bit,
        Bool.and_comm]
      simp only [ho, true_and]
      split_ifs
      · rfl
      · rw [h.bits r' i hi]
        simp
    · have hwrites : ¬(Event.write offset value size).Writes r' := by
        intro hw
        change offset / 4 * 4 = r'.offset at hw
        exact hne (Ctrl.offset_inj (hw.symm.trans ho))
      rw [Function.update_of_ne hne, Event.bit_eq_none Event.noConfusion hwrites]
      exact h.bits r' i hi
  · obtain ⟨hctrl, hdec⟩ := of_file_eq hfile
    refine ⟨hperiph, hdec, fun r' i hi => ?_⟩
    rw [hctrl, lastBit_snoc]
    simp [Event.bit]
  · obtain ⟨hctrl, hdec⟩ := of_file_eq (hfile.trans h.decoded.file_eq)
    refine ⟨hperiph, hdec, fun r' i hi => ?_⟩
    rw [hctrl, lastBit_snoc, Event.bit_eq_none he (hw h.periph r')]
    exact h.bits r' i hi

/-- A bit of a register: implemented, and as last written. -/
theorem Holds.bit {l : List (Env × Event)} (h : Holds l s) (r : Ctrl) (i : ℕ) :
    (s.ctrl r).getLsbD i = (r.mask.getLsbD i && lastBit r i l) := by
  by_cases hi : i < 32
  · exact h.bits r i hi
  · rw [BitVec.getLsbD_of_ge _ _ (by omega), BitVec.getLsbD_of_ge _ _ (by omega), Bool.false_and]

/-- **What is read** from a control register. -/
theorem Holds.read {l : List (Env × Event)} (h : Holds l s) {r : Ctrl} {offset size : ℕ}
    (ho : offset / 4 * 4 = r.offset) (hsize : size = 2 ∨ size = 4) :
    ∃ v, read s offset size = .ok (v, s) ∧ ∀ i, v.getLsbD i = (decide (i < size * 8) &&
      (r.mask.getLsbD (offset % 4 * 8 + i) && lastBit r (offset % 4 * 8 + i) l)) := by
  refine ⟨_, read_ctrl_eq ho, fun i => ?_⟩
  rw [extract64, getLsbD_extractField (by omega), BitVec.getLsbD_setWidth, h.bit, Bool.and_comm]
  by_cases hi : i < size * 8
  · have h64 : offset % 4 * 8 + i < 64 := by omega
    rw [decide_eq_true h64, Bool.true_and]
  · rw [decide_eq_false hi, Bool.false_and, Bool.false_and]

/-! ### Words and halves -/

/-- The upper half of a register is not implemented. -/
theorem Ctrl.mask_high (r : Ctrl) {i : ℕ} (hi : 16 ≤ i) : r.mask.getLsbD i = false := by
  have hlt : r.mask.toNat < 2 ^ 16 := by cases r <;> decide
  exact Nat.testBit_lt_two_pow (hlt.trans_le (Nat.pow_le_pow_right (by decide) hi))

/-- The registers and their halves are aligned. -/
theorem Ctrl.offset_mod (r : Ctrl) : r.offset % 4 = 0 ∧ (r.offset + 2) % 4 = 2 ∧
    r.offset / 4 * 4 = r.offset ∧ (r.offset + 2) / 4 * 4 = r.offset := by
  cases r <;> decide

/-- The write of a word and the write of its low half give the register the same value. -/
theorem merge_low_and_mask (r : Ctrl) (old : BitVec 32) (value : BitVec 64) :
    merge old r.offset value 2 &&& r.mask = merge old r.offset value 4 &&& r.mask := by
  apply BitVec.eq_of_getLsbD_eq
  intro i hi
  rw [BitVec.getLsbD_and, BitVec.getLsbD_and, getLsbD_merge hi (by decide),
    getLsbD_merge hi (by decide), r.offset_mod.1]
  by_cases hlow : i < 16
  · rw [if_pos (by omega), if_pos (by omega)]
  · rw [r.mask_high (by omega), Bool.and_false, Bool.and_false]

/-- The write of a high half stores the register over itself. -/
theorem merge_high_and_mask (r : Ctrl) (old : BitVec 32) (value : BitVec 64) :
    merge old (r.offset + 2) value 2 &&& r.mask = old &&& r.mask := by
  apply BitVec.eq_of_getLsbD_eq
  intro i hi
  rw [BitVec.getLsbD_and, BitVec.getLsbD_and, getLsbD_merge hi (by decide), r.offset_mod.2.1]
  by_cases hlow : i < 16
  · rw [if_neg (by omega)]
  · rw [r.mask_high (by omega), Bool.and_false, Bool.and_false]

/-- Masking twice. -/
theorem and_mask_idem (r : Ctrl) (v : BitVec 32) : v &&& r.mask &&& r.mask = v &&& r.mask := by
  rw [BitVec.and_assoc, BitVec.and_self]

/-- A write looks at the implemented bits only. -/
theorem ctrlWrite_and_mask (env : Env) (s : Stm32Uart) (r : Ctrl) (v : BitVec 32) :
    ctrlWrite env s r (v &&& r.mask) = ctrlWrite env s r v := by
  have hidem := and_mask_idem r v
  cases r with
  | BRR =>
    change brrWrite env s (v &&& 0xffff#32) = brrWrite env s v
    unfold brrWrite
    rw [show v &&& 0xffff#32 &&& 0xffff#32 = v &&& 0xffff#32 from hidem]
  | CR1 =>
    change cr1Write env s (v &&& 0x3fff#32) = cr1Write env s v
    unfold cr1Write
    rw [show v &&& 0x3fff#32 &&& 0x3fff#32 = v &&& 0x3fff#32 from hidem,
      getLsbD_and_3fff v (by decide), getLsbD_and_3fff v (by decide),
      getLsbD_and_3fff v (by decide),
      getLsbD_and_3fff v (by decide), getLsbD_and_3fff v (by decide),
      getLsbD_and_3fff v (by decide)]
  | CR2 => exact congrArg (fun x => Except.ok { s with CR2 := x }) hidem
  | CR3 => exact congrArg (fun x => Except.ok { s with CR3 := x }) hidem

/-- The check of the mapping looks at the USART and its board only. -/
theorem checkMapping_congr {t : Stm32Uart} (hUE : t.UE = s.UE) (hperiph : t.periph = s.periph)
    (hboard : t.afioBoardMap = s.afioBoardMap) : checkMapping env t = checkMapping env s := by
  unfold checkMapping
  rw [hUE, hperiph, hboard]

/-- A write to `CR1` that returns, returns on every USART like this one. -/
theorem cr1Write_again {t : Stm32Uart} (hperiph : t.periph = s.periph)
    (hboard : t.afioBoardMap = s.afioBoardMap) (h : cr1Write env s v = .ok s') :
    ∃ t', cr1Write env t v = .ok t' := by
  unfold cr1Write at h ⊢
  obtain ⟨_, hok, -⟩ := bind_eq_ok.1 h
  have hmap : checkMapping env { t with UE := v.getLsbD 13 } =
      checkMapping env { s with UE := v.getLsbD 13 } := checkMapping_congr rfl hperiph hboard
  dsimp only
  rw [hmap, hok]
  exact ⟨_, rfl⟩

/-- Whether a write returns depends on the value, and not on the registers before. -/
theorem ctrlWrite_again {r : Ctrl} {t : Stm32Uart} (hperiph : t.periph = s.periph)
    (hboard : t.afioBoardMap = s.afioBoardMap) (h : ctrlWrite env s r v = .ok s') :
    ∃ t', ctrlWrite env t r v = .ok t' := by
  cases r with
  | BRR =>
    change brrWrite env s v = .ok s' at h
    change ∃ t', brrWrite env t v = .ok t'
    unfold brrWrite baudUpdate at h ⊢
    dsimp only at h ⊢
    split_ifs at h ⊢ with hz hdiv
    · exact ⟨_, rfl⟩
    · exact ⟨_, rfl⟩
  | CR1 => exact cr1Write_again hperiph hboard h
  | CR2 => exact ⟨_, rfl⟩
  | CR3 => exact ⟨_, rfl⟩

/-- A write of a control register keeps the board. -/
theorem ctrlWrite_board {r : Ctrl} (h : ctrlWrite env s r v = .ok s') :
    s'.periph = s.periph ∧ s'.afioBoardMap = s.afioBoardMap := by
  cases r with
  | BRR =>
    obtain ⟨_, _, _, rfl⟩ := brrWrite_frame h
    exact ⟨rfl, rfl⟩
  | CR1 =>
    rw [cr1Write_frame h, updateIrq_eq]
    exact ⟨rfl, rfl⟩
  | CR2 | CR3 =>
    obtain rfl := pure_eq_ok.1 h
    exact ⟨rfl, rfl⟩

/-- So does the check of the clock. -/
theorem checkPeriphClk_board (env : Env) (s : Stm32Uart) :
    (checkPeriphClk env s).periph = s.periph ∧
      (checkPeriphClk env s).afioBoardMap = s.afioBoardMap := by
  obtain ⟨w, hw⟩ := checkPeriphClk_frame env s
  rw [hw]
  exact ⟨rfl, rfl⟩

/-- The write of the low half is the write of the word. -/
theorem write_low_eq (hport : s.periph ≠ .uart5) (r : Ctrl) (value : BitVec 64) :
    write env s r.offset value 2 = write env s r.offset value 4 := by
  have ho := r.offset_mod.2.2.1
  rw [write_ctrl_eq ho hport, write_ctrl_eq ho hport, ← ctrlWrite_and_mask, merge_low_and_mask,
    ctrlWrite_and_mask]

/-- The register after a write of it. -/
theorem write_ctrl {r : Ctrl} {offset size : ℕ} {value : BitVec 64} (hdec : Decoded s)
    (hport : s.periph ≠ .uart5) (ho : offset / 4 * 4 = r.offset)
    (h : write env s offset value size = .ok s') :
    s'.ctrl = setReg s.ctrl r (merge (s.ctrl r) offset value size) :=
  (of_file_eq (write_file hdec hport ho h)).1

/-- The write of a high half leaves the register file. -/
theorem write_high_file {r : Ctrl} {value : BitVec 64} (hdec : Decoded s)
    (hport : s.periph ≠ .uart5)
    (hmask : s.ctrl r &&& r.mask = s.ctrl r) (h : write env s (r.offset + 2) value 2 = .ok s') :
    s'.file = s.file := by
  rw [write_file hdec hport r.offset_mod.2.2.2 h, setReg, merge_high_and_mask, hmask,
    Function.update_eq_self, hdec.file_eq]

/-- And it returns after a write of the register that did. -/
theorem write_high_returns {r : Ctrl} {value value' : BitVec 64} (hdec : Decoded s)
    (hport : s.periph ≠ .uart5) (h : write env s r.offset value 4 = .ok s') :
    ∃ s₂, write env s' (r.offset + 2) value' 2 = .ok s₂ := by
  have ho := r.offset_mod.2.2.1
  have hctrl : s'.ctrl r = merge (s.ctrl r) r.offset value 4 &&& r.mask := by
    rw [write_ctrl hdec hport ho h, setReg, Function.update_self]
  rw [write_ctrl_eq ho hport, ← ctrlWrite_and_mask] at h
  obtain ⟨hperiph, hboard⟩ := ctrlWrite_board h
  have hport' : s'.periph ≠ .uart5 := by
    rw [hperiph, (checkPeriphClk_board env s).1]
    exact hport
  rw [write_ctrl_eq r.offset_mod.2.2.2 hport', ← ctrlWrite_and_mask, merge_high_and_mask, hctrl,
    and_mask_idem]
  exact ctrlWrite_again ((checkPeriphClk_board env s').1.trans hperiph)
    ((checkPeriphClk_board env s').2.trans hboard) h

/-- **The control registers.**  In every state of a USART other than UART5, after any
sequence of events:
a read of a half or of a word of a control register returns its most recently written bits,
as far as they are implemented;
a write of a word does to the register file what the writes of its low and of its high half
do, one after the other;
a write changes no other control register;
and the flags are the bits of `CR1`. -/
theorem uart_registers (periph : Periph) (connected : Bool) (afioBoardMap : BitVec 32)
    (hport : periph ≠ .uart5) (l : List (Env × Event)) (s : Stm32Uart)
    (h : Run Step (.alloc periph connected afioBoardMap) l s) :
    (∀ (r : Ctrl) (offset size : ℕ), offset / 4 * 4 = r.offset → size = 2 ∨ size = 4 →
      ∃ v, read s offset size = .ok (v, s) ∧ ∀ i, v.getLsbD i = (decide (i < size * 8) &&
        (r.mask.getLsbD (offset % 4 * 8 + i) && lastBit r (offset % 4 * 8 + i) l))) ∧
    (∀ (r : Ctrl) (value : BitVec 64) (env : Env) (s' : Stm32Uart),
      write env s r.offset value 4 = .ok s' →
      (∃ s₁ s₂, write env s r.offset value 2 = .ok s₁ ∧
        write env s₁ (r.offset + 2) (value >>> 16) 2 = .ok s₂) ∧
      ∀ env₁ env₂ s₁ s₂, write env₁ s r.offset value 2 = .ok s₁ →
        write env₂ s₁ (r.offset + 2) (value >>> 16) 2 = .ok s₂ → s₂.file = s'.file) ∧
    (∀ (env : Env) (offset size : ℕ) (value : BitVec 64) (s' : Stm32Uart) (r : Ctrl),
      write env s offset value size = .ok s' → offset / 4 * 4 ≠ r.offset →
      s'.ctrl r = s.ctrl r) ∧
    Decoded s := by
  have hzero : Decoded (.alloc periph connected afioBoardMap) := by
    constructor <;> exact BitVec.getLsbD_zero.symm
  have hholds : Holds l s := by
    refine h.invariant_hist (P := Holds) (fun _ _ _ _ hh hs => hh.step hs) ⟨hport, hzero, ?_⟩
    intro r i _
    cases r <;> simp [Stm32Uart.ctrl, Stm32Uart.alloc, lastBit]
  have hport' := hholds.periph
  have hdec := hholds.decoded
  refine ⟨fun r offset size ho hsize => hholds.read ho hsize,
    fun r value env s' hw => ⟨?_, ?_⟩, ?_, hdec⟩
  · obtain ⟨s₂, hs₂⟩ := write_high_returns hdec hport' hw
    exact ⟨s', s₂, (write_low_eq hport' r value).trans hw, hs₂⟩
  · intro env₁ env₂ s₁ s₂ h₁ h₂
    rw [write_low_eq hport'] at h₁
    have hfile₁ := write_file hdec hport' r.offset_mod.2.2.1 h₁
    obtain ⟨hctrl₁, hdec₁⟩ := of_file_eq hfile₁
    have hport₁ : s₁.periph ≠ .uart5 := by
      rw [(write_effect h₁).periph]
      exact hport'
    have hmask₁ : s₁.ctrl r &&& r.mask = s₁.ctrl r := by
      rw [hctrl₁, setReg, Function.update_self, and_mask_idem]
    rw [write_high_file hdec₁ hport₁ hmask₁ h₂, hfile₁,
      write_file hdec hport' r.offset_mod.2.2.1 hw]
  · intro env offset size value s' r hw ho
    by_cases hr' : ∃ r' : Ctrl, offset / 4 * 4 = r'.offset
    · obtain ⟨r', ho'⟩ := hr'
      have hne : r ≠ r' := fun hr => ho (by rw [ho', hr])
      rw [write_ctrl hdec hport' ho' hw, setReg, Function.update_of_ne hne]
    · have hfile := file_of_config (write_config hw hport' fun r' ho' => hr' ⟨r', ho'⟩)
      exact congrFun (congrArg File.reg hfile) r

/-- A word is written to `CR2`, and then a half to the bits above: bit 8 is read as it was
written, and bit 15 is not implemented. -/
theorem uart_registers_cr2 : ∃ s v, Run Step (.alloc .uart1 true 0#32)
    [(exampleEnv 0, .write 0x10 0xff00#64 4), (exampleEnv 0, .write 0x12 0x1234#64 2)] s ∧
    read s 0x10 2 = .ok (v, s) ∧ v.getLsbD 8 = true ∧ v.getLsbD 15 = false := by
  have hrun : ∃ s, Run Step (.alloc .uart1 true 0#32)
      [(exampleEnv 0, .write 0x10 0xff00#64 4), (exampleEnv 0, .write 0x12 0x1234#64 2)] s :=
    ⟨_, .cons ⟨⟨by decide, rfl⟩, rfl⟩ (.cons ⟨⟨by decide, rfl⟩, rfl⟩ (.nil _))⟩
  obtain ⟨s, hrun⟩ := hrun
  obtain ⟨hread, -⟩ := uart_registers .uart1 true 0#32 (by decide) _ s hrun
  obtain ⟨v, hv, hbits⟩ := hread .CR2 0x10 2 rfl (Or.inl rfl)
  exact ⟨s, v, hrun, hv, (hbits 8).trans (by decide), (hbits 15).trans (by decide)⟩

end Uart
end Especial
