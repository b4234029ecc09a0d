/-
# What each event does to a USART

The flags, the data registers, the timers, the backend and the NVIC line of a USART
change in a dozen ways only.  `Effect` lists them, by the register or the callback
that an event goes to (`Access`), and `step_effect` says that every event that does
not fault has one of these effects.  The invariants of the transmitter, of the
receiver and of the interrupt line are all derived from this list.

The effects leave open what they do to the remaining fields: the baud rate and the
registers `BRR`, `CR1`, `CR2` and `CR3`, the memory of an `SR` read since the last
overrun, the warnings and the posted events.  Two states are the `Same` if they
agree on everything else.
-/

import Especial.Uart.Basic

namespace Especial
namespace Uart

open Qemu Stm32

/-- A state without the fields that the effects leave open. -/
def Stm32Uart.core (s : Stm32Uart) : Stm32Uart :=
  { s with
    bitsPerSec := 0#32
    nsPerChar := 0#64
    BRR := 0#32
    CR1 := 0#32
    CR2 := 0#32
    CR3 := 0#32
    srReadSinceOreSet := false
    warnings := []
    events := [] }

/-- Two states agree on the flags, the data, the timers, the backend and the line. -/
def Same (s t : Stm32Uart) : Prop := s.core = t.core

/-- A field that the effects do not leave open. -/
theorem Same.field {α : Type} {s t : Stm32Uart} (h : Same s t) (f : Stm32Uart → α)
    (hf : ∀ u : Stm32Uart, f u.core = f u) : f s = f t := by
  rw [← hf s, ← hf t, h]

/-- What an event goes to. -/
inductive Access
  | other
  | readDR
  | writeSR
  | writeDR (b : BitVec 8)
  | writeCR1
  | receive (ch : BitVec 8)
  | rxTimer
  | txTimer
  | reset
  deriving DecidableEq

/-- The access of an event at the USART `p`.  The debug port has no registers
behind it. -/
def Event.access (p : Periph) : Event → Access
  | .read offset _ => if p ≠ .uart5 ∧ offset / 4 * 4 = 0x04 then .readDR else .other
  | .write offset value size =>
    if p = .uart5 then .other
    else match offset / 4 * 4 with
      | 0x00 => .writeSR
      | 0x04 => .writeDR ((merge 0#32 offset value size).setWidth 8)
      | 0x0c => .writeCR1
      | _ => .other
  | .receive ch => .receive ch
  | .rxTimer => .rxTimer
  | .txTimer => .txTimer
  | .clkIrq _ => .other
  | .reset => .reset

/-- Only the registers can be confused: a character or a reset is what it is. -/
theorem Event.eq_of_access {p : Periph} {e : Event} (e' : Event) (h : e.access p = e'.access p)
    (he' : e' = .reset ∨ ∃ ch, e' = .receive ch) : e = e' := by
  cases e with
  | read offset size =>
    rw [Event.access] at h
    obtain rfl | ⟨ch, rfl⟩ := he' <;> split_ifs at h <;> cases h
  | write offset value size =>
    rw [Event.access] at h
    obtain rfl | ⟨ch, rfl⟩ := he' <;> (repeat' split at h) <;> cases h
  | _ => obtain rfl | ⟨ch, rfl⟩ := he' <;> cases h <;> rfl

/-- Only a reset resets. -/
theorem Event.access_ne_reset {p : Periph} {e : Event} (he : e ≠ .reset) :
    e.access p ≠ .reset :=
  fun h => he (Event.eq_of_access .reset h (Or.inl rfl))

/-- **The effects.** -/
inductive Effect (s : Stm32Uart) : Access → Stm32Uart → Prop
  | other {s' : Stm32Uart} (h : Same s' s) : Effect s .other s'
  /-- the data register is read; `ore` is what is left of an overrun -/
  | readDR {s' : Stm32Uart} (ore : Bool) (hore : ore = true → s.ORE = true) (hUE : s.UE = true)
      (hRE : s.RE = true) (hRXNE : s.RXNE = true)
      (h : Same s' (updateIrq { s with ORE := ore, RXNE := false })) : Effect s .readDR s'
  /-- software clears `TC` and `RXNE`: it cannot set them, and a write has to give both -/
  | writeSR {s' : Stm32Uart} (h : Same s' (updateIrq { s with TC := false, RXNE := false })) :
      Effect s .writeSR s'
  /-- a byte starts at once -/
  | startDR {s' : Stm32Uart} (b : BitVec 8) (d : BitVec 64) (hTC : s.TC = true)
      (h : Same s' (updateIrq { s with
        TC := false, chr := s.chr.map (· ++ [b]), txTimer := some d })) :
      Effect s (.writeDR b) s'
  /-- a byte waits in the buffer -/
  | holdDR {s' : Stm32Uart} (w : BitVec 32) (hTC : s.TC = false) (hTXE : s.TXE = true)
      (h : Same s' (updateIrq { s with TDR := w, TXE := false })) :
      Effect s (.writeDR (w.setWidth 8)) s'
  | writeCR1 {s' : Stm32Uart} (ue txeie tcie rxneie te re : Bool)
      (h : Same s' (updateIrq { s with
        UE := ue, TXEIE := txeie, TCIE := tcie, RXNEIE := rxneie, TE := te, RE := re })) :
      Effect s .writeCR1 s'
  /-- a character comes in while the receiver is off -/
  | ignored {s' : Stm32Uart} (ch : BitVec 8) (d : BitVec 64) (hoff : (s.UE && s.RE) = false)
      (h : Same s' { s with receiving := true, rxTimer := some d }) : Effect s (.receive ch) s'
  /-- a character is received; one that is still there is overrun -/
  | received {s' : Stm32Uart} (ch : BitVec 8) (d : BitVec 64) (hUE : s.UE = true)
      (hRE : s.RE = true)
      (h : Same s' (updateIrq { s with
        ORE := s.ORE || s.RXNE, RDR := ch.setWidth 32, RXNE := true
        receiving := true, rxTimer := some d })) :
      Effect s (.receive ch) s'
  | rxTimer {s' : Stm32Uart} (h : Same s' { s with rxTimer := none, receiving := false }) :
      Effect s .rxTimer s'
  /-- a byte is out and none is waiting -/
  | txFinish {s' : Stm32Uart} (hTXE : s.TXE = true)
      (h : Same s' (updateIrq { s with txTimer := none, TC := true })) : Effect s .txTimer s'
  /-- a byte is out and the waiting one follows, without a look at the line after `TC` -/
  | txShift {s' : Stm32Uart} (d : BitVec 64) (hTXE : s.TXE = false)
      (h : Same s' { updateIrq { s with TXE := true } with
        TC := false, chr := s.chr.map (· ++ [s.TDR.setWidth 8]), txTimer := some d }) :
      Effect s .txTimer s'
  | reset {s' : Stm32Uart}
      (h : Same s' (updateIrq { s with
        TXE := true, TC := true, RXNE := false, ORE := false, UE := false, TXEIE := false
        TCIE := false, RXNEIE := false, TE := false, RE := false })) :
      Effect s .reset s'

/-! ### The interrupt line -/

/-- `stm32_uart_update_irq` in one equation: it changes the line and its record only. -/
theorem updateIrq_eq (s : Stm32Uart) :
    updateIrq s = { s with
      irq := if s.newIrqLevel = s.currIrqLevel then s.irq else s.newIrqLevel
      currIrqLevel := s.newIrqLevel } := by
  unfold updateIrq
  rcases eq_or_ne s.newIrqLevel s.currIrqLevel with h | h
  · rw [if_neg (by simp [h]), if_pos h, h]
  · rw [if_pos (by simpa using h), if_neg h]

/-- The interrupt follows the flags. -/
theorem Same.updateIrq {s t : Stm32Uart} (h : Same s t) : Same (updateIrq s) (updateIrq t) := by
  have hnew : s.newIrqLevel = t.newIrqLevel := h.field _ fun _ => rfl
  have hcurr : s.currIrqLevel = t.currIrqLevel := h.field _ fun _ => rfl
  rw [updateIrq_eq, updateIrq_eq, hnew, hcurr]
  have hirq : s.irq = t.irq := h.field _ fun _ => rfl
  rw [hirq]
  exact congrArg (fun u : Stm32Uart => { u with
    irq := if t.newIrqLevel = t.currIrqLevel then t.irq else t.newIrqLevel
    currIrqLevel := t.newIrqLevel }) h

/-! ### The functions -/

/-- An update of the rate changes the rate only. -/
theorem baudUpdate_frame {env : Env} {s s' : Stm32Uart} (h : baudUpdate env s = .ok s') :
    ∃ bps ns, s' = { s with bitsPerSec := bps, nsPerChar := ns } := by
  unfold baudUpdate at h
  by_cases hz : s.BRR = 0#32 ∨ env.periphFreq = 0#32
  · rw [if_pos hz, pure_eq_ok] at h
    exact ⟨_, _, h.symm⟩
  · rw [if_neg hz] at h
    obtain ⟨-, h⟩ := if_throw_eq_ok.1 h
    exact ⟨_, _, (pure_eq_ok.1 h).symm⟩

/-- A write to `BRR` changes the divider and the rate only. -/
theorem brrWrite_frame {env : Env} {s s' : Stm32Uart} {v : BitVec 32}
    (h : brrWrite env s v = .ok s') :
    ∃ brr bps ns, s' = { s with BRR := brr, bitsPerSec := bps, nsPerChar := ns } :=
  ⟨_, baudUpdate_frame (s := { s with BRR := v &&& 0xffff#32 }) h⟩

/-- The handler of the clock changes the rate only. -/
theorem clkIrqHandler_same {env : Env} {s s' : Stm32Uart} {level : Bool}
    (h : clkIrqHandler env s level = .ok s') : Same s' s := by
  unfold clkIrqHandler at h
  split_ifs at h
  · obtain ⟨_, _, rfl⟩ := baudUpdate_frame h
    rfl
  · obtain rfl := pure_eq_ok.1 h
    rfl

/-- A read of the status register is remembered. -/
theorem srRead_frame (s : Stm32Uart) : ∃ b, (srRead s).2 = { s with srReadSinceOreSet := b } := by
  unfold srRead
  dsimp only
  split_ifs
  · exact ⟨true, rfl⟩
  · exact ⟨_, rfl⟩

/-- The check of the clock only warns. -/
theorem checkPeriphClk_frame (env : Env) (s : Stm32Uart) :
    ∃ w, checkPeriphClk env s = { s with warnings := w } := by
  unfold checkPeriphClk
  split_ifs
  · exact ⟨_, rfl⟩
  · exact ⟨_, rfl⟩

/-- A write to the status register clears two flags. -/
theorem srWrite_frame {s s' : Stm32Uart} {v : BitVec 32} (h : srWrite s v = .ok s') :
    s' = updateIrq { s with TC := false, RXNE := false } := by
  unfold srWrite at h
  obtain ⟨_, hTC, h⟩ := bind_eq_ok.1 h
  obtain ⟨_, hRXNE, h⟩ := bind_eq_ok.1 h
  rw [hwErrorIf_eq_ok] at hTC hRXNE
  rw [← pure_eq_ok.1 h, hTC, hRXNE]

/-- A read of the data register takes the character out. -/
theorem drRead_frame {s s' : Stm32Uart} {v : BitVec 32} (h : drRead s = .ok (v, s')) :
    ∃ ore, (ore = true → s.ORE = true) ∧ s.UE = true ∧ s.RE = true ∧ s.RXNE = true ∧
      s' = updateIrq { s with ORE := ore, RXNE := false } := by
  unfold drRead at h
  obtain ⟨ore, hore, hs₁⟩ : ∃ ore, (ore = true → s.ORE = true) ∧
      (if s.ORE && s.srReadSinceOreSet then { s with ORE := false } else s) =
        { s with ORE := ore } := by
    split_ifs
    · exact ⟨false, fun h => absurd h (by decide), rfl⟩
    · exact ⟨s.ORE, fun h => h, rfl⟩
  rw [hs₁] at h
  dsimp only at h
  obtain ⟨_, hUE, h⟩ := bind_eq_ok.1 h
  obtain ⟨_, hRE, h⟩ := bind_eq_ok.1 h
  rw [hwErrorIf_eq_ok] at hUE hRE
  split_ifs at h with hRXNE
  obtain ⟨-, rfl⟩ := Prod.mk.inj (pure_eq_ok.1 h)
  exact ⟨ore, hore, by simpa using hUE, by simpa using hRE, hRXNE, rfl⟩

/-- The data register keeps nine bits, of which the backend gets eight. -/
theorem setWidth_and_ninth (v : BitVec 32) : (v &&& 0x1ff#32).setWidth 8 = v.setWidth 8 := by
  rw [BitVec.setWidth_and]
  exact BitVec.and_allOnes

/-- A write to the data register starts to send, or puts the byte behind the one that is sent. -/
theorem drWrite_frame {env : Env} {s s' : Stm32Uart} {v : BitVec 32}
    (h : drWrite env s v = .ok s') :
    (s.TC = true ∧ s' = updateIrq (startTx env s (v &&& 0x1ff#32))) ∨
      (s.TC = false ∧ s.TXE = true ∧
        s' = updateIrq { s with TDR := v &&& 0x1ff#32, TXE := false }) := by
  unfold drWrite at h
  obtain ⟨-, -, h⟩ := bind_eq_ok.1 h
  obtain ⟨-, -, h⟩ := bind_eq_ok.1 h
  obtain ⟨-, -, h⟩ := bind_eq_ok.1 h
  split_ifs at h with hTC hTXE
  · exact Or.inl ⟨hTC, (pure_eq_ok.1 h).symm⟩
  · exact Or.inr ⟨Bool.eq_false_iff.2 hTC, hTXE, (pure_eq_ok.1 h).symm⟩

/-- A write to `CR1` sets its flags. -/
theorem cr1Write_frame {env : Env} {s s' : Stm32Uart} {v : BitVec 32}
    (h : cr1Write env s v = .ok s') :
    s' = updateIrq { s with
      UE := v.getLsbD 13, TXEIE := v.getLsbD 7, TCIE := v.getLsbD 6, RXNEIE := v.getLsbD 5
      TE := v.getLsbD 3, RE := v.getLsbD 2, CR1 := v &&& 0x3fff#32 } := by
  unfold cr1Write at h
  obtain ⟨-, -, h⟩ := bind_eq_ok.1 h
  exact (pure_eq_ok.1 h).symm

/-- A character comes in. -/
theorem receive_effect (env : Env) (s : Stm32Uart) (ch : BitVec 8) :
    Effect s (.receive ch) (receive env s ch) := by
  unfold receive
  rcases Bool.eq_false_or_eq_true (s.UE && s.RE) with hon | hoff
  · obtain ⟨hUE, hRE⟩ := Bool.and_eq_true_iff.1 hon
    refine .received ch (env.now + s.nsPerChar) hUE hRE ?_
    rw [if_pos hon]
    -- with `RXNE` set, the first update already gives the line its level
    cases s.RXNE <;> simp [updateIrq_eq, Same, Stm32Uart.core, Stm32Uart.newIrqLevel]
  · rw [if_neg (by simp [hoff])]
    exact .ignored ch _ hoff rfl

/-- A character has been sent. -/
theorem txTimer_effect (env : Env) (s : Stm32Uart) :
    Effect s .txTimer (txTimerExpire env { s with txTimer := none }) := by
  unfold txTimerExpire txComplete
  dsimp only
  split_ifs with hTXE
  · exact .txFinish hTXE rfl
  · refine .txShift (env.now + s.nsPerChar) (Bool.eq_false_iff.2 hTXE) ?_
    rw [updateIrq_eq, updateIrq_eq]
    rfl

/-! ### The events -/

/-- What a read does, by its register. -/
theorem read_effect {s s' : Stm32Uart} {offset size : ℕ} {v : BitVec 64}
    (h : read s offset size = .ok (v, s')) :
    Effect s ((Event.read offset size).access s.periph) s' := by
  unfold read at h
  dsimp only at h
  have hother : offset / 4 * 4 ≠ 4 ∨ s.periph = .uart5 → Same s' s →
      Effect s ((Event.read offset size).access s.periph) s' := by
    intro hreg hs'
    rw [Event.access, if_neg (by tauto)]
    exact .other hs'
  split at h
  case h_1 hreg =>
    obtain ⟨-, rfl⟩ := Prod.mk.inj (pure_eq_ok.1 h)
    obtain ⟨b, hb⟩ := srRead_frame s
    exact hother (Or.inl (by omega)) (by rw [hb]; rfl)
  case h_2 hreg =>
    split_ifs at h with hp
    · obtain ⟨-, rfl⟩ := Prod.mk.inj (pure_eq_ok.1 h)
      exact hother (Or.inr hp) rfl
    · obtain ⟨⟨v', s₁⟩, hd, h⟩ := bind_eq_ok.1 h
      obtain ⟨-, rfl⟩ := Prod.mk.inj (pure_eq_ok.1 h)
      obtain ⟨ore, hore, hUE, hRE, hRXNE, rfl⟩ := drRead_frame hd
      rw [Event.access, if_pos ⟨hp, hreg⟩]
      exact .readDR ore hore hUE hRE hRXNE rfl
  all_goals first
    | (obtain ⟨-, rfl⟩ := Prod.mk.inj (pure_eq_ok.1 h); exact hother (Or.inl (by omega)) rfl)
    | exact absurd h throw_ne_ok

/-- What a write does, by its register. -/
theorem write_effect {env : Env} {s s' : Stm32Uart} {offset size : ℕ} {value : BitVec 64}
    (h : write env s offset value size = .ok s') :
    Effect s ((Event.write offset value size).access s.periph) s' := by
  unfold write at h
  by_cases hp : s.periph = .uart5
  · rw [if_pos hp, pure_eq_ok] at h
    rw [← h, Event.access, if_pos hp]
    exact .other rfl
  · rw [if_neg hp] at h
    rw [Event.access, if_neg hp]
    obtain ⟨w, hw⟩ := checkPeriphClk_frame env s
    rw [hw] at h
    dsimp only at h
    split at h
    case h_1 hreg =>
      obtain ⟨b, hb⟩ := srRead_frame { s with warnings := w }
      rw [hb] at h
      rw [hreg, srWrite_frame h]
      exact .writeSR (Same.updateIrq rfl)
    case h_2 hreg =>
      rw [hreg]
      show Effect s (.writeDR ((merge 0#32 offset value size).setWidth 8)) s'
      rw [← setWidth_and_ninth]
      rcases drWrite_frame h with ⟨hTC, rfl⟩ | ⟨hTC, hTXE, rfl⟩
      · exact .startDR _ _ hTC (Same.updateIrq rfl)
      · exact .holdDR _ hTC hTXE (Same.updateIrq rfl)
    case h_3 hreg =>
      obtain ⟨_, _, _, rfl⟩ := brrWrite_frame h
      rw [hreg]
      exact .other rfl
    case h_4 hreg =>
      rw [hreg, cr1Write_frame h]
      exact .writeCR1 _ _ _ _ _ _ (Same.updateIrq rfl)
    case h_5 hreg =>
      obtain rfl := pure_eq_ok.1 h
      rw [hreg]
      exact .other rfl
    case h_6 hreg =>
      obtain rfl := pure_eq_ok.1 h
      rw [hreg]
      exact .other rfl
    all_goals exact absurd h throw_ne_ok

/-- What a reset does. -/
theorem reset_effect {env : Env} {s s' : Stm32Uart} (h : reset env s = .ok s') :
    Effect s .reset s' := by
  unfold reset at h
  obtain ⟨s₁, h₁, h⟩ := bind_eq_ok.1 h
  obtain ⟨s₂, h₂, h⟩ := bind_eq_ok.1 h
  obtain ⟨_, _, _, rfl⟩ := brrWrite_frame h₁
  obtain rfl := cr1Write_frame h₂
  obtain rfl := pure_eq_ok.1 h
  refine .reset ?_
  simp [updateIrq_eq, Same, Stm32Uart.core, Stm32Uart.newIrqLevel, cr2Write, cr3Write]

/-- **Every event has one of the effects.** -/
theorem step_effect {env : Env} {s s' : Stm32Uart} {e : Event} (h : step env s e = .ok s') :
    Effect s (e.access s.periph) s' := by
  cases e with
  | read offset size =>
    obtain ⟨⟨v, s₁⟩, hr, h⟩ := bind_eq_ok.1 h
    obtain rfl := pure_eq_ok.1 h
    exact read_effect hr
  | write offset value size => exact write_effect h
  | receive ch =>
    obtain rfl := pure_eq_ok.1 h
    exact receive_effect env s ch
  | rxTimer =>
    obtain rfl := pure_eq_ok.1 h
    exact .rxTimer rfl
  | txTimer =>
    obtain rfl := pure_eq_ok.1 h
    exact txTimer_effect env s
  | clkIrq level => exact .other (clkIrqHandler_same h)
  | reset => exact reset_effect h

/-- A USART stays the one it is. -/
theorem Effect.periph {s s' : Stm32Uart} {a : Access} (h : Effect s a s') :
    s'.periph = s.periph := by
  have hsame : ∀ {t : Stm32Uart}, Same s' t → s'.periph = t.periph := fun h =>
    h.field Stm32Uart.periph fun _ => rfl
  have hirq : ∀ t : Stm32Uart, (updateIrq t).periph = t.periph := fun t => by rw [updateIrq_eq]
  cases h with
  | other h => exact hsame h
  | readDR _ _ _ _ _ h => exact (hsame h).trans (hirq _)
  | writeSR h => exact (hsame h).trans (hirq _)
  | startDR _ _ _ h => exact (hsame h).trans (hirq _)
  | holdDR _ _ _ h => exact (hsame h).trans (hirq _)
  | writeCR1 _ _ _ _ _ _ h => exact (hsame h).trans (hirq _)
  | ignored _ _ _ h =>
    have hp := hsame h
    exact hp
  | received _ _ _ _ h => exact (hsame h).trans (hirq _)
  | rxTimer h =>
    have hp := hsame h
    exact hp
  | txFinish _ h => exact (hsame h).trans (hirq _)
  | txShift _ _ h => exact (hsame h).trans (hirq { s with TXE := true })
  | reset h => exact (hsame h).trans (hirq _)

/-- A step has one outcome. -/
theorem step_det (s : Stm32Uart) (i : Env × Event) (t t' : Stm32Uart) (h : Step s i t)
    (h' : Step s i t') : t = t' := Except.ok.inj (h.2.symm.trans h'.2)

end Uart
end Especial
