/-
# No character is lost between the backend and the data register

The receiver holds one character, in `USART_RDR` while `RXNE = 1`.  The backend asks
`stm32_uart_can_receive` before it delivers a character, and the answer is no while
an enabled receiver holds one or while the receive timer runs; so a character is
never overrun.  A disabled receiver takes every character and forgets it, and keeps
the one that it holds.

`Observed` is an event with what it puts into the receiver and what it takes out; a read
takes out what the guest gets, the value that `stm32_uart_read` returns.  Each step then
balances (`Effect.receiver`): what was held and what comes in is what goes out and what
is held after it.

Every access to the data register reads the whole of it and then cuts out its bytes.  One
that does not begin at its low byte gets none of the character and drops it
(`uart_characters_dropped`).
-/

import Especial.Uart.Transmit

namespace Especial
namespace Uart

open Qemu Stm32 Lib

/-- How a character leaves the receiver. -/
inductive Taken
  /-- a read of the data register from its low byte up, with the value that the guest gets -/
  | returned (value : BitVec 64)
  /-- a read of other bytes of the data register, which clears `RXNE` all the same -/
  | dropped (value : BitVec 32)
  /-- a write to the status register clears `RXNE` -/
  | discarded (value : BitVec 32)
  deriving DecidableEq

/-- The character, as it stands on the bus. -/
def Taken.value : Taken → BitVec 64
  | .returned value => value
  | .dropped value | .discarded value => value.setWidth 64

/-- The character that an access puts into the receiver. -/
def accepts (s : Stm32Uart) : Access → Option (BitVec 8)
  | .receive ch => if s.UE && s.RE then some ch else none
  | _ => none

/-- The character that an event takes out of it. -/
def takes (s : Stm32Uart) (e : Event) : Option Taken :=
  match e.access s.periph, e with
  | .readDR, .read offset size =>
    match read s offset size with
    | .ok (value, _) => some (if offset % 4 = 0 then .returned value else .dropped s.RDR)
    | .error _ => none
  | .writeSR, _ => if s.RXNE then some (.discarded s.RDR) else none
  | _, _ => none

/-- An event of a run, with what it puts into the receiver and takes out of it. -/
structure Observed where
  env : Env
  event : Event
  accepted : Option (BitVec 8)
  taken : Option Taken

/-- A step with what it does to the receiver.  The backend delivers a character only
when `stm32_uart_can_receive` has just returned `1`. -/
structure ObservedStep (s : Stm32Uart) (x : Observed) (s' : Stm32Uart) : Prop where
  step : Step s (x.env, x.event) s'
  admitted : ∀ ch, x.event = .receive ch → canReceive s = true
  accepted : x.accepted = accepts s (x.event.access s.periph)
  taken : x.taken = takes s x.event

/-- The characters that a run puts into the receiver. -/
def acceptedChars (l : List Observed) : List (BitVec 64) :=
  l.flatMap fun x => (x.accepted.map (·.setWidth 64)).toList

/-- The characters that it takes out of it. -/
def takenChars (l : List Observed) : List Taken := l.flatMap fun x => x.taken.toList

/-- The character in the receiver. -/
def Stm32Uart.held (s : Stm32Uart) : List (BitVec 64) := if s.RXNE then [s.RDR.setWidth 64] else []

/-- While a character is coming in, the receive timer is armed. -/
def Timed (s : Stm32Uart) : Prop := s.receiving = true → s.rxTimer.isSome = true

/-- The receiver has not been overrun, and what it holds is a character. -/
structure Receives (s : Stm32Uart) : Prop where
  ORE : s.ORE = false
  RDR : s.RDR.toNat < 2 ^ 8

/-! ### One step -/

/-- The timer is all that counts. -/
theorem Same.timed_iff {s t : Stm32Uart} (h : Same s t) : Timed s ↔ Timed t :=
  iff_of_eq (h.field Timed fun _ => rfl)

/-- The character that is held. -/
theorem Same.held {s t : Stm32Uart} (h : Same s t) : s.held = t.held := h.field _ fun _ => rfl

/-- The overrun flag. -/
theorem Same.ORE {s t : Stm32Uart} (h : Same s t) : s.ORE = t.ORE := h.field _ fun _ => rfl

/-- The interrupt keeps the timer. -/
theorem timed_updateIrq {s : Stm32Uart} (h : Timed s) : Timed (updateIrq s) := by
  rw [updateIrq_eq]
  exact h

/-- It keeps the character. -/
@[simp] theorem held_updateIrq (s : Stm32Uart) : (updateIrq s).held = s.held := by
  rw [updateIrq_eq]
  rfl

/-- It keeps the overrun flag. -/
@[simp] theorem ORE_updateIrq (s : Stm32Uart) : (updateIrq s).ORE = s.ORE := by
  rw [updateIrq_eq]

/-- It keeps the data register. -/
@[simp] theorem RDR_updateIrq (s : Stm32Uart) : (updateIrq s).RDR = s.RDR := by
  rw [updateIrq_eq]

/-- **While a character is coming in, the timer is armed**, after every effect. -/
theorem Effect.timed {s s' : Stm32Uart} {a : Access} (h : Effect s a s') (hs : Timed s) :
    Timed s' := by
  cases h with
  | other h => exact h.timed_iff.2 hs
  | readDR ore _ _ _ _ h => exact h.timed_iff.2 (timed_updateIrq hs)
  | writeSR h => exact h.timed_iff.2 (timed_updateIrq hs)
  | startDR b d _ h => exact h.timed_iff.2 (timed_updateIrq hs)
  | holdDR w _ _ h => exact h.timed_iff.2 (timed_updateIrq hs)
  | writeCR1 _ _ _ _ _ _ h => exact h.timed_iff.2 (timed_updateIrq hs)
  | ignored ch d _ h => exact h.timed_iff.2 fun _ => rfl
  | received ch d _ _ h => exact h.timed_iff.2 (timed_updateIrq fun _ => rfl)
  | rxTimer h => exact h.timed_iff.2 fun hr => absurd hr Bool.false_ne_true
  | txFinish _ h => exact h.timed_iff.2 (timed_updateIrq hs)
  | txShift d _ h =>
    rw [updateIrq_eq] at h
    exact h.timed_iff.2 hs
  | reset h => exact h.timed_iff.2 (timed_updateIrq hs)

/-- The receive data register. -/
theorem Same.RDR {s t : Stm32Uart} (h : Same s t) : s.RDR = t.RDR := h.field _ fun _ => rfl

/-- An access to the data register is a read of some of its bytes. -/
theorem Event.eq_read_of_access {p : Periph} {e : Event} (h : e.access p = .readDR) :
    ∃ offset size, e = .read offset size ∧ p ≠ .uart5 ∧ offset / 4 * 4 = 0x04 := by
  cases e with
  | read offset size =>
    rw [Event.access] at h
    split_ifs at h with hdr
    exact ⟨offset, size, rfl, hdr⟩
  | write offset value size =>
    rw [Event.access] at h
    (repeat' split at h) <;> cases h
  | _ => cases h

/-- The bytes of a character from its low byte up are the character. -/
theorem extract64_character {c : BitVec 32} (hc : c.toNat < 2 ^ 8) {length : ℕ}
    (h8 : 8 ≤ length)
    (h64 : length ≤ 64) : extract64 (c.setWidth 64) 0 length = c.setWidth 64 := by
  refine BitVec.eq_of_getLsbD_eq fun i hi => ?_
  rw [extract64, getLsbD_extractField h64, Nat.zero_add]
  by_cases hlt : i < length
  · simp [hlt]
  · have hbit : c.getLsbD i = false :=
      Nat.testBit_lt_two_pow (hc.trans_le (Nat.pow_le_pow_right (by decide) (by omega)))
    simp [hbit]

/-- **A read of the data register** that does not fault returns its bytes. -/
theorem read_dr_eq {s : Stm32Uart} {offset : ℕ} (size : ℕ) (hp : s.periph ≠ .uart5)
    (ho : offset / 4 * 4 = 0x04) (hUE : s.UE = true) (hRE : s.RE = true) (hRXNE : s.RXNE = true) :
    ∃ s', read s offset size =
      .ok (extract64 (s.RDR.setWidth 64) (offset % 4 * 8) (size * 8), s') := by
  have hread : ∃ s', drRead s = .ok (s.RDR, s') := by
    unfold drRead
    split_ifs <;> simp [hwErrorIf, hUE, hRE, hRXNE, ok_bind]
  obtain ⟨s', hs'⟩ := hread
  refine ⟨s', ?_⟩
  unfold read
  rw [ho]
  dsimp only
  rw [if_neg hp, hs']
  rfl

/-- It takes the character out of the receiver. -/
theorem takes_readDR {env : Env} {s : Stm32Uart} {e : Event} (hen : e.Enabled env s)
    (he : e.access s.periph = .readDR) (hUE : s.UE = true) (hRE : s.RE = true)
    (hRXNE : s.RXNE = true) (hRDR : s.RDR.toNat < 2 ^ 8) :
    ∃ x, takes s e = some x ∧ x.value = s.RDR.setWidth 64 := by
  obtain ⟨offset, size, rfl, hp, ho⟩ := Event.eq_read_of_access he
  obtain ⟨s', hread⟩ := read_dr_eq size hp ho hUE hRE hRXNE
  unfold takes
  rw [he]
  dsimp only
  rw [hread]
  refine ⟨_, rfl, ?_⟩
  split_ifs with hlow
  · rw [hlow]
    have hsize : 1 ≤ size ∧ size ≤ 4 := by
      rcases hen.1 with rfl | rfl | rfl <;> decide
    exact extract64_character hRDR (by omega) (by omega)
  · rfl

/-- Other accesses take nothing out of it. -/
theorem takes_eq_none {s : Stm32Uart} {e : Event} {a : Access} (he : e.access s.periph = a)
    (hdr : a ≠ .readDR) (hsr : a ≠ .writeSR) : takes s e = none := by
  unfold takes
  rw [he]
  cases a <;> first | rfl | contradiction

/-- A write to the status register discards the character. -/
theorem takes_writeSR {s : Stm32Uart} {e : Event} (he : e.access s.periph = .writeSR) :
    takes s e = if s.RXNE then some (.discarded s.RDR) else none := by
  unfold takes
  rw [he]

/-- What a balanced step does: no overrun, and no character lost. -/
structure Balanced (s : Stm32Uart) (e : Event) (s' : Stm32Uart) : Prop where
  receives : Receives s'
  chars : s.held ++ ((accepts s (e.access s.periph)).map (·.setWidth 64)).toList =
    (takes s e).toList.map Taken.value ++ s'.held

/-- A step that leaves the receiver alone. -/
theorem Balanced.idle {s s' t : Stm32Uart} {e : Event} {a : Access} (hs : Receives s)
    (h : Same s' t) (he : e.access s.periph = a) (hacc : accepts s a = none) (hdr : a ≠ .readDR)
    (hsr : a ≠ .writeSR) (hORE : t.ORE = s.ORE) (hRDR : t.RDR = s.RDR) (hheld : t.held = s.held) :
    Balanced s e s' := by
  refine ⟨⟨(h.ORE.trans hORE).trans hs.ORE, ?_⟩, ?_⟩
  · rw [h.RDR, hRDR]
    exact hs.RDR
  · rw [he, hacc, takes_eq_none he hdr hsr, h.held, hheld]
    simp

/-- **One effect balances**, if no character was overrun so far and one that comes in
was asked for. -/
theorem Effect.receiver {env : Env} {s s' : Stm32Uart} {e : Event}
    (h : Effect s (e.access s.periph) s') (hen : e.Enabled env s) (hne : e ≠ .reset)
    (hadm : ∀ ch, e = .receive ch → canReceive s = true) (hs : Receives s) :
    Balanced s e s' := by
  generalize ha : e.access s.periph = a at h
  have hidle : ∀ t : Stm32Uart, Same s' t → accepts s a = none → a ≠ .readDR →
      a ≠ .writeSR → t.ORE = s.ORE → t.RDR = s.RDR → t.held = s.held → Balanced s e s' :=
    fun t ht => .idle hs ht ha
  cases h with
  | other h => exact hidle _ h rfl nofun nofun rfl rfl rfl
  | readDR ore hore hUE hRE hRXNE h =>
    have hore' : ore = false := by
      rw [hs.ORE] at hore
      simpa using hore
    obtain ⟨x, hx, hvalue⟩ := takes_readDR hen ha hUE hRE hRXNE hs.RDR
    refine ⟨⟨by rw [h.ORE, ORE_updateIrq, hore'], ?_⟩, ?_⟩
    · rw [h.RDR, RDR_updateIrq]
      exact hs.RDR
    rw [ha, hx, h.held, held_updateIrq]
    simp [accepts, Stm32Uart.held, hRXNE, hvalue]
  | writeSR h =>
    refine ⟨⟨by rw [h.ORE, ORE_updateIrq, hs.ORE], ?_⟩, ?_⟩
    · rw [h.RDR, RDR_updateIrq]
      exact hs.RDR
    rw [ha, takes_writeSR ha, h.held, held_updateIrq]
    cases hRXNE : s.RXNE <;> simp [accepts, Stm32Uart.held, hRXNE, Taken.value]
  | startDR b d _ h =>
    exact hidle _ h rfl nofun nofun (ORE_updateIrq _) (RDR_updateIrq _) (held_updateIrq _)
  | holdDR w _ _ h =>
    exact hidle _ h rfl nofun nofun (ORE_updateIrq _) (RDR_updateIrq _) (held_updateIrq _)
  | writeCR1 _ _ _ _ _ _ h =>
    exact hidle _ h rfl nofun nofun (ORE_updateIrq _) (RDR_updateIrq _) (held_updateIrq _)
  | ignored ch d hoff h => exact hidle _ h (by simp [accepts, hoff]) nofun nofun rfl rfl rfl
  | received ch d hUE hRE h =>
    -- an enabled receiver was asked, so it holds nothing
    have hRXNE : s.RXNE = false := by
      have hask := hadm ch (Event.eq_of_access (.receive ch) ha (Or.inr ⟨ch, rfl⟩))
      unfold canReceive at hask
      rw [hUE, hRE] at hask
      cases hr : s.RXNE with
      | false => rfl
      | true => simp [hr] at hask
    have hchar : (ch.setWidth 32).toNat < 2 ^ 8 := by
      rw [BitVec.toNat_setWidth_of_le (by decide)]
      exact ch.isLt
    refine ⟨⟨by rw [h.ORE, ORE_updateIrq, hs.ORE, hRXNE]; rfl, ?_⟩, ?_⟩
    · rw [h.RDR, RDR_updateIrq]
      exact hchar
    · rw [ha, takes_eq_none ha nofun nofun, h.held, held_updateIrq]
      simp [accepts, Stm32Uart.held, hRXNE, hUE, hRE]
  | rxTimer h => exact hidle _ h rfl nofun nofun rfl rfl rfl
  | txFinish _ h =>
    exact hidle _ h rfl nofun nofun (ORE_updateIrq _) (RDR_updateIrq _) (held_updateIrq _)
  | txShift d _ h =>
    rw [updateIrq_eq] at h
    exact hidle _ h rfl nofun nofun rfl rfl rfl
  | reset => exact absurd ha (Event.access_ne_reset hne)

/-- The data register holds characters only. -/
theorem Effect.rdr_lt {s s' : Stm32Uart} {a : Access} (h : Effect s a s')
    (hs : s.RDR.toNat < 2 ^ 8) : s'.RDR.toNat < 2 ^ 8 := by
  cases h with
  | other h | ignored _ _ _ h | rxTimer h => rw [h.RDR]; exact hs
  | readDR _ _ _ _ _ h | writeSR h | startDR _ _ _ h | holdDR _ _ _ h =>
    rw [h.RDR, RDR_updateIrq]
    exact hs
  | writeCR1 _ _ _ _ _ _ h | txFinish _ h | reset h =>
    rw [h.RDR, RDR_updateIrq]
    exact hs
  | txShift _ _ h =>
    rw [updateIrq_eq] at h
    rw [h.RDR]
    exact hs
  | received ch _ _ _ h =>
    rw [h.RDR, RDR_updateIrq]
    show (ch.setWidth 32).toNat < 2 ^ 8
    rw [BitVec.toNat_setWidth_of_le (by decide)]
    exact ch.isLt

/-! ### A run -/

/-- **No character is lost, duplicated or reordered.**  After any history, and since a
reset: no character is overrun; the characters that came in while `UE` and `RE` were
set have been returned to the guest by reads of the data register, in order and each once,
or dropped by a read that does not begin at its low byte, or discarded by a write to the
status register, except for the one that `USART_RDR` holds exactly when `RXNE = 1`; and
while a character is coming in the receive timer is armed. -/
theorem uart_characters_conserved (periph : Periph) (connected : Bool) (afioBoardMap : BitVec 32)
    (env₀ : Env) (s₀ s₁ s : Stm32Uart) (l₀ : List (Env × Event)) (l : List Observed)
    (h₀ : Run Step (.alloc periph connected afioBoardMap) l₀ s₀)
    (hreset : reset env₀ s₀ = .ok s₁) (hl : ∀ x ∈ l, x.event ≠ .reset)
    (h : Run ObservedStep s₁ l s) :
    s.ORE = false ∧
      acceptedChars l =
        (takenChars l).map Taken.value ++ (if s.RXNE then [s.RDR.setWidth 64] else []) ∧
      (s.receiving = true → s.rxTimer.isSome = true) := by
  have hinv₀ : Timed s₀ ∧ s₀.RDR.toNat < 2 ^ 8 :=
    h₀.invariant (P := fun s => Timed s ∧ s.RDR.toNat < 2 ^ 8)
      (fun _ _ _ hs hstep =>
        ⟨(step_effect hstep.2).timed hs.1, (step_effect hstep.2).rdr_lt hs.2⟩)
      ⟨fun hr => absurd hr Bool.false_ne_true, show (0#32).toNat < 2 ^ 8 by decide⟩
  have htimed₁ : Timed s₁ := (reset_effect hreset).timed hinv₀.1
  have hclear₁ : s₁.ORE = false ∧ s₁.held = [] := by
    cases reset_effect hreset with
    | reset h => exact ⟨by rw [h.ORE, ORE_updateIrq], by rw [h.held, held_updateIrq]; rfl⟩
  have hrecv₁ : Receives s₁ := ⟨hclear₁.1, (reset_effect hreset).rdr_lt hinv₀.2⟩
  have hrun := h.guarded_of_forall hl
  have hstep : ∀ s x s', Receives s →
      Guarded ObservedStep (fun _ x => x.event ≠ .reset) s x s' →
      Receives s' ∧ s.held ++ (x.accepted.map (·.setWidth 64)).toList =
        x.taken.toList.map Taken.value ++ s'.held := by
    rintro s x s' hs ⟨hx, hne⟩
    rw [hx.accepted, hx.taken]
    have hbal := (step_effect hx.step.2).receiver hx.step.1 hne hx.admitted hs
    exact ⟨hbal.receives, hbal.chars⟩
  have hrecv : Receives s :=
    hrun.invariant (P := Receives) (fun s x s' hs hx => (hstep s x s' hs hx).1) hrecv₁
  have hbal := hrun.balance hstep hrecv₁
  rw [hclear₁.2, List.nil_append] at hbal
  refine ⟨hrecv.ORE, ?_, ?_⟩
  · rw [takenChars, List.map_flatMap]
    exact hbal
  · exact h.invariant (P := Timed) (fun _ _ _ hs hx => (step_effect hx.step.2).timed hs) htimed₁

/-- A reset, the receiver switched on, and four characters: the first is read, the second
discarded, the third dropped, the fourth is held. -/
def fourCharacters : List Observed :=
  [⟨exampleEnv 0, .write 0x0c 0x2004 4, none, none⟩,
    ⟨exampleEnv 1, .receive 0x41, some 0x41, none⟩,
    ⟨exampleEnv 2, .read 0x04 2, none, some (.returned 0x41)⟩,
    ⟨exampleEnv 2, .rxTimer, none, none⟩,
    ⟨exampleEnv 3, .receive 0x42, some 0x42, none⟩,
    ⟨exampleEnv 4, .rxTimer, none, none⟩,
    ⟨exampleEnv 4, .write 0x00 0 4, none, some (.discarded 0x42)⟩,
    ⟨exampleEnv 5, .receive 0x43, some 0x43, none⟩,
    ⟨exampleEnv 6, .read 0x06 2, none, some (.dropped 0x43)⟩,
    ⟨exampleEnv 6, .rxTimer, none, none⟩,
    ⟨exampleEnv 7, .receive 0x44, some 0x44, none⟩]

/-- They can come so. -/
theorem exists_run_fourCharacters :
    ∃ s₁ s, reset (exampleEnv 0) (.alloc .uart1 true 0) = .ok s₁ ∧
    Run ObservedStep s₁ fourCharacters s := by
  refine ⟨_, _, rfl,
    .cons ⟨⟨⟨by decide, rfl⟩, rfl⟩, fun _ => Event.noConfusion, rfl, rfl⟩
    (.cons ⟨⟨trivial, rfl⟩, fun _ _ => rfl, rfl, rfl⟩
    (.cons ⟨⟨⟨by decide, rfl⟩, rfl⟩, fun _ => Event.noConfusion, rfl, rfl⟩
    (.cons ⟨⟨⟨_, rfl, by decide⟩, rfl⟩, fun _ => Event.noConfusion, rfl, rfl⟩
    (.cons ⟨⟨trivial, rfl⟩, fun _ _ => rfl, rfl, rfl⟩
    (.cons ⟨⟨⟨_, rfl, by decide⟩, rfl⟩, fun _ => Event.noConfusion, rfl, rfl⟩
    (.cons ⟨⟨⟨by decide, rfl⟩, rfl⟩, fun _ => Event.noConfusion, rfl, rfl⟩
    (.cons ⟨⟨trivial, rfl⟩, fun _ _ => rfl, rfl, rfl⟩
    (.cons ⟨⟨⟨by decide, rfl⟩, rfl⟩, fun _ => Event.noConfusion, rfl, rfl⟩
    (.cons ⟨⟨⟨_, rfl, by decide⟩, rfl⟩, fun _ => Event.noConfusion, rfl, rfl⟩
    (.cons ⟨⟨trivial, rfl⟩, fun _ _ => rfl, rfl, rfl⟩ (.nil _)))))))))))⟩

/-- The four characters are accounted for. -/
theorem uart_characters_conserved_four :
    ∃ s₁ s, reset (exampleEnv 0) (.alloc .uart1 true 0) = .ok s₁ ∧
      Run ObservedStep s₁ fourCharacters s ∧ s.ORE = false ∧
      [0x41#64, 0x42#64, 0x43#64, 0x44#64] =
        [0x41#64, 0x42#64, 0x43#64] ++ (if s.RXNE then [s.RDR.setWidth 64] else []) := by
  obtain ⟨s₁, s, hreset, hrun⟩ := exists_run_fourCharacters
  obtain ⟨hORE, hchars, -⟩ :=
    uart_characters_conserved _ _ _ _ _ _ _ _ _ (.nil _) hreset (by simp [fourCharacters]) hrun
  exact ⟨s₁, s, hreset, hrun, hORE, hchars⟩

/-- The character, if a read of the data register has returned it or a write to the status
register has discarded it. -/
def Taken.accounted : Taken → List (BitVec 64)
  | .dropped _ => []
  | x => [x.value]

/-- **A read of the upper half of the data register** gets nothing and drops the character:
the characters that came in are not those that reads have returned, writes to the status
register have discarded and `USART_RDR` holds. -/
theorem uart_characters_dropped :
    ¬∀ (periph : Periph) (connected : Bool) (afioBoardMap : BitVec 32) (env₀ : Env)
      (s₀ s₁ s : Stm32Uart) (l₀ : List (Env × Event)) (l : List Observed),
      Run Step (.alloc periph connected afioBoardMap) l₀ s₀ → reset env₀ s₀ = .ok s₁ →
      (∀ x ∈ l, x.event ≠ .reset) → Run ObservedStep s₁ l s →
      acceptedChars l = (takenChars l).flatMap Taken.accounted ++
        (if s.RXNE then [s.RDR.setWidth 64] else []) := by
  intro hall
  have hrun : ∃ s₁ s, reset (exampleEnv 0) (.alloc .uart1 true 0) = .ok s₁ ∧
      Run ObservedStep s₁ [⟨exampleEnv 0, .write 0x0c 0x2004 4, none, none⟩,
        ⟨exampleEnv 1, .receive 0x41, some 0x41, none⟩,
        ⟨exampleEnv 2, .read 0x06 2, none, some (.dropped 0x41)⟩] s ∧ s.RXNE = false :=
    ⟨_, _, rfl, .cons ⟨⟨⟨by decide, rfl⟩, rfl⟩, fun _ => Event.noConfusion, rfl, rfl⟩
      (.cons ⟨⟨trivial, rfl⟩, fun _ _ => rfl, rfl, rfl⟩
      (.cons ⟨⟨⟨by decide, rfl⟩, rfl⟩, fun _ => Event.noConfusion, rfl, rfl⟩ (.nil _))),
      rfl⟩
  obtain ⟨s₁, s, hreset, hrun, hempty⟩ := hrun
  have hchars := hall .uart1 true 0 (exampleEnv 0) _ s₁ s [] _ (.nil _) hreset (by simp) hrun
  rw [if_neg (by simp [hempty])] at hchars
  exact absurd hchars (by decide)

end Uart
end Especial
