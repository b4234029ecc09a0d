/-
# No byte is lost between the data register and the backend

The transmitter is a buffer of one byte in front of a line that is busy while
`TC = 0`.  `Tx` is what of the USART it consists of and `TxStep` its six moves; the
data register, the status register and the transmit timer all act on it through
these (`Effect.tx`), and everything else a USART does leaves it alone.

The bytes handed to the backend, with the one in the buffer behind them, are then
a log to which each write to the data register adds its byte (`TxStep.stream_eq`).
What carries the induction is that a full buffer means a busy line: otherwise a
write would start its byte ahead of the one that waits.  Software can clear `TC`,
but it cannot set it.

Nothing is lost, but it can get stuck: a byte that waits is sent when the transmit
timer expires, and with `TC` cleared by software on an idle line no timer is armed.
`uart_served_iff` says that this is the only way.
-/

import Especial.Uart.Effects
import Especial.Lib.Run

namespace Especial
namespace Uart

open Qemu Stm32 Lib

/-- The transmitter: its two flags, the byte in the buffer, and what the backend
was handed. -/
structure Tx where
  periph : Periph
  txe : Bool
  tc : Bool
  tdr : BitVec 8
  sent : Option (List (BitVec 8))

/-- The transmitter of a USART. -/
def Stm32Uart.tx (s : Stm32Uart) : Tx where
  periph := s.periph
  txe := s.TXE
  tc := s.TC
  tdr := s.TDR.setWidth 8
  sent := s.chr

/-- The moves of the transmitter, with the byte that software gives it. -/
inductive TxStep : Tx → Option (BitVec 8) → Tx → Prop
  /-- nothing happens -/
  | idle (t : Tx) : TxStep t none t
  /-- software clears `TC` -/
  | clear (t : Tx) : TxStep t none { t with tc := false }
  /-- a byte is out and none is waiting -/
  | finish (t : Tx) (h : t.txe = true) : TxStep t none { t with tc := true }
  /-- a byte is out and the waiting one follows -/
  | shift (t : Tx) (h : t.txe = false) :
      TxStep t none { t with txe := true, tc := false, sent := t.sent.map (· ++ [t.tdr]) }
  /-- a byte starts at once -/
  | start (t : Tx) (b : BitVec 8) (h : t.tc = true) :
      TxStep t (some b) { t with tc := false, sent := t.sent.map (· ++ [b]) }
  /-- a byte waits in the buffer -/
  | hold (t : Tx) (b : BitVec 8) (hc : t.tc = false) (he : t.txe = true) :
      TxStep t (some b) { t with txe := false, tdr := b }

/-- The bytes handed to the backend and the one that waits. -/
def Tx.stream (t : Tx) : List (BitVec 8) := t.sent.getD [] ++ if t.txe then [] else [t.tdr]

/-- What the backend, if there is one, has once the byte that waits is sent. -/
def Tx.out (t : Tx) : Option (List (BitVec 8)) := t.sent.map (· ++ if t.txe then [] else [t.tdr])

/-- The line is busy while a byte waits. -/
def Tx.Busy (t : Tx) : Prop := t.txe = false → t.tc = false

/-- **One move.**  A byte that waits still has a busy line, and the byte of the move is
added at the end. -/
theorem TxStep.out_eq {t t' : Tx} {b : Option (BitVec 8)} (h : TxStep t b t') (hbusy : t.Busy) :
    t'.Busy ∧ t'.out = t.out.map (· ++ b.toList) := by
  cases h with
  | idle => exact ⟨hbusy, by simp⟩
  | clear => exact ⟨fun _ => rfl, by simp [Tx.out, Function.comp_def]⟩
  | finish he =>
    refine ⟨fun h => ?_, by simp [Tx.out, Function.comp_def]⟩
    exact absurd (he.symm.trans h) (by decide)
  | shift he =>
    refine ⟨fun _ => rfl, ?_⟩
    simp [Tx.out, he]
  | start b hc =>
    -- the line is idle, so no byte can be waiting
    have he : t.txe = true := by
      by_contra hne
      have := hbusy (by simpa using hne)
      exact absurd (this.symm.trans hc) (by decide)
    refine ⟨fun _ => rfl, ?_⟩
    simp [Tx.out, he, Function.comp_def]
  | hold b hc he =>
    refine ⟨fun _ => hc, ?_⟩
    simp [Tx.out, he]

/-- The invariant: there is a backend, and the line is busy while a byte waits. -/
structure Tx.Ok (t : Tx) : Prop where
  connected : t.sent.isSome = true
  busy : t.txe = false → t.tc = false

/-- The backend has the bytes handed to it, and then the one that waits. -/
theorem Tx.Ok.out_eq {t : Tx} (h : t.Ok) : t.out = some t.stream := by
  obtain ⟨bs, hbs⟩ := Option.isSome_iff_exists.1 h.connected
  simp [Tx.out, Tx.stream, hbs]

/-- With a backend, the bytes are a log to which a move adds its byte. -/
theorem TxStep.stream_eq {t t' : Tx} {b : Option (BitVec 8)} (h : TxStep t b t') (hok : t.Ok) :
    t'.Ok ∧ t'.stream = t.stream ++ b.toList := by
  obtain ⟨hbusy, hout⟩ := h.out_eq hok.busy
  rw [hok.out_eq, Option.map_some] at hout
  have hok' : t'.Ok := ⟨by simpa [Tx.out] using congrArg Option.isSome hout, hbusy⟩
  rw [hok'.out_eq] at hout
  exact ⟨hok', Option.some.inj hout⟩

/-- A move takes nothing back from the backend, and stays on its port. -/
theorem TxStep.sent_prefix {t t' : Tx} {b : Option (BitVec 8)} (h : TxStep t b t') :
    t.sent.getD [] <+: t'.sent.getD [] ∧ t'.periph = t.periph := by
  cases h with
  | idle | clear | finish | hold => exact ⟨List.prefix_rfl, rfl⟩
  | shift | start => exact ⟨by cases t.sent <;> simp, rfl⟩

/-! ### The USART moves its transmitter -/

/-- What an effect leaves open is not part of the transmitter. -/
theorem Same.tx {s t : Stm32Uart} (h : Same s t) : s.tx = t.tx := h.field _ fun _ => rfl

/-- The interrupt keeps the transmitter. -/
@[simp] theorem updateIrq_tx (s : Stm32Uart) : (updateIrq s).tx = s.tx := by
  rw [updateIrq_eq]
  rfl

/-- The byte a write to the data register hands over.  The debug port has no data
register. -/
def Event.drByte (p : Periph) : Event → Option (BitVec 8)
  | .write offset value size =>
    if p ≠ .uart5 ∧ offset / 4 * 4 = 0x04 then some ((merge 0#32 offset value size).setWidth 8)
    else none
  | _ => none

/-- The byte that an access hands over. -/
def Access.byte : Access → Option (BitVec 8)
  | .writeDR b => some b
  | _ => none

/-- The byte of an event is the one of its access. -/
theorem Event.drByte_eq (p : Periph) (e : Event) : e.drByte p = (e.access p).byte := by
  cases e with
  | write offset value size =>
    rw [Event.drByte, Event.access]
    by_cases hp : p = .uart5
    · rw [if_neg (by tauto), if_pos hp]
      rfl
    · rw [if_neg hp]
      split
      case isTrue hreg =>
        rw [hreg.2]
        rfl
      case isFalse hreg =>
        have hne : offset / 4 * 4 ≠ 4 := fun h => hreg ⟨hp, h⟩
        split
        case h_2 h => exact absurd h hne
        all_goals rfl
  | read offset size =>
    rw [Event.access]
    split_ifs <;> rfl
  | _ => rfl

/-- **Every effect moves the transmitter**, and only a write to the data register
gives it a byte. -/
theorem Effect.tx {s s' : Stm32Uart} {a : Access} (h : Effect s a s') (ha : a ≠ .reset) :
    TxStep s.tx a.byte s'.tx := by
  cases h with
  | other h =>
    rw [h.tx]
    exact .idle s.tx
  | readDR ore _ _ _ _ h =>
    rw [h.tx, updateIrq_tx]
    exact .idle s.tx
  | writeSR h =>
    rw [h.tx, updateIrq_tx]
    exact .clear s.tx
  | startDR b d hTC h =>
    rw [h.tx, updateIrq_tx]
    exact .start s.tx b hTC
  | holdDR w hTC hTXE h =>
    rw [h.tx, updateIrq_tx]
    exact .hold s.tx _ hTC hTXE
  | writeCR1 _ _ _ _ _ _ h =>
    rw [h.tx, updateIrq_tx]
    exact .idle s.tx
  | ignored ch d _ h =>
    rw [h.tx]
    exact .idle s.tx
  | received ch d _ _ h =>
    rw [h.tx, updateIrq_tx]
    exact .idle s.tx
  | rxTimer h =>
    rw [h.tx]
    exact .idle s.tx
  | txFinish hTXE h =>
    rw [h.tx, updateIrq_tx]
    exact .finish s.tx hTXE
  | txShift d hTXE h =>
    rw [h.tx, updateIrq_eq]
    exact .shift s.tx hTXE
  | reset => exact absurd rfl ha

/-- **Every step but a reset is a move of the transmitter.** -/
theorem step_tx {env : Env} {s s' : Stm32Uart} {e : Event} (he : e ≠ .reset)
    (h : step env s e = .ok s') : TxStep s.tx (e.drByte s.periph) s'.tx := by
  rw [Event.drByte_eq]
  exact (step_effect h).tx (Event.access_ne_reset he)

/-- A reset empties the transmitter and leaves the backend. -/
theorem reset_tx {env : Env} {s s' : Stm32Uart} (h : reset env s = .ok s') :
    s'.tx = { s.tx with txe := true, tc := true } := by
  cases reset_effect h with
  | reset hs' =>
    rw [hs'.tx, updateIrq_tx]
    rfl

/-- The bytes of the writes to the data register, in order. -/
def accepted (p : Periph) (l : List (Env × Event)) : List (BitVec 8) :=
  l.flatMap fun i => (i.2.drByte p).toList

/-- **No byte is lost, duplicated or reordered.**  Since a reset, the bytes written
to the data register are the bytes handed to the backend followed by the byte in
`USART_TDR` exactly when `TXE = 0`, whatever else happened in between. -/
theorem uart_bytes_conserved (env₀ : Env) (s₀ s₁ s : Stm32Uart) (bs : List (BitVec 8))
    (l : List (Env × Event)) (hchr : s₀.chr = some bs) (hreset : reset env₀ s₀ = .ok s₁)
    (hl : ∀ i ∈ l, i.2 ≠ .reset) (h : Run Step s₁ l s) :
    ∃ handed, s.chr = some (bs ++ handed) ∧
      accepted s₀.periph l = handed ++ if s.TXE then [] else [s.TDR.setWidth 8] := by
  have htx₁ := reset_tx hreset
  have hsent₁ : s₁.tx.sent = some bs := by rw [htx₁]; exact hchr
  let J : Stm32Uart → Prop :=
    fun s => s.tx.Ok ∧ bs <+: s.tx.sent.getD [] ∧ s.periph = s₀.periph
  have hJ₁ : J s₁ := by
    refine ⟨⟨by simp [hsent₁], fun he => ?_⟩, by simp [hsent₁], ?_⟩
    · rw [htx₁] at he
      exact absurd he (by simp)
    · exact congrArg Tx.periph htx₁
  have hstep : ∀ s i s', J s → Guarded Step (fun _ i => i.2 ≠ .reset) s i s' →
      J s' ∧ s'.tx.stream = s.tx.stream ++ (i.2.drByte s₀.periph).toList := by
    rintro s ⟨env, e⟩ s' ⟨hok, hpre, hp⟩ ⟨⟨-, hs'⟩, he⟩
    have hmove := step_tx he hs'
    rw [hp] at hmove
    obtain ⟨hok', hstream⟩ := hmove.stream_eq hok
    obtain ⟨hpre', hp'⟩ := hmove.sent_prefix
    exact ⟨⟨hok', hpre.trans hpre', hp'.trans hp⟩, hstream⟩
  have hrun := h.guarded_of_forall hl
  obtain ⟨⟨hconn, -⟩, ⟨handed, hpre⟩, -⟩ : J s :=
    hrun.invariant (fun s i s' hs hi => (hstep s i s' hs hi).1) hJ₁
  have hlog := hrun.log_eq hstep hJ₁
  obtain ⟨out, hout⟩ := Option.isSome_iff_exists.1 hconn
  have hout' : out = bs ++ handed := by rw [hpre, hout, Option.getD_some]
  have hstream₁ : s₁.tx.stream = bs := by
    have htxe : s₁.tx.txe = true := by rw [htx₁]
    simp [Tx.stream, hsent₁, htxe]
  refine ⟨handed, by rw [← hout']; exact hout, ?_⟩
  rw [hstream₁, Tx.stream, hout, Option.getD_some, hout', List.append_assoc] at hlog
  exact (List.append_cancel_left hlog).symm

/-- Two bytes, the second one written while the first is on the line. -/
theorem uart_bytes_conserved_two :
    ∃ s₁ s handed, reset (exampleEnv 0) (.alloc .uart1 true 0) = .ok s₁ ∧
      Run Step s₁ [(exampleEnv 0, .write 0x0c 0x2008 4), (exampleEnv 1, .write 0x04 0x41 4),
        (exampleEnv 2, .write 0x04 0x42 4)] s ∧
      s.TXE = false ∧ s.chr = some ([] ++ handed) ∧ [0x41#8, 0x42#8] = handed ++ [0x42#8] := by
  have hall : ∃ s₁ s, reset (exampleEnv 0) (.alloc .uart1 true 0) = .ok s₁ ∧
      Run Step s₁ [(exampleEnv 0, .write 0x0c 0x2008 4), (exampleEnv 1, .write 0x04 0x41 4),
        (exampleEnv 2, .write 0x04 0x42 4)] s ∧ s.TXE = false ∧ s.TDR = 0x42#32 :=
    ⟨_, _, rfl, .cons ⟨⟨by decide, rfl⟩, rfl⟩ (.cons ⟨⟨by decide, rfl⟩, rfl⟩
      (.cons ⟨⟨by decide, rfl⟩, rfl⟩ (.nil _))), rfl, rfl⟩
  obtain ⟨s₁, s, hreset, hrun, htxe, htdr⟩ := hall
  obtain ⟨handed, hsent, hacc⟩ :=
    uart_bytes_conserved _ _ _ _ [] _ rfl hreset (by simp) hrun
  rw [htxe, htdr] at hacc
  exact ⟨s₁, s, handed, hreset, hrun, htxe, hsent, hacc⟩

/-! ### The line is busy while the timer runs -/

/-- The transmitter is served: while it is busy, its timer is armed. -/
def Served (s : Stm32Uart) : Prop := s.TC = false ∨ s.TXE = false → s.txTimer.isSome = true

/-- The status register is written only while the transmit timer is armed. -/
def ClearsBusy (s : Stm32Uart) (i : Env × Event) : Prop :=
  i.2.access s.periph = .writeSR → s.txTimer.isSome = true

/-- What `Served` looks at. -/
theorem Same.served_iff {s t : Stm32Uart} (h : Same s t) : Served s ↔ Served t :=
  iff_of_eq (h.field Served fun _ => rfl)

/-- The interrupt keeps the timer. -/
theorem served_updateIrq {s : Stm32Uart} (h : Served s) : Served (updateIrq s) := by
  rw [updateIrq_eq]
  exact h

/-- An idle transmitter needs no timer. -/
theorem served_of_idle {s : Stm32Uart} (hTC : s.TC = true) (hTXE : s.TXE = true) : Served s := by
  rintro (h | h)
  · exact absurd (hTC.symm.trans h) (by decide)
  · exact absurd (hTXE.symm.trans h) (by decide)

/-- A busy transmitter keeps its timer, unless the status register is written without one. -/
theorem Effect.served {s s' : Stm32Uart} {a : Access} (h : Effect s a s') (hs : Served s)
    (ha : a = .writeSR → s.txTimer.isSome = true) : Served s' := by
  cases h with
  | other h => exact h.served_iff.2 hs
  | readDR ore _ _ _ _ h => exact h.served_iff.2 (served_updateIrq hs)
  | writeSR h => exact h.served_iff.2 (served_updateIrq fun _ => ha rfl)
  | startDR b d _ h => exact h.served_iff.2 (served_updateIrq fun _ => rfl)
  -- the line is busy already
  | holdDR w hTC _ h => exact h.served_iff.2 (served_updateIrq fun _ => hs (Or.inl hTC))
  | writeCR1 _ _ _ _ _ _ h => exact h.served_iff.2 (served_updateIrq hs)
  | ignored ch d _ h => exact h.served_iff.2 hs
  | received ch d _ _ h => exact h.served_iff.2 (served_updateIrq hs)
  | rxTimer h => exact h.served_iff.2 hs
  | txFinish hTXE h => exact h.served_iff.2 (served_updateIrq (served_of_idle rfl hTXE))
  | txShift d _ h => exact h.served_iff.2 fun _ => rfl
  | reset h => exact h.served_iff.2 (served_updateIrq (served_of_idle rfl rfl))

/-- **One effect.**  A served transmitter stays served exactly if `TC` is not cleared
while no byte is on the line. -/
theorem Effect.served_iff {s s' : Stm32Uart} {a : Access} (h : Effect s a s') (hs : Served s) :
    Served s' ↔ (a = .writeSR → s.txTimer.isSome = true) := by
  refine ⟨fun hs' ha => ?_, h.served hs⟩
  subst ha
  cases h with
  | writeSR h =>
    have htimer : s'.txTimer = s.txTimer := by
      rw [h.field Stm32Uart.txTimer fun _ => rfl, updateIrq_eq]
    have hTC : s'.TC = false := by
      rw [h.field Stm32Uart.TC fun _ => rfl, updateIrq_eq]
    rw [← htimer]
    exact hs' (Or.inl hTC)

/-- **The transmitter is never stuck**, in any state of a run from a reset, exactly
if the run writes the status register only while the transmit timer is armed: the
flag `TC` is both what software clears and how the USART knows that a byte is on
the line. -/
theorem uart_served_iff (env₀ : Env) (s₀ s₁ s : Stm32Uart) (l : List (Env × Event))
    (hreset : reset env₀ s₀ = .ok s₁) (h : Run Step s₁ l s) :
    (∀ l₁ u, l₁ <+: l → Run Step s₁ l₁ u →
      (u.TC = false ∨ u.TXE = false → u.txTimer.isSome = true)) ↔
      Run (Guarded Step ClearsBusy) s₁ l s := by
  have hs₁ : Served s₁ := by
    have htx := reset_tx hreset
    exact served_of_idle (congrArg Tx.tc htx) (congrArg Tx.txe htx)
  exact Run.forall_prefix_iff (J := fun _ => True) step_det (fun _ _ _ _ _ => trivial)
    (fun _ _ _ _ hs hstep => (step_effect hstep.2).served_iff hs) h trivial hs₁

/-- Software clears `TC` while a byte is on the line, and the byte completes. -/
theorem uart_served_while_busy :
    ∃ s₁ s, reset (exampleEnv 0) (.alloc .uart1 true 0) = .ok s₁ ∧
      Run (Guarded Step ClearsBusy) s₁ [(exampleEnv 0, .write 0x0c 0x2008 4),
        (exampleEnv 1, .write 0x04 0x41 4), (exampleEnv 1, .write 0x00 0 4)] s ∧
      (s.TC = false ∨ s.TXE = false → s.txTimer.isSome = true) := by
  have hall : ∃ s₁ s, reset (exampleEnv 0) (.alloc .uart1 true 0) = .ok s₁ ∧
      Run (Guarded Step ClearsBusy) s₁ [(exampleEnv 0, .write 0x0c 0x2008 4),
        (exampleEnv 1, .write 0x04 0x41 4), (exampleEnv 1, .write 0x00 0 4)] s :=
    ⟨_, _, rfl, .cons ⟨⟨⟨by decide, rfl⟩, rfl⟩, Access.noConfusion⟩
      (.cons ⟨⟨⟨by decide, rfl⟩, rfl⟩, Access.noConfusion⟩
        (.cons ⟨⟨⟨by decide, rfl⟩, rfl⟩, fun _ => rfl⟩ (.nil _)))⟩
  obtain ⟨s₁, s, hreset, hrun⟩ := hall
  have hplain := hrun.mono fun _ _ _ h => h.1
  exact ⟨s₁, s, hreset, hrun,
    (uart_served_iff _ _ _ _ _ hreset hplain).2 hrun _ s List.prefix_rfl hplain⟩

/-- Software clears `TC` of an idle USART.  The next byte waits in the buffer for a
timer that nobody has armed, and the one after it faults. -/
theorem uart_stuck_after_clear :
    ∃ s₁ s, reset (exampleEnv 0) (.alloc .uart1 true 0) = .ok s₁ ∧
      Run Step s₁ [(exampleEnv 0, .write 0x0c 0x2008 4), (exampleEnv 1, .write 0x00 0 4),
        (exampleEnv 2, .write 0x04 0x41 4)] s ∧
      s.TC = false ∧ s.TXE = false ∧ s.txTimer = none ∧
      write (exampleEnv 3) s 0x04 0x42 4 =
        .error (.hwError "Wrote new value to USART_DR while it was non-empty.") :=
  ⟨_, _, rfl, .cons ⟨⟨by decide, rfl⟩, rfl⟩ (.cons ⟨⟨by decide, rfl⟩, rfl⟩
    (.cons ⟨⟨by decide, rfl⟩, rfl⟩ (.nil _))), rfl, rfl, rfl, rfl⟩

end Uart
end Especial
