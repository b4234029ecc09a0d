/-
# Bytes sent by polling

`send_byte` of `src/hal/helper.c`: it writes a byte to the data register of a USART and
then reads the status register until `TXE` is set.  The USART stops the emulator when the
data register is written while it is not empty, and `send_byte` does not look before it
writes: that the register is empty is what the loop of the call before it has waited for.

The firmware and the USART run side by side.  Between two accesses of the firmware the
timers of the USART expire at any time, and characters come in.  The invariant `Sending`
says what holds between any two steps; with it no access stops the emulator, and whenever
no call is running the backend has been handed all bytes (`send_byte_delivers`).
-/

import Especial.Uart.Registers
import Especial.Uart.Transmit

namespace Especial
namespace Uart
namespace SendByte

open Qemu Stm32 Lib

/-! ### The firmware -/

/-- `USART_FLAG_TXE`. -/
def USART_FLAG_TXE : BitVec 16 := 0x80

/-- `USART_SendData`: the data register is a half-word. -/
def sendData (env : Env) (u : Stm32Uart) (data : BitVec 16) : Except Fault Stm32Uart :=
  write env u 0x04 ((data &&& 0x1ff#16).setWidth 64) 2

/-- `USART_GetFlagStatus`, `true` for `SET`. -/
def getFlagStatus (u : Stm32Uart) (flag : BitVec 16) : Except Fault (Bool × Stm32Uart) := do
  let (sr, u) ← read u 0x00 2
  return (sr.setWidth 16 &&& flag != 0#16, u)

/-- Where the firmware is. -/
inductive Pc
  /-- no call of `send_byte` is running -/
  | idle
  /-- in the loop of `send_byte`, before a read of the status register -/
  | poll
  deriving DecidableEq, Repr

/-- The USART and the firmware that sends a list of bytes. -/
structure Sys where
  uart : Stm32Uart
  pc : Pc
  /-- the bytes still to be sent -/
  todo : List (BitVec 8)
  /-- the bytes `send_byte` was called with -/
  sent : List (BitVec 8)

/-- The firmware before its first call. -/
def start (u : Stm32Uart) (bytes : List (BitVec 8)) : Sys := ⟨u, .idle, bytes, []⟩

/-- Who moves. -/
inductive Label
  | firmware
  | txTimer
  | rxTimer
  | receive (ch : BitVec 8)
  deriving DecidableEq, Repr

/-- `send_byte`, one access at a time: the write at the start of a call, or one read in its
loop. -/
def firmwareStep (env : Env) (t : Sys) : Except Fault Sys :=
  match t.pc, t.todo with
  | .idle, [] => return t
  | .idle, b :: todo => do
    let uart ← sendData env t.uart (b.setWidth 16 &&& 0xff#16)
    return { uart := uart, pc := .poll, todo := todo, sent := t.sent ++ [b] }
  | .poll, _ => do
    let (set, uart) ← getFlagStatus t.uart USART_FLAG_TXE
    return { t with uart := uart, pc := if set then .idle else .poll }

/-- A callback of the USART. -/
def deviceStep (env : Env) (t : Sys) (e : Event) : Except Fault Sys := do
  let uart ← Uart.step env t.uart e
  return { t with uart := uart }

/-- What a move does. -/
def step (env : Env) (t : Sys) : Label → Except Fault Sys
  | .firmware => firmwareStep env t
  | .txTimer => deviceStep env t .txTimer
  | .rxTimer => deviceStep env t .rxTimer
  | .receive ch => deviceStep env t (.receive ch)

/-- When it can happen: a byte is left or a call is running, or a timer is due. -/
def Label.Enabled (env : Env) (t : Sys) : Label → Prop
  | .firmware => t.pc = .poll ∨ t.todo ≠ []
  | .txTimer => Event.txTimer.Enabled env t.uart
  | .rxTimer => Event.rxTimer.Enabled env t.uart
  | .receive _ => True

/-- A step of a run, without a fault. -/
def Step (t : Sys) (i : Env × Label) (t' : Sys) : Prop :=
  i.2.Enabled i.1 t ∧ step i.1 t i.2 = .ok t'

/-! ### Moves of the USART -/

variable {env : Env} {u u' : Stm32Uart}

/-- The USART moves its transmitter and nothing of its configuration. -/
structure Moves (u : Stm32Uart) (b : Option (BitVec 8)) (u' : Stm32Uart) : Prop where
  config : u'.config = u.config
  tx : TxStep u.tx b u'.tx
  served : Served u → Served u'

/-- An effect that keeps the configuration is a move. -/
theorem Moves.of_effect {a : Access} (h : Effect u a u') (hconfig : u'.config = u.config)
    (hsr : a ≠ .writeSR) (hreset : a ≠ .reset) : Moves u a.byte u' :=
  ⟨hconfig, h.tx hreset, fun hs => h.served hs fun ha => absurd ha hsr⟩

/-- The byte that comes out of the half-word that `send_byte` stores. -/
theorem merge_byte (b : BitVec 8) : (merge 0#32 0x04
    ((b.setWidth 16 &&& 0xff#16 &&& 0x1ff#16).setWidth 64) 2).setWidth 8 = b := by
  apply BitVec.eq_of_getLsbD_eq
  intro i hi
  have hmask : ∀ i < 8, (0xff#16).getLsbD i = true ∧ (0x1ff#16).getLsbD i = true := by decide
  have hsub : i - 0x04 % 4 * 8 = i := by omega
  have h16 : i < 16 := by omega
  have h64 : i < 64 := by omega
  rw [BitVec.getLsbD_setWidth, getLsbD_merge (by omega) (by decide), if_pos (by omega), hsub,
    BitVec.getLsbD_setWidth, BitVec.getLsbD_and, BitVec.getLsbD_and, BitVec.getLsbD_setWidth,
    (hmask i hi).1, (hmask i hi).2]
  simp [hi, h16, h64]

/-- `USART_SendData` gives the transmitter its byte. -/
theorem sendData_moves {b : BitVec 8} (hport : u.periph ≠ .uart5)
    (h : sendData env u (b.setWidth 16 &&& 0xff#16) = .ok u') : Moves u (some b) u' := by
  have heffect := write_effect h
  have haccess : (Event.write 0x04 ((b.setWidth 16 &&& 0xff#16 &&& 0x1ff#16).setWidth 64) 2).access
      u.periph = .writeDR b := by
    rw [Event.access, if_neg hport]
    exact congrArg Access.writeDR (merge_byte b)
  rw [haccess] at heffect
  refine .of_effect heffect (write_config h hport fun r => ?_) (by simp) (by simp)
  cases r <;> decide

/-- An empty data register takes a byte. -/
theorem sendData_returns (data : BitVec 16) (hport : u.periph ≠ .uart5) (hUE : u.UE = true)
    (hTE : u.TE = true) (hpin : checkTxPin env u = .ok ()) (hTXE : u.TXE = true) :
    ∃ u', sendData env u data = .ok u' := by
  obtain ⟨w, hw⟩ := checkPeriphClk_frame env u
  have hpin' : checkTxPin env { u with warnings := w } = .ok () := hpin
  rw [sendData, write_dr_eq rfl hport, hw, drWrite, hpin']
  simp only [hUE, hTE, hTXE]
  cases u.TC <;> exact ⟨_, rfl⟩

/-- The flag is `TXE`, and the read changes no more than the memory of an overrun. -/
theorem getFlagStatus_eq (u : Stm32Uart) :
    getFlagStatus u USART_FLAG_TXE = .ok (u.TXE, (srRead u).2) := by
  have hflag : ((extract64 (u.SR.setWidth 64) 0 16).setWidth 16 &&& USART_FLAG_TXE != 0#16) =
      u.TXE := by
    unfold Stm32Uart.SR
    generalize u.TXE = a, u.TC = b, u.RXNE = c, u.ORE = d
    cases a <;> cases b <;> cases c <;> cases d <;> rfl
  have hread : getFlagStatus u USART_FLAG_TXE =
      .ok ((extract64 (u.SR.setWidth 64) 0 16).setWidth 16 &&& USART_FLAG_TXE != 0#16,
        (srRead u).2) := rfl
  rw [hread, hflag]

/-- A read of the status register gives it none. -/
theorem srRead_moves (u : Stm32Uart) : Moves u none (srRead u).2 := by
  obtain ⟨b, hb⟩ := srRead_frame u
  have heffect : Effect u .other (srRead u).2 := .other (by rw [hb]; rfl)
  exact .of_effect heffect (by rw [hb]; rfl) nofun nofun

/-- Neither does the transmit timer. -/
theorem txTimer_moves (env : Env) (u : Stm32Uart) :
    Moves u none (txTimerExpire env { u with txTimer := none }) :=
  .of_effect (txTimer_effect env u) (txComplete_config env { u with txTimer := none }) nofun nofun

/-- Neither does the receive timer. -/
theorem rxTimer_moves (u : Stm32Uart) : Moves u none (rxTimerExpire { u with rxTimer := none }) :=
  .of_effect (.rxTimer rfl) rfl nofun nofun

/-- Neither does a character that comes in. -/
theorem receive_moves (env : Env) (u : Stm32Uart) (ch : BitVec 8) :
    Moves u none (receive env u ch) :=
  .of_effect (receive_effect env u ch) (receive_config env u ch) nofun nofun

/-- A move without a byte leaves an empty data register empty. -/
theorem TXE_of_moves (h : Moves u none u') (hTXE : u.TXE = true) : u'.TXE = true := by
  have hkept : ∀ {t t' : Tx}, TxStep t none t' → t.txe = true → t'.txe = true := by
    intro t t' hstep htxe
    cases hstep with
    | idle | clear | finish => exact htxe
    | shift => rfl
  exact hkept h.tx hTXE

/-- When the line is free, the byte that waits leaves the data register. -/
theorem txTimerExpire_TXE (env : Env) (u : Stm32Uart) :
    (txTimerExpire env { u with txTimer := none }).TXE = true := by
  have hirq : ∀ t : Stm32Uart, (updateIrq t).TXE = t.TXE := fun t => by rw [updateIrq_eq]
  unfold txTimerExpire txComplete
  split_ifs with hTXE
  · exact (hirq _).trans hTXE
  · exact hirq { u with txTimer := none, TXE := true }

/-! ### The invariant -/

/-- A USART that is enabled, transmits and is idle. -/
structure Ready (u : Stm32Uart) : Prop where
  port : u.periph ≠ .uart5
  UE : u.UE = true
  TE : u.TE = true
  TC : u.TC = true
  TXE : u.TXE = true

/-- What holds between any two steps since the USART was `u₀`. -/
structure Sending (u₀ : Stm32Uart) (bytes : List (BitVec 8)) (t : Sys) : Prop where
  config : t.uart.config = u₀.config
  served : Served t.uart
  busy : t.uart.tx.Busy
  out : t.uart.tx.out = u₀.chr.map (· ++ t.sent)
  /-- between two calls the data register is empty -/
  empty : t.pc = .idle → t.uart.TXE = true
  bytes : t.sent ++ t.todo = bytes

variable {u₀ : Stm32Uart} {bytes : List (BitVec 8)} {t t' : Sys}

/-- Before the first call. -/
theorem sending_start (h : Ready u₀) (bytes : List (BitVec 8)) :
    Sending u₀ bytes (start u₀ bytes) where
  config := rfl
  served := served_of_idle h.TC h.TXE
  busy := fun hTXE => absurd (h.TXE.symm.trans hTXE) (by decide)
  out := by simp [start, Tx.out, Stm32Uart.tx, h.TXE]
  empty := fun _ => h.TXE
  bytes := rfl

/-- The USART stays the one it was. -/
theorem Sending.port (h : Sending u₀ bytes t) : t.uart.periph = u₀.periph := by
  have hconfig := congrArg Stm32Uart.periph h.config
  exact hconfig

/-- A move without a byte, with the firmware where it is or back from a call. -/
theorem Sending.quiet {pc : Pc} (h : Sending u₀ bytes t) (hmove : Moves t.uart none u')
    (hpc : pc = .idle → t.uart.TXE = true) :
    Sending u₀ bytes { t with uart := u', pc := pc } := by
  obtain ⟨hbusy, hout⟩ := hmove.tx.out_eq h.busy
  refine ⟨hmove.config.trans h.config, hmove.served h.served, hbusy, ?_, ?_, h.bytes⟩
  · rw [hout, h.out, Option.map_map]
    simp [Function.comp_def]
  · exact fun hidle => TXE_of_moves hmove (hpc hidle)

/-- The write at the start of a call. -/
theorem Sending.write {b : BitVec 8} {todo : List (BitVec 8)} (h : Sending u₀ bytes t)
    (htodo : t.todo = b :: todo) (hmove : Moves t.uart (some b) u') :
    Sending u₀ bytes { uart := u', pc := .poll, todo := todo, sent := t.sent ++ [b] } := by
  obtain ⟨hbusy, hout⟩ := hmove.tx.out_eq h.busy
  refine ⟨hmove.config.trans h.config, hmove.served h.served, hbusy, ?_, nofun, ?_⟩
  · rw [hout, h.out, Option.map_map]
    simp [Function.comp_def]
  · rw [← h.bytes, htodo, List.append_assoc]
    rfl

/-- The firmware's next access. -/
theorem Sending.firmwareStep (h : Sending u₀ bytes t) (hready : Ready u₀)
    (hs : firmwareStep env t = .ok t') : Sending u₀ bytes t' := by
  unfold SendByte.firmwareStep at hs
  split at hs
  case h_1 => exact pure_eq_ok.1 hs ▸ h
  case h_2 b todo _ htodo =>
    obtain ⟨u', hsend, hs⟩ := bind_eq_ok.1 hs
    obtain rfl := pure_eq_ok.1 hs
    exact h.write htodo (sendData_moves (h.port ▸ hready.port) hsend)
  case h_3 =>
    rw [getFlagStatus_eq, ok_bind] at hs
    obtain rfl := pure_eq_ok.1 hs
    refine h.quiet (srRead_moves t.uart) fun hpc => ?_
    by_contra hTXE
    rw [if_neg hTXE] at hpc
    exact absurd hpc (by decide)

/-- **One step** keeps the invariant. -/
theorem Sending.step (h : Sending u₀ bytes t) (hready : Ready u₀) {i : Env × Label}
    (hs : Step t i t') : Sending u₀ bytes t' := by
  obtain ⟨env, lab⟩ := i
  obtain ⟨-, hs⟩ := hs
  have hdevice : ∀ {e : Event} {u' : Stm32Uart}, Uart.step env t.uart e = .ok u' →
      Moves t.uart none u' → deviceStep env t e = .ok t' → Sending u₀ bytes t' := by
    intro e u' hstep hmove hs
    rw [deviceStep, hstep, ok_bind] at hs
    obtain rfl := pure_eq_ok.1 hs
    exact h.quiet hmove h.empty
  cases lab with
  | firmware => exact h.firmwareStep hready hs
  | txTimer => exact hdevice rfl (txTimer_moves env t.uart) hs
  | rxTimer => exact hdevice rfl (rxTimer_moves t.uart) hs
  | receive ch => exact hdevice rfl (receive_moves env t.uart ch) hs

/-- **A run** keeps it. -/
theorem sending_of_run {l : List (Env × Label)} (hready : Ready u₀)
    (hrun : Run Step (start u₀ bytes) l t) : Sending u₀ bytes t :=
  hrun.invariant (fun _ _ _ h hs => h.step hready hs) (sending_start hready bytes)

/-- Whatever comes next does not stop the emulator. -/
theorem Sending.returns (h : Sending u₀ bytes t) (hready : Ready u₀)
    (hpin : checkTxPin env u₀ = .ok ()) (lab : Label) :
    ∃ t', SendByte.step env t lab = .ok t' := by
  cases lab with
  | txTimer | rxTimer | receive => exact ⟨_, rfl⟩
  | firmware =>
    show ∃ t', SendByte.firmwareStep env t = .ok t'
    unfold SendByte.firmwareStep
    split
    case h_1 => exact ⟨t, rfl⟩
    case h_2 b todo hpc _ =>
      have hUE : t.uart.UE = true := (congrArg Stm32Uart.UE h.config).trans hready.UE
      have hTE : t.uart.TE = true := (congrArg Stm32Uart.TE h.config).trans hready.TE
      have hpin' : checkTxPin env t.uart = .ok () := by
        rw [← hpin, checkTxPin, checkTxPin, h.port]
      obtain ⟨u', hsend⟩ :=
        sendData_returns (b.setWidth 16 &&& 0xff#16) (h.port ▸ hready.port)
        hUE hTE hpin' (h.empty hpc)
      rw [hsend]
      exact ⟨_, rfl⟩
    case h_3 =>
      rw [getFlagStatus_eq]
      exact ⟨_, rfl⟩

/-- Once the data register is empty, the next read of the loop is the last. -/
theorem poll_returns (env : Env) (hpc : t.pc = .poll) (hTXE : t.uart.TXE = true) :
    Step t (env, .firmware) { t with uart := (srRead t.uart).2, pc := .idle } := by
  refine ⟨Or.inl hpc, ?_⟩
  show firmwareStep env t = _
  rw [firmwareStep, hpc]
  dsimp only
  rw [getFlagStatus_eq, hTXE]
  rfl

/-- A call that is running can return: the byte that keeps it in its loop is sent when the
transmit timer expires, and the timer is armed. -/
theorem Sending.can_return (h : Sending u₀ bytes t) (env : Env) (hpc : t.pc = .poll) :
    ∃ l t', Run Step t l t' ∧ t'.pc = .idle ∧ t'.sent = t.sent := by
  rcases Bool.eq_false_or_eq_true t.uart.TXE with hTXE | hTXE
  · exact ⟨_, _, .cons (poll_returns env hpc hTXE) (.nil _), rfl, rfl⟩
  · obtain ⟨d, hd⟩ := Option.isSome_iff_exists.1 (h.served (Or.inr hTXE))
    have hexpire : Step t ({ env with now := d }, .txTimer)
        { t with uart := txTimerExpire { env with now := d } { t.uart with txTimer := none } } :=
      ⟨⟨d, hd, BitVec.le_refl d⟩, rfl⟩
    have hTXE' := txTimerExpire_TXE { env with now := d } t.uart
    exact ⟨_, _, .cons hexpire (.cons (poll_returns env hpc hTXE') (.nil _)), rfl, rfl⟩

/-- Between two calls the backend has the bytes of all calls. -/
theorem Sending.delivered (h : Sending u₀ bytes t) (hpc : t.pc = .idle) :
    t.uart.chr = u₀.chr.map (· ++ t.sent) := by
  rw [← h.out]
  simp [Tx.out, Stm32Uart.tx, h.empty hpc]

/-- **Polling is enough.**  Let the USART have been reset, and be enabled and idle.  For
every list of bytes and in every state of every run, in which the timers expire and
characters come in as they may: whatever comes next does not stop the emulator, the bytes
are sent in their order, and while no call of `send_byte` is running the backend has exactly
the bytes sent so far.  A call that is running can return. -/
theorem send_byte_delivers (env₀ : Env) (u₀ u₁ u : Stm32Uart) (l₀ : List (Env × Event))
    (bytes : List (BitVec 8)) (l : List (Env × Label)) (t : Sys)
    (hreset : reset env₀ u₀ = .ok u₁) (hrun₀ : Run Uart.Step u₁ l₀ u)
    (hUE : u.UE = true) (hTE : u.TE = true) (hTC : u.TC = true) (hTXE : u.TXE = true)
    (hrun : Run Step (start u bytes) l t) :
    (∀ env lab, checkTxPin env u = .ok () → lab.Enabled env t →
      ∃ t', Step t (env, lab) t') ∧ t.sent ++ t.todo = bytes ∧
      (t.pc = .idle → t.uart.chr = u.chr.map (· ++ t.sent)) ∧
      (t.pc = .poll → ∃ l' t', Run Step t l' t' ∧ t'.pc = .idle ∧ t'.sent = t.sent) := by
  have hready : Ready u := ⟨ne_uart5_of_UE hreset hrun₀ hUE, hUE, hTE, hTC, hTXE⟩
  have hsending : Sending u bytes t := sending_of_run hready hrun
  refine ⟨fun env lab hpin henabled => ?_, hsending.bytes, hsending.delivered,
    hsending.can_return env₀⟩
  obtain ⟨t', ht'⟩ := hsending.returns hready hpin lab
  exact ⟨t', henabled, ht'⟩

/-- Two bytes: the second one waits for the first, and the firmware for the second. -/
theorem send_byte_delivers_two :
    ∃ u₁ u l t, reset (exampleEnv 0) (.alloc .uart2 true 0) = .ok u₁ ∧
    Run Uart.Step u₁ [(exampleEnv 0, .write 0x0c 0x2008 4)] u ∧
    Run Step (start u [0x41#8, 0x42#8]) l t ∧ t.pc = .idle ∧ t.sent = [0x41#8, 0x42#8] ∧
    t.uart.chr = some ([] ++ t.sent) := by
  have hall : ∃ u₁ u t, reset (exampleEnv 0) (.alloc .uart2 true 0) = .ok u₁ ∧
      Run Uart.Step u₁ [(exampleEnv 0, .write 0x0c 0x2008 4)] u ∧
      (u.UE = true ∧ u.TE = true ∧ u.TC = true ∧ u.TXE = true ∧ u.chr = some []) ∧
      Run Step (start u [0x41#8, 0x42#8]) [(exampleEnv 1, .firmware), (exampleEnv 2, .firmware),
        (exampleEnv 3, .firmware), (exampleEnv 4, .firmware), (exampleEnv 5, .txTimer),
        (exampleEnv 6, .firmware)] t ∧ t.pc = .idle ∧ t.sent = [0x41#8, 0x42#8] :=
    ⟨_, _, _, rfl, .cons ⟨⟨by decide, rfl⟩, rfl⟩ (.nil _), ⟨rfl, rfl, rfl, rfl, rfl⟩,
      .cons ⟨Or.inr nofun, rfl⟩ (.cons ⟨Or.inl rfl, rfl⟩ (.cons ⟨Or.inr nofun, rfl⟩
        (.cons ⟨Or.inl rfl, rfl⟩ (.cons ⟨⟨_, rfl, by decide⟩, rfl⟩
          (.cons ⟨Or.inl rfl, rfl⟩ (.nil _)))))), rfl, rfl⟩
  obtain ⟨u₁, u, t, hreset, hrun₀, ⟨hUE, hTE, hTC, hTXE, hchr⟩, hrun, hpc, hsent⟩ :=
    hall
  obtain ⟨-, -, hdone, -⟩ :=
    send_byte_delivers (exampleEnv 0) _ u₁ u _ [0x41#8, 0x42#8] _ t hreset
    hrun₀ hUE hTE hTC hTXE hrun
  refine ⟨u₁, u, _, t, hreset, hrun₀, hrun, hpc, hsent, ?_⟩
  rw [hdone hpc, hchr]
  rfl

end SendByte
end Uart
end Especial
