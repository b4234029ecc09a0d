/-
# The UARTs and their pin mappings

The UARTs with the AFIO and the GPIO ports.  The mapping of a USART is in the AFIO: it is
compared with the wiring of the board when the USART is enabled
(`stm32_uart_USART_CR1_write`), and looked at again in every write to the data register,
to find the port and the pin to check (`stm32_uart_check_tx_pin`).  In between, software
may write another mapping to `MAPR`.

The value `2` of the field of USART3 is reserved.  A USART3 that is enabled before the
field is set to it runs into `assert(false)` with the next write to its data register, and
this is the only way to get there (`dr_write_asserts_iff`).
-/

import Especial.Afio.Registers
import Especial.Soc.Basic
import Especial.Uart.Registers

namespace Especial
namespace Soc
namespace Mapping

open Qemu Stm32 Lib Gpio Afio Uart

/-! ### The machine -/

/-- The AFIO with the ports, and the UARTs. -/
structure Machine where
  io : Io
  uart : UartNumber → Stm32Uart

/-- `STM32_GPIO_INDEX_FROM_PERIPH`, `periph - STM32_GPIOA`. -/
def gpioIndexFromPeriph (p : Periph) : Option (Fin GPIO_COUNT) :=
  if h :
    p.number - Periph.gpioa.number < GPIO_COUNT then some ⟨p.number - Periph.gpioa.number, h⟩
  else none

/-- The environment of a UART, with the mappings of the AFIO and the pins of the ports. -/
def Machine.env (s : Machine) (env : Env) : Env :=
  { env with
    periphMap := getPeriphMap s.io.afio
    modeBits := fun p pin =>
      match gpioIndexFromPeriph p with
      | some i => getModeBits (s.io.gpio i) pin
      | none => 0#8
    configBits := fun p pin =>
      match gpioIndexFromPeriph p with
      | some i => getConfigBits (s.io.gpio i) pin
      | none => 0#8 }

/-- The devices as they are allocated. -/
def init (connected : UartNumber → Bool) (afioBoardMap : UartNumber → BitVec 32) : Machine where
  io := Io.alloc
  uart n := .alloc n.periph (connected n) (afioBoardMap n)

/-- What can happen to the devices. -/
inductive Event
  | io (e : Afio.Event)
  | uart (n : UartNumber) (e : Uart.Event)
  deriving DecidableEq, Repr

/-- What it does. -/
def step (env : Env) (s : Machine) : Event → Except Fault Machine
  | .io e => do
    let io ← Afio.step s.io e
    return { s with io := io }
  | .uart n e => do
    let uart ← Uart.step (s.env env) (s.uart n) e
    return { s with uart := Function.update s.uart n uart }

/-- When it can happen. -/
def Event.Enabled (env : Env) (s : Machine) : Event → Prop
  | .io _ => True
  | .uart n e => e.Enabled (s.env env) (s.uart n)

/-- A step of a run: an event, the rest of the machine, and no fault. -/
def Step (s : Machine) (i : Env × Event) (s' : Machine) : Prop :=
  i.2.Enabled i.1 s ∧ step i.1 s i.2 = .ok s'

/-! ### Runs -/

variable {s s' : Machine} {l : List (Env × Event)}

/-- The event, if it is one of the AFIO and its ports. -/
def Event.ioEvent : Event → Option Afio.Event
  | .io e => some e
  | .uart _ _ => none

/-- What happens to the AFIO and its ports. -/
def ioEvents (l : List (Env × Event)) : List Afio.Event := l.filterMap fun i => i.2.ioEvent

/-- The AFIO and its ports run by themselves. -/
theorem run_io (h : Run Step s l s') : Run Afio.Step s.io (ioEvents l) s'.io := by
  induction h with
  | nil s => exact .nil _
  | @cons s t u i l hstep _ ih =>
    obtain ⟨env, e⟩ := i
    cases e with
    | io e =>
      obtain ⟨io, hio, hs⟩ := bind_eq_ok.1 hstep.2
      obtain rfl := pure_eq_ok.1 hs
      exact .cons hio ih
    | uart n e =>
      obtain ⟨uart, -, hs⟩ := bind_eq_ok.1 hstep.2
      obtain rfl := pure_eq_ok.1 hs
      exact ih

/-- Every UART keeps its number. -/
theorem step_periph {i : Env × Event} (h : ∀ n, (s.uart n).periph = n.periph) (hs : Step s i s')
    (n : UartNumber) : (s'.uart n).periph = n.periph := by
  obtain ⟨env, e⟩ := i
  cases e with
  | io e =>
    obtain ⟨io, -, hs⟩ := bind_eq_ok.1 hs.2
    obtain rfl := pure_eq_ok.1 hs
    exact h n
  | uart m e =>
    obtain ⟨uart, huart, hs⟩ := bind_eq_ok.1 hs.2
    obtain rfl := pure_eq_ok.1 hs
    dsimp only
    rcases eq_or_ne n m with rfl | hne
    · rw [Function.update_self, (step_effect huart).periph]
      exact h n
    · rw [Function.update_of_ne hne]
      exact h n

/-- A UART stays the one it is. -/
theorem run_periph {connected : UartNumber → Bool} {afioBoardMap : UartNumber → BitVec 32}
    (h : Run Step (init connected afioBoardMap) l s) (n : UartNumber) :
    (s.uart n).periph = n.periph :=
  h.invariant (P := fun s => ∀ n, (s.uart n).periph = n.periph)
    (fun _ _ _ hp hs => step_periph hp hs) (fun _ => rfl) n

/-- The mappings of the AFIO: only USART3 is ever remapped. -/
theorem run_getPeriphMap {connected : UartNumber → Bool} {afioBoardMap : UartNumber → BitVec 32}
    (h : Run Step (init connected afioBoardMap) l s) :
    getPeriphMap s.io.afio .uart1 = .ok 0#32 ∧ getPeriphMap s.io.afio .uart2 = .ok 0#32 ∧
      getPeriphMap s.io.afio .uart3 = .ok (extract32 (maprValue (ioEvents l)) 4 2) := by
  have hmap := run_mapping (run_io h)
  exact ⟨congrArg Except.ok (congrArg Mapping.usart1 hmap),
    congrArg Except.ok (congrArg Mapping.usart2 hmap),
    congrArg Except.ok (congrArg Mapping.usart3 hmap)⟩

/-! ### The transmit pin -/

/-- The mappings of `stm32.h` for a USART. -/
def Documented : Periph → BitVec 32 → Prop
  | .uart1, map | .uart2, map => map = 0#32 ∨ map = 1#32
  | .uart3, map => map = 0#32 ∨ map = 1#32 ∨ map = 3#32
  | _, _ => False

/-- A documented mapping has a pin, any other one is an `assert(false)`. -/
theorem txPin_cases {env : Env} {n : UartNumber} (hn : n = .one ∨ n = .two ∨ n = .three)
    {map : BitVec 32} (hmap : env.periphMap n.periph = .ok map) :
    (Documented n.periph map ∧ ∃ pin, txPin env n.periph = .ok pin) ∨
      (¬Documented n.periph map ∧ txPin env n.periph = .error (.assertFail "false")) := by
  rcases hn with rfl | rfl | rfl
  · have hpin : txPin env .uart1 = if map = 0#32 then .ok (.gpioa, 9)
        else if map = 1#32 then .ok (.gpiob, 6) else .error (.assertFail "false") := by
      rw [txPin, show env.periphMap .uart1 = .ok map from hmap]
      rfl
    split_ifs at hpin with h₀ h₁
    · exact Or.inl ⟨Or.inl h₀, _, hpin⟩
    · exact Or.inl ⟨Or.inr h₁, _, hpin⟩
    · exact Or.inr ⟨not_or.2 ⟨h₀, h₁⟩, hpin⟩
  · have hpin : txPin env .uart2 = if map = 0#32 then .ok (.gpioa, 2)
        else if map = 1#32 then .ok (.gpiod, 5) else .error (.assertFail "false") := by
      rw [txPin, show env.periphMap .uart2 = .ok map from hmap]
      rfl
    split_ifs at hpin with h₀ h₁
    · exact Or.inl ⟨Or.inl h₀, _, hpin⟩
    · exact Or.inl ⟨Or.inr h₁, _, hpin⟩
    · exact Or.inr ⟨not_or.2 ⟨h₀, h₁⟩, hpin⟩
  · have hpin : txPin env .uart3 = if map = 0#32 then .ok (.gpiob, 10)
        else if map = 1#32 then .ok (.gpioc, 10)
        else if map = 3#32 then .ok (.gpiod, 8) else .error (.assertFail "false") := by
      rw [txPin, show env.periphMap .uart3 = .ok map from hmap]
      rfl
    split_ifs at hpin with h₀ h₁ h₃
    · exact Or.inl ⟨Or.inl h₀, _, hpin⟩
    · exact Or.inl ⟨Or.inr (Or.inl h₁), _, hpin⟩
    · exact Or.inl ⟨Or.inr (Or.inr h₃), _, hpin⟩
    · exact Or.inr ⟨not_or.2 ⟨h₀, not_or.2 ⟨h₁, h₃⟩⟩, hpin⟩

/-- A fault that is a `hw_error`. -/
def IsHwError (e : Fault) : Prop := ∃ text, e = .hwError text

/-- The only failure of `hw_error` is a `hw_error`. -/
theorem hwErrorIf_failsOnly (cond : Bool) (text : String) :
    FailsOnly IsHwError (hwErrorIf cond text) := by
  intro e h
  cases cond with
  | true => exact ⟨text, (Except.error.inj h).symm⟩
  | false => cases h

variable {env : Env} {u : Stm32Uart} {v : BitVec 32}

/-- Where the pin is found, what follows fails with a `hw_error` only. -/
theorem checkTxPin_failsOnly {pin : Periph × ℕ} (h : txPin env u.periph = .ok pin) :
    FailsOnly IsHwError (checkTxPin env u) := by
  unfold checkTxPin
  split_ifs
  · exact .pure _
  · rw [h]
    exact (hwErrorIf_failsOnly _ _).bind fun _ => hwErrorIf_failsOnly _ _

/-- With a pin to send on, a write to the data register fails with a `hw_error` only. -/
theorem drWrite_failsOnly {pin : Periph × ℕ} (h : txPin env u.periph = .ok pin) :
    FailsOnly IsHwError (drWrite env u v) := by
  unfold drWrite
  refine (hwErrorIf_failsOnly _ _).bind fun _ => (hwErrorIf_failsOnly _ _).bind fun _ =>
    (checkTxPin_failsOnly h).bind fun _ => ?_
  split_ifs
  · exact .pure _
  · exact .pure _
  · exact fun e h => ⟨_, (Except.error.inj h).symm⟩

/-- Without one it fails as the search for the pin does. -/
theorem drWrite_of_txPin_error {e : Fault} (hport : u.periph ≠ .uart5) (hUE : u.UE = true)
    (hTE : u.TE = true) (h : txPin env u.periph = .error e) : drWrite env u v = .error e := by
  have hcheck : checkTxPin env u = .error e := by
    rw [checkTxPin, if_neg hport, h]
    rfl
  unfold drWrite
  rw [hUE, hTE, hcheck]
  rfl

/-- With the transmitter off it fails with its own text. -/
theorem drWrite_not_TE (hUE : u.UE = true) (hTE : u.TE = false) : drWrite env u v =
    .error (.hwError "Attempted to write to USART_DR while UART transmitter was disabled.") := by
  unfold drWrite
  rw [hUE, hTE]
  rfl

/-- **A write to the data register** of an enabled USART fails with an assertion exactly if
it transmits and its mapping has no pin. -/
theorem drWrite_assertFail_iff (hport : u.periph ≠ .uart5) (hUE : u.UE = true) :
    drWrite env u v = .error (.assertFail "false") ↔
      u.TE = true ∧ txPin env u.periph = .error (.assertFail "false") := by
  constructor
  · intro h
    cases hTE : u.TE with
    | false =>
      rw [drWrite_not_TE hUE hTE] at h
      cases h
    | true =>
      refine ⟨rfl, ?_⟩
      cases hpin : txPin env u.periph with
      | error e =>
        rw [drWrite_of_txPin_error hport hUE hTE hpin] at h
        rw [Except.error.inj h]
      | ok pin =>
        obtain ⟨text, htext⟩ := drWrite_failsOnly hpin _ h
        cases htext
  · rintro ⟨hTE, hpin⟩
    exact drWrite_of_txPin_error hport hUE hTE hpin

/-! ### Every state -/

/-- Two bits name a documented mapping of USART3 unless they are `2`. -/
theorem documented_uart3_iff {map : BitVec 32} (h : map.toNat ≤ 3) :
    Documented .uart3 map ↔ map ≠ 2#32 :=
  of_forall_le (P := fun map => map = 0#32 ∨ map = 1#32 ∨ map = 3#32 ↔
    map ≠ 2#32) (by decide) h

/-- The mapping of a USART, in every state. -/
theorem run_documented_iff {connected : UartNumber → Bool}
    {afioBoardMap : UartNumber → BitVec 32}
    (h : Run Step (init connected afioBoardMap) l s) {n : UartNumber}
    (hn : n = .one ∨ n = .two ∨ n = .three) :
    ∃ map, getPeriphMap s.io.afio n.periph = .ok map ∧ (Documented n.periph map ↔
      ¬(n = .three ∧ extract32 (maprValue (ioEvents l)) 4 2 = 2#32)) := by
  obtain ⟨h₁, h₂, h₃⟩ := run_getPeriphMap h
  rcases hn with rfl | rfl | rfl
  · exact ⟨_, h₁, iff_of_true (Or.inl rfl) (by simp)⟩
  · exact ⟨_, h₂, iff_of_true (Or.inl rfl) (by simp)⟩
  · exact ⟨_, h₃, (documented_uart3_iff (toNat_extract32_le _ 4 2)).trans (by simp)⟩

/-- **The assertion on the mapping.**  In every state of a run, the mapping of USART1, USART2
or USART3 is documented, except that of USART3 after a write of `MAPR` with the value `2` in
its field; and a write to the data register of an enabled one of them runs into
`assert(false)` exactly if it is USART3, it transmits, and the field is `2`. -/
theorem dr_write_asserts_iff (connected : UartNumber → Bool)
    (afioBoardMap : UartNumber → BitVec 32)
    (l : List (Env × Event)) (s : Machine) (n : UartNumber) (env : Env) (offset size : ℕ)
    (value : BitVec 64) (h : Run Step (init connected afioBoardMap) l s)
    (hn : n = .one ∨ n = .two ∨ n = .three) (hUE : (s.uart n).UE = true)
    (ho : offset / 4 * 4 = 0x04) :
    (∃ map, getPeriphMap s.io.afio n.periph = .ok map ∧ (Documented n.periph map ↔
      ¬(n = .three ∧ extract32 (maprValue (ioEvents l)) 4 2 = 2#32))) ∧
    (Uart.write (s.env env) (s.uart n) offset value size = .error (.assertFail "false") ↔
      n = .three ∧ (s.uart n).TE = true ∧ extract32 (maprValue (ioEvents l)) 4 2 = 2#32) := by
  obtain ⟨map, hmap, hdoc⟩ := run_documented_iff h hn
  refine ⟨⟨map, hmap, hdoc⟩, ?_⟩
  have hperiph := run_periph h n
  have hport : (s.uart n).periph ≠ .uart5 := by
    rw [hperiph]
    rcases hn with rfl | rfl | rfl <;> decide
  obtain ⟨w, hframe⟩ := checkPeriphClk_frame (s.env env) (s.uart n)
  rw [write_dr_eq ho hport, hframe,
    drWrite_assertFail_iff (u := { s.uart n with warnings := w }) hport hUE]
  dsimp only
  rw [hperiph, and_left_comm]
  refine and_congr_right fun _ => ?_
  have hmap' : (s.env env).periphMap n.periph = .ok map := hmap
  rcases txPin_cases hn hmap' with ⟨hd, pin, hpin⟩ | ⟨hd, hpin⟩
  · refine iff_of_false (fun h => ?_) (hdoc.1 hd)
    rw [hpin] at h
    cases h
  · exact iff_of_true hpin (not_not.1 (mt hdoc.2 hd))

/-- The first reset, USART3 enabled with the mapping of the board, and then a write to `MAPR`. -/
def remapUsart3 (v : BitVec 32) : List (Env × Event) :=
  [(exampleEnv 0, .io .afioReset), (exampleEnv 0, .uart .three .reset),
    (exampleEnv 0, .uart .three (.write 0x0c 0x2008#64 4)),
    (exampleEnv 0, .io (.afioWrite true 0x04 v))]

/-- USART3 is remapped to port D while it is enabled. -/
theorem dr_write_asserts_not_portD : ∃ s, Run Step (init (fun _ => true) fun _ => 0#32)
    (remapUsart3 0x30#32) s ∧
    Uart.write (s.env (exampleEnv 0)) (s.uart .three) 0x04 0x41#64 2 ≠ .error
      (.assertFail "false") := by
  have hrun : ∃ s, Run Step (init (fun _ => true) fun _ => 0#32) (remapUsart3 0x30#32) s ∧
      (s.uart .three).UE = true :=
    ⟨_, .cons ⟨trivial, rfl⟩ (.cons ⟨trivial, rfl⟩ (.cons ⟨⟨by decide, rfl⟩, rfl⟩
      (.cons ⟨trivial, rfl⟩ (.nil _)))), rfl⟩
  obtain ⟨s, hrun, hUE⟩ := hrun
  refine ⟨s, hrun, fun h => ?_⟩
  obtain ⟨-, -, hmap⟩ := (dr_write_asserts_iff _ _ _ s .three (exampleEnv 0) 0x04 2 0x41#64 hrun
    (Or.inr (Or.inr rfl)) hUE rfl).2.1 h
  exact absurd hmap (by decide)

/-- USART3 is given the reserved mapping while it is enabled. -/
theorem dr_write_asserts_reserved : ∃ s, Run Step (init (fun _ => true) fun _ => 0#32)
    (remapUsart3 0x20#32) s ∧ (s.uart .three).UE = true ∧
    getPeriphMap s.io.afio .uart3 = .ok 2#32 ∧ ¬Documented .uart3 2#32 ∧
    Uart.write (s.env (exampleEnv 0)) (s.uart .three) 0x04 0x41#64 2 = .error
      (.assertFail "false") := by
  have hrun : ∃ s, Run Step (init (fun _ => true) fun _ => 0#32) (remapUsart3 0x20#32) s ∧
      (s.uart .three).UE = true ∧ getPeriphMap s.io.afio .uart3 = .ok 2#32 ∧
      Uart.write (s.env (exampleEnv 0)) (s.uart .three) 0x04 0x41#64 2 = .error
      (.assertFail "false") :=
    ⟨_, .cons ⟨trivial, rfl⟩ (.cons ⟨trivial, rfl⟩ (.cons ⟨⟨by decide, rfl⟩, rfl⟩
      (.cons ⟨trivial, rfl⟩ (.nil _)))), rfl, rfl, rfl⟩
  obtain ⟨s, hrun, hUE, hmap, hwrite⟩ := hrun
  exact ⟨s, hrun, hUE, hmap, by unfold Documented; decide, hwrite⟩

end Mapping
end Soc
end Especial
