/-
# The firmware switches peripheral clocks on and off

`RCC_APB1PeriphClockCmd` and `RCC_APB2PeriphClockCmd` read an enable register of the
RCC, set or clear the bits of a mask and write it back.  The emulator takes the
clock gates from the value that is written, but what the next call reads is a
separate copy of it, masked.  The mask of `APB2ENR` has every bit the gates look at
(`Kept`); that of `APB1ENR` has none, so a call on the APB1 switches off every UART
it does not name.  `exec_gate` says what a sequence of calls leaves.
-/

import Especial.Rcc.Writes
import Especial.Lib.Drive

namespace Especial
namespace Rcc

open Qemu Stm32 Clktree Lib

/-! ### The calls -/

/-- The bus a peripheral is clocked from. -/
inductive Bus
  | apb1
  | apb2
  deriving DecidableEq, Repr

/-- The offset of `APB1ENR` and `APB2ENR`. -/
def Bus.offset : Bus → ℕ
  | .apb1 => 0x1c
  | .apb2 => 0x18

/-- `RCC->APBxENR |= RCC_APBxPeriph` or `RCC->APBxENR &= ~RCC_APBxPeriph`. -/
def newEnr (old periph : BitVec 32) : FunctionalState → BitVec 32
  | .ENABLE => old ||| periph
  | .DISABLE => old &&& ~~~periph

/-- A read and a write of an enable register. -/
def apbPeriphClockCmd (bus : Bus) (s : Stm32Rcc) (periph : BitVec 32) (newState : FunctionalState) :
    Except Fault Stm32Rcc := do
  let old ← readw s bus.offset
  writew s bus.offset (newEnr old periph newState)

/-- `RCC_APB1PeriphClockCmd`. -/
def apb1PeriphClockCmd := apbPeriphClockCmd .apb1

/-- `RCC_APB2PeriphClockCmd`. -/
def apb2PeriphClockCmd := apbPeriphClockCmd .apb2

/-- A call of one of the two. -/
structure ClockCmd where
  bus : Bus
  periph : BitVec 32
  newState : FunctionalState
  deriving DecidableEq, Repr

/-- What it does. -/
def ClockCmd.exec (s : Stm32Rcc) (k : ClockCmd) : Except Fault Stm32Rcc :=
  match k.bus with
  | .apb1 => apb1PeriphClockCmd s k.periph k.newState
  | .apb2 => apb2PeriphClockCmd s k.periph k.newState

/-- The bus of a peripheral and its bit there, from the constants
`RCC_APB1Periph_*` and `RCC_APB2Periph_*` of the firmware library. -/
def enableBit : Periph → Bus × ℕ
  | .afio => (.apb2, 0)
  | .gpioa => (.apb2, 2)
  | .gpiob => (.apb2, 3)
  | .gpioc => (.apb2, 4)
  | .gpiod => (.apb2, 5)
  | .gpioe => (.apb2, 6)
  | .gpiof => (.apb2, 7)
  | .gpiog => (.apb2, 8)
  | .uart1 => (.apb2, 14)
  | .uart2 => (.apb1, 17)
  | .uart3 => (.apb1, 18)
  | .uart4 => (.apb1, 19)
  | .uart5 => (.apb1, 20)

/-- The call names the enable bit of the peripheral. -/
def ClockCmd.Names (p : Periph) (k : ClockCmd) : Prop :=
  k.bus = (enableBit p).1 ∧ k.periph.getLsbD (enableBit p).2 = true

/-- Some call names `p`, and the last one that does is an `ENABLE`. -/
def LastEnabled (p : Periph) : List ClockCmd → Prop :=
  LastOf (ClockCmd.Names p) (·.newState = .ENABLE)

/-- The last call on the bus of `p` names `p`. -/
def LastOnBusNames (p : Periph) : List ClockCmd → Prop :=
  LastOf (·.bus = (enableBit p).1) (ClockCmd.Names p)

/-! ### One call -/

/-- The copy of an enable register. -/
def enr (r : Stm32Rcc) : Bus → BitVec 32
  | .apb1 => r.APB1ENR
  | .apb2 => r.APB2ENR

/-- The bits of the copy. -/
def enrMask : Bus → BitVec 32
  | .apb1 => 0x5e7d#32
  | .apb2 => 0xfffd#32

/-- The copy keeps the enable bit of `p`. -/
def Kept (p : Periph) : Bool := (enrMask (enableBit p).1).getLsbD (enableBit p).2

/-- The copy keeps the enable bits of the peripherals on APB2. -/
theorem kept_iff (p : Periph) : Kept p = true ↔ (enableBit p).1 = .apb2 := by
  cases p <;> decide

/-- The gate of `p` after a write of `v` to the enable register of a bus. -/
def gateAfter (bus : Bus) (v : BitVec 32) (f : Periph → Bool) (p : Periph) : Bool :=
  if bus = (enableBit p).1 then v.getLsbD (enableBit p).2 else f p

/-- The bits that the emulator looks at are those the firmware writes. -/
theorem gates_apb1Bits (v : BitVec 32) (f : Periph → Bool) :
    gates v apb1Bits f = gateAfter .apb1 v f := by
  funext p
  cases p <;> rfl

/-- The gates after a write of `APB2ENR`. -/
theorem gates_apb2Bits (v : BitVec 32) (f : Periph → Bool) :
    gates v apb2Bits f = gateAfter .apb2 v f := by
  funext p
  cases p <;> rfl

/-- The gates and the copies of the enable registers that a device has, with
whatever other settings. -/
def HasGates (f : Periph → Bool) (e : Bus → BitVec 32) (s : Stm32Rcc) : Prop :=
  ∃ c r, Has c r s ∧ c.periph = f ∧ enr r = e

variable {f : Periph → Bool} {e : Bus → BitVec 32} {s : Stm32Rcc} {calls : List ClockCmd}

/-- The clock of a peripheral in the graph of the settings. -/
theorem Cfg.graph_periph (c : Cfg) (p : Periph) :
    ∃ input, c.graph[PERIPHCLK p]? = some (clkNode (c.periph p) 1#16 1#16 input) := by
  cases p <;> exact ⟨_, rfl⟩

/-- The clock of a peripheral is enabled when its gate is open. -/
theorem HasGates.isEnabled (h : HasGates f e s) (p : Periph) : s.isEnabled (PERIPHCLK p) = f p := by
  obtain ⟨c, r, h, rfl, -⟩ := h
  obtain ⟨input, hp⟩ := c.graph_periph p
  exact h.isEnabled hp

/-- The value a call writes. -/
def ClockCmd.value (k : ClockCmd) (e : Bus → BitVec 32) : BitVec 32 :=
  newEnr (e k.bus) k.periph k.newState

/-- **One call** sets the gates of its bus and stores what the mask leaves. -/
theorem exec_hasGates (h : HasGates f e s) (k : ClockCmd) : Returns (k.exec s)
    (HasGates (gateAfter k.bus (k.value e) f)
      (Function.update e k.bus (k.value e &&& enrMask k.bus))) := by
  obtain ⟨c, r, h, rfl, rfl⟩ := h
  obtain ⟨bus, periph, newState⟩ := k
  cases bus with
  | apb1 =>
    have hread : readw s 0x1c = .ok (enr r .apb1) :=
      (congrArg (fun r : Stm32Rcc => Except.ok (enr r .apb1)) h.regs :)
    show Returns (readw s 0x1c >>= fun old => writew s 0x1c (newEnr old periph newState)) _
    rw [hread]
    refine (apb1enrWrite_has h).mono fun s' h' => ⟨_, _, h', gates_apb1Bits _ _, ?_⟩
    funext b
    cases b <;> rfl
  | apb2 =>
    have hread : readw s 0x18 = .ok (enr r .apb2) :=
      (congrArg (fun r : Stm32Rcc => Except.ok (enr r .apb2)) h.regs :)
    show Returns (readw s 0x18 >>= fun old => writew s 0x18 (newEnr old periph newState)) _
    rw [hread]
    refine (apb2enrWrite_has h).mono fun s' h' => ⟨_, _, h', gates_apb2Bits _ _, ?_⟩
    funext b
    cases b <;> rfl

/-- A bit of the value a call writes. -/
theorem getLsbD_newEnr (old periph : BitVec 32) (newState : FunctionalState) {i : ℕ}
    (hi : i < 32) :
    (newEnr old periph newState).getLsbD i =
      if periph.getLsbD i then decide (newState = .ENABLE) else old.getLsbD i := by
  cases newState with
  | DISABLE =>
    rw [newEnr, BitVec.getLsbD_and, BitVec.getLsbD_not]
    cases periph.getLsbD i <;> simp [hi]
  | ENABLE =>
    rw [newEnr, BitVec.getLsbD_or]
    cases periph.getLsbD i <;> simp

/-! ### A sequence of calls -/

/-- What holds of one peripheral after the calls: its gate is open if the last call
that names it is an `ENABLE` and, where the copy loses its bit, no later call on the
bus was made; the copy has its bit if it keeps it. -/
structure GateOk (p : Periph) (calls : List ClockCmd) (f : Periph → Bool)
    (e : Bus → BitVec 32) : Prop where
  gate : f p = true ↔ LastEnabled p calls ∧ (Kept p = true ∨ LastOnBusNames p calls)
  copy : (e (enableBit p).1).getLsbD (enableBit p).2 = (f p && Kept p)

/-- The enable bits are those of a word. -/
theorem enableBit_lt (p : Periph) : (enableBit p).2 < 32 := by
  cases p <;> decide

/-- A call on the other bus changes nothing. -/
theorem GateOk.other_bus {p : Periph} {k : ClockCmd} (h : GateOk p calls f e)
    (hbus : k.bus ≠ (enableBit p).1) :
    GateOk p (calls ++ [k]) (gateAfter k.bus (k.value e) f)
      (Function.update e k.bus (k.value e &&& enrMask k.bus)) := by
  have hnames : ¬k.Names p := fun hk => hbus hk.1
  have hf : gateAfter k.bus (k.value e) f p = f p := if_neg hbus
  refine ⟨?_, ?_⟩
  · rw [hf, h.gate, LastEnabled, LastOnBusNames, lastOf_snoc, lastOf_snoc]
    simp [hnames, hbus]
  · rw [Function.update_of_ne (Ne.symm hbus), h.copy, hf]

/-- A call on the bus of `p` that does not name `p` leaves what the copy kept; one
that names it sets its gate. -/
theorem GateOk.same_bus {p : Periph} {k : ClockCmd} (h : GateOk p calls f e)
    (hbus : k.bus = (enableBit p).1) :
    GateOk p (calls ++ [k]) (gateAfter k.bus (k.value e) f)
      (Function.update e k.bus (k.value e &&& enrMask k.bus)) := by
  have hvalue := getLsbD_newEnr (e k.bus) k.periph k.newState (enableBit_lt p)
  have hf : gateAfter k.bus (k.value e) f p = (k.value e).getLsbD (enableBit p).2 := if_pos hbus
  have hnames : k.Names p ↔ k.periph.getLsbD (enableBit p).2 = true := and_iff_right hbus
  refine ⟨?_, ?_⟩
  · rw [hf, LastEnabled, LastOnBusNames, lastOf_snoc, lastOf_snoc, ClockCmd.value, hvalue, hnames]
    cases hp : k.periph.getLsbD (enableBit p).2 with
    | true => simp [hbus]
    | false =>
      have hgate := h.gate
      rw [hbus, h.copy]
      unfold LastEnabled at hgate
      cases hkept : Kept p <;> simp_all
  · rw [hbus, Function.update_self, ← hbus, hf, BitVec.getLsbD_and, hbus]
    rfl

/-- **A sequence of calls.**  It returns, and the gate of every peripheral is as the
calls left it. -/
theorem exec_gate (hf : ∀ p, f p = false) (he : ∀ b, e b = 0#32) (h : HasGates f e s)
    (calls : List ClockCmd) : Returns (calls.foldlM ClockCmd.exec s)
      fun s' => ∃ f' e', HasGates f' e' s' ∧ ∀ p, GateOk p calls f' e' := by
  induction calls using List.reverseRecOn with
  | nil =>
    refine Returns.pure ⟨f, e, h, fun p => ⟨?_, ?_⟩⟩
    · rw [hf p]
      simp [LastEnabled, not_lastOf_nil]
    · rw [hf p, he]
      simp
  | append_singleton calls k ih =>
    rw [List.foldlM_append]
    refine Returns.bind ih fun s₁ ⟨f₁, e₁, h₁, hok⟩ => ?_
    rw [List.foldlM_cons]
    refine Returns.bind (exec_hasGates h₁ k) fun s₂ h₂ =>
      Returns.pure ⟨_, _, h₂, fun p => ?_⟩
    rcases eq_or_ne k.bus (enableBit p).1 with hbus | hbus
    · exact (hok p).same_bus hbus
    · exact (hok p).other_bus hbus

/-- After a reset all gates are closed. -/
theorem reset_hasGates {c : Cfg} {r s s' : Stm32Rcc} (h : Has c r s) (hreset : reset s = .ok s') :
    HasGates (fun _ => false) (fun _ => 0#32) s' := by
  refine ⟨_, _, (reset_has h).of_eq_ok hreset, rfl, ?_⟩
  funext b
  cases b <;> rfl

/-- **The clock of a peripheral after calls of the firmware.**  From the reset of any
state of the device the calls return, and the clock of `p` is enabled as the last
call that names `p` says exactly if `p` is on the APB2, or that is not an `ENABLE`,
or no later call on the APB1 leaves `p` out. -/
theorem rcc_periphClock_iff (s₀ s₁ s₂ : Stm32Rcc) (l : List Event) (calls : List ClockCmd)
    (p : Periph) (hinit : init = .ok s₀) (hrun : Run Step s₀ l s₁)
    (hreset : reset s₁ = .ok s₂) :
    ∃ s, calls.foldlM ClockCmd.exec s₂ = .ok s ∧
      ((s.isEnabled (PERIPHCLK p) = true ↔ LastEnabled p calls) ↔
        ((enableBit p).1 = .apb2 ∨ ¬LastEnabled p calls ∨ LastOnBusNames p calls)) := by
  obtain ⟨c, r, h₁⟩ := run_has hinit hrun
  obtain ⟨s, hexec, f, e, h, hok⟩ :=
    exec_gate (fun _ => rfl) (fun _ => rfl) (reset_hasGates h₁ hreset) calls
  refine ⟨s, hexec, ?_⟩
  rw [h.isEnabled, (hok p).gate, ← kept_iff]
  tauto

instance (p : Periph) : DecidablePred (ClockCmd.Names p) := fun k => by
  unfold ClockCmd.Names
  infer_instance

/-- The device can be created and reset. -/
theorem exists_reset : ∃ s₀ s₁, init = .ok s₀ ∧ reset s₀ = .ok s₁ := by
  obtain ⟨s₀, hinit, h₀⟩ := init_has
  obtain ⟨s₁, hreset, -⟩ := reset_has h₀
  exact ⟨s₀, s₁, hinit, hreset⟩

/-- `RCC_APB1Periph_USART2` and then `RCC_APB1Periph_USART3`, both `ENABLE`. -/
def usart2ThenUsart3 : List ClockCmd :=
  [⟨.apb1, 0x20000#32, .ENABLE⟩, ⟨.apb1, 0x40000#32, .ENABLE⟩]

/-- The clock of the second UART runs. -/
theorem rcc_periphClock_usart3 : ∃ s₀ s₁ s, init = .ok s₀ ∧ reset s₀ = .ok s₁ ∧
    usart2ThenUsart3.foldlM ClockCmd.exec s₁ = .ok s ∧
    s.isEnabled (PERIPHCLK .uart3) = true := by
  obtain ⟨s₀, s₁, hinit, hreset⟩ := exists_reset
  obtain ⟨s, hexec, hiff⟩ :=
    rcc_periphClock_iff s₀ s₀ s₁ [] usart2ThenUsart3 .uart3 hinit (.nil s₀) hreset
  have hlast : LastEnabled .uart3 usart2ThenUsart3 := ⟨[_], _, [], rfl, by decide, rfl, by simp⟩
  have hnamed : LastOnBusNames .uart3 usart2ThenUsart3 :=
    ⟨[_], _, [], rfl, rfl, by decide, by simp⟩
  exact ⟨s₀, s₁, s, hinit, hreset, hexec, (hiff.2 (Or.inr (Or.inr hnamed))).2 hlast⟩

/-- The clock of the first UART is lost, although no call switches it off. -/
theorem rcc_periphClock_usart2_lost :
    ¬∀ (s₀ s₁ s₂ s : Stm32Rcc) (l : List Event) (calls : List ClockCmd) (p : Periph),
      init = .ok s₀ → Run Step s₀ l s₁ → reset s₁ = .ok s₂ →
      calls.foldlM ClockCmd.exec s₂ = .ok s →
      (s.isEnabled (PERIPHCLK p) = true ↔ LastEnabled p calls) := by
  intro hall
  obtain ⟨s₀, s₁, hinit, hreset⟩ := exists_reset
  obtain ⟨c, r, h₀⟩ := run_has hinit (.nil s₀)
  obtain ⟨s, hexec, f, e, h, hok⟩ :=
    exec_gate (fun _ => rfl) (fun _ => rfl) (reset_hasGates h₀ hreset) usart2ThenUsart3
  have hlast : LastEnabled .uart2 usart2ThenUsart3 :=
    ⟨[], _, [_], rfl, by decide, rfl, by decide⟩
  have hon :=
    (hall s₀ s₀ s₁ s [] usart2ThenUsart3 .uart2 hinit (.nil s₀) hreset hexec).2 hlast
  rw [h.isEnabled] at hon
  rcases ((hok .uart2).gate.1 hon).2 with hkept | hnamed
  · exact absurd hkept (by decide)
  · rcases lastOf_snoc (l := [_]).1 hnamed with ⟨-, hnames⟩ | ⟨hbus, -⟩
    · exact absurd hnames (by decide)
    · exact hbus rfl

end Rcc
end Especial
