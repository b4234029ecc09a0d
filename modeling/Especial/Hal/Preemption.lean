/-
# Registration, access by access

The interrupt handlers preempt the rest of the firmware at any point, also in the middle
of `registerInt`.  Here `registerInt` is a program that makes one access at a time: the
read-modify-writes of `GPIO_EXTILineConfig` and `EXTI_Init` are a load and a store each,
with the loaded value in a register of the processor, and the table is tested and written
in two steps.  All handlers have the same priority, so that they do not preempt each
other.

Without an interruption the program does what `registerInt` does (`run_registerInt`).
-/

import Especial.Hal.Effects
import Especial.Lib.Run

namespace Especial
namespace Hal

open Qemu Stm32 Lib Gpio Exti Afio

/-! ### The accesses -/

/-- What `registerInt` does, in this order. -/
inductive Access
  /-- `AFIO->EXTICR[pin >> 2] &= ~tmp` -/
  | exticrClear
  /-- `AFIO->EXTICR[pin >> 2] |= port << shift` -/
  | exticrSet
  /-- `EXTI->PR = line` -/
  | clearITPendingBit
  /-- `EXTI->reg &= ~line` -/
  | clear (offset : ℕ)
  /-- `EXTI->reg |= line` -/
  | set (offset : ℕ)
  /-- `NVIC->IP[channel] = priority`, which depends on `SCB->AIRCR` -/
  | nvicPriority
  /-- `NVIC->ISER[channel >> 5] = 1 << (channel & 0x1f)` -/
  | nvicEnable
  /-- `if (_isrVector[pin.pinNumber] != NULL) return false` -/
  | testVector
  /-- `_isrVector[pin.pinNumber] = isr` -/
  | storeVector
  deriving DecidableEq, Repr

/-- The accesses to the devices: `GPIO_EXTILineConfig`, `EXTI_ClearITPendingBit`,
`EXTI_Init` for an interrupt on both edges, and `NVIC_Init`. -/
def deviceAccesses : List Access :=
  [.exticrClear, .exticrSet, .clearITPendingBit, .clear 0x00, .clear 0x04, .set 0x00, .clear 0x08,
    .clear 0x0c, .set 0x08, .set 0x0c, .nvicPriority, .nvicEnable]

/-- All accesses. -/
def accesses : List Access := deviceAccesses ++ [.testVector, .storeVector]

/-- The access begins with a load. -/
def Access.Loads : Access → Bool
  | .exticrClear | .exticrSet | .clear _ | .set _ | .nvicPriority => true
  | _ => false

/-- A call of `registerInt` that has not returned. -/
structure Registering where
  clkEnabled : Bool
  isr : Option ℕ
  pin : Pin
  /-- the accesses that it still has to make -/
  rest : List Access
  /-- the value that the access at the head has loaded -/
  tmp : Option (BitVec 32)
  deriving DecidableEq, Repr

namespace Registering

/-- The load of an access. -/
def load (r : Registering) (s : Firmware) : Access → Except Fault (BitVec 32 × Firmware)
  | .exticrClear | .exticrSet => do
    let (value, io) ← Afio.read r.clkEnabled s.io (0x08 + 4 * (r.pin.pinNumber >>> 2).toNat)
    return (value, { s with io := io })
  | .clear offset | .set offset => do
    let value ← Exti.read s.io.exti offset
    return (value, s)
  | .nvicPriority => return (s.nvic.AIRCR, s)
  | _ => return (0#32, s)

/-- `EXTI->reg = value`. -/
def storeExti (s : Firmware) (offset : ℕ) (value : BitVec 32) : Except Fault Firmware := do
  let exti ← Exti.write s.io.exti offset value
  return { s with io := { s.io with exti := exti } }

/-- `AFIO->EXTICR[pin >> 2] = value`. -/
def storeExticr (r : Registering) (s : Firmware) (value : BitVec 32) : Except Fault Firmware := do
  let io ← Afio.write r.clkEnabled s.io (0x08 + 4 * (r.pin.pinNumber >>> 2).toNat) value
  return { s with io := io }

/-- The store of an access, with the value that was loaded. -/
def store (r : Registering) (s : Firmware) (value : BitVec 32) : Access → Except Fault Firmware
  | .exticrClear =>
    r.storeExticr s (value &&& ~~~(0x0f#32 <<< (4 * (r.pin.pinNumber &&& 0x03#8).toNat)))
  | .exticrSet =>
    r.storeExticr s
      (value ||| (r.pin.port - 0x41#8).setWidth 32 <<< (4 * (r.pin.pinNumber &&& 0x03#8).toNat))
  | .clearITPendingBit => storeExti s 0x14 r.pin.pin
  | .clear offset => storeExti s offset (value &&& ~~~r.pin.pin)
  | .set offset => storeExti s offset (value ||| r.pin.pin)
  | .nvicPriority =>
    let nvic := nvicInit { s.nvic with AIRCR := value } (irqChannel r.pin.pinNumber) 0x0f#8 0x00#8
    return { s with nvic := { s.nvic with IP := nvic.IP } }
  | .nvicEnable =>
    return { s with nvic := { s.nvic with
      enabled := Function.update s.nvic.enabled (irqChannel r.pin.pinNumber).toNat true } }
  | .testVector => return s
  | .storeVector => return { s with isrVector := Function.update s.isrVector r.pin.line r.isr }

end Registering

/-! ### The system -/

/-- The firmware, with the call of `registerInt` that a handler can interrupt. -/
structure Program where
  firmware : Firmware
  main : Option Registering
  /-- what the last call returned -/
  returned : Option Bool

/-- What can happen: a call of `registerInt` begins or makes its next load or store, or
something else that happens to the firmware. -/
inductive Moment
  | call (clkEnabled : Bool) (isr : Option ℕ) (pin : Pin)
  | access
  | event (e : Event)
  deriving DecidableEq, Repr

/-- The next load or store of a call. -/
def Registering.step (r : Registering) (s : Firmware) (returned : Option Bool) :
    Except Fault Program :=
  match r.rest with
  | [] => return ⟨s, none, returned⟩
  | .testVector :: rest =>
    if s.isrVector r.pin.line ≠ none then return ⟨s, none, some false⟩
    else return ⟨s, some { r with rest := rest }, returned⟩
  | .storeVector :: _ => do
    let s ← r.store s 0#32 .storeVector
    return ⟨s, none, some true⟩
  | a :: rest =>
    if a.Loads ∧ r.tmp = none then do
      let (value, s) ← r.load s a
      return ⟨s, some { r with tmp := some value }, returned⟩
    else do
      let s ← r.store s (r.tmp.getD 0#32) a
      return ⟨s, some { r with rest := rest, tmp := none }, returned⟩

/-- A call begins when no other runs, and it goes on while no handler runs; so do the
other calls.  The handlers and the inputs do not wait. -/
def Program.Enabled (s : Program) : Moment → Bool
  | .call _ _ _ => s.main = none ∧ s.firmware.handler = .idle
  | .access => s.main ≠ none ∧ s.firmware.handler = .idle
  | .event (.registerInt _ _ _) => false
  | .event e@(.unregisterInt _) | .event e@(.read _) => s.main = none ∧ Hal.Enabled s.firmware e
  | .event e => Hal.Enabled s.firmware e

/-- What happens. -/
def Program.step (s : Program) : Moment → Except Fault Program
  | .call clkEnabled isr pin =>
    return { s with main := some ⟨clkEnabled, isr, pin, accesses, none⟩ }
  | .access =>
    match s.main with
    | none => return s
    | some r => r.step s.firmware s.returned
  | .event e => do
    let firmware ← Hal.step s.firmware e
    return { s with firmware := firmware }

/-- An enabled step that does not fault. -/
def Program.Step (s : Program) (m : Moment) (s' : Program) : Prop :=
  s.Enabled m = true ∧ s.step m = .ok s'

/-- A step has one outcome. -/
theorem Program.step_det (s : Program) (m : Moment) (t t' : Program) (h : Program.Step s m t)
    (h' : Program.Step s m t') : t = t' := Except.ok.inj (h.2.symm.trans h'.2)

/-- The firmware after it was reset. -/
def Program.init (io : Io) (aircr : BitVec 32) (pins : ℕ → Pin) : Program :=
  ⟨Firmware.init io aircr pins, none, none⟩

/-! ### A call that is not interrupted -/

variable {r : Registering} {s s' : Firmware} {a : Access} {rest : List Access}

/-- A load and a store at once. -/
def Registering.exec (r : Registering) (s : Firmware) (a : Access) : Except Fault Firmware :=
  if a.Loads then do
    let (value, s) ← r.load s a
    r.store s value a
  else r.store s 0#32 a

/-- The accesses to a register of the EXTI controller are two read-modify-writes: the bit of the
line is cleared, and set. -/
theorem exec_exti (r : Registering) (s : Firmware) (offset : ℕ) :
    r.exec s (.clear offset) = (do
      let io ← extiModify s.io offset (· &&& ~~~r.pin.pin)
      return { s with io := io }) ∧
    r.exec s (.set offset) = do
      let io ← extiModify s.io offset (· ||| r.pin.pin)
      return { s with io := io } := by
  simp only [Registering.exec, Registering.load, Registering.store, Registering.storeExti,
    Access.Loads, extiModify, if_true, bind_assoc, pure_bind, and_self]

/-- The accesses to `EXTICR` are `GPIO_EXTILineConfig`. -/
theorem exec_exticr (r : Registering) (s : Firmware) :
    (do let s ← r.exec s .exticrClear; r.exec s .exticrSet) = do
      let io ← gpioEXTILineConfig r.clkEnabled s.io (r.pin.port - 0x41#8) r.pin.pinNumber
      return { s with io := io } := by
  simp only [Registering.exec, Registering.load, Registering.store, Registering.storeExticr,
    Access.Loads, gpioEXTILineConfig, exticrModify, if_true, bind_assoc, pure_bind]

/-- The accesses to the NVIC are `NVIC_Init`. -/
theorem exec_nvic (r : Registering) (s : Firmware) :
    (do let s ← r.exec s .nvicPriority; r.exec s .nvicEnable) =
      .ok { s with nvic := nvicInit s.nvic (irqChannel r.pin.pinNumber) 0x0f#8 0x00#8 } := rfl

/-- The write of the pending register is `EXTI_ClearITPendingBit`. -/
theorem exec_clearITPendingBit (r : Registering) (s : Firmware) :
    r.exec s .clearITPendingBit = do
      let io ← extiClearITPendingBit s.io r.pin.pin
      return { s with io := io } := by
  simp only [Registering.exec, Registering.store, Registering.storeExti, Access.Loads,
    extiClearITPendingBit, Bool.false_eq_true, if_false, bind_assoc, pure_bind]

/-- `registerInt` makes the accesses to the devices and then looks at the table. -/
theorem registerInt_eq (clkEnabled : Bool) (s : Firmware) (isr : Option ℕ) (pin : Pin)
    (rest : List Access) (tmp : Option (BitVec 32)) :
    registerInt clkEnabled s isr pin = (do
      let s ← deviceAccesses.foldlM (Registering.exec ⟨clkEnabled, isr, pin, rest, tmp⟩) s
      if s.isrVector pin.line ≠ none then return (false, s)
      else return (true, { s with isrVector := Function.update s.isrVector pin.line isr })) := by
  set r : Registering := ⟨clkEnabled, isr, pin, rest, tmp⟩ with hr
  have hnvic : ∀ (u : Firmware) (f : Firmware → Except Fault (Bool × Firmware)),
      (r.exec u .nvicPriority >>= fun u => r.exec u .nvicEnable >>= f) =
        f { u with nvic := nvicInit u.nvic (irqChannel r.pin.pinNumber) 0x0f#8 0x00#8 } :=
    fun u f => by rw [← bind_assoc, exec_nvic, ok_bind]
  have hexticr : ∀ f : Firmware → Except Fault (Bool × Firmware),
      (r.exec s .exticrClear >>= fun u => r.exec u .exticrSet >>= f) =
        (do let io ← gpioEXTILineConfig r.clkEnabled s.io (r.pin.port - 0x41#8) r.pin.pinNumber
            f { s with io := io }) :=
    fun f => by rw [← bind_assoc, exec_exticr, bind_assoc]; rfl
  simp only [deviceAccesses, List.foldlM_cons, List.foldlM_nil, bind_assoc, pure_bind]
  rw [hexticr]
  simp only [hnvic, exec_clearITPendingBit, exec_exti, bind_assoc, pure_bind, registerInt, extiInit,
    ne_eq, reduceCtorEq, not_false_eq_true, if_true]
  rfl

/-! ### What a load and a store do -/

/-- What a load does: it may warn, and that is all. -/
structure Loaded (s s' : Firmware) : Prop where
  exti : s'.io.exti = s.io.exti
  gpio : s'.io.gpio = s.io.gpio
  route : ∀ n, route s'.io n = route s.io n
  isrVector : s'.isrVector = s.isrVector
  inputs : s'.inputs = s.inputs
  handler : s'.handler = s.handler

/-- The lines stay routed. -/
theorem Loaded.routed (h : Loaded s s') (hr : Routed s.io) : Routed s'.io := fun n hn => by
  rw [h.route]
  exact hr n hn

/-- A load only warns. -/
theorem load_loaded {value : BitVec 32} (h : r.load s a = .ok (value, s')) : Loaded s s' := by
  have hrefl : Loaded s s := ⟨rfl, rfl, fun _ => rfl, rfl, rfl, rfl⟩
  have hexticr : (do
      let (value, io) ← Afio.read r.clkEnabled s.io (0x08 + 4 * (r.pin.pinNumber >>> 2).toNat)
      return (value, { s with io := io })) = Except.ok (value, s') → Loaded s s' := fun h => by
    obtain ⟨⟨v, io⟩, hio, h⟩ := bind_eq_ok.1 h
    obtain ⟨-, rfl⟩ := Prod.mk.inj (pure_eq_ok.1 h)
    rw [read_io hio]
    cases r.clkEnabled <;> exact ⟨rfl, rfl, fun _ => rfl, rfl, rfl, rfl⟩
  have hexti : ∀ offset, (do
      let value ← Exti.read s.io.exti offset
      return (value, s)) = Except.ok (value, s') → Loaded s s' := fun offset h => by
    obtain ⟨v, -, h⟩ := bind_eq_ok.1 h
    obtain ⟨-, rfl⟩ := Prod.mk.inj (pure_eq_ok.1 h)
    exact hrefl
  cases a with
  | exticrClear => exact hexticr h
  | exticrSet => exact hexticr h
  | clear offset => exact hexti offset h
  | set offset => exact hexti offset h
  | clearITPendingBit | nvicPriority | nvicEnable | testVector | storeVector =>
    obtain ⟨-, rfl⟩ := Prod.mk.inj (pure_eq_ok.1 h)
    exact hrefl

/-- What a store does. -/
inductive Stored (r : Registering) (v : BitVec 32) (s : Firmware) : Access → Firmware → Prop
  | exticrClear {io : Io}
      (hw : Afio.write r.clkEnabled s.io (0x08 + 4 * (r.pin.pinNumber >>> 2).toNat)
        (v &&& ~~~(0x0f#32 <<< (4 * (r.pin.pinNumber &&& 0x03#8).toNat))) = .ok io) :
      Stored r v s .exticrClear { s with io := io }
  | exticrSet {io : Io}
      (hw : Afio.write r.clkEnabled s.io (0x08 + 4 * (r.pin.pinNumber >>> 2).toNat)
        (v ||| (r.pin.port - 0x41#8).setWidth 32 <<< (4 * (r.pin.pinNumber &&& 0x03#8).toNat)) =
          .ok io) :
      Stored r v s .exticrSet { s with io := io }
  | pending {exti : Stm32Exti} (hw : Exti.write s.io.exti 0x14 r.pin.pin = .ok exti) :
      Stored r v s .clearITPendingBit { s with io := { s.io with exti := exti } }
  | clear {offset : ℕ} {exti : Stm32Exti}
      (hw : Exti.write s.io.exti offset (v &&& ~~~r.pin.pin) = .ok exti) :
      Stored r v s (.clear offset) { s with io := { s.io with exti := exti } }
  | set {offset : ℕ} {exti : Stm32Exti}
      (hw : Exti.write s.io.exti offset (v ||| r.pin.pin) = .ok exti) :
      Stored r v s (.set offset) { s with io := { s.io with exti := exti } }
  | nvic {a : Access} {nvic : Nvic} (ha : a = .nvicPriority ∨ a = .nvicEnable) :
      Stored r v s a { s with nvic := nvic }
  | test : Stored r v s .testVector s
  | vector : Stored r v s .storeVector
      { s with isrVector := Function.update s.isrVector r.pin.line r.isr }

/-- What a store does, by its register. -/
theorem store_stored {v : BitVec 32} (h : r.store s v a = .ok s') : Stored r v s a s' := by
  cases a with
  | exticrClear =>
    obtain ⟨io, hw, h⟩ := bind_eq_ok.1 h
    rw [← pure_eq_ok.1 h]
    exact .exticrClear hw
  | exticrSet =>
    obtain ⟨io, hw, h⟩ := bind_eq_ok.1 h
    rw [← pure_eq_ok.1 h]
    exact .exticrSet hw
  | clearITPendingBit =>
    obtain ⟨exti, hw, h⟩ := bind_eq_ok.1 h
    rw [← pure_eq_ok.1 h]
    exact .pending hw
  | clear offset =>
    obtain ⟨exti, hw, h⟩ := bind_eq_ok.1 h
    rw [← pure_eq_ok.1 h]
    exact .clear hw
  | set offset =>
    obtain ⟨exti, hw, h⟩ := bind_eq_ok.1 h
    rw [← pure_eq_ok.1 h]
    exact .set hw
  | nvicPriority =>
    rw [← pure_eq_ok.1 h]
    exact .nvic (.inl rfl)
  | nvicEnable =>
    rw [← pure_eq_ok.1 h]
    exact .nvic (.inr rfl)
  | testVector =>
    rw [← pure_eq_ok.1 h]
    exact .test
  | storeVector =>
    rw [← pure_eq_ok.1 h]
    exact .vector

/-- A store leaves the handler where it is. -/
theorem Stored.handler {v : BitVec 32} (h : Stored r v s a s') : s'.handler = s.handler := by
  cases h <;> rfl

/-- A step of a call that is not at the table. -/
theorem step_cons (r : Registering) (s : Firmware) (returned : Option Bool) (ha : a ≠ .testVector)
    (ha' : a ≠ .storeVector) (hrest : r.rest = a :: rest) : r.step s returned =
      if a.Loads ∧ r.tmp = none then do
        let (value, s) ← r.load s a
        return ⟨s, some { r with tmp := some value }, returned⟩
      else do
        let s ← r.store s (r.tmp.getD 0#32) a
        return ⟨s, some { r with rest := rest, tmp := none }, returned⟩ := by
  unfold Registering.step
  rw [hrest]
  cases a <;> first | rfl | contradiction

/-- A call that goes on has not returned anything. -/
theorem step_returned {returned : Option Bool} {p : Program} (h : r.step s returned = .ok p)
    (hp : p.main ≠ none) : p.returned = returned := by
  unfold Registering.step at h
  split at h
  · rw [← pure_eq_ok.1 h]
  · split_ifs at h
    · rw [← pure_eq_ok.1 h] at hp
      exact absurd rfl hp
    · rw [← pure_eq_ok.1 h]
  · obtain ⟨t, -, h⟩ := bind_eq_ok.1 h
    rw [← pure_eq_ok.1 h] at hp
    exact absurd rfl hp
  · split_ifs at h
    · obtain ⟨t, -, h⟩ := bind_eq_ok.1 h
      rw [← pure_eq_ok.1 h]
    · obtain ⟨t, -, h⟩ := bind_eq_ok.1 h
      rw [← pure_eq_ok.1 h]

/-- An access without interruption. -/
theorem run_exec (returned : Option Bool) (ha : a ≠ .testVector) (ha' : a ≠ .storeVector)
    (hidle : s.handler = .idle) (hrest : r.rest = a :: rest) (htmp : r.tmp = none)
    (h : r.exec s a = .ok s') : s'.handler = .idle ∧
      ∃ k, Run Program.Step ⟨s, some r, returned⟩ (List.replicate k .access)
        ⟨s', some { r with rest := rest, tmp := none }, returned⟩ := by
  have hstep : ∀ {t : Firmware} {q : Registering} {p : Program}, t.handler = .idle →
      q.step t returned = .ok p → Program.Step ⟨t, some q, returned⟩ .access p :=
    fun ht hp => ⟨decide_eq_true ⟨nofun, ht⟩, hp⟩
  unfold Registering.exec at h
  split_ifs at h with hloads
  · obtain ⟨⟨value, t⟩, hload, hstore⟩ := bind_eq_ok.1 h
    have ht : t.handler = .idle := (load_loaded hload).handler.trans hidle
    refine ⟨(store_stored hstore).handler.trans ht, 2, ?_⟩
    refine .cons (hstep hidle ?_) (.cons (hstep (q := { r with tmp := some value }) ht ?_) (.nil _))
    · rw [step_cons r s returned ha ha' hrest, if_pos ⟨hloads, htmp⟩, hload]
      rfl
    · rw [step_cons { r with tmp := some value } t returned ha ha' hrest,
        if_neg fun h => nomatch h.2]
      exact bind_eq_ok.2 ⟨s', hstore, rfl⟩
  · refine ⟨(store_stored h).handler.trans hidle, 1, .cons (hstep hidle ?_) (.nil _)⟩
    rw [step_cons r s returned ha ha' hrest, if_neg fun h => hloads h.1, htmp]
    exact bind_eq_ok.2 ⟨s', h, rfl⟩

/-- The accesses to the devices without interruption. -/
theorem run_foldlM (returned : Option Bool) {l : List Access}
    (hl : ∀ a ∈ l, a ≠ .testVector ∧ a ≠ .storeVector) (hidle : s.handler = .idle)
    (hrest : r.rest = l ++ rest) (htmp : r.tmp = none) (h : l.foldlM r.exec s = .ok s') :
    s'.handler = .idle ∧
      ∃ k, Run Program.Step ⟨s, some r, returned⟩ (List.replicate k .access)
        ⟨s', some { r with rest := rest, tmp := none }, returned⟩ := by
  induction l generalizing r s with
  | nil =>
    obtain rfl := pure_eq_ok.1 h
    refine ⟨hidle, 0, ?_⟩
    rw [show { r with rest := rest, tmp := none } = r by
      obtain ⟨clkEnabled, isr, pin, rest', tmp⟩ := r
      obtain rfl : rest' = rest := hrest
      obtain rfl : tmp = none := htmp
      rfl]
    exact .nil _
  | cons a l ih =>
    rw [List.foldlM_cons] at h
    obtain ⟨t, ht, h⟩ := bind_eq_ok.1 h
    obtain ⟨ha, ha'⟩ := hl a List.mem_cons_self
    obtain ⟨hidle', k, hk⟩ := run_exec returned ha ha' hidle hrest htmp ht
    obtain ⟨hend, k', hk'⟩ := ih (r := { r with rest := l ++ rest, tmp := none })
      (fun b hb => hl b (List.mem_cons_of_mem a hb)) hidle' rfl rfl h
    exact ⟨hend, k + k', by
      rw [List.replicate_add]
      exact Run.append_iff.2 ⟨_, hk, hk'⟩⟩

/-- **A call that is not interrupted** does what `registerInt` does. -/
theorem run_registerInt {clkEnabled b : Bool} {isr : Option ℕ} {pin : Pin}
    (returned : Option Bool)
    (hidle : s.handler = .idle) (h : registerInt clkEnabled s isr pin = .ok (b, s')) :
    ∃ k,
    Run Program.Step ⟨s, none, returned⟩ (.call clkEnabled isr pin :: List.replicate k .access)
      ⟨s', none, some b⟩ := by
  rw [registerInt_eq clkEnabled s isr pin accesses none] at h
  obtain ⟨t, ht, h⟩ := bind_eq_ok.1 h
  have hdevices : ∀ a ∈ deviceAccesses, a ≠ .testVector ∧ a ≠ .storeVector := by decide
  obtain ⟨hidle', k, hk⟩ := run_foldlM returned hdevices hidle
    (show accesses = deviceAccesses ++ [.testVector, .storeVector] from rfl) rfl ht
  have hcall : Program.Step ⟨s, none, returned⟩ (.call clkEnabled isr pin)
      ⟨s, some ⟨clkEnabled, isr, pin, accesses, none⟩, returned⟩ :=
      ⟨decide_eq_true ⟨rfl, hidle⟩, rfl⟩
  have haccess : ∀ {r : Registering} {p : Program}, r.step t returned = .ok p →
      Program.Step ⟨t, some r, returned⟩ .access p :=
      fun hp => ⟨decide_eq_true ⟨nofun, hidle'⟩, hp⟩
  split_ifs at h with hslot
  · obtain ⟨rfl, rfl⟩ := Prod.mk.inj (pure_eq_ok.1 h)
    refine ⟨k + 1, .cons hcall ?_⟩
    rw [List.replicate_add]
    refine Run.append_iff.2 ⟨_, hk, .cons (haccess ?_) (.nil _)⟩
    exact if_pos hslot
  · obtain ⟨rfl, rfl⟩ := Prod.mk.inj (pure_eq_ok.1 h)
    refine ⟨k + 2, .cons hcall ?_⟩
    rw [List.replicate_add]
    refine Run.append_iff.2 ⟨_, hk, .cons (haccess ?_) (.cons
      (haccess (r := ⟨clkEnabled, isr, pin, [.storeVector], none⟩) rfl) (.nil _))⟩
    exact if_neg hslot

end Hal
end Especial
