/-
# The two sides of a port

A `DigitalInput` and a `DigitalOutput` share the registers of the ports.  The methods of
the outputs only read and write port registers, so they leave the levels of the inputs
and their way to the EXTI controller alone (`exec_inputsKept`).  The interrupt handler,
registrations and changes of the inputs leave configuration, output register and output
lines of every port alone (`step_sameOutputs`).
-/

import Especial.Gpio.Levels
import Especial.Hal.GpioInit
import Especial.Hal.OutputLevels
import Especial.Hal.Registration
import Especial.Hal.Watched

namespace Especial
namespace Hal

open Qemu Stm32 Lib Gpio Exti Afio Rcc

/-! ### What the methods of the outputs do to the ports -/

/-- A relation that every access to a port register and every access to the RCC keeps. -/
structure PortRel (R : Ports → Ports → Prop) : Prop where
  refl : ∀ s, R s s
  trans : ∀ s t u, R s t → R t u → R s u
  read : ∀ s port offset value t, s.read port offset = .ok (value, t) → R s t
  write : ∀ s port offset value t, s.write port offset value = .ok t → R s t
  rcc : ∀ (s : Ports) rcc, R s { s with rcc := rcc }

section PortRel

variable {R : Ports → Ports → Prop} {port : Fin GPIO_COUNT} {init : GPIOInitTypeDef}
    {s t : Ports}

/-- A turn of the loop of `GPIO_Init` keeps the relation. -/
theorem PortRel.gpioInitPin (h : PortRel R) {base k : ℕ} {st st' : BitVec 32 × Ports}
    (hs : Hal.gpioInitPin init port base st k = .ok st') : R st.2 st'.2 := by
  obtain ⟨tmpreg, s⟩ := st
  unfold Hal.gpioInitPin at hs
  dsimp only at hs
  split_ifs at hs
  · obtain ⟨t, ht, hs⟩ := bind_eq_ok.1 hs
    rw [← pure_eq_ok.1 hs]
    exact h.write _ _ _ _ _ ht
  · obtain ⟨t, ht, hs⟩ := bind_eq_ok.1 hs
    rw [← pure_eq_ok.1 hs]
    exact h.write _ _ _ _ _ ht
  · rw [← pure_eq_ok.1 hs]
    exact h.refl s
  · rw [← pure_eq_ok.1 hs]
    exact h.refl s

/-- So does one of its halves. -/
theorem PortRel.gpioInitHalf (h : PortRel R) {offset base : ℕ}
    (hs : Hal.gpioInitHalf init port offset base s = .ok t) : R s t := by
  unfold Hal.gpioInitHalf at hs
  obtain ⟨⟨value, s₁⟩, hread, hs⟩ := bind_eq_ok.1 hs
  obtain ⟨⟨tmpreg, s₂⟩, hloop, hs⟩ := bind_eq_ok.1 hs
  have hturns : R s₁ s₂ := (Run.ok_iff_foldlM.2 hloop).invariant (P := fun st => R s₁ st.2)
    (fun _ _ _ hst hi => h.trans _ _ _ hst (h.gpioInitPin hi)) (h.refl s₁)
  exact h.trans _ _ _ (h.read _ _ _ _ _ hread) (h.trans _ _ _ hturns (h.write _ _ _ _ _ hs))

/-- **So does `GPIO_Init`.** -/
theorem PortRel.gpioInit (h : PortRel R) (hs : Hal.gpioInit s port init = .ok t) : R s t := by
  have hhigh : ∀ u,
      (if init.pin > 0x00ff#16 then Hal.gpioInitHalf init port 0x04 8 u else pure u) = .ok t →
      R u t := fun u hu => by
    split_ifs at hu
    · exact h.gpioInitHalf hu
    · rw [← pure_eq_ok.1 hu]
      exact h.refl u
  unfold Hal.gpioInit at hs
  dsimp only at hs
  by_cases hlow : init.pin.setWidth 32 &&& 0x00ff#32 ≠ 0#32
  · rw [if_pos hlow] at hs
    obtain ⟨u, hu, hs⟩ := bind_eq_ok.1 hs
    exact h.trans _ _ _ (h.gpioInitHalf hu) (hhigh u hs)
  · rw [if_neg hlow, pure_bind] at hs
    exact hhigh s hs

variable {ι : Type} [DecidableEq ι] {s t : Outputs ι} {o : ι}

/-- `DigitalOutput::setState` keeps the relation. -/
theorem PortRel.setState (h : PortRel R) {state : State} (hs : Hal.setState s o state = .ok t) :
    R s.ports t.ports := by
  unfold Hal.setState at hs
  dsimp only at hs
  split_ifs at hs
  all_goals
    obtain ⟨ports, hports, hs⟩ := bind_eq_ok.1 hs
    rw [← pure_eq_ok.1 hs]
    exact h.write _ _ _ _ _ hports

/-- So does `DigitalOutput::set`. -/
theorem PortRel.set (h : PortRel R) {b : Bool} (hs : Hal.set s o b = .ok t) :
    R s.ports t.ports := by
  unfold Hal.set at hs
  split_ifs at hs
  · exact h.setState hs
  · exact h.setState hs

/-- **A method of an output** keeps the relation. -/
theorem PortRel.exec (h : PortRel R) {c : Call ι} (hs : Hal.exec s c = .ok t) :
    R s.ports t.ports := by
  cases c with
  | initializeOutput o =>
    obtain ⟨rcc, -, hs⟩ := bind_eq_ok.1 hs
    obtain ⟨ports, hports, hs⟩ := bind_eq_ok.1 hs
    exact h.trans _ _ _ (h.rcc _ rcc) (h.trans _ _ _ (h.gpioInit hports) (h.set hs))
  | set o b => exact h.set hs
  | assign o b => exact h.set hs
  | toggle o => exact h.setState hs

end PortRel

/-- The levels of the inputs and their way to the EXTI controller are the same. -/
structure InputsKept (s t : Ports) : Prop where
  inputs : ∀ p, (t.gpio p).inputs = (s.gpio p).inputs
  inIrq : ∀ p, (t.gpio p).inIrq = (s.gpio p).inIrq

/-- A write of a port register keeps the levels of the inputs. -/
theorem write_inputs {clkEnabled : Bool} {g g' : Stm32Gpio} {offset : ℕ} {value : BitVec 32}
    (h : Gpio.write clkEnabled g offset value = .ok g') : g'.inputs = g.inputs := by
  have hchecked : (checked clkEnabled g).inputs = g.inputs := by cases clkEnabled <;> rfl
  rw [← hchecked]
  cases write_written h with
  | crl h =>
    obtain ⟨dirMask, rfl, -⟩ := (updateDir_returns (Or.inl rfl) _).of_eq_ok h
    rfl
  | crh h =>
    obtain ⟨dirMask, rfl, -⟩ := (updateDir_returns (Or.inr rfl) _).of_eq_ok h
    rfl
  | idr => rfl
  | odr =>
    unfold odrWrite
    dsimp only
    split_ifs <;> rfl
  | bsrr => rfl
  | brr => rfl

/-- What a write to a port register does to the ports. -/
theorem Ports.write_eq {s t : Ports} {port : Fin GPIO_COUNT} {offset : ℕ} {value : BitVec 32}
    (h : s.write port offset value = .ok t) : ∃ g,
      Gpio.write (s.clkEnabled port) (s.gpio port) offset value = .ok g ∧
      t = { s with gpio := Function.update s.gpio port g } := by
  obtain ⟨g, hg, h⟩ := bind_eq_ok.1 h
  exact ⟨g, hg, (pure_eq_ok.1 h).symm⟩

/-- A read of a port register only warns. -/
theorem Ports.read_eq {s t : Ports} {port : Fin GPIO_COUNT} {offset : ℕ} {value : BitVec 32}
    (h : s.read port offset = .ok (value, t)) : ∃ w,
      t = { s with gpio := Function.update s.gpio port { s.gpio port with warnings := w } } := by
  obtain ⟨⟨v, g⟩, hg, h⟩ := bind_eq_ok.1 h
  obtain ⟨w, rfl⟩ := read_frame hg
  exact ⟨w, (Prod.mk.inj (pure_eq_ok.1 h)).2.symm⟩

/-- What holds of the port that changes holds of all. -/
theorem forall_update {gpio : Fin GPIO_COUNT → Stm32Gpio} {port : Fin GPIO_COUNT} {g : Stm32Gpio}
    {R : Stm32Gpio → Stm32Gpio → Prop} (hrefl : ∀ g, R g g) (h : R (gpio port) g)
    (p : Fin GPIO_COUNT) : R (gpio p) (Function.update gpio port g p) := by
  by_cases hp : p = port
  · subst hp
    rwa [Function.update_self]
  · rw [Function.update_of_ne hp]
    exact hrefl _

/-- Accesses to port registers keep the inputs. -/
theorem portRel_inputsKept : PortRel InputsKept where
  refl _ := ⟨fun _ => rfl, fun _ => rfl⟩
  trans _ _ _ h h' :=
    ⟨fun p => (h'.inputs p).trans (h.inputs p), fun p => (h'.inIrq p).trans (h.inIrq p)⟩
  read s port offset value t h := by
    obtain ⟨w, rfl⟩ := Ports.read_eq h
    exact ⟨forall_update (R := fun g g' => g'.inputs = g.inputs) (fun _ => rfl) rfl,
      forall_update (R := fun g g' => g'.inIrq = g.inIrq) (fun _ => rfl) rfl⟩
  write s port offset value t h := by
    obtain ⟨g, hg, rfl⟩ := Ports.write_eq h
    exact ⟨forall_update (R := fun g g' => g'.inputs = g.inputs) (fun _ => rfl) (write_inputs hg),
      forall_update (R := fun g g' => g'.inIrq = g.inIrq) (fun _ => rfl) (write_inIrq hg)⟩
  rcc _ _ := ⟨fun _ => rfl, fun _ => rfl⟩

/-- They keep the ports consistent. -/
theorem portRel_ok : PortRel fun s t => (∀ p, PortOk (s.gpio p)) →
    ∀ p, PortOk (t.gpio p) where
  refl _ h := h
  trans _ _ _ h h' hs := h' (h hs)
  read s port offset value t h hs p := by
    obtain ⟨w, rfl⟩ := Ports.read_eq h
    exact forall_update (g := { s.gpio port with warnings := w })
      (R := fun g g' => PortOk g → PortOk g') (fun _ h => h)
      (fun hok => ⟨hok.dir, hok.odr⟩) p (hs p)
  write s port offset value t h hs p := by
    obtain ⟨g, hg, rfl⟩ := Ports.write_eq h
    exact forall_update (R := fun g g' => PortOk g → PortOk g') (fun _ h => h)
      (fun hok => hok.write hg) p (hs p)
  rcc _ _ h := h

/-! ### What the input side does to the outputs -/

/-- Configuration, direction, output bits and output lines of a port. -/
def outputSide (g : Stm32Gpio) :
    BitVec 32 × BitVec 32 × BitVec 32 × BitVec 16 × List (ℕ × Bool) :=
  (g.CRL, g.CRH, g.ODR, g.dirMask, g.outIrq)

/-- They are the same. -/
def SameOutputs (io io' : Io) : Prop := ∀ p, outputSide (io'.gpio p) = outputSide (io.gpio p)

section SameOutputs

variable {io io' io'' : Io}

/-- The outputs are in the ports. -/
theorem SameOutputs.of_gpio (h : io'.gpio = io.gpio) : SameOutputs io io' := fun p => by rw [h]

/-- Two steps that keep the outputs keep them together. -/
theorem SameOutputs.trans (h : SameOutputs io io') (h' : SameOutputs io' io'') :
    SameOutputs io io'' :=
  fun p => (h' p).trans (h p)

/-- The output lines are the same. -/
theorem SameOutputs.outIrq (h : SameOutputs io io') (p : Fin GPIO_COUNT) :
    (io'.gpio p).outIrq = (io.gpio p).outIrq :=
  congrArg (fun side => side.2.2.2.2) (h p)

/-- The output bits are the same, whatever the RCC does. -/
theorem SameOutputs.odrBit (h : SameOutputs io io') (rcc rcc' : Stm32Rcc) (p : Pin) :
    odrBit ⟨rcc', io'.gpio⟩ p = odrBit ⟨rcc, io.gpio⟩ p := by
  have hODR : (io'.gpio p.base).ODR = (io.gpio p.base).ODR :=
    congrArg (fun side => side.2.2.1) (h p.base)
  unfold Hal.odrBit
  dsimp only
  rw [hODR]

/-- Connecting a line keeps the outputs. -/
theorem connectIrq_sameOutputs {i n : ℕ} {irq : Option ℕ}
    (h : connectIrq io i n irq = .ok io') : SameOutputs io io' := by
  unfold connectIrq at h
  split_ifs at h with hi
  rw [← Except.ok.inj h]
  exact forall_update (R := fun g g' => outputSide g' = outputSide g) (fun _ => rfl) rfl

/-- So does the body of the loop of `EXTICR`. -/
theorem exticrLine_sameOutputs {index : Fin 4} {newValue : BitVec 32} {init : Bool} {i : ℕ}
    (h : exticrLine index newValue init io i = .ok io') : SameOutputs io io' := by
  unfold exticrLine at h
  obtain ⟨io₁, h₁, h₂⟩ := bind_eq_ok.1 h
  cases init with
  | true =>
    obtain rfl := pure_eq_ok.1 h₁
    exact connectIrq_sameOutputs h₂
  | false => exact (connectIrq_sameOutputs h₁).trans (connectIrq_sameOutputs h₂)

/-- So does a write of `EXTICR`. -/
theorem exticrWrite_sameOutputs {index : Fin 4} {newValue : BitVec 32} {init : Bool}
    (h : exticrWrite io index newValue init = .ok io') : SameOutputs io io' := by
  unfold exticrWrite at h
  obtain ⟨io₁, hloop, h⟩ := bind_eq_ok.1 h
  have hsame : SameOutputs io io₁ := (Run.ok_iff_foldlM.2 hloop).invariant (P := SameOutputs io)
    (fun _ _ _ hs hi => hs.trans (exticrLine_sameOutputs hi)) fun _ => rfl
  rw [← pure_eq_ok.1 h]
  exact hsame

/-- The check of the clock of the AFIO keeps the ports. -/
theorem gpio_checkPeriphClk (clkEnabled : Bool) (io : Io) :
    (checkPeriphClk clkEnabled io).gpio = io.gpio := by
  cases clkEnabled <;> rfl

/-- A write of the AFIO keeps the outputs. -/
theorem write_sameOutputs {clkEnabled : Bool} {offset : ℕ} {value : BitVec 32}
    (h : Afio.write clkEnabled io offset value = .ok io') : SameOutputs io io' := by
  have hchecked := SameOutputs.of_gpio (gpio_checkPeriphClk clkEnabled io)
  rcases write_cases h with rfl | ⟨index, hw⟩
  · exact hchecked
  · exact hchecked.trans (exticrWrite_sameOutputs hw)

/-- So does a read-modify-write of `EXTICR`. -/
theorem exticrModify_sameOutputs {clkEnabled : Bool} {index : ℕ} {f : BitVec 32 → BitVec 32}
    (h : exticrModify clkEnabled io index f = .ok io') : SameOutputs io io' := by
  obtain ⟨⟨value, io₁⟩, hread, h⟩ := bind_eq_ok.1 h
  have hgpio : io₁.gpio = io.gpio := by
    rw [← gpio_checkPeriphClk clkEnabled io]
    unfold Afio.read at hread
    dsimp only at hread
    split at hread
    all_goals first
      | exact absurd hread throw_ne_ok
      | rw [← (Prod.mk.inj (pure_eq_ok.1 hread)).2]
  exact (SameOutputs.of_gpio hgpio).trans (write_sameOutputs h)

/-- A read-modify-write of the EXTI controller keeps the ports. -/
theorem extiModify_gpio {offset : ℕ} {f : BitVec 32 → BitVec 32}
    (h : extiModify io offset f = .ok io') : io'.gpio = io.gpio := by
  obtain ⟨value, -, h⟩ := bind_eq_ok.1 h
  obtain ⟨exti, -, h⟩ := bind_eq_ok.1 h
  rw [← pure_eq_ok.1 h]

/-- So does `EXTI_ClearITPendingBit`. -/
theorem extiClearITPendingBit_gpio {line : BitVec 32}
    (h : extiClearITPendingBit io line = .ok io') : io'.gpio = io.gpio := by
  obtain ⟨exti, -, h⟩ := bind_eq_ok.1 h
  rw [← pure_eq_ok.1 h]

/-- So does `EXTI_Init`. -/
theorem extiInit_gpio {init : EXTIInitTypeDef} (h : extiInit io init = .ok io') :
    io'.gpio = io.gpio := by
  unfold extiInit at h
  by_cases hcmd : init.lineCmd ≠ .DISABLE
  · rw [if_pos hcmd] at h
    obtain ⟨io₁, h₁, h⟩ := bind_eq_ok.1 h
    obtain ⟨io₂, h₂, h⟩ := bind_eq_ok.1 h
    obtain ⟨io₃, h₃, h⟩ := bind_eq_ok.1 h
    obtain ⟨io₄, h₄, h⟩ := bind_eq_ok.1 h
    obtain ⟨io₅, h₅, h⟩ := bind_eq_ok.1 h
    have hgpio : io₅.gpio = io.gpio := by
      rw [extiModify_gpio h₅, extiModify_gpio h₄, extiModify_gpio h₃, extiModify_gpio h₂,
        extiModify_gpio h₁]
    rw [← hgpio]
    by_cases htrigger : init.trigger = .risingFalling
    · rw [if_pos htrigger] at h
      obtain ⟨io₆, h₆, h⟩ := bind_eq_ok.1 h
      rw [extiModify_gpio h, extiModify_gpio h₆]
    · rw [if_neg htrigger] at h
      exact extiModify_gpio h
  · rw [if_neg hcmd] at h
    exact extiModify_gpio h

variable {s s' : Firmware}

/-- **`registerInt` keeps the outputs.** -/
theorem registerInt_sameOutputs {clkEnabled : Bool} {isr : Option ℕ} {pin : Pin} {b : Bool}
    (h : registerInt clkEnabled s isr pin = .ok (b, s')) : SameOutputs s.io s'.io := by
  obtain ⟨io₁, hconfig, h⟩ := bind_eq_ok.1 h
  obtain ⟨io₂, hclear, h⟩ := bind_eq_ok.1 h
  obtain ⟨io₃, hinit, h⟩ := bind_eq_ok.1 h
  obtain ⟨io₀, h₀, h₁⟩ := bind_eq_ok.1 hconfig
  have hio : s'.io = io₃ := by
    dsimp only at h
    split_ifs at h <;> rw [← (Prod.mk.inj (pure_eq_ok.1 h)).2]
  rw [hio]
  exact ((exticrModify_sameOutputs h₀).trans (exticrModify_sameOutputs h₁)).trans
    ((SameOutputs.of_gpio (extiClearITPendingBit_gpio hclear)).trans
      (.of_gpio (extiInit_gpio hinit)))

/-- **A step of the firmware** does not change the outputs. -/
theorem step_sameOutputs {e : Event} (h : step s e = .ok s') : SameOutputs s.io s'.io := by
  cases e with
  | registerInt clkEnabled isr pin =>
    obtain ⟨⟨b, u⟩, hu, h⟩ := bind_eq_ok.1 h
    rw [← pure_eq_ok.1 h]
    exact registerInt_sameOutputs hu
  | unregisterInt pin =>
    rw [← pure_eq_ok.1 h]
    exact .of_gpio rfl
  | read d =>
    obtain ⟨r, hr, h⟩ := bind_eq_ok.1 h
    obtain rfl := Except.ok.inj ((digitalInputRead_eq s d).symm.trans hr)
    rw [← pure_eq_ok.1 h]
    exact .of_gpio rfl
  | enter handler =>
    rw [← pure_eq_ok.1 h]
    exact .of_gpio rfl
  | handler =>
    by_cases hidle : s.handler = .idle
    · unfold step handlerStep at h
      dsimp only at h
      rw [hidle] at h
      rw [← pure_eq_ok.1 h]
      exact .of_gpio rfl
    · cases handlerStep_effect hidle h with
      | test _ => exact .of_gpio rfl
      | call _ _ => exact .of_gpio rfl
      | clear _ hio => exact .of_gpio hio.gpio
  | gpioIn port n level =>
    obtain ⟨io, hio, h⟩ := bind_eq_ok.1 h
    obtain ⟨-, exti, -, rfl⟩ := gpioInTrigger_eq hio
    rw [← pure_eq_ok.1 h]
    exact forall_update (R := fun g g' => outputSide g' = outputSide g) (fun _ => rfl) rfl

end SameOutputs

end Hal
end Especial
