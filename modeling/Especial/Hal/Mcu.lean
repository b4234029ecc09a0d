/-
# Inputs and outputs of the firmware together

`Mcu` has both kinds of objects.  In every interleaving of calls of output methods,
initializations of inputs and steps of the interrupt handler, each output shows its state
(`mcu_outputs`): neither side touches what belongs to the other (`Especial.Hal.Sides`).
-/

import Especial.Hal.Sides

namespace Especial
namespace Hal

open Qemu Stm32 Lib Gpio Exti Afio Rcc

/-! ### Both together -/

variable {ι : Type} [DecidableEq ι]

/-- The firmware with its inputs, the RCC, and the `DigitalOutput` objects. -/
structure Mcu (ι : Type) where
  fw : Firmware
  rcc : Stm32Rcc
  objects : ι → DigitalOutput

namespace Mcu

/-- The objects as they are constructed. -/
def init (fw : Firmware) (rcc : Stm32Rcc) (pins : ι → Pin) : Mcu ι where
  fw := fw
  rcc := rcc
  objects o := { pin := pins o, state := .invalid }

/-- The registers that the outputs use. -/
def ports (s : Mcu ι) : Ports := ⟨s.rcc, s.fw.io.gpio⟩

/-- The same with other registers. -/
def withPorts (s : Mcu ι) (ports : Ports) : Mcu ι :=
  { s with rcc := ports.rcc, fw := { s.fw with io := { s.fw.io with gpio := ports.gpio } } }

/-- The outputs and the registers they use. -/
def outputs (s : Mcu ι) : Outputs ι := ⟨s.ports, s.objects⟩

/-- The same with other outputs. -/
def withOutputs (s : Mcu ι) (o : Outputs ι) : Mcu ι :=
  { s.withPorts o.ports with objects := o.objects }

/-- `DigitalInput::initialize` of the object at an address.  It does not set `GPIO_Speed`. -/
def initializeInput (s : Mcu ι) (speed : GPIOSpeed) (d : ℕ) : Except Fault (Bool × Mcu ι) := do
  let pin := (s.fw.inputs d).pin
  let rcc ← apb2PeriphClockCmd s.rcc (apb2PeriphAfio ||| portsRcc pin.base) .ENABLE
  let ports ← gpioInit { s.ports with rcc := rcc } pin.base
    { pin := pin.pin.setWidth 16, speed := speed, mode := .IN_FLOATING }
  let s := s.withPorts ports
  let (b, fw) ← registerInterrupt (s.rcc.isEnabled (PERIPHCLK .afio)) s.fw d
  return (b, { s with fw := fw })

end Mcu

/-- What can happen: a step of the firmware on the input side, a call of a method of an
output, and the initialization of an input. -/
inductive McuEvent (ι : Type)
  | fw (e : Event)
  | call (c : Call ι)
  | initializeInput (speed : GPIOSpeed) (d : ℕ)
  deriving DecidableEq, Repr

namespace Mcu

/-- The interrupt handler interrupts the rest. -/
def Enabled (s : Mcu ι) : McuEvent ι → Bool
  | .fw e => Hal.Enabled s.fw e
  | .call _ | .initializeInput _ _ => s.fw.handler = .idle

/-- What happens. -/
def step (s : Mcu ι) : McuEvent ι → Except Fault (Mcu ι)
  | .fw e => do return { s with fw := ← Hal.step s.fw e }
  | .call c => do return s.withOutputs (← exec s.outputs c)
  | .initializeInput speed d => do
    let (_, s) ← s.initializeInput speed d
    return s

/-- An enabled step that does not fault. -/
def Step (s : Mcu ι) (e : McuEvent ι) (t : Mcu ι) : Prop :=
  s.Enabled e = true ∧ s.step e = .ok t

end Mcu

/-- The calls in a run. -/
def outputCalls (l : List (McuEvent ι)) : List (Call ι) :=
  l.filterMap fun
    | .call c => some c
    | _ => none

/-- What holds between events, when the outputs of `done` have been initialized. -/
structure McuOk (pins : ι → Pin) (done : ι → Prop) (s : Mcu ι) : Prop where
  fw : s.fw.Ok
  ports : ∀ p, PortOk (s.ports.gpio p)
  outputs : Inv pins done s.outputs

variable {pins : ι → Pin} {done : ι → Prop} {s t : Mcu ι}

/-- Whether a pin is an output depends on the output side of its port only. -/
theorem IsOutput.of_outputSide {g g' : Stm32Gpio} {n : ℕ} (h : IsOutput g n)
    (hside : outputSide g' = outputSide g) : IsOutput g' n := by
  simp only [outputSide, Prod.mk.injEq] at hside
  obtain ⟨hCRL, hCRH, -, hmask, -⟩ := hside
  refine ⟨?_, by rw [hmask]; exact h.dir⟩
  rw [getModeBits, getPinConfig, hCRL, hCRH]
  exact h.mode

/-- So does what it shows. -/
theorem Settled.of_outputSide {s t : Ports} {p : Pin} {state : State} (h : Settled s p state)
    (hside : outputSide (t.gpio p.base) = outputSide (s.gpio p.base)) : Settled t p state := by
  have hout := IsOutput.of_outputSide h.output hside
  obtain ⟨⟨hstate, -, hlevel⟩, -⟩ := h
  simp only [outputSide, Prod.mk.injEq] at hside
  obtain ⟨-, -, hODR, -, hirq⟩ := hside
  have hodr : odrBit t p = odrBit s p := by rw [odrBit, odrBit, hODR]
  exact ⟨⟨by rw [hodr]; exact hstate, hout.dir, by rw [hirq, hodr]; exact hlevel⟩, hout⟩

/-- And whether its registers are consistent. -/
theorem PortOk.of_outputSide {g g' : Stm32Gpio} (h : PortOk g)
    (hside : outputSide g' = outputSide g) : PortOk g' := by
  simp only [outputSide, Prod.mk.injEq] at hside
  obtain ⟨hCRL, hCRH, hODR, hmask, -⟩ := hside
  refine ⟨fun n hn => ?_, fun n hn => by rw [hODR]; exact h.odr n hn⟩
  rw [hmask, h.dir n hn, getModeBits, getModeBits, getPinConfig, getPinConfig, hCRL, hCRH]

omit [DecidableEq ι] in
/-- The outputs are the same. -/
theorem McuOk.of_sameOutputs (h : McuOk pins done s) {fw : Firmware} (hfw : fw.Ok)
    (hside : SameOutputs s.fw.io fw.io) : McuOk pins done { s with fw := fw } :=
  ⟨hfw, fun p => PortOk.of_outputSide (h.ports p) (hside p), h.outputs.rcc, h.outputs.pin,
    fun o ho => (h.outputs.settled o ho).of_outputSide (hside _)⟩

/-- The input side is the same. -/
theorem Firmware.Ok.of_inputsKept {fw : Firmware} (h : fw.Ok) {gpio : Fin GPIO_COUNT → Stm32Gpio}
    (hirq : ∀ p, (gpio p).inIrq = (fw.io.gpio p).inIrq) :
    Firmware.Ok { fw with io := { fw.io with gpio := gpio } } :=
  ⟨h.routed.of_eq hirq rfl, h.ports, h.enabled⟩

/-- **A call of a method of an output.** -/
theorem McuOk.call (h : McuOk pins done s) (hpins : Function.Injective pins) {c : Call ι}
    (hc : c = .initializeOutput c.object ∨ done c.object) :
    Returns (s.step (.call c)) (McuOk pins (c.after done)) := by
  refine Returns.bind (P := fun o => exec s.outputs c = .ok o ∧ Inv pins (c.after done) o) ?_
    fun o ho => ?_
  · obtain ⟨o, ho, -, hinv⟩ := exec_returns c h.outputs hpins hc
    exact ⟨o, ho, ho, hinv⟩
  · have hkept : InputsKept s.ports o.ports := portRel_inputsKept.exec ho.1
    exact .pure ⟨h.fw.of_inputsKept hkept.inIrq, portRel_ok.exec ho.1 h.ports, ho.2⟩

/-- A mode without pull drives no line. -/
theorem OnPort.outIrq_of_pull {s t : Ports} {port : Fin GPIO_COUNT} {init : GPIOInitTypeDef}
    {P : ℕ → Bool} (h : OnPort port (Sets init P) s t) (hpull : init.mode.pull = none)
    (p : Fin GPIO_COUNT) : (t.gpio p).outIrq = (s.gpio p).outIrq := by
  by_cases hp : p = port
  · subst hp
    obtain ⟨calls, hcalls, hmem⟩ := h.here.calls
    have hnone : calls = [] := List.eq_nil_iff_forall_not_mem.2 fun d hd =>
      absurd (hpull.symm.trans (hmem d hd).2.2) (by simp)
    rw [hcalls, hnone, List.append_nil]
  · rw [h.others p hp]

/-- `GPIO_Init` of an input does nothing to an output on another pin. -/
theorem Settled.of_sets {s t : Ports} {p q : Pin} {state : State} {speed : GPIOSpeed}
    (h : Settled s p state) (hok : ∀ port, PortOk (s.gpio port)) (hne : p ≠ q)
    (hsets : OnPort q.base (Sets ⟨q.pin.setWidth 16, speed, .IN_FLOATING⟩
      (q.pin.setWidth 16).getLsbD) s t) : Settled t p state := by
  by_cases hbase : p.base = q.base
  · have hline : (p.line : ℕ) ≠ q.line := fun hl => hne (Pin.ext_base_line hbase (Fin.ext hl))
    have hbit : (q.pin.setWidth 16).getLsbD p.line = false := by
      show ((BIT q.line).setWidth 16).getLsbD p.line = false
      rw [BitVec.getLsbD_setWidth, BIT, getLsbD_bit]
      simp [hline]
    have hcalls := hsets.outIrq_of_pull rfl p.base
    have hok' := hsets.here.ok (hok q.base)
    obtain ⟨-, -, hconfig, hodr, -, -, -⟩ := hsets.here
    rw [← hbase] at hok' hconfig hodr
    have hconfig' := hconfig p.line p.line.isLt
    have hodr' : odrBit t p = odrBit s p := (hodr p.line p.line.isLt).trans (by rw [hbit]; rfl)
    rw [hbit, if_neg (by decide)] at hconfig'
    have hdir := PortOk.dirMask_eq (hok p.base) hok' hconfig'
    obtain ⟨⟨hstate, hdirs, hlevel⟩, hmode, -⟩ := h
    refine ⟨⟨by rw [hodr']; exact hstate, by rw [hdir]; exact hdirs, ?_⟩, ?_,
      by rw [hdir]; exact hdirs⟩
    · rw [hcalls, hodr']
      exact hlevel
    · rw [getModeBits, hconfig']
      exact hmode
  · refine h.of_outputSide ?_
    rw [hsets.others p.base hbase]

/-- What a registration did after a change of the output registers, it did before it. -/
theorem Registered.of_inputsKept {fw fw' : Firmware} {isr : Option ℕ} {pin : Pin} {b : Bool}
    {gpio : Fin GPIO_COUNT → Stm32Gpio}
    (h : Registered isr pin { fw with io := { fw.io with gpio := gpio } } b fw')
    (hinputs : ∀ p, (gpio p).inputs = (fw.io.gpio p).inputs)
    (hirq : ∀ p, (gpio p).inIrq = (fw.io.gpio p).inIrq) : Registered isr pin fw b fw' :=
  ⟨h.free, h.vector, h.line, h.port, fun hr => h.routed (hr.of_eq hirq rfl),
    fun p => (h.level p).trans (hinputs p), h.inputs, h.handler⟩

omit [DecidableEq ι] in
/-- **The initialization of an input** on a pin that no output uses registers it, and does
nothing to the outputs. -/
theorem McuOk.initializeInput (h : McuOk pins done s) (speed : GPIOSpeed) {d : ℕ}
    (hpin : ∀ o, pins o ≠ (s.fw.inputs d).pin) : Returns (s.initializeInput speed d) fun r =>
      Registered (some d) (s.fw.inputs d).pin s.fw r.1 r.2.fw ∧ McuOk pins done r.2 ∧
      ∀ p, (r.2.fw.io.gpio p).outIrq = (s.fw.io.gpio p).outIrq := by
  obtain ⟨f, e, hgates⟩ := h.outputs.rcc
  set pin := (s.fw.inputs d).pin with hpin'
  refine (exec_hasGates hgates ⟨.apb2, apb2PeriphAfio ||| portsRcc pin.base, .ENABLE⟩).bind
    fun rcc hrcc => ?_
  obtain ⟨ports, hinit, hsets⟩ : Returns (gpioInit { s.ports with rcc := rcc } pin.base
    ⟨pin.pin.setWidth 16, speed, .IN_FLOATING⟩) _ := gpioInit_sets _
  have hkept : InputsKept { s.ports with rcc := rcc } ports := portRel_inputsKept.gpioInit hinit
  have hok : McuOk pins done (s.withPorts ports) := by
    refine ⟨h.fw.of_inputsKept hkept.inIrq, portRel_ok.gpioInit hinit h.ports, ?_, h.outputs.pin,
      fun o ho => ?_⟩
    · show ∃ f e, HasGates f e ports.rcc
      rw [hsets.rcc]
      exact ⟨_, _, hrcc⟩
    · have hsettled : Settled { s.ports with rcc := rcc } (pins o) (s.objects o).state :=
        (h.outputs.settled o ho).of_outputSide rfl
      exact hsettled.of_sets h.ports (hpin o) hsets
  refine Returns.bind ⟨ports, hinit, rfl⟩ fun u hu => ?_
  obtain rfl : ports = u := hu
  obtain ⟨r, hr, hreg⟩ := registerInt_returns (s := (s.withPorts ports).fw)
    ((s.withPorts ports).rcc.isEnabled (PERIPHCLK .afio)) (some d) pin hok.fw.ports
  refine Returns.bind ⟨r, hr, rfl⟩ fun q hq => ?_
  obtain rfl : r = q := hq
  refine .pure ⟨hreg.of_inputsKept hkept.inputs hkept.inIrq,
    hok.of_sameOutputs (hreg.ok hok.fw) (registerInt_sameOutputs hr), fun p => ?_⟩
  exact ((registerInt_sameOutputs hr).outIrq p).trans (hsets.outIrq_of_pull rfl p)

/-! ### Runs -/

/-- A reset of the AFIO keeps the outputs. -/
theorem reset_sameOutputs {io io' : Io} (h : Afio.reset io = .ok io') : SameOutputs io io' := by
  obtain ⟨io₁, h₁, h⟩ := bind_eq_ok.1 h
  obtain ⟨io₂, h₂, h⟩ := bind_eq_ok.1 h
  obtain ⟨io₃, h₃, h⟩ := bind_eq_ok.1 h
  have hmapr : SameOutputs io { io with afio := maprWrite io.afio 0#32 } := .of_gpio rfl
  exact (((hmapr.trans (exticrWrite_sameOutputs h₁)).trans (exticrWrite_sameOutputs h₂)).trans
    (exticrWrite_sameOutputs h₃)).trans (exticrWrite_sameOutputs h)

/-- The ports are consistent after the reset of the machine. -/
theorem machineReset_ports {io₀ : Io} (h : machineReset Io.alloc = .ok io₀)
    (p : Fin GPIO_COUNT) : PortOk (io₀.gpio p) :=
  PortOk.of_outputSide (reset_ok _) (reset_sameOutputs h p)

omit [DecidableEq ι] in
/-- Nothing is initialized yet. -/
theorem init_mcuOk {io₀ : Io} {aircr : BitVec 32} {inputPins : ℕ → Pin}
    {rcc₀ rcc : Stm32Rcc}
    {events : List Rcc.Event} (hreset : machineReset Io.alloc = .ok io₀)
    (hinit : Rcc.init = .ok rcc₀) (hrcc : Run Rcc.Step rcc₀ events rcc) :
    McuOk pins (fun _ => False) (Mcu.init (Firmware.init io₀ aircr inputPins) rcc pins) := by
  obtain ⟨cfg, r, hhas⟩ := run_has hinit hrcc
  exact ⟨init_ok hreset, machineReset_ports hreset, ⟨_, _, cfg, r, hhas, rfl, rfl⟩,
    fun _ => rfl, fun _ h => h.elim⟩

/-- No step moves an input to another pin. -/
theorem Effect.inputPin {fw fw' : Firmware} {e : Event} (h : Effect fw e fw') (d : ℕ) :
    (fw'.inputs d).pin = (fw.inputs d).pin := by
  cases h with
  | register _ hr => rw [hr.inputs]
  | unregister | enter | test | clear | notify => rfl
  | read => exact pin_refresh fw d _
  | call => exact pin_refresh fw d _

/-- What holds after a sequence of events. -/
def EventsOk (pins : ι → Pin) (inputPins : ℕ → Pin) (l : List (McuEvent ι)) (s : Mcu ι) :
    Prop :=
  InitializedFirst (outputCalls l) →
    (∀ speed d, .initializeInput speed d ∈ l → ∀ o, pins o ≠ inputPins d) →
    McuOk pins (fun o => .initializeOutput o ∈ outputCalls l) s ∧
    ∀ d, (s.fw.inputs d).pin = inputPins d

omit [DecidableEq ι] in
/-- The invariant holds with fewer outputs initialized. -/
theorem McuOk.mono {done' : ι → Prop} (h : McuOk pins done s)
    (hdone : ∀ o, done' o → done o) : McuOk pins done' s :=
  ⟨h.fw, h.ports, h.outputs.rcc, h.outputs.pin, fun o ho => h.outputs.settled o (hdone o ho)⟩

/-- **One event.** -/
theorem step_eventsOk (hpins : Function.Injective pins) {inputPins : ℕ → Pin}
    {l : List (McuEvent ι)}
    {e : McuEvent ι} (h : EventsOk pins inputPins l s) (hstep : Mcu.Step s e t) :
    EventsOk pins inputPins (l ++ [e]) t := by
  intro hcalls hinputs
  have hsnoc : outputCalls (l ++ [e]) = outputCalls l ++ outputCalls [e] := List.filterMap_append
  rw [hsnoc] at hcalls ⊢
  have hinputs' : ∀ speed d, .initializeInput speed d ∈ l → ∀ o, pins o ≠ inputPins d :=
    fun speed d hmem => hinputs speed d (List.mem_append_left _ hmem)
  obtain ⟨hen, hstep⟩ := hstep
  cases e with
  | fw e =>
    rw [show outputCalls [(.fw e : McuEvent ι)] = [] from rfl, List.append_nil] at hcalls ⊢
    obtain ⟨hok, hpin⟩ := h hcalls hinputs'
    obtain ⟨fw, hfw, hstep⟩ := bind_eq_ok.1 hstep
    rw [← pure_eq_ok.1 hstep]
    exact ⟨hok.of_sameOutputs ((step_effect hok.fw ⟨hen, hfw⟩).ok hok.fw)
      (step_sameOutputs hfw),
      fun d => ((step_effect hok.fw ⟨hen, hfw⟩).inputPin d).trans (hpin d)⟩
  | call c =>
    rw [show outputCalls [(.call c : McuEvent ι)] = [c] from rfl] at hcalls ⊢
    obtain ⟨hok, hpin⟩ := h hcalls.init hinputs'
    have hok' := (hok.call hpins (hcalls _ c [] rfl)).of_eq_ok hstep
    obtain ⟨o, -, hstep⟩ := bind_eq_ok.1 hstep
    refine ⟨hok'.mono fun o ho => ?_, fun d => ?_⟩
    · rcases List.mem_append.1 ho with ho | ho
      · exact Or.inl ho
      · exact Or.inr (List.mem_singleton.1 ho).symm
    · rw [← pure_eq_ok.1 hstep]
      exact hpin d
  | initializeInput speed d =>
    rw [show outputCalls [(.initializeInput speed d : McuEvent ι)] = [] from rfl,
      List.append_nil] at hcalls ⊢
    obtain ⟨hok, hpin⟩ := h hcalls hinputs'
    obtain ⟨⟨b, u⟩, hu, hstep⟩ := bind_eq_ok.1 hstep
    have hfree : ∀ o, pins o ≠ (s.fw.inputs d).pin := fun o => by
      rw [hpin d]
      exact hinputs speed d (List.mem_append_right _ List.mem_cons_self) o
    obtain ⟨hreg, hok', -⟩ := (hok.initializeInput speed hfree).of_eq_ok hu
    rw [← pure_eq_ok.1 hstep]
    exact ⟨hok', fun d => by rw [hreg.inputs]; exact hpin d⟩

/-- **Inputs and outputs.**  Outputs on different pins, inputs on any pins, after a reset of
the devices and on an RCC in any state since its initialization.  Any interleaving of calls
of output methods (each output is initialized before it is set), of initializations of
inputs on pins without an output, of registrations and cancellations, of changes of the
inputs and of steps of the interrupt handlers.  In every state each output that has been
initialized shows its state, and the next call of an output method and the next
initialization of an input return. -/
theorem mcu_outputs (pins : ι → Pin) (hpins : Function.Injective pins) (inputPins : ℕ → Pin)
    (io₀ : Io) (aircr : BitVec 32) (hreset : machineReset Io.alloc = .ok io₀)
    (rcc₀ rcc : Stm32Rcc)
    (events : List Rcc.Event) (hinit : Rcc.init = .ok rcc₀)
    (hrcc : Run Rcc.Step rcc₀ events rcc) (l : List (McuEvent ι)) (s : Mcu ι)
    (hrun : Run Mcu.Step (Mcu.init (Firmware.init io₀ aircr inputPins) rcc pins) l s)
    (hcalls : InitializedFirst (outputCalls l))
    (hinputs : ∀ speed d, .initializeInput speed d ∈ l → ∀ o, pins o ≠ inputPins d) :
    (∀ o, .initializeOutput o ∈ outputCalls l →
      Shows s.ports (pins o) (s.objects o).state) ∧
      (∀ c, InitializedFirst (outputCalls l ++ [c]) → ∃ t, s.step (.call c) = .ok t) ∧
      ∀ speed d, (∀ o, pins o ≠ inputPins d) →
      ∃ t, s.step (.initializeInput speed d) = .ok t := by
  have h₀ :
      EventsOk pins inputPins [] (Mcu.init (Firmware.init io₀ aircr inputPins) rcc pins) :=
    fun _ _ => ⟨(init_mcuOk hreset hinit hrcc).mono fun o ho => absurd ho (by simp [outputCalls]),
      fun _ => rfl⟩
  obtain ⟨hok, hpin⟩ := hrun.invariant_hist (P := EventsOk pins inputPins)
    (fun _ _ _ _ h hs => step_eventsOk hpins h hs) h₀ hcalls hinputs
  refine ⟨fun o ho => (hok.outputs.settled o ho).shows, fun c hc => ?_, fun speed d hd => ?_⟩
  · obtain ⟨t, ht, -⟩ := hok.call hpins (hc _ c [] rfl)
    exact ⟨t, ht⟩
  · obtain ⟨r, hr, -⟩ := hok.initializeInput speed (d := d) fun o => by rw [hpin d]; exact hd o
    exact ⟨r.2, by rw [Mcu.step, hr]; rfl⟩

/-- An input on `PA.3` is initialized and the LED on `PC.12`; an edge on `PA.3` is served
while the LED is switched on. -/
def edgeAndLed : List (McuEvent Bool) :=
  [.initializeInput .speed2MHz 0, .call (.initializeOutput false), .fw (.gpioIn pinA3.base 3 true),
    .fw (.enter .exti3), .fw .handler, .fw .handler, .fw .handler, .call (.set false true)]

/-- The LED shows its state. -/
theorem mcu_outputs_edge :
    ∃ io₀ rcc s, machineReset Io.alloc = .ok io₀ ∧ Rcc.init = .ok rcc ∧
    Run Mcu.Step (Mcu.init (Firmware.init io₀ 0#32 fun _ => pinA3) rcc leds) edgeAndLed s ∧
    (s.fw.inputs 0).get = true ∧ Shows s.ports (leds false) .on := by
  have hexec : ((machineReset Io.alloc).toOption.bind fun io₀ => Rcc.init.toOption.bind fun rcc =>
      (edgeAndLed.foldlM (fun (s : Mcu Bool) e => if s.Enabled e then (s.step e).toOption else none)
        (Mcu.init (Firmware.init io₀ 0#32 fun _ => pinA3) rcc leds)).map fun s =>
          ((s.fw.inputs 0).get, (s.objects false).state)) =
            some (true, State.on) := by decide +kernel
  obtain ⟨io₀, hio, hexec⟩ := Option.bind_eq_some_iff.1 hexec
  obtain ⟨rcc, hrcc, hexec⟩ := Option.bind_eq_some_iff.1 hexec
  obtain ⟨s, hs, hval⟩ := Option.map_eq_some_iff.1 hexec
  obtain ⟨hget, hstate⟩ := Prod.mk.inj hval
  have hreset := toOption_eq_some.1 hio
  have hinit := toOption_eq_some.1 hrcc
  have hrun :
      Run Mcu.Step (Mcu.init (Firmware.init io₀ 0#32 fun _ => pinA3) rcc leds) edgeAndLed s := by
    refine (Run.some_iff_foldlM.2 hs).mono fun s e t h => ?_
    rw [Option.ite_none_right_eq_some] at h
    exact ⟨h.1, toOption_eq_some.1 h.2⟩
  have hleds : Function.Injective leds := by
    intro a b
    cases a <;> cases b <;> decide
  have hevents : outputCalls edgeAndLed = [.initializeOutput false, .set false true] := by decide
  have hcalls : InitializedFirst (outputCalls edgeAndLed) := by
    rw [hevents]
    decide
  have hshows := (mcu_outputs leds hleds (fun _ => pinA3) io₀ 0#32 hreset rcc rcc [] hinit
    (.nil rcc) edgeAndLed s hrun hcalls fun _ _ _ o => by cases o <;> decide).1 false
      (by rw [hevents]; decide)
  rw [hstate] at hshows
  exact ⟨io₀, rcc, s, hreset, hinit, hrun, hget, hshows⟩

end Hal
end Especial
