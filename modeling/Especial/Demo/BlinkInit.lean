/-
# `init` of the demo `hello-blink`, access by access

`init` initializes the button, registers its interrupt once more and initializes the LED.
An interrupt can come between any two accesses to a register, and the inputs change at any
time.  So every load and every store of `init` is a step of its own here, in the order of the
source, with the loaded value in a register of the processor (`InitPc`, `initStep`).  Without
an interruption the accesses do what the three calls do (`run_init`).

`Initializing` says what holds before each access.  The access keeps it
(`initStep_advances`), and what happens in between keeps it as well
(`Initializing.hardware`): the handler and the inputs touch neither the configuration of the
ports nor the line that is being configured.
-/

import Especial.Hal.OutputFrames
import Especial.Hal.Progress

namespace Especial
namespace HelloBlink

open Qemu Stm32 Lib Gpio Exti Afio Rcc Emul Hal

/-! ### The program -/

/-- The letter of the port. -/
theorem portC_ok : 0x41 ≤ (0x43#8).toNat ∧ (0x43#8).toNat ≤ 0x47 := by decide

/-- The number of the button. -/
theorem toNat_06_lt : (06#8).toNat < 16 := by decide

/-- The number of the LED. -/
theorem toNat_12_lt : (12#8).toNat < 16 := by decide

/-- The pin of `btn2`. -/
def btn2Pin : Pin := ⟨0x43#8, 06#8, portC_ok, toNat_06_lt⟩

/-- The pin of `led`. -/
def ledPin : Pin := ⟨0x43#8, 12#8, portC_ok, toNat_12_lt⟩

/-- `init`, as calls. -/
def init (speed : GPIOSpeed) (s : Mcu Unit) : Except Fault (Mcu Unit) := do
  let (_, s) ← s.initializeInput speed 0
  let (_, fw) ← registerInterrupt (s.rcc.isEnabled (PERIPHCLK .afio)) s.fw 0
  let s := { s with fw := fw }
  return s.withOutputs (← initializeOutput s.outputs ())

/-- Where `init` is.  A read-modify-write is before its load, or before its store with the
value that was loaded. -/
inductive InitPc
  /-- `btn2.initialize()`: `RCC->APB2ENR |= …` -/
  | inputClock (tmp : Option (BitVec 32))
  /-- `btn2.initialize()`: `GPIO_Init`, which modifies `CRL` -/
  | inputMode (tmp : Option (BitVec 32))
  /-- `registerInt`, called from `btn2.initialize()` or once more from `init` -/
  | register (again : Bool) (r : Registering)
  /-- `led.initialize()`: `RCC->APB2ENR |= …` -/
  | outputClock (tmp : Option (BitVec 32))
  /-- `led.initialize()`: `GPIO_Init`, which modifies `CRH` -/
  | outputMode (tmp : Option (BitVec 32))
  /-- `led.initialize()`: `set(false)`, which writes `BRR` -/
  | resetBits
  deriving DecidableEq, Repr

/-- What `btn2.initialize()` asks `GPIO_Init` for; it does not set `GPIO_Speed`. -/
def btn2Init (speed : GPIOSpeed) : GPIOInitTypeDef :=
  ⟨btn2Pin.pin.setWidth 16, speed, .IN_FLOATING⟩

/-- What `led.initialize()` asks it for. -/
def ledInit : GPIOInitTypeDef := ⟨ledPin.pin.setWidth 16, .speed50MHz, .Out_PP⟩

/-- The value of `APB2ENR` with the clocks of the AFIO and of the port of a pin. -/
def withClocks (pin : Pin) (old : BitVec 32) : BitVec 32 :=
  newEnr old (apb2PeriphAfio ||| portsRcc pin.base) .ENABLE

/-- What `GPIO_Init` does after it has loaded `CRL` or `CRH`.  Neither mode is pulled, so that
the loop makes no access. -/
def gpioInitStore (init : GPIOInitTypeDef) (port : Fin GPIO_COUNT) (offset base : ℕ)
    (value : BitVec 32) (s : Ports) : Except Fault Ports := do
  let (tmpreg, s) ← (List.range 8).foldlM (gpioInitPin init port base) (value, s)
  s.write port offset tmpreg

/-- A call of `registerInt` for the button begins. -/
def registering (s : Mcu Unit) : Registering :=
  ⟨s.rcc.isEnabled (PERIPHCLK .afio), some 0, btn2Pin, accesses, none⟩

/-- Where `init` is after an access of `registerInt`; its result is not used. -/
def afterAccess (s : Mcu Unit) (again : Bool) : Option Registering → InitPc
  | some r => .register again r
  | none => if again then .outputClock none else .register true (registering s)

/-- The next load or store of `init`, and where it is then; `none` if it has returned. -/
def initStep (speed : GPIOSpeed) (s : Mcu Unit) :
    InitPc → Except Fault (Mcu Unit × Option InitPc)
  | .inputClock none => do return (s, some (.inputClock (some (← readw s.rcc 0x18))))
  | .inputClock (some old) => do
    let rcc ← writew s.rcc 0x18 (withClocks btn2Pin old)
    return ({ s with rcc := rcc }, some (.inputMode none))
  | .inputMode none => do
    let (value, ports) ← s.ports.read btn2Pin.base 0x00
    return (s.withPorts ports, some (.inputMode (some value)))
  | .inputMode (some value) => do
    let ports ← gpioInitStore (btn2Init speed) btn2Pin.base 0x00 0 value s.ports
    let s := s.withPorts ports
    return (s, some (.register false (registering s)))
  | .register again r => do
    let p ← r.step s.fw none
    let s := { s with fw := p.firmware }
    return (s, some (afterAccess s again p.main))
  | .outputClock none => do return (s, some (.outputClock (some (← readw s.rcc 0x18))))
  | .outputClock (some old) => do
    let rcc ← writew s.rcc 0x18 (withClocks ledPin old)
    return ({ s with rcc := rcc }, some (.outputMode none))
  | .outputMode none => do
    let (value, ports) ← s.ports.read ledPin.base 0x04
    return (s.withPorts ports, some (.outputMode (some value)))
  | .outputMode (some value) => do
    let ports ← gpioInitStore ledInit ledPin.base 0x04 8 value s.ports
    return (s.withPorts ports, some .resetBits)
  | .resetBits => do return (s.withOutputs (← Hal.set s.outputs () false), none)

/-! ### What holds before an access -/

variable {speed : GPIOSpeed} {s t : Mcu Unit} {p q : InitPc}

/-- What holds all along `init`. -/
structure Along (s : Mcu Unit) : Prop where
  routed : Routed s.fw.io
  ports : ∀ m < 16, extiPort s.fw.io m < GPIO_COUNT
  gpio : ∀ port, PortOk (s.fw.io.gpio port)
  rcc : ∃ f e, HasGates f e s.rcc
  led : (s.objects ()).pin = ledPin
  pin : (s.fw.inputs 0).pin = btn2Pin

/-- The callbacks, before and after the first registration. -/
def slots : Bool → Fin 16 → Option ℕ
  | false => fun _ => none
  | true => Function.update (fun _ => none) btn2Pin.line (some 0)

/-- What holds where `init` is. -/
def InitPc.At (s : Mcu Unit) : InitPc → Prop
  | .inputClock _ => s.fw.isrVector = slots false
  | .inputMode tmp => s.fw.isrVector = slots false ∧
    ∀ v, tmp = some v → v = (s.fw.io.gpio btn2Pin.base).CRL
  | .register again r => s.fw.isrVector = slots again ∧ (r.pin = btn2Pin ∧ r.isr = some 0) ∧
    r.Ok s.fw ∧ r.Progress s.fw
  | .outputClock _ => s.fw.isrVector = slots true ∧ LineReady btn2Pin s.fw
  | .outputMode tmp => s.fw.isrVector = slots true ∧ LineReady btn2Pin s.fw ∧
    ∀ v, tmp = some v → v = (s.fw.io.gpio ledPin.base).CRH
  | .resetBits => s.fw.isrVector = slots true ∧ LineReady btn2Pin s.fw ∧
    IsOutput (s.fw.io.gpio ledPin.base) ledPin.line

/-- **What holds before an access.** -/
structure Initializing (p : InitPc) (s : Mcu Unit) : Prop where
  along : Along s
  here : p.At s

/-! ### One access -/

/-- What an access of `init` leaves alone: the objects, the levels of the inputs and the output
lines. -/
structure Kept (s t : Mcu Unit) : Prop where
  objects : t.objects = s.objects
  inputs : t.fw.inputs = s.fw.inputs
  levels : ∀ port, (t.fw.io.gpio port).inputs = (s.fw.io.gpio port).inputs
  outIrq : ∀ port, (t.fw.io.gpio port).outIrq = (s.fw.io.gpio port).outIrq

/-- What an access of `init` does: `init` goes on, or the LED is switched off and `init`
returns. -/
inductive Advances (p : InitPc) (s : Mcu Unit) : Mcu Unit × Option InitPc → Prop
  | on {q : InitPc} {t : Mcu Unit} (hq : Initializing q t) (hkept : Kept s t) :
      Advances p s (t, some q)
  | done {o : Outputs Unit} (hp : p = .resetBits) (ho : exec s.outputs (.set () false) = .ok o)
      (hacts : Acts () false s.outputs o) : Advances p s (s.withOutputs o, none)

/-- A write of `APB2ENR`. -/
theorem writew_hasGates {rcc rcc' : Stm32Rcc} {v : BitVec 32} (h : ∃ f e, HasGates f e rcc)
    (hw : writew rcc 0x18 v = .ok rcc') : ∃ f e, HasGates f e rcc' := by
  obtain ⟨f, e, c, r, hhas, -, -⟩ := h
  exact ⟨_, _, _, _, (apb2enrWrite_has hhas).of_eq_ok hw, rfl, rfl⟩

/-- A change of the RCC. -/
theorem Along.of_rcc (h : Along s) {rcc : Stm32Rcc} (hrcc : ∃ f e, HasGates f e rcc) :
    Along { s with rcc := rcc } :=
  ⟨h.routed, h.ports, h.gpio, hrcc, h.led, h.pin⟩

/-- `GPIO_Init` of one pin is one half, and that is a load and a store. -/
theorem gpioInitHalf_eq {init : GPIOInitTypeDef} {port : Fin GPIO_COUNT} {offset base : ℕ}
    {value : BitVec 32} {s s' : Ports} (hread : s.read port offset = .ok (value, s')) :
    gpioInitHalf init port offset base s = gpioInitStore init port offset base value s' := by
  unfold gpioInitHalf
  rw [hread]
  rfl

/-- **The store of `GPIO_Init`**, if the register still has the value that was loaded: the pins are
configured, and nothing else happens. -/
theorem gpioInitStore_along {init : GPIOInitTypeDef} {port : Fin GPIO_COUNT} {offset base : ℕ}
    {value : BitVec 32} {ports : Ports} (h : Along s)
    (hbase : offset = 0x00 ∧ base = 0 ∨ offset = 0x04 ∧ base = 8)
    (hread : s.ports.read port offset = .ok (value, s.ports)) (hpull : init.mode.pull = none)
    (hs : gpioInitStore init port offset base value s.ports = .ok ports) :
    Along (s.withPorts ports) ∧ Kept s (s.withPorts ports) ∧
      Sets init (seen init base 8) (s.fw.io.gpio port) (ports.gpio port) := by
  rw [← gpioInitHalf_eq hread] at hs
  have hsets : OnPort port (Sets init (seen init base 8)) s.ports ports :=
    (gpioInitHalf_returns init hbase).of_eq_ok hs
  have hkept : InputsKept s.ports ports := portRel_inputsKept.gpioInitHalf hs
  refine ⟨⟨h.routed.of_eq hkept.inIrq rfl, h.ports, portRel_ok.gpioInitHalf hs h.gpio, ?_,
    h.led, h.pin⟩, ⟨rfl, rfl, hkept.inputs, hsets.outIrq_of_pull hpull⟩, hsets.here⟩
  show ∃ f e, HasGates f e ports.rcc
  rw [hsets.rcc]
  exact h.rcc

/-- A call of `registerInt` begins. -/
theorem registering_at (s : Mcu Unit) :
    ((registering s).pin = btn2Pin ∧ (registering s).isr = some 0) ∧
    (registering s).Ok s.fw ∧ (registering s).Progress s.fw :=
  ⟨⟨rfl, rfl⟩, ⟨List.suffix_rfl, nofun, nofun, nofun⟩, .start rfl⟩

/-- **An access of `registerInt`.**  The first call finds the slot empty and takes it, the
second one finds it taken. -/
theorem register_advances {again : Bool} {r : Registering} {prog : Program}
    (h : Initializing (.register again r) s) (hs : r.step s.fw none = .ok prog) :
    Initializing (afterAccess { s with fw := prog.firmware } again prog.main)
      { s with fw := prog.firmware } ∧ Kept s { s with fw := prog.firmware } := by
  obtain ⟨halong, hvector, ⟨hpin, hisr⟩, hok, hprogress⟩ := h
  have hacc := step_accessed hok hs
  have huntouched := hacc.untouched
  obtain ⟨hgoes, hends⟩ := hacc.progress hok hprogress
  have halong' : Along { s with fw := prog.firmware } :=
    ⟨hacc.routed halong.routed, hacc.ports halong.ports,
      fun port => PortOk.of_outputSide (halong.gpio port) (huntouched.outputs port),
      halong.rcc, halong.led, by dsimp only; rw [huntouched.inputs]; exact halong.pin⟩
  refine ⟨⟨halong', ?_⟩, rfl, huntouched.inputs, huntouched.level,
    huntouched.outputs.outIrq⟩
  have hgo : ∀ r', prog.main = some r' → prog.firmware.isrVector = s.fw.isrVector →
      (r'.pin = r.pin ∧ r'.isr = r.isr) → InitPc.At { s with fw := prog.firmware }
        (afterAccess { s with fw := prog.firmware } again prog.main) := fun r' hr' hv hr => by
    rw [hr']
    exact ⟨hv.trans hvector, ⟨hr.1.trans hpin, hr.2.trans hisr⟩, hacc.ok hok r' hr',
      hgoes r' hr'⟩
  cases hacc with
  | taken hrest hslot =>
    cases again with
    | false => exact absurd (by rw [hvector]; rfl) hslot
    | true =>
      have hready := hends rfl
      rw [hpin] at hready
      exact ⟨hvector, hready⟩
  | registered hrest hslot =>
    cases again with
    | false =>
      refine ⟨?_, registering_at _⟩
      show Function.update s.fw.isrVector r.pin.line r.isr = slots true
      rw [hvector, hpin, hisr]
      rfl
    | true =>
      rw [hvector, hpin] at hslot
      exact absurd hslot (by decide)
  | free hrest hslot => exact hgo _ rfl rfl ⟨rfl, rfl⟩
  | load hrest hload => exact hgo _ rfl (load_loaded hload).isrVector ⟨rfl, rfl⟩
  | store hrest ha ha' hv hst => exact hgo _ rfl (hst.isrVector ha') ⟨rfl, rfl⟩

/-- **One access of `init`.** -/
theorem initStep_advances {next : Option InitPc} (h : Initializing p s)
    (hs : initStep speed s p = .ok (t, next)) : Advances p s (t, next) := by
  have hsame : Kept s s := ⟨rfl, rfl, fun _ => rfl, fun _ => rfl⟩
  obtain ⟨halong, hhere⟩ := h
  unfold initStep at hs
  split at hs
  · -- the loads of the RCC
    obtain ⟨old, -, hs⟩ := bind_eq_ok.1 hs
    obtain ⟨rfl, rfl⟩ := Prod.mk.inj (pure_eq_ok.1 hs)
    exact .on ⟨halong, hhere⟩ hsame
  · obtain ⟨rcc, hw, hs⟩ := bind_eq_ok.1 hs
    obtain ⟨rfl, rfl⟩ := Prod.mk.inj (pure_eq_ok.1 hs)
    exact .on ⟨halong.of_rcc (writew_hasGates halong.rcc hw), hhere, nofun⟩
      ⟨rfl, rfl, fun _ => rfl, fun _ => rfl⟩
  · rw [read_CRL, ok_bind] at hs
    obtain ⟨rfl, rfl⟩ := Prod.mk.inj (pure_eq_ok.1 hs)
    exact .on ⟨halong, hhere.1, fun v hv => (Option.some.inj hv).symm⟩ hsame
  · next value =>
    obtain ⟨ports, hw, hs⟩ := bind_eq_ok.1 hs
    obtain ⟨rfl, rfl⟩ := Prod.mk.inj (pure_eq_ok.1 hs)
    obtain rfl := hhere.2 value rfl
    obtain ⟨halong', hkept, -⟩ :=
      gpioInitStore_along halong (.inl ⟨rfl, rfl⟩) (read_CRL s.ports btn2Pin.base) rfl hw
    exact .on ⟨halong', hhere.1, registering_at _⟩ hkept
  · obtain ⟨prog, hprog, hs⟩ := bind_eq_ok.1 hs
    obtain ⟨rfl, rfl⟩ := Prod.mk.inj (pure_eq_ok.1 hs)
    obtain ⟨hq, hkept⟩ := register_advances ⟨halong, hhere⟩ hprog
    exact .on hq hkept
  · obtain ⟨old, -, hs⟩ := bind_eq_ok.1 hs
    obtain ⟨rfl, rfl⟩ := Prod.mk.inj (pure_eq_ok.1 hs)
    exact .on ⟨halong, hhere⟩ hsame
  · obtain ⟨rcc, hw, hs⟩ := bind_eq_ok.1 hs
    obtain ⟨rfl, rfl⟩ := Prod.mk.inj (pure_eq_ok.1 hs)
    exact .on ⟨halong.of_rcc (writew_hasGates halong.rcc hw), hhere.1,
      ⟨hhere.2.bits, hhere.2.port⟩, nofun⟩ ⟨rfl, rfl, fun _ => rfl, fun _ => rfl⟩
  · rw [read_CRH, ok_bind] at hs
    obtain ⟨rfl, rfl⟩ := Prod.mk.inj (pure_eq_ok.1 hs)
    exact .on ⟨halong, hhere.1, hhere.2.1, fun v hv => (Option.some.inj hv).symm⟩ hsame
  · next value =>
    obtain ⟨ports, hw, hs⟩ := bind_eq_ok.1 hs
    obtain ⟨rfl, rfl⟩ := Prod.mk.inj (pure_eq_ok.1 hs)
    obtain rfl := hhere.2.2 value rfl
    obtain ⟨halong', hkept, hsets⟩ :=
      gpioInitStore_along halong (.inr ⟨rfl, rfl⟩) (read_CRH s.ports ledPin.base) rfl hw
    exact .on ⟨halong', hhere.1, ⟨hhere.2.1.bits, hhere.2.1.port⟩,
      hsets.output (by decide) ledPin.line.isLt (by decide)⟩ hkept
  · obtain ⟨o, ho, hs⟩ := bind_eq_ok.1 hs
    obtain ⟨rfl, rfl⟩ := Prod.mk.inj (pure_eq_ok.1 hs)
    have hout : IsOutput (s.outputs.ports.gpio (s.outputs.objects ()).pin.base)
        (s.outputs.objects ()).pin.line := by
      rw [show (s.outputs.objects ()).pin = ledPin from halong.led]
      exact hhere.2.2
    exact .done rfl ho ((set_returns false halong.rcc hout).of_eq_ok ho)

/-! ### What happens between two accesses -/

/-- The start and the steps of a handler, and the changes of the inputs. -/
def isHardware : Hal.Event → Bool
  | .enter _ | .handler | .gpioIn _ _ _ => true
  | _ => false

/-- Nothing in the hardware is a registration. -/
theorem isHardware_ne {e : Hal.Event} (h : isHardware e = true) :
    (∀ clkEnabled isr pin, e ≠ .registerInt clkEnabled isr pin) ∧
    ∀ pin, e ≠ .unregisterInt pin := by
  cases e with
  | registerInt | unregisterInt | read => exact absurd h (by simp [isHardware])
  | enter | handler | gpioIn => exact ⟨nofun, nofun⟩

/-- **What happens between two accesses** keeps what holds before the next one. -/
theorem Initializing.hardware {e : Hal.Event} {fw : Firmware} (h : Initializing p s)
    (he : isHardware e = true) (hstep : Hal.Step s.fw e fw) :
    Initializing p { s with fw := fw } := by
  obtain ⟨hreg, hunreg⟩ := isHardware_ne he
  have heff := step_effect_of_routed h.along.routed hreg hstep
  have hside := step_sameOutputs hstep.2
  obtain ⟨hrouted, hlines⟩ := heff.lines hreg h.along.routed
  obtain ⟨-, hport⟩ := heff.lineBits hreg
  have hvector : fw.isrVector = s.fw.isrVector :=
    (heff.isrVector hreg).resolve_right fun ⟨pin, hpin⟩ => hunreg pin hpin
  have hslots : ∀ {again}, s.fw.isrVector = slots again → fw.isrVector = slots again :=
    hvector.trans
  obtain ⟨halong, hhere⟩ := h
  refine ⟨⟨hrouted, fun m hm => ?_,
    fun port => PortOk.of_outputSide (halong.gpio port) (hside port),
    halong.rcc, halong.led, (heff.inputPin 0).trans halong.pin⟩, ?_⟩
  · dsimp only
    rw [hport]
    exact halong.ports m hm
  cases p with
  | inputClock => exact hslots hhere
  | inputMode =>
    exact ⟨hslots hhere.1, fun v hv => (hhere.2 v hv).trans (congrArg (·.1) (hside _)).symm⟩
  | register again r =>
    obtain ⟨hslot, hr, hok, hprogress⟩ := hhere
    exact ⟨hslots hslot, hr, hok.event (fun j => (hlines j).1) hvector,
      hprogress.event heff hreg⟩
  | outputClock => exact ⟨hslots hhere.1, hhere.2.event heff hreg⟩
  | outputMode =>
    exact ⟨hslots hhere.1, hhere.2.1.event heff hreg,
      fun v hv => (hhere.2.2 v hv).trans (congrArg (·.2.1) (hside _)).symm⟩
  | resetBits =>
    exact ⟨hslots hhere.1, hhere.2.1.event heff hreg,
      IsOutput.of_outputSide hhere.2.2 (hside _)⟩

/-! ### Without an interruption -/

/-- An access of `init` that returns. -/
def InitNext (speed : GPIOSpeed) (a b : Mcu Unit × Option InitPc) : Prop :=
  ∃ p, a.2 = some p ∧ initStep speed a.1 p = .ok b

/-- `GPIO_Init` of the button only modifies `CRL`. -/
theorem gpioInit_btn2 (speed : GPIOSpeed) (s : Ports) : gpioInit s btn2Pin.base (btn2Init speed) =
    gpioInitStore (btn2Init speed) btn2Pin.base 0x00 0 (s.gpio btn2Pin.base).CRL s := by
  have hlow : (btn2Pin.pin.setWidth 16).setWidth 32 &&& 0x00ff#32 ≠ 0#32 := by decide
  have hhigh : ¬btn2Pin.pin.setWidth 16 > 0x00ff#16 := by decide
  rw [← gpioInitHalf_eq (read_CRL s btn2Pin.base)]
  unfold gpioInit
  rw [if_pos (show (btn2Init speed).pin.setWidth 32 &&& 0x00ff#32 ≠ 0#32 from hlow)]
  simp only [if_neg (show ¬(btn2Init speed).pin > 0x00ff#16 from hhigh), bind_pure]

/-- `GPIO_Init` of the LED only modifies `CRH`. -/
theorem gpioInit_led (s : Ports) : gpioInit s ledPin.base ledInit =
    gpioInitStore ledInit ledPin.base 0x04 8 (s.gpio ledPin.base).CRH s := by
  rw [← gpioInitHalf_eq (read_CRH s ledPin.base)]
  unfold gpioInit
  rw [if_neg (by decide), pure_bind]
  exact if_pos (by decide)

/-- The accesses of a call of `registerInt`. -/
theorem run_accesses {again : Bool} {k : ℕ} {r : Registering} {fw fw' : Firmware}
    {b : Option Bool}
    (h : Run Program.Step ⟨fw, some r, none⟩ (List.replicate k .access) ⟨fw', none, b⟩) :
    Relation.ReflTransGen (InitNext speed) ({ s with fw := fw }, some (.register again r))
      ({ s with fw := fw' }, some (afterAccess { s with fw := fw' } again none)) := by
  induction k generalizing r fw with
  | zero => cases Run.nil_iff.1 h
  | succ k ih =>
    obtain ⟨prog, ⟨-, hprog⟩, h⟩ := Run.cons_iff.1 h
    have hnext : InitNext speed ({ s with fw := fw }, some (.register again r))
        ({ s with fw := prog.firmware },
          some (afterAccess { s with fw := prog.firmware } again prog.main)) :=
      ⟨_, rfl, bind_eq_ok.2 ⟨prog, hprog, rfl⟩⟩
    cases hmain : prog.main with
    | none =>
      -- the call has returned
      cases k with
      | zero =>
        obtain rfl := Run.nil_iff.1 h
        exact .single hnext
      | succ k =>
        obtain ⟨-, ⟨hen, -⟩, -⟩ := Run.cons_iff.1 h
        exact absurd hmain (of_decide_eq_true hen).1
    | some r' =>
      have hreturned := step_returned hprog (by rw [hmain]; exact Option.some_ne_none r')
      rw [hmain] at hnext
      refine .head hnext (ih ?_)
      obtain ⟨firmware, main, returned⟩ := prog
      obtain rfl : main = some r' := hmain
      obtain rfl : returned = none := hreturned
      exact h

/-- A call of `registerInt` for the button. -/
theorem run_registering {again b : Bool} {fw : Firmware} (hidle : s.fw.handler = .idle)
    (h : registerInt (s.rcc.isEnabled (PERIPHCLK .afio)) s.fw (some 0) btn2Pin = .ok (b, fw)) :
    Relation.ReflTransGen (InitNext speed) (s, some (.register again (registering s)))
      ({ s with fw := fw }, some (afterAccess { s with fw := fw } again none)) := by
  obtain ⟨k, hk⟩ := run_registerInt none hidle h
  obtain ⟨prog, ⟨-, hcall⟩, hk⟩ := Run.cons_iff.1 hk
  obtain rfl := pure_eq_ok.1 hcall
  exact run_accesses hk

/-- A registration leaves the objects and the handler alone. -/
theorem registerInt_frame {clkEnabled b : Bool} {isr : Option ℕ} {pin : Pin} {fw fw' : Firmware}
    (h : registerInt clkEnabled fw isr pin = .ok (b, fw')) :
    fw'.inputs = fw.inputs ∧ fw'.handler = fw.handler := by
  obtain ⟨io₁, -, h⟩ := bind_eq_ok.1 h
  obtain ⟨io₂, -, h⟩ := bind_eq_ok.1 h
  obtain ⟨io₃, -, h⟩ := bind_eq_ok.1 h
  dsimp only at h
  split_ifs at h
  all_goals
    rw [← (Prod.mk.inj (pure_eq_ok.1 h)).2]
    exact ⟨rfl, rfl⟩

/-- The accesses of `btn2.initialize()`. -/
theorem run_initializeInput {b : Bool} (hidle : s.fw.handler = .idle)
    (hpin : (s.fw.inputs 0).pin = btn2Pin) (h : s.initializeInput speed 0 = .ok (b, t)) :
    Relation.ReflTransGen (InitNext speed) (s, some (.inputClock none))
      (t, some (.register true (registering t))) ∧
      t.fw.inputs = s.fw.inputs ∧ t.fw.handler = s.fw.handler ∧ t.objects = s.objects := by
  unfold Mcu.initializeInput at h
  dsimp only at h
  rw [hpin] at h
  obtain ⟨rcc, hrcc, h⟩ := bind_eq_ok.1 h
  obtain ⟨ports, hports, h⟩ := bind_eq_ok.1 h
  obtain ⟨⟨b', fw⟩, hreg, h⟩ := bind_eq_ok.1 h
  obtain ⟨-, rfl⟩ := Prod.mk.inj (pure_eq_ok.1 h)
  obtain ⟨old, hread, hwrite⟩ := bind_eq_ok.1 hrcc
  rw [show (⟨btn2Pin.pin.setWidth 16, speed, .IN_FLOATING⟩ : GPIOInitTypeDef) =
    btn2Init speed from rfl, gpioInit_btn2] at hports
  have hreg' :
      registerInt ((s.withPorts ports).rcc.isEnabled (PERIPHCLK .afio)) (s.withPorts ports).fw
      (some 0) btn2Pin = .ok (b', fw) := by
    rw [← hpin]
    exact hreg
  have hclock : Relation.ReflTransGen (InitNext speed) (s, some (.inputClock none))
      ({ s with rcc := rcc }, some (.inputMode none)) :=
    .head ⟨_, rfl, bind_eq_ok.2 ⟨old, hread, rfl⟩⟩
      (.single ⟨_, rfl, bind_eq_ok.2 ⟨rcc, hwrite, rfl⟩⟩)
  have hmode :
      Relation.ReflTransGen (InitNext speed) ({ s with rcc := rcc }, some (.inputMode none))
      (s.withPorts ports, some (.register false (registering (s.withPorts ports)))) :=
    .head ⟨_, rfl, bind_eq_ok.2 ⟨_, read_CRL _ _, rfl⟩⟩
      (.single ⟨_, rfl, bind_eq_ok.2 ⟨ports, hports, rfl⟩⟩)
  obtain ⟨hinputs, hhandler⟩ := registerInt_frame hreg'
  exact ⟨hclock.trans (hmode.trans (run_registering hidle hreg')), hinputs, hhandler, rfl⟩

/-- The accesses of `led.initialize()`. -/
theorem run_initializeOutput {o : Outputs Unit} (hled : (s.objects ()).pin = ledPin)
    (h : initializeOutput s.outputs () = .ok o) :
    Relation.ReflTransGen (InitNext speed) (s, some (.outputClock none))
      (s.withOutputs o, none) := by
  unfold initializeOutput at h
  dsimp only at h
  rw [show (s.outputs.objects ()).pin = ledPin from hled] at h
  obtain ⟨rcc, hrcc, h⟩ := bind_eq_ok.1 h
  obtain ⟨ports, hports, h⟩ := bind_eq_ok.1 h
  obtain ⟨old, hread, hwrite⟩ := bind_eq_ok.1 hrcc
  rw [show (⟨ledPin.pin.setWidth 16, .speed50MHz, .Out_PP⟩ : GPIOInitTypeDef) =
    ledInit from rfl, gpioInit_led] at hports
  have hclock : Relation.ReflTransGen (InitNext speed) (s, some (.outputClock none))
      ({ s with rcc := rcc }, some (.outputMode none)) :=
    .head ⟨_, rfl, bind_eq_ok.2 ⟨old, hread, rfl⟩⟩
      (.single ⟨_, rfl, bind_eq_ok.2 ⟨rcc, hwrite, rfl⟩⟩)
  have hmode :
      Relation.ReflTransGen (InitNext speed) ({ s with rcc := rcc }, some (.outputMode none))
      (s.withPorts ports, some .resetBits) :=
    .head ⟨_, rfl, bind_eq_ok.2 ⟨_, read_CRH _ _, rfl⟩⟩
      (.single ⟨_, rfl, bind_eq_ok.2 ⟨ports, hports, rfl⟩⟩)
  exact hclock.trans (hmode.trans (.single ⟨_, rfl, bind_eq_ok.2 ⟨o, h, rfl⟩⟩))

/-- **The accesses do what the calls do.** -/
theorem run_init (hidle : s.fw.handler = .idle) (hpin : (s.fw.inputs 0).pin = btn2Pin)
    (hled : (s.objects ()).pin = ledPin) (h : init speed s = .ok t) :
    Relation.ReflTransGen (InitNext speed) (s, some (.inputClock none)) (t, none) := by
  obtain ⟨⟨b₁, s₁⟩, hinput, h⟩ := bind_eq_ok.1 h
  obtain ⟨⟨b₂, fw₂⟩, hreg₂, h⟩ := bind_eq_ok.1 h
  obtain ⟨o, hout, h⟩ := bind_eq_ok.1 h
  obtain rfl := pure_eq_ok.1 h
  obtain ⟨hrun, hinputs, hhandler, hobjects⟩ := run_initializeInput hidle hpin hinput
  have hreg : registerInt (s₁.rcc.isEnabled (PERIPHCLK .afio)) s₁.fw (some 0) btn2Pin =
      .ok (b₂, fw₂) := by
    rw [← hpin, ← hinputs]
    exact hreg₂
  exact hrun.trans ((run_registering (hhandler.trans hidle) hreg).trans
    (run_initializeOutput (s := { s₁ with fw := fw₂ }) (by rw [hobjects]; exact hled) hout))

end HelloBlink
end Especial
