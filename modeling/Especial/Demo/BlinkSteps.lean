/-
# The steps of the demo `hello-blink`

`main` initializes a button and an LED, and then copies the cached state of the button to
the LED for ever; the button is read by the interrupt handler only.  Between two accesses of
`init` and between two statements of the loop the handler runs and the button changes.
`Effect` says what each step does, and `Ok` what holds before it.
-/

import Especial.Demo.BlinkInit

namespace Especial
namespace HelloBlink

open Qemu Stm32 Lib Gpio Exti Afio Rcc Emul Hal

/-! ### The program -/

/-- Where `main` is: in `init`, or in the loop, before `get` or before `set`. -/
inductive MainPc
  | init (p : InitPc)
  | get
  | set (r : Bool)
  deriving DecidableEq, Repr

/-- `init` has returned. -/
def MainPc.inLoop : MainPc → Bool
  | .init _ => false
  | _ => true

/-- The state of the program; `btn2` is at the address 0. -/
structure Blink where
  mcu : Mcu Unit
  pc : MainPc

/-- The program before `main`. -/
def Blink.start (io : Io) (aircr : BitVec 32) (rcc : Stm32Rcc) : Blink where
  mcu := Mcu.init (Firmware.init io aircr fun _ => btn2Pin) rcc fun _ => ledPin
  pc := .init (.inputClock none)

/-- The next access of `init`, or the next statement of the loop. -/
def mainStep (speed : GPIOSpeed) (s : Blink) : Except Fault Blink :=
  match s.pc with
  | .init p => do
    let (mcu, next) ← initStep speed s.mcu p
    return { mcu := mcu, pc := next.elim .get .init }
  | .get => return { s with pc := .set (s.mcu.fw.inputs 0).get }
  | .set r => do return { mcu := s.mcu.withOutputs (← Hal.set s.mcu.outputs () !r), pc := .get }

/-- What can happen: `main` goes on, or something happens in the hardware. -/
inductive BlinkEvent
  | main
  | hardware (e : Hal.Event)
  deriving DecidableEq, Repr

/-- What happens; the handler interrupts `main`. -/
def blinkStep (speed : GPIOSpeed) (s : Blink) : BlinkEvent → Option Blink
  | .main => if s.mcu.fw.handler = .idle then (mainStep speed s).toOption else none
  | .hardware e =>
    if isHardware e && Hal.Enabled s.mcu.fw e then
      (Hal.step s.mcu.fw e).toOption.map fun fw => { s with mcu := { s.mcu with fw := fw } }
    else none

/-- The commands of a step. -/
def blinkCmds (s t : Blink) : List P103Cmd := portCmds s.mcu.fw.io.gpio t.mcu.fw.io.gpio

/-- The program as a guest of the board; the inputs change in other threads. -/
def blinkGuest (speed : GPIOSpeed) : Guest Blink BlinkEvent where
  step := blinkStep speed
  cmds := blinkCmds
  foreign
    | .hardware (.gpioIn _ _ _) => true
    | _ => false

/-- The level of the button. -/
def button (s : Blink) : Bool := level s.mcu.fw.io btn2Pin.base btn2Pin.line

/-! ### One step -/

variable {speed : GPIOSpeed} {s t : Blink} {e : BlinkEvent}

/-- What holds in every state. -/
structure Ok (s : Blink) : Prop where
  init : ∀ p, s.pc = .init p → Initializing p s.mcu
  mcu : s.pc.inLoop = true → McuOk (fun _ : Unit => ledPin) (fun _ => True) s.mcu
  watched : s.pc.inLoop = true → Watched 0 btn2Pin s.mcu.fw

/-- What a step does. -/
inductive Effect (s : Blink) : BlinkEvent → Blink → Prop
  | init {p q : InitPc} {mcu : Mcu Unit} (hpc : s.pc = .init p) (hq : Initializing q mcu)
      (hkept : Kept s.mcu mcu) : Effect s .main { mcu := mcu, pc := .init q }
  | done {o : Outputs Unit} (hpc : s.pc = .init .resetBits)
      (ho : exec s.mcu.outputs (.set () false) = .ok o) (hacts : Acts () false s.mcu.outputs o) :
      Effect s .main { mcu := s.mcu.withOutputs o, pc := .get }
  | get (hpc : s.pc = .get) : Effect s .main { s with pc := .set (s.mcu.fw.inputs 0).get }
  | set {r : Bool} {o : Outputs Unit} (hpc : s.pc = .set r)
      (ho : exec s.mcu.outputs (.set () !r) = .ok o) (hacts : Acts () (!r) s.mcu.outputs o) :
      Effect s .main { mcu := s.mcu.withOutputs o, pc := .get }
  | hardware {e : Hal.Event} {fw : Firmware} (he : isHardware e = true)
      (hstep : Hal.Step s.mcu.fw e fw) :
      Effect s (.hardware e) { s with mcu := { s.mcu with fw := fw } }

/-- In the loop the pin of the LED is an output. -/
theorem Ok.output (h : Ok s) (hloop : s.pc.inLoop = true) :
    IsOutput (s.mcu.outputs.ports.gpio (s.mcu.outputs.objects ()).pin.base)
      (s.mcu.outputs.objects ()).pin.line := by
  rw [(h.mcu hloop).outputs.pin]
  exact ((h.mcu hloop).outputs.settled () trivial).output

/-- A step of `main`. -/
theorem mainStep_effect (h : Ok s) (hs : mainStep speed s = .ok t) : Effect s .main t := by
  unfold mainStep at hs
  split at hs
  next p hpc =>
    obtain ⟨⟨mcu, next⟩, hmcu, hs⟩ := bind_eq_ok.1 hs
    rw [← pure_eq_ok.1 hs]
    cases initStep_advances (h.init p hpc) hmcu with
    | on hq hkept => exact .init hpc hq hkept
    | done hp ho hacts => exact .done (hp ▸ hpc) ho hacts
  next hpc =>
    rw [← pure_eq_ok.1 hs]
    exact .get hpc
  next r hpc =>
    have hloop : s.pc.inLoop = true := by rw [hpc]; rfl
    obtain ⟨o, ho, hs⟩ := bind_eq_ok.1 hs
    rw [← pure_eq_ok.1 hs]
    exact .set hpc ho ((set_returns _ (h.mcu hloop).outputs.rcc (h.output hloop)).of_eq_ok ho)

/-- **A step** is one of these. -/
theorem step_effect (h : Ok s) (hs : blinkStep speed s e = some t) : Effect s e t := by
  cases e with
  | main =>
    rw [blinkStep, Option.ite_none_right_eq_some] at hs
    exact mainStep_effect h (toOption_eq_some.1 hs.2)
  | hardware e =>
    rw [blinkStep, Option.ite_none_right_eq_some, Bool.and_eq_true] at hs
    obtain ⟨⟨he, hen⟩, hs⟩ := hs
    obtain ⟨fw, hfw, rfl⟩ := Option.map_eq_some_iff.1 hs
    exact .hardware he ⟨hen, toOption_eq_some.1 hfw⟩

/-- Nothing in the hardware is a registration. -/
theorem spares_of_isHardware {e : Hal.Event} (h : isHardware e = true) (n : Fin 16) :
    e.Spares n = true := by
  cases e <;> first | rfl | exact absurd h (by simp [isHardware])

/-- The output method keeps the button registered. -/
theorem watched_withOutputs {s : Mcu Unit} (h : Watched 0 btn2Pin s.fw) {o : Outputs Unit}
    {c : Call Unit} (ho : exec s.outputs c = .ok o) : Watched 0 btn2Pin (s.withOutputs o).fw :=
  ⟨h.ok.of_inputsKept (portRel_inputsKept.exec ho).inIrq, h.vector, h.port, h.object⟩

/-- And its level, its cached state and the handler as they are. -/
theorem view_withOutputs {s : Mcu Unit} {o : Outputs Unit} {c : Call Unit}
    (ho : exec s.outputs c = .ok o) :
    view 0 btn2Pin (s.withOutputs o).fw = view 0 btn2Pin s.fw := by
  have hinputs : (o.ports.gpio btn2Pin.base).inputs = (s.fw.io.gpio btn2Pin.base).inputs :=
    (portRel_inputsKept.exec ho).inputs btn2Pin.base
  show Mirror.mk ((o.ports.gpio btn2Pin.base).inputs.getLsbD btn2Pin.line) _ _ _ = _
  rw [hinputs]
  rfl

/-- At the end of `init` the button is registered. -/
theorem Initializing.watched {s : Mcu Unit} (h : Initializing .resetBits s) :
    Watched 0 btn2Pin s.fw := by
  obtain ⟨halong, hvector, hready, -⟩ := h
  refine ⟨⟨halong.routed, halong.ports, fun n hn => ?_⟩, ?_, hready.port, halong.pin⟩
  · rw [hvector] at hn
    obtain rfl : n = btn2Pin.line := by
      by_contra hne
      refine hn ?_
      show Function.update (fun _ => none) btn2Pin.line (some 0) n = none
      rw [Function.update_of_ne hne]
    exact ⟨hready.bits 0x00 (by decide), hready.bits 0x08 (by decide),
      hready.bits 0x0c (by decide)⟩
  · rw [hvector]
    rfl

/-- `set` keeps the firmware consistent, and the LED shows its level. -/
theorem mcuOk_set {s : Mcu Unit} {o : Outputs Unit} {b : Bool} {done : Unit → Prop}
    (hfw : s.fw.Ok) (hports : ∀ p, PortOk (s.ports.gpio p))
    (hinv : Inv (fun _ : Unit => ledPin) done s.outputs)
    (ho : exec s.outputs (.set () b) = .ok o) (hacts : Acts () b s.outputs o) :
    McuOk (fun _ : Unit => ledPin) (fun _ => True) (s.withOutputs o) :=
  ⟨hfw.of_inputsKept (portRel_inputsKept.exec ho).inIrq, portRel_ok.exec ho hports,
    hacts.inv hinv (fun _ _ _ => rfl) fun _ _ => Or.inr rfl⟩

/-- Before the first `set` nothing is known of the LED. -/
theorem Along.inv {s : Mcu Unit} (h : Along s) :
    Inv (fun _ : Unit => ledPin) (fun _ => False) s.outputs :=
  ⟨h.rcc, fun _ => h.led, fun _ hf => hf.elim⟩

/-- **One step** keeps what holds in every state. -/
theorem Effect.ok (he : Effect s e t) (h : Ok s) : Ok t := by
  cases he with
  | init hpc hq hkept =>
    exact ⟨fun p hp => MainPc.init.inj hp ▸ hq, nofun, nofun⟩
  | done hpc ho hacts =>
    have hinit := h.init _ hpc
    have hw := hinit.watched
    exact ⟨nofun, fun _ => mcuOk_set hw.ok hinit.along.gpio hinit.along.inv ho hacts,
      fun _ => watched_withOutputs hw ho⟩
  | get hpc =>
    have hloop : s.pc.inLoop = true := by rw [hpc]; rfl
    exact ⟨nofun, fun _ => h.mcu hloop, fun _ => h.watched hloop⟩
  | set hpc ho hacts =>
    have hloop : s.pc.inLoop = true := by rw [hpc]; rfl
    have hmcu := h.mcu hloop
    exact ⟨nofun, fun _ => mcuOk_set hmcu.fw hmcu.ports hmcu.outputs ho hacts,
      fun _ => watched_withOutputs (h.watched hloop) ho⟩
  | @hardware e fw he hstep =>
    refine ⟨fun p hp => (h.init p hp).hardware he hstep, fun hloop => ?_, fun hloop => ?_⟩
    · have hmcu := h.mcu hloop
      exact hmcu.of_sameOutputs ((Hal.step_effect hmcu.fw hstep).ok hmcu.fw)
        (step_sameOutputs hstep.2)
    · have hw := h.watched hloop
      exact hw.step (Hal.step_effect hw.ok hstep) (spares_of_isHardware he _)

/-- Before the first access. -/
theorem start_ok {io₀ : Io} {aircr : BitVec 32} {rcc₀ rcc : Stm32Rcc} {events : List Rcc.Event}
    (hreset : machineReset Io.alloc = .ok io₀) (hinit : Rcc.init = .ok rcc₀)
    (hrcc : Run Rcc.Step rcc₀ events rcc) : Ok (Blink.start io₀ aircr rcc) := by
  have hmcu : McuOk (fun _ : Unit => ledPin) (fun _ => False) (Blink.start io₀ aircr rcc).mcu :=
    init_mcuOk hreset hinit hrcc
  refine ⟨fun p hp => ?_, nofun, nofun⟩
  obtain rfl := MainPc.init.inj hp
  exact ⟨⟨hmcu.fw.routed, hmcu.fw.ports, hmcu.ports, hmcu.outputs.rcc, rfl, rfl⟩, rfl⟩

end HelloBlink
end Especial
