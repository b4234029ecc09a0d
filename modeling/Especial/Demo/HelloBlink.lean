/-
# The demo `hello-blink`

`main` initializes a button and an LED, and then copies the cached state of the button to
the LED for ever; the button is read by the interrupt handler only.  Between two accesses of
`init` and between two statements of the loop the handler runs and the button changes, and
meanwhile the command thread of the emulator sends the commands about the LED to the monitor.

`hello_blink` follows a level of the button through all of this: once the handler has
served it, two turns of the loop bring it to the LED and to the last frame.  The level must
not change between the callback and the clearing of the pending bit, and the button must not
be pressed while `init` runs: the cached state starts as `Invalid`, which `get` returns as
`false`, and the second registration in `init` clears what was pending.
-/

import Especial.Demo.BlinkSteps
import Especial.Hal.CachedInput

namespace Especial
namespace HelloBlink

open Qemu Stm32 Lib Gpio Exti Afio Rcc Emul Hal

variable {speed : GPIOSpeed} {s t : Blink} {e : BlinkEvent}

/-! ### The button -/

/-- The button is not pressed while `init` runs, and the handler does not clear the pending bit
when the cached state is not the level of the button. -/
def Timely (s : Blink) : BlinkEvent → Prop
  | .main => True
  | .hardware e => ClearsCurrent 0 btn2Pin s.mcu.fw e ∧
    (s.pc.inLoop = false → e ≠ .gpioIn btn2Pin.base btn2Pin.line true)

instance (s : Blink) (e : BlinkEvent) : Decidable (Timely s e) :=
  match e with
  | .main => inferInstanceAs (Decidable True)
  | .hardware e => inferInstanceAs (Decidable (ClearsCurrent 0 btn2Pin s.mcu.fw e ∧
      (s.pc.inLoop = false → e ≠ .gpioIn btn2Pin.base btn2Pin.line true)))

/-- The button is up, and so is the cached state. -/
def Up (s : Firmware) : Prop :=
  level s.io btn2Pin.base btn2Pin.line = false ∧ (s.inputs 0).get = false

/-- In `init` the button is up.  In the loop the cached state is right in quiescent states. -/
structure Served (s : Blink) : Prop where
  up : s.pc.inLoop = false → Up s.mcu.fw
  quiet : s.pc.inLoop = true → (view 0 btn2Pin s.mcu.fw).Quiet

/-- A button that is not pressed stays up. -/
theorem Up.hardware {fw fw' : Firmware} {e : Hal.Event} (h : Up fw) (he : Hal.Effect fw e fw')
    (hw : isHardware e = true) (hpin : (fw.inputs 0).pin = btn2Pin)
    (hup : e ≠ .gpioIn btn2Pin.base btn2Pin.line true) : Up fw' := by
  cases he with
  | register | unregister | read => exact absurd hw (by simp [isHardware])
  | enter | test => exact h
  | @call line rest d hpc hd =>
    refine ⟨h.1, ?_⟩
    show ((refresh fw d).inputs 0).get = false
    rcases eq_or_ne d 0 with rfl | hd
    · rw [get_refresh, hpin]
      exact h.1
    · rw [inputs_refresh_of_ne fw hd]
      exact h.2
  | clear hpc hio =>
    refine ⟨?_, h.2⟩
    show level _ btn2Pin.base btn2Pin.line = false
    rw [level, hio.gpio]
    exact h.1
  | @notify port n lv io hio =>
    refine ⟨(hio.input _ _).trans ?_, h.2⟩
    split_ifs with hbtn
    · obtain ⟨rfl, rfl⟩ := hbtn
      exact Bool.eq_false_iff.2 fun hlv => hup (by rw [hlv])
    · exact h.1

/-- What leaves the levels and the objects alone leaves the button up. -/
theorem Up.of_eq {fw fw' : Firmware} (h : Up fw) (hinputs : fw'.inputs = fw.inputs)
    (hlevels : ∀ port, (fw'.io.gpio port).inputs = (fw.io.gpio port).inputs) : Up fw' := by
  refine ⟨?_, by rw [hinputs]; exact h.2⟩
  rw [level, hlevels]
  exact h.1

/-- **One step** in time. -/
theorem Effect.served (he : Effect s e t) (h : Ok s) (hserved : Served s) (ht : Timely s e) :
    Served t := by
  cases he with
  | init hpc hq hkept =>
    have hup := hserved.up (by rw [hpc]; rfl)
    exact ⟨fun _ => hup.of_eq hkept.inputs hkept.levels, nofun⟩
  | done hpc ho _ =>
    obtain ⟨hlevel, hcopy⟩ := hserved.up (by rw [hpc]; rfl)
    refine ⟨nofun, fun _ => ?_⟩
    show (view 0 btn2Pin (s.mcu.withOutputs _).fw).Quiet
    rw [view_withOutputs ho]
    exact fun _ _ => hcopy.trans hlevel.symm
  | get hpc => exact ⟨nofun, fun _ => hserved.quiet (by rw [hpc]; rfl)⟩
  | set hpc ho _ =>
    refine ⟨nofun, fun _ => ?_⟩
    show (view 0 btn2Pin (s.mcu.withOutputs _).fw).Quiet
    rw [view_withOutputs ho]
    exact hserved.quiet (by rw [hpc]; rfl)
  | @hardware e fw he hstep =>
    refine ⟨fun hpc => ?_, fun hpc => ?_⟩
    · cases hp : s.pc with
      | init p =>
        have halong := (h.init p hp).along
        exact (hserved.up hpc).hardware
          (step_effect_of_routed halong.routed (isHardware_ne he).1 hstep) he halong.pin (ht.2 hpc)
      | get | set => exact absurd hpc (by rw [show s.pc = _ from hp]; exact Bool.false_ne_true.symm)
    · have hw := h.watched hpc
      show (view 0 btn2Pin fw).Quiet
      rw [view_step hw (Hal.step_effect hw.ok hstep) (spares_of_isHardware he _)]
      exact (hserved.quiet hpc).act fun hlower => ht.1 ((action_handler 0 btn2Pin _ e).2.1 hlower)

/-- The button is up after a reset. -/
theorem start_up {io₀ : Io} {aircr : BitVec 32} (hreset : machineReset Io.alloc = .ok io₀) :
    Up (Firmware.init io₀ aircr fun _ => btn2Pin) := by
  refine ⟨?_, rfl⟩
  show (io₀.gpio btn2Pin.base).inputs.getLsbD btn2Pin.line = false
  rw [(reset_sameInputs hreset).inputs]
  exact BitVec.getLsbD_zero

/-- The handler is called for a pending line only. -/
theorem action_call {fw : Firmware} {e : Hal.Event} (h : action 0 btn2Pin fw e = .call) :
    (view 0 btn2Pin fw).raised = true := by
  unfold action at h
  cases e with
  | handler =>
    cases hpc : fw.handler with
    | getITStatus line rest =>
      rw [hpc] at h
      dsimp only at h
      split_ifs at h with hcall
      obtain ⟨rfl, hpr⟩ := hcall
      exact (Bool.and_eq_true_iff.1 hpr).1
    | idle => simp [hpc] at h
    | callIsr line rest =>
      rw [hpc] at h
      dsimp only at h
      split_ifs at h
    | clearITPendingBit line rest =>
      rw [hpc] at h
      dsimp only at h
      split_ifs at h
  | gpioIn port n level =>
    dsimp only at h
    split_ifs at h
  | read d =>
    dsimp only at h
    split_ifs at h
  | registerInt | unregisterInt | enter => simp at h

/-- **A step of the hardware** that is not a change of the button leaves a button that has
been served as it is. -/
theorem still_hardware {fw fw' : Firmware} {e : Hal.Event} {b : Bool} (hw : Watched 0 btn2Pin fw)
    (he : isHardware e = true) (hstep : Hal.Step fw e fw') (hlevels : btn2Pin.levels e = [])
    (hstill : (view 0 btn2Pin fw).Still b) : (view 0 btn2Pin fw').Still b := by
  rw [view_step hw (Hal.step_effect hw.ok hstep) (spares_of_isHardware he _)]
  obtain ⟨hserve, hlower⟩ := action_handler 0 btn2Pin fw e
  exact hstill.act ((action_levels 0 btn2Pin fw e).trans hlevels) action_call
    (fun h => (hserve.1 h).2) fun h => (hlower.1 h).2

/-! ### The loop -/

/-- What `n` turns of `main` have brought from a button that shows `b` and has been served:
the value that was read last, and then the LED. -/
structure Followed (b : Bool) (n : ℕ) (s : Blink) : Prop where
  ok : Ok s
  loop : s.pc.inLoop = true
  still : (view 0 btn2Pin s.mcu.fw).Still b
  read : ∀ r, s.pc = .set r → 1 ≤ n → r = b
  shown : s.pc = .get → 2 ≤ n → odrBit s.mcu.ports ledPin = !b
  kept : 3 ≤ n → odrBit s.mcu.ports ledPin = !b

/-- How many statements of `main` an event is. -/
def BlinkEvent.turns : BlinkEvent → ℕ
  | .main => 1
  | .hardware _ => 0

/-- **One step** while the button stays. -/
theorem Effect.followed {b : Bool} {n : ℕ} (he : Effect s e t) (h : Followed b n s)
    (hsteady : ∀ level, e ≠ .hardware (.gpioIn btn2Pin.base btn2Pin.line level)) :
    Followed b (n + e.turns) t := by
  have hok := he.ok h.ok
  cases he with
  | init hpc => exact absurd h.loop (by rw [hpc]; exact Bool.false_ne_true)
  | done hpc => exact absurd h.loop (by rw [hpc]; exact Bool.false_ne_true)
  | get hpc =>
    refine ⟨hok, rfl, h.still, fun r hr _ => ?_, nofun, fun hn => ?_⟩
    · rw [← MainPc.set.inj hr]
      exact h.still.copy
    · exact h.shown hpc (by simp only [BlinkEvent.turns] at hn; omega)
  | @set r o hpc ho hacts =>
    have hodr : odrBit o.ports ledPin = !r := by
      have hodr := hacts.driven.odr
      rw [(h.ok.mcu h.loop).outputs.pin] at hodr
      exact hodr
    have hled : 1 ≤ n → odrBit o.ports ledPin = !b := fun hn => by rw [hodr, h.read r hpc hn]
    refine ⟨hok, rfl, ?_, nofun, fun _ hn => ?_, fun hn => ?_⟩
    · show (view 0 btn2Pin (s.mcu.withOutputs o).fw).Still b
      rw [view_withOutputs ho]
      exact h.still
    · exact hled (by simp only [BlinkEvent.turns] at hn; omega)
    · exact hled (by simp only [BlinkEvent.turns] at hn; omega)
  | @hardware e fw he hstep =>
    have hlevels : btn2Pin.levels e = [] := by
      cases e with
      | gpioIn port n level =>
        refine if_neg fun heq => hsteady level ?_
        rw [heq.1, heq.2]
      | _ => rfl
    have hodr : odrBit ⟨s.mcu.rcc, fw.io.gpio⟩ ledPin = odrBit s.mcu.ports ledPin :=
      (step_sameOutputs hstep.2).odrBit s.mcu.rcc s.mcu.rcc ledPin
    exact ⟨hok, h.loop, still_hardware (h.ok.watched h.loop) he hstep hlevels h.still, h.read,
      fun hpc hn => hodr.trans (h.shown hpc hn), fun hn => hodr.trans (h.kept hn)⟩

/-! ### The monitor -/

/-- What the frames say about the LED. -/
def LedReported (s : Blink) (hist : List P103Cmd) : Prop :=
  Ok s ∧ Reported (fun _ : Unit => ledPin) (fun _ => s.pc.inLoop = true) s.mcu.outputs
    (hist.map frame)

/-- A step that drives no line posts nothing. -/
theorem portCmds_nil {g g' : Fin GPIO_COUNT → Stm32Gpio}
    (h : ∀ p, (g' p).outIrq = (g p).outIrq) : portCmds g g' = [] :=
  List.flatMap_eq_nil_iff.2 fun p _ => by rw [h p, List.drop_length]; rfl

/-- **One step** keeps it. -/
theorem Effect.ledReported {hist : List P103Cmd} (he : Effect s e t) (h : LedReported s hist) :
    LedReported t (hist ++ blinkCmds s t) := by
  obtain ⟨hok, hrep⟩ := h
  refine ⟨he.ok hok, ?_⟩
  cases he with
  | init hpc hq hkept =>
    show Reported _ _ _ (List.map frame (hist ++ portCmds _ _))
    rw [portCmds_nil hkept.outIrq, List.append_nil]
    exact ⟨nofun, hrep.only.mono fun _ hf => absurd hf (by rw [hpc]; exact Bool.false_ne_true)⟩
  | done hpc ho hacts =>
    show Reported _ (fun _ => MainPc.get.inLoop = true) _ _
    exact hacts.reported (hok.init _ hpc).along.inv (fun _ _ _ => rfl)
      ⟨fun _ hf => hf.elim, hrep.only.mono fun _ hf =>
        absurd hf (by rw [hpc]; exact Bool.false_ne_true)⟩
      (fun _ hf => hf.elim) (fun _ _ => Or.inr rfl) rfl
  | get hpc =>
    show Reported _ _ _ (List.map frame (hist ++ portCmds _ _))
    rw [portCmds_nil fun _ => rfl, List.append_nil]
    exact ⟨fun o _ hw => hrep.last o (by rw [hpc]; rfl) hw, hrep.only.mono fun _ _ => rfl⟩
  | @set r o hpc ho hacts =>
    have hloop : s.pc.inLoop = true := by rw [hpc]; rfl
    show Reported _ (fun _ => MainPc.get.inLoop = true) _ _
    exact hacts.reported (hok.mcu hloop).outputs (fun _ _ _ => rfl)
      ⟨fun o _ hw => hrep.last o hloop hw, hrep.only.mono fun _ _ => trivial⟩ (fun _ _ => rfl)
      (fun _ _ => Or.inr rfl) rfl
  | @hardware e fw he hstep =>
    have hside := step_sameOutputs hstep.2
    show Reported _ _ _ (List.map frame (hist ++ portCmds _ _))
    rw [portCmds_nil fun p => hside.outIrq p, List.append_nil]
    have hodr : odrBit ⟨s.mcu.rcc, fw.io.gpio⟩ ledPin = odrBit s.mcu.ports ledPin :=
      hside.odrBit s.mcu.rcc s.mcu.rcc ledPin
    refine ⟨fun o ho hw => ?_, hrep.only⟩
    show LastOf _ (· = frame (ledPin.report (odrBit ⟨s.mcu.rcc, fw.io.gpio⟩ ledPin))) _
    rw [hodr]
    exact hrep.last o ho hw

/-! ### From the button to the monitor -/

/-- The handler is not in the call for the line of the button, and the line is not pending. -/
def Quiescent (s : Blink) : Prop :=
  s.mcu.fw.handler.phase btn2Pin.line = .outside ∧
    s.mcu.fw.io.exti.PR.getLsbD btn2Pin.line = false

/-- **`hello-blink`.**  From a reset, on an RCC in any state since its initialization, any
interleaving of the accesses of `init` and the statements of the loop with the interrupt
handlers, the inputs and the threads of the emulator, in which the button is not pressed
while `init` runs and does not change between the callback and the clearing of its pending
bit.  If it reaches a quiescent state in the loop, and then the button stays while `main`
executes three statements or more, again in any interleaving, then the LED shows the inverted
level of the button, and so does the last frame about it. -/
theorem hello_blink (speed : GPIOSpeed) (io₀ : Io) (aircr : BitVec 32)
    (hreset : machineReset Io.alloc = .ok io₀) (rcc₀ rcc : Stm32Rcc) (events : List Rcc.Event)
    (hinit : Rcc.init = .ok rcc₀) (hrcc : Run Rcc.Step rcc₀ events rcc)
    (turns₁ turns₂ : List (Turn BlinkEvent)) (b₁ b₂ : Board Blink)
    (hrun₁ : Run (Guarded (BoardStep (blinkGuest speed)) (Board.Meets Timely))
      (Board.start (Blink.start io₀ aircr rcc)) turns₁ b₁)
    (hloop : b₁.guest.pc.inLoop = true) (hquiet : Quiescent b₁.guest)
    (hrun₂ : Run (BoardStep (blinkGuest speed)) b₁ turns₂ b₂)
    (hsteady : ∀ level,
      .hardware (.gpioIn btn2Pin.base btn2Pin.line level) ∉ guestEvents turns₂)
    (hturns : 3 ≤ ((guestEvents turns₂).map BlinkEvent.turns).sum) :
    odrBit b₂.guest.mcu.ports ledPin = !button b₁.guest ∧
      LastOf (About ledPin) (· = frame (ledPin.report !button b₁.guest)) b₂.frames ∧
      (underway b₂.emul = [] → b₂.pending = [] →
        LastOf (About ledPin) (· = frame (ledPin.report !button b₁.guest)) b₂.emul.sent) := by
  -- the first part: what is cached in `b₁`
  have hserved : Ok b₁.guest ∧ Served b₁.guest :=
    (board_guest hrun₁).invariant (P := fun s => Ok s ∧ Served s)
      (fun s e t h hs =>
        ⟨(step_effect h.1 hs.1).ok h.1, (step_effect h.1 hs.1).served h.1 h.2 hs.2⟩)
      ⟨start_ok hreset hinit hrcc, fun _ => start_up hreset, nofun⟩
  have hstill : Followed (button b₁.guest) 0 b₁.guest :=
    ⟨hserved.1, hloop, ⟨hquiet.1, hquiet.2, hserved.2.quiet hloop hquiet.1 hquiet.2, rfl⟩,
      fun _ _ h => absurd h (by decide), fun _ h => absurd h (by decide),
      fun h => absurd h (by decide)⟩
  -- the second part: the loop
  have hguest₂ :
      Run (Guarded (fun s e t => blinkStep speed s e = some t) fun _ _ => True) b₁.guest
      (guestEvents turns₂) b₂.guest :=
    board_guest (hrun₂.mono fun b a b' h => ⟨h, by cases a <;> trivial⟩)
  have hfollowed : Followed (button b₁.guest)
      ((guestEvents turns₂).map BlinkEvent.turns).sum b₂.guest := by
    have hrun := hguest₂.guarded_of_forall
      (Q := fun e => ∀ level, e ≠ .hardware (.gpioIn btn2Pin.base btn2Pin.line level))
      fun e he level heq => hsteady level (heq ▸ he)
    refine hrun.invariant_hist
      (P := fun l s => Followed (button b₁.guest) (l.map BlinkEvent.turns).sum s)
      (fun l s e t h hs => ?_) hstill
    rw [List.map_append, List.sum_append, List.map_singleton, List.sum_singleton]
    exact (step_effect h.ok hs.1.1).followed h hs.2
  -- the frames, along both parts
  have hrun : Run (BoardStep (blinkGuest speed)) (Board.start (Blink.start io₀ aircr rcc))
      (turns₁ ++ turns₂) b₂ :=
    Run.append_iff.2 ⟨b₁, hrun₁.mono fun _ _ _ h => h.1, hrun₂⟩
  have hrep : LedReported b₂.guest b₂.history :=
    board_invariant (P := fun _ s hist => LedReported s hist)
      ⟨start_ok hreset hinit hrcc, nofun, [], (List.append_nil _).symm, nofun⟩
      (fun _ _ _ _ _ h hs => (step_effect h.1 hs).ledReported h) hrun
  have hframes : b₂.frames = b₂.history.map frame :=
    board_frames (fun _ _ _ hcmd => postable_of_mem_portCmds hcmd) hrun
  have hlast := hrep.2.last () hfollowed.loop (by decide)
  rw [← hframes] at hlast
  have hled : odrBit b₂.guest.mcu.ports ledPin = !button b₁.guest := hfollowed.kept hturns
  rw [show odrBit b₂.guest.mcu.outputs.ports ledPin = !button b₁.guest from hled] at hlast
  refine ⟨hled, hlast, fun hunderway hpending => ?_⟩
  have hsent : b₂.frames = b₂.emul.sent := by
    rw [Board.frames, Emul.frames, hunderway, hpending]
    simp
  rw [← hsent]
  exact hlast

/-- `init` runs, interrupted by a handler that finds nothing pending.  Then the button is
pressed and the handler serves it. -/
def press : List (Turn BlinkEvent) :=
  [.emul (.connect true), .emul .cmd, .emul .cmd] ++ resetPosts ++
  List.replicate 30 (.guest .main) ++ [.guest (.hardware (.enter .exti9_5))] ++
  List.replicate 5 (.guest (.hardware .handler)) ++ List.replicate 26 (.guest .main) ++
  [.emul (.post (ledPin.report false))] ++
  List.replicate 6 (.emul .poster) ++
  [.guest (.hardware (.gpioIn btn2Pin.base 6 true)), .guest (.hardware (.enter .exti9_5))] ++
  List.replicate 7 (.guest (.hardware .handler))

/-- Then the loop sets the LED, and reads again. -/
def follow : List (Turn BlinkEvent) :=
  [.guest .main, .guest .main, .emul (.post (ledPin.report false))] ++
    List.replicate 6 (.emul .poster) ++
  [.guest .main]

/-- The button is down, and the LED, which is active low, is on. -/
theorem hello_blink_press :
    ∃ io₀ rcc b₁ b₂, machineReset Io.alloc = .ok io₀ ∧ Rcc.init = .ok rcc ∧
    Run (Guarded (BoardStep (blinkGuest .speed2MHz)) (Board.Meets Timely))
      (Board.start (Blink.start io₀ 0#32 rcc)) press b₁ ∧
    Run (BoardStep (blinkGuest .speed2MHz)) b₁ follow b₂ ∧ button b₁.guest = true ∧
    odrBit b₂.guest.mcu.ports ledPin = false ∧
    LastOf (About ledPin) (· = frame (ledPin.report false)) b₂.frames := by
  have hexec : ((machineReset Io.alloc).toOption.bind fun io₀ => Rcc.init.toOption.bind fun rcc =>
      (press.foldlM (fun b a => if Board.Meets Timely b a then (if Board.WritesInFull b a then
        Board.step (blinkGuest .speed2MHz) b a else none) else none)
        (Board.start (Blink.start io₀ 0#32 rcc))).bind fun b₁ =>
      (follow.foldlM (fun b a => if Board.WritesInFull b a then
        Board.step (blinkGuest .speed2MHz) b a else none) b₁).map fun _ =>
        (b₁.guest.pc, b₁.guest.mcu.fw.handler.phase btn2Pin.line,
          b₁.guest.mcu.fw.io.exti.PR.getLsbD btn2Pin.line, button b₁.guest)) =
      some (.get, .outside, false, true) := by decide +kernel
  obtain ⟨io₀, hio, hexec⟩ := Option.bind_eq_some_iff.1 hexec
  obtain ⟨rcc, hrcc, hexec⟩ := Option.bind_eq_some_iff.1 hexec
  obtain ⟨b₁, hb₁, hexec⟩ := Option.bind_eq_some_iff.1 hexec
  obtain ⟨b₂, hb₂, hval⟩ := Option.map_eq_some_iff.1 hexec
  simp only [Prod.mk.injEq] at hval
  obtain ⟨hpc, hphase, hpr, hbutton⟩ := hval
  have hreset := toOption_eq_some.1 hio
  have hinit := toOption_eq_some.1 hrcc
  have hrun₁ : Run (Guarded (BoardStep (blinkGuest .speed2MHz)) (Board.Meets Timely))
      (Board.start (Blink.start io₀ 0#32 rcc)) press b₁ :=
    (Run.guarded_of_foldlM hb₁).mono fun b a b' h => by
      obtain ⟨h, hG⟩ := h
      rw [Option.ite_none_right_eq_some] at h
      exact ⟨⟨h.2, h.1⟩, hG⟩
  have hrun₂ : Run (BoardStep (blinkGuest .speed2MHz)) b₁ follow b₂ :=
    Run.guarded_of_foldlM hb₂
  have hevents : guestEvents follow = [.main, .main, .main] := by decide
  obtain ⟨hled, hlast, -⟩ :=
    hello_blink .speed2MHz io₀ 0#32 hreset rcc rcc [] hinit (.nil rcc) press
    follow b₁ b₂ hrun₁ (by rw [hpc]; decide) ⟨hphase, hpr⟩ hrun₂ (by rw [hevents]; simp)
    (by rw [hevents]; decide)
  rw [hbutton] at hled hlast
  exact ⟨io₀, rcc, b₁, b₂, hreset, hinit, hrun₁, hrun₂, hbutton, hled, hlast⟩

end HelloBlink
end Especial
