/-
# What the monitor sees of the digital outputs

The calls of `DigitalOutput` methods run in the guest; each drives an output line, and
for the five lines of the board the emulator posts a command.  The command thread sends
the frames while the guest goes on.

In every state of every interleaving, the last frame about an LED (on the socket, or on
its way) has the level of its object, and after the five frames of the reset no frame is
about anything else (`output_frames`).
-/

import Especial.Emul.Board
import Especial.Emul.Frames
import Especial.Hal.OutputLevels

namespace Especial
namespace Hal

open Qemu Stm32 Lib Gpio Afio Rcc Emul

/-! ### The five LEDs -/

/-- The output line of the pin is connected. -/
def Pin.wired (p : Pin) : Bool := (outputsIrq p.base p.line).isSome

/-- The command that reports a level of the pin. -/
def Pin.report (p : Pin) (level : Bool) : P103Cmd :=
  postEventDigitalOut p.port p.pinNumber (if level then 1#32 else 0#32)

variable {p q : Pin} {level level' : Bool}

/-- The letter of a port. -/
theorem Pin.port_eq {n : ℕ} (h : p.base.val = n) : p.port = BitVec.ofNat 8 (n + 0x41) := by
  have hbase : p.port.toNat - 0x41 = n := h
  have hok := p.port_ok
  refine BitVec.eq_of_toNat_eq ?_
  rw [BitVec.toNat_ofNat]
  omega

/-- The number of a pin. -/
theorem Pin.pinNumber_eq {n : ℕ} (h : p.line.val = n) : p.pinNumber = BitVec.ofNat 8 n := by
  have hline : p.pinNumber.toNat = n := h
  have hlt := p.pinNumber_lt
  refine BitVec.eq_of_toNat_eq ?_
  rw [BitVec.toNat_ofNat]
  omega

/-- **A call on the line of an LED** posts a command about the LED. -/
theorem setIrq_wired (h : p.wired = true) : setIrq p.base (p.line, level) = [p.report level] := by
  unfold Pin.wired outputsIrq at h
  unfold setIrq outputsIrq
  dsimp only
  split at h
  case h_6 => exact absurd h (by decide)
  all_goals
    rename_i hport hline
    rw [Pin.report, Pin.port_eq hport, Pin.pinNumber_eq hline]
    rfl

/-- A call on another line posts nothing. -/
theorem setIrq_not_wired (h : p.wired = false) : setIrq p.base (p.line, level) = [] := by
  unfold Pin.wired at h
  unfold setIrq
  rw [Option.isSome_eq_false_iff, Option.isNone_iff_eq_none] at h
  dsimp only
  rw [h]

/-- **The frames of different pins, or with different levels, are different.** -/
theorem frame_report_inj (h : frame (p.report level) = frame (q.report level')) :
    p = q ∧ level = level' := by
  obtain ⟨K, A, B, D, F, hL⟩ := exists_layout
  have hletter :
      ∀ (p : Pin) (v : BitVec 32), (Posting.digitalOut p.port p.pinNumber v).Lettered :=
    fun p _ => p.port_ok
  have heq : Posting.digitalOut p.port p.pinNumber (if level then 1#32 else 0#32) =
      .digitalOut q.port q.pinNumber (if level' then 1#32 else 0#32) :=
    hL.frame_inj (hletter p _) (hletter q _) h
  obtain ⟨hport, hpin, hvalue⟩ := Posting.digitalOut.inj heq
  refine ⟨?_, ?_⟩
  · obtain ⟨port, pinNumber, _, _⟩ := p
    obtain ⟨port', pinNumber', _, _⟩ := q
    obtain rfl : port = port' := hport
    obtain rfl : pinNumber = pinNumber' := hpin
    rfl
  · revert hvalue
    cases level <;> cases level' <;> decide

/-! ### One call -/

variable {ι : Type} [DecidableEq ι] {pins : ι → Pin} {done : ι → Prop}
    {s t : Outputs ι} {o : ι}

/-- A call, if it returns. -/
def callStep (s : Outputs ι) (c : Call ι) : Option (Outputs ι) := (exec s c).toOption

/-- A call that returns is a step. -/
theorem callStep_eq_some {c : Call ι} : callStep s c = some t ↔ exec s c = .ok t :=
  toOption_eq_some

/-- The commands of a call. -/
def outputCmds (s t : Outputs ι) : List P103Cmd := portCmds s.ports.gpio t.ports.gpio

/-- The guest that makes the calls; it waits for the posts of each. -/
def callGuest (ι : Type) [DecidableEq ι] : Guest (Outputs ι) (Call ι) where
  step := callStep
  cmds := outputCmds
  foreign _ := false

/-- **The commands of a call**: reports about the pin of its object, if it is an LED, and
the last one has the level. -/
theorem Acts.cmds {b : Bool} (h : Acts o b s t) : ∃ levels : List Bool, outputCmds s t =
    if (s.objects o).pin.wired then (levels ++ [b]).map (s.objects o).pin.report else [] := by
  obtain ⟨⟨⟨calls, htouches⟩, -, -, hothers⟩, -, -⟩ := h
  refine ⟨calls.map Prod.snd, ?_⟩
  rw [outputCmds, portCmds_eq htouches.outIrq fun p hp => by rw [hothers p hp]]
  have hcalls : ∀ d ∈ calls ++ [((s.objects o).pin.line.val, b)],
      setIrq (s.objects o).pin.base d =
        if (s.objects o).pin.wired then [(s.objects o).pin.report d.2] else [] := fun d hd => by
    rw [← Prod.mk.eta (p := d), htouches.line d hd]
    split_ifs with hw
    · exact setIrq_wired hw
    · exact setIrq_not_wired (Bool.eq_false_iff.2 hw)
  rw [List.flatMap_congr hcalls]
  split_ifs
  · rw [← List.map_eq_flatMap]
    simp
  · exact List.flatMap_eq_nil_iff.2 fun _ _ => rfl

/-! ### Runs -/

/-- The frame is about the pin. -/
def About (p : Pin) (f : List Char) : Prop := ∃ level, f = frame (p.report level)

/-- After the frames of the reset, every frame is about an LED that was initialized. -/
def OnlyAbout (pins : ι → Pin) (done : ι → Prop) (frames : List (List Char)) : Prop :=
  ∃ fs, frames = resetCmds.map frame ++ fs ∧
    ∀ f ∈ fs, ∃ o, done o ∧ (pins o).wired = true ∧ About (pins o) f

omit [DecidableEq ι] in
/-- More LEDs have been initialized. -/
theorem OnlyAbout.mono {done' : ι → Prop} {frames : List (List Char)}
    (h : OnlyAbout pins done frames) (hdone : ∀ o, done o → done' o) :
    OnlyAbout pins done' frames := by
  obtain ⟨fs, rfl, hall⟩ := h
  refine ⟨fs, rfl, fun f hf => ?_⟩
  obtain ⟨o, ho, hw, habout⟩ := hall f hf
  exact ⟨o, hdone o ho, hw, habout⟩

omit [DecidableEq ι] in
/-- More frames, about LEDs that are initialized now. -/
theorem OnlyAbout.append {done' : ι → Prop} {frames fs : List (List Char)}
    (h : OnlyAbout pins done frames) (hdone : ∀ o, done o → done' o)
    (hfs : ∀ f ∈ fs, ∃ o, done' o ∧ (pins o).wired = true ∧ About (pins o) f) :
    OnlyAbout pins done' (frames ++ fs) := by
  obtain ⟨fs₀, rfl, hall⟩ := h.mono hdone
  refine ⟨fs₀ ++ fs, List.append_assoc _ _ _, fun f hf => ?_⟩
  rcases List.mem_append.1 hf with hf | hf
  · exact hall f hf
  · exact hfs f hf

/-- What the frames say: the last one about an LED that was initialized has its output
bit, and after the reset none is about anything else. -/
structure Reported (pins : ι → Pin) (done : ι → Prop) (s : Outputs ι)
    (frames : List (List Char)) : Prop where
  last : ∀ o, done o → (pins o).wired = true →
    LastOf (About (pins o)) (· = frame ((pins o).report (odrBit s.ports (pins o)))) frames
  only : OnlyAbout pins done frames

/-- A frame is about one pin. -/
theorem not_about {p q : Pin} (hne : p ≠ q) (level : Bool) :
    ¬About p (frame (q.report level)) := by
  rintro ⟨level', h⟩
  exact hne (frame_report_inj h).1.symm

/-- **One call** keeps what the frames say. -/
theorem Acts.reported {b : Bool} {done' : ι → Prop} {hist : List P103Cmd} (h : Acts o b s t)
    (hinv : Inv pins done s) (hpins : Function.Injective pins)
    (hrep : Reported pins done s (hist.map frame))
    (hdone : ∀ o', done o' → done' o') (hdone' : ∀ o', done' o' → done o' ∨ o' = o)
    (ho : done' o) : Reported pins done' t ((hist ++ outputCmds s t).map frame) := by
  obtain ⟨levels, hcmds⟩ := h.cmds
  have hodr := h.driven.odr
  have hkept := h.driven.othersKept
  rw [hinv.pin] at hcmds hodr hkept
  rw [hcmds, List.map_append]
  have hother : ∀ o', o' ≠ o → odrBit t.ports (pins o') = odrBit s.ports (pins o') :=
    fun o' ho' =>
    hkept.odr _ _ fun heq => ho' (hpins (Pin.ext_base_line (Prod.mk.inj heq).1 (Prod.mk.inj heq).2))
  by_cases hw : (pins o).wired = true
  · rw [if_pos hw, List.map_map]
    refine ⟨fun o' ho' hw' => ?_, hrep.only.append hdone fun f hf => ?_⟩
    · by_cases hoo : o' = o
      · subst hoo
        rw [List.map_append, ← List.append_assoc, hodr]
        exact lastOf_snoc.2 (Or.inl ⟨⟨b, rfl⟩, rfl⟩)
      · rw [hother o' hoo]
        refine lastOf_append_of_forall (hrep.last o' ((hdone' o' ho').resolve_right hoo) hw')
          fun f hf => ?_
        obtain ⟨level, -, rfl⟩ := List.mem_map.1 hf
        exact not_about (fun heq => hoo (hpins heq)) level
    · obtain ⟨level, -, rfl⟩ := List.mem_map.1 hf
      exact ⟨o, ho, hw, level, rfl⟩
  · rw [if_neg hw, List.map_nil, List.append_nil]
    refine ⟨fun o' ho' hw' => ?_, hrep.only.mono hdone⟩
    have hoo : o' ≠ o := fun heq => hw (heq ▸ hw')
    rw [hother o' hoo]
    exact hrep.last o' ((hdone' o' ho').resolve_right hoo) hw'

/-- What holds on the board after a sequence of calls. -/
def CallsReported (pins : ι → Pin) (calls : List (Call ι)) (s : Outputs ι)
    (hist : List P103Cmd) : Prop :=
  InitializedFirst calls → Inv pins (fun o => .initializeOutput o ∈ calls) s ∧
    Reported pins (fun o => .initializeOutput o ∈ calls) s (hist.map frame)

/-- **One call** keeps it. -/
theorem step_callsReported (hpins : Function.Injective pins) {calls : List (Call ι)}
    {hist : List P103Cmd} {c : Call ι} (h : CallsReported pins calls s hist)
    (hstep : exec s c = .ok t) : CallsReported pins (calls ++ [c]) t (hist ++ outputCmds s t) := by
  intro hcalls
  obtain ⟨hinv, hrep⟩ := h hcalls.init
  have hc := hcalls calls c [] rfl
  obtain ⟨b, hacts⟩ := exec_acts c hinv hc
  have hact : Acts c.object b s t := hacts.of_eq_ok hstep
  have hmem : ∀ o, .initializeOutput o ∈ calls ++ [c] →
      .initializeOutput o ∈ calls ∨ o = c.object := by
    intro o ho
    rcases List.mem_append.1 ho with ho | ho
    · exact Or.inl ho
    · rw [← List.mem_singleton.1 ho]
      exact Or.inr rfl
  have hobject : .initializeOutput c.object ∈ calls ++ [c] := by
    rcases hc with hc | hc
    · exact List.mem_append_right _ (List.mem_singleton.2 hc.symm)
    · exact List.mem_append_left _ hc
  exact ⟨hact.inv hinv hpins hmem,
    hact.reported hinv hpins hrep (fun o ho => List.mem_append_left _ ho) hmem hobject⟩

/-- **The digital outputs and the monitor.**  Objects on different pins, on an RCC in any
state since its initialization and ports in any state; a sequence of calls in which each
object is initialized before it is set; and any interleaving with the threads of the
emulator, on a socket that takes whole frames.  In every state:

* the last frame about an LED that has been initialized, among those on the socket, those
  on their way and those still to be posted, has the level of its object, and so has the
  last one on the socket when no frame is on its way;
* the first five frames are those of the reset, and every later one is about such an LED;
* the next call returns. -/
theorem output_frames (pins : ι → Pin) (hpins : Function.Injective pins)
    (rcc₀ rcc : Stm32Rcc) (events : List Rcc.Event) (hinit : Rcc.init = .ok rcc₀)
    (hrcc : Run Rcc.Step rcc₀ events rcc) (gpio : Fin GPIO_COUNT → Stm32Gpio)
    (turns : List (Turn (Call ι))) (b : Board (Outputs ι))
    (hrun : Run (BoardStep (callGuest ι))
      (Board.start (Outputs.init ⟨rcc, gpio⟩ pins)) turns b)
    (hcalls : InitializedFirst (guestEvents turns)) :
    (∀ o, .initializeOutput o ∈ guestEvents turns → (pins o).wired = true →
      LastOf (About (pins o))
      (· = frame ((pins o).report ((b.guest.objects o).state = .on))) b.frames ∧
      (underway b.emul = [] → b.pending = [] →
        LastOf (About (pins o)) (· = frame ((pins o).report ((b.guest.objects o).state = .on)))
          b.emul.sent)) ∧
      (∃ fs, b.frames = resetCmds.map frame ++ fs ∧ ∀ f ∈ fs, ∃ o,
        .initializeOutput o ∈ guestEvents turns ∧ (pins o).wired = true ∧
        About (pins o) f) ∧
      ∀ c, InitializedFirst (guestEvents turns ++ [c]) → ∃ t, exec b.guest c = .ok t := by
  obtain ⟨cfg, r, hhas⟩ := run_has hinit hrcc
  have h₀ : CallsReported pins [] (Outputs.init ⟨rcc, gpio⟩ pins) resetCmds := fun _ =>
    ⟨⟨⟨_, _, cfg, r, hhas, rfl, rfl⟩, fun _ => rfl, fun _ h => absurd h (by simp)⟩,
      fun _ h => absurd h (by simp), ⟨[], (List.append_nil _).symm, nofun⟩⟩
  have hreported : CallsReported pins (guestEvents turns) b.guest b.history :=
    board_invariant h₀
      (fun _ _ _ _ _ h hs => step_callsReported hpins h (callStep_eq_some.1 hs)) hrun
  obtain ⟨hinv, hrep⟩ := hreported hcalls
  have hframes : b.frames = b.history.map frame :=
    board_frames (fun _ _ _ hcmd => postable_of_mem_portCmds hcmd) hrun
  rw [← hframes] at hrep
  have hstate : ∀ o, .initializeOutput o ∈ guestEvents turns →
      decide ((b.guest.objects o).state = .on) = odrBit b.guest.ports (pins o) := fun o ho => by
    rw [(hinv.settled o ho).shows.state]
    cases odrBit b.guest.ports (pins o) <;> rfl
  refine ⟨fun o ho hw => ?_, hrep.only, fun c hc => ?_⟩
  · rw [hstate o ho]
    refine ⟨hrep.last o ho hw, fun hunderway hpending => ?_⟩
    have hsent : b.frames = b.emul.sent := by
      rw [Board.frames, Emul.frames, hunderway, hpending]
      simp
    rw [← hsent]
    exact hrep.last o ho hw
  · obtain ⟨level, hacts⟩ := exec_acts c hinv (hc (guestEvents turns) c [] rfl)
    obtain ⟨t, ht, -⟩ := hacts
    exact ⟨t, ht⟩

/-- The posts of the reset. -/
def resetPosts {ε : Type} : List (Turn ε) :=
  resetCmds.flatMap fun cmd => .emul (.post cmd) :: List.replicate 6 (.emul .poster)

/-- After the reset the red LED is initialized and switched on; the command thread sends
the first frame while the last command is being posted. -/
def ledOn : List (Turn (Call Bool)) :=
  [.emul (.connect true), .emul .cmd, .emul .cmd] ++ resetPosts ++
  [.guest (.initializeOutput false), .emul (.post ((leds false).report false))] ++
  List.replicate 6 (.emul .poster) ++
  [.guest (.set false true), .emul (.post ((leds false).report true)), .emul .poster, .emul .poster,
    .emul .poster, .emul .poster, .emul .poster] ++ List.replicate 6 (.emul .cmd) ++
  [.emul (.write (some 49))]

/-- The board of the LEDs, as the guest starts. -/
def startLeds (rcc : Stm32Rcc) : Board (Outputs Bool) :=
  Board.start (Outputs.init ⟨rcc, fun port => Stm32Gpio.alloc (portPeriph port)⟩ leds)

/-- The first frame on the socket is that of the reset about `PC.3`; the frame about the LED
switched on is on its way. -/
theorem output_frames_led_on : ∃ rcc b, Rcc.init = .ok rcc ∧
    Run (BoardStep (callGuest Bool)) (startLeds rcc) ledOn b ∧
    b.emul.sent = (resetCmds.take 1).map frame ∧
    LastOf (About (leds false)) (· = frame ((leds false).report true)) b.frames := by
  have hexec : (Rcc.init.toOption.bind fun rcc => (ledOn.foldlM (fun b a =>
      if Board.WritesInFull b a then Board.step (callGuest Bool) b a else none) (startLeds rcc)).map
        fun b : Board (Outputs Bool) => (b.emul.sent, (b.guest.objects false).state)) =
      some ((resetCmds.take 1).map frame, State.on) := by decide +kernel
  obtain ⟨rcc, hrcc, hexec⟩ := Option.bind_eq_some_iff.1 hexec
  obtain ⟨b, hb, hval⟩ := Option.map_eq_some_iff.1 hexec
  obtain ⟨hsent, hstate⟩ := Prod.mk.inj hval
  have hinit : Rcc.init = .ok rcc := toOption_eq_some.1 hrcc
  have hrun : Run (BoardStep (callGuest Bool)) (startLeds rcc) ledOn b := Run.guarded_of_foldlM hb
  have hleds : Function.Injective leds := by
    intro a b
    cases a <;> cases b <;> decide
  have hevents : guestEvents ledOn = [.initializeOutput false, .set false true] := by decide
  have hcalls : InitializedFirst (guestEvents ledOn) := by
    rw [hevents]
    decide
  have hlast := (output_frames leds hleds rcc rcc [] hinit (.nil rcc) _ ledOn b hrun hcalls).1 false
    (by rw [hevents]; decide) (by decide)
  refine ⟨rcc, b, hinit, hrun, hsent, ?_⟩
  rw [hstate] at hlast
  exact hlast.1

end Hal
end Especial
