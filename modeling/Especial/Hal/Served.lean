/-
# A pending line without a callback

An interrupt that comes while the slot of its line is empty finds no callback, and the
assertion in `checkLineFlag` fails.  `pending_served_iff` says when this does not happen: no
edge reaches the pending register while the slot of its line is empty, and no line is
unregistered while it is pending.  The invariant behind it (`Backed`) is stronger than the
property, since a line that is masked for a moment can become pending.
-/

import Especial.Hal.Sound

namespace Especial
namespace Hal

open Qemu Stm32 Lib Gpio Exti Afio

variable {s s' : Firmware} {r : Registering} {a : Access} {rest : List Access}

/-- A load or a store keeps the lines that are pending with their callbacks. -/
theorem accessed_backed {s t : Program} (h : Sound s) (hmain : s.main = some r)
    (hidle : s.firmware.handler = .idle) (hp : Accessed r s.firmware s.returned t)
    (hb : Backed s.firmware) : Backed t.firmware := by
  have hcalled : ∀ {u : Firmware}, u.handler = s.firmware.handler → ∀ line rest,
      u.handler = .callIsr line rest → u.isrVector line ≠ none := fun hu line rest hpc => by
    cases (hu.trans hidle).symm.trans hpc
  cases hp with
  | taken | free => exact hb
  | registered hrest hslot =>
    refine ⟨fun n hpr => ?_, hcalled rfl⟩
    have hne : n ≠ r.pin.line := fun hn => hb.pending n hpr (hn ▸ hslot)
    dsimp only
    rw [Function.update_of_ne hne]
    exact hb.pending n hpr
  | load hrest hload =>
    have hl := load_loaded hload
    refine ⟨fun n hpr => ?_, hcalled hl.handler⟩
    rw [hl.exti] at hpr
    rw [hl.isrVector]
    exact hb.pending n hpr
  | store hrest ha ha' hv hst =>
    have hfollows := follows_of_suffix (hrest ▸ (h.main r hmain).rest)
    refine ⟨fun n hpr => ?_, hcalled hst.handler⟩
    rw [hst.isrVector ha']
    exact hb.pending n (hst.pr hfollows.clear_ne hfollows.set_ne n hpr)

/-- The handler tests a line before it calls its callback. -/
theorem next_ne_callIsr (l : List (Fin 16)) (line : Fin 16) (rest : List (Fin 16)) :
    HandlerPc.next l ≠ .callIsr line rest := by
  cases l <;> nofun

/-- The end of a registration. -/
theorem Backed.unregister_iff {pin : Pin} (hb : Backed s) (hidle : s.handler = .idle) :
    Backed (unregisterInt s pin) ↔ (s.io.exti.line pin.line).pr = false := by
  constructor
  · intro h
    by_contra hpr
    exact h.pending pin.line (Bool.not_eq_false _ ▸ hpr) (Function.update_self ..)
  · refine fun hpr => ⟨fun n hn => ?_, fun line rest hpc => ?_⟩
    · have hne : n ≠ pin.line := by
        rintro rfl
        exact absurd (hpr.symm.trans hn) Bool.false_ne_true
      show Function.update s.isrVector pin.line none n ≠ none
      rw [Function.update_of_ne hne]
      exact hb.pending n hn
    · cases hidle.symm.trans hpc

/-- A change of an input. -/
theorem Backed.notify_iff {port : Fin GPIO_COUNT} {n : ℕ} {level : Bool} {io : Io} (hb : Backed s)
    (hio : Notified port n level s.io io) : Backed { s with io := io } ↔
      ∀ line : Fin 16, n = line → Reaches s.io port n level → s.isrVector line ≠ none := by
  constructor
  · rintro h line rfl hreach
    exact h.pending line ((hio.pr_iff line).2 (.inr ⟨rfl, hreach⟩))
  · refine fun hall => ⟨fun line hpr => ?_, hb.called⟩
    rcases (hio.pr_iff line).1 hpr with hpr | ⟨rfl, hreach⟩
    · exact hb.pending line hpr
    · exact hall line rfl hreach

/-- **A step** keeps the callbacks of the pending lines exactly if it meets the condition. -/
theorem Happens.backed_iff {s t : Program} {m : Moment} (hs : Happens s m t) (h : Sound s)
    (hb : Backed s.firmware) : Backed t.firmware ↔ KeepsServed s m := by
  cases hs with
  | call => exact iff_of_true hb trivial
  | access hmain hidle hp => exact iff_of_true (accessed_backed h hmain hidle hp hb) trivial
  | event he hreg hunreg =>
    cases he with
    | register => exact absurd rfl (hreg _ _ _)
    | unregister hidle => exact hb.unregister_iff hidle
    | read => exact iff_of_true ⟨hb.pending, hb.called⟩ trivial
    | enter =>
      exact iff_of_true ⟨hb.pending,
        fun line rest h => absurd h (next_ne_callIsr _ _ _)⟩ trivial
    | @test line rest hpc =>
      refine iff_of_true ⟨hb.pending, fun line' rest' h => ?_⟩ trivial
      dsimp only at h ⊢
      split_ifs at h with hpending
      · obtain ⟨rfl, -⟩ := HandlerPc.callIsr.inj h
        exact hb.pending line (Bool.and_eq_true_iff.1 hpending).1
      · exact absurd h (next_ne_callIsr _ _ _)
    | call => exact iff_of_true ⟨hb.pending, nofun⟩ trivial
    | clear _ hio =>
      refine iff_of_true ⟨fun n hpr => hb.pending n ?_, fun line rest h =>
        absurd h (next_ne_callIsr _ _ _)⟩ trivial
      dsimp only at hpr
      rw [hio.line n] at hpr
      split_ifs at hpr with hn
      · cases hpr
      · exact hpr
    | notify hio => exact hb.notify_iff hio

/-- Where the callbacks were there before the step, the property after it gives them
back: a pending line that is masked was pending before. -/
theorem Happens.backed_of_served {s t : Program} {m : Moment} (hs : Happens s m t) (h : Sound s)
    (hb : Backed s.firmware) (hserved : Served t.firmware) : Backed t.firmware := by
  refine ⟨fun n hpr => ?_, (handlerStep_returns_iff _).1 hserved.valid⟩
  rcases (hs.sound h).masked n hpr with himr | ⟨r, hr, -, -⟩
  · exact hserved.callback n hpr himr
  · cases hs with
    | call => exact hb.pending n hpr
    | access hmain hidle hp => exact (accessed_backed h hmain hidle hp hb).pending n hpr
    | event he hreg hunreg =>
      obtain ⟨-, hlines⟩ := he.lines hreg h.routed
      rcases (hlines n).2 hpr with hpr' | ⟨port, level, -, hreach⟩
      · rcases he.isrVector hreg with hvector | ⟨pin, rfl⟩
        · dsimp only
          rw [hvector]
          exact hb.pending n hpr'
        · cases (hunreg pin rfl).symm.trans hr
      · refine hserved.callback n hpr ?_
        dsimp only
        rw [(hlines n).1]
        exact hreach.2.1

/-- After a reset nothing is pending and nothing is registered. -/
theorem init_sound {io₀ : Io} (aircr : BitVec 32) (pins : ℕ → Pin)
    (hreset : machineReset Io.alloc = .ok io₀) :
    Sound (Program.init io₀ aircr pins) ∧ Backed (Program.init io₀ aircr pins).firmware := by
  have hpr : ∀ n : Fin 16, (io₀.exti.line n).pr ≠ true := fun n => by
    rw [(reset_sameInputs hreset).exti]
    simp [Exti.reset, Stm32Exti.line]
  refine ⟨⟨reset_routed (fun _ _ => rfl) hreset, fun r h => ?_, fun n h => absurd h (hpr n)⟩,
    fun n h => absurd h (hpr n), fun line rest h => ?_⟩
  · cases h
  · cases h

/-- **Every pending line is served.**  In every run of calls of `registerInt`, access by
access, calls of `unregisterInt`, changes of the inputs and interrupt handlers, whatever
their order: in every state a line that is pending and unmasked has a callback and the
assertion in `checkLineFlag` does not fail, if and only if no edge reaches the pending
register of a line whose slot is empty and no line is unregistered while it is pending. -/
theorem pending_served_iff (io₀ : Io) (aircr : BitVec 32) (pins : ℕ → Pin) (l : List Moment)
    (s : Program) (hreset : machineReset Io.alloc = .ok io₀)
    (hrun : Run Program.Step (Program.init io₀ aircr pins) l s) :
    (∀ l₁ u, l₁ <+: l → Run Program.Step (Program.init io₀ aircr pins) l₁ u →
      Served u.firmware) ↔
      Run (Guarded Program.Step KeepsServed) (Program.init io₀ aircr pins) l s := by
  obtain ⟨hsound, hbacked⟩ := init_sound aircr pins hreset
  exact Run.forall_prefix_iff_of_stronger (J := Sound) (P := fun s => Served s.firmware)
    (Q := fun s => Backed s.firmware) Program.step_det
    (fun _ _ _ h hs => (happens_of_step h hs).sound h) (fun _ h => h.served)
    (fun _ _ _ h hb hs => (happens_of_step h hs).backed_iff h hb)
    (fun _ _ _ h hb hs => (happens_of_step h hs).backed_of_served h hb) hrun hsound hbacked

/-- An input on `PA.3` is registered without interruption. -/
theorem exists_program_a3 : ∃ io₀ k s b, machineReset Io.alloc = .ok io₀ ∧
    Run (Guarded Program.Step KeepsServed) (Program.init io₀ 0#32 fun _ => pinA3)
      (.call true (some 0) pinA3 :: List.replicate k .access) ⟨s, none, b⟩ ∧
    s.Ok ∧ s.handler = .idle ∧ s.isrVector 3 = some 0 ∧ Reaches s.io pinA3.base 3 true := by
  obtain ⟨io₀, s, hreset, hrun, hvector, hport, hline⟩ := exists_registered_a3
  obtain ⟨t, ⟨-, hstep⟩, hnil⟩ := Run.cons_iff.1 hrun
  obtain ⟨⟨b, u⟩, hcall, hu⟩ := bind_eq_ok.1 hstep
  obtain rfl := Run.nil_iff.1 hnil
  obtain rfl := pure_eq_ok.1 hu
  obtain ⟨k, hk⟩ :=
    run_registerInt (s := Firmware.init io₀ 0#32 fun _ => pinA3) none rfl hcall
  have hr := (registerInt_returns true (some 0) pinA3 (init_ok hreset).ports).of_eq_ok hcall
  have hfree : ∀ m ∈ (Moment.call true (some 0) pinA3 :: List.replicate k .access),
      ∀ s, KeepsServed s m := fun m hm s => by
    rcases List.mem_cons.1 hm with rfl | hm
    · trivial
    · rw [List.eq_of_mem_replicate hm]
      trivial
  have hguarded := (hk.guarded_of_forall hfree).mono fun u m v h =>
    (⟨h.1, h.2 u⟩ : Guarded Program.Step KeepsServed u m v)
  exact ⟨io₀, k, _, some b, hreset, hguarded, run_ok hreset hrun, hr.handler, hvector,
    hport, congrArg Line.imr hline, congrArg Line.rtsr hline⟩

/-- An edge on a registered pin. -/
theorem pending_served_edge : ∃ io₀ k s, machineReset Io.alloc = .ok io₀ ∧
    Run Program.Step (Program.init io₀ 0#32 fun _ => pinA3)
      (.call true (some 0) pinA3 :: List.replicate k .access ++
        [.event (.gpioIn pinA3.base 3 true)]) s ∧
    (s.firmware.io.exti.line 3).pr = true ∧ Served s.firmware := by
  obtain ⟨io₀, k, s, b, hreset, hrun, hok, hidle, hvector, hreach⟩ := exists_program_a3
  obtain ⟨io, hio⟩ := hok.routed.gpioInTrigger_returns pinA3.base (by decide : 3 < 16) true
  have hpr := ((gpioInTrigger_notified hok.routed hio).pr_iff 3).2 (.inr ⟨rfl, hreach⟩)
  have hstep : Program.Step ⟨s, none, b⟩ (.event (.gpioIn pinA3.base 3 true))
      ⟨{ s with io := io }, none, b⟩ :=
    ⟨rfl, bind_eq_ok.2 ⟨_, bind_eq_ok.2 ⟨io, hio, rfl⟩, rfl⟩⟩
  have hkeeps : KeepsServed ⟨s, none, b⟩ (.event (.gpioIn pinA3.base 3 true)) :=
    fun line hline _ => by
    obtain rfl : line = 3 := Fin.ext hline.symm
    rw [hvector]
    nofun
  have hrun' :=
    Run.snoc_iff.2 ⟨_, hrun, (⟨hstep, hkeeps⟩ : Guarded Program.Step KeepsServed _ _ _)⟩
  have hplain := hrun'.mono fun _ _ _ h => h.1
  exact ⟨io₀, k, _, hreset, hplain, hpr,
    (pending_served_iff io₀ 0#32 _ _ _ hreset hplain).2 hrun' _ _ List.prefix_rfl hplain⟩

/-- An edge on a pin that was registered and unregistered: the line is pending and
unmasked, it has no callback, and the assertion fails in its handler. -/
theorem pending_served_unregistered : ∃ io₀ k s t, machineReset Io.alloc = .ok io₀ ∧
    Run Program.Step (Program.init io₀ 0#32 fun _ => pinA3)
      (.call true (some 0) pinA3 :: List.replicate k .access ++
        [.event (.unregisterInt pinA3), .event (.gpioIn pinA3.base 3 true)]) s ∧
    (s.firmware.io.exti.line 3).pr = true ∧ (s.firmware.io.exti.line 3).imr = true ∧
    s.firmware.isrVector 3 = none ∧ ¬Served s.firmware ∧
    Run Program.Step s [.event (.enter .exti3), .event .handler] t ∧
    handlerStep t.firmware = .error (.assertFail "valid") := by
  obtain ⟨io₀, k, s, b, hreset, hrun, hok, hidle, hvector, hreach⟩ := exists_program_a3
  obtain ⟨io, hio⟩ := hok.routed.gpioInTrigger_returns pinA3.base (by decide : 3 < 16) true
  have hnotified := gpioInTrigger_notified hok.routed hio
  have hpr : (io.exti.line 3).pr = true := (hnotified.pr_iff 3).2 (.inr ⟨rfl, hreach⟩)
  have himr : (io.exti.line 3).imr = true := (hnotified.imr_eq 3).trans hreach.2.1
  have hnone : (unregisterInt s pinA3).isrVector 3 = none := by
    show Function.update s.isrVector pinA3.line none pinA3.line = none
    exact Function.update_self ..
  have hunreg : Program.Step ⟨s, none, b⟩ (.event (.unregisterInt pinA3))
      ⟨unregisterInt s pinA3, none, b⟩ :=
    ⟨decide_eq_true ⟨rfl, decide_eq_true hidle⟩, rfl⟩
  have hedge :
      Program.Step ⟨unregisterInt s pinA3, none, b⟩ (.event (.gpioIn pinA3.base 3 true))
      ⟨{ unregisterInt s pinA3 with io := io }, none, b⟩ :=
    ⟨rfl, bind_eq_ok.2 ⟨_, bind_eq_ok.2 ⟨io, hio, rfl⟩, rfl⟩⟩
  have hplain := hrun.mono fun _ _ _ h => h.1
  refine ⟨io₀, k, _,
    ⟨{ unregisterInt s pinA3 with io := io, handler := .callIsr 3 [] }, none, b⟩,
    hreset, Run.append_iff.2 ⟨_, hplain, .cons hunreg (.cons hedge (.nil _))⟩, hpr, himr, hnone,
    fun h => h.callback 3 hpr himr hnone,
    .cons ⟨decide_eq_true hidle, rfl⟩ (.cons ⟨rfl, ?_⟩ (.nil _)), ?_⟩
  · show (do
      let firmware ←
        handlerStep { unregisterInt s pinA3 with io := io, handler := .getITStatus 3 [] }
      return (⟨firmware, none, b⟩ : Program)) = _
    unfold handlerStep
    dsimp only
    rw [extiGetITStatus_eq, show ((3 : Fin 16) : ℕ) = 3 from rfl, hpr, himr]
    rfl
  · unfold handlerStep
    dsimp only
    rw [callIsr_eq]
    dsimp only
    rw [hnone]
    rfl

end Hal
end Especial
