/-
# The cached state of a digital input

A `DigitalInput` caches the level of its pin.  It is refreshed in the interrupt
handler, which reads the input register and clears the pending bit afterwards.  A
level that changes between the two is lost: the pending bit is set already when the
edge comes, and it is cleared with the old level in the cache.

`digitalInput_current_iff` says that nothing else goes wrong: the cached state is
right in every quiescent state exactly when the pin is `Steady`, that is, has the
level of the callback again when the pending bit is cleared.
-/

import Especial.Hal.Registration
import Especial.Hal.Watched

namespace Especial
namespace Hal

open Qemu Stm32 Lib Gpio Exti Afio

variable {d : ℕ} {pin : Pin} {s s' : Firmware} {e : Event}

/-- In a quiescent state (the handler is not in the call for the line, and the line is
not pending), if the level of the pin has changed since it was `b₀`, `get` returns
the level. -/
def Current (d : ℕ) (pin : Pin) (b₀ : Bool) (l : List Event) (s : Firmware) : Prop :=
  s.handler.phase pin.line = .outside → s.io.exti.PR.getLsbD pin.line = false →
    (∃ b ∈ l.flatMap pin.levels, b ≠ b₀) → (s.inputs d).get = level s.io pin.base pin.line

/-- The handler does not clear the pending bit when the cached state is not the level
of the pin. -/
def ClearsCurrent (d : ℕ) (pin : Pin) (s : Firmware) (e : Event) : Prop :=
  ClearsPending pin.line s e → (s.inputs d).get = level s.io pin.base pin.line

instance (d : ℕ) (pin : Pin) (s : Firmware) (e : Event) :
    Decidable (ClearsCurrent d pin s e) := by
  unfold ClearsCurrent
  infer_instance

/-- In every call of the handler for the line of the pin, when the handler clears the
pending bit the pin has the level that it had at the callback. -/
def Steady (pin : Pin) (s₁ : Firmware) (l : List Event) : Prop :=
  ∀ l₁ l₂ u v, l₁ ++ .handler :: l₂ ++ [.handler] <+: l → Event.handler ∉ l₂ →
    Run (Interleaved pin.line) s₁ l₁ u → u.handler.phase pin.line = .called →
    Run (Interleaved pin.line) s₁ (l₁ ++ .handler :: l₂) v →
    level v.io pin.base pin.line = level u.io pin.base pin.line

/-! ### Between the callback and the clearing of the pending bit -/

/-- The callback leaves the level of the pin in the object. -/
theorem step_of_called (h : Watched d pin s) (hpc : s.handler.phase pin.line = .called)
    (hs : Interleaved pin.line s .handler s') : s'.handler.phase pin.line = .served ∧
      (s'.inputs d).get = level s.io pin.base pin.line := by
  have haction : action d pin s .handler = .serve :=
    (action_handler d pin s .handler).1.2 ⟨rfl, hpc⟩
  have hview := view_step h (step_effect h.ok hs.1) hs.2
  rw [haction] at hview
  exact ⟨congrArg Mirror.phase hview, congrArg Mirror.copy hview⟩

/-- Until the handler goes on, only the inputs change. -/
theorem step_of_served {n : Fin 16} (hpc : s.handler.phase n = .served) (he : e ≠ .handler)
    (hs : Step s e s') : s'.handler = s.handler ∧ s'.inputs = s.inputs := by
  have hbusy : s.handler ≠ .idle := fun hidle => by rw [hidle] at hpc; cases hpc
  obtain ⟨hen, hs⟩ := hs
  cases e with
  | handler => exact absurd rfl he
  | gpioIn port m lv =>
    obtain ⟨io, -, hs⟩ := bind_eq_ok.1 hs
    rw [← pure_eq_ok.1 hs]
    exact ⟨rfl, rfl⟩
  | _ => exact absurd (of_decide_eq_true hen) hbusy

/-- So the object has the level of the callback until then. -/
theorem run_of_called {u v : Firmware} {l : List Event} (h : Watched d pin u)
    (hpc : u.handler.phase pin.line = .called) (hl : Event.handler ∉ l)
    (hrun : Run (Interleaved pin.line) u (.handler :: l) v) : v.handler.phase pin.line = .served ∧
      (v.inputs d).get = level u.io pin.base pin.line := by
  obtain ⟨w, hw, hrun⟩ := Run.cons_iff.1 hrun
  have hquiet :=
    hrun.guarded_of_forall (Q := (· ≠ Event.handler)) fun e he heq => hl (heq ▸ he)
  refine hquiet.invariant (P := fun v => v.handler.phase pin.line = .served ∧
    (v.inputs d).get = level u.io pin.base pin.line) (fun s e t hP hs => ?_)
    (step_of_called h hpc hw)
  obtain ⟨hhandler, hinputs⟩ := step_of_served hP.1 hs.2 hs.1.1
  rw [hhandler, hinputs]
  exact hP

/-- A handler that has made the callback made it in some step before. -/
theorem exists_called {s₁ v : Firmware} {l : List Event} (h : Watched d pin s₁)
    (hphase : s₁.handler.phase pin.line = .outside) (hrun : Run (Interleaved pin.line) s₁ l v)
    (hserved : v.handler.phase pin.line = .served) :
    ∃ l₁ l₂ u, l = l₁ ++ .handler :: l₂ ∧
      Event.handler ∉ l₂ ∧ Run (Interleaved pin.line) s₁ l₁ u ∧
      u.handler.phase pin.line = .called := by
  induction l using List.reverseRecOn generalizing v with
  | nil =>
    rw [Run.nil_iff.1 hrun, hphase] at hserved
    cases hserved
  | append_singleton l e ih =>
    obtain ⟨s, hs, hstep⟩ := Run.snoc_iff.1 hrun
    have hw : Watched d pin s := hs.invariant (mirrored d pin).inv h
    have hview := congrArg Mirror.phase ((mirrored d pin).view_eq s e v hw hstep)
    have hphase' : ((view d pin s).act (action d pin s e)).phase = .served :=
      hview.symm.trans hserved
    by_cases hbefore : s.handler.phase pin.line = .served
    · obtain ⟨l₁, l₂, u, rfl, hl₂, hu, hcalled⟩ := ih hs hbefore
      have he : e ≠ .handler := fun heq => by
        rw [(action_handler d pin s e).2.2 ⟨heq, hbefore⟩] at hphase'
        cases hphase'
      refine ⟨l₁, l₂ ++ [e], u, by simp, ?_, hu, hcalled⟩
      rw [List.mem_append, List.mem_singleton]
      exact fun hmem => hmem.elim hl₂ fun heq => he heq.symm
    · have hserve : action d pin s e = .serve := by
        cases ha : action d pin s e with
        | serve => rfl
        | _ =>
          rw [ha] at hphase'
          first
            | exact absurd hphase' hbefore
            | cases hphase'
      obtain ⟨rfl, hcalled⟩ := (action_handler d pin s e).1.1 hserve
      exact ⟨l, [], s, rfl, List.not_mem_nil, hs, hcalled⟩

/-- **No wrong level is cleared away** exactly if the pin is steady. -/
theorem guarded_iff_steady {s₁ s₂ : Firmware} {l : List Event} (h : Watched d pin s₁)
    (hphase : s₁.handler.phase pin.line = .outside)
    (hrun : Run (Interleaved pin.line) s₁ l s₂) :
    Run (Guarded (Interleaved pin.line) (ClearsCurrent d pin)) s₁ l s₂ ↔
    Steady pin s₁ l := by
  have hdet : ∀ u e v v', Interleaved pin.line u e v → Interleaved pin.line u e v' → v = v' :=
    fun u e v v' h h' => step_det u e v v' h.1 h'.1
  -- what a window from the callback to the clearing leaves in the object
  have hwindow : ∀ {l₁ l₂ u v}, Event.handler ∉ l₂ →
      Run (Interleaved pin.line) s₁ l₁ u →
      u.handler.phase pin.line = .called →
      Run (Interleaved pin.line) s₁ (l₁ ++ .handler :: l₂) v →
      v.handler.phase pin.line = .served ∧ (v.inputs d).get = level u.io pin.base pin.line := by
    intro l₁ l₂ u v hl₂ hu hcalled hv
    obtain ⟨w, hw, hv⟩ := Run.append_iff.1 hv
    obtain rfl := hu.unique hdet hw
    exact run_of_called (hu.invariant (mirrored d pin).inv h) hcalled hl₂ hv
  rw [Run.guarded_iff hdet hrun]
  constructor
  · intro hall l₁ l₂ u v hl hl₂ hu hcalled hv
    obtain ⟨hserved, hget⟩ := hwindow hl₂ hu hcalled hv
    rw [← hget]
    exact (hall _ .handler v hl hv ⟨rfl, hserved⟩).symm
  · rintro hsteady l' e v hl hv ⟨rfl, hserved⟩
    obtain ⟨l₁, l₂, u, rfl, hl₂, hu, hcalled⟩ := exists_called h hphase hv hserved
    rw [(hwindow hl₂ hu hcalled hv).2]
    exact (hsteady l₁ l₂ u v hl hl₂ hu hcalled hv).symm

/-! ### Runs that are executed -/

/-- An interleaved step, executed. -/
def interleave (n : Fin 16) (s : Firmware) (e : Event) : Option Firmware :=
  if Enabled s e && e.Spares n then (step s e).toOption else none

/-- An interleaved step is one that `interleave` makes. -/
theorem interleaved_eq (n : Fin 16) :
    Interleaved n = fun s e s' => interleave n s e = some s' := by
  funext s e s'
  have hok : step s e = .ok s' ↔ (step s e).toOption = some s' := by
    cases step s e <;> simp [Except.toOption]
  show ((Enabled s e = true ∧ step s e = .ok s') ∧ e.Spares n = true) =
      (interleave n s e = some s')
  unfold interleave
  rw [hok]
  generalize e.Spares n = spares
  cases Enabled s e <;> cases spares <;> simp

/-- The firmware after an input on `PA.3` was registered, executed. -/
def startA3 : Option Firmware :=
  (machineReset Io.alloc).toOption.bind fun io₀ =>
    (registerInterrupt true (Firmware.init io₀ 0#32 fun _ => pinA3) 0).toOption.bind fun r =>
      if r.1 then some r.2 else none

/-- What the input of `startA3` comes from: a reset and a registration. -/
theorem exists_of_startA3 {s₁ : Firmware} (h : startA3 = some s₁) : ∃ io₀,
    machineReset Io.alloc = .ok io₀ ∧
    registerInterrupt true (Firmware.init io₀ 0#32 fun _ => pinA3) 0 = .ok (true, s₁) := by
  obtain ⟨io₀, hio₀, h⟩ := Option.bind_eq_some_iff.1 h
  obtain ⟨⟨b, s⟩, hr, h⟩ := Option.bind_eq_some_iff.1 h
  cases b with
  | false => cases h
  | true =>
    obtain rfl : s = s₁ := Option.some.inj h
    exact ⟨io₀, toOption_eq_some.1 hio₀, toOption_eq_some.1 hr⟩

/-- **The cached state of a registered input.**  The input at `d`, with the pin `pin`,
was registered in a state the firmware reaches.  In every run from there, the cached
state is the level of the pin in every quiescent state after a change, exactly when
in every call of the handler the pin has the same level at the callback and when the
pending bit is cleared. -/
theorem digitalInput_current_iff (io₀ : Io) (aircr : BitVec 32) (pins : ℕ → Pin)
    (l₀ l : List Event) (s s₁ s₂ : Firmware) (clkEnabled : Bool) (d : ℕ) (pin : Pin)
    (hreset : machineReset Io.alloc = .ok io₀)
    (hrun₀ : Run Step (Firmware.init io₀ aircr pins) l₀ s) (hidle : s.handler = .idle)
    (hpin : (s.inputs d).pin = pin) (hreg : registerInterrupt clkEnabled s d = .ok (true, s₁))
    (hrun : Run (Interleaved pin.line) s₁ l s₂) :
    (∀ l₁ u, l₁ <+: l → Run (Interleaved pin.line) s₁ l₁ u →
      Current d pin (level s₁.io pin.base pin.line) l₁ u) ↔ Steady pin s₁ l := by
  obtain ⟨hw, hphase⟩ := registerInterrupt_watched (run_ok hreset hrun₀) hidle hpin hreg
  have hguard : (mirrored d pin).LowersRight = ClearsCurrent d pin :=
    funext fun u => funext fun e =>
    propext (imp_congr_left (action_handler d pin u e).2)
  rw [← guarded_iff_steady hw hphase hrun, ← hguard]
  exact (mirrored d pin).current_iff
    (fun u e v v' h h' => step_det u e v v' h.1 h'.1) hrun hw hphase

/-- A rising edge on `PA.3` and its handler, then a falling edge and its handler. -/
def twoEdges : List Event :=
  [.gpioIn pinA3.base 3 true, .enter .exti3, .handler, .handler, .handler,
    .gpioIn pinA3.base 3 false, .enter .exti3, .handler, .handler, .handler]

/-- The cached state follows two edges, one after the other. -/
theorem digitalInput_current_two_edges : ∃ s₁ s₂, startA3 = some s₁ ∧
    Run (Interleaved pinA3.line) s₁ twoEdges s₂ ∧
    (s₂.inputs 0).get = level s₂.io pinA3.base 3 := by
  have hexec : (startA3.bind fun s₁ => (twoEdges.foldlM (fun s e =>
      if ClearsCurrent 0 pinA3 s e then interleave pinA3.line s e else none) s₁).map fun s₂ =>
        (level s₁.io pinA3.base 3, s₂.handler, s₂.io.exti.PR.getLsbD 3)) =
      some (false, .idle, false) := by decide +kernel
  obtain ⟨s₁, hstart, hexec⟩ := Option.bind_eq_some_iff.1 hexec
  obtain ⟨s₂, hs₂, hview⟩ := Option.map_eq_some_iff.1 hexec
  obtain ⟨hlevel, hview⟩ := Prod.mk.inj hview
  obtain ⟨hpc, hpr⟩ := Prod.mk.inj hview
  have hguarded :
      Run (Guarded (Interleaved pinA3.line) (ClearsCurrent 0 pinA3)) s₁ twoEdges s₂ := by
    rw [interleaved_eq]
    exact Run.guarded_of_foldlM hs₂
  have hrun := hguarded.mono fun _ _ _ h => h.1
  obtain ⟨io₀, hreset, hreg⟩ := exists_of_startA3 hstart
  obtain ⟨hw, hphase⟩ := registerInterrupt_watched (init_ok hreset) rfl rfl hreg
  have hsteady : Steady pinA3 s₁ twoEdges := (guarded_iff_steady hw hphase hrun).1 hguarded
  have hcurrent :=
    (digitalInput_current_iff io₀ 0#32 (fun _ => pinA3) [] twoEdges _ s₁ s₂ true 0 pinA3
    hreset (.nil _) rfl rfl hreg hrun).2 hsteady twoEdges s₂ List.prefix_rfl hrun
  refine ⟨s₁, s₂, hstart, hrun, hcurrent ?_ hpr ⟨true, by decide, ?_⟩⟩
  · rw [hpc]
    rfl
  · exact fun heq => absurd (heq.trans hlevel) (by decide)

/-- A rising edge on `PA.3` and its handler, with a falling edge between the callback
and the clearing of the pending bit. -/
def edgeBeforeClear : List Event :=
  [.gpioIn pinA3.base 3 true, .enter .exti3, .handler, .handler,
    .gpioIn pinA3.base 3 false, .handler]

/-- The falling edge is lost: the handler has returned, nothing is pending, and the
cached state is not the level of the pin. -/
theorem digitalInput_change_lost : ∃ io₀ s₁ s₂, machineReset Io.alloc = .ok io₀ ∧
    registerInterrupt true (Firmware.init io₀ 0#32 fun _ => pinA3) 0 = .ok (true, s₁) ∧
    Run (Interleaved pinA3.line) s₁ edgeBeforeClear s₂ ∧ s₂.handler = .idle ∧
    s₂.io.exti.PR.getLsbD 3 = false ∧ (s₂.inputs 0).get = true ∧
    level s₂.io pinA3.base 3 = false ∧
    ¬Current 0 pinA3 (level s₁.io pinA3.base 3) edgeBeforeClear s₂ := by
  have hexec :
      (startA3.bind fun s₁ =>
        (edgeBeforeClear.foldlM (interleave pinA3.line) s₁).map fun s₂ =>
        (level s₁.io pinA3.base 3, s₂.handler, s₂.io.exti.PR.getLsbD 3, (s₂.inputs 0).get,
          level s₂.io pinA3.base 3)) = some (false, .idle, false, true, false) := by
    decide +kernel
  obtain ⟨s₁, hstart, hexec⟩ := Option.bind_eq_some_iff.1 hexec
  obtain ⟨s₂, hs₂, hview⟩ := Option.map_eq_some_iff.1 hexec
  obtain ⟨hlevel₁, hview⟩ := Prod.mk.inj hview
  obtain ⟨hpc, hview⟩ := Prod.mk.inj hview
  obtain ⟨hpr, hview⟩ := Prod.mk.inj hview
  obtain ⟨hget, hlevel⟩ := Prod.mk.inj hview
  obtain ⟨io₀, hreset, hreg⟩ := exists_of_startA3 hstart
  have hrun : Run (Interleaved pinA3.line) s₁ edgeBeforeClear s₂ := by
    rw [interleaved_eq]
    exact Run.some_iff_foldlM.2 hs₂
  refine ⟨io₀, s₁, s₂, hreset, hreg, hrun, hpc, hpr, hget, hlevel, fun hcurrent => ?_⟩
  have hphase : s₂.handler.phase pinA3.line = .outside := by
    rw [hpc]
    rfl
  have hchanged :
      ∃ b ∈ edgeBeforeClear.flatMap pinA3.levels, b ≠ level s₁.io pinA3.base 3 :=
    ⟨true, by decide, by rw [hlevel₁]; decide⟩
  have heq := hcurrent hphase hpr hchanged
  rw [hget] at heq
  exact absurd (heq.trans hlevel) (by decide)

end Hal
end Especial
