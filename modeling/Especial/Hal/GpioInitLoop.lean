/-
# The loops of `GPIO_Init`

`GPIO_Init` of the firmware library configures the pins of a mask: it reads `CRL` or
`CRH`, replaces the nibbles of the pins in a loop and writes the register back.  For a
pulled input it also writes `BRR` or `BSRR` in the loop, before the configuration
register is written: a pin that was an output until then is still driven (`Pulled`).
-/

import Especial.Gpio.Levels
import Especial.Hal.DigitalOutput

namespace Especial
namespace Hal

open Qemu Stm32 Lib Gpio Afio Rcc

/-- The level that a mode writes to the output bit of its pins, in `BRR` or `BSRR`. -/
def GPIOMode.pull : GPIOMode → Option Bool
  | .IPD => some false
  | .IPU => some true
  | _ => none

variable {init : GPIOInitTypeDef} {g g' g'' : Stm32Gpio} {P Q : ℕ → Bool} {pull : Option Bool}

/-! ### The output bits -/

/-- The output bits of the pins `P` are pulled, and nothing else of the port changes but
its warnings; the lines of the pins that are outputs get the level. -/
structure Pulled (P : ℕ → Bool) (pull : Option Bool) (g g' : Stm32Gpio) : Prop where
  CRL : g'.CRL = g.CRL
  CRH : g'.CRH = g.CRH
  dirMask : g'.dirMask = g.dirMask
  inputs : g'.inputs = g.inputs
  inIrq : g'.inIrq = g.inIrq
  odr : ∀ n < 16, g'.ODR.getLsbD n =
    if P n then pull.getD (g.ODR.getLsbD n) else g.ODR.getLsbD n
  high : ∀ n, 16 ≤ n → g.ODR.getLsbD n = false → g'.ODR.getLsbD n = false
  calls : ∃ calls, g'.outIrq = g.outIrq ++ calls ∧
    ∀ d ∈ calls, P d.1 = true ∧ g.dirMask.getLsbD d.1 = true ∧ pull = some d.2

/-- No pin is pulled. -/
theorem Pulled.refl (pull : Option Bool) (g : Stm32Gpio) : Pulled (fun _ => false) pull g g where
  CRL := rfl
  CRH := rfl
  dirMask := rfl
  inputs := rfl
  inIrq := rfl
  odr _ _ := rfl
  high _ _ h := h
  calls := ⟨[], by simp, by simp⟩

/-- Some pins are pulled, and then others. -/
theorem Pulled.trans (h : Pulled P pull g g') (h' : Pulled Q pull g' g'') :
    Pulled (fun n => P n || Q n) pull g g'' where
  CRL := h'.CRL.trans h.CRL
  CRH := h'.CRH.trans h.CRH
  dirMask := h'.dirMask.trans h.dirMask
  inputs := h'.inputs.trans h.inputs
  inIrq := h'.inIrq.trans h.inIrq
  odr n hn := by
    rw [h'.odr n hn, h.odr n hn]
    cases P n <;> cases Q n <;> cases pull <;> rfl
  high n hn h₀ := h'.high n hn (h.high n hn h₀)
  calls := by
    obtain ⟨calls, hcalls, hmem⟩ := h.calls
    obtain ⟨calls', hcalls', hmem'⟩ := h'.calls
    refine ⟨calls ++ calls', by rw [hcalls', hcalls, List.append_assoc], fun d hd => ?_⟩
    rcases List.mem_append.1 hd with hd | hd
    · obtain ⟨hP, hdir, hpull⟩ := hmem d hd
      exact ⟨by simp [hP], hdir, hpull⟩
    · obtain ⟨hQ, hdir, hpull⟩ := hmem' d hd
      exact ⟨by simp [hQ], h.dirMask ▸ hdir, hpull⟩

/-- The same pins, described otherwise. -/
theorem Pulled.congr (h : Pulled P pull g g') (hQ : ∀ n, P n = Q n) : Pulled Q pull g g' := by
  rwa [← show P = Q from funext hQ]

/-- `stm32_gpio_trigger_irq`, for one pin that gets the level `b`. -/
theorem triggerIrq_pulled {newValue : BitVec 32} {b : Bool} {k : ℕ} (hk : k < 16)
    (hbits : ∀ n < 16, newValue.getLsbD n = if n = k then b else g.ODR.getLsbD n) :
    Pulled (fun n => decide (n = k)) (some b) g (triggerIrq g newValue ((BIT k).setWidth 16)) := by
  have hodr : ∀ n < 16, (newValue &&& 0xffff#32).getLsbD n =
      if n = k then b else g.ODR.getLsbD n := fun n hn => by
    rw [BitVec.getLsbD_and, getLsbD_0xffff, decide_eq_true hn, Bool.and_true, hbits n hn]
  have hpin : ∀ n, ((BIT k).setWidth 16 &&& g.dirMask).getLsbD n = true →
      n = k ∧ g.dirMask.getLsbD n = true := fun n hn => by
    rw [BitVec.getLsbD_and, BitVec.getLsbD_setWidth, BIT, getLsbD_bit] at hn
    simp only [Bool.and_eq_true, decide_eq_true_eq] at hn
    exact ⟨hn.1.2.1, hn.2⟩
  refine ⟨rfl, rfl, rfl, rfl, rfl, fun n hn => ?_, fun n hn _ => ?_, _, rfl, fun d hd => ?_⟩
  · exact (hodr n hn).trans (by simp)
  · show (newValue &&& 0xffff#32).getLsbD n = false
    rw [BitVec.getLsbD_and, getLsbD_0xffff, decide_eq_false (by omega), Bool.and_false]
  · obtain ⟨n, hn, rfl⟩ := List.mem_map.1 hd
    obtain ⟨rfl, hdir⟩ := hpin n (List.mem_filter.1 hn).2
    exact ⟨decide_eq_true rfl, hdir, congrArg some ((hodr n hk).trans (if_pos rfl)).symm⟩

/-- The check of the clock only warns. -/
theorem Pulled.of_checked {clkEnabled : Bool} (h : Pulled P pull (checked clkEnabled g) g') :
    Pulled P pull g g' := by
  obtain ⟨w, hw⟩ := checked_eq clkEnabled g
  rw [hw] at h
  exact ⟨h.CRL, h.CRH, h.dirMask, h.inputs, h.inIrq, h.odr, h.high, h.calls⟩

/-- The write to `BRR` of a pulled-down input. -/
theorem write_BRR_pulled (clkEnabled : Bool) (g : Stm32Gpio) {k : ℕ} (hk : k < 16) :
    Returns (Gpio.write clkEnabled g 0x14 (BIT k))
      (Pulled (fun n => decide (n = k)) (some false) g) := by
  refine ⟨_, rfl, (triggerIrq_pulled hk fun n hn => ?_).of_checked⟩
  have h32 : n < 32 := by omega
  simp only [BitVec.getLsbD_and, BitVec.getLsbD_not, getLsbD_0xffff, BIT, getLsbD_bit, hn, h32,
    decide_true, Bool.true_and, Bool.and_true]
  by_cases hnk : n = k <;> simp [hnk, checked]

/-- The write to `BSRR` of a pulled-up input. -/
theorem write_BSRR_pulled (clkEnabled : Bool) (g : Stm32Gpio) {k : ℕ} (hk : k < 16) :
    Returns (Gpio.write clkEnabled g 0x10 (BIT k))
      (Pulled (fun n => decide (n = k)) (some true) g) := by
  refine ⟨_, rfl, (triggerIrq_pulled hk fun n hn => ?_).of_checked⟩
  have h16 : ¬16 + n = k := by omega
  have h32 : n < 32 := by omega
  simp only [BitVec.getLsbD_or, BitVec.getLsbD_and, BitVec.getLsbD_not, BitVec.getLsbD_ushiftRight,
    getLsbD_0xffff, BIT, getLsbD_bit, hn, h16, h32, decide_true, decide_false, Bool.false_and,
    Bool.not_false, Bool.and_true]
  by_cases hnk : n = k <;> simp [hnk, checked]

/-! ### The loop -/

variable {s s' : Ports} {port : Fin GPIO_COUNT}

/-- The value for a pin has four bits. -/
theorem currentmode_lt (init : GPIOInitTypeDef) :
    init.currentmode &&& 0xf#32 = init.currentmode := by
  obtain ⟨pin, speed, mode⟩ := init
  cases speed <;> cases mode <;> simp [GPIOInitTypeDef.currentmode, GPIOMode.val, GPIOSpeed.val]

/-- The register after the nibble of a pin was replaced. -/
theorem getLsbD_replace (init : GPIOInitTypeDef) (tmpreg : BitVec 32) (k : ℕ) {i : ℕ}
    (hi : i < 32) :
    (tmpreg &&& ~~~(0x0f#32 <<< (k * 4)) ||| init.currentmode <<< (k * 4)).getLsbD i =
      if i / 4 = k then init.currentmode.getLsbD (i % 4) else tmpreg.getLsbD i := by
  have hmask : ∀ j, (0x0f#32).getLsbD j = decide (j < 4) := getLsbD_lowMask (by decide : 4 ≤ 32)
  have hmode : ∀ j, ¬j < 4 → init.currentmode.getLsbD j = false := fun j hj => by
    rw [← currentmode_lt init, BitVec.getLsbD_and, hmask, decide_eq_false hj, Bool.and_false]
  simp only [BitVec.getLsbD_or, BitVec.getLsbD_and, BitVec.getLsbD_not, BitVec.getLsbD_shiftLeft,
    hmask, hi, decide_true, Bool.true_and]
  by_cases hk : i / 4 = k
  · have h₁ : ¬i < k * 4 := by omega
    have h₂ : i - k * 4 < 4 := by omega
    rw [if_pos hk, show i % 4 = i - k * 4 by omega]
    simp [h₁, h₂]
  · rw [if_neg hk]
    by_cases hlt : i < k * 4
    · simp [hlt]
    · have h₂ : ¬i - k * 4 < 4 := by omega
      simp [h₂, hmode _ h₂]

/-- The pin of a position is in the mask. -/
theorem currentpin_iff (pin : BitVec 16) {n : ℕ} (hn : n < 16) :
    pin.setWidth 32 &&& BIT n = BIT n ↔ pin.getLsbD n = true := by
  have hbit : (pin.setWidth 32).getLsbD n = pin.getLsbD n := by
    rw [BitVec.getLsbD_setWidth, decide_eq_true (by omega), Bool.true_and]
  constructor
  · intro h
    have h' := congrArg (fun v : BitVec 32 => v.getLsbD n) h
    simp only [BitVec.getLsbD_and, BIT, getLsbD_bit, hbit] at h'
    simpa [(by omega : n < 32)] using h'
  · intro h
    refine BitVec.eq_of_getLsbD_eq fun i hi => ?_
    rw [BitVec.getLsbD_and, BIT, getLsbD_bit]
    by_cases hin : i = n
    · simp [hin, h, hbit]
    · simp [hin]

/-- What the loop has done when it has seen the pins `P` of its half: `tmpreg` has their
nibbles, and the port has pulled them. -/
structure Looped (init : GPIOInitTypeDef) (port : Fin GPIO_COUNT) (base : ℕ) (P : ℕ → Bool)
    (st st' : BitVec 32 × Ports) : Prop where
  tmpreg : ∀ i < 32, st'.1.getLsbD i =
    if P (i / 4 + base) then init.currentmode.getLsbD (i % 4) else st.1.getLsbD i
  ports : OnPort port (Pulled P init.mode.pull) st.2 st'.2

/-- The loop has seen no pin. -/
theorem Looped.refl {base : ℕ} {st : BitVec 32 × Ports} (hP : ∀ n, P n = false) :
    Looped init port base P st st where
  tmpreg i _ := by rw [hP]; rfl
  ports := ⟨(Pulled.refl _ _).congr fun n => (hP n).symm, fun _ _ => rfl, rfl⟩

/-- The pins of the mask among the first positions of a half. -/
def seen (init : GPIOInitTypeDef) (base k n : ℕ) : Bool :=
  decide (base ≤ n) && decide (n < base + k) && init.pin.getLsbD n

/-- A pin of the other half. -/
theorem seen_of_not_mem {base k n : ℕ} (h : n ∉ List.range' base k) :
    seen init base k n = false := by
  rw [List.mem_range'_1] at h
  rw [seen, ← Bool.decide_and, decide_eq_false h, Bool.false_and]

/-- **One turn.** -/
theorem gpioInitPin_returns (init : GPIOInitTypeDef) (port : Fin GPIO_COUNT) {base k : ℕ}
    (hk : k + base < 16) (st : BitVec 32 × Ports) : Returns (gpioInitPin init port base st k)
      (Looped init port base (fun n => decide (n = k + base) && init.pin.getLsbD n) st) := by
  obtain ⟨tmpreg, s⟩ := st
  have hreg : ∀ t : Ports, init.pin.getLsbD (k + base) = true →
      OnPort port (Pulled (fun n => decide (n = k + base)) init.mode.pull) s t →
      Looped init port base (fun n => decide (n = k + base) && init.pin.getLsbD n) (tmpreg, s)
        (tmpreg &&& ~~~(0x0f#32 <<< (k * 4)) ||| init.currentmode <<< (k * 4), t) := by
    intro t hpin ht
    refine ⟨fun i hi => ?_, ht.here.congr fun n => ?_, ht.others, ht.rcc⟩
    · rw [getLsbD_replace init tmpreg k hi]
      by_cases hik : i / 4 = k
      · simp [hik, hpin]
      · simp [hik]
    · by_cases hn : n = k + base
      · simp [hn, hpin]
      · simp [hn]
  unfold gpioInitPin
  dsimp only
  show Returns (if init.pin.setWidth 32 &&& BIT (k + base) = BIT (k + base) then _ else _) _
  by_cases hpin : init.pin.getLsbD (k + base) = true
  · rw [if_pos ((currentpin_iff init.pin hk).2 hpin)]
    split_ifs with hIPD hIPU
    · refine Returns.bind (write_returns (write_BRR_pulled _ _ hk)) fun t ht =>
        .pure (hreg t hpin ?_)
      rw [hIPD]
      exact ht
    · refine Returns.bind (write_returns (write_BSRR_pulled _ _ hk)) fun t ht =>
        .pure (hreg t hpin ?_)
      rw [hIPU]
      exact ht
    · have hpull : init.mode.pull = none := by
        cases hm : init.mode <;> simp_all [GPIOMode.pull]
      refine .pure (hreg s hpin ⟨?_, fun _ _ => rfl, rfl⟩)
      rw [hpull]
      have hrefl := Pulled.refl none (s.gpio port)
      refine ⟨rfl, rfl, rfl, rfl, rfl, fun n _ => ?_, hrefl.high, [], by simp, by simp⟩
      split_ifs <;> rfl
  · rw [if_neg fun h => hpin ((currentpin_iff init.pin hk).1 h)]
    have hnone : ∀ n, (decide (n = k + base) && init.pin.getLsbD n) = false := fun n => by
      by_cases hn : n = k + base
      · simp [hn, hpin]
      · simp [hn]
    exact .pure (Looped.refl hnone)

/-- The loop has seen some pins, and then others. -/
theorem Looped.trans {base : ℕ} {st st' st'' : BitVec 32 × Ports}
    (h : Looped init port base P st st') (h' : Looped init port base Q st' st'') :
    Looped init port base (fun n => P n || Q n) st st'' where
  tmpreg i hi := by
    rw [h'.tmpreg i hi, h.tmpreg i hi]
    cases P (i / 4 + base) <;> cases Q (i / 4 + base) <;> rfl
  ports := ⟨h.ports.here.trans h'.ports.here,
    fun p hp => (h'.ports.others p hp).trans (h.ports.others p hp),
    h'.ports.rcc.trans h.ports.rcc⟩

/-- **All turns.** -/
theorem foldlM_gpioInitPin_returns (init : GPIOInitTypeDef) (port : Fin GPIO_COUNT) {base k : ℕ}
    (hk : k + base ≤ 16) (st : BitVec 32 × Ports) :
    Returns ((List.range k).foldlM (gpioInitPin init port base) st)
      (Looped init port base (seen init base k) st) := by
  induction k with
  | zero =>
    have hnone : ∀ n, seen init base 0 n = false := fun n => by
      have hn : ¬(base ≤ n ∧ n < base + 0) := by omega
      rw [seen, ← Bool.decide_and, decide_eq_false hn, Bool.false_and]
    exact .pure (Looped.refl hnone)
  | succ k ih =>
    rw [List.range_succ, List.foldlM_append]
    refine (ih (by omega)).bind fun st' h' => ?_
    rw [List.foldlM_cons]
    refine (gpioInitPin_returns init port (by omega) st').bind fun st'' h'' => .pure ?_
    have hseen : seen init base (k + 1) =
        fun n => seen init base k n || (decide (n = k + base) && init.pin.getLsbD n) := by
      funext n
      simp only [seen]
      rcases Nat.lt_trichotomy n (k + base) with hn | hn | hn
      · have h₁ : n < base + (k + 1) := by omega
        have h₂ : n < base + k := by omega
        have h₃ : ¬n = k + base := by omega
        simp [h₁, h₂, h₃]
      · have h₁ : base ≤ n ∧ n < base + (k + 1) := by omega
        have h₂ : ¬n < base + k := by omega
        rw [decide_eq_true h₁.1, decide_eq_true h₁.2, decide_eq_false h₂, decide_eq_true hn]
        rfl
      · have h₁ : ¬n < base + (k + 1) := by omega
        have h₂ : ¬n < base + k := by omega
        have h₃ : ¬n = k + base := by omega
        simp [h₁, h₂, h₃]
    rw [hseen]
    exact h'.trans h''

end Hal
end Especial
