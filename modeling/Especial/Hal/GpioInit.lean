/-
# `GPIO_Init`, for any set of pins

`Sets` says what `GPIO_Init` does to a port, pin by pin.  One half of the function is
`gpioInitHalf_returns`, the whole function `gpioInit_sets`.  After any sequence of calls each
pin is as the last call that covers it has left it (`gpioInit_sequence`).
-/

import Especial.Hal.GpioInitLoop

namespace Especial
namespace Hal

open Qemu Stm32 Lib Gpio Afio Rcc

variable {init : GPIOInitTypeDef} {g g' g'' : Stm32Gpio} {P Q : ℕ → Bool}
variable {s s' : Ports} {port : Fin GPIO_COUNT}

/-! ### The port -/

/-- The pins `P` of a port are configured: each has its nibble and its pulled bit, every
other pin keeps both, and the inputs and the lines to the EXTI are not touched. -/
structure Sets (init : GPIOInitTypeDef) (P : ℕ → Bool) (g g' : Stm32Gpio) : Prop where
  /-- the directions are computed again from the mode bits, for these pins and maybe others -/
  dir : ∀ n < 16, g'.dirMask.getLsbD n = decide (getModeBits g' n ≠ 0#8) ∨
    P n = false ∧ g'.dirMask.getLsbD n = g.dirMask.getLsbD n
  high : ∀ n, 16 ≤ n → g.ODR.getLsbD n = false → g'.ODR.getLsbD n = false
  config : ∀ n < 16, getPinConfig g' n =
    if P n then nibbleOf init.currentmode else getPinConfig g n
  odr : ∀ n < 16, g'.ODR.getLsbD n =
    if P n then init.mode.pull.getD (g.ODR.getLsbD n) else g.ODR.getLsbD n
  inputs : g'.inputs = g.inputs
  inIrq : g'.inIrq = g.inIrq
  calls : ∃ calls, g'.outIrq = g.outIrq ++ calls ∧ ∀ d ∈ calls, P d.1 = true ∧
    (PortOk g → g.dirMask.getLsbD d.1 = true) ∧ init.mode.pull = some d.2

/-- The directions follow the mode bits if they did before. -/
theorem Sets.ok (h : Sets init P g g') (hok : PortOk g) : PortOk g' where
  dir n hn := by
    rcases h.dir n hn with hdir | ⟨hP, hdir⟩
    · exact hdir
    · rw [hdir, hok.dir n hn, getModeBits, getModeBits, h.config n hn, hP]
      rfl
  odr n hn := h.high n hn (hok.odr n hn)

/-- No pin is configured. -/
theorem Sets.refl (init : GPIOInitTypeDef) (hP : ∀ n < 16, P n = false) : Sets init P g g where
  dir n hn := .inr ⟨hP n hn, rfl⟩
  high _ _ h := h
  config n hn := by rw [hP n hn]; rfl
  odr n hn := by rw [hP n hn]; rfl
  inputs := rfl
  inIrq := rfl
  calls := ⟨[], by simp, by simp⟩

/-- The configuration of a pin after its register was written. -/
theorem getPinConfig_half {base : ℕ} {tmpreg : BitVec 32} {g₁ : Stm32Gpio}
    (hbase : base = 0 ∧ g₁.CRL = tmpreg ∧ g₁.CRH = g.CRH ∨
      base = 8 ∧ g₁.CRH = tmpreg ∧ g₁.CRL = g.CRL)
    (hreg : ∀ i < 32, tmpreg.getLsbD i = if seen init base 8 (i / 4 + base) then
      init.currentmode.getLsbD (i % 4) else (if base = 0 then g.CRL else g.CRH).getLsbD i) :
    ∀ n < 16, getPinConfig g₁ n =
      if seen init base 8 n then nibbleOf init.currentmode else getPinConfig g n := by
  intro n hn
  refine BitVec.eq_of_getLsbD_eq fun i _ => ?_
  rw [getLsbD_getPinConfig, apply_ite (fun v : BitVec 8 => v.getLsbD i), getLsbD_nibbleOf,
    getLsbD_getPinConfig]
  by_cases hi : i < 4
  · rw [decide_eq_true hi, Bool.true_and, Bool.true_and, Bool.true_and]
    rcases hbase with ⟨rfl, hCRL, hCRH⟩ | ⟨rfl, hCRH, hCRL⟩
    · by_cases h8 : n < 8
      · rw [if_pos h8, if_pos h8, hCRL, hreg _ (by omega), show (4 * n + i) / 4 + 0 = n by omega,
          show (4 * n + i) % 4 = i by omega]
        rfl
      · have hseen : seen init 0 8 n = false := by
          rw [seen, decide_eq_false (by omega : ¬n < 0 + 8), Bool.and_false, Bool.false_and]
        rw [if_neg h8, if_neg h8, hCRH, hseen]
        rfl
    · by_cases h8 : n < 8
      · have hseen : seen init 8 8 n = false := by
          rw [seen, decide_eq_false (by omega : ¬8 ≤ n), Bool.false_and, Bool.false_and]
        rw [if_pos h8, if_pos h8, hCRL, hseen]
        rfl
      · rw [if_neg h8, if_neg h8, hCRH, hreg _ (by omega),
          show (4 * n + i - 32) / 4 + 8 = n by omega, show (4 * n + i - 32) % 4 = i by omega]
        rfl
  · simp [hi]

/-- **One half of `GPIO_Init`.** -/
theorem gpioInitHalf_returns (init : GPIOInitTypeDef) {offset base : ℕ}
    (hbase : offset = 0x00 ∧ base = 0 ∨ offset = 0x04 ∧ base = 8) :
    Returns (gpioInitHalf init port offset base s)
      (OnPort port (Sets init (seen init base 8)) s) := by
  have hread : s.read port offset =
      .ok (if base = 0 then (s.gpio port).CRL else (s.gpio port).CRH, s) := by
    rcases hbase with ⟨rfl, rfl⟩ | ⟨rfl, rfl⟩
    · exact read_CRL s port
    · exact read_CRH s port
  unfold gpioInitHalf
  rw [hread, ok_bind]
  refine (foldlM_gpioInitPin_returns init port (by omega : 8 + base ≤ 16) _).bind
    fun st hloop => ?_
  obtain ⟨tmpreg, u⟩ := st
  obtain ⟨hreg, hpulled, hothers, hrcc⟩ := hloop
  -- the write of the register
  have hwrite : Returns (Gpio.write (u.clkEnabled port) (u.gpio port) offset tmpreg) fun g' =>
      Sets init (seen init base 8) (s.gpio port) g' := by
    have hgo : ∀ g₁ : Stm32Gpio, ∀ half, half = 0 ∨ half = 1 → base = half * 8 →
        (base = 0 ∧ g₁.CRL = tmpreg ∧ g₁.CRH = (s.gpio port).CRH ∨
          base = 8 ∧ g₁.CRH = tmpreg ∧ g₁.CRL = (s.gpio port).CRL) →
        g₁.ODR = (u.gpio port).ODR → g₁.inputs = (u.gpio port).inputs →
        g₁.inIrq = (u.gpio port).inIrq → g₁.outIrq = (u.gpio port).outIrq →
        g₁.dirMask = (u.gpio port).dirMask →
        Gpio.write (u.clkEnabled port) (u.gpio port) offset tmpreg = updateDir g₁ half →
        Returns (Gpio.write (u.clkEnabled port) (u.gpio port) offset tmpreg) fun g' =>
          Sets init (seen init base 8) (s.gpio port) g' := by
      intro g₁ half hhalf hbase hregs hodr hinputs hinIrq houtIrq hdir heq
      obtain ⟨g', hg', dirMask, rfl, hmask⟩ := updateDir_returns hhalf g₁
      refine ⟨_, heq.trans hg', fun n _ => ?_, fun n hn h => ?_, ?_, fun n hn => ?_,
        hinputs.trans hpulled.inputs, hinIrq.trans hpulled.inIrq, ?_⟩
      · show dirMask.getLsbD n = decide (getModeBits g₁ n ≠ 0#8) ∨
          _ ∧ dirMask.getLsbD n = (s.gpio port).dirMask.getLsbD n
        rw [hmask, hdir]
        by_cases hn : n ∈ List.range' (half * 8) 8
        · exact .inl (if_pos hn)
        · exact .inr ⟨seen_of_not_mem (hbase ▸ hn), (if_neg hn).trans
            (congrArg (fun mask : BitVec 16 => mask.getLsbD n) hpulled.dirMask)⟩
      · show g₁.ODR.getLsbD n = false
        rw [hodr]
        exact hpulled.high n hn h
      · exact (getPinConfig_half hregs hreg :
          ∀ n < 16, getPinConfig { g₁ with dirMask := dirMask } n = _)
      · show g₁.ODR.getLsbD n = _
        rw [hodr]
        exact hpulled.odr n hn
      · obtain ⟨calls, hcalls, hmem⟩ := hpulled.calls
        exact ⟨calls, houtIrq.trans hcalls, fun d hd =>
          ⟨(hmem d hd).1, fun _ => (hmem d hd).2.1, (hmem d hd).2.2⟩⟩
    obtain ⟨w, hw⟩ := checked_eq (u.clkEnabled port) (u.gpio port)
    rcases hbase with ⟨rfl, rfl⟩ | ⟨rfl, rfl⟩
    · refine hgo { u.gpio port with warnings := w, CRL := tmpreg } 0 (Or.inl rfl) rfl
        (Or.inl ⟨rfl, rfl, hpulled.CRH⟩) rfl rfl rfl rfl rfl ?_
      show updateDir { checked (u.clkEnabled port) (u.gpio port) with CRL := tmpreg } 0 = _
      rw [hw]
    · refine hgo { u.gpio port with warnings := w, CRH := tmpreg } 1 (Or.inr rfl) rfl
        (Or.inr ⟨rfl, rfl, hpulled.CRL⟩) rfl rfl rfl rfl rfl ?_
      show updateDir { checked (u.clkEnabled port) (u.gpio port) with CRH := tmpreg } 1 = _
      rw [hw]
  have hport : Returns (u.write port offset tmpreg)
      (OnPort port (fun _ g' => Sets init (seen init base 8) (s.gpio port) g') u) :=
      write_returns hwrite
  exact hport.mono fun t ht => ⟨ht.here, fun p hp => (ht.others p hp).trans (hothers p hp),
    ht.rcc.trans hrcc⟩

/-- The direction of a pin follows from its nibble. -/
theorem PortOk.dirMask_eq (hok : PortOk g) (hok' : PortOk g') {n : ℕ}
    (h : getPinConfig g' n = getPinConfig g n) : g'.dirMask.getLsbD n = g.dirMask.getLsbD n := by
  by_cases hn : n < 16
  · rw [hok'.dir n hn, hok.dir n hn, getModeBits, getModeBits, h]
  · rw [BitVec.getLsbD_of_ge _ _ (by omega), BitVec.getLsbD_of_ge _ _ (by omega)]

/-- The two halves have no pin in common. -/
theorem Sets.trans (h : Sets init P g g') (h' : Sets init Q g' g'')
    (hdis : ∀ n, Q n = true → P n = false) : Sets init (fun n => P n || Q n) g g'' where
  dir n hn := by
    rcases h'.dir n hn with hdir | ⟨hQ, hdir⟩
    · exact .inl hdir
    · have hmode : getModeBits g'' n = getModeBits g' n := by
        rw [getModeBits, getModeBits, h'.config n hn, hQ]
        rfl
      rw [hdir, hmode, hQ, Bool.or_false]
      exact h.dir n hn
  high n hn hg := h'.high n hn (h.high n hn hg)
  config n hn := by
    rw [h'.config n hn, h.config n hn]
    cases P n <;> cases Q n <;> rfl
  odr n hn := by
    rw [h'.odr n hn, h.odr n hn]
    cases P n <;> cases Q n <;> cases init.mode.pull <;> rfl
  inputs := h'.inputs.trans h.inputs
  inIrq := h'.inIrq.trans h.inIrq
  calls := by
    obtain ⟨calls, hcalls, hmem⟩ := h.calls
    obtain ⟨calls', hcalls', hmem'⟩ := h'.calls
    refine ⟨calls ++ calls', by rw [hcalls', hcalls, List.append_assoc], fun d hd => ?_⟩
    rcases List.mem_append.1 hd with hd | hd
    · obtain ⟨hP, hdir, hpull⟩ := hmem d hd
      exact ⟨by simp [hP], hdir, hpull⟩
    · obtain ⟨hQ, hdir, hpull⟩ := hmem' d hd
      refine ⟨by simp [hQ], fun hok => ?_, hpull⟩
      have hdir := hdir (h.ok hok)
      by_cases h16 : d.1 < 16
      · have hconfig := h.config d.1 h16
        rw [hdis d.1 hQ] at hconfig
        rw [← PortOk.dirMask_eq hok (h.ok hok) hconfig]
        exact hdir
      · rw [BitVec.getLsbD_of_ge _ _ (by omega)] at hdir
        exact absurd hdir (by decide)

/-- No pin of the lower half is in the mask. -/
theorem seen_low (h : init.pin.setWidth 32 &&& 0x00ff#32 = 0#32) (n : ℕ) :
    seen init 0 8 n = false := by
  by_cases hn : n < 8
  · have hbit := congrArg (fun v : BitVec 32 => v.getLsbD n) h
    have hmask : (0x00ff#32).getLsbD n = decide (n < 8) := getLsbD_lowMask (by decide : 8 ≤ 32) n
    simp only [BitVec.getLsbD_and, hmask, BitVec.getLsbD_setWidth, hn, (by omega : n < 32),
      decide_true, Bool.true_and, Bool.and_true, BitVec.getLsbD_zero] at hbit
    rw [seen, hbit, Bool.and_false]
  · rw [seen, decide_eq_false (by omega : ¬n < 0 + 8), Bool.and_false, Bool.false_and]

/-- No pin of the upper half is in the mask. -/
theorem seen_high (h : ¬init.pin > 0x00ff#16) (n : ℕ) : seen init 8 8 n = false := by
  by_cases hn : 8 ≤ n
  · have hle : init.pin.toNat < 2 ^ 8 := by
      have hle : init.pin.toNat ≤ 255 := BitVec.not_lt.1 h
      omega
    have hbit : init.pin.getLsbD n = false :=
      Nat.testBit_lt_two_pow (hle.trans_le (Nat.pow_le_pow_right (by decide) hn))
    rw [seen, hbit, Bool.and_false]
  · rw [seen, decide_eq_false hn, Bool.false_and, Bool.false_and]

/-- The two halves make up the mask. -/
theorem seen_halves (init : GPIOInitTypeDef) (n : ℕ) :
    (seen init 0 8 n || seen init 8 8 n) = init.pin.getLsbD n := by
  by_cases h8 : n < 8
  · have h₁ : ¬8 ≤ n := by omega
    simp [seen, h8, h₁]
  · by_cases h16 : n < 16
    · have h₁ : 8 ≤ n := by omega
      simp [seen, h8, h16, h₁]
    · rw [BitVec.getLsbD_of_ge _ _ (by omega), seen, seen, BitVec.getLsbD_of_ge _ _ (by omega)]
      simp

/-- The upper half, after the lower one. -/
theorem gpioInit_high {t : Ports} (ht : OnPort port (Sets init (seen init 0 8)) s t) :
    Returns (if init.pin > 0x00ff#16 then gpioInitHalf init port 0x04 8 t else pure t)
      (OnPort port (Sets init init.pin.getLsbD) s) := by
  have hhigh : Returns (if init.pin > 0x00ff#16 then gpioInitHalf init port 0x04 8 t else pure t)
      (OnPort port (Sets init (seen init 8 8)) t) := by
    by_cases h : init.pin > 0x00ff#16
    · rw [if_pos h]
      exact gpioInitHalf_returns init (Or.inr ⟨rfl, rfl⟩)
    · rw [if_neg h]
      exact .pure ⟨Sets.refl init fun n _ => seen_high h n, fun _ _ => rfl, rfl⟩
  refine hhigh.mono fun u hu => ⟨?_, fun p hp => (hu.others p hp).trans (ht.others p hp),
    hu.rcc.trans ht.rcc⟩
  have hmask : init.pin.getLsbD = fun n => seen init 0 8 n || seen init 8 8 n :=
    funext fun n => (seen_halves init n).symm
  rw [hmask]
  refine ht.here.trans hu.here fun n hn => ?_
  have h8 : 8 ≤ n := by
    by_contra h8
    rw [seen, decide_eq_false h8] at hn
    simp at hn
  rw [seen, decide_eq_false (by omega : ¬n < 0 + 8), Bool.and_false, Bool.false_and]

/-- **`GPIO_Init`** configures the pins of the mask and no other. -/
theorem gpioInit_sets (init : GPIOInitTypeDef) :
    Returns (gpioInit s port init) (OnPort port (Sets init init.pin.getLsbD) s) := by
  unfold gpioInit
  dsimp only
  by_cases hlow : init.pin.setWidth 32 &&& 0x00ff#32 = 0#32
  · rw [if_neg (not_not.2 hlow), pure_bind]
    exact gpioInit_high ⟨Sets.refl init fun n _ => seen_low hlow n, fun _ _ => rfl, rfl⟩
  · rw [if_pos hlow]
    exact (gpioInitHalf_returns init (Or.inl ⟨rfl, rfl⟩)).bind fun t ht => gpioInit_high ht

/-! ### One output -/

/-- A pin that is configured as an output is one. -/
theorem Sets.output (h : Sets init P g g')
    (hmode : nibbleOf init.currentmode &&& 0x3#8 ≠ 0#8) {n : ℕ}
    (hn : n < 16) (hP : P n = true) : IsOutput g' n := by
  have hbits : getModeBits g' n ≠ 0#8 := by
    rw [getModeBits, h.config n hn, if_pos hP]
    exact hmode
  refine ⟨hbits, ?_⟩
  rcases h.dir n hn with hdir | ⟨hnot, -⟩
  · rw [hdir]
    exact decide_eq_true hbits
  · exact absurd (hnot.symm.trans hP) Bool.false_ne_true

/-- Only pin `n` is configured, and not pulled. -/
theorem Sets.touches (h : Sets init P g g') (hpull : init.mode.pull = none) {n : ℕ}
    (hP : ∀ m < 16, m ≠ n → P m = false) : Touches n g g' [] where
  config m hm hmn := by rw [h.config m hm, hP m hm hmn]; rfl
  odr m hm hmn := by rw [h.odr m hm, hP m hm hmn]; rfl
  output m hm hmn ho := by
    have hbits : getModeBits g' m ≠ 0#8 := by
      rw [getModeBits, h.config m hm, hP m hm hmn]
      exact ho.mode
    refine ⟨hbits, ?_⟩
    rcases h.dir m hm with hdir | ⟨-, hdir⟩
    · rw [hdir]
      exact decide_eq_true hbits
    · rw [hdir]
      exact ho.dir
  outIrq := by
    obtain ⟨calls, hcalls, hmem⟩ := h.calls
    have hnone : calls = [] := List.eq_nil_iff_forall_not_mem.2 fun d hd =>
      absurd (hpull.symm.trans (hmem d hd).2.2) (by simp)
    rw [hcalls, hnone]
  line _ hd := absurd hd List.not_mem_nil

/-- **`GPIO_Init`** as `DigitalOutput::initialize` calls it makes one pin an output. -/
theorem gpioInit_output (s : Ports) (port : Fin GPIO_COUNT) {n : ℕ} (hn : n < 16) :
    Returns (gpioInit s port (outputPin n))
      (OnPort port (fun g g' => Touches n g g' [] ∧ IsOutput g' n) s) := by
  have hbit : ∀ m < 16, ((BIT n).setWidth 16).getLsbD m = decide (m = n) := fun m hm => by
    rw [BitVec.getLsbD_setWidth, BIT, getLsbD_bit]
    simp [hm, eq_comm (a := m), show m < 32 by omega]
  refine (gpioInit_sets (outputPin n)).mono fun t ht => ⟨⟨?_, ?_⟩, ht.others, ht.rcc⟩
  · exact ht.here.touches rfl fun m hm hmn => (hbit m hm).trans (decide_eq_false hmn)
  · have hmode : nibbleOf (outputPin 0).currentmode &&& 0x3#8 ≠ 0#8 := by decide
    exact ht.here.output hmode hn ((hbit n hn).trans (decide_eq_true rfl))

/-! ### Sequences of calls -/

/-- A call of `GPIO_Init`, for a port. -/
abbrev InitCall := Fin GPIO_COUNT × GPIOInitTypeDef

/-- The call is for this pin. -/
def InitCall.covers (p : Fin GPIO_COUNT) (n : ℕ) (c : InitCall) : Bool :=
  c.1 = p && c.2.pin.getLsbD n

/-- The last call for a pin. -/
def lastInit (calls : List InitCall) (p : Fin GPIO_COUNT) (n : ℕ) : Option InitCall :=
  (calls.filter (InitCall.covers p n)).getLast?

/-- The level of the last call for a pin that pulls it. -/
def lastPull (calls : List InitCall) (p : Fin GPIO_COUNT) (n : ℕ) : Option Bool :=
  ((calls.filter (InitCall.covers p n)).filterMap fun c => c.2.mode.pull).getLast?

/-- One more call is the last one for the pins that it covers. -/
theorem lastInit_snoc (calls : List InitCall) (c : InitCall) (p : Fin GPIO_COUNT) (n : ℕ) :
    lastInit (calls ++ [c]) p n = if c.covers p n then some c else lastInit calls p n := by
  unfold lastInit
  rw [List.filter_append, List.filter_singleton]
  cases c.covers p n <;> simp

/-- One more call pulls the pins that it covers, if its mode does. -/
theorem lastPull_snoc (calls : List InitCall) (c : InitCall) (p : Fin GPIO_COUNT) (n : ℕ) :
    lastPull (calls ++ [c]) p n =
      if c.covers p n then c.2.mode.pull.or (lastPull calls p n) else lastPull calls p n := by
  unfold lastPull
  rw [List.filter_append, List.filter_singleton, List.filterMap_append]
  cases c.covers p n with
  | false => simp
  | true => cases h : c.2.mode.pull <;> simp [h]

/-- What a sequence of calls has done to the ports. -/
structure Configured (calls : List InitCall) (s₀ s : Ports) : Prop where
  ok : ∀ p, PortOk (s.gpio p)
  config : ∀ p, ∀ n < 16, getPinConfig (s.gpio p) n =
    match lastInit calls p n with
    | some c => nibbleOf c.2.currentmode
    | none => getPinConfig (s₀.gpio p) n
  odr : ∀ p, ∀ n < 16, (s.gpio p).ODR.getLsbD n =
    (lastPull calls p n).getD ((s₀.gpio p).ODR.getLsbD n)
  inputs : ∀ p, (s.gpio p).inputs = (s₀.gpio p).inputs
  rcc : s.rcc = s₀.rcc

/-- **One more call.** -/
theorem Configured.snoc {calls : List InitCall} {c : InitCall} {s₀ s t : Ports}
    (h : Configured calls s₀ s) (hset : OnPort c.1 (Sets c.2 c.2.pin.getLsbD) s t) :
    Configured (calls ++ [c]) s₀ t := by
  have hother : ∀ p, p ≠ c.1 → ∀ n, c.covers p n = false := fun p hp n => by
    rw [InitCall.covers, decide_eq_false (Ne.symm hp), Bool.false_and]
  have hhere : ∀ n, c.covers c.1 n = c.2.pin.getLsbD n := fun n => by
    rw [InitCall.covers, decide_eq_true rfl, Bool.true_and]
  refine ⟨fun p => ?_, fun p n hn => ?_, fun p n hn => ?_, fun p => ?_, hset.rcc.trans h.rcc⟩
  · by_cases hp : p = c.1
    · rw [hp]
      exact hset.here.ok (h.ok c.1)
    · rw [hset.others p hp]
      exact h.ok p
  · rw [lastInit_snoc]
    by_cases hp : p = c.1
    · subst hp
      rw [hhere, hset.here.config n hn, h.config c.1 n hn]
      cases c.2.pin.getLsbD n <;> rfl
    · rw [hother p hp, hset.others p hp]
      exact h.config p n hn
  · rw [lastPull_snoc]
    by_cases hp : p = c.1
    · subst hp
      rw [hhere, hset.here.odr n hn, h.odr c.1 n hn]
      cases c.2.pin.getLsbD n <;> cases c.2.mode.pull <;> rfl
    · rw [hother p hp, hset.others p hp]
      exact h.odr p n hn
  · by_cases hp : p = c.1
    · rw [hp, hset.here.inputs]
      exact h.inputs c.1
    · rw [hset.others p hp]
      exact h.inputs p

/-- **Any sequence of calls of `GPIO_Init`**, for any ports, masks, modes and speeds, from any
reachable ports, returns.  After it each pin has the configuration of the last call that
names it and the output bit of the last one that pulls it; where there is none they are as
before.  The direction follows the mode bits, and nothing happens to the inputs and to the
clocks. -/
theorem gpioInit_sequence (s₀ : Ports)
    (hports : ∀ p, ∃ l, Run PortStep (.alloc (portPeriph p)) l (s₀.gpio p))
    (calls : List InitCall) :
    ∃ s, calls.foldlM (fun s c => gpioInit s c.1 c.2) s₀ = .ok s ∧
      (∀ p, ∀ n < 16, getPinConfig (s.gpio p) n =
        match lastInit calls p n with
        | some c => nibbleOf c.2.currentmode
        | none => getPinConfig (s₀.gpio p) n) ∧
      (∀ p, ∀ n < 16, (s.gpio p).ODR.getLsbD n =
        (lastPull calls p n).getD ((s₀.gpio p).ODR.getLsbD n)) ∧
      (∀ p, ∀ n < 16,
        (s.gpio p).dirMask.getLsbD n = decide (getModeBits (s.gpio p) n ≠ 0#8)) ∧
      (∀ p, (s.gpio p).inputs = (s₀.gpio p).inputs) ∧ s.rcc = s₀.rcc := by
  have h : Returns (calls.foldlM (fun s c => gpioInit s c.1 c.2) s₀) (Configured calls s₀) := by
    induction calls using List.reverseRecOn with
    | nil =>
      refine .pure ⟨fun p => ?_, fun _ _ _ => rfl, fun _ _ _ => rfl, fun _ => rfl, rfl⟩
      obtain ⟨l, hl⟩ := hports p
      exact Gpio.run_ok hl
    | append_singleton calls c ih =>
      rw [List.foldlM_append]
      refine ih.bind fun s hs => ?_
      rw [List.foldlM_cons]
      exact (gpioInit_sets c.2).bind fun t ht => .pure (hs.snoc ht)
  obtain ⟨s, hs, hok, hconfig, hodr, hinputs, hrcc⟩ := h
  exact ⟨s, hs, hconfig, hodr, fun p => (hok p).dir, hinputs, hrcc⟩

/-- `PA.0` and `PA.13` are pulled up; then `PA.13` becomes an output. -/
def pullAndDrive : List InitCall :=
  [((0 : Fin 7), ⟨0x2001#16, .speed50MHz, .IPU⟩),
    ((0 : Fin 7), ⟨0x2000#16, .speed50MHz, .Out_PP⟩)]

/-- `PA.13` keeps the output bit of its pull. -/
theorem gpioInit_sequence_pulled : ∃ rcc s, Rcc.init = .ok rcc ∧
    pullAndDrive.foldlM (fun s c => gpioInit s c.1 c.2)
      ⟨rcc, fun p => .alloc (portPeriph p)⟩ = .ok s ∧
    getPinConfig (s.gpio (0 : Fin 7)) 0 = 0x8#8 ∧ getPinConfig (s.gpio (0 : Fin 7)) 13 = 0x3#8 ∧
    (s.gpio (0 : Fin 7)).ODR.getLsbD 13 = true := by
  obtain ⟨rcc, -, hinit, -⟩ := exists_reset
  obtain ⟨s, hs, hconfig, hodr, -, -, -⟩ :=
    gpioInit_sequence ⟨rcc, fun p => .alloc (portPeriph p)⟩
    (fun p => ⟨[], .nil _⟩) pullAndDrive
  exact ⟨rcc, s, hinit, hs, (hconfig (0 : Fin 7) 0 (by decide)).trans rfl,
    (hconfig (0 : Fin 7) 13 (by decide)).trans rfl, (hodr (0 : Fin 7) 13 (by decide)).trans rfl⟩

end Hal
end Especial
