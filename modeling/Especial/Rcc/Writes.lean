/-
# What a write to an RCC register does to the settings

One lemma per register: the write returns, and the settings and the register copies
afterwards are functions of those before and of the value (`writew_has`).  Only
`CFGR` can stop the emulator, when its `SW` field is `3`.

After a reset the settings that `CFGR` controls are those of its fields
(`Coherent`), whatever is written later (`run_coherent`).
-/

import Especial.Rcc.Config
import Especial.Lib.Returns
import Especial.Lib.Run

namespace Especial
namespace Rcc

open Qemu Stm32 Clktree Lib

variable {c : Cfg} {r s s' : Stm32Rcc} {v : BitVec 32}

/-- `stm32_rcc_RCC_CR_write`. -/
theorem crWrite_has (h : Has c r s) : Returns (crWrite s v)
    (Has { c with pll := v.getLsbD 24, hse := v.getLsbD 16, hsi := v.getLsbD 0 } r) := by
  unfold crWrite
  refine Returns.bind ((h.warnIf _ _).setEnabled (k := { c with pll := v.getLsbD 24 })
    (by decide) rfl) fun s₁ h₁ => ?_
  refine Returns.bind ((h₁.warnIf _ _).setEnabled
    (k := { c with pll := v.getLsbD 24, hse := v.getLsbD 16 }) (by decide) rfl) fun s₂ h₂ => ?_
  exact (h₂.warnIf _ _).setEnabled (by decide) rfl

/-- `stm32_rcc_RCC_BDCR_write`. -/
theorem bdcrWrite_has (h : Has c r s) :
    Returns (bdcrWrite s v) (Has { c with lse := v.getLsbD 0 } r) :=
  h.setEnabled (by decide) rfl

/-- `stm32_rcc_RCC_CSR_write`. -/
theorem csrWrite_has (h : Has c r s) :
    Returns (csrWrite s v) (Has { c with lsi := v.getLsbD 0 } r) :=
  h.setEnabled (by decide) rfl

/-! ### Peripheral clocks -/

/-- The gates after a list of `stm32_rcc_periph_enable` calls. -/
def gates (v : BitVec 32) (l : List (Periph × ℕ)) (f : Periph → Bool) : Periph → Bool :=
  l.foldl (fun f pb => Function.update f pb.1 (v.getLsbD pb.2)) f

/-- The gate of a peripheral in the graph. -/
theorem graph_setEnabled_periph (c : Cfg) (p : Periph) (on : Bool) :
    c.graph.exec (.setEnabled (PERIPHCLK p) on) =
      { c with periph := Function.update c.periph p on }.graph := by
  cases p <;> rfl

/-- The gates are set one after another. -/
theorem periphEnable_has (h : Has c r s) (l : List (Periph × ℕ)) :
    Returns (periphEnable s v l) (Has { c with periph := gates v l c.periph } r) := by
  induction l generalizing c s with
  | nil => exact ⟨s, rfl, h⟩
  | cons pb l ih =>
    unfold periphEnable
    rw [List.foldlM_cons]
    exact Returns.bind (h.setEnabled (periphclk_lt pb.1) (graph_setEnabled_periph c pb.1 _))
      fun s₁ h₁ => ih h₁

/-- `stm32_rcc_RCC_APB2ENR_write`. -/
theorem apb2enrWrite_has (h : Has c r s) : Returns (apb2enrWrite s v)
    (Has { c with periph := gates v apb2Bits c.periph } { r with APB2ENR := v &&& 0xfffd#32 }) :=
  Returns.bind (periphEnable_has h apb2Bits) fun _ h₁ =>
    Returns.pure ⟨h₁.tree, by rw [← h₁.regs]; rfl⟩

/-- `stm32_rcc_RCC_APB2RSTR_write`. -/
theorem apb2rstrWrite_has (h : Has c r s) : Returns (apb2rstrWrite s v)
    (Has { c with periph := gates v apb2Bits c.periph } { r with APB2RSTR := v &&& 0xfffd#32 }) :=
  Returns.bind (periphEnable_has h apb2Bits) fun _ h₁ =>
    Returns.pure ⟨h₁.tree, by rw [← h₁.regs]; rfl⟩

/-- `stm32_rcc_RCC_APB1ENR_write`. -/
theorem apb1enrWrite_has (h : Has c r s) : Returns (apb1enrWrite s v)
    (Has { c with periph := gates v apb1Bits c.periph } { r with APB1ENR := v &&& 0x5e7d#32 }) :=
  Returns.bind (periphEnable_has h apb1Bits) fun _ h₁ =>
    Returns.pure ⟨h₁.tree, by rw [← h₁.regs]; rfl⟩

/-- `stm32_rcc_RCC_APB1RSTR_write`. -/
theorem apb1rstrWrite_has (h : Has c r s) : Returns (apb1rstrWrite s v)
    (Has { c with periph := gates v apb1Bits c.periph } { r with APB1RSTR := v &&& 0x5e7d#32 }) :=
  Returns.bind (periphEnable_has h apb1Bits) fun _ h₁ =>
    Returns.pure ⟨h₁.tree, by rw [← h₁.regs]; rfl⟩

/-! ### The configuration register -/

/-- The multiplier of the PLL. -/
def pllMultiplier (pllmul : BitVec 32) : BitVec 32 :=
  if pllmul = 0xf#32 then 16#32 else pllmul + 2#32

/-- The register copies after a write of `v` to `CFGR`. -/
def cfgrRegs (v : BitVec 32) (r : Stm32Rcc) : Stm32Rcc :=
  { r with
    PLLMUL := extract32 v 18 4
    PLLXTPRE := extract32 v 17 1
    PLLSRC := extract32 v 16 1
    PPRE2 := (v &&& 0x3c00#32) >>> 11
    PPRE1 := (v &&& 0x700#32) >>> 8
    HPRE := (v &&& 0xf0#32) >>> 4
    SW := (v &&& 0x3#32) >>> 0 }

/-- The settings with those that `CFGR` controls taken from its fields. -/
def Cfg.ofFields (c : Cfg) (r : Stm32Rcc) : Cfg :=
  { c with
    pllmul := (pllMultiplier r.PLLMUL).setWidth 16
    pllxtpre := r.PLLXTPRE.toNat
    pllsrc := r.PLLSRC.toNat
    sw := r.SW.toNat
    hclk := (1#16, (ahbDivisor r.HPRE).setWidth 16)
    pclk1 := (1#16, (apbDivisor r.PPRE1).setWidth 16)
    pclk2 := (1#16, (apbDivisor r.PPRE2).setWidth 16) }

/-- The fields of `CFGR` are in their ranges; `SW` is one of the three clocks. -/
structure FieldsOk (r : Stm32Rcc) : Prop where
  pllmul : r.PLLMUL.toNat ≤ 15
  pllxtpre : r.PLLXTPRE.toNat ≤ 1
  pllsrc : r.PLLSRC.toNat ≤ 1
  ppre2 : r.PPRE2.toNat ≤ 7
  ppre1 : r.PPRE1.toNat ≤ 7
  hpre : r.HPRE.toNat ≤ 15
  sw : r.SW.toNat ≤ 2

/-- A field is at most its mask. -/
theorem toNat_and_shift_le (v mask : BitVec 32) (k : ℕ) :
    ((v &&& mask) >>> k).toNat ≤ mask.toNat >>> k := by
  rw [BitVec.toNat_ushiftRight, BitVec.toNat_and, Nat.shiftRight_eq_div_pow,
    Nat.shiftRight_eq_div_pow]
  exact Nat.div_le_div_right Nat.and_le_right

/-- A write to `CFGR` without `SW = 3` keeps the fields in their ranges. -/
theorem fieldsOk_cfgrRegs (hsw : v &&& 0x3#32 ≠ 0x3#32) : FieldsOk (cfgrRegs v r) := by
  refine ⟨toNat_extract32_le v 18 4, toNat_extract32_le v 17 1, toNat_extract32_le v 16 1,
    toNat_and_shift_le v 0x3c00#32 11, toNat_and_shift_le v 0x700#32 8,
    toNat_and_shift_le v 0xf0#32 4, ?_⟩
  have hle : ((v &&& 0x3#32) >>> 0).toNat ≤ 3 := toNat_and_shift_le v 0x3#32 0
  have hne : ((v &&& 0x3#32) >>> 0).toNat ≠ 3 := by
    rw [BitVec.ushiftRight_zero]
    exact fun h => hsw (BitVec.eq_of_toNat_eq h)
  change ((v &&& 0x3#32) >>> 0).toNat ≤ 2
  omega

/-- The `PLLMUL` part of a write to `CFGR`. -/
theorem pllmulWrite_has {x : BitVec 32} {init : Bool} (h : Has c r s) (hx : x.toNat ≤ 15) :
    Returns (pllmulWrite s x init)
      (Has { c with pllmul := (pllMultiplier x).setWidth 16 } { r with PLLMUL := x }) := by
  have hassert : assert (x ≤ 0xf#32) "new_PLLMUL <= 0xf" = .ok () :=
    assert_eq_ok.2 (decide_eq_true hx)
  unfold pllmulWrite
  refine Returns.bind (P := fun _ => True) ⟨(), hassert, trivial⟩ fun _ _ => ?_
  refine Returns.bind ((h.warnIf _ _).setScale
    (k := { c with pllmul := (pllMultiplier x).setWidth 16 }) (by decide) (by decide) rfl)
    fun s₁ h₁ => ?_
  exact Returns.pure ⟨h₁.tree, by rw [← h₁.regs]; rfl⟩

/-- The `PLLXTPRE` part. -/
theorem pllxtpreWrite_has {x : BitVec 32} {init : Bool} (h : Has c r s) (hx : x.toNat ≤ 1) :
    Returns (pllxtpreWrite s x init)
      (Has { c with pllxtpre := x.toNat } { r with PLLXTPRE := x }) := by
  unfold pllxtpreWrite
  refine Returns.bind ((h.warnIf _ _).setSelectedInput (k := { c with pllxtpre := x.toNat })
    (i := PLLXTPRECLK) rfl rfl (Nat.lt_succ_of_le hx) rfl) fun s₁ h₁ => ?_
  exact Returns.pure ⟨h₁.tree, by rw [← h₁.regs]; rfl⟩

/-- The `PLLSRC` part. -/
theorem pllsrcWrite_has {x : BitVec 32} {init : Bool} (h : Has c r s) (hx : x.toNat ≤ 1) :
    Returns (pllsrcWrite s x init) (Has { c with pllsrc := x.toNat } { r with PLLSRC := x }) := by
  unfold pllsrcWrite
  refine Returns.bind ((h.warnIf _ _).setSelectedInput (k := { c with pllsrc := x.toNat })
    (i := PLLCLK) rfl rfl (Nat.lt_succ_of_le hx) rfl) fun s₁ h₁ => ?_
  exact Returns.pure ⟨h₁.tree, by rw [← h₁.regs]; rfl⟩

/-- The values of a bit. -/
theorem eq_of_toNat_le_one {x : BitVec 32} (hx : x.toNat ≤ 1) : x = 0#32 ∨ x = 1#32 := by
  rcases Nat.le_one_iff_eq_zero_or_eq_one.1 hx with h | h
  · exact Or.inl (BitVec.eq_of_toNat_eq h)
  · exact Or.inr (BitVec.eq_of_toNat_eq h)

/-- The values of `SW`. -/
theorem eq_of_toNat_le_two {x : BitVec 32} (hx : x.toNat ≤ 2) :
    x = 0#32 ∨ x = 1#32 ∨ x = 2#32 := by
  have hcases : x.toNat = 0 ∨ x.toNat = 1 ∨ x.toNat = 2 := by omega
  rcases hcases with h | h | h
  · exact Or.inl (BitVec.eq_of_toNat_eq h)
  · exact Or.inr (Or.inl (BitVec.eq_of_toNat_eq h))
  · exact Or.inr (Or.inr (BitVec.eq_of_toNat_eq h))

/-- The `SW` part. -/
theorem swWrite_has {x : BitVec 32} (h : Has c r s) (hx : x.toNat ≤ 2) :
    Returns (swWrite s x) (Has { c with sw := x.toNat } { r with SW := x }) := by
  have hsw := eq_of_toNat_le_two hx
  have h₁ : Has c { r with SW := x } { s with SW := x } := ⟨h.tree, by rw [← h.regs]; rfl⟩
  unfold swWrite
  dsimp only
  rw [if_pos hsw]
  exact h₁.setSelectedInput (i := SYSCLK) rfl rfl (Nat.lt_succ_of_le hx) rfl

/-- A prescaler never divides by `0`. -/
theorem apbDivisor_ne_zero {x : BitVec 32} (hx : x.toNat ≤ 7) :
    (apbDivisor x).setWidth 16 ≠ 0#16 :=
  of_forall_le (P := fun x => (apbDivisor x).setWidth 16 ≠ 0#16) (by decide) hx

/-- No divisor of the AHB is `0`. -/
theorem ahbDivisor_ne_zero {x : BitVec 32} (hx : x.toNat ≤ 15) :
    (ahbDivisor x).setWidth 16 ≠ 0#16 :=
  of_forall_le (P := fun x => (ahbDivisor x).setWidth 16 ≠ 0#16) (by decide) hx

/-- The `PPRE2` part. -/
theorem ppre2_has {x : BitVec 32} (h : Has c r s) (hx : x.toNat ≤ 7) :
    Returns ({ s with PPRE2 := x }.setScale PCLK2 1#32 (apbDivisor x))
      (Has { c with pclk2 := (1#16, (apbDivisor x).setWidth 16) } { r with PPRE2 := x }) :=
  have h₁ : Has c { r with PPRE2 := x } { s with PPRE2 := x } :=
    ⟨h.tree, by rw [← h.regs]; rfl⟩
  h₁.setScale (by decide) (apbDivisor_ne_zero hx) rfl

/-- The `PPRE1` part. -/
theorem ppre1_has {x : BitVec 32} (h : Has c r s) (hx : x.toNat ≤ 7) :
    Returns ({ s with PPRE1 := x }.setScale PCLK1 1#32 (apbDivisor x))
      (Has { c with pclk1 := (1#16, (apbDivisor x).setWidth 16) } { r with PPRE1 := x }) :=
  have h₁ : Has c { r with PPRE1 := x } { s with PPRE1 := x } :=
    ⟨h.tree, by rw [← h.regs]; rfl⟩
  h₁.setScale (by decide) (apbDivisor_ne_zero hx) rfl

/-- The `HPRE` part. -/
theorem hpre_has {x : BitVec 32} (h : Has c r s) (hx : x.toNat ≤ 15) :
    Returns ({ s with HPRE := x }.setScale HCLK 1#32 (ahbDivisor x))
      (Has { c with hclk := (1#16, (ahbDivisor x).setWidth 16) } { r with HPRE := x }) :=
  have h₁ : Has c { r with HPRE := x } { s with HPRE := x } :=
    ⟨h.tree, by rw [← h.regs]; rfl⟩
  h₁.setScale (by decide) (ahbDivisor_ne_zero hx) rfl

/-- `stm32_rcc_RCC_CFGR_write`. -/
theorem cfgrWrite_has {init : Bool} (h : Has c r s) (hsw : v &&& 0x3#32 ≠ 0x3#32) :
    Returns (cfgrWrite s v init) (Has (c.ofFields (cfgrRegs v r)) (cfgrRegs v r)) := by
  have hok : FieldsOk (cfgrRegs v r) := fieldsOk_cfgrRegs hsw
  unfold cfgrWrite
  refine Returns.bind (pllmulWrite_has h hok.pllmul) fun s₁ h₁ => ?_
  refine Returns.bind (pllxtpreWrite_has h₁ hok.pllxtpre) fun s₂ h₂ => ?_
  refine Returns.bind (pllsrcWrite_has h₂ hok.pllsrc) fun s₃ h₃ => ?_
  refine Returns.bind (ppre2_has h₃ hok.ppre2) fun s₄ h₄ => ?_
  refine Returns.bind (ppre1_has h₄ hok.ppre1) fun s₅ h₅ => ?_
  refine Returns.bind (hpre_has h₅ hok.hpre) fun s₆ h₆ => ?_
  exact swWrite_has h₆ hok.sw

/-- A value with `SW = 3` stops the emulator. -/
theorem sw_ne_three_of_cfgrWrite {init : Bool} (h : cfgrWrite s v init = .ok s') :
    v &&& 0x3#32 ≠ 0x3#32 := by
  intro hv
  unfold cfgrWrite at h
  obtain ⟨s₁, _, h⟩ := bind_eq_ok.1 h
  obtain ⟨s₂, _, h⟩ := bind_eq_ok.1 h
  obtain ⟨s₃, _, h⟩ := bind_eq_ok.1 h
  obtain ⟨s₄, _, h⟩ := bind_eq_ok.1 h
  obtain ⟨s₅, _, h⟩ := bind_eq_ok.1 h
  obtain ⟨s₆, _, h⟩ := bind_eq_ok.1 h
  unfold swWrite at h
  rw [hv] at h
  exact absurd h throw_ne_ok

/-! ### Reset -/

/-- The settings after a reset: the HSI drives the system, everything else is off. -/
def Cfg.reset : Cfg where
  hsi := true
  lsi := false
  hse := false
  lse := false
  pll := false
  pllmul := 2#16
  pllxtpre := 0
  pllsrc := 0
  sw := 0
  hclk := (1#16, 1#16)
  pclk1 := (1#16, 1#16)
  pclk2 := (1#16, 1#16)
  periph _ := false

/-- The register copies after a reset; those of the reset registers stay. -/
def resetRegs (r : Stm32Rcc) : Stm32Rcc :=
  { r with
    APB1ENR := 0#32
    APB2ENR := 0#32
    PLLMUL := 0#32
    PLLXTPRE := 0#32
    PLLSRC := 0#32
    PPRE1 := 0#32
    PPRE2 := 0#32
    HPRE := 0#32
    SW := 0#32 }

/-- A zero in both enable registers closes all gates. -/
theorem gates_zero (f : Periph → Bool) :
    gates 0#32 apb1Bits (gates 0#32 apb2Bits f) = fun _ => false := by
  funext p
  cases p <;> rfl

/-- `stm32_rcc_reset`, from any settings. -/
theorem reset_has (h : Has c r s) : Returns (reset s) (Has Cfg.reset (resetRegs r)) := by
  unfold reset
  refine Returns.bind (crWrite_has h) fun s₁ h₁ => ?_
  refine Returns.bind (cfgrWrite_has h₁ (by decide)) fun s₂ h₂ => ?_
  refine Returns.bind (apb2enrWrite_has h₂) fun s₃ h₃ => ?_
  refine Returns.bind (apb1enrWrite_has h₃) fun s₄ h₄ => ?_
  refine Returns.bind (bdcrWrite_has h₄) fun s₅ h₅ => ?_
  refine (csrWrite_has h₅).mono fun s₆ h₆ => ?_
  have hc :
      ({ Cfg.reset with periph := gates 0#32 apb1Bits (gates 0#32 apb2Bits c.periph) } : Cfg) =
      Cfg.reset := by
    rw [gates_zero]
    rfl
  rw [← hc]
  exact h₆

/-- The fields are in their ranges after a reset. -/
theorem fieldsOk_resetRegs (r : Stm32Rcc) : FieldsOk (resetRegs r) :=
  ⟨Nat.zero_le _, Nat.zero_le _, Nat.zero_le _, Nat.zero_le _, Nat.zero_le _, Nat.zero_le _,
    Nat.zero_le _⟩

/-- The settings that `CFGR` controls are those of its fields `r`. -/
def Follows (c : Cfg) (r : Stm32Rcc) : Prop := c = c.ofFields r ∧ FieldsOk r

/-! ### Any register -/

/-- A write that the device takes: to one of its registers, and without `SW = 3`. -/
def Writable (offset : ℕ) (v : BitVec 32) : Prop :=
  match offset with
  | 0x04 => v &&& 0x3#32 ≠ 0x3#32
  | 0x00 | 0x08 | 0x0c | 0x10 | 0x18 | 0x1c | 0x20 | 0x24 => True
  | _ => False

instance (offset : ℕ) (v : BitVec 32) : Decidable (Writable offset v) := by
  unfold Writable
  split <;> infer_instance

/-- The settings after a write. -/
def Cfg.write (c : Cfg) (r : Stm32Rcc) (offset : ℕ) (v : BitVec 32) : Cfg :=
  match offset with
  | 0x00 => { c with pll := v.getLsbD 24, hse := v.getLsbD 16, hsi := v.getLsbD 0 }
  | 0x04 => c.ofFields (cfgrRegs v r)
  | 0x0c | 0x18 => { c with periph := gates v apb2Bits c.periph }
  | 0x10 | 0x1c => { c with periph := gates v apb1Bits c.periph }
  | 0x20 => { c with lse := v.getLsbD 0 }
  | 0x24 => { c with lsi := v.getLsbD 0 }
  | _ => c

/-- The register copies after a write. -/
def writeRegs (r : Stm32Rcc) (offset : ℕ) (v : BitVec 32) : Stm32Rcc :=
  match offset with
  | 0x04 => cfgrRegs v r
  | 0x0c => { r with APB2RSTR := v &&& 0xfffd#32 }
  | 0x10 => { r with APB1RSTR := v &&& 0x5e7d#32 }
  | 0x18 => { r with APB2ENR := v &&& 0xfffd#32 }
  | 0x1c => { r with APB1ENR := v &&& 0x5e7d#32 }
  | _ => r

/-- **A write that the device takes** returns, and moves it from settings to settings. -/
theorem writew_has {offset : ℕ} (h : Has c r s) (hw : Writable offset v) :
    Returns (writew s offset v) (Has (c.write r offset v) (writeRegs r offset v)) := by
  unfold Writable at hw
  split at hw
  · exact cfgrWrite_has h hw
  · exact crWrite_has h
  · exact Returns.pure h
  · exact apb2rstrWrite_has h
  · exact apb1rstrWrite_has h
  · exact apb2enrWrite_has h
  · exact apb1enrWrite_has h
  · exact bdcrWrite_has h
  · exact csrWrite_has h
  · exact hw.elim

/-- Any other write stops the emulator. -/
theorem writable_of_writew {offset : ℕ} (h : writew s offset v = .ok s') : Writable offset v := by
  unfold writew at h
  split at h
  case h_2 => exact sw_ne_three_of_cfgrWrite h
  all_goals first
    | exact trivial
    | exact absurd h throw_ne_ok

/-- A write that the device takes keeps them there. -/
theorem FieldsOk.writeRegs {offset : ℕ} (h : FieldsOk r) (hw : Writable offset v) :
    FieldsOk (writeRegs r offset v) := by
  obtain ⟨h₁, h₂, h₃, h₄, h₅, h₆, h₇⟩ := h
  unfold Writable at hw
  split at hw
  · exact fieldsOk_cfgrRegs hw
  all_goals first
    | exact ⟨h₁, h₂, h₃, h₄, h₅, h₆, h₇⟩
    | exact hw.elim

/-- The settings that `CFGR` controls still follow its fields. -/
theorem Follows.write {offset : ℕ} (h : Follows c r) (hw : Writable offset v) :
    Follows (c.write r offset v) (writeRegs r offset v) := by
  refine ⟨?_, h.2.writeRegs hw⟩
  unfold Writable at hw
  split at hw
  · rfl
  all_goals first
    | exact hw.elim
    | (rw [h.1]; rfl)

/-! ### Every state -/

/-- **One step.**  It moves the device from settings to settings, and they follow
the fields of `CFGR` if they did before, and after a reset anyway. -/
theorem step_has {e : Event} (h : Has c r s) (hs' : Step s e s') :
    ∃ c' r', Has c' r' s' ∧ (Follows c r ∨ e = .reset → Follows c' r') := by
  cases e with
  | reset =>
    exact ⟨_, _, (reset_has h).of_eq_ok hs', fun _ => ⟨rfl, fieldsOk_resetRegs r⟩⟩
  | write offset v =>
    have hw := writable_of_writew hs'
    exact ⟨_, _, (writew_has h hw).of_eq_ok hs',
      fun hor => (hor.resolve_right (by simp)).write hw⟩

/-- Every state since `stm32_rcc_init` has settings. -/
theorem run_has {l : List Event} {s₀ : Stm32Rcc} (hinit : init = .ok s₀)
    (hrun : Run Step s₀ l s) : ∃ c r, Has c r s := by
  obtain ⟨s₀', hinit', h₀⟩ := init_has
  obtain rfl : s₀' = s₀ := Except.ok.inj (hinit'.symm.trans hinit)
  refine Run.invariant (P := fun s => ∃ c r, Has c r s)
    (fun s e s' hs hstep => ?_) hrun ⟨_, _, h₀⟩
  obtain ⟨c, r, h⟩ := hs
  obtain ⟨c', r', h', -⟩ := step_has h hstep
  exact ⟨c', r', h'⟩

/-- The settings that `CFGR` controls are those of its fields. -/
def Coherent (s : Stm32Rcc) : Prop := ∃ c : Cfg, Has (c.ofFields s) s.regs s ∧ FieldsOk s

/-- A device whose settings follow its fields is coherent. -/
theorem Has.coherent (h : Has c r s) (hf : Follows c r) : Coherent s := by
  obtain ⟨hc, hr⟩ := hf
  obtain ⟨ht, rfl⟩ := h
  rw [hc] at ht
  exact ⟨c, ⟨ht, rfl⟩,
    ⟨hr.pllmul, hr.pllxtpre, hr.pllsrc, hr.ppre2, hr.ppre1, hr.hpre, hr.sw⟩⟩

/-- **Every state since a reset keeps the settings and the fields together.** -/
theorem run_coherent {l : List Event} {s₀ s₁ : Stm32Rcc} (h₀ : Has c r s₀)
    (hreset : reset s₀ = .ok s₁) (hrun : Run Step s₁ l s) : Coherent s := by
  have h₁ : Has Cfg.reset (resetRegs r) s₁ := (reset_has h₀).of_eq_ok hreset
  have hinv : ∃ c r, Has c r s ∧ Follows c r := by
    refine Run.invariant (P := fun s => ∃ c r, Has c r s ∧ Follows c r)
      (fun s e s' hs hstep => ?_) hrun ⟨_, _, h₁, rfl, fieldsOk_resetRegs r⟩
    obtain ⟨c, r, h, hf⟩ := hs
    obtain ⟨c', r', h', hf'⟩ := step_has h hstep
    exact ⟨c', r', h', hf' (Or.inl hf)⟩
  obtain ⟨c, r, h, hf⟩ := hinv
  exact h.coherent hf

end Rcc
end Especial
