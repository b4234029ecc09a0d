/-
# The clocks after start-up

`SystemInit` of `system_stm32f10x.c` (a medium density device, `SYSCLK_FREQ_72MHz`), which
the start-up code calls before anything else, against the emulator's RCC: it takes the clock
configuration back to its reset state, starts the HSE and the PLL and switches over to the
PLL, and waits for each of them in a loop.

Everything it does is a read and a write of `CR` or `CFGR`.  A device is described by the last
values written to the two registers (`Described`, `Holds`); what they read as is a function of
those (`crReadBack`, `cfgrReadBack`), so the steps of the program become steps from values to
values.  The program is the same for the RCC alone and for a machine with an RCC in it.

`FLASH->ACR` and `SCB->VTOR`, which `SystemInit` also writes, have no part in the clocks.
-/

import Especial.Rcc.PeriphClocks
import Especial.Rcc.Warnings
import Especial.Lib.Settles

namespace Especial
namespace Rcc

open Qemu Stm32 Clktree Lib

/-! ### The firmware -/

/-- The registers of the RCC as the firmware reaches them, on a device with states `σ`. -/
structure Registers (σ : Type) where
  read : σ → ℕ → Except Fault (BitVec 32)
  write : σ → ℕ → BitVec 32 → Except Fault σ

/-- The RCC alone. -/
def rccRegisters : Registers Stm32Rcc := ⟨readw, writew⟩

/-- `HSE_STARTUP_TIMEOUT`. -/
def HSE_STARTUP_TIMEOUT : BitVec 32 := 0x0500

section Firmware

variable {σ : Type} (m : Registers σ)

/-- `RCC->reg = f(RCC->reg)`. -/
def modifyReg (s : σ) (offset : ℕ) (f : BitVec 32 → BitVec 32) : Except Fault σ := do
  let value ← m.read s offset
  m.write s offset (f value)

/-- A turn of the loop that waits for the HSE, with `StartUpCounter`. -/
def hseTurn (s : σ) (startUpCounter : BitVec 32) : Except Fault (Turn (BitVec 32) Unit) := do
  let cr ← m.read s 0x00
  let hseStatus := cr &&& 0x20000#32
  let startUpCounter := startUpCounter + 1#32
  return if hseStatus = 0#32 ∧ startUpCounter ≠ HSE_STARTUP_TIMEOUT then .again startUpCounter
    else .exit ()

/-- A turn of a loop that waits while a register has some property. -/
def waitTurn (s : σ) (offset : ℕ) (waits : BitVec 32 → Bool) (_ : Unit) :
    Except Fault (Turn Unit Unit) := do
  let value ← m.read s offset
  return if waits value then .again () else .exit ()

/-- `SetSysClockTo72`, with at most `n` turns for each of its loops. -/
def setSysClockTo72 (n : ℕ) (s : σ) : ExceptT Fault Option σ := do
  let s ← modifyReg m s 0x00 (· ||| 0x10000#32)
  loopM (hseTurn m s) n 0#32
  let cr ← m.read s 0x00
  if cr &&& 0x20000#32 ≠ 0#32 then
    let s ← modifyReg m s 0x04 (· ||| 0#32)
    let s ← modifyReg m s 0x04 (· ||| 0#32)
    let s ← modifyReg m s 0x04 (· ||| 0x400#32)
    let s ← modifyReg m s 0x04 (· &&& ~~~(0x10000#32 ||| 0x20000#32 ||| 0x3C0000#32))
    let s ← modifyReg m s 0x04 (· ||| (0x10000#32 ||| 0x1C0000#32))
    let s ← modifyReg m s 0x00 (· ||| 0x1000000#32)
    loopM (waitTurn m s 0x00 fun cr => cr &&& 0x2000000#32 == 0#32) n ()
    let s ← modifyReg m s 0x04 (· &&& ~~~0x3#32)
    let s ← modifyReg m s 0x04 (· ||| 0x2#32)
    loopM (waitTurn m s 0x04 fun cfgr => cfgr &&& 0xC#32 != 0x08#32) n ()
    return s
  else
    return s

/-- `SystemInit`. -/
def systemInit (n : ℕ) (s : σ) : ExceptT Fault Option σ := do
  let s ← modifyReg m s 0x00 (· ||| 0x1#32)
  let s ← modifyReg m s 0x04 (· &&& 0xF8FF0000#32)
  let s ← modifyReg m s 0x00 (· &&& 0xFEF6FFFF#32)
  let s ← modifyReg m s 0x00 (· &&& 0xFFFBFFFF#32)
  let s ← modifyReg m s 0x04 (· &&& 0xFF80FFFF#32)
  let s ← m.write s 0x08 0x009F0000#32
  setSysClockTo72 m n s

end Firmware

/-- `AHBPrescTable`. -/
def AHBPrescTable : List ℕ := [0, 0, 0, 0, 0, 0, 0, 0, 1, 2, 3, 4, 6, 7, 8, 9]

/-- The value that `SystemCoreClockUpdate` gives `SystemCoreClock`.  It decodes `SYSCLK` as
`RCC_GetClocksFreq` does, but has a table of its own for the AHB prescaler. -/
def systemCoreClockUpdate (cfgr : BitVec 32) : BitVec 32 :=
  sysclkFrequency cfgr >>> AHBPrescTable.getD ((cfgr &&& 0xF0#32) >>> 4).toNat 0

/-! ### Warnings of a write to `CFGR` -/

variable {c : Cfg} {r s s' : Stm32Rcc} {v : BitVec 32}

/-- Without its condition a warning does not come. -/
theorem warnIf_of_not {cond : Bool} {text : String} (h : cond = false) :
    s.warnIf cond text = s := by
  rw [h]
  rfl

/-- `clktree_set_scale` does not warn. -/
theorem setScale_warnings {i : ℕ} {m d : BitVec 32} (h : s.setScale i m d = .ok s') :
    s'.warnings = s.warnings := by
  obtain ⟨t, -, h⟩ := bind_eq_ok.1 h
  rw [← pure_eq_ok.1 h]

/-- Neither does `clktree_set_selected_input`. -/
theorem setSelectedInput_warnings {i : ℕ} {x : BitVec 32} (h : s.setSelectedInput i x = .ok s') :
    s'.warnings = s.warnings := by
  obtain ⟨t, -, h⟩ := bind_eq_ok.1 h
  rw [← pure_eq_ok.1 h]

/-- The fields of the PLL in `v` are those that the device has. -/
structure SamePll (v : BitVec 32) (r : Stm32Rcc) : Prop where
  pllmul : extract32 v 18 4 = r.PLLMUL
  pllxtpre : extract32 v 17 1 = r.PLLXTPRE
  pllsrc : extract32 v 16 1 = r.PLLSRC

/-- **A write to `CFGR` warns of nothing** if the PLL is off or keeps its fields. -/
theorem cfgrWrite_warnings (h : Has c r s) (hw : cfgrWrite s v false = .ok s')
    (hpll : c.pll = false ∨ SamePll v r) : s'.warnings = s.warnings := by
  have hok : FieldsOk (cfgrRegs v r) := fieldsOk_cfgrRegs (sw_ne_three_of_cfgrWrite hw)
  -- the condition of each of the three warnings
  have hcond : ∀ {t : Stm32Rcc} {new old : BitVec 32}, t.isEnabled PLLCLK = c.pll →
      (SamePll v r → new = old) → (!false && t.isEnabled PLLCLK && new != old) = false := by
    intro t new old ht hsame
    rcases hpll with hoff | hs
    · rw [ht, hoff]
      rfl
    · rw [hsame hs]
      simp
  unfold cfgrWrite at hw
  obtain ⟨s₁, hw₁, hw⟩ := bind_eq_ok.1 hw
  have h₁ := (pllmulWrite_has h hok.pllmul).of_eq_ok hw₁
  have hwarn₁ : s₁.warnings = s.warnings := by
    unfold pllmulWrite at hw₁
    rw [warnIf_of_not (hcond (h.isEnabled (i := PLLCLK) rfl) fun hs => by
      rw [hs.pllmul, ← h.regs]; rfl)] at hw₁
    obtain ⟨-, -, hw₁⟩ := bind_eq_ok.1 hw₁
    obtain ⟨t, ht, hw₁⟩ := bind_eq_ok.1 hw₁
    rw [← pure_eq_ok.1 hw₁]
    exact (setScale_warnings ht :)
  obtain ⟨s₂, hw₂, hw⟩ := bind_eq_ok.1 hw
  have h₂ := (pllxtpreWrite_has h₁ hok.pllxtpre).of_eq_ok hw₂
  have hwarn₂ : s₂.warnings = s₁.warnings := by
    unfold pllxtpreWrite at hw₂
    rw [warnIf_of_not (hcond (h₁.isEnabled (i := PLLCLK) rfl) fun hs => by
      rw [hs.pllxtpre]; exact (congrArg Stm32Rcc.PLLXTPRE h₁.regs).symm)] at hw₂
    obtain ⟨t, ht, hw₂⟩ := bind_eq_ok.1 hw₂
    rw [← pure_eq_ok.1 hw₂]
    exact (setSelectedInput_warnings ht :)
  obtain ⟨s₃, hw₃, hw⟩ := bind_eq_ok.1 hw
  have hwarn₃ : s₃.warnings = s₂.warnings := by
    unfold pllsrcWrite at hw₃
    rw [warnIf_of_not (hcond (h₂.isEnabled (i := PLLCLK) rfl) fun hs => by
      rw [hs.pllsrc]; exact (congrArg Stm32Rcc.PLLSRC h₂.regs).symm)] at hw₃
    obtain ⟨t, ht, hw₃⟩ := bind_eq_ok.1 hw₃
    rw [← pure_eq_ok.1 hw₃]
    exact (setSelectedInput_warnings ht :)
  obtain ⟨s₄, hw₄, hw⟩ := bind_eq_ok.1 hw
  obtain ⟨s₅, hw₅, hw⟩ := bind_eq_ok.1 hw
  obtain ⟨s₆, hw₆, hw⟩ := bind_eq_ok.1 hw
  have hwarn : s'.warnings = s₆.warnings := by
    unfold swWrite at hw
    dsimp only at hw
    split_ifs at hw
    · exact (setSelectedInput_warnings hw :)
  rw [hwarn, setScale_warnings hw₆, setScale_warnings hw₅, setScale_warnings hw₄,
    hwarn₃, hwarn₂, hwarn₁]

/-! ### A device by the last writes to its two registers -/

/-- What `CR` reads as after a write of `v`. -/
def crReadBack (v : BitVec 32) : BitVec 32 :=
  ofBit (v.getLsbD 24) <<< 25 ||| ofBit (v.getLsbD 24) <<< 24 ||| ofBit (v.getLsbD 16) <<< 17 |||
    ofBit (v.getLsbD 16) <<< 16 ||| ofBit (v.getLsbD 0) <<< 1 ||| ofBit (v.getLsbD 0) <<< 0

/-- A write of `v` to `CR` stops nothing, or the HSI drives the system. -/
def QuietCr (cr cfgr v : BitVec 32) : Prop :=
  cfgr &&& 0x3#32 = 0#32 ∨ (cr.getLsbD 24 → v.getLsbD 24) ∧ (cr.getLsbD 16 → v.getLsbD 16)

/-- A write of `v` to `CFGR` selects a clock, and the PLL is off or keeps its fields. -/
def QuietCfgr (cr cfgr v : BitVec 32) : Prop :=
  v &&& 0x3#32 ≠ 0x3#32 ∧ (cr.getLsbD 24 = false ∨ extract32 v 18 4 = extract32 cfgr 18 4 ∧
    extract32 v 17 1 = extract32 cfgr 17 1 ∧ extract32 v 16 1 = extract32 cfgr 16 1)

instance (cr cfgr v : BitVec 32) : Decidable (QuietCr cr cfgr v) :=
  inferInstanceAs (Decidable (_ ∨ _ ∧ _))

instance (cr cfgr v : BitVec 32) : Decidable (QuietCfgr cr cfgr v) :=
  inferInstanceAs (Decidable (_ ∧ (_ ∨ _ ∧ _ ∧ _)))

section Described

variable {σ : Type} {m : Registers σ} {H : BitVec 32 → BitVec 32 → σ → Prop} {t : σ}
  {cr cfgr v : BitVec 32} {f : BitVec 32 → BitVec 32}

/-- `H` describes the device by the last values written to `CR` and `CFGR`. -/
structure Described (m : Registers σ) (H : BitVec 32 → BitVec 32 → σ → Prop) : Prop where
  readCr : ∀ cr cfgr t, H cr cfgr t → m.read t 0x00 = .ok (crReadBack cr)
  readCfgr : ∀ cr cfgr t, H cr cfgr t → m.read t 0x04 = .ok (cfgrReadBack cfgr)
  writeCr : ∀ cr cfgr v t, H cr cfgr t → QuietCr cr cfgr v →
    Returns (m.write t 0x00 v) (H v cfgr)
  writeCfgr : ∀ cr cfgr v t, H cr cfgr t → QuietCfgr cr cfgr v →
    Returns (m.write t 0x04 v) (H cr v)
  writeCir : ∀ cr cfgr v t, H cr cfgr t → Returns (m.write t 0x08 v) (H cr cfgr)

/-- `RCC->CR = f(RCC->CR)`. -/
theorem Described.modifyCr (d : Described m H) (h : H cr cfgr t) (hv : f (crReadBack cr) = v)
    (hquiet : QuietCr cr cfgr v) : Returns (modifyReg m t 0x00 f) (H v cfgr) := by
  unfold modifyReg
  rw [d.readCr cr cfgr t h, ok_bind, hv]
  exact d.writeCr cr cfgr v t h hquiet

/-- `RCC->CFGR = f(RCC->CFGR)`. -/
theorem Described.modifyCfgr (d : Described m H) (h : H cr cfgr t)
    (hv : f (cfgrReadBack cfgr) = v) (hquiet : QuietCfgr cr cfgr v) :
    Returns (modifyReg m t 0x04 f) (H cr v) := by
  unfold modifyReg
  rw [d.readCfgr cr cfgr t h, ok_bind, hv]
  exact d.writeCfgr cr cfgr v t h hquiet

/-- **`SetSysClockTo72`** after a reset of the clock configuration. -/
theorem Described.setSysClockTo72 (d : Described m H) (h : H 0x3#32 0#32 t) :
    Settles (fun n => setSysClockTo72 m n t) (H 0x1030003#32 0x1D0402#32) := by
  unfold Rcc.setSysClockTo72
  refine Settles.bind (Settles.lift (d.modifyCr (v := 0x10003#32) h rfl (by decide)))
    fun s₁ h₁ => ?_
  refine Settles.bind (Settles.loopM_exit (a := ()) (P := fun _ => True) ?_ trivial) fun _ _ => ?_
  · unfold hseTurn
    rw [d.readCr _ _ _ h₁]
    rfl
  refine Settles.bind
    (Settles.lift (P := (· = crReadBack 0x10003#32)) ⟨_, d.readCr _ _ _ h₁, rfl⟩)
    fun cr hcr => ?_
  simp only [if_pos (show cr &&& 0x20000#32 ≠ 0#32 by rw [hcr]; decide)]
  -- the prescalers, and the PLL while it is off
  refine Settles.bind (Settles.lift (d.modifyCfgr (v := 0#32) h₁ rfl (by decide)))
    fun s₂ h₂ => ?_
  refine Settles.bind (Settles.lift (d.modifyCfgr (v := 0#32) h₂ rfl (by decide)))
    fun s₃ h₃ => ?_
  refine Settles.bind (Settles.lift (d.modifyCfgr (v := 0x400#32) h₃ rfl (by decide)))
    fun s₄ h₄ => ?_
  refine Settles.bind (Settles.lift (d.modifyCfgr (v := 0x400#32) h₄ rfl (by decide)))
    fun s₅ h₅ => ?_
  refine Settles.bind (Settles.lift (d.modifyCfgr (v := 0x1D0400#32) h₅ rfl (by decide)))
    fun s₆ h₆ => ?_
  refine Settles.bind (Settles.lift (d.modifyCr (v := 0x1030003#32) h₆ rfl (by decide)))
    fun s₇ h₇ => ?_
  refine Settles.bind (Settles.loopM_exit (a := ()) (P := fun _ => True) ?_ trivial) fun _ _ => ?_
  · unfold waitTurn
    rw [d.readCr _ _ _ h₇]
    rfl
  -- the switch keeps the fields of the PLL, which is now on
  refine Settles.bind (Settles.lift (d.modifyCfgr (v := 0x1D0400#32) h₇ rfl (by decide)))
    fun s₈ h₈ => ?_
  refine Settles.bind (Settles.lift (d.modifyCfgr (v := 0x1D0402#32) h₈ rfl (by decide)))
    fun s₉ h₉ => ?_
  refine Settles.bind (Settles.loopM_exit (a := ()) (P := fun _ => True) ?_ trivial) fun _ _ => ?_
  · unfold waitTurn
    rw [d.readCfgr _ _ _ h₉]
    rfl
  exact Settles.lift (e := .ok s₉) ⟨s₉, rfl, h₉⟩

/-- What the two masks leave of `CFGR`. -/
theorem cfgrReadBack_masked (v : BitVec 32) :
    cfgrReadBack (v &&& 0xF8FF0000#32) &&& 0xFF80FFFF#32 = 0#32 := by
  have hdist : ∀ x y z : BitVec 32, (x ||| y) &&& z = x &&& z ||| y &&& z := by
    intro x y z
    ext i
    simp [Bool.and_or_distrib_right]
  -- every field ends up under a mask that has none of its bits
  unfold cfgrReadBack extract32 extractField
  simp only [BitVec.and_assoc, BitVec.ushiftRight_and_distrib, BitVec.shiftLeft_and_distrib, hdist]
  simp [lowMask]

/-- What is left of `CR` once the HSE and the PLL are off. -/
theorem crReadBack_masked (hhsi : v.getLsbD 0 = true) :
    crReadBack (crReadBack v &&& 0xFEF6FFFF#32) &&& 0xFFFBFFFF#32 = 0x3#32 := by
  unfold crReadBack
  rw [hhsi]
  cases v.getLsbD 24 <;> cases v.getLsbD 16 <;> rfl

/-- The first two steps of `SystemInit`. -/
def systemInitFirst (m : Registers σ) (t : σ) : Except Fault σ :=
  modifyReg m t 0x00 (· ||| 0x1#32) >>= fun t => modifyReg m t 0x04 (· &&& 0xF8FF0000#32)

/-- **`SystemInit`**, on a device that the first two steps have led to what they wrote. -/
theorem Described.systemInit (d : Described m H)
    (hfirst : Returns (systemInitFirst m t) fun t' => ∃ cr cfgr, cr.getLsbD 0 = true ∧
      H cr (cfgr &&& 0xF8FF0000#32) t') :
    Settles (fun n => systemInit m n t) (H 0x1030003#32 0x1D0402#32) := by
  obtain ⟨s₂, hw, cr, cfgr, hhsi, h₂⟩ := hfirst
  obtain ⟨s₁, hw₁, hw₂⟩ := bind_eq_ok.1 hw
  have hhsisw : cfgr &&& 0xF8FF0000#32 &&& 0x3#32 = 0#32 := by
    rw [BitVec.and_assoc]
    simp
  unfold Rcc.systemInit
  refine Settles.bind (Settles.lift (P := (· = s₁)) ⟨s₁, hw₁, rfl⟩) fun t ht => ?_
  subst ht
  refine Settles.bind (Settles.lift (P := (· = s₂)) ⟨s₂, hw₂, rfl⟩) fun t ht => ?_
  subst ht
  -- the HSI drives the system while the HSE and the PLL go off
  refine Settles.bind (Settles.lift (d.modifyCr h₂ rfl (Or.inl hhsisw))) fun s₃ h₃ => ?_
  refine Settles.bind (Settles.lift (d.modifyCr h₃ (crReadBack_masked hhsi) (Or.inl hhsisw)))
    fun s₄ h₄ => ?_
  refine Settles.bind
    (Settles.lift (d.modifyCfgr h₄ (cfgrReadBack_masked cfgr) ⟨by decide, Or.inl rfl⟩))
    fun s₅ h₅ => ?_
  refine Settles.bind (Settles.lift (d.writeCir _ _ _ _ h₅)) fun s₆ h₆ => ?_
  exact d.setSysClockTo72 h₆

end Described

/-! ### The RCC -/

/-- The settings with the switches of `CR`. -/
def Cfg.switch (c : Cfg) (cr : BitVec 32) : Cfg :=
  { c with pll := cr.getLsbD 24, hse := cr.getLsbD 16, hsi := cr.getLsbD 0 }

/-- The last writes to `CR` and `CFGR` were of these values; the other settings are those of
`c` and `r`, and the warnings `ws`. -/
structure Holds (c : Cfg) (r : Stm32Rcc) (ws : List String) (cr cfgr : BitVec 32) (s : Stm32Rcc) :
    Prop where
  has : Has ((c.switch cr).ofFields (cfgrRegs cfgr r)) (cfgrRegs cfgr r) s
  warnings : s.warnings = ws

variable {ws : List String} {cr cfgr : BitVec 32}

/-- `CR` reads as the last value written to it. -/
theorem Holds.readCr (h : Holds c r ws cr cfgr s) : readw s 0x00 = .ok (crReadBack cr) := by
  have hpll : s.isEnabled PLLCLK = cr.getLsbD 24 := h.has.isEnabled (i := PLLCLK) rfl
  have hhse : s.isEnabled HSECLK = cr.getLsbD 16 := h.has.isEnabled (i := HSECLK) rfl
  have hhsi : s.isEnabled HSICLK = cr.getLsbD 0 := h.has.isEnabled (i := HSICLK) rfl
  change Except.ok (crRead s) = _
  rw [crRead, crReadBack, hpll, hhse, hhsi]

/-- So does `CFGR`. -/
theorem Holds.readCfgr (h : Holds c r ws cr cfgr s) : readw s 0x04 = .ok (cfgrReadBack cfgr) :=
  congrArg Except.ok ((congrArg cfgrRead h.has.regs :).trans (cfgrRead_cfgrRegs cfgr r))

/-- A quiet write to `CR` warns of nothing. -/
theorem Holds.writeCr (h : Holds c r ws cr cfgr s) (hquiet : QuietCr cr cfgr v) :
    Returns (writew s 0x00 v) (Holds c r ws v cfgr) := by
  obtain ⟨s', hw, h'⟩ := crWrite_has (v := v) h.has
  refine ⟨s', hw, h', ?_⟩
  have hpll : s.isEnabled PLLCLK = cr.getLsbD 24 := h.has.isEnabled (i := PLLCLK) rfl
  have hhse : s.isEnabled HSECLK = cr.getLsbD 16 := h.has.isEnabled (i := HSECLK) rfl
  have hsw : s.SW = (cfgr &&& 0x3#32) >>> 0 := congrArg Stm32Rcc.SW h.has.regs
  have hnone : WarnsPll s v = false ∧ WarnsHse s v = false := by
    unfold WarnsPll WarnsHse
    rw [hpll, hhse, hsw]
    rcases hquiet with h₀ | ⟨h₂₄, h₁₆⟩
    · simp [h₀]
    · cases hc₂₄ : cr.getLsbD 24 <;> cases hc₁₆ : cr.getLsbD 16 <;> simp_all
  rw [crWrite_warnings h.has hw, hnone.1, hnone.2, h.warnings]
  simp

/-- A quiet write to `CFGR` warns of nothing. -/
theorem Holds.writeCfgr (h : Holds c r ws cr cfgr s) (hquiet : QuietCfgr cr cfgr v) :
    Returns (writew s 0x04 v) (Holds c r ws cr v) := by
  have hret : Returns (cfgrWrite s v false) _ := cfgrWrite_has h.has hquiet.1
  obtain ⟨s', hw, h'⟩ := hret
  refine ⟨s', hw, h',
    (cfgrWrite_warnings h.has hw (hquiet.2.imp_right fun hs => ?_)).trans h.warnings⟩
  exact ⟨hs.1, hs.2.1, hs.2.2⟩

/-- **The RCC has the registers that `SystemInit` relies on.** -/
theorem holds_described (c : Cfg) (r : Stm32Rcc) (ws : List String) :
    Described rccRegisters (Holds c r ws) where
  readCr _ _ _ h := h.readCr
  readCfgr _ _ _ h := h.readCfgr
  writeCr _ _ _ _ h hquiet := h.writeCr hquiet
  writeCfgr _ _ _ _ h hquiet := h.writeCfgr hquiet
  writeCir _ _ _ t h := ⟨t, rfl, h⟩

/-- A field, as the firmware masks and shifts it. -/
theorem extract32_eq (v mask : BitVec 32) (k n : ℕ) (hm : mask >>> k = lowMask 32 n) :
    extract32 v k n = (v &&& mask) >>> k := by
  rw [extract32, extractField, BitVec.ushiftRight_and_distrib, hm]

/-- `CFGR &= 0xF8FF0000` keeps the fields of the PLL. -/
theorem samePll_and_mask (hok : FieldsOk s) : SamePll (cfgrRead s &&& 0xF8FF0000#32) s := by
  obtain ⟨-, hmul, hsrc, hxt, -⟩ := cfgrRead_fields hok
  have hkeep : ∀ {mask x : BitVec 32} (k n : ℕ), mask >>> k = lowMask 32 n →
      0xF8FF0000#32 &&& mask = mask → (cfgrRead s &&& mask) >>> k = x →
      extract32 (cfgrRead s &&& 0xF8FF0000#32) k n = x := by
    intro mask x k n hm hsub hx
    rw [extract32_eq _ mask k n hm, BitVec.and_assoc, hsub, hx]
  exact ⟨hkeep 18 4 (by decide) (by decide) hmul, hkeep 17 1 (by decide) (by decide) hxt,
    hkeep 16 1 (by decide) (by decide) hsrc⟩

/-- The switches that `CR |= 1` leaves alone. -/
theorem getLsbD_crRead_or_one (s : Stm32Rcc) :
    (crRead s ||| 0x1#32).getLsbD 24 = s.isEnabled PLLCLK ∧
      (crRead s ||| 0x1#32).getLsbD 16 = s.isEnabled HSECLK := by
  unfold crRead
  cases s.isEnabled PLLCLK <;> cases s.isEnabled HSECLK <;> cases s.isEnabled HSICLK <;>
    exact ⟨rfl, rfl⟩

/-- **The first two steps**: whatever the settings, they are then those of the values
written. -/
theorem Has.systemInitFirst (h : Has c r s) (hok : FieldsOk r) :
    Returns (systemInitFirst rccRegisters s) fun s' => ∃ cr cfgr, cr.getLsbD 0 = true ∧
      Holds c r s.warnings cr (cfgr &&& 0xF8FF0000#32) s' := by
  obtain ⟨hpll, hhse⟩ := getLsbD_crRead_or_one s
  obtain ⟨s₁, hw₁, h₁⟩ := crWrite_has (v := crRead s ||| 0x1#32) h
  -- `CR |= 1` stops nothing
  have hwarn₁ : s₁.warnings = s.warnings := by
    have hnone : WarnsPll s (crRead s ||| 0x1#32) = false ∧
        WarnsHse s (crRead s ||| 0x1#32) = false := by
      unfold WarnsPll WarnsHse
      rw [hpll, hhse]
      simp
    rw [crWrite_warnings h hw₁, hnone.1, hnone.2]
    simp
  have hok₁ : FieldsOk s₁ := by
    obtain ⟨a, b, d, e, f, g, i⟩ := hok
    rw [← h₁.regs] at a b d e f g i
    exact ⟨a, b, d, e, f, g, i⟩
  have hsw : cfgrRead s₁ &&& 0xF8FF0000#32 &&& 0x3#32 ≠ 0x3#32 := by
    rw [BitVec.and_assoc]
    simp
  have hret : Returns (cfgrWrite s₁ (cfgrRead s₁ &&& 0xF8FF0000#32) false) _ :=
    cfgrWrite_has h₁ hsw
  obtain ⟨s₂, hw₂, h₂⟩ := hret
  have hsame : SamePll (cfgrRead s₁ &&& 0xF8FF0000#32) r := by
    obtain ⟨ha, hb, hd⟩ := samePll_and_mask hok₁
    rw [← h₁.regs]
    exact ⟨ha, hb, hd⟩
  refine ⟨s₂, bind_eq_ok.2 ⟨s₁, hw₁, hw₂⟩, crRead s ||| 0x1#32,
    cfgrRead s₁, ?_, h₂, ?_⟩
  · simp
  · exact (cfgrWrite_warnings h₁ hw₂ (Or.inr hsame)).trans hwarn₁

/-! ### The clocks -/

/-- The frequencies that `SystemInit` leaves, as the firmware computes them. -/
def startupClocks : Clocks where
  SYSCLK_Frequency := 72000000#32
  HCLK_Frequency := 72000000#32
  PCLK1_Frequency := 36000000#32
  PCLK2_Frequency := 72000000#32
  ADCCLK_Frequency := 36000000#32

/-- **With the values that `SystemInit` writes**, the firmware computes the frequencies of the
device. -/
theorem Holds.sameClocks (h : Holds c r ws 0x1030003#32 0x1D0402#32 s) :
    cfgrRead s = 0x1D040A#32 ∧ SameClocks s (getClocksFreq (cfgrRead s)) := by
  have hread : cfgrRead s = cfgrReadBack 0x1D0402#32 := pure_eq_ok.1 h.readCfgr
  have hcoh : Coherent s := h.has.coherent ⟨rfl, fieldsOk_cfgrRegs (by decide)⟩
  have hmul : s.PLLMUL = 7#32 := congrArg Stm32Rcc.PLLMUL h.has.regs
  have hsw : s.SW = 2#32 := congrArg Stm32Rcc.SW h.has.regs
  have hsrc : s.PLLSRC = 1#32 := congrArg Stm32Rcc.PLLSRC h.has.regs
  have hchain : ChainEnabled s := by
    unfold ChainEnabled
    rw [hsw, hsrc]
    exact ⟨h.has.isEnabled (i := PLLCLK) rfl, h.has.isEnabled (i := HSECLK) rfl⟩
  refine ⟨hread, (sameClocks_iff hcoh (by rw [hmul]; decide) hchain).2 ?_⟩
  rw [hread]
  decide

/-- Every step keeps settings, with the fields of `CFGR` in their ranges. -/
theorem step_has_fieldsOk {e : Event} (hs : ∃ c r, Has c r s ∧ FieldsOk r)
    (hstep : Step s e s') : ∃ c r, Has c r s' ∧ FieldsOk r := by
  obtain ⟨c, r, h, hok⟩ := hs
  cases e with
  | reset => exact ⟨_, _, (reset_has h).of_eq_ok hstep, fieldsOk_resetRegs r⟩
  | write offset v =>
    have hw := writable_of_writew hstep
    exact ⟨_, _, (writew_has h hw).of_eq_ok hstep, hok.writeRegs hw⟩

/-- The fields of a new device are in their ranges. -/
theorem init_fieldsOk {s₀ : Stm32Rcc} (hinit : init = .ok s₀) : FieldsOk s₀.regs := by
  obtain ⟨t, -, hinit⟩ := bind_eq_ok.1 hinit
  rw [← pure_eq_ok.1 hinit]
  exact fieldsOk_resetRegs (Stm32Rcc.mk {} 0 0 0 0 0 0 0 0 0 0 0 [])

/-- Every state since `stm32_rcc_init` has settings, and fields that are in their ranges. -/
theorem run_has_fieldsOk {l : List Event} {s₀ : Stm32Rcc} (hinit : init = .ok s₀)
    (hrun : Run Step s₀ l s) : ∃ c r, Has c r s ∧ FieldsOk r := by
  obtain ⟨s₀', hinit', h₀⟩ := init_has
  obtain rfl : s₀' = s₀ := Except.ok.inj (hinit'.symm.trans hinit)
  exact Run.invariant (P := fun s => ∃ c r, Has c r s ∧ FieldsOk r)
    (fun _ _ _ hs hstep => step_has_fieldsOk hs hstep) hrun
    ⟨_, _, h₀, h₀.regs ▸ init_fieldsOk hinit⟩

/-- **The start-up of the clocks.**  Whatever was written to the RCC before, since the machine
was made, `SystemInit` returns: its loops end.  The clock tree is then at 72 MHz, with
36 MHz for the first APB bus, and both `RCC_GetClocksFreq` and `SystemCoreClockUpdate` compute
that; the peripherals' clocks are on or off as before, and no warning was given on the way. -/
theorem systemInit_clocks (s₀ s : Stm32Rcc) (l : List Event) (hinit : init = .ok s₀)
    (hrun : Run Step s₀ l s) :
    Settles (fun n => systemInit rccRegisters n s) fun s' =>
      SameClocks s' startupClocks ∧ getClocksFreq (cfgrRead s') = startupClocks ∧
        systemCoreClockUpdate (cfgrRead s') = 72000000#32 ∧
        (∀ p, s'.isEnabled (PERIPHCLK p) = s.isEnabled (PERIPHCLK p)) ∧
        s'.warnings = s.warnings := by
  obtain ⟨c, r, h, hok⟩ := run_has_fieldsOk hinit hrun
  refine ((holds_described c r s.warnings).systemInit (h.systemInitFirst hok)).mono fun s' h' => ?_
  obtain ⟨hread, hsame⟩ := h'.sameClocks
  have hclocks : getClocksFreq (cfgrRead s') = startupClocks := by
    rw [hread]
    decide
  refine ⟨hclocks ▸ hsame, hclocks, by rw [hread]; decide, fun p => ?_, h'.warnings⟩
  have hbefore : HasGates c.periph (enr r) s := ⟨c, r, h, rfl, rfl⟩
  have hafter : HasGates c.periph (enr r) s' := ⟨_, _, h'.has, rfl, rfl⟩
  rw [hbefore.isEnabled, hafter.isEnabled]

/-- On a new machine. -/
theorem systemInit_clocks_new : ∃ s₀, init = .ok s₀ ∧
    Settles (fun n => systemInit rccRegisters n s₀) fun s' => SameClocks s' startupClocks := by
  obtain ⟨s₀, hinit, -⟩ := init_has
  exact ⟨s₀, hinit, (systemInit_clocks s₀ s₀ [] hinit (.nil s₀)).mono fun _ h => h.1⟩

/-! ### `SystemCoreClock` -/

/-- **The AHB prescaler of `SystemCoreClockUpdate`** against the emulator's: above 9 the
divisors differ. -/
theorem ahbPresc_agree_iff {f x : BitVec 32} (hf : 8000000 ≤ f.toNat) (hx : x.toNat ≤ 15) :
    f >>> AHBPrescTable.getD x.toNat 0 = scale f 1#16 ((ahbDivisor x).setWidth 16) ↔
      x.toNat ≤ 9 := by
  have hlt := f.isLt
  obtain ⟨n, hn, rfl⟩ : ∃ n : ℕ, n ≤ 15 ∧ x = BitVec.ofNat 32 n :=
    ⟨x.toNat, hx, by simp⟩
  clear hx
  interval_cases n <;> rw [shift_eq_scale_iff rfl] <;> simp [AHBPrescTable, ahbDivisor] <;> omega

/-- The two tables of the firmware differ for the values 4 to 7, which mean no division. -/
theorem ahbPresc_eq_presc_iff {f x : BitVec 32} (hf : 8000000 ≤ f.toNat) (hx : x.toNat ≤ 15) :
    f >>> presc x = f >>> AHBPrescTable.getD x.toNat 0 ↔ ¬(4 ≤ x.toNat ∧ x.toNat ≤ 7) := by
  have hlt := f.isLt
  obtain ⟨n, hn, rfl⟩ : ∃ n : ℕ, n ≤ 15 ∧ x = BitVec.ofNat 32 n :=
    ⟨x.toNat, hx, by simp⟩
  clear hx
  rw [BitVec.toNat_eq, BitVec.toNat_ushiftRight, BitVec.toNat_ushiftRight,
    Nat.shiftRight_eq_div_pow, Nat.shiftRight_eq_div_pow]
  interval_cases n <;> simp [presc, APBAHBPrescTable, AHBPrescTable] <;> omega

/-- **`SystemCoreClock`.**  After any sequence of register writes since a reset, in a state
with `PLLMUL ≤ 14` in which the oscillators and the PLL that `SYSCLK` is taken from are on,
`SystemCoreClockUpdate` computes the frequency of the emulator's `HCLK` exactly if the AHB
prescaler is at most 9, and that of `RCC_GetClocksFreq` exactly if it is not one of 4 to 7. -/
theorem systemCoreClock_iff (s₀ s₁ s : Stm32Rcc) (l : List Event) (cfgr : BitVec 32)
    (hinit : init = .ok s₀) (hreset : reset s₀ = .ok s₁) (hrun : Run Step s₁ l s)
    (hread : readw s 0x04 = .ok cfgr) (hmul : ((cfgr &&& 0x3C0000#32) >>> 18).toNat ≤ 14)
    (hchain : ChainEnabled s) :
    (systemCoreClockUpdate cfgr = s.outputFreq HCLK ↔ ((cfgr &&& 0xF0#32) >>> 4).toNat ≤ 9) ∧
      ((getClocksFreq cfgr).HCLK_Frequency = systemCoreClockUpdate cfgr ↔
        ¬(4 ≤ ((cfgr &&& 0xF0#32) >>> 4).toNat ∧ ((cfgr &&& 0xF0#32) >>> 4).toNat ≤ 7)) := by
  obtain ⟨s₀', hinit', h₀⟩ := init_has
  obtain rfl : s₀' = s₀ := Except.ok.inj (hinit'.symm.trans hinit)
  obtain ⟨c, h, hok⟩ := run_coherent h₀ hreset hrun
  obtain rfl : cfgrRead s = cfgr := pure_eq_ok.1 hread
  obtain ⟨-, hpllmul, -, -, hhpre, -, -⟩ := cfgrRead_fields hok
  rw [hpllmul] at hmul
  obtain ⟨hsys, hlow⟩ := sysclk_eq h hok hmul hchain
  have hhclk : s.outputFreq HCLK =
      scale (s.outputFreq SYSCLK) 1#16 ((ahbDivisor s.HPRE).setWidth 16) :=
    h.outputFreq_eq (i := HCLK) rfl rfl rfl rfl
  have hupdate : systemCoreClockUpdate (cfgrRead s) =
      s.outputFreq SYSCLK >>> AHBPrescTable.getD s.HPRE.toNat 0 := by
    rw [systemCoreClockUpdate, ← hsys, hhpre]
  have hfreq :
      (getClocksFreq (cfgrRead s)).HCLK_Frequency = s.outputFreq SYSCLK >>> presc s.HPRE := by
    unfold getClocksFreq
    dsimp only
    rw [← hsys, hhpre]
  rw [hupdate, hfreq, hhclk, hhpre]
  exact ⟨ahbPresc_agree_iff hlow hok.hpre, ahbPresc_eq_presc_iff hlow hok.hpre⟩

/-- With the prescaler at 4 the two computations of the firmware differ. -/
theorem systemCoreClock_iff_four :
    ∃ s₀ s₁ s cfgr, init = .ok s₀ ∧ reset s₀ = .ok s₁ ∧
    Run Step s₁ [.write 0x04 0x40#32] s ∧ readw s 0x04 = .ok cfgr ∧
    systemCoreClockUpdate cfgr = s.outputFreq HCLK ∧
    (getClocksFreq cfgr).HCLK_Frequency ≠ systemCoreClockUpdate cfgr := by
  obtain ⟨s₀, s₁, s, hinit, hreset, hrun, hchain, -, hread⟩ :=
    exists_cfgr_run 0x40 (by decide)
  obtain ⟨hcore, hboth⟩ :=
    systemCoreClock_iff s₀ s₁ s _ _ hinit hreset hrun hread (by decide) hchain
  exact ⟨s₀, s₁, s, _, hinit, hreset, hrun, hread, hcore.2 (by decide),
    fun h => absurd (hboth.1 h) (by decide)⟩

end Rcc
end Especial
