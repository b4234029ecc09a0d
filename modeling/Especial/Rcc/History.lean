/-
# What the clocks remember

Since a reset, the frequencies are a function of what software can read: `CR`, `CFGR`
and which clocks are enabled (`rcc_freq_of_visible`).  The order of the writes, and
what was written in between, leave no trace: two states that read the same have the
same settings, and the frequencies are those of the graph of the settings.

One thing does leave a trace that it should not.  The reset registers `APB1RSTR` and
`APB2RSTR` open and close the same gates as the enable registers, so what counts is
the last write to either of the two.  `rcc_rstr_iff` says when the writes to the reset
registers can be left out of a sequence.
-/

import Especial.Rcc.ClocksFreq
import Especial.Rcc.PeriphClocks

namespace Especial
namespace Rcc

open Qemu Stm32 Clktree Lib

variable {c c' : Cfg} {r r' s s' : Stm32Rcc}

/-! ### States that read the same -/

/-- The frequencies are those of the graph of the settings. -/
theorem Has.outputFreq_graph (h : Has c r s) {i : ℕ} (hi : i < 25) :
    s.outputFreq i = c.graph.freq i :=
  h.tree.outputFreq_eq (by rw [h.size]; exact hi)

/-- The bits of `CR` are the clocks it is rebuilt from. -/
theorem getLsbD_crRead (s : Stm32Rcc) : (crRead s).getLsbD 24 = s.isEnabled PLLCLK ∧
    (crRead s).getLsbD 16 = s.isEnabled HSECLK ∧ (crRead s).getLsbD 0 = s.isEnabled HSICLK := by
  unfold crRead
  generalize s.isEnabled PLLCLK = a
  generalize s.isEnabled HSECLK = b
  generalize s.isEnabled HSICLK = d
  revert a b d
  decide

/-- The clocks that `CR` does not show are enabled alike. -/
structure SameEnabled (s s' : Stm32Rcc) : Prop where
  periph : ∀ p, s.isEnabled (PERIPHCLK p) = s'.isEnabled (PERIPHCLK p)
  lse : s.isEnabled LSECLK = s'.isEnabled LSECLK
  lsi : s.isEnabled LSICLK = s'.isEnabled LSICLK

/-- **The settings are a function of what software can read.** -/
theorem Coherent.cfg_eq (h : Has (c.ofFields s) s.regs s) (hok : FieldsOk s)
    (h' : Has (c'.ofFields s') s'.regs s') (hok' : FieldsOk s') (hcr : crRead s = crRead s')
    (hcfgr : cfgrRead s = cfgrRead s') (hen : SameEnabled s s') :
    c.ofFields s = c'.ofFields s' := by
  obtain ⟨hpll, hhse, hhsi⟩ := getLsbD_crRead s
  obtain ⟨hpll', hhse', hhsi'⟩ := getLsbD_crRead s'
  rw [hcr] at hpll hhse hhsi
  have h₁ : c.pll = c'.pll := ((h.isEnabled (i := PLLCLK) rfl).symm.trans
    (hpll.symm.trans hpll')).trans (h'.isEnabled (i := PLLCLK) rfl)
  have h₂ : c.hse = c'.hse := ((h.isEnabled (i := HSECLK) rfl).symm.trans
    (hhse.symm.trans hhse')).trans (h'.isEnabled (i := HSECLK) rfl)
  have h₃ : c.hsi = c'.hsi := ((h.isEnabled (i := HSICLK) rfl).symm.trans
    (hhsi.symm.trans hhsi')).trans (h'.isEnabled (i := HSICLK) rfl)
  have h₄ : c.lse = c'.lse := ((h.isEnabled (i := LSECLK) rfl).symm.trans hen.lse).trans
    (h'.isEnabled (i := LSECLK) rfl)
  have h₅ : c.lsi = c'.lsi := ((h.isEnabled (i := LSICLK) rfl).symm.trans hen.lsi).trans
    (h'.isEnabled (i := LSICLK) rfl)
  have h₆ : c.periph = c'.periph := funext fun p => by
    obtain ⟨_, hp⟩ := (c.ofFields s).graph_periph p
    obtain ⟨_, hp'⟩ := (c'.ofFields s').graph_periph p
    exact ((h.isEnabled hp).symm.trans (hen.periph p)).trans (h'.isEnabled hp')
  obtain ⟨hsw, hmul, hsrc, hxt, hhpre, hp₁, hp₂⟩ := cfgrRead_fields hok
  obtain ⟨hsw', hmul', hsrc', hxt', hhpre', hp₁', hp₂'⟩ := cfgrRead_fields hok'
  rw [hcfgr] at hsw hmul hsrc hxt hhpre hp₁ hp₂
  unfold Cfg.ofFields
  rw [← hsw, ← hmul, ← hsrc, ← hxt, ← hhpre, ← hp₁, ← hp₂, hsw', hmul', hsrc',
    hxt', hhpre', hp₁', hp₂', h₁, h₂, h₃, h₄, h₅, h₆]

/-- **The frequencies depend only on what software can read.**  Two devices, each after
any history and any sequence of writes since a reset, whose `CR` and `CFGR` read the
same and whose peripheral, LSE and LSI clocks are enabled alike have the same output
frequency at every clock. -/
theorem rcc_freq_of_visible (s₀ a b s a' b' s' : Stm32Rcc) (l₀ l l₀' l' : List Event)
    (hinit : init = .ok s₀) (h₀ : Run Step s₀ l₀ a) (hreset : reset a = .ok b)
    (hrun : Run Step b l s) (h₀' : Run Step s₀ l₀' a') (hreset' : reset a' = .ok b')
    (hrun' : Run Step b' l' s') (hcr : readw s 0x00 = readw s' 0x00)
    (hcfgr : readw s 0x04 = readw s' 0x04) (hen : SameEnabled s s') :
    ∀ clk < 25, s.outputFreq clk = s'.outputFreq clk := by
  obtain ⟨_, _, ha⟩ := run_has hinit h₀
  obtain ⟨_, _, ha'⟩ := run_has hinit h₀'
  obtain ⟨c, h, hok⟩ := run_coherent ha hreset hrun
  obtain ⟨c', h', hok'⟩ := run_coherent ha' hreset' hrun'
  have hcfg := Coherent.cfg_eq h hok h' hok' (Except.ok.inj hcr) (Except.ok.inj hcfgr) hen
  intro clk hclk
  rw [h.outputFreq_graph hclk, h'.outputFreq_graph hclk, hcfg]

/-- Equal settings and fields read the same. -/
theorem Has.visible_eq (h : Has c r s) (h' : Has c r' s') (hr : cfgrRead r = cfgrRead r') :
    readw s 0x00 = readw s' 0x00 ∧ readw s 0x04 = readw s' 0x04 ∧ SameEnabled s s' := by
  have hen : ∀ {i : ℕ} {n : Node}, c.graph[i]? = some n → s.isEnabled i = s'.isEnabled i :=
    fun hn => (h.isEnabled hn).trans (h'.isEnabled hn).symm
  have hcr : crRead s = crRead s' := by
    unfold crRead
    rw [hen (i := PLLCLK) rfl, hen (i := HSECLK) rfl, hen (i := HSICLK) rfl]
  have hcfgr : cfgrRead s = cfgrRead s' := by
    have hs : cfgrRead s = cfgrRead r := (congrArg cfgrRead h.regs :)
    have hs' : cfgrRead s' = cfgrRead r' := (congrArg cfgrRead h'.regs :)
    rw [hs, hs', hr]
  refine ⟨congrArg Except.ok hcr, congrArg Except.ok hcfgr, fun p => ?_, hen rfl, hen rfl⟩
  obtain ⟨_, hp⟩ := c.graph_periph p
  exact hen hp

/-- `CFGR` is written once, or written twice with the same value at the end. -/
theorem rcc_freq_of_visible_twice : ∃ s₀ b s s', init = .ok s₀ ∧ reset s₀ = .ok b ∧
    Run Step b [.write 0x04 0x490] s ∧ Run Step b [.write 0x04 0xA0, .write 0x04 0x490] s' ∧
    s.outputFreq HCLK = s'.outputFreq HCLK := by
  obtain ⟨s₀, hinit, h₀⟩ := init_has
  obtain ⟨b, hreset, hb⟩ := reset_has h₀
  obtain ⟨s, hwrite, h⟩ := writew_has hb (show Writable 0x04 0x490 by decide)
  obtain ⟨t, hwrite₁, ht⟩ := writew_has hb (show Writable 0x04 0xA0 by decide)
  obtain ⟨s', hwrite₂, h'⟩ := writew_has ht (show Writable 0x04 0x490 by decide)
  have hrun : Run Step b [.write 0x04 0x490] s := .cons hwrite (.nil s)
  have hrun' : Run Step b [.write 0x04 0xA0, .write 0x04 0x490] s' :=
    .cons hwrite₁ (.cons hwrite₂ (.nil s'))
  obtain ⟨hcr, hcfgr, hen⟩ := h.visible_eq h' rfl
  exact ⟨s₀, b, s, s', hinit, hreset, hrun, hrun',
    rcc_freq_of_visible s₀ s₀ b s s₀ b s' [] _ [] _ hinit (.nil s₀) hreset hrun
      (.nil s₀) hreset hrun' hcr hcfgr hen HCLK (by decide)⟩

/-! ### The reset registers -/

/-- The offset of `APB1RSTR` and `APB2RSTR`. -/
def Bus.rstrOffset : Bus → ℕ
  | .apb1 => 0x10
  | .apb2 => 0x0c

/-- A sequence of register writes. -/
def writes (s : Stm32Rcc) (l : List (ℕ × BitVec 32)) : Except Fault Stm32Rcc :=
  l.foldlM (fun s w => writew s w.1 w.2) s

/-- A write to one of the reset registers. -/
def isRstr (w : ℕ × BitVec 32) : Bool :=
  w.1 == Bus.apb1.rstrOffset || w.1 == Bus.apb2.rstrOffset

/-- The sequence without the writes to the reset registers. -/
def withoutRstr (l : List (ℕ × BitVec 32)) : List (ℕ × BitVec 32) :=
  l.filter fun w => !isRstr w

/-- The value of the last write to one of the registers, and `0` if there is none. -/
def lastWrite (offsets : List ℕ) (l : List (ℕ × BitVec 32)) : BitVec 32 :=
  l.foldl (fun v w => if w.1 ∈ offsets then w.2 else v) 0#32

/-- The last write to the enable or the reset register of each bus agrees with the last
write to the enable register, at the bit of every peripheral of the bus. -/
def RstrAgrees (l : List (ℕ × BitVec 32)) : Prop :=
  ∀ p : Periph,
    (lastWrite [(enableBit p).1.offset, (enableBit p).1.rstrOffset] l).getLsbD (enableBit p).2 =
      (lastWrite [(enableBit p).1.offset] l).getLsbD (enableBit p).2

/-- One more write is the last one, if it goes to one of the registers. -/
theorem lastWrite_snoc (offsets : List ℕ) (l : List (ℕ × BitVec 32)) (w : ℕ × BitVec 32) :
    lastWrite offsets (l ++ [w]) = if w.1 ∈ offsets then w.2 else lastWrite offsets l := by
  simp [lastWrite]

/-- The gates after a write to a register. -/
theorem periph_write (c : Cfg) (r : Stm32Rcc) (w : ℕ × BitVec 32) (p : Periph) :
    (c.write r w.1 w.2).periph p =
      if w.1 ∈ [(enableBit p).1.offset, (enableBit p).1.rstrOffset] then
        w.2.getLsbD (enableBit p).2
      else c.periph p := by
  obtain ⟨offset, v⟩ := w
  unfold Cfg.write
  dsimp only
  split
  case h_9 h₀ h₁ h₂ h₃ h₄ h₅ h₆ h₇ =>
    have hmem : offset ∉ [(enableBit p).1.offset, (enableBit p).1.rstrOffset] := by
      cases (enableBit p).1 <;> simp_all [Bus.offset, Bus.rstrOffset]
    rw [if_neg hmem]
  all_goals cases p <;> rfl

/-- A write does the same to all other settings, whatever the gates are. -/
theorem write_gates (c : Cfg) (f : Periph → Bool) (r r' : Stm32Rcc) (offset : ℕ)
    (v : BitVec 32) :
    Cfg.write { c with periph := f } r' offset v =
      { c.write r offset v with periph := (Cfg.write
        { c with periph := f } r' offset v).periph } := by
  unfold Cfg.write
  split <;> rfl

/-- The reset registers, one for each bus. -/
theorem isRstr_iff {w : ℕ × BitVec 32} : isRstr w = true ↔
    ∃ b : Bus, w.1 = b.rstrOffset := by
  unfold isRstr
  rw [Bool.or_eq_true, beq_iff_eq, beq_iff_eq]
  constructor
  · rintro (h | h)
    · exact ⟨_, h⟩
    · exact ⟨_, h⟩
  · rintro ⟨b, h⟩
    cases b with
    | apb1 => exact Or.inl h
    | apb2 => exact Or.inr h

/-- One more write. -/
theorem writes_snoc (s : Stm32Rcc) (l : List (ℕ × BitVec 32)) (w : ℕ × BitVec 32) :
    writes s (l ++ [w]) = writes s l >>= fun t => writew t w.1 w.2 := by
  simp [writes]

/-- The gates of the peripherals by the last write to one of some registers. -/
def gatesOf (offsets : Bus → List ℕ) (l : List (ℕ × BitVec 32)) (p : Periph) : Bool :=
  (lastWrite (offsets (enableBit p).1) l).getLsbD (enableBit p).2

/-- One more write sets the gates of its bus. -/
theorem gatesOf_snoc (offsets : Bus → List ℕ) (l : List (ℕ × BitVec 32))
    (w : ℕ × BitVec 32) (p : Periph) : gatesOf offsets (l ++ [w]) p =
      if w.1 ∈ offsets (enableBit p).1 then w.2.getLsbD (enableBit p).2
        else gatesOf offsets l p := by
  rw [gatesOf, lastWrite_snoc]
  split_ifs <;> rfl

/-- The enable register of a bus, with and without the reset register. -/
def bothOffsets (b : Bus) : List ℕ := [b.offset, b.rstrOffset]
@[inherit_doc bothOffsets] def enrOffsets (b : Bus) : List ℕ := [b.offset]

/-- **The two sequences side by side.**  They lead to the same settings except for the
gates: with the reset registers, these are by the last write to either register. -/
theorem writes_has {s₁ : Stm32Rcc} {l : List (ℕ × BitVec 32)} (h₁ : Has Cfg.reset r s₁)
    (h : writes s₁ l = .ok s) :
    ∃ c r r' s', Has c r s ∧ c.periph = gatesOf bothOffsets l ∧
      writes s₁ (withoutRstr l) = .ok s' ∧
      Has { c with periph := gatesOf enrOffsets l } r' s' := by
  induction l using List.reverseRecOn generalizing s with
  | nil =>
    obtain rfl : s₁ = s := Except.ok.inj h
    exact ⟨Cfg.reset, r, r, s₁, h₁,
      funext fun p => by simp [gatesOf, lastWrite, Cfg.reset], rfl, by
      have hnone : gatesOf enrOffsets [] = fun _ => false :=
        funext fun p => by simp [gatesOf, lastWrite]
      rw [hnone]
      exact h₁⟩
  | append_singleton l w ih =>
    rw [writes_snoc] at h
    obtain ⟨t, ht, hw⟩ := bind_eq_ok.1 h
    obtain ⟨c, r, r', t', hc, hperiph, ht', hc'⟩ := ih ht
    have hwritable := writable_of_writew hw
    have hs := (writew_has hc hwritable).of_eq_ok hw
    have hgates : (c.write r w.1 w.2).periph = gatesOf bothOffsets (l ++ [w]) := funext fun p => by
      rw [periph_write, gatesOf_snoc, hperiph]
      rfl
    have happend : withoutRstr (l ++ [w]) = withoutRstr l ++ if isRstr w then [] else [w] := by
      cases hr : isRstr w <;> simp [withoutRstr, hr]
    rw [happend]
    cases hrstr : isRstr w with
    | true =>
      obtain ⟨b, hb⟩ := isRstr_iff.1 hrstr
      have hrest : ({ c.write r w.1 w.2 with periph := gatesOf enrOffsets (l ++ [w]) } : Cfg) =
          { c with periph := gatesOf enrOffsets l } := by
        have henr : gatesOf enrOffsets (l ++ [w]) = gatesOf enrOffsets l := funext fun p => by
          rw [gatesOf_snoc, if_neg]
          rw [hb, enrOffsets]
          cases b <;> cases p <;> decide
        rw [henr, hb]
        cases b <;> rfl
      refine ⟨_, _, r', t', hs, hgates, by rw [if_pos rfl, List.append_nil]; exact ht', ?_⟩
      rw [hrest]
      exact hc'
    | false =>
      obtain ⟨s', hw', hs'⟩ := writew_has hc' hwritable
      have hne : ∀ b : Bus, w.1 ≠ b.rstrOffset := fun b hb => by
        rw [isRstr_iff.2 ⟨b, hb⟩] at hrstr
        exact absurd hrstr (by decide)
      rw [write_gates c _ r] at hs'
      have henr : (Cfg.write { c with periph := gatesOf enrOffsets l } r' w.1 w.2).periph =
          gatesOf enrOffsets (l ++ [w]) := funext fun p => by
        rw [periph_write, gatesOf_snoc]
        simp [enrOffsets, hne]
      rw [henr] at hs'
      refine ⟨_, _, _, s', hs, hgates, ?_, hs'⟩
      rw [if_neg (by simp), writes_snoc, ht']
      exact hw'

/-- **When the reset registers do no harm.**  From the reset of any state of the
device, a sequence of register writes and the same sequence without the writes to the
reset registers leave every peripheral clock in the same state and with the same
frequency exactly if, at the bit of every peripheral, the last write to the enable or
the reset register of its bus agrees with the last write to the enable register. -/
theorem rcc_rstr_iff (s₀ a s₁ s : Stm32Rcc) (l₀ : List Event) (l : List (ℕ × BitVec 32))
    (hinit : init = .ok s₀) (h₀ : Run Step s₀ l₀ a) (hreset : reset a = .ok s₁)
    (h : writes s₁ l = .ok s) :
    ∃ s', writes s₁ (withoutRstr l) = .ok s' ∧
      ((∀ p, s'.isEnabled (PERIPHCLK p) = s.isEnabled (PERIPHCLK p) ∧
        s'.outputFreq (PERIPHCLK p) = s.outputFreq (PERIPHCLK p)) ↔ RstrAgrees l) := by
  obtain ⟨_, _, ha⟩ := run_has hinit h₀
  obtain ⟨c, r, r', s', hs, hperiph, hs', hhas'⟩ :=
    writes_has ((reset_has ha).of_eq_ok hreset) h
  refine ⟨s', hs', ?_⟩
  have hen : ∀ p, s.isEnabled (PERIPHCLK p) = gatesOf bothOffsets l p := fun p => by
    obtain ⟨_, hp⟩ := c.graph_periph p
    rw [hs.isEnabled hp, ← hperiph]
    rfl
  have hen' : ∀ p, s'.isEnabled (PERIPHCLK p) = gatesOf enrOffsets l p := fun p => by
    obtain ⟨_, hp⟩ := Cfg.graph_periph { c with periph := gatesOf enrOffsets l } p
    rw [hhas'.isEnabled hp]
    rfl
  constructor
  · intro hall p
    have hp := (hall p).1
    rw [hen, hen'] at hp
    exact hp.symm
  · intro hagree
    have hgates : gatesOf enrOffsets l = c.periph := by
      rw [hperiph]
      exact funext fun p => (hagree p).symm
    rw [hgates] at hhas'
    intro p
    have hlt : PERIPHCLK p < 25 := periphclk_lt p
    refine ⟨?_, ?_⟩
    · rw [hen, hen', ← hperiph, hgates]
    · rw [hs.outputFreq_graph hlt, hhas'.outputFreq_graph hlt]

/-- Two writes that the device takes are possible after a reset. -/
theorem exists_writes_two (o o' : ℕ) (v v' : BitVec 32) (h : Writable o v) (h' : Writable o' v') :
    ∃ s₀ s₁ s r, init = .ok s₀ ∧ reset s₀ = .ok s₁ ∧ Has Cfg.reset r s₁ ∧
      writes s₁ [(o, v), (o', v')] = .ok s := by
  obtain ⟨s₀, hinit, h₀⟩ := init_has
  obtain ⟨s₁, hreset, h₁⟩ := reset_has h₀
  obtain ⟨t, hwrite, ht⟩ := writew_has h₁ h
  obtain ⟨s, hwrite', -⟩ := writew_has ht h'
  refine ⟨s₀, s₁, s, _, hinit, hreset, h₁, ?_⟩
  simp [writes, hwrite, hwrite', ok_bind]

instance (l : List (ℕ × BitVec 32)) : Decidable (RstrAgrees l) :=
  decidable_of_iff (∀ p ∈ [Periph.gpioa, .gpiob, .gpioc, .gpiod, .gpioe, .gpiof, .gpiog, .afio,
      .uart1, .uart2, .uart3, .uart4, .uart5], gatesOf bothOffsets l p = gatesOf enrOffsets l p)
    ⟨fun h p => h p (by cases p <;> decide), fun h p _ => h p⟩

/-- `GPIOA` is switched on and reset: a write that keeps its clock. -/
theorem rcc_rstr_same_bit : ∃ s₀ s₁ s s', init = .ok s₀ ∧ reset s₀ = .ok s₁ ∧
    writes s₁ [(0x18, 0x4), (0x0c, 0x4)] = .ok s ∧ writes s₁ [(0x18, 0x4)] = .ok s' ∧
    s'.outputFreq (PERIPHCLK .gpioa) = s.outputFreq (PERIPHCLK .gpioa) := by
  obtain ⟨s₀, s₁, s, r, hinit, hreset, -, hs⟩ :=
    exists_writes_two 0x18 0x0c 0x4 0x4 (by decide) (by decide)
  obtain ⟨s', hs', hiff⟩ := rcc_rstr_iff s₀ s₀ s₁ s [] _ hinit (.nil s₀) hreset hs
  exact ⟨s₀, s₁, s, s', hinit, hreset, hs, hs', (hiff.2 (by decide) .gpioa).2⟩

/-- The end of the reset of a peripheral, a write of `0`, switches off the clock of
`GPIOA`. -/
theorem rcc_rstr_gates_gpioa : ∃ s₀ s₁ s s', init = .ok s₀ ∧ reset s₀ = .ok s₁ ∧
    writes s₁ [(0x18, 0x4), (0x0c, 0x0)] = .ok s ∧
    writes s₁ (withoutRstr [(0x18, 0x4), (0x0c, 0x0)]) = .ok s' ∧
    s.isEnabled (PERIPHCLK .gpioa) = false ∧ s'.isEnabled (PERIPHCLK .gpioa) = true := by
  obtain ⟨s₀, s₁, s, r, hinit, hreset, h₁, hs⟩ :=
    exists_writes_two 0x18 0x0c 0x4 0x0 (by decide) (by decide)
  obtain ⟨c, r, r', s', hc, hperiph, hs', hc'⟩ := writes_has h₁ hs
  obtain ⟨_, hp⟩ := c.graph_periph .gpioa
  obtain ⟨_, hp'⟩ := Cfg.graph_periph { c with periph := gatesOf enrOffsets _ } .gpioa
  refine ⟨s₀, s₁, s, s', hinit, hreset, hs, hs', ?_, ?_⟩
  · rw [hc.isEnabled hp, hperiph]
    rfl
  · rw [hc'.isEnabled hp']
    rfl

end Rcc
end Especial
