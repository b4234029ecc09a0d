/-
# What one recursive update of the clock tree does

`clktree_recalc_output_freq` stops at a clock whose output did not change and
skips the children that have selected another input, so its effect has to be
stated by what it leaves locally right.  A clock is right on its *output* side
(`OutOk`) when its cached output frequency is the one its input frequency and
settings give, and on its *input* side (`InOk`) when its cached input frequency
is the output of the input it has selected.

`recalc_spec`: on a well-linked tree the update of clock `i` returns, touches no
setting and no clock before `i`, makes the output of `i` right, and takes away no
right side that any clock had.  The last part is where the links matter: a change
of the output of `i` breaks the input side of exactly the clocks that have
selected `i`, all of them are among its children, and each one is repaired when
the loop gets to it.
-/

import Especial.Clktree.Graph

namespace Especial
namespace Clktree

open Qemu

namespace Tree

variable {t : Tree} {i j : ℕ} {f : Clk → Clk} {c : Clk} {e : Event}

/-- An assignment allocates nothing. -/
@[simp] theorem size_modify : (t.modify i f).size = t.size := by simp [size, modify]

/-- One clock more. -/
@[simp] theorem size_alloc : (t.alloc c).size = t.size + 1 := by simp [size, alloc]

/-- What the clocks are after an assignment. -/
theorem clk_modify (hi : i < t.size) :
    (t.modify i f).clk j = if j = i then f (t.clk i) else t.clk j := by
  simp only [clk, modify, List.getD_eq_getElem?_getD, List.getElem?_modify]
  by_cases h : j = i
  · subst h
    have hj : j < t.clks.length := hi
    simp [hj]
  · have h' : ¬i = j := fun h' => h h'.symm
    simp [h, h']

/-- The clock that is assigned to. -/
@[simp] theorem clk_modify_self (hi : i < t.size) : (t.modify i f).clk i = f (t.clk i) := by
  rw [clk_modify hi, if_pos rfl]

/-- The other clocks. -/
theorem clk_modify_of_ne (h : j ≠ i) : (t.modify i f).clk j = t.clk j := by
  have h' : ¬i = j := fun h' => h h'.symm
  simp [clk, modify, List.getD_eq_getElem?_getD, h']

/-- The new clock. -/
@[simp] theorem clk_alloc_self : (t.alloc c).clk t.size = c := by
  simp [clk, alloc, size, List.getD_eq_getElem?_getD]

/-- The old clocks. -/
theorem clk_alloc_of_lt (h : j < t.size) : (t.alloc c).clk j = t.clk j := by
  have hj : j < t.clks.length := h
  simp [clk, alloc, List.getD_eq_getElem?_getD, List.getElem?_append_left hj]

/-- The users are told and nothing else happens to the clocks. -/
theorem clks_notifyUsers (t : Tree) (i : ℕ) : (t.notifyUsers i).clks = t.clks := by
  have hloop : ∀ (us : List ℕ) (t : Tree),
      (us.foldl (fun t u => t.emit (.setIrq u t.clks)) t).clks = t.clks := by
    intro us
    induction us with
    | nil => exact fun t => rfl
    | cons u us ih => exact fun t => ih _
  exact hloop _ t

/-- A warning changes no clock. -/
theorem clks_warnMax (t : Tree) (i : ℕ) (freq : BitVec 32) :
    (t.warnMax i freq).clks = t.clks := by
  unfold warnMax
  split_ifs <;> rfl

end Tree

/-- The clocks are in the heap. -/
theorem clk_congr {t t' : Tree} (h : t'.clks = t.clks) (j : ℕ) : t'.clk j = t.clk j := by
  rw [Tree.clk, h]
  rfl

/-- The settings and links of a clock, without the two cached frequencies. -/
def Clk.cfg (c : Clk) : Clk := { c with inputFreq := 0#32, outputFreq := 0#32 }

/-- Two clocks with the same settings have the same selected input. -/
theorem Clk.getInputClk_congr {c c' : Clk} (h : c'.cfg = c.cfg) :
    c'.getInputClk = c.getInputClk := by
  have hi : c'.cfg.input = c.cfg.input := congrArg Clk.input h
  have hs : c'.cfg.selectedInput = c.cfg.selectedInput := congrArg Clk.selectedInput h
  have hi' : c'.input = c.input := hi
  have hs' : c'.selectedInput = c.selectedInput := hs
  rw [Clk.getInputClk, Clk.getInputClk, hi', hs']

/-- The output frequency of a clock for its input frequency and settings. -/
def Clk.outFreq (c : Clk) : BitVec 32 :=
  if c.enabled then scale c.inputFreq c.multiplier c.divisor else 0#32

/-- With a divisor other than `0`, the source computes that frequency. -/
theorem Clk.newOutputFreq_eq {c : Clk} (hd : c.divisor ≠ 0#16) :
    c.newOutputFreq = .ok c.outFreq := by
  unfold newOutputFreq outFreq
  split_ifs with he
  · have hf : (c.inputFreq.setWidth 64).toNat = c.inputFreq.toNat :=
      BitVec.toNat_setWidth_of_le (by omega)
    have hm : (c.multiplier.setWidth 32).toNat = c.multiplier.toNat :=
      BitVec.toNat_setWidth_of_le (by omega)
    have hdiv : (c.divisor.setWidth 32).toNat = c.divisor.toNat :=
      BitVec.toNat_setWidth_of_le (by omega)
    have hd32 : c.divisor.setWidth 32 ≠ 0#32 := by
      intro h
      refine hd (BitVec.eq_of_toNat_eq ?_)
      rw [← hdiv, h]
      rfl
    obtain ⟨r, hr, hlow⟩ := muldiv64_low (a := c.inputFreq.setWidth 64)
      (b := c.multiplier.setWidth 32) (c := c.divisor.setWidth 32)
      (by rw [hf]; exact c.inputFreq.isLt) (by rw [hm]; exact c.multiplier.isLt)
      (by rw [hdiv]; exact c.divisor.isLt) hd32
    rw [hr, ok_bind, hlow, hf, hm, hdiv]
    rfl
  · rfl

/-! ### The two sides on which a clock can be right -/

/-- The frequency a clock should see: the output of the input it has selected. -/
def Tree.selectedFreq (t : Tree) (j : ℕ) : BitVec 32 :=
  match (t.clk j).getInputClk with
  | some i => (t.clk i).outputFreq
  | none => 0#32

/-- The cached output frequency follows from the cached input frequency. -/
def OutOk (t : Tree) (j : ℕ) : Prop := (t.clk j).outputFreq = (t.clk j).outFreq

/-- The cached input frequency is that of the oscillator (`src`), or of the
selected input. -/
def InOk (src : ℕ → Option (BitVec 32)) (t : Tree) (j : ℕ) : Prop :=
  (t.clk j).inputFreq = (src j).getD (t.selectedFreq j)

/-- Settings under which updates go through: no divisor is `0`, children come
after their inputs, and who has selected a clock is one of its children. -/
structure WellLinked (t : Tree) : Prop where
  divisor : ∀ j < t.size, (t.clk j).divisor ≠ 0#16
  output : ∀ i < t.size, ∀ o ∈ (t.clk i).output, i < o ∧ o < t.size
  selected : ∀ j < t.size, ∀ i, (t.clk j).getInputClk = some i →
    i < j ∧ j ∈ (t.clk i).output

/-- Only the cached frequencies differ. -/
structure SameCfg (t t' : Tree) : Prop where
  size : t'.size = t.size
  cfg : ∀ j, (t'.clk j).cfg = (t.clk j).cfg

namespace SameCfg

variable {t t' t'' : Tree}

/-- Every heap has its own settings. -/
theorem refl (t : Tree) : SameCfg t t := ⟨rfl, fun _ => rfl⟩

/-- Heaps with the settings of a third one. -/
theorem trans (h : SameCfg t t') (h' : SameCfg t' t'') : SameCfg t t'' :=
  ⟨h'.size.trans h.size, fun j => (h'.cfg j).trans (h.cfg j)⟩

/-- The selected input is a setting. -/
theorem getInputClk (h : SameCfg t t') (j : ℕ) :
    (t'.clk j).getInputClk = (t.clk j).getInputClk :=
  Clk.getInputClk_congr (h.cfg j)

/-- The children are settings. -/
theorem output (h : SameCfg t t') (j : ℕ) : (t'.clk j).output = (t.clk j).output := by
  have ho : (t'.clk j).cfg.output = (t.clk j).cfg.output := congrArg Clk.output (h.cfg j)
  exact ho

/-- Whether updates go through is a matter of the settings. -/
theorem wellLinked (h : SameCfg t t') (hw : WellLinked t) : WellLinked t' := by
  refine ⟨fun j hj => ?_, fun i hi o ho => ?_, fun j hj i hi => ?_⟩
  · have hd : (t'.clk j).cfg.divisor = (t.clk j).cfg.divisor := congrArg Clk.divisor (h.cfg j)
    have hd' : (t'.clk j).divisor = (t.clk j).divisor := hd
    rw [hd']
    exact hw.divisor j (by rw [← h.size]; exact hj)
  · rw [h.output] at ho
    rw [h.size] at hi ⊢
    exact hw.output i hi o ho
  · rw [h.getInputClk] at hi
    rw [h.output]
    exact hw.selected j (by rw [← h.size]; exact hj) i hi

/-- Assigning a frequency to a clock leaves the settings. -/
theorem modify {i : ℕ} (hi : i < t.size) {f : Clk → Clk}
    (hf : (f (t.clk i)).cfg = (t.clk i).cfg) : SameCfg t (t.modify i f) := by
  refine ⟨Tree.size_modify, fun j => ?_⟩
  rw [Tree.clk_modify hi]
  split_ifs with h
  · rw [h]; exact hf
  · rfl

end SameCfg

/-! ### A new output frequency -/

/-- The assignment of a new output frequency, the warning and the loop over the users. -/
def Tree.withOutput (t : Tree) (i : ℕ) (f : BitVec 32) : Tree :=
  ((t.modify i fun c => { c with outputFreq := f }).warnMax i f).notifyUsers i

/-- One call deep: the new frequency, and the loop over the children if it is another one. -/
theorem recalcOutputFreq_succ (fuel : ℕ) (t : Tree) (i : ℕ) :
    recalcOutputFreq (fuel + 1) t i = ((t.clk i).newOutputFreq >>= fun newFreq =>
      if newFreq = (t.clk i).outputFreq then pure t
      else ((t.withOutput i newFreq).clk i).output.foldlM
        (propagate (recalcOutputFreq fuel) i newFreq) (t.withOutput i newFreq)) := rfl

section WithOutput

variable {t : Tree} {i : ℕ} {f : BitVec 32}

/-- The users change no clock. -/
theorem Tree.clks_withOutput :
    (t.withOutput i f).clks = (t.modify i fun c => { c with outputFreq := f }).clks :=
  (Tree.clks_notifyUsers _ i).trans (Tree.clks_warnMax _ i f)

/-- The clocks after the assignment of a new output frequency. -/
theorem Tree.clk_withOutput (hi : i < t.size) (j : ℕ) :
    (t.withOutput i f).clk j = if j = i then { t.clk i with outputFreq := f } else t.clk j :=
  (clk_congr Tree.clks_withOutput j).trans (Tree.clk_modify hi)

/-- The assignment of a new output frequency keeps the settings. -/
theorem SameCfg.withOutput (hi : i < t.size) : SameCfg t (t.withOutput i f) := by
  have hcfg : SameCfg t (t.modify i fun c => { c with outputFreq := f }) := .modify hi rfl
  refine ⟨?_, fun j => ?_⟩
  · rw [Tree.size, Tree.clks_withOutput]
    exact hcfg.size
  · rw [clk_congr Tree.clks_withOutput]
    exact hcfg.cfg j

end WithOutput

variable {src : ℕ → Option (BitVec 32)} {t t' : Tree} {i j : ℕ}

/-- A clock keeps its input side when its input frequency, its selection and the
output of the selected clock stay. -/
theorem InOk.congr (h : InOk src t j) (hf : (t'.clk j).inputFreq = (t.clk j).inputFreq)
    (hs : (t'.clk j).getInputClk = (t.clk j).getInputClk)
    (ho : ∀ i, (t.clk j).getInputClk = some i → (t'.clk i).outputFreq = (t.clk i).outputFreq) :
    InOk src t' j := by
  have hsel : t'.selectedFreq j = t.selectedFreq j := by
    unfold Tree.selectedFreq
    rw [hs]
    cases hc : (t.clk j).getInputClk with
    | none => rfl
    | some i => exact ho i hc
  unfold InOk
  rw [hf, hsel]
  exact h

/-- What an update of clock `i` gives. -/
structure Recalced (src : ℕ → Option (BitVec 32)) (t : Tree) (i : ℕ) (t' : Tree) : Prop where
  sameCfg : SameCfg t t'
  below : ∀ j < i, t'.clk j = t.clk j
  inputFreq : (t'.clk i).inputFreq = (t.clk i).inputFreq
  outOk : ∀ j < t.size, (j ≠ i → OutOk t j) → OutOk t' j
  inOk : ∀ j < t.size, InOk src t j → InOk src t' j

/-- What the loop over the children `os` of clock `i` gives: it repairs the input
side of those that have selected `i`. -/
structure Propagated (src : ℕ → Option (BitVec 32)) (i : ℕ) (os : List ℕ)
    (t t' : Tree) : Prop where
  sameCfg : SameCfg t t'
  upTo : ∀ j ≤ i, t'.clk j = t.clk j
  outOk : ∀ j < t.size, OutOk t j → OutOk t' j
  inOk : ∀ j < t.size, (InOk src t j ∨ (t.clk j).getInputClk = some i ∧ j ∈ os) →
    InOk src t' j

/-- An oscillator selects nothing. -/
def SrcUnselected (src : ℕ → Option (BitVec 32)) (t : Tree) : Prop :=
  ∀ j, (t.clk j).getInputClk ≠ none → src j = none

/-- That oscillators select nothing is a matter of the settings. -/
theorem SrcUnselected.sameCfg (h : SrcUnselected src t) (hc : SameCfg t t') :
    SrcUnselected src t' :=
  fun j hj => h j (by rw [← hc.getInputClk]; exact hj)

/-- One child: either it is skipped, or its input frequency is set and it is
updated in turn (`hrec`). -/
theorem propagate_spec {recalc : Tree → ℕ → Except Fault Tree} {f : BitVec 32} {o : ℕ}
    (hrec : ∀ t₁, SameCfg t t₁ → ∃ t', recalc t₁ o = .ok t' ∧ Recalced src t₁ o t')
    (hsrc : SrcUnselected src t) (hi : i < o) (ho : o < t.size) (hf : (t.clk i).outputFreq = f) :
    ∃ t', propagate recalc i f t o = .ok t' ∧ Propagated src i [o] t t' := by
  unfold propagate
  split_ifs with hsel
  · have hcfg : SameCfg t (t.modify o fun c => { c with inputFreq := f }) := .modify ho rfl
    obtain ⟨t', ht', hr⟩ := hrec _ hcfg
    have hne : ∀ j, j ≠ o → (t.modify o fun c => { c with inputFreq := f }).clk j = t.clk j :=
      fun j hj => Tree.clk_modify_of_ne hj
    have hout : ∀ j, ((t.modify o fun c => { c with inputFreq := f }).clk j).outputFreq =
        (t.clk j).outputFreq := by
      intro j
      rw [Tree.clk_modify ho]
      split_ifs with h
      · rw [h]
      · rfl
    refine ⟨t', ht', hcfg.trans hr.sameCfg, fun j hj => ?_, fun j hj hok => ?_,
      fun j hj hok => ?_⟩
    · rw [hr.below j (by omega), hne j (by omega)]
    · refine hr.outOk j (by simpa using hj) fun hjo => ?_
      unfold OutOk
      rw [hne j hjo]
      exact hok
    · refine hr.inOk j (by simpa using hj) ?_
      by_cases hjo : j = o
      · -- the child itself now sees the new output of `i`
        subst hjo
        have hsj : src j = none := hsrc j (by rw [hsel]; simp)
        unfold InOk Tree.selectedFreq
        rw [hcfg.getInputClk, hsel, hsj, Tree.clk_modify_self ho]
        exact ((hout i).trans hf).symm
      · have hin : InOk src t j := hok.resolve_right fun h => hjo (List.mem_singleton.1 h.2)
        exact hin.congr (by rw [hne j hjo]) (hcfg.getInputClk j) fun k _ => hout k
  · refine ⟨t, rfl, .refl t, fun _ _ => rfl, fun _ _ h => h, fun j hj hok => ?_⟩
    refine hok.resolve_right fun h => hsel ?_
    rw [← List.mem_singleton.1 h.2]
    exact h.1

/-- The loop over the children: the invariant of the loop is that no clock up to
`i` has changed, so the frequency handed on stays the output of `i`. -/
theorem foldlM_propagate_spec {recalc : Tree → ℕ → Except Fault Tree} {f : BitVec 32}
    {os : List ℕ}
    (hrec : ∀ o ∈ os, ∀ t₁, SameCfg t t₁ →
      ∃ t', recalc t₁ o = .ok t' ∧ Recalced src t₁ o t')
    (hsrc : SrcUnselected src t) (hos : ∀ o ∈ os, i < o ∧ o < t.size)
    (hf : (t.clk i).outputFreq = f) :
    ∃ t', os.foldlM (propagate recalc i f) t = .ok t' ∧ Propagated src i os t t' := by
  induction os generalizing t with
  | nil =>
      refine ⟨t, rfl, .refl t, fun _ _ => rfl, fun _ _ h => h, fun j _ hok => ?_⟩
      exact hok.resolve_right fun h => absurd h.2 List.not_mem_nil
  | cons o os ih =>
      obtain ⟨hio, ho⟩ := hos o (List.mem_cons_self ..)
      obtain ⟨t₁, ht₁, h₁⟩ :=
        propagate_spec (hrec o (List.mem_cons_self ..)) hsrc hio ho hf
      have hsize : t₁.size = t.size := h₁.sameCfg.size
      obtain ⟨t', ht', h₂⟩ := ih (t := t₁)
        (fun o' ho' t₂ ht₂ => hrec o' (List.mem_cons_of_mem _ ho') t₂
          (h₁.sameCfg.trans ht₂))
        (hsrc.sameCfg h₁.sameCfg)
        (fun o' ho' => by rw [hsize]; exact hos o' (List.mem_cons_of_mem _ ho'))
        (by rw [h₁.upTo i le_rfl]; exact hf)
      refine ⟨t', by rw [List.foldlM_cons, ht₁, ok_bind, ht'], h₁.sameCfg.trans h₂.sameCfg,
        fun j hj => (h₂.upTo j hj).trans (h₁.upTo j hj),
        fun j hj hok => h₂.outOk j (by omega) (h₁.outOk j hj hok), fun j hj hok => ?_⟩
      refine h₂.inOk j (by omega) ?_
      rcases hok with hok | ⟨hsel, hmem⟩
      · exact Or.inl (h₁.inOk j hj (Or.inl hok))
      · rcases List.mem_cons.1 hmem with rfl | hmem
        · exact Or.inl (h₁.inOk j hj (Or.inr ⟨hsel, List.mem_singleton.2 rfl⟩))
        · exact Or.inr ⟨by rw [h₁.sameCfg.getInputClk]; exact hsel, hmem⟩

/-- **The recursive update.**  On a well-linked tree it returns as soon as the
depth allowed is the number of clocks from `i` on, and it does what `Recalced`
says.  The induction is on the depth: a child comes after its input. -/
theorem recalc_spec {fuel : ℕ} (hw : WellLinked t) (hsrc : SrcUnselected src t) (hi : i < t.size)
    (hfuel : t.size - i ≤ fuel) :
    ∃ t', recalcOutputFreq fuel t i = .ok t' ∧ Recalced src t i t' := by
  induction fuel generalizing t i with
  | zero => omega
  | succ fuel ih =>
      rw [recalcOutputFreq_succ, Clk.newOutputFreq_eq (hw.divisor i hi), ok_bind]
      split_ifs with heq
      · refine ⟨t, rfl, .refl t, fun _ _ => rfl, rfl, fun j _ hok => ?_, fun _ _ h => h⟩
        by_cases hji : j = i
        · subst hji; exact heq.symm
        · exact hok hji
      · set f := (t.clk i).outFreq with hfdef
        set t₁ := t.withOutput i f with ht₁def
        have hself : t₁.clk i = { t.clk i with outputFreq := f } := by
          rw [ht₁def, Tree.clk_withOutput hi, if_pos rfl]
        have hne : ∀ j, j ≠ i → t₁.clk j = t.clk j := fun j hj => by
          rw [ht₁def, Tree.clk_withOutput hi, if_neg hj]
        have hcfg : SameCfg t t₁ := .withOutput hi
        have hw₁ : WellLinked t₁ := hcfg.wellLinked hw
        have hos : ∀ o ∈ (t₁.clk i).output, i < o ∧ o < t₁.size :=
          hw₁.output i (by rw [hcfg.size]; exact hi)
        have hrec : ∀ o ∈ (t₁.clk i).output, ∀ t₂, SameCfg t₁ t₂ →
            ∃ t', recalcOutputFreq fuel t₂ o = .ok t' ∧ Recalced src t₂ o t' := by
          intro o ho t₂ ht₂
          obtain ⟨hio, hot⟩ := hos o ho
          have h₂ := ht₂.size
          have h₃ := hcfg.size
          exact ih (ht₂.wellLinked hw₁) ((hsrc.sameCfg hcfg).sameCfg ht₂)
            (by omega) (by omega)
        obtain ⟨t', ht', hp⟩ :=
          foldlM_propagate_spec hrec (hsrc.sameCfg hcfg) hos (by rw [hself])
        have hsize : t₁.size = t.size := hcfg.size
        refine ⟨t', ht', hcfg.trans hp.sameCfg, fun j hj => ?_, ?_, fun j hj hok => ?_,
          fun j hj hok => ?_⟩
        · rw [hp.upTo j hj.le, hne j (by omega)]
        · rw [hp.upTo i le_rfl, hself]
        · refine hp.outOk j (by omega) ?_
          by_cases hji : j = i
          · subst hji
            unfold OutOk
            rw [hself]
            rfl
          · unfold OutOk
            rw [hne j hji]
            exact hok hji
        · refine hp.inOk j (by omega) ?_
          by_cases hsel : (t.clk j).getInputClk = some i
          · -- broken by the new output of `i`, and repaired by the loop
            refine Or.inr ⟨by rw [hcfg.getInputClk]; exact hsel, ?_⟩
            rw [hcfg.output]
            exact (hw.selected j hj i hsel).2
          · refine Or.inl (hok.congr ?_ (hcfg.getInputClk j) fun k hk => ?_)
            · by_cases hji : j = i
              · subst hji; rw [hself]
              · rw [hne j hji]
            · rw [hne k fun hki => hsel (hki ▸ hk)]

end Clktree
end Especial
