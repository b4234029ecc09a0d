/-
# The calls that change a setting keep the cache right

`clktree_set_scale` and `clktree_set_enabled` change a setting of one clock and
update it; `clktree_set_selected_input` and `clktree_create_src_clk` first give
the clock the frequency it now sees.  On a heap that refines a graph each of them
returns, and the new heap refines the new graph.
-/

import Especial.Clktree.Refinement

namespace Especial
namespace Clktree

open Qemu Lib

variable {g : Graph} {t t' : Tree} {i j : ℕ} {n : Node} {c : Clk}

/-- A change of settings keeps the oscillators. -/
theorem Graph.src_modify (g : Graph) (i : ℕ) {φ : Node → Node}
    (hφ : ∀ n, (φ n).src = n.src) : Graph.src (g.modify i φ) = g.src := by
  funext j
  unfold Graph.src
  rw [List.getElem?_modify]
  by_cases hij : i = j
  · subst hij
    cases g[i]? <;> simp [hφ]
  · simp [hij]

/-- A change of settings that leaves the selection and the cached frequencies of
the clock, followed by the update. -/
theorem Refines.modify_recalc (h : Refines g t) (hi : i < t.size) {f : Clk → Clk}
    {φ : Node → Node}
    (hf : ∀ n, g[i]? = some n → Agrees (φ n) (f (t.clk i)) ∧ (φ n).Ok i)
    (hcached : (f (t.clk i)).inputFreq = (t.clk i).inputFreq ∧
      (f (t.clk i)).outputFreq = (t.clk i).outputFreq)
    (hlinks : (f (t.clk i)).output = (t.clk i).output ∧
      (f (t.clk i)).getInputClk = (t.clk i).getInputClk)
    (hφ : ∀ n, (φ n).inputs = n.inputs ∧ (φ n).src = n.src) :
    ∃ t', (t.modify i f).recalc i = .ok t' ∧ Refines (g.modify i φ) t' := by
  have hshape : Shape (g.modify i φ) (t.modify i f) :=
    h.shape.modify hi hf hlinks.1 fun n => (hφ n).1
  have hsame : ∀ {α : Type} (p : Clk → α), p (f (t.clk i)) = p (t.clk i) →
      ∀ j, p ((t.modify i f).clk j) = p (t.clk j) := by
    intro α p hp j
    rw [Tree.clk_modify hi]
    split_ifs with hji
    · rw [hp, hji]
    · rfl
  refine hshape.recalc (by simpa using hi) (fun j hj hji => ?_) fun j hj => ?_
  · unfold OutOk
    rw [Tree.clk_modify_of_ne hji]
    exact (h.fresh j (by simpa using hj)).1
  · rw [Graph.src_modify g i fun n => (hφ n).2]
    exact (h.fresh j (by simpa using hj)).2.congr (hsame Clk.inputFreq hcached.1 j)
      (hsame Clk.getInputClk hlinks.2 j) fun k _ => hsame Clk.outputFreq hcached.2 k

/-- `clktree_set_scale`. -/
theorem Refines.setScale (h : Refines g t) (hi : i < t.size) {m d : BitVec 16} (hd : d ≠ 0#16) :
    ∃ t', t.setScale i m d = .ok t' ∧ Refines (g.exec (.setScale i m d)) t' := by
  refine h.modify_recalc hi (fun n hn => ?_) ⟨rfl, rfl⟩ ⟨rfl, rfl⟩ fun n => ⟨rfl, rfl⟩
  obtain ⟨ha, hok⟩ := h.shape.node i n hn
  exact ⟨⟨ha.enabled, rfl, rfl, ha.input, ha.selectedInput⟩, hd, hok.inputs, hok.src⟩

/-- `clktree_set_enabled`. -/
theorem Refines.setEnabled (h : Refines g t) (hi : i < t.size) {enabled : Bool} :
    ∃ t', t.setEnabled i enabled = .ok t' ∧ Refines (g.exec (.setEnabled i enabled)) t' := by
  refine h.modify_recalc hi (fun n hn => ?_) ⟨rfl, rfl⟩ ⟨rfl, rfl⟩ fun n => ⟨rfl, rfl⟩
  obtain ⟨ha, hok⟩ := h.shape.node i n hn
  exact ⟨⟨rfl, ha.multiplier, ha.divisor, ha.input, ha.selectedInput⟩,
    hok.divisor, hok.inputs, hok.src⟩

/-! ### Calls that set an input frequency -/

/-- The assignment of `clktree_set_input_freq`. -/
def Tree.withInput (t : Tree) (i : ℕ) (f : BitVec 32) : Tree :=
  t.modify i fun c => { c with inputFreq := f }

/-- The assignment of `clktree_set_selected_input`. -/
def Tree.select (t : Tree) (i : ℕ) (sel : ℤ) : Tree :=
  t.modify i fun c => { c with selectedInput := sel }

/-- **Setting the input frequency of one clock.**  If every other clock is right,
and this one is given the frequency of its oscillator or of its selected input,
the update makes all of them right. -/
theorem Shape.withInput_recalc (h : Shape g t) (hi : i < t.size)
    (hok : ∀ j < t.size, j ≠ i → OutOk t j ∧ InOk g.src t j) :
    ∃ t', (t.withInput i ((g.src i).getD (t.selectedFreq i))).recalc i = .ok t' ∧
      Refines g t' := by
  set f := (g.src i).getD (t.selectedFreq i) with hf
  have hcfg : SameCfg t (t.withInput i f) := .modify hi rfl
  have hsize : (t.withInput i f).size = t.size := hcfg.size
  have hne : ∀ j, j ≠ i → (t.withInput i f).clk j = t.clk j :=
    fun j hj => Tree.clk_modify_of_ne hj
  have hout : ∀ j, ((t.withInput i f).clk j).outputFreq = (t.clk j).outputFreq := by
    intro j
    rw [Tree.withInput, Tree.clk_modify hi]
    split_ifs with hji
    · rw [hji]
    · rfl
  refine (h.sameCfg hcfg).recalc (by omega) (fun j hj hji => ?_) fun j hj => ?_
  · unfold OutOk
    rw [hne j hji]
    exact (hok j (by omega) hji).1
  · by_cases hji : j = i
    · subst hji
      have hsel : (t.withInput j f).selectedFreq j = t.selectedFreq j := by
        unfold Tree.selectedFreq
        rw [hcfg.getInputClk]
        cases (t.clk j).getInputClk with
        | none => rfl
        | some k => exact hout k
      unfold InOk
      rw [hsel, ← hf, Tree.withInput, Tree.clk_modify_self hi]
    · exact (hok j (by omega) hji).2.congr (by rw [hne j hji]) (by rw [hne j hji])
        fun k _ => hout k

/-- What `clktree_set_selected_input` computes when its `assert` holds. -/
theorem Tree.setSelectedInput_eq {sel : ℤ} (hi : i < t.size) (hsel : -1 ≤ sel)
    (hlt : (sel + 1).toNat < (t.clk i).input.length) (hnull : (t.clk i).input[0]? = some none) :
    t.setSelectedInput i sel =
      ((t.select i sel).withInput i ((t.select i sel).selectedFreq i)).recalc i := by
  have hassert : (decide (0 ≤ sel + 1 ∧ (sel + 1).toNat < (t.clk i).input.length)) = true :=
    decide_eq_true ⟨by omega, hlt⟩
  rw [Tree.setSelectedInput, Qemu.assert, if_pos hassert, ok_bind]
  dsimp only
  by_cases hs : sel > -1
  · rw [if_pos hs]
    rfl
  · have hnone : ((t.select i sel).clk i).getInputClk = none := by
      have hk : (sel + 1).toNat = 0 := by omega
      rw [Tree.select, Tree.clk_modify_self hi, Clk.getInputClk]
      change ((t.clk i).input[(sel + 1).toNat]?).join = none
      rw [hk, hnull]
      rfl
    rw [if_neg hs, Tree.selectedFreq, hnone]
    rfl

/-- `clktree_set_selected_input`. -/
theorem Refines.setSelectedInput (h : Refines g t) (hi : i < t.size) (hsrc : g.src i = none)
    {sel : ℤ} (hsel : -1 ≤ sel) (hlt : (sel + 1).toNat < (t.clk i).input.length) :
    ∃ t', t.setSelectedInput i sel = .ok t' ∧
    Refines (g.exec (.setSelectedInput i sel)) t' := by
  obtain ⟨n, hn⟩ := h.shape.exists_node hi
  have hnull : (t.clk i).input[0]? = some none := by rw [(h.shape.node i n hn).1.input]; rfl
  have hsize : (t.select i sel).size = t.size := Tree.size_modify
  have hshape : Shape (g.exec (.setSelectedInput i sel)) (t.select i sel) := by
    refine h.shape.modify hi (fun n hn => ?_) rfl fun n => rfl
    obtain ⟨ha, hok⟩ := h.shape.node i n hn
    exact ⟨⟨ha.enabled, ha.multiplier, ha.divisor, ha.input, rfl⟩, hok.divisor,
      hok.inputs, hok.src⟩
  have hgsrc : Graph.src (g.exec (.setSelectedInput i sel)) = g.src :=
    Graph.src_modify g i fun n => rfl
  have hout : ∀ j, ((t.select i sel).clk j).outputFreq = (t.clk j).outputFreq := by
    intro j
    rw [Tree.select, Tree.clk_modify hi]
    split_ifs with hji
    · rw [hji]
    · rfl
  rw [Tree.setSelectedInput_eq hi hsel hlt hnull]
  have hupd := hshape.withInput_recalc (i := i) (by omega) fun j hj hji => ?_
  · rw [hgsrc, hsrc] at hupd
    exact hupd
  · have hclk : (t.select i sel).clk j = t.clk j := Tree.clk_modify_of_ne hji
    obtain ⟨ho, hin⟩ := h.fresh j (by omega)
    refine ⟨by unfold OutOk; rw [hclk]; exact ho, ?_⟩
    rw [hgsrc]
    exact hin.congr (by rw [hclk]) (by rw [hclk]) fun k _ => hout k

end Clktree
end Especial
