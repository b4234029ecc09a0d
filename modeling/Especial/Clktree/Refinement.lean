/-
# The clock tree refines the graph of clocks

The cached frequencies of `stm32_clktree.c` are the frequencies of the graph,
computed from scratch, after every sequence of calls.

`Refines g t` has two halves.  `Shape` says that the heap `t` holds the clocks of
the graph `g` with their settings and that the links run both ways; it speaks of
settings and links only, so an update keeps it.  `Fresh` says that every clock is
right on both sides; an update restores it, given that its own clock is the only
one that is wrong and only on its output side (`Shape.recalc`).  Each operation
makes its change to one clock and calls the update.
-/

import Especial.Clktree.Recalc
import Especial.Lib.Run

namespace Especial
namespace Clktree

open Qemu Lib

/-- The clock of the heap has the settings of the clock of the graph. -/
structure Agrees (n : Node) (c : Clk) : Prop where
  enabled : c.enabled = n.enabled
  multiplier : c.multiplier = n.multiplier
  divisor : c.divisor = n.divisor
  input : c.input = none :: n.inputs.map some
  selectedInput : c.selectedInput = n.selectedInput

/-- What holds of the settings of clock `i` of every graph the interface builds. -/
structure Node.Ok (i : ℕ) (n : Node) : Prop where
  divisor : n.divisor ≠ 0#16
  inputs : ∀ j ∈ n.inputs, j < i
  src : n.src ≠ none → n.inputs = []

/-- The heap holds the graph, and the links run both ways. -/
structure Shape (g : Graph) (t : Tree) : Prop where
  size : t.size = g.length
  node : ∀ (i : ℕ) (n : Node), g[i]? = some n → Agrees n (t.clk i) ∧ n.Ok i
  output : ∀ i < t.size, ∀ j, j ∈ (t.clk i).output ↔
    ∃ n : Node, g[j]? = some n ∧ i ∈ n.inputs

/-- Every clock is right on both sides. -/
def Fresh (g : Graph) (t : Tree) : Prop := ∀ j < t.size, OutOk t j ∧ InOk g.src t j

/-- The heap holds the graph and caches its frequencies. -/
structure Refines (g : Graph) (t : Tree) : Prop where
  shape : Shape g t
  fresh : Fresh g t

variable {g : Graph} {t t' : Tree} {i j : ℕ} {n : Node} {c : Clk}

/-- `input[selected_input + 1]` is the selected input of the graph. -/
theorem Agrees.getInputClk (h : Agrees n c) : c.getInputClk = n.pred := by
  unfold Clk.getInputClk Node.pred
  rw [h.input, h.selectedInput]
  split_ifs with hs
  · have hk : (n.selectedInput + 1).toNat = n.selectedInput.toNat + 1 := by omega
    rw [hk, List.getElem?_cons_succ, List.getElem?_map]
    cases n.inputs[n.selectedInput.toNat]? <;> rfl
  · have hk : (n.selectedInput + 1).toNat = 0 := by omega
    rw [hk]
    rfl

/-- The selected input is one of the inputs. -/
theorem Node.mem_inputs_of_pred {n : Node} {j : ℕ} (h : n.pred = some j) : j ∈ n.inputs := by
  unfold Node.pred at h
  split_ifs at h
  exact List.mem_of_getElem? h

namespace Shape

/-- A clock of the heap is in the graph. -/
theorem exists_node (h : Shape g t) (hi : i < t.size) : ∃ n : Node, g[i]? = some n :=
  ⟨_, List.getElem?_eq_getElem (by rw [← h.size]; exact hi)⟩

/-- A clock of the graph is in the heap. -/
theorem lt_size (h : Shape g t) (hn : g[i]? = some n) : i < t.size := by
  rw [h.size]
  exact (List.getElem?_eq_some_iff.1 hn).1

/-- The graph of a heap is in the order of its creation. -/
theorem ordered (h : Shape g t) : g.Ordered := fun i n hn => (h.node i n hn).2.inputs

/-- The selected input in the heap is the one in the graph. -/
theorem getInputClk (h : Shape g t) (hn : g[i]? = some n) : (t.clk i).getInputClk = n.pred :=
  (h.node i n hn).1.getInputClk

/-- **Updates go through** in a heap that holds a graph. -/
theorem wellLinked (h : Shape g t) : WellLinked t := by
  refine ⟨fun j hj => ?_, fun i hi o ho => ?_, fun j hj i hsel => ?_⟩
  · obtain ⟨n, hn⟩ := h.exists_node hj
    obtain ⟨ha, hok⟩ := h.node j n hn
    rw [ha.divisor]
    exact hok.divisor
  · obtain ⟨n, hn, hmem⟩ := (h.output i hi o).1 ho
    exact ⟨(h.node o n hn).2.inputs i hmem, h.lt_size hn⟩
  · obtain ⟨n, hn⟩ := h.exists_node hj
    rw [h.getInputClk hn] at hsel
    have hmem := Node.mem_inputs_of_pred hsel
    have hij : i < j := (h.node j n hn).2.inputs i hmem
    exact ⟨hij, (h.output i (by omega) j).2 ⟨n, hn, hmem⟩⟩

/-- Its oscillators select nothing. -/
theorem srcUnselected (h : Shape g t) : SrcUnselected g.src t := by
  intro j hsel
  by_cases hj : j < t.size
  · obtain ⟨n, hn⟩ := h.exists_node hj
    rw [h.getInputClk hn] at hsel
    obtain ⟨k, hk⟩ := Option.ne_none_iff_exists'.1 hsel
    have hmem := Node.mem_inputs_of_pred hk
    by_contra hsrc
    have hsrc' : n.src ≠ none := by simpa [Graph.src, hn] using hsrc
    rw [(h.node j n hn).2.src hsrc'] at hmem
    exact absurd hmem List.not_mem_nil
  · rw [Graph.src, List.getElem?_eq_none (by rw [← h.size]; omega)]
    rfl

/-- The graph of a heap is a matter of the settings. -/
theorem sameCfg (h : Shape g t) (hc : SameCfg t t') : Shape g t' := by
  refine ⟨hc.size.trans h.size, fun i n hn => ?_, fun i hi j => ?_⟩
  · obtain ⟨ha, hok⟩ := h.node i n hn
    have hcfg := hc.cfg i
    refine ⟨⟨(congrArg Clk.enabled hcfg :).trans ha.enabled,
      (congrArg Clk.multiplier hcfg :).trans ha.multiplier,
      (congrArg Clk.divisor hcfg :).trans ha.divisor, (congrArg Clk.input hcfg :).trans ha.input,
      (congrArg Clk.selectedInput hcfg :).trans ha.selectedInput⟩, hok⟩
  · rw [hc.output]
    exact h.output i (by rw [← hc.size]; exact hi) j

/-- A change of the settings of one clock, made on both sides. -/
theorem modify (h : Shape g t) (hi : i < t.size) {f : Clk → Clk} {φ : Node → Node}
    (hf : ∀ n, g[i]? = some n → Agrees (φ n) (f (t.clk i)) ∧ (φ n).Ok i)
    (hout : (f (t.clk i)).output = (t.clk i).output) (hin : ∀ n, (φ n).inputs = n.inputs) :
    Shape (g.modify i φ) (t.modify i f) := by
  refine ⟨by simpa using h.size, fun j n hn => ?_, fun k hk j => ?_⟩
  · rw [List.getElem?_modify] at hn
    by_cases hji : j = i
    · subst hji
      obtain ⟨n', hn', rfl⟩ := Option.map_eq_some_iff.1 (by simpa using hn)
      rw [Tree.clk_modify_self hi]
      exact hf n' hn'
    · have hij : ¬i = j := fun h => hji h.symm
      rw [Tree.clk_modify_of_ne hji]
      exact h.node j n (by simpa [hij] using hn)
  · have hclk : ((t.modify i f).clk k).output = (t.clk k).output := by
      rw [Tree.clk_modify hi]
      split_ifs with hki
      · rw [hki, hout]
      · rfl
    rw [hclk, h.output k (by simpa using hk) j]
    by_cases hji : i = j
    · subst hji
      rw [List.getElem?_modify]
      simp [hin]
    · rw [List.getElem?_modify]
      simp [hji]

end Shape

/-- **An update restores the cache**, given that only the output side of its own
clock is wrong. -/
theorem Shape.recalc (h : Shape g t) (hi : i < t.size)
    (hout : ∀ j < t.size, j ≠ i → OutOk t j) (hin : ∀ j < t.size, InOk g.src t j) :
    ∃ t', t.recalc i = .ok t' ∧ Refines g t' := by
  have hspec : ∃ t', recalcOutputFreq t.size t i = .ok t' ∧ Recalced g.src t i t' :=
    recalc_spec h.wellLinked h.srcUnselected hi (by omega)
  obtain ⟨t', ht', hr⟩ := hspec
  refine ⟨t', ht', h.sameCfg hr.sameCfg, fun j hj => ?_⟩
  have hj' : j < t.size := by rw [← hr.sameCfg.size]; exact hj
  exact ⟨hr.outOk j hj' (hout j hj'), hr.inOk j hj' (hin j hj')⟩

/-- **The cached frequencies are those of the graph.** -/
theorem Refines.outputFreq_eq (h : Refines g t) (hi : i < t.size) :
    (t.clk i).outputFreq = g.freq i := by
  refine Network.eq_eval (v := fun i => (t.clk i).outputFreq) (n := t.size)
    h.shape.ordered.network (fun j hj => ?_) i hi
  obtain ⟨n, hn⟩ := h.shape.exists_node hj
  obtain ⟨ha, -⟩ := h.shape.node j n hn
  obtain ⟨ho, hin⟩ := h.fresh j hj
  have hpred : g.network.pred j = n.pred := by simp [Graph.network, hn]
  have hnode : ∀ f, g.network.node j f = n.freq f := fun f => by simp [Graph.network, hn]
  have hsrc : g.src j = n.src := by simp [Graph.src, hn]
  unfold OutOk Clk.outFreq at ho
  unfold InOk Tree.selectedFreq at hin
  rw [hpred, hnode, ho, hin, ha.enabled, ha.multiplier, ha.divisor, hsrc, ha.getInputClk, Node.freq]
  cases n.pred <;> rfl

/-- The equation of the frequencies, for the cached ones. -/
theorem Refines.outputFreq_step (h : Refines g t) (hn : g[i]? = some n) :
    (t.clk i).outputFreq = if n.enabled then
        scale (n.src.getD (match n.pred with | some j => (t.clk j).outputFreq | none => 0#32))
          n.multiplier n.divisor
      else 0#32 := by
  rw [h.outputFreq_eq (h.shape.lt_size hn), Graph.freq_eq h.shape.ordered hn]
  cases hp : n.pred with
  | none => rfl
  | some j =>
    have hj : j < i := (h.shape.node i n hn).2.inputs j (Node.mem_inputs_of_pred hp)
    have hout : (t.clk j).outputFreq = g.freq j :=
      h.outputFreq_eq (hj.trans (h.shape.lt_size hn))
    simp only [hout]

end Clktree
end Especial
