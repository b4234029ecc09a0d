/-
# The interface of the clock tree

`clktree_create_src_clk` and `clktree_create_clk` put a clock at the end of the
heap; the second links it to its inputs one by one, with nothing selected, and
then selects an input.  With them every call of the interface keeps the
refinement, so the cached frequencies are those of the graph in every tree the
interface can build.
-/

import Especial.Clktree.Calls

namespace Especial
namespace Clktree

open Qemu Lib

variable {g : Graph} {t t' : Tree} {i j : ℕ}

/-- A new clock without children, last in the heap and in the graph; the old ones
keep their settings, and its inputs get one child more. -/
theorem Shape.snoc (h : Shape g t) {n : Node} {t' : Tree} (hsize : t'.size = t.size + 1)
    (hnew : Agrees n (t'.clk t.size)) (hok : n.Ok t.size) (hleaf : (t'.clk t.size).output = [])
    (hold : ∀ j < t.size, ∀ m, Agrees m (t.clk j) → Agrees m (t'.clk j))
    (hout : ∀ i < t.size, ∀ j, j ∈ (t'.clk i).output ↔
      j ∈ (t.clk i).output ∨ j = t.size ∧ i ∈ n.inputs) :
    Shape (g ++ [n]) t' := by
  have hlen := h.size
  have hget : ∀ (j : ℕ) (m : Node), (g ++ [n])[j]? = some m ↔
      g[j]? = some m ∨ j = t.size ∧ m = n := by
    intro j m
    rcases Nat.lt_trichotomy j g.length with hj | hj | hj
    · rw [List.getElem?_append_left hj]
      have : j ≠ t.size := by omega
      simp [this]
    · subst hj
      simp [hlen, eq_comm]
    · have h₁ : g[j]? = none := List.getElem?_eq_none (by omega)
      have h₂ : (g ++ [n])[j]? = none := List.getElem?_eq_none (by simpa using hj)
      have : j ≠ t.size := by omega
      simp [h₁, h₂, this]
  refine ⟨by simp [hsize, hlen], fun j m hm => ?_, fun i hi j => ?_⟩
  · rcases (hget j m).1 hm with hm | ⟨rfl, rfl⟩
    · obtain ⟨ha, hok⟩ := h.node j m hm
      exact ⟨hold j (h.lt_size hm) m ha, hok⟩
    · exact ⟨hnew, hok⟩
  · by_cases hit : i = t.size
    · subst hit
      rw [hleaf]
      refine ⟨fun hj => absurd hj List.not_mem_nil, ?_⟩
      rintro ⟨m, hm, hmem⟩
      rcases (hget j m).1 hm with hm | ⟨rfl, rfl⟩
      · have h₁ := (h.node j m hm).2.inputs _ hmem
        have h₂ := h.lt_size hm
        omega
      · exact absurd (hok.inputs _ hmem) (lt_irrefl _)
    · rw [hout i (by omega) j, h.output i (by omega) j]
      constructor
      · rintro (⟨m, hm, hmem⟩ | ⟨rfl, hmem⟩)
        · exact ⟨m, (hget j m).2 (Or.inl hm), hmem⟩
        · exact ⟨n, (hget _ n).2 (Or.inr ⟨rfl, rfl⟩), hmem⟩
      · rintro ⟨m, hm, hmem⟩
        rcases (hget j m).1 hm with hm | ⟨rfl, rfl⟩
        · exact Or.inl ⟨m, hm, hmem⟩
        · exact Or.inr ⟨rfl, hmem⟩

/-- The clock `clk` of `t` linked to the inputs `os`, one by one. -/
structure Linked (t : Tree) (clk : ℕ) (os : List ℕ) (t' : Tree) : Prop where
  size : t'.size = t.size
  new : t'.clk clk = { t.clk clk with input := (t.clk clk).input ++ os.map some }
  old : ∀ j, j ≠ clk →
    t'.clk j = { t.clk j with output := (t.clk j).output ++ List.replicate (os.count j) clk }

/-- No input is linked yet. -/
theorem Linked.nil (t : Tree) (clk : ℕ) : Linked t clk [] t :=
  ⟨rfl, by simp, fun j _ => by simp⟩

/-- One input is linked, and then the others. -/
theorem Linked.cons {t₁ t₂ : Tree} {clk o : ℕ} {os : List ℕ} (h₁ : Linked t clk [o] t₁)
    (h₂ : Linked t₁ clk os t₂) : Linked t clk (o :: os) t₂ := by
  refine ⟨h₂.size.trans h₁.size, ?_, fun j hj => ?_⟩
  · rw [h₂.new, h₁.new]
    simp
  · rw [h₂.old j hj, h₁.old j hj]
    by_cases ho : o = j
    · subst ho
      simp [List.replicate_succ]
    · simp [List.count_cons_of_ne ho]

/-- One input, when both arrays have room. -/
theorem addInput_spec {clk o : ℕ} (hclk : clk < t.size) (ho : o < t.size) (hne : o ≠ clk)
    (hin : (t.clk clk).input.length + 1 ≤ MAX_INPUT)
    (hout : (t.clk o).output.length + 1 ≤ MAX_OUTPUT) :
    ∃ t', Tree.addInput clk t o = .ok t' ∧ Linked t clk [o] t' := by
  set t₁ := t.modify clk fun c => { c with input := c.input ++ [some o] } with ht₁
  set t₂ := t₁.modify o fun c => { c with output := c.output ++ [clk] } with ht₂
  have hs₁ : t₁.size = t.size := Tree.size_modify
  have hc₁ : t₁.clk clk = { t.clk clk with input := (t.clk clk).input ++ [some o] } :=
    Tree.clk_modify_self hclk
  have ho₁ : t₁.clk o = t.clk o := Tree.clk_modify_of_ne hne
  have ho₂ : t₂.clk o = { t.clk o with output := (t.clk o).output ++ [clk] } := by
    rw [ht₂, Tree.clk_modify_self (by omega), ho₁]
  have hassert₁ : (t₁.clk clk).input.length ≤ MAX_INPUT := by
    rw [hc₁]
    simpa using hin
  have hassert₂ : (t₂.clk o).output.length ≤ MAX_OUTPUT := by
    rw [ho₂]
    simpa using hout
  refine ⟨t₂, ?_, Tree.size_modify.trans hs₁, ?_, fun j hj => ?_⟩
  · simp only [Tree.addInput, ← ht₁, ← ht₂, Qemu.assert, hassert₁, hassert₂,
      decide_true, if_true, ok_bind, pure_eq_ok]
  · rw [ht₂, Tree.clk_modify_of_ne (Ne.symm hne), hc₁]
    rfl
  · by_cases hjo : j = o
    · subst hjo
      rw [ho₂]
      simp
    · rw [ht₂, Tree.clk_modify_of_ne hjo, ht₁, Tree.clk_modify_of_ne hj]
      simp [List.count_cons_of_ne (Ne.symm hjo)]

/-- All the inputs, when all the arrays have room for them. -/
theorem foldlM_addInput_spec {clk : ℕ} (os : List ℕ) (hclk : clk < t.size)
    (hos : ∀ o ∈ os, o < t.size ∧ o ≠ clk)
    (hin : (t.clk clk).input.length + os.length ≤ MAX_INPUT)
    (hout : ∀ o ∈ os, (t.clk o).output.length + os.count o ≤ MAX_OUTPUT) :
    ∃ t', os.foldlM (Tree.addInput clk) t = .ok t' ∧ Linked t clk os t' := by
  induction os generalizing t with
  | nil => exact ⟨t, rfl, .nil t clk⟩
  | cons o os ih =>
    obtain ⟨ho, hne⟩ := hos o List.mem_cons_self
    have ho₁ := hout o List.mem_cons_self
    rw [List.count_cons_self] at ho₁
    rw [List.length_cons] at hin
    have hone := addInput_spec hclk ho hne (by omega) (by omega)
    obtain ⟨t₁, ht₁, h₁⟩ := hone
    have hrest := ih (t := t₁) (by rw [h₁.size]; exact hclk) (fun p hp => ?_) ?_ fun p hp => ?_
    · obtain ⟨t₂, ht₂, h₂⟩ := hrest
      refine ⟨t₂, ?_, h₁.cons h₂⟩
      rw [List.foldlM_cons, ht₁, ok_bind, ht₂]
    · rw [h₁.size]
      exact hos p (List.mem_cons_of_mem o hp)
    · rw [h₁.new]
      simp only [List.map_cons, List.map_nil, List.length_append, List.length_cons, List.length_nil]
      omega
    · have hp₁ := hout p (List.mem_cons_of_mem o hp)
      rw [h₁.old p (hos p (List.mem_cons_of_mem o hp)).2]
      rw [List.count_cons] at hp₁
      simp only [List.length_append, List.length_replicate, List.count_cons, List.count_nil]
      omega

/-- A new clock keeps the oscillators before it. -/
theorem Graph.src_snoc_of_lt {n : Node} (hj : j < g.length) : Graph.src (g ++ [n]) j = g.src j := by
  unfold Graph.src
  rw [List.getElem?_append_left hj]

/-- The oscillator of a new clock. -/
theorem Graph.src_snoc_length {n : Node} : Graph.src (g ++ [n]) g.length = n.src := by
  simp [Graph.src]

/-- A change of the clock that was created last. -/
theorem Graph.modify_snoc (g : Graph) (n : Node) (φ : Node → Node) :
    (g ++ [n]).modify g.length φ = g ++ [φ n] := by
  induction g with
  | nil => rfl
  | cons m g ih => simpa using ih

/-- The old clocks stay right when they change in their children only and the
graph gets a clock more. -/
theorem Refines.old_fresh (h : Refines g t) {n : Node} (hj : j < t.size)
    (hclk : ∀ k < t.size, ∃ os, t'.clk k = { t.clk k with output := os }) :
    OutOk t' j ∧ InOk (Graph.src (g ++ [n])) t' j := by
  obtain ⟨ho, hin⟩ := h.fresh j hj
  obtain ⟨os, hos⟩ := hclk j hj
  refine ⟨by unfold OutOk; rw [hos]; exact ho, ?_⟩
  have hcongr : InOk g.src t' j := hin.congr (by rw [hos]) (by rw [hos]; rfl) fun k hk => by
    have hkj := (h.shape.wellLinked.selected j hj k hk).1
    obtain ⟨ks, hks⟩ := hclk k (by omega)
    rw [hks]
  unfold InOk
  rw [Graph.src_snoc_of_lt (by rw [← h.shape.size]; exact hj)]
  exact hcongr

/-- `clktree_create_src_clk`. -/
theorem Refines.createSrcClk (h : Refines g t) (name : String) (srcFreq : BitVec 32)
    (enabled : Bool) :
    ∃ t', t.createSrcClk name srcFreq enabled = .ok t' ∧
      Refines (g.exec (.createSrcClk name srcFreq enabled)) t' := by
  set c := Tree.createGeneric name 1#16 1#16 enabled with hc
  have hclk : ∀ j < t.size, (t.alloc c).clk j = t.clk j := fun j hj => Tree.clk_alloc_of_lt hj
  have hshape : Shape (g.exec (.createSrcClk name srcFreq enabled)) (t.alloc c) := by
    refine h.shape.snoc Tree.size_alloc ?_ ⟨by simp, by simp, fun _ => rfl⟩ ?_
      (fun j hj m hm => ?_) fun i hi j => ?_
    · rw [Tree.clk_alloc_self]
      exact ⟨rfl, rfl, rfl, rfl, rfl⟩
    · rw [Tree.clk_alloc_self]
      rfl
    · rw [hclk j hj]
      exact hm
    · rw [hclk i hi]
      simp
  have hupd := hshape.withInput_recalc (i := t.size) (by simp) fun j hj hji => ?_
  · rw [Graph.exec, h.shape.size, Graph.src_snoc_length, ← h.shape.size] at hupd
    exact hupd
  · have hjt : j < t.size := by
      rw [Tree.size_alloc] at hj
      omega
    exact h.old_fresh hjt fun k hk => ⟨_, hclk k hk⟩

/-- The new clock of `clktree_create_clk`, linked and with nothing selected. -/
theorem Refines.linked (h : Refines g t) {name : String} {m d : BitVec 16} {enabled : Bool}
    {inputs : List ℕ} (hd : d ≠ 0#16) (hinputs : ∀ j ∈ inputs, j < t.size)
    (hl : Linked (t.alloc (Tree.createGeneric name m d enabled)) t.size inputs t') :
    Refines (g ++ [{ src := none, enabled := enabled, multiplier := m, divisor := d,
                     inputs := inputs, selectedInput := NO_INPUT }]) t' := by
  set c := Tree.createGeneric name m d enabled with hc
  have hnew : t'.clk t.size = { c with input := none :: inputs.map some } := by
    rw [hl.new, Tree.clk_alloc_self]
    rfl
  have hold : ∀ j < t.size, t'.clk j =
      { t.clk j with output := (t.clk j).output ++ List.replicate (inputs.count j) t.size } := by
    intro j hj
    rw [hl.old j (by omega), Tree.clk_alloc_of_lt hj]
  have hsize : t'.size = t.size + 1 := hl.size.trans Tree.size_alloc
  refine ⟨h.shape.snoc hsize ?_ ⟨hd, hinputs, fun _ => by contradiction⟩ (by rw [hnew]; rfl)
    (fun j hj m hm => ?_) fun i hi j => ?_, fun j hj => ?_⟩
  · rw [hnew]
    exact ⟨rfl, rfl, rfl, rfl, rfl⟩
  · rw [hold j hj]
    exact ⟨hm.enabled, hm.multiplier, hm.divisor, hm.input, hm.selectedInput⟩
  · rw [hold i hi, List.mem_append, List.mem_replicate]
    have hmem : inputs.count i ≠ 0 ↔ i ∈ inputs :=
      Nat.pos_iff_ne_zero.symm.trans List.count_pos_iff
    rw [hmem, and_comm]
  · by_cases hjt : j = t.size
    · subst hjt
      -- Nothing is selected, so the clock sees 0 and gives 0 whatever its scale.
      have hout : c.outFreq = 0#32 := by
        simp [Clk.outFreq, hc, Tree.createGeneric, scale]
      have hsel : t'.selectedFreq t.size = 0#32 := by
        unfold Tree.selectedFreq
        rw [hnew]
        rfl
      refine ⟨by unfold OutOk; rw [hnew]; exact hout.symm, ?_⟩
      unfold InOk
      rw [hsel, h.shape.size, Graph.src_snoc_length, ← h.shape.size, hnew]
      rfl
    · exact h.old_fresh (by omega) fun k hk => ⟨_, hold k hk⟩

/-- `clktree_create_clk`. -/
theorem Refines.createClk (h : Refines g t) {name : String} {m d : BitVec 16} {enabled : Bool}
    {max : BitVec 32} {sel : ℤ} {inputs : List ℕ}
    (hv : (Op.createClk name m d enabled max sel inputs).Valid g t) :
    ∃ t', t.createClk name m d enabled max sel inputs = .ok t' ∧
      Refines (g.exec (.createClk name m d enabled max sel inputs)) t' := by
  obtain ⟨hd, hinputs, hin, hout, hsel, hlt⟩ := hv
  set c := Tree.createGeneric name m d enabled with hc
  have hlinks : ∃ t₁, inputs.foldlM (Tree.addInput t.size) (t.alloc c) = .ok t₁ ∧
      Linked (t.alloc c) t.size inputs t₁ := by
    refine foldlM_addInput_spec inputs (by simp) (fun o ho => ?_) ?_ fun o ho => ?_
    · have := hinputs o ho
      exact ⟨by rw [Tree.size_alloc]; omega, by omega⟩
    · rw [Tree.clk_alloc_self]
      simpa [hc, Tree.createGeneric, Nat.add_comm] using hin
    · rw [Tree.clk_alloc_of_lt (hinputs o ho)]
      exact hout o ho
  obtain ⟨t₁, ht₁, hl⟩ := hlinks
  set n : Node := ⟨none, enabled, m, d, inputs, NO_INPUT⟩ with hn
  have h₁ : Refines (g ++ [n]) t₁ := h.linked hd hinputs hl
  have hinput : (t₁.clk t.size).input.length = inputs.length + 1 := by
    rw [hl.new, Tree.clk_alloc_self]
    simp [hc, Tree.createGeneric]
  have hsize : t₁.size = t.size + 1 := hl.size.trans Tree.size_alloc
  have hsrc : Graph.src (g ++ [n]) t.size = none := by rw [h.shape.size, Graph.src_snoc_length]
  have hset := h₁.setSelectedInput (i := t.size) (by omega) hsrc hsel (by omega)
  obtain ⟨t₂, ht₂, h₂⟩ := hset
  refine ⟨t₂, ?_, ?_⟩
  · change (inputs.foldlM (Tree.addInput t.size) (t.alloc c) >>= fun t₁ =>
      t₁.setSelectedInput t.size sel) = .ok t₂
    rw [ht₁, ok_bind, ht₂]
  · have hg : Graph.exec (g ++ [n]) (.setSelectedInput t.size sel) =
        g.exec (.createClk name m d enabled max sel inputs) := by
      rw [h.shape.size]
      exact Graph.modify_snoc g n _
    rw [← hg]
    exact h₂

/-- `clktree_adduser`. -/
theorem Refines.adduser (h : Refines g t) (hi : i < t.size) {user : ℕ}
    (hlt : (t.clk i).user.length < MAX_IRQ) :
    ∃ t', t.adduser i user = .ok t' ∧ Refines (g.exec (.adduser i user)) t' := by
  set t₁ := t.modify i fun c => { c with user := c.user ++ [user] } with ht₁
  have hclk : ∀ j, ∃ us, t₁.clk j = { t.clk j with user := us } := by
    intro j
    rw [ht₁, Tree.clk_modify hi]
    split_ifs with hji
    · exact ⟨_, by rw [hji]⟩
    · exact ⟨_, rfl⟩
  have hassert : (t₁.clk i).user.length ≤ MAX_IRQ := by
    rw [ht₁, Tree.clk_modify_self hi]
    simpa using hlt
  have hsize : t₁.size = t.size := Tree.size_modify
  refine ⟨t₁, ?_, ⟨hsize.trans h.shape.size, fun j n hn => ?_, fun k hk j => ?_⟩,
    fun j hj => ?_⟩
  · simp only [Tree.adduser, ← ht₁, Qemu.assert, hassert, decide_true, if_true,
      ok_bind, pure_eq_ok]
  · obtain ⟨us, hus⟩ := hclk j
    obtain ⟨ha, hok⟩ := h.shape.node j n hn
    rw [hus]
    exact ⟨⟨ha.enabled, ha.multiplier, ha.divisor, ha.input, ha.selectedInput⟩, hok⟩
  · obtain ⟨us, hus⟩ := hclk k
    rw [hus]
    exact h.shape.output k (by omega) j
  · obtain ⟨us, hus⟩ := hclk j
    obtain ⟨ho, hin⟩ := h.fresh j (by omega)
    refine ⟨by unfold OutOk; rw [hus]; exact ho, ?_⟩
    refine hin.congr (by rw [hus]) (by rw [hus]; rfl) fun k _ => ?_
    obtain ⟨ks, hks⟩ := hclk k
    rw [hks]

/-- **Every valid call returns and keeps the refinement.** -/
theorem exec_refines {op : Op} (h : Refines g t) (hv : op.Valid g t) :
    ∃ t', t.exec op = .ok t' ∧ Refines (g.exec op) t' := by
  cases op with
  | createSrcClk name f enabled => exact h.createSrcClk name f enabled
  | createClk name m d enabled max sel inputs => exact h.createClk hv
  | adduser i user => exact h.adduser hv.1 hv.2
  | setScale i m d => exact h.setScale hv.1 hv.2
  | setEnabled i enabled => exact h.setEnabled hv
  | setSelectedInput i sel =>
    obtain ⟨hi, hsrc, hsel, hlt⟩ := hv
    exact h.setSelectedInput hi hsrc hsel hlt

/-- One valid call, on the graph and on the heap. -/
def CallStep (s : Graph × Tree) (op : Op) (s' : Graph × Tree) : Prop :=
  op.Valid s.1 s.2 ∧ s.2.exec op = .ok s'.2 ∧ s'.1 = s.1.exec op

/-- The graph and the heap without clocks. -/
theorem Refines.empty : Refines [] {} := by
  refine ⟨⟨rfl, fun i n hn => ?_, fun i hi => ?_⟩, fun j hj => ?_⟩
  · simp at hn
  · exact absurd hi (Nat.not_lt_zero i)
  · exact absurd hj (Nat.not_lt_zero j)

/-- Every tree the interface builds refines the graph of the same calls. -/
theorem run_refines {s : Graph × Tree} {ops : List Op} (h : Run CallStep ([], {}) ops s) :
    Refines s.1 s.2 := by
  refine Run.invariant (P := fun s => Refines s.1 s.2) (fun s op s' hs hstep => ?_) h Refines.empty
  obtain ⟨hv, hexec, hg⟩ := hstep
  obtain ⟨t', ht', hr⟩ := exec_refines hs hv
  rw [hexec] at ht'
  rw [hg, Except.ok.inj ht']
  exact hr

/-- Calls made one after another as long as they are valid. -/
def runCalls : List Op → Graph × Tree → Option (Graph × Tree)
  | [], s => some s
  | op :: ops, (g, t) =>
    if op.Valid g t then
      match t.exec op with
      | .ok t' => runCalls ops (g.exec op, t')
      | .error _ => none
    else none

/-- Calls that were all valid and returned build the graph they describe. -/
theorem runCalls_spec {ops : List Op} {s s' : Graph × Tree} (h : runCalls ops s = some s') :
    Run CallStep s ops s' ∧ s'.1 = ops.foldl Graph.exec s.1 ∧
      ops.foldlM Tree.exec s.2 = .ok s'.2 := by
  induction ops generalizing s with
  | nil =>
    obtain rfl := Option.some.inj h
    exact ⟨.nil s, rfl, rfl⟩
  | cons op ops ih =>
    obtain ⟨g, t⟩ := s
    rw [runCalls] at h
    split_ifs at h with hv
    cases ht : t.exec op with
    | error e => rw [ht] at h; cases h
    | ok t' =>
      rw [ht] at h
      obtain ⟨hrun, hg, hfold⟩ := ih h
      refine ⟨.cons ⟨hv, ht, rfl⟩ hrun, hg, ?_⟩
      rw [List.foldlM_cons, ht, ok_bind]
      exact hfold

/-- **The cached frequencies are those computed from scratch.**  After any
sequence of valid calls the next valid call returns; every cached output frequency
is that of the graph the calls describe, which is `0` for a disabled clock and
otherwise the scaled frequency of its oscillator, of its selected input, or `0`
when none is selected; and every clock but an oscillator sees the output of its
selected input. -/
theorem clktree_freq_from_scratch (ops : List Op) (g : Graph) (t : Tree)
    (h : Run CallStep ([], {}) ops (g, t)) :
    (∀ op : Op, op.Valid g t → ∃ t', t.exec op = .ok t') ∧ t.size = g.length ∧
      ∀ (i : ℕ) (n : Node), g[i]? = some n →
        (t.clk i).outputFreq = g.freq i ∧
        g.freq i = (if n.enabled then
            scale (n.src.getD (match n.pred with | some j => g.freq j | none => 0#32))
              n.multiplier n.divisor
          else 0#32) ∧
        (n.src = none → (t.clk i).inputFreq =
          match n.pred with | some j => (t.clk j).outputFreq | none => 0#32) := by
  have hr : Refines g t := run_refines h
  refine ⟨fun op hv => ?_, hr.shape.size, fun i n hn => ?_⟩
  · obtain ⟨t', ht', -⟩ := exec_refines hr hv
    exact ⟨t', ht'⟩
  · have hi : i < t.size := hr.shape.lt_size hn
    refine ⟨hr.outputFreq_eq hi, Graph.freq_eq hr.shape.ordered hn, fun hsrc => ?_⟩
    have hin : (t.clk i).inputFreq = (g.src i).getD (t.selectedFreq i) := (hr.fresh i hi).2
    have hgsrc : g.src i = none := by simp [Graph.src, hn, hsrc]
    rewrite [hin, hgsrc, Option.getD_none, Tree.selectedFreq, hr.shape.getInputClk hn]
    cases n.pred <;> rfl

/-- An oscillator of 8 MHz and a clock that halves it. -/
theorem clktree_freq_from_scratch_half :
    ∃ g t, Run CallStep ([], {})
        [.createSrcClk "HSI" 8000000#32 true,
          .createClk "HSI/2" 1#16 2#16 true NO_MAX_FREQ 0 [0]] (g, t) ∧
      (t.clk 1).outputFreq = 4000000#32 ∧ g.freq 1 = 4000000#32 := by
  have hrun : Run CallStep ([], {}) [.createSrcClk "HSI" 8000000#32 true,
      .createClk "HSI/2" 1#16 2#16 true NO_MAX_FREQ 0 [0]] (_, _) :=
    .cons (t := (_, _)) ⟨trivial, rfl, rfl⟩
      (.cons (t := (_, _)) ⟨by decide, rfl, rfl⟩ (.nil _))
  have hfreq := ((clktree_freq_from_scratch _ _ _ hrun).2.2 1 _ rfl).1
  exact ⟨_, _, hrun, rfl, hfreq.symm.trans rfl⟩

end Clktree
end Especial
