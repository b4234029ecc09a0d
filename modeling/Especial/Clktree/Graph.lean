/-
# What the clock tree is for: a graph of clocks and its frequencies

The abstract side of `stm32_clktree.c`: a graph of clocks in the order they were
created, each an oscillator with a frequency of its own or a clock with a list of
inputs, one of which may be selected, and the settings that turn an input
frequency into an output frequency.  Nothing is cached.  `freq` evaluates the
graph from scratch, and `freq_eq` is the equation it satisfies; the public
operations (`exec`) change settings only.
-/

import Especial.Clktree.Basic
import Especial.Lib.Network

namespace Especial
namespace Clktree

open Lib

/-- `floor(f * multiplier / divisor) mod 2^32`. -/
def scale (f : BitVec 32) (multiplier divisor : BitVec 16) : BitVec 32 :=
  BitVec.ofNat 32 (f.toNat * multiplier.toNat / divisor.toNat)

/-- A clock of the graph; `src` is the frequency of an oscillator. -/
structure Node where
  src : Option (BitVec 32)
  enabled : Bool
  multiplier : BitVec 16
  divisor : BitVec 16
  inputs : List ℕ
  selectedInput : ℤ
  deriving DecidableEq, Repr, Inhabited

/-- The selected input, if one is selected. -/
def Node.pred (n : Node) : Option ℕ :=
  if 0 ≤ n.selectedInput then n.inputs[n.selectedInput.toNat]? else none

/-- The output frequency for the frequency of the selected input: `0` if the
clock is disabled, and an oscillator has its own. -/
def Node.freq (n : Node) (input : Option (BitVec 32)) : BitVec 32 :=
  if n.enabled then scale (n.src.getD (input.getD 0#32)) n.multiplier n.divisor else 0#32

/-- The clocks in the order of their creation. -/
abbrev Graph := List Node

namespace Graph

/-- The frequency of the oscillator, for a source clock. -/
def src (g : Graph) (i : ℕ) : Option (BitVec 32) := (g[i]?).bind Node.src

/-- The graph as a network of frequencies. -/
def network (g : Graph) : Network (BitVec 32) where
  pred i := (g[i]?).bind Node.pred
  node i input := match g[i]? with
    | some n => n.freq input
    | none => 0#32

/-- The output frequency of clock `i`, computed from scratch. -/
def freq (g : Graph) (i : ℕ) : BitVec 32 := g.network.eval i

/-- Every clock was created after its inputs. -/
def Ordered (g : Graph) : Prop := ∀ (i : ℕ) (n : Node), g[i]? = some n →
    ∀ j ∈ n.inputs, j < i

variable {g : Graph}

/-- A graph in the order of its creation is a network in order. -/
theorem Ordered.network (h : g.Ordered) : g.network.Ordered := by
  intro i j hj
  obtain ⟨n, hn, hp⟩ := Option.bind_eq_some_iff.1 hj
  unfold Node.pred at hp
  split_ifs at hp
  exact h i n hn j (List.mem_of_getElem? hp)

/-- **The equation of the frequencies.**  A disabled clock gives `0`; otherwise
the frequency of the oscillator, of the selected input, or `0` when none is
selected, is multiplied and divided. -/
theorem freq_eq (h : g.Ordered) {i : ℕ} {n : Node} (hn : g[i]? = some n) :
    g.freq i = if n.enabled then
        scale (n.src.getD (match n.pred with | some j => g.freq j | none => 0#32))
          n.multiplier n.divisor
      else 0#32 := by
  have he := Network.eval_eq h.network i
  have hpred : g.network.pred i = n.pred := by simp [Graph.network, hn]
  have hnode : ∀ f, g.network.node i f = n.freq f := fun f => by simp [Graph.network, hn]
  rw [freq, he, hpred, hnode, Node.freq]
  cases n.pred <;> rfl

/-- What a call of the interface does to the graph. -/
def exec (g : Graph) : Op → Graph
  | .createSrcClk _ srcFreq enabled =>
      g ++ [{ src := some srcFreq, enabled := enabled, multiplier := 1#16, divisor := 1#16,
              inputs := [], selectedInput := NO_INPUT }]
  | .createClk _ m d enabled _ sel inputs =>
      g ++ [{ src := none, enabled := enabled, multiplier := m, divisor := d,
              inputs := inputs, selectedInput := sel }]
  | .adduser _ _ => g
  | .setScale i m d => g.modify i fun n => { n with multiplier := m, divisor := d }
  | .setEnabled i enabled => g.modify i fun n => { n with enabled := enabled }
  | .setSelectedInput i sel => g.modify i fun n => { n with selectedInput := sel }

end Graph

/-- The calls a client may make: a divisor is not `0`, a clock named exists, the
links fit their arrays, an index passes the `assert` on it, and the input of an
oscillator is not selected. -/
def Op.Valid (g : Graph) (t : Tree) : Op → Prop
  | .createSrcClk _ _ _ => True
  | .createClk _ _ d _ _ sel inputs =>
      d ≠ 0#16 ∧ (∀ j ∈ inputs, j < t.size) ∧ inputs.length + 1 ≤ MAX_INPUT ∧
        (∀ j ∈ inputs, (t.clk j).output.length + inputs.count j ≤ MAX_OUTPUT) ∧
        -1 ≤ sel ∧ sel < inputs.length
  | .adduser i _ => i < t.size ∧ (t.clk i).user.length < MAX_IRQ
  | .setScale i _ d => i < t.size ∧ d ≠ 0#16
  | .setEnabled i _ => i < t.size
  | .setSelectedInput i sel =>
      i < t.size ∧ g.src i = none ∧ -1 ≤ sel ∧ (sel + 1).toNat < (t.clk i).input.length

instance (g : Graph) (t : Tree) (op : Op) : Decidable (op.Valid g t) := by
  cases op <;> unfold Op.Valid <;> infer_instance

end Clktree
end Especial
