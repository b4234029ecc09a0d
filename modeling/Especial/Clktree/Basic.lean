/-
# The clock tree as `stm32_clktree.c` keeps it

`qemu_stm32/hw/arm/stm32_clktree.c`.  Clocks are allocated one after another and
never freed, so the heap of `struct Clk` is a list and a pointer is an index into
it; `NULL` is `none`.  `user_count`, `output_count` and `input_count`
are the lengths of the three link lists, and `input[0]` is the `NULL` that
`selected_input = -1` points at.

`recalcOutputFreq` and `setInputFreq` call each other through the links of the
tree; the recursion is cut at a given depth, and past it the model answers
`Fault.diverges`.  Two effects leave the tree and are kept in its `log`: a line
on stderr when a frequency exceeds the maximum, and `qemu_set_irq(user, 1)` for
every user, with the heap as the handler finds it.
-/

import Especial.Qemu.Basic

namespace Especial
namespace Clktree

open Qemu

/-- `CLKTREE_MAX_IRQ`, `CLKTREE_MAX_OUTPUT` and `CLKTREE_MAX_INPUT`. -/
def MAX_IRQ : ℕ := 16
@[inherit_doc MAX_IRQ] def MAX_OUTPUT : ℕ := 16
@[inherit_doc MAX_IRQ] def MAX_INPUT : ℕ := 16

/-- `CLKTREE_NO_INPUT`. -/
def NO_INPUT : ℤ := -1

/-- `CLKTREE_NO_MAX_FREQ`. -/
def NO_MAX_FREQ : BitVec 32 := 0xffffffff#32

/-- `struct Clk`. -/
structure Clk where
  name : String
  enabled : Bool
  inputFreq : BitVec 32
  outputFreq : BitVec 32
  maxOutputFreq : BitVec 32
  multiplier : BitVec 16
  divisor : BitVec 16
  user : List ℕ
  output : List ℕ
  input : List (Option ℕ)
  selectedInput : ℤ
  deriving DecidableEq, Repr, Inhabited

/-- What the clock tree does to the world outside it. -/
inductive Event
  /-- `qemu_set_irq(user, 1)`, with the clocks as they are at the call. -/
  | setIrq (user : ℕ) (clks : List Clk)
  /-- `Clock %s output frequency (%d Hz) exceeds max frequency (%d Hz).` -/
  | exceedsMax (name : String) (freq max : BitVec 32)
  deriving DecidableEq, Repr

/-- The heap of clocks, and the events so far with the latest first. -/
structure Tree where
  clks : List Clk := []
  log : List Event := []
  deriving DecidableEq, Repr, Inhabited

namespace Tree

/-- The number of clocks allocated. -/
def size (t : Tree) : ℕ := t.clks.length

/-- The clock a pointer points at. -/
def clk (t : Tree) (i : ℕ) : Clk := t.clks.getD i default

/-- Assigns to fields of one clock. -/
def modify (t : Tree) (i : ℕ) (f : Clk → Clk) : Tree := { t with clks := t.clks.modify i f }

/-- Allocates a clock; its pointer is the size before. -/
def alloc (t : Tree) (c : Clk) : Tree := { t with clks := t.clks ++ [c] }

/-- Records an event. -/
def emit (t : Tree) (e : Event) : Tree := { t with log := e :: t.log }

end Tree

/-- `clktree_get_input_clk`: `input[selected_input + 1]`. -/
def Clk.getInputClk (c : Clk) : Option ℕ :=
  (c.input[(c.selectedInput + 1).toNat]?).join

/-- `new_output_freq` of `clktree_recalc_output_freq`. -/
def Clk.newOutputFreq (c : Clk) : Except Fault (BitVec 32) :=
  if c.enabled then do
    let f ← muldiv64 (c.inputFreq.setWidth 64) (c.multiplier.setWidth 32) (c.divisor.setWidth 32)
    return f.setWidth 32
  else return 0#32

/-- `clktree_set_input_freq`, over the recalculation it calls. -/
def setInputFreq (recalc : Tree → ℕ → Except Fault Tree) (t : Tree) (i : ℕ)
    (inputFreq : BitVec 32) : Except Fault Tree :=
  recalc (t.modify i fun c => { c with inputFreq := inputFreq }) i

/-- The body of the loop over `clk->output`: only a child that has selected the
current clock gets the new frequency. -/
def propagate (recalc : Tree → ℕ → Except Fault Tree) (i : ℕ) (newFreq : BitVec 32)
    (t : Tree) (next : ℕ) : Except Fault Tree :=
  if (t.clk next).getInputClk = some i then setInputFreq recalc t next newFreq else .ok t

/-- The check of the new frequency against `max_output_freq`. -/
def Tree.warnMax (t : Tree) (i : ℕ) (newFreq : BitVec 32) : Tree :=
  if (t.clk i).maxOutputFreq < newFreq then
    t.emit (.exceedsMax (t.clk i).name newFreq (t.clk i).maxOutputFreq)
  else t

/-- The loop over `clk->user`. -/
def Tree.notifyUsers (t : Tree) (i : ℕ) : Tree :=
  (t.clk i).user.foldl (fun t u => t.emit (.setIrq u t.clks)) t

/-- `clktree_recalc_output_freq`, to a depth of at most `fuel` calls. -/
def recalcOutputFreq : ℕ → Tree → ℕ → Except Fault Tree
  | 0, _, _ => .error .diverges
  | fuel + 1, t, i => do
      let newFreq ← (t.clk i).newOutputFreq
      if newFreq = (t.clk i).outputFreq then return t
      else
        let t := t.modify i fun c => { c with outputFreq := newFreq }
        let t := (t.warnMax i newFreq).notifyUsers i
        (t.clk i).output.foldlM (propagate (recalcOutputFreq fuel) i newFreq) t

namespace Tree

/-- `clktree_recalc_output_freq`.  A child is allocated after its inputs, so as
many calls as there are clocks are deep enough (`recalc_spec`). -/
def recalc (t : Tree) (i : ℕ) : Except Fault Tree := recalcOutputFreq t.size t i

/-- `clktree_create_generic`. -/
def createGeneric (name : String) (multiplier divisor : BitVec 16) (enabled : Bool) : Clk where
  name := name
  enabled := enabled
  inputFreq := 0#32
  outputFreq := 0#32
  maxOutputFreq := NO_MAX_FREQ
  multiplier := multiplier
  divisor := divisor
  user := []
  output := []
  input := [none]
  selectedInput := NO_INPUT

/-- `clktree_adduser`. -/
def adduser (t : Tree) (i : ℕ) (user : ℕ) : Except Fault Tree := do
  let t := t.modify i fun c => { c with user := c.user ++ [user] }
  assert ((t.clk i).user.length ≤ MAX_IRQ) "(count) <= (array_size)"
  return t

/-- `clktree_create_src_clk`; the new clock is the last one. -/
def createSrcClk (t : Tree) (name : String) (srcFreq : BitVec 32) (enabled : Bool) :
    Except Fault Tree :=
  setInputFreq recalc (t.alloc (createGeneric name 1#16 1#16 enabled)) t.size srcFreq

/-- The two `CLKTREE_ADD_LINK`s of one input clock. -/
def addInput (clk : ℕ) (t : Tree) (inputClk : ℕ) : Except Fault Tree := do
  let t := t.modify clk fun c => { c with input := c.input ++ [some inputClk] }
  assert ((t.clk clk).input.length ≤ MAX_INPUT) "(count) <= (array_size)"
  let t := t.modify inputClk fun c => { c with output := c.output ++ [clk] }
  assert ((t.clk inputClk).output.length ≤ MAX_OUTPUT) "(count) <= (array_size)"
  return t

/-- `clktree_set_selected_input`.  The `assert` compares `selected_input + 1`
with an unsigned count, so a negative sum fails it. -/
def setSelectedInput (t : Tree) (i : ℕ) (selectedInput : ℤ) : Except Fault Tree := do
  assert (0 ≤ selectedInput + 1 ∧ (selectedInput + 1).toNat < (t.clk i).input.length)
    "(selected_input + 1) < clk->input_count"
  let t := t.modify i fun c => { c with selectedInput := selectedInput }
  let inputFreq :=
    if selectedInput > -1 then
      match (t.clk i).getInputClk with
      | some j => (t.clk j).outputFreq
      | none => 0#32
    else 0#32
  setInputFreq recalc t i inputFreq

/-- `clktree_create_clk`; the new clock is the last one.  The source takes
`max_output_freq` and does not store it. -/
def createClk (t : Tree) (name : String) (multiplier divisor : BitVec 16) (enabled : Bool)
    (_maxOutputFreq : BitVec 32) (selectedInput : ℤ) (inputs : List ℕ) : Except Fault Tree := do
  let clk := t.size
  let t := t.alloc (createGeneric name multiplier divisor enabled)
  let t ← inputs.foldlM (addInput clk) t
  t.setSelectedInput clk selectedInput

/-- `clktree_set_scale`. -/
def setScale (t : Tree) (i : ℕ) (multiplier divisor : BitVec 16) : Except Fault Tree :=
  (t.modify i fun c => { c with multiplier := multiplier, divisor := divisor }).recalc i

/-- `clktree_set_enabled`. -/
def setEnabled (t : Tree) (i : ℕ) (enabled : Bool) : Except Fault Tree :=
  (t.modify i fun c => { c with enabled := enabled }).recalc i

end Tree

/-- A call of the public interface. -/
inductive Op
  | createSrcClk (name : String) (srcFreq : BitVec 32) (enabled : Bool)
  | createClk (name : String) (multiplier divisor : BitVec 16) (enabled : Bool)
      (maxOutputFreq : BitVec 32) (selectedInput : ℤ) (inputs : List ℕ)
  | adduser (clk : ℕ) (user : ℕ)
  | setScale (clk : ℕ) (multiplier divisor : BitVec 16)
  | setEnabled (clk : ℕ) (enabled : Bool)
  | setSelectedInput (clk : ℕ) (selectedInput : ℤ)
  deriving DecidableEq, Repr

/-- What a call does to the tree. -/
def Tree.exec (t : Tree) : Op → Except Fault Tree
  | .createSrcClk name srcFreq enabled => t.createSrcClk name srcFreq enabled
  | .createClk name m d enabled max sel inputs => t.createClk name m d enabled max sel inputs
  | .adduser i user => t.adduser i user
  | .setScale i m d => t.setScale i m d
  | .setEnabled i enabled => t.setEnabled i enabled
  | .setSelectedInput i sel => t.setSelectedInput i sel

end Clktree
end Especial
