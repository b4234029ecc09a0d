/-
# Who is told by one call

A call of the interface assigns to one clock and updates it.  So what the update does
(`Especial.Clktree.Changes`) is what the call does: in every tree that the interface builds,
a call ends, and it tells the users of each clock whose frequency is another one afterwards
once, and no others (`set_tells_once`).
-/

import Especial.Clktree.Changes
import Especial.Clktree.Trace
import Especial.Lib.Run

namespace Especial
namespace Clktree

open Qemu Lib

variable {t t' : Tree} {i : ℕ}

/-! ### The calls of the interface -/

/-- The clock whose setting changes. -/
def Setting.clk : Setting → ℕ
  | .scale i _ _ | .enabled i _ | .selectedInput i _ => i

/-- The heap after the assignments of a call, before the update. -/
structure Prepared (t t₀ : Tree) : Prop where
  size : t₀.size = t.size
  forward : Forward t₀
  outputFreq : ∀ j, (t₀.clk j).outputFreq = (t.clk j).outputFreq
  user : ∀ j, (t₀.clk j).user = (t.clk j).user
  notifications : t₀.notifications = t.notifications

/-- The heap itself, before any assignment. -/
theorem Prepared.refl (hfwd : Forward t) : Prepared t t :=
  ⟨rfl, hfwd, fun _ => rfl, fun _ => rfl, rfl⟩

/-- An assignment to a setting or to the input frequency. -/
structure Clk.Keeps (g : Clk → Clk) : Prop where
  outputFreq : ∀ c, (g c).outputFreq = c.outputFreq
  user : ∀ c, (g c).user = c.user
  output : ∀ c, (g c).output = c.output
  input : ∀ c, (g c).input = c.input

/-- One more assignment of a call. -/
theorem Prepared.modify {t₀ : Tree} {g : Clk → Clk} (h : Prepared t t₀)
    (hg : Clk.Keeps g) (i : ℕ) : Prepared t (t₀.modify i g) := by
  refine ⟨Tree.size_modify.trans h.size, ⟨fun j o ho => ?_, fun j k hk => ?_⟩,
    fun j => (field_modify t₀ i j Clk.outputFreq hg.outputFreq).trans (h.outputFreq j),
    fun j => (field_modify t₀ i j Clk.user hg.user).trans (h.user j), h.notifications⟩
  · rw [field_modify t₀ i j Clk.output hg.output] at ho
    rw [Tree.size_modify]
    exact h.forward.output j o ho
  · rw [field_modify t₀ i j Clk.input hg.input] at hk
    exact h.forward.input j k hk

/-- A change of a setting is some assignments and an update, or fails its `assert`. -/
theorem Setting.exec_eq (hfwd : Forward t) (x : Setting) :
    (∃ text, t.exec x.op = .error (.assertFail text)) ∨
      ∃ t₀, Prepared t t₀ ∧ t.exec x.op = t₀.recalc x.clk := by
  have hstart := Prepared.refl hfwd
  cases x with
  | scale i m d =>
    refine Or.inr ⟨_, hstart.modify ?_ i, rfl⟩
    exact ⟨fun _ => rfl, fun _ => rfl, fun _ => rfl, fun _ => rfl⟩
  | enabled i on =>
    refine Or.inr ⟨_, hstart.modify ?_ i, rfl⟩
    exact ⟨fun _ => rfl, fun _ => rfl, fun _ => rfl, fun _ => rfl⟩
  | selectedInput i sel =>
    show (∃ text, t.setSelectedInput i sel = .error (.assertFail text)) ∨
      ∃ t₀, Prepared t t₀ ∧ t.setSelectedInput i sel = t₀.recalc i
    unfold Tree.setSelectedInput Qemu.assert
    by_cases hassert : decide (0 ≤ sel + 1 ∧ (sel + 1).toNat < (t.clk i).input.length) = true
    · rw [if_pos hassert]
      have hsel := hstart.modify (g := fun c => { c with selectedInput := sel })
        ⟨fun _ => rfl, fun _ => rfl, fun _ => rfl, fun _ => rfl⟩ i
      refine Or.inr ⟨_, hsel.modify ?_ i, rfl⟩
      exact ⟨fun _ => rfl, fun _ => rfl, fun _ => rfl, fun _ => rfl⟩
    · rw [if_neg hassert]
      exact Or.inl ⟨_, rfl⟩

/-- The update tells the users of the clocks that change. -/
theorem Prepared.told {t₀ : Tree} (h : Prepared t t₀) (hi : i < t.size)
    (hrec : t₀.recalc i = .ok t') : Forward t' ∧ t'.size = t.size ∧ ∃ ms, Told t ms t' := by
  obtain ⟨ms, hms⟩ := recalcOutputFreq_changes h.forward (by rw [h.size]; exact hi) hrec
  obtain ⟨⟨hnotes, hnodup, hchanged, hfinal⟩, hcfg⟩ := hms.updates
  refine ⟨h.forward.sameCfg hcfg, hcfg.size.trans h.size, ms, ?_, hnodup, fun j => ?_, hfinal⟩
  · rw [hnotes, h.notifications, Change.notifications_congr h.user]
  · rw [hchanged, h.outputFreq]

/-! ### The trees that the interface builds -/

/-- The clocks that a call names are there. -/
def Op.Points (t : Tree) : Op → Prop
  | .createSrcClk _ _ _ => True
  | .createClk _ _ _ _ _ _ inputs => ∀ o ∈ inputs, o < t.size
  | .adduser i _ | .setScale i _ _ | .setEnabled i _ | .setSelectedInput i _ => i < t.size

instance (t : Tree) (op : Op) : Decidable (op.Points t) :=
  match op with
  | .createSrcClk _ _ _ => isTrue trivial
  | .createClk _ _ _ _ _ _ inputs => List.decidableBAll (fun o => o < t.size) inputs
  | .adduser i _ | .setScale i _ _ | .setEnabled i _ | .setSelectedInput i _ => Nat.decLt i t.size

/-- A call that returns. -/
def Call (t : Tree) (op : Op) (t' : Tree) : Prop := op.Points t ∧ t.exec op = .ok t'

/-- The heap without clocks. -/
theorem forward_empty : Forward {} := by
  refine ⟨fun i o ho => ?_, fun j i hi => ?_⟩
  · exact absurd (show o ∈ ([] : List ℕ) from ho) List.not_mem_nil
  · exact absurd (show some i ∈ ([] : List (Option ℕ)) from hi) List.not_mem_nil

/-- A change of a setting keeps the direction of the links. -/
theorem Forward.set (h : Forward t) (x : Setting) (hx : x.clk < t.size)
    (hexec : t.exec x.op = .ok t') : Forward t' := by
  rcases x.exec_eq h with ⟨text, herror⟩ | ⟨t₀, hprep, heq⟩
  · rw [herror] at hexec
    cases hexec
  · rw [heq] at hexec
    exact (hprep.told hx hexec).1

/-- A new clock without links. -/
theorem Forward.alloc (h : Forward t) {c : Clk} (hout : c.output = []) (hin : c.input = [none]) :
    Forward (t.alloc c) := by
  have hclk : ∀ j, j ≠ t.size → (t.alloc c).clk j = t.clk j := by
    intro j hj
    rcases Nat.lt_or_gt_of_ne hj with hlt | hgt
    · exact Tree.clk_alloc_of_lt hlt
    · have hlen : t.clks.length < j := hgt
      have hold : t.clks[j]? = none := List.getElem?_eq_none (by omega)
      have hnew : (t.clks ++ [c])[j]? = none := List.getElem?_eq_none (by simpa using hlen)
      simp only [Tree.clk, Tree.alloc, List.getD_eq_getElem?_getD, hold, hnew]
  refine ⟨fun i o ho => ?_, fun j i hi => ?_⟩
  · rcases eq_or_ne i t.size with rfl | hne
    · rw [Tree.clk_alloc_self, hout] at ho
      exact absurd ho List.not_mem_nil
    · rw [hclk i hne] at ho
      rw [Tree.size_alloc]
      obtain ⟨hio, hot⟩ := h.output i o ho
      exact ⟨hio, by omega⟩
  · rcases eq_or_ne j t.size with rfl | hne
    · rw [Tree.clk_alloc_self, hin] at hi
      simp at hi
    · rw [hclk j hne] at hi
      exact h.input j i hi

/-- New links of a clock. -/
theorem Forward.modify {g : Clk → Clk} (h : Forward t) (hi : i < t.size)
    (hout : ∀ o ∈ (g (t.clk i)).output, i < o ∧ o < t.size)
    (hin : ∀ k, some k ∈ (g (t.clk i)).input → k < i) : Forward (t.modify i g) := by
  refine ⟨fun j o ho => ?_, fun j k hk => ?_⟩
  · rw [Tree.clk_modify hi] at ho
    rw [Tree.size_modify]
    split_ifs at ho with hji
    · exact hji ▸ hout o ho
    · exact h.output j o ho
  · rw [Tree.clk_modify hi] at hk
    split_ifs at hk with hji
    · exact hji ▸ hin k hk
    · exact h.input j k hk

/-- One of the inputs of a new clock. -/
theorem Forward.addInput {clk : ℕ} (h : Forward t) (hclk : clk < t.size) (ho : o < clk)
    (hadd : Tree.addInput clk t o = .ok t') : Forward t' ∧ t'.size = t.size := by
  obtain ⟨_, -, hadd⟩ := bind_eq_ok.1 hadd
  obtain ⟨_, -, hadd⟩ := bind_eq_ok.1 hadd
  obtain rfl := pure_eq_ok.1 hadd
  have hin : Forward (t.modify clk fun c => { c with input := c.input ++ [some o] }) := by
    refine h.modify hclk (h.output clk) fun k hk => ?_
    rcases List.mem_append.1 hk with hk | hk
    · exact h.input clk k hk
    · obtain rfl := Option.some.inj (List.mem_singleton.1 hk)
      exact ho
  refine ⟨hin.modify (by rw [Tree.size_modify]; omega) (fun p hp => ?_) (hin.input o), by simp⟩
  rcases List.mem_append.1 hp with hp | hp
  · exact hin.output o p hp
  · obtain rfl := List.mem_singleton.1 hp
    exact ⟨ho, by rw [Tree.size_modify]; exact hclk⟩

/-- **Every call keeps the direction of the links.** -/
theorem exec_forward {op : Op} (h : Forward t) (hcall : Call t op t') : Forward t' := by
  obtain ⟨hpoints, hexec⟩ := hcall
  cases op with
  | setScale i m d => exact h.set (.scale i m d) hpoints hexec
  | setEnabled i on => exact h.set (.enabled i on) hpoints hexec
  | setSelectedInput i sel => exact h.set (.selectedInput i sel) hpoints hexec
  | adduser i user =>
    obtain ⟨_, -, hexec⟩ := bind_eq_ok.1 hexec
    obtain rfl := pure_eq_ok.1 hexec
    exact h.modify hpoints (h.output i) (h.input i)
  | createSrcClk name srcFreq enabled =>
    have halloc : Forward (t.alloc (Tree.createGeneric name 1#16 1#16 enabled)) := h.alloc rfl rfl
    have hprep := (Prepared.refl halloc).modify (g := fun c => { c with inputFreq := srcFreq })
      ⟨fun _ => rfl, fun _ => rfl, fun _ => rfl, fun _ => rfl⟩ t.size
    exact (hprep.told (by rw [Tree.size_alloc]; omega) hexec).1
  | createClk name m d enabled max sel inputs =>
    have halloc : Forward (t.alloc (Tree.createGeneric name m d enabled)) := h.alloc rfl rfl
    obtain ⟨t₁, hlinks, hexec⟩ := bind_eq_ok.1 hexec
    obtain ⟨hfwd, hsize⟩ : Forward t₁ ∧ t₁.size = t.size + 1 := by
      refine foldlM_invariant (P := fun t₁ => Forward t₁ ∧ t₁.size = t.size + 1)
        (fun t₁ t₂ o ho ht₁ hadd => ?_) ⟨halloc, Tree.size_alloc⟩ hlinks
      obtain ⟨hfwd, hsize⟩ := ht₁
      obtain ⟨hfwd', hsize'⟩ := hfwd.addInput (by omega) (hpoints o ho) hadd
      exact ⟨hfwd', hsize'.trans hsize⟩
    exact hfwd.set (.selectedInput t.size sel) (by rw [hsize]; exact Nat.lt_succ_self _) hexec

/-- The links have their direction in every heap that calls build. -/
theorem run_forward {ops : List Op} (h : Run Call {} ops t) : Forward t :=
  h.invariant (fun _ _ _ hs hcall => exec_forward hs hcall) forward_empty

/-- **Who is told by one call.**  Let a tree be built by any calls of the interface that
returned.  A change of one setting of one of its clocks comes to an end, and if it returns,
its notifications are those of a list of changes, one for each clock whose output frequency
after the call is not the one before it: each user of that clock, once, who finds the clock
and all clocks above it along the selected inputs with the output frequencies that they have
after the call. -/
theorem set_tells_once (ops : List Op) (t : Tree) (x : Setting) (hbuilt : Run Call {} ops t)
    (hx : x.clk < t.size) :
    t.exec x.op ≠ .error .diverges ∧ ∀ t', t.exec x.op = .ok t' → ∃ ms, Told t ms t' := by
  have hfwd := run_forward hbuilt
  rcases x.exec_eq hfwd with ⟨text, herror⟩ | ⟨t₀, hprep, heq⟩
  · rw [herror]
    exact ⟨nofun, nofun⟩
  · rw [heq]
    refine ⟨fun hdiv => ?_, fun t' hrec => (hprep.told hx hrec).2.2⟩
    exact recalcOutputFreq_ends hprep.forward (by rw [hprep.size]; exact hx)
      (Nat.sub_le _ _) _ hdiv rfl

/-- An oscillator, a clock that names it twice as its input, and a clock behind that one; the
last two have a user each. -/
def twiceLinked : List Op :=
  [.createSrcClk "HSI" 8000000#32 true, .createClk "HSI/2" 1#16 2#16 true NO_MAX_FREQ 0 [0, 0],
    .createClk "HSI/4" 1#16 2#16 true NO_MAX_FREQ 0 [1], .adduser 1 5, .adduser 2 7]

/-- The oscillator is switched off. -/
theorem set_tells_once_twiceLinked : ∃ t t' ms, Run Call {} twiceLinked t ∧
    t.exec (.setEnabled 0 false) = .ok t' ∧ t'.notifications.map Prod.fst = [5, 7] ∧
    Told t ms t' ∧ 2 ∈ ms.map Change.clk := by
  have hall : ∃ t t', Run Call {} twiceLinked t ∧ 0 < t.size ∧
      t.exec (.setEnabled 0 false) = .ok t' ∧
      t'.notifications.map Prod.fst = [5, 7] ∧ (t'.clk 2).outputFreq ≠ (t.clk 2).outputFreq :=
    ⟨_, _, .cons ⟨trivial, rfl⟩ (.cons ⟨by decide, rfl⟩ (.cons ⟨by decide, rfl⟩
      (.cons ⟨by decide, rfl⟩ (.cons ⟨by decide, rfl⟩ (.nil _))))),
      by decide, rfl, rfl, by decide⟩
  obtain ⟨t, t', hrun, hsize, hexec, hnotes, hchanged⟩ := hall
  obtain ⟨-, htold⟩ := set_tells_once twiceLinked t (.enabled 0 false) hrun hsize
  obtain ⟨ms, hms⟩ := htold t' hexec
  exact ⟨t, t', ms, hrun, hexec, hnotes, hms, (hms.changed 2).2 hchanged⟩

end Clktree
end Especial
