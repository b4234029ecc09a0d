/-
# The users of a clock know its frequency

A user of a clock is told when the output frequency changes, in the middle of the
recursive update, and reads the frequency then.  `heard u i log` is what user `u` has
read of clock `i` at its last notification.

`Heard`: every user has last read the frequency that the clock has now.  A clock
changes its output in one place only, and the loop over its users follows at once; any
notification shows the clocks as they are, so it can only bring a user up to date.
Therefore each call of the interface leaves its users informed (`Tells`), whatever
the shape of the tree and however often a clock changes on the way.
-/

import Especial.Clktree.Recalc
import Especial.Lib.Returns

namespace Especial
namespace Clktree

open Qemu Lib

/-- What user `u` read of clock `i` at its last notification. -/
def heard (u i : ℕ) : List Event → Option (BitVec 32)
  | [] => none
  | .setIrq v clks :: log => if v = u then some (clks.getD i default).outputFreq else heard u i log
  | .exceedsMax _ _ _ :: log => heard u i log

/-- User `u` knows the frequency of clock `i`; before the first notification it takes
it to be `0`. -/
def Knows (t : Tree) (u i : ℕ) : Prop := (heard u i t.log).getD 0#32 = (t.clk i).outputFreq

/-- **Every user knows the frequency of its clock.** -/
def Heard (t : Tree) : Prop := ∀ i, ∀ u ∈ (t.clk i).user, Knows t u i

/-- What a call does: the users stay informed, nobody becomes a user or stops being
one, and no event is taken back. -/
structure Tells (t t' : Tree) : Prop where
  heard : Heard t → Heard t'
  user : ∀ i, (t'.clk i).user = (t.clk i).user
  log : t.log <:+ t'.log

variable {t t' t'' : Tree} {i j u : ℕ}

/-- Nothing happens. -/
theorem Tells.refl (t : Tree) : Tells t t := ⟨id, fun _ => rfl, List.suffix_rfl⟩

/-- One call after the other. -/
theorem Tells.trans (h : Tells t t') (h' : Tells t' t'') : Tells t t'' :=
  ⟨fun ht => h'.heard (h.heard ht), fun i => (h'.user i).trans (h.user i), h.log.trans h'.log⟩

/-! ### Events -/

/-- A notification shows the clocks as they are. -/
theorem Knows.setIrq (h : Knows t u i) (v : ℕ) : Knows (t.emit (.setIrq v t.clks)) u i := by
  unfold Knows Tree.emit
  dsimp only
  rw [heard]
  split_ifs
  · rfl
  · exact h

/-- A user that is notified knows all frequencies. -/
theorem knows_setIrq_self (t : Tree) (u i : ℕ) : Knows (t.emit (.setIrq u t.clks)) u i := by
  unfold Knows Tree.emit
  dsimp only
  rw [heard, if_pos rfl]
  rfl

/-- The loop over the users: those it has told know the clock, and nobody forgets. -/
theorem knows_foldl_setIrq (us : List ℕ) (t : Tree) (h : Knows t u i ∨ u ∈ us) :
    Knows (us.foldl (fun t u => t.emit (.setIrq u t.clks)) t) u i := by
  induction us generalizing t with
  | nil => exact h.resolve_right (by simp)
  | cons v us ih =>
    rw [List.foldl_cons]
    apply ih
    rcases h with h | h
    · exact Or.inl (h.setIrq v)
    · rcases List.mem_cons.1 h with rfl | h
      · exact Or.inl (knows_setIrq_self t u i)
      · exact Or.inr h

/-- The loop over the users takes no event back. -/
theorem log_foldl_setIrq (us : List ℕ) (t : Tree) :
    t.log <:+ (us.foldl (fun t u => t.emit (.setIrq u t.clks)) t).log := by
  induction us generalizing t with
  | nil => exact List.suffix_rfl
  | cons v us ih =>
    have hone : t.log <:+ (t.emit (.setIrq v t.clks)).log := List.suffix_cons _ t.log
    exact hone.trans (ih _)

/-- A warning tells no user anything. -/
theorem warnMax_knows {f : BitVec 32} : Knows (t.warnMax j f) u i ↔ Knows t u i := by
  unfold Tree.warnMax
  split_ifs <;> rfl

/-- A warning takes no event back. -/
theorem warnMax_log (t : Tree) (j : ℕ) (f : BitVec 32) : t.log <:+ (t.warnMax j f).log := by
  unfold Tree.warnMax
  split_ifs
  · exact List.suffix_cons _ t.log
  · exact List.suffix_rfl

/-! ### Settings -/

/-- A field that an assignment leaves alone. -/
theorem field_modify {α : Type} (t : Tree) (i j : ℕ) {f : Clk → Clk} (F : Clk → α)
    (hf : ∀ c, F (f c) = F c) : F ((t.modify i f).clk j) = F (t.clk j) := by
  unfold Tree.clk Tree.modify
  dsimp only
  rw [List.getD_eq_getElem?_getD, List.getD_eq_getElem?_getD, List.getElem?_modify]
  cases t.clks[j]? with
  | none => rfl
  | some c =>
    show F (if i = j then f c else c) = F c
    split_ifs
    · exact hf c
    · rfl

/-- An assignment to other fields of a clock tells nobody, and nobody has to know. -/
theorem Tells.of_modify {f : Clk → Clk} (h : Tells (t.modify i f) t')
    (hout : ∀ c, (f c).outputFreq = c.outputFreq) (huser : ∀ c, (f c).user = c.user) :
    Tells t t' := by
  refine ⟨fun ht => h.heard fun j u hu => ?_,
    fun j => (h.user j).trans (field_modify t i j Clk.user huser), h.log⟩
  rw [field_modify t i j Clk.user huser] at hu
  rw [Knows, field_modify t i j Clk.outputFreq hout]
  exact ht j u hu

/-! ### Updates -/

/-- A new output frequency, and the loop over the users. -/
theorem tells_withOutput (t : Tree) (i : ℕ) (f : BitVec 32) : Tells t (t.withOutput i f) := by
  set t₀ := t.modify i fun c => { c with outputFreq := f }
  have hclk : ∀ j, (t.withOutput i f).clk j = t₀.clk j := clk_congr Tree.clks_withOutput
  have huser : ∀ j, (t₀.clk j).user = (t.clk j).user :=
    fun j => field_modify t i j Clk.user fun _ => rfl
  refine ⟨fun h j u hu => ?_, fun j => by rw [hclk, huser],
    (warnMax_log t₀ i f).trans (log_foldl_setIrq _ _)⟩
  rw [hclk] at hu
  refine knows_foldl_setIrq _ _ ?_
  rcases eq_or_ne j i with rfl | hj
  · right
    rwa [clk_congr (Tree.clks_warnMax t₀ j f)]
  · left
    rw [warnMax_knows, Knows, Tree.clk_modify_of_ne hj]
    rw [huser] at hu
    exact h j u hu

/-- A loop over the children tells what its turns tell. -/
theorem tells_foldlM {step : Tree → ℕ → Except Fault Tree} {os : List ℕ}
    (hstep : ∀ {t t' : Tree} {o : ℕ}, step t o = .ok t' → Tells t t')
    (h : os.foldlM step t = .ok t') : Tells t t' :=
  foldlM_invariant (fun _ _ _ _ ht hx => ht.trans (hstep hx)) (.refl t) h

/-- **The recursive update** keeps all users informed, on its way through the tree. -/
theorem recalcOutputFreq_tells {fuel : ℕ} (h : recalcOutputFreq fuel t i = .ok t') :
    Tells t t' := by
  induction fuel generalizing t i t' with
  | zero => exact absurd h throw_ne_ok
  | succ fuel ih =>
    rw [recalcOutputFreq_succ] at h
    obtain ⟨newFreq, -, h⟩ := bind_eq_ok.1 h
    split_ifs at h
    · obtain rfl := pure_eq_ok.1 h
      exact .refl t
    · refine (tells_withOutput t i newFreq).trans (tells_foldlM (fun {t t' o} ho => ?_) h)
      unfold propagate at ho
      split_ifs at ho
      · have hrec : Tells (t.modify o fun c => { c with inputFreq := newFreq }) t' := ih ho
        exact hrec.of_modify (fun _ => rfl) fun _ => rfl
      · obtain rfl := Except.ok.inj ho
        exact .refl t

/-! ### Calls -/

/-- `clktree_set_scale` tells the users. -/
theorem setScale_tells {m d : BitVec 16} (h : t.setScale i m d = .ok t') : Tells t t' := by
  have hrec : Tells (t.modify i fun c => { c with multiplier := m, divisor := d }) t' :=
    recalcOutputFreq_tells h
  exact hrec.of_modify (fun _ => rfl) fun _ => rfl

/-- `clktree_set_enabled` tells the users. -/
theorem setEnabled_tells {on : Bool} (h : t.setEnabled i on = .ok t') : Tells t t' := by
  have hrec : Tells (t.modify i fun c => { c with enabled := on }) t' := recalcOutputFreq_tells h
  exact hrec.of_modify (fun _ => rfl) fun _ => rfl

/-- `clktree_set_selected_input` tells the users. -/
theorem setSelectedInput_tells {sel : ℤ} (h : t.setSelectedInput i sel = .ok t') :
    Tells t t' := by
  obtain ⟨_, -, h⟩ := bind_eq_ok.1 h
  dsimp only at h
  have hrec := recalcOutputFreq_tells h
  have hsel := hrec.of_modify (fun _ => rfl) fun _ => rfl
  exact hsel.of_modify (fun _ => rfl) fun _ => rfl

/-- A new user of a clock: nothing else changes. -/
structure UserAdded (t : Tree) (i u : ℕ) (t' : Tree) : Prop where
  log : t'.log = t.log
  size : t'.size = t.size
  outputFreq : ∀ j, (t'.clk j).outputFreq = (t.clk j).outputFreq
  added : u ∈ (t'.clk i).user
  kept : ∀ j, ∀ v ∈ (t.clk j).user, v ∈ (t'.clk j).user

/-- `clktree_adduser` adds one user. -/
theorem adduser_spec (hi : i < t.size) (h : t.adduser i u = .ok t') : UserAdded t i u t' := by
  obtain ⟨_, -, h⟩ := bind_eq_ok.1 h
  obtain rfl := pure_eq_ok.1 h
  let f : Clk → Clk := fun c => { c with user := c.user ++ [u] }
  have hself : ((t.modify i f).clk i).user = (t.clk i).user ++ [u] := by
    rw [Tree.clk_modify_self hi]
  refine ⟨rfl, Tree.size_modify, fun j => field_modify t i j (f := f) Clk.outputFreq fun _ => rfl,
    ?_, fun j v hv => ?_⟩
  · rw [hself]
    exact List.mem_append_right _ (List.mem_singleton_self _)
  · rcases eq_or_ne j i with rfl | hj
    · rw [hself]
      exact List.mem_append_left _ hv
    · rwa [Tree.clk_modify_of_ne hj]

end Clktree
end Especial
