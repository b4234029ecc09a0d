/-
# Programs with loops

A program with loops takes a bound for their turns, and is `none` where a loop would go on
beyond it.  `Settles` says that it has one and the same result for every bound that is large
enough: the program returns, whatever its loops need.
-/

import Especial.Lib.Loop
import Especial.Lib.Returns

namespace Especial
namespace Lib

universe u
variable {ε σ ρ α β : Type u}

/-- A loop as a part of a program. -/
def loopM (body : σ → Except ε (Turn σ ρ)) (n : ℕ) (s : σ) : ExceptT ε Option ρ :=
  ExceptT.mk (loop body n s)

variable {x : ℕ → ExceptT ε Option α} {y : α → ℕ → ExceptT ε Option β}
variable {P : α → Prop} {Q : β → Prop}

/-- With enough turns for its loops the program returns, and its result has the property. -/
def Settles (x : ℕ → ExceptT ε Option α) (P : α → Prop) : Prop :=
  ∃ a m, (∀ n ≥ m, (x n).run = some (.ok a)) ∧ P a

/-- A weaker property. -/
theorem Settles.mono (h : Settles x P) {P' : α → Prop} (himp : ∀ a, P a → P' a) :
    Settles x P' := by
  obtain ⟨a, m, hx, ha⟩ := h
  exact ⟨a, m, hx, himp a ha⟩

/-- A value needs no turns. -/
theorem Settles.pure {a : α} (h : P a) :
    Settles (fun _ => (Pure.pure a : ExceptT ε Option α)) P :=
  ⟨a, 0, fun _ _ => rfl, h⟩

/-- A program has one result. -/
theorem Settles.of_eq {a : α} (h : Settles x P) (ha : Settles x (· = a)) : P a := by
  obtain ⟨b, m, hx, hb⟩ := h
  obtain ⟨_, k, hx', rfl⟩ := ha
  have hboth := hx' (max m k) (Nat.le_max_right m k)
  rw [hx (max m k) (Nat.le_max_left m k)] at hboth
  rw [← Except.ok.inj (Option.some.inj hboth)]
  exact hb

/-- A part without a loop. -/
theorem Settles.lift {e : Except ε α} (h : Returns e P) :
    Settles (fun _ => (liftM e : ExceptT ε Option α)) P := by
  obtain ⟨a, rfl, ha⟩ := h
  exact ⟨a, 0, fun _ _ => rfl, ha⟩

/-- **One program after another** takes the larger number of turns. -/
theorem Settles.bind (hx : Settles x P) (hy : ∀ a, P a → Settles (y a) Q) :
    Settles (fun n => x n >>= fun a => y a n) Q := by
  obtain ⟨a, m, hx, ha⟩ := hx
  obtain ⟨b, k, hy, hb⟩ := hy a ha
  refine ⟨b, max m k, fun n hn => ?_, hb⟩
  rw [ExceptT.run_bind, hx n (Nat.le_trans (Nat.le_max_left m k) hn)]
  exact hy n (Nat.le_trans (Nat.le_max_right m k) hn)

/-- A loop that has nothing to wait for. -/
theorem Settles.loopM_exit {body : σ → Except ε (Turn σ ρ)} {s : σ} {a : ρ}
    {P : ρ → Prop}
    (h : body s = .ok (.exit a)) (ha : P a) : Settles (fun n => loopM body n s) P := by
  refine ⟨a, 1, fun n hn => ?_, ha⟩
  obtain ⟨n, rfl⟩ := Nat.exists_eq_add_of_le' hn
  exact loop_exit h n

/-! ### Loops around loops -/

/-- A loop whose body may have loops of its own, for at most `n` turns. -/
def whileM (body : σ → ExceptT ε Option (Turn σ ρ)) : ℕ → σ → ExceptT ε Option ρ
  | 0, _ => ExceptT.mk none
  | n + 1, s => do
    match ← body s with
    | .again s => whileM body n s
    | .exit r => return r

/-- What a turn leads to. -/
def Turn.Leads (A : σ → Prop) (P : ρ → Prop) : Turn σ ρ → Prop
  | .again s => A s
  | .exit r => P r

/-- **A loop with a variant** settles: each turn settles, and leads to a state with a smaller
variant or to a result with the property. -/
theorem Settles.whileM {body : ℕ → σ → ExceptT ε Option (Turn σ ρ)}
    {V : ℕ → σ → Prop} {P : ρ → Prop}
    (hbody : ∀ k s, V k s →
      Settles (fun n => body n s) (Turn.Leads (fun s' => ∃ j < k, V j s') P))
    {k : ℕ} {s : σ} (h : V k s) : Settles (fun n => Lib.whileM (body n) n s) P := by
  -- the turns and the bound for the loops of the body are counted apart
  have hmany : ∃ r m j,
      (∀ n ≥ m, ∀ f ≥ j, (Lib.whileM (body n) f s).run = some (.ok r)) ∧ P r := by
    induction k using Nat.strongRecOn generalizing s with
    | ind k ih =>
      obtain ⟨t, m, ht, hleads⟩ := hbody k s h
      cases t with
      | exit r =>
        refine ⟨r, m, 1, fun n hn f hf => ?_, hleads⟩
        obtain ⟨f, rfl⟩ := Nat.exists_eq_add_of_le' hf
        rw [Lib.whileM, ExceptT.run_bind, ht n hn]
        rfl
      | again s' =>
        obtain ⟨i, hi, hs'⟩ := hleads
        obtain ⟨r, m', j, hloop, hr⟩ := ih i hi hs'
        refine ⟨r, max m m', j + 1, fun n hn f hf => ?_, hr⟩
        obtain ⟨f, rfl⟩ := Nat.exists_eq_add_of_le' (Nat.le_trans (Nat.le_add_left 1 j) hf)
        rw [Lib.whileM, ExceptT.run_bind, ht n (Nat.le_trans (Nat.le_max_left m m') hn)]
        exact hloop n (Nat.le_trans (Nat.le_max_right m m') hn) f (Nat.le_of_succ_le_succ hf)
  obtain ⟨r, m, j, hloop, hr⟩ := hmany
  exact ⟨r, max m j, fun n hn => hloop n (Nat.le_trans (Nat.le_max_left m j) hn) n
    (Nat.le_trans (Nat.le_max_right m j) hn), hr⟩

/-- A loop without inner loops. -/
theorem loopM_eq_whileM (body : σ → Except ε (Turn σ ρ)) (n : ℕ) (s : σ) :
    loopM body n s = Lib.whileM (fun s => liftM (body s)) n s := by
  induction n generalizing s with
  | zero => rfl
  | succ n ih =>
    rw [Lib.whileM]
    cases hbody : body s with
    | error e => exact congrArg ExceptT.mk (by rw [loop, hbody]; rfl)
    | ok t =>
      cases t with
      | exit r => exact congrArg ExceptT.mk (by rw [loop, hbody]; rfl)
      | again s' =>
        refine Eq.trans ?_ (ih s')
        rw [loopM, loop_again hbody]
        rfl

/-- A loop with a variant whose body has no loops. -/
theorem Settles.loopM {body : σ → Except ε (Turn σ ρ)} {V : ℕ → σ → Prop}
    {P : ρ → Prop}
    (hbody : ∀ k s, V k s → Returns (body s) (Turn.Leads (fun s' => ∃ j < k, V j s') P))
    {k : ℕ} {s : σ} (h : V k s) : Settles (fun n => Lib.loopM body n s) P := by
  let lifted : ℕ → σ → ExceptT ε Option (Turn σ ρ) := fun _ s => liftM (body s)
  have hlifted : ∀ k s, V k s →
      Settles (fun n => lifted n s) (Turn.Leads (fun s' => ∃ j < k, V j s') P) :=
    fun k s hs => Settles.lift (hbody k s hs)
  simp only [loopM_eq_whileM]
  exact Settles.whileM hlifted h

end Lib
end Especial
