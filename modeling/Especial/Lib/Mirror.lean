/-
# A copy of a signal that a server keeps

A signal has a level, and there is a copy of the level.  Every notification of a new
level raises a flag.  A server that finds the flag raised first refreshes the copy
and then lowers the flag; the copy may also be refreshed at other times.  Levels may
be notified between any two of these steps.

A level that is notified after the copy was refreshed and before the flag is lowered
leaves no trace.  `Mirrored.current_iff` says that this is the only way to miss one:
in a run, the copy is right in every quiescent state exactly when it is right
whenever the flag is lowered.
-/

import Especial.Lib.Run

namespace Especial
namespace Lib

universe u v w
variable {α : Type u} {σ : Type v} {ι : Type w}

/-- Where the server is. -/
inductive Phase
  | outside
  | called
  | served
  deriving DecidableEq, Repr

/-- A signal, its copy and the server. -/
structure Mirror (α : Type u) where
  level : α
  copy : α
  raised : Bool
  phase : Phase

/-- What can happen to them. -/
inductive Action (α : Type u)
  | stay
  | notify (x : α)
  | refresh
  | call
  | serve
  | lower

/-- The levels that an action notifies. -/
def Action.levels : Action α → List α
  | .notify x => [x]
  | _ => []

namespace Mirror

/-- What an action does. -/
def act (m : Mirror α) : Action α → Mirror α
  | .stay => m
  | .notify x => { m with level := x, raised := true }
  | .refresh => { m with copy := m.level }
  | .call => { m with phase := .called }
  | .serve => { m with copy := m.level, phase := .served }
  | .lower => { m with raised := false, phase := .outside }

/-- The flag is lowered after the copy was refreshed. -/
def Enabled (m : Mirror α) (a : Action α) : Prop := a = .lower → m.phase = .served

/-- Of the levels `h` that were notified, one is not `x₀`: the level has changed. -/
def Changed (x₀ : α) (h : List α) : Prop := ∃ x ∈ h, x ≠ x₀

/-- What has changed stays changed. -/
theorem Changed.append {x₀ : α} {h : List α} (hc : Changed x₀ h) (h' : List α) :
    Changed x₀ (h ++ h') := by
  obtain ⟨x, hx, hne⟩ := hc
  exact ⟨x, List.mem_append_left h' hx, hne⟩

/-- The level is `x₀` until it has changed, and so is the copy the server has made. -/
structure Ok (x₀ : α) (h : List α) (m : Mirror α) : Prop where
  level : m.level = x₀ ∨ Changed x₀ h
  copy : m.phase = .served → m.copy = x₀ ∨ Changed x₀ h

/-- In a quiescent state after a change the copy is right. -/
def Current (x₀ : α) (h : List α) (m : Mirror α) : Prop :=
  m.phase = .outside → m.raised = false → Changed x₀ h → m.copy = m.level

variable {x₀ : α} {h : List α} {m : Mirror α} {a : Action α}

/-- **Every action keeps what the levels say.** -/
theorem Ok.act (hm : Ok x₀ h m) (a : Action α) : Ok x₀ (h ++ a.levels) (m.act a) := by
  have hlevel : m.level = x₀ ∨ Changed x₀ (h ++ a.levels) := hm.level.imp_right (·.append _)
  cases a with
  | stay => exact ⟨hlevel, fun hp => (hm.copy hp).imp_right (·.append _)⟩
  | notify x =>
    refine ⟨?_, fun hp => (hm.copy hp).imp_right (·.append _)⟩
    by_cases hx : x = x₀
    · exact .inl hx
    · exact .inr ⟨x, List.mem_append_right h List.mem_cons_self, hx⟩
  | refresh => exact ⟨hlevel, fun _ => hlevel⟩
  | call => exact ⟨hlevel, fun hp => Phase.noConfusion hp⟩
  | serve => exact ⟨hlevel, fun _ => hlevel⟩
  | lower => exact ⟨hlevel, fun hp => Phase.noConfusion hp⟩

/-- **One action** leaves the copy right exactly if the flag is not lowered on a copy
that is wrong. -/
theorem current_act_iff (hm : Ok x₀ h m) (hc : Current x₀ h m) (ha : m.Enabled a) :
    Current x₀ (h ++ a.levels) (m.act a) ↔ (a = .lower → m.copy = m.level) := by
  cases a with
  | stay => simpa [act, Action.levels] using hc
  | notify x => exact iff_of_true (fun _ hr => Bool.noConfusion hr) (by simp)
  | refresh => exact iff_of_true (fun _ _ _ => rfl) (by simp)
  | call => exact iff_of_true (fun hp => Phase.noConfusion hp) (by simp)
  | serve => exact iff_of_true (fun hp => Phase.noConfusion hp) (by simp)
  | lower =>
    refine ⟨fun hcur _ => ?_, fun hright _ _ _ => hright rfl⟩
    -- if nothing has changed, the copy and the level are both the first one
    rcases hm.copy (ha rfl) with hcopy | hchanged
    · rcases hm.level with hlevel | hchanged
      · rw [hcopy, hlevel]
      · exact hcur rfl rfl (hchanged.append _)
    · exact hcur rfl rfl (hchanged.append _)

/-- In a quiescent state the copy is right. -/
def Quiet (m : Mirror α) : Prop := m.phase = .outside → m.raised = false → m.copy = m.level

/-- **One action** keeps the copy right if the flag is not lowered on a copy that is wrong. -/
theorem Quiet.act (hm : m.Quiet) (ha : a = .lower → m.copy = m.level) : (m.act a).Quiet := by
  cases a with
  | stay => exact hm
  | notify x => exact fun _ hr => Bool.noConfusion hr
  | refresh => exact fun _ _ => rfl
  | call => exact fun hp => Phase.noConfusion hp
  | serve => exact fun hp => Phase.noConfusion hp
  | lower => exact fun _ _ => ha rfl

/-- Nothing is to be done: the server is outside, the flag is down, and the copy has the
level `x`. -/
structure Still (x : α) (m : Mirror α) : Prop where
  phase : m.phase = .outside
  raised : m.raised = false
  copy : m.copy = x
  level : m.level = x

/-- **One action** other than a notification keeps it so, if the server is called only
when the flag is raised and goes on only when it was called. -/
theorem Still.act {x : α} (hm : m.Still x) (hlevels : a.levels = [])
    (hcall : a = .call → m.raised = true)
    (hserve : a = .serve → m.phase = .called) (hlower : m.Enabled a) : (m.act a).Still x := by
  cases a with
  | stay => exact hm
  | notify y => simp [Action.levels] at hlevels
  | refresh => exact ⟨hm.phase, hm.raised, hm.level, hm.level⟩
  | call => exact absurd (hm.raised.symm.trans (hcall rfl)) (by decide)
  | serve => exact absurd (hm.phase.symm.trans (hserve rfl)) (by decide)
  | lower => exact absurd (hm.phase.symm.trans (hlower rfl)) (by decide)

end Mirror

/-- A system `R` with a signal, a copy and a server in it; `J` holds in every state. -/
structure Mirrored (R : σ → ι → σ → Prop) (J : σ → Prop) (α : Type u) where
  view : σ → Mirror α
  action : σ → ι → Action α
  levels : ι → List α
  inv : ∀ s i t, J s → R s i t → J t
  levels_eq : ∀ s i t, J s → R s i t → (action s i).levels = levels i
  enabled : ∀ s i t, J s → R s i t → (view s).Enabled (action s i)
  view_eq : ∀ s i t, J s → R s i t → view t = (view s).act (action s i)

namespace Mirrored

variable {R : σ → ι → σ → Prop} {J : σ → Prop} (m : Mirrored R J α) {s t : σ}
    {l : List ι}

/-- A step does not lower the flag on a copy that is wrong. -/
def LowersRight (s : σ) (i : ι) : Prop := m.action s i = .lower →
    (m.view s).copy = (m.view s).level

/-- **The copy is right in every quiescent state** of a run exactly when it is right
whenever the flag is lowered. -/
theorem current_iff (hdet : ∀ s i t t', R s i t → R s i t' → t = t')
    (h : Run R s l t) (hs : J s) (hphase : (m.view s).phase = .outside) :
    (∀ l₁ u, l₁ <+: l → Run R s l₁ u →
      Mirror.Current (m.view s).level (l₁.flatMap m.levels) (m.view u)) ↔
    Run (Guarded R m.LowersRight) s l t := by
  have hhist : ∀ l i u v, J u → R u i v → (l ++ [i]).flatMap m.levels =
      l.flatMap m.levels ++ (m.action u i).levels := fun l i u v hu hi => by
    rw [List.flatMap_append, List.flatMap_singleton, m.levels_eq u i v hu hi]
  refine Run.forall_prefix_hist_iff
    (J := fun l u => J u ∧ Mirror.Ok (m.view s).level (l.flatMap m.levels) (m.view u)) hdet
    (fun l u i v hu hi => ?_) (fun l u i v hu hc hi => ?_) h
    ⟨hs, .inl rfl, fun hp => absurd (hphase.symm.trans hp) (by decide)⟩
    fun _ _ hc => by obtain ⟨x, hx, -⟩ := hc; exact absurd hx List.not_mem_nil
  · refine ⟨m.inv u i v hu.1 hi, ?_⟩
    rw [hhist l i u v hu.1 hi, m.view_eq u i v hu.1 hi]
    exact hu.2.act _
  · rw [hhist l i u v hu.1 hi, m.view_eq u i v hu.1 hi]
    exact Mirror.current_act_iff hu.2 hc (m.enabled u i v hu.1 hi)

end Mirrored

end Lib
end Especial
