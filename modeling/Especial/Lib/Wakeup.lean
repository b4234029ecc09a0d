/-
# Lost wake-ups

A thread sleeps on a condition variable until a signal; a signal that comes while it
is awake is not remembered.  `Sleeper` is what such a thread looks like from
outside: it is `asleep`, there is work `due` for it, a signal is still `coming`, and
it `falls` asleep in some steps.  While it sleeps, new work comes with a signal, and
a signal that is due does not vanish without waking it.

Then the only steps that can lose a wake-up are those in which it falls asleep:
`Sleeper.rested_iff` says that it never sleeps on due work in a run exactly when it
never falls asleep on it.
-/

import Especial.Lib.Run

namespace Especial
namespace Lib

universe u v
variable {σ : Type u} {ι : Type v}

/-- A thread of the system `R` that sleeps and is woken; `J` holds in every state. -/
structure Sleeper (R : σ → ι → σ → Prop) (J : σ → Prop) where
  asleep : σ → Prop
  due : σ → Prop
  coming : σ → Prop
  falls : σ → ι → Prop
  inv : ∀ s i t, J s → R s i t → J t
  falls_iff : ∀ s i t, J s → R s i t → ¬asleep s → (asleep t ↔ falls s i)
  of_falls : ∀ s i t, J s → R s i t → falls s i →
    ¬asleep s ∧ (due t ↔ due s) ∧ (coming t ↔ coming s)
  new_work : ∀ s i t, J s → R s i t → asleep s → asleep t → ¬due s → due t → coming t
  no_signal : ∀ s i t, J s → R s i t → asleep s → asleep t → coming s → coming t

namespace Sleeper

variable {R : σ → ι → σ → Prop} {J : σ → Prop} (m : Sleeper R J) {s t : σ} {i : ι}
    {l : List ι}

/-- It does not sleep on due work, unless a signal is coming. -/
def Rested (s : σ) : Prop := m.asleep s → m.due s → m.coming s

/-- It does not fall asleep on due work, unless a signal is coming. -/
def FallsRested (s : σ) (i : ι) : Prop := m.falls s i → m.due s → m.coming s

/-- **One step** loses no wake-up exactly if the thread does not fall asleep on due
work in it. -/
theorem step_iff (hJ : J s) (hs : m.Rested s) (h : R s i t) : m.Rested t ↔ m.FallsRested s i := by
  by_cases hsleep : m.asleep s
  · refine iff_of_true (fun ht hdue => ?_) fun hf => absurd hsleep (m.of_falls s i t hJ h hf).1
    by_cases hdue' : m.due s
    · exact m.no_signal s i t hJ h hsleep ht (hs hsleep hdue')
    · exact m.new_work s i t hJ h hsleep ht hdue' hdue
  · constructor
    · intro ht hf hdue
      obtain ⟨-, hdue', hcoming⟩ := m.of_falls s i t hJ h hf
      exact hcoming.1 (ht ((m.falls_iff s i t hJ h hsleep).2 hf) (hdue'.2 hdue))
    · intro hfr ht hdue
      have hf := (m.falls_iff s i t hJ h hsleep).1 ht
      obtain ⟨-, hdue', hcoming⟩ := m.of_falls s i t hJ h hf
      exact hcoming.2 (hfr hf (hdue'.1 hdue))

/-- **A run** loses no wake-up exactly if the thread never falls asleep on due work. -/
theorem rested_iff (hdet : ∀ s i t t', R s i t → R s i t' → t = t')
    (h : Run R s l t) (hJ : J s)
    (hs : m.Rested s) : (∀ l₁ u, l₁ <+: l → Run R s l₁ u → m.Rested u) ↔
      Run (Guarded R m.FallsRested) s l t :=
  Run.forall_prefix_iff hdet m.inv (fun _ _ _ hJ hs h => m.step_iff hJ hs h) h hJ hs

end Sleeper

end Lib
end Especial
