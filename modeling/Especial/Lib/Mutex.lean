/-
# Who holds a mutex

Threads of type `τ` share a mutex, whose state is the thread that holds it, if any.
Whether a thread is in its critical section is seen from its program counter;
`Owned` says that the two agree.  A step of a thread takes the mutex, gives it back
or does neither, and keeps the agreement (`Owned.lock`, `Owned.unlock`,
`Owned.keep`); two threads are never in their critical sections at once
(`Owned.eq_of_inside`).
-/

namespace Especial
namespace Lib

universe u
variable {τ : Type u} {mutex : Option τ} {inside inside' : τ → Prop} {i j : τ}

/-- The mutex is held by the thread that is inside, if one is. -/
def Owned (mutex : Option τ) (inside : τ → Prop) : Prop := ∀ i, mutex = some i ↔ inside i

/-- The threads other than `i` stay where they are. -/
def OthersStay (inside inside' : τ → Prop) (i : τ) : Prop :=
  ∀ j, j ≠ i → (inside' j ↔ inside j)

/-- The critical sections exclude each other. -/
theorem Owned.eq_of_inside (h : Owned mutex inside) (hi : inside i) (hj : inside j) : i = j :=
  Option.some.inj (((h i).2 hi).symm.trans ((h j).2 hj))

/-- With the mutex free nobody is inside. -/
theorem Owned.not_inside (h : Owned none inside) (i : τ) : ¬inside i := fun hi =>
  nomatch (h i).2 hi

/-- A thread takes the free mutex and goes inside. -/
theorem Owned.lock (h : Owned none inside) (hi : inside' i)
    (hothers : OthersStay inside inside' i) : Owned (some i) inside' := by
  intro j
  constructor
  · intro hj
    obtain rfl := Option.some.inj hj
    exact hi
  · intro hj
    by_cases hji : j = i
    · rw [hji]
    · exact absurd ((hothers j hji).1 hj) (h.not_inside j)

/-- The thread inside gives it back and leaves. -/
theorem Owned.unlock (h : Owned mutex inside) (hi : inside i) (hout : ¬inside' i)
    (hothers : OthersStay inside inside' i) : Owned none inside' := by
  intro j
  refine iff_of_false nofun fun hj => ?_
  by_cases hji : j = i
  · exact hout (hji ▸ hj)
  · exact hji (h.eq_of_inside ((hothers j hji).1 hj) hi)

/-- Nobody enters or leaves. -/
theorem Owned.keep (h : Owned mutex inside) (hsame : ∀ i, inside' i ↔ inside i) :
    Owned mutex inside' :=
  fun i => (h i).trans (hsame i).symm

end Lib
end Especial
