/-
# Forests

Every element of an ordered type has at most one parent, and a parent comes before its
children.  The ancestors of an element then are a chain (`Ancestor.total`), so the
descendants of two children of one parent have nothing in common
(`Ancestor.eq_of_siblings`).
-/

import Mathlib.Logic.Relation
import Mathlib.Order.Basic

namespace Especial
namespace Lib

universe u
variable {α : Type u} {parent : α → Option α} {a b i j o : α}

/-- `a` is `j`, its parent, the parent of its parent and so on. -/
def Ancestor (parent : α → Option α) (j a : α) : Prop :=
  Relation.ReflTransGen (fun j i => parent j = some i) j a

/-- Parents come before their children. -/
def ParentsFirst [LT α] (parent : α → Option α) : Prop := ∀ j i, parent j = some i → i < j

namespace Ancestor

/-- A node is an ancestor of itself, in this sense. -/
theorem refl (j : α) : Ancestor parent j j := Relation.ReflTransGen.refl

/-- The ancestors of an ancestor. -/
theorem trans (h : Ancestor parent j a) (h' : Ancestor parent a b) : Ancestor parent j b :=
  Relation.ReflTransGen.trans h h'

/-- An ancestor of a child is the child or an ancestor of its parent. -/
theorem eq_or_of_parent (h : Ancestor parent o a) (ho : parent o = some i) :
    a = o ∨ Ancestor parent i a := by
  rcases Relation.ReflTransGen.cases_head h with heq | ⟨k, hk, hka⟩
  · exact Or.inl heq.symm
  · obtain rfl := Option.some.inj (ho.symm.trans hk)
    exact Or.inr hka

/-- A node below `o` is below the parent of `o`. -/
theorem to_parent (h : Ancestor parent j o) (ho : parent o = some i) : Ancestor parent j i :=
  Relation.ReflTransGen.tail h ho

/-- The ancestors of an element are a chain. -/
theorem total (ha : Ancestor parent j a) (hb : Ancestor parent j b) :
    Ancestor parent a b ∨ Ancestor parent b a := by
  refine Relation.ReflTransGen.total_of_right_unique (fun x y z hy hz => ?_) ha hb
  exact Option.some.inj (hy.symm.trans hz)

variable [Preorder α]

/-- Ancestors come first. -/
theorem le (hfirst : ParentsFirst parent) (h : Ancestor parent j a) : a ≤ j := by
  induction h with
  | refl => exact le_refl j
  | tail _ hstep ih => exact (hfirst _ _ hstep).le.trans ih

/-- Two children of one parent have no common descendant. -/
theorem eq_of_siblings (hfirst : ParentsFirst parent) (ha : parent a = some i)
    (hb : parent b = some i) (hja : Ancestor parent j a) (hjb : Ancestor parent j b) : a = b := by
  have hchild : ∀ {c d : α}, parent c = some i → parent d = some i →
      Ancestor parent c d → d = c := by
    intro c d hc hd hcd
    refine (hcd.eq_or_of_parent hc).resolve_right fun hid => ?_
    exact absurd (hid.le hfirst) (hfirst d i hd).not_ge
  rcases hja.total hjb with h | h
  · exact (hchild ha hb h).symm
  · exact hchild hb ha h

end Ancestor

end Lib
end Especial
