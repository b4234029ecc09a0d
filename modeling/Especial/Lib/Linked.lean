/-
# Doubly linked rings

Nodes with a successor and a predecessor each.  A ring has a sentinel `e`, and the other
nodes in their order are a list: `Linked next prev e xs`.  A node is put in behind any
other one and taken out again by changing two links in each direction.
-/

import Mathlib.Data.List.Nodup
import Mathlib.Logic.Function.Basic

namespace Especial
namespace Lib

variable {ν : Type*} {next prev next' prev' : ν → ν} {e a b x : ν} {xs p p' q q' : List ν}

/-- From the sentinel `e` the successors lead through `xs` and back to `e`, and the
predecessors lead the other way round. -/
structure Linked (next prev : ν → ν) (e : ν) (xs : List ν) : Prop where
  nodup : (e :: xs).Nodup
  next : (e :: xs).map next = xs ++ [e]
  prev : (xs ++ [e]).map prev = e :: xs

/-- A sentinel linked to itself. -/
theorem Linked.empty (hnext : next e = e) (hprev : prev e = e) : Linked next prev e [] :=
  ⟨List.nodup_singleton e, by simp [hnext], by simp [hprev]⟩

/-- Links of other nodes do not matter. -/
theorem Linked.congr (h : Linked next prev e xs) (hnext : ∀ y ∈ e :: xs, next' y = next y)
    (hprev : ∀ y ∈ e :: xs, prev' y = prev y) : Linked next' prev' e xs := by
  refine ⟨h.nodup, ?_, ?_⟩
  · rw [List.map_congr_left hnext, h.next]
  · rw [← h.prev]
    refine List.map_congr_left fun y hy => hprev y ?_
    rcases List.mem_append.1 hy with hy | hy
    · exact List.mem_cons_of_mem e hy
    · rw [List.mem_singleton.1 hy]
      exact List.mem_cons_self

/-- The links stay in the ring. -/
theorem Linked.next_mem (h : Linked next prev e xs) (ha : a ∈ e :: xs) : next a ∈ e :: xs := by
  have hmem : next a ∈ (e :: xs).map next := List.mem_map_of_mem ha
  rw [h.next] at hmem
  exact (List.perm_append_singleton e xs).mem_iff.1 hmem

/-- The predecessors stay in the ring. -/
theorem Linked.prev_mem (h : Linked next prev e xs) (ha : a ∈ e :: xs) : prev a ∈ e :: xs := by
  rw [← h.prev]
  exact List.mem_map_of_mem ((List.perm_append_singleton e xs).mem_iff.2 ha)

/-! ### Cut in two -/

/-- The links of a ring that is cut between `a` and `b`. -/
structure Cut (next prev : ν → ν) (p' p : List ν) (a b : ν) (q q' : List ν) : Prop where
  nextBefore : p'.map next = p
  nextHere : next a = b
  nextAfter : q.map next = q'
  prevBefore : p.map prev = p'
  prevHere : prev b = a
  prevAfter : q'.map prev = q

/-- **A ring cut in one place**: its links are those of the two parts and the ones between `a` and
`b`. -/
theorem linked_iff_cut (hp : e :: p = p' ++ [a]) (hq : q ++ [e] = b :: q') :
    Linked next prev e (p ++ q) ↔ (e :: (p ++ q)).Nodup ∧ Cut next prev p' p a b q q' := by
  have hlen : p'.length = p.length := by
    have := congrArg List.length hp
    simpa using this.symm
  have hall : e :: (p ++ q) = p' ++ a :: q := by
    rw [← List.cons_append, hp, List.append_assoc]
    rfl
  have hback : p ++ q ++ [e] = p ++ b :: q' := by rw [List.append_assoc, hq]
  constructor
  · intro h
    have hnext := h.next
    have hprev := h.prev
    rw [hall, hback, List.map_append, List.map_cons] at hnext
    rw [hall, hback, List.map_append, List.map_cons] at hprev
    obtain ⟨h₁, h₂⟩ := List.append_inj hnext (by simpa using hlen)
    obtain ⟨h₃, h₄⟩ := List.append_inj hprev (by simpa using hlen.symm)
    obtain ⟨h₅, h₆⟩ := List.cons.inj h₂
    obtain ⟨h₇, h₈⟩ := List.cons.inj h₄
    exact ⟨h.nodup, h₁, h₅, h₆, h₃, h₇, h₈⟩
  · rintro ⟨hnodup, h₁, h₅, h₆, h₃, h₇, h₈⟩
    refine ⟨hnodup, ?_, ?_⟩
    · rw [hall, hback, List.map_append, List.map_cons, h₁, h₅, h₆]
    · rw [hall, hback, List.map_append, List.map_cons, h₃, h₇, h₈]

/-- A ring can be cut behind every part. -/
theorem exists_cut (e : ν) (p q : List ν) :
    ∃ p' a b q', e :: p = p' ++ [a] ∧ q ++ [e] = b :: q' ∧
      a = (e :: p).getLast (List.cons_ne_nil e p) ∧ b = (q ++ [e]).head (by simp) :=
  ⟨(e :: p).dropLast, _, _, (q ++ [e]).tail, (List.dropLast_append_getLast _).symm,
    (List.cons_head_tail _).symm, rfl, rfl⟩

/-- The nodes of a ring that is cut, seen from either side. -/
theorem Linked.nodup_cut (h : (e :: (p ++ q)).Nodup) (hp : e :: p = p' ++ [a])
    (hq : q ++ [e] = b :: q') : (p' ++ a :: q).Nodup ∧ (p ++ b :: q').Nodup := by
  constructor
  · rw [← List.cons_append, hp, List.append_assoc] at h
    exact h
  · rw [← hq, ← List.append_assoc]
    exact (List.perm_append_singleton e (p ++ q)).nodup_iff.2 h

/-- The node behind the last one of `p`. -/
theorem Linked.next_getLast (h : Linked next prev e (p ++ q)) :
    next ((e :: p).getLast (List.cons_ne_nil e p)) = (q ++ [e]).head (by simp) := by
  obtain ⟨p', a, b, q', hp, hq, rfl, rfl⟩ := exists_cut e p q
  exact ((linked_iff_cut hp hq).1 h).2.nextHere

/-- The links of a node of the ring. -/
theorem Linked.around (h : Linked next prev e (p ++ x :: q)) :
    prev x = (e :: p).getLast (List.cons_ne_nil e p) ∧ next x = (q ++ [e]).head (by simp) := by
  obtain ⟨p', a, b, q', hp, hq, rfl, rfl⟩ := exists_cut e p q
  set a := (e :: p).getLast (List.cons_ne_nil e p)
  have hsplit : e :: (p ++ [x]) = (p' ++ [a]) ++ [x] := by rw [← List.cons_append, hp]
  rw [List.append_cons, linked_iff_cut hsplit hq] at h
  have hback := h.2.prevBefore
  rw [List.map_append] at hback
  have hx : [prev x] = [a] := (List.append_inj' hback rfl).2
  exact ⟨List.singleton_inj.1 hx, h.2.nextHere⟩

/-- The predecessor of the sentinel is the last node. -/
theorem Linked.prev_end (h : Linked next prev e xs) :
    prev e = (e :: xs).getLast (List.cons_ne_nil e xs) := by
  have hlast := congrArg List.getLast? h.prev
  rw [List.map_append, List.map_singleton, List.getLast?_concat,
    List.getLast?_eq_some_getLast (List.cons_ne_nil e xs)] at hlast
  exact Option.some.inj hlast

section Update

variable [DecidableEq ν]

/-- A link of a node outside is no link of the nodes. -/
theorem map_update_of_notMem {f : ν → ν} {y : ν} (h : a ∉ xs) :
    xs.map (Function.update f a y) = xs.map f :=
  List.map_congr_left fun _ hz => Function.update_of_ne (ne_of_mem_of_not_mem hz h) ..

/-- **A node is put in** behind the last one of `p`. -/
theorem Linked.insert (h : Linked next prev e (p ++ q)) (hx : x ∉ e :: (p ++ q))
    (ha : a = (e :: p).getLast (List.cons_ne_nil e p)) :
    Linked (Function.update (Function.update next x (next a)) a x)
      (Function.update (Function.update prev x a) (next a) x) e (p ++ x :: q) := by
  obtain ⟨p', a', b, q', hp, hq, rfl, -⟩ := exists_cut e p q
  subst ha
  set a := (e :: p).getLast (List.cons_ne_nil e p)
  obtain ⟨hnodup, hcut⟩ := (linked_iff_cut hp hq).1 h
  obtain ⟨hfrom, hto⟩ := Linked.nodup_cut hnodup hp hq
  have hxfrom : x ∉ p' ++ a :: q := by
    rw [← List.cons_append, hp, List.append_assoc] at hx
    exact hx
  have hxto : x ∉ p ++ b :: q' := by
    rw [← hq, ← List.append_assoc]
    exact fun hmem => hx ((List.perm_append_singleton e (p ++ q)).mem_iff.1 hmem)
  simp only [List.mem_append, List.mem_cons, not_or] at hxfrom hxto
  simp only [List.nodup_append, List.nodup_cons, List.mem_cons] at hfrom hto
  have hap' : a ∉ p' := fun hmem => hfrom.2.2 a hmem a (Or.inl rfl) rfl
  have hbp : b ∉ p := fun hmem => hto.2.2 b hmem b (Or.inl rfl) rfl
  have hsplit : e :: (p ++ [x]) = (p' ++ [a]) ++ [x] := by rw [← List.cons_append, hp]
  rw [List.append_cons, linked_iff_cut hsplit hq]
  refine ⟨?_, ?_, ?_, ?_, ?_, ?_, ?_⟩
  · rw [← List.append_cons]
    have hperm : (e :: (p ++ x :: q)).Perm (x :: e :: (p ++ q)) :=
      (List.perm_middle.cons e).trans (List.Perm.swap x e _)
    exact hperm.nodup_iff.2 (List.nodup_cons.2 ⟨hx, hnodup⟩)
  · rw [List.map_append, map_update_of_notMem hap', map_update_of_notMem hxfrom.1, hcut.nextBefore]
    simp
  · rw [Function.update_of_ne hxfrom.2.1, Function.update_self, hcut.nextHere]
  · rw [map_update_of_notMem hfrom.2.1.1, map_update_of_notMem hxfrom.2.2, hcut.nextAfter]
  · rw [hcut.nextHere, List.map_append, map_update_of_notMem hbp, map_update_of_notMem hxto.1,
      hcut.prevBefore]
    simp [Function.update_of_ne hxto.2.1]
  · rw [hcut.nextHere, Function.update_self]
  · rw [hcut.nextHere, map_update_of_notMem hto.2.1.1, map_update_of_notMem hxto.2.2,
      hcut.prevAfter]

/-- **A node is taken out.** -/
theorem Linked.remove (h : Linked next prev e (p ++ x :: q)) :
    Linked (Function.update next (prev x) (next x)) (Function.update prev (next x) (prev x)) e
      (p ++ q) := by
  obtain ⟨hprev, hnext⟩ := h.around
  obtain ⟨p', a, b, q', hp, hq, rfl, rfl⟩ := exists_cut e p q
  rw [hprev, hnext]
  set a := (e :: p).getLast (List.cons_ne_nil e p)
  set b := (q ++ [e]).head (by simp)
  have hsplit : e :: (p ++ [x]) = (p' ++ [a]) ++ [x] := by rw [← List.cons_append, hp]
  rw [List.append_cons, linked_iff_cut hsplit hq] at h
  obtain ⟨hnodup, hcut⟩ := h
  have hnodup' : (e :: (p ++ q)).Nodup := by
    rw [← List.append_cons] at hnodup
    exact hnodup.sublist (((List.sublist_cons_self x q).append_left p).cons_cons e)
  obtain ⟨hfrom, hto⟩ := Linked.nodup_cut hnodup' hp hq
  simp only [List.nodup_append, List.nodup_cons, List.mem_cons] at hfrom hto
  have hap' : a ∉ p' := fun hmem => hfrom.2.2 a hmem a (Or.inl rfl) rfl
  have hbp : b ∉ p := fun hmem => hto.2.2 b hmem b (Or.inl rfl) rfl
  have hfore := hcut.nextBefore
  have hback := hcut.prevBefore
  rw [List.map_append] at hfore hback
  rw [linked_iff_cut hp hq]
  refine ⟨hnodup', ?_, Function.update_self .., ?_, ?_, Function.update_self .., ?_⟩
  · rw [map_update_of_notMem hap']
    exact (List.append_inj' hfore rfl).1
  · rw [map_update_of_notMem hfrom.2.1.1, hcut.nextAfter]
  · rw [map_update_of_notMem hbp]
    exact (List.append_inj' hback rfl).1
  · rw [map_update_of_notMem hto.2.1.1, hcut.prevAfter]

end Update

end Lib
end Especial
