/-
# The functions of the kernel's lists

Each function of `list.c` on the lists that the pointers stand for: `vListInsertEnd`,
`vListInsert` with its loop, `vListRemove`, and the macros that read the head and the next
entry.
-/

import Especial.Lib.Returns
import Especial.Rtos.List
import Mathlib.Data.List.TakeWhile

namespace Especial
namespace Rtos

open Lib

variable {L I : Type} {h h' : Heap L I} {l k : L} {i x : I} {z : Zipper I} {zs : L → Zipper I}
variable [DecidableEq L] [DecidableEq I]

/-- **`vListInsertEnd`**: behind the cursor, which moves to the item. -/
theorem vListInsertEnd_represents (hr : Represents h zs) (hx : ∀ k, x ∉ (zs k).toList) (l : L) :
    Represents (vListInsertEnd h l x) (Function.update zs l ((zs l).insertEnd x)) := by
  have hindex := (hr.list l).index
  have hne : h.pxIndex l ≠ .item x := fun heq =>
    item_notMem_ring (hx l) (heq ▸ hindex ▸ cursor_mem (q := (zs l).after) rfl)
  refine hr.insert hx (p := (zs l).before) (q := (zs l).after) rfl
    (by simp [Zipper.insertEnd, Zipper.toList]) ?_ ?_ ?_ (fun k hk => ?_) rfl rfl rfl
  · rw [← hindex]
    rfl
  · rw [← hindex]
    show Function.update _ (Function.update h.pxNext _ _ (h.pxIndex l)) _ = _
    rw [Function.update_of_ne hne]
  · show Function.update _ l _ l = _
    rw [Function.update_self]
    simp [cursor, Zipper.insertEnd]
  · show Function.update _ l _ k = _
    rw [Function.update_of_ne hk]

/-- **An item is taken out** from between `p` and `q`. -/
theorem Represents.remove (hr : Represents h zs) {p q : List I} (hpq : (zs l).toList = p ++ x :: q)
    (hz : z.toList = p ++ q)
    (hnext : h'.pxNext = Function.update h.pxNext (h.pxPrevious (.item x)) (h.pxNext (.item x)))
    (hprev : h'.pxPrevious =
      Function.update h.pxPrevious (h.pxNext (.item x)) (h.pxPrevious (.item x)))
    (hindex : h'.pxIndex l = cursor l z.before) (hindices : ∀ k ≠ l, h'.pxIndex k = h.pxIndex k)
    (hcontainer : h'.pvContainer = Function.update h.pvContainer x none)
    (hcount : h'.uxNumberOfItems = Function.update h.uxNumberOfItems l (h.uxNumberOfItems l - 1))
    (hvalue : h'.xItemValue = h.xItemValue) : Represents h' (Function.update zs l z) := by
  have hlinked := (hr.list l).linked
  have hmem : x ∈ (zs l).toList := by rw [hpq]; simp
  have hring : (Node.item x : Node L I) ∈ ring l (zs l) :=
    List.mem_cons_of_mem _ (mem_map_item.2 hmem)
  have hnodup := (hr.list l).nodup
  rw [hpq] at hnodup
  have hx : x ∉ p ++ q := (List.nodup_middle.1 hnodup).notMem
  refine ⟨fun k => ?_, fun i k => ?_⟩
  · rcases eq_or_ne k l with rfl | hk
    · rw [Function.update_self]
      refine ⟨?_, hindex, ?_, by rw [hvalue]; exact (hr.list k).marker⟩
      · rw [hpq, List.map_append, List.map_cons] at hlinked
        rw [hz, List.map_append, hnext, hprev]
        exact hlinked.remove
      · rw [hcount, Function.update_self, (hr.list k).count, hpq, hz]
        simp
    · rw [Function.update_of_ne hk]
      refine (hr.list k).congr (fun y hy => ?_) (fun y hy => ?_) (hindices k hk) ?_ (by rw [hvalue])
      · rw [hnext, Function.update_of_ne]
        exact fun hya => hr.disjoint hk hy (hya ▸ hlinked.prev_mem hring)
      · rw [hprev, Function.update_of_ne]
        exact fun hyb => hr.disjoint hk hy (hyb ▸ hlinked.next_mem hring)
      · rw [hcount, Function.update_of_ne hk]
  · rw [hcontainer]
    rcases eq_or_ne i x with rfl | hi
    · rw [Function.update_self]
      refine iff_of_false nofun ?_
      rcases eq_or_ne k l with rfl | hk
      · rw [Function.update_self, hz]
        exact hx
      · rw [Function.update_of_ne hk]
        exact fun hmem' => hk (hr.unique hmem' hmem)
    · rw [Function.update_of_ne hi, hr.container]
      rcases eq_or_ne k l with rfl | hk
      · rw [Function.update_self, hz, hpq]
        simp [hi]
      · rw [Function.update_of_ne hk]

/-- **`vListRemove`**: the item leaves the list that it is in. -/
theorem vListRemove_returns (hr : Represents h zs) (hx : x ∈ (zs l).toList) :
    Returns (vListRemove h x) fun h' =>
      Represents h' (fun l => (zs l).remove x) ∧ h'.xItemValue = h.xItemValue := by
  have hnodup := (hr.list l).nodup
  have honly : Function.update zs l ((zs l).remove x) = fun l => (zs l).remove x := by
    funext k
    rcases eq_or_ne k l with rfl | hk
    · rw [Function.update_self]
    · rw [Function.update_of_ne hk, Zipper.remove_of_notMem fun hmem => hk (hr.unique hmem hx)]
  rw [← honly]
  obtain ⟨p, q, hpq, hz, hcursor⟩ := cursor_remove (l := l) hnodup hx
  have hlinked := (hr.list l).linked
  rw [hpq, List.map_append, List.map_cons] at hlinked
  obtain ⟨hprev, hnext⟩ := hlinked.around
  have hself : h.pxNext (.item x) ≠ .item x := by
    have hnotMem : (Node.item x : Node L I) ∉ q.map .item ++ [.listEnd l] := by
      rw [hpq] at hnodup
      have hx := (List.nodup_middle.1 hnodup).notMem
      simp only [List.mem_append, not_or] at hx
      simp [hx.2]
    intro heq
    rw [← hnext.symm.trans heq] at hnotMem
    exact hnotMem (List.head_mem _)
  have hback : Function.update h.pxPrevious (h.pxNext (.item x)) (h.pxPrevious (.item x)) (.item x)
      = h.pxPrevious (.item x) := Function.update_of_ne hself.symm _ _
  have hindex : (if h.pxIndex l = .item x then h.pxPrevious (.item x) else h.pxIndex l)
      = cursor l ((zs l).remove x).before := by
    rw [← hcursor, (hr.list l).index, hprev]
    rfl
  simp only [vListRemove, hback, (hr.container x l).2 hx]
  refine Returns.pure ?_
  split at hindex
  · rename_i heq
    rw [if_pos heq]
    refine ⟨hr.remove hpq hz rfl rfl ?_ (fun k hk => ?_) rfl rfl rfl, rfl⟩
    · exact (Function.update_self ..).trans hindex
    · exact Function.update_of_ne hk _ _
  · rename_i hne
    rw [if_neg hne]
    exact ⟨hr.remove hpq hz rfl rfl hindex (fun _ _ => rfl) rfl rfl rfl, rfl⟩

/-- **`listGET_OWNER_OF_NEXT_ENTRY`**: the next item, round through the end marker. -/
theorem listGET_OWNER_OF_NEXT_ENTRY_returns (hr : Represents h zs)
    (hz : (zs l).next? = some (x, z)) :
    Returns (listGET_OWNER_OF_NEXT_ENTRY h l) fun r =>
      r.1 = x ∧ Represents r.2 (Function.update zs l z) ∧ r.2.xItemValue = h.xItemValue := by
  have hl := hr.list l
  have hmove := hr.move (l := l) (Zipper.toList_next hz)
  cases hzs : zs l with
  | mk p q =>
  rw [hzs] at hz hl
  have hnext := hl.next_cursor (p := p) (q := q) rfl
  simp only [listGET_OWNER_OF_NEXT_ENTRY, Function.update_self, hl.index, hnext]
  cases q with
  | cons y q =>
    obtain ⟨rfl, rfl⟩ := Prod.mk.inj (Option.some.inj hz)
    rw [cursor_append_singleton] at hmove
    simp only [List.map_cons, List.cons_append, List.head_cons, reduceCtorEq, if_false]
    exact ⟨_, by rw [Function.update_self]; rfl, rfl, hmove, rfl⟩
  | nil =>
    cases p with
    | nil => cases hz
    | cons y p =>
      obtain ⟨rfl, rfl⟩ := Prod.mk.inj (Option.some.inj hz)
      -- the end marker is passed over
      have hhead := hl.next_cursor (p := []) (q := y :: p) (by simp [Zipper.toList])
      rw [cursor_nil] at hhead
      simp only [List.map_nil, List.nil_append, List.head_cons, if_true,
        Function.update_idem, hhead, List.map_cons, List.cons_append]
      exact ⟨_, by rw [Function.update_self]; rfl, rfl, hmove, rfl⟩

/-- **`vListInsert`**: behind the items with no greater value, in a list that is not walked. -/
theorem vListInsert_settles (hr : Represents h zs) (hx : ∀ k, x ∉ (zs k).toList)
    (hbefore : (zs l).before = []) :
    Settles (fun n => vListInsert h n l x) fun h' =>
      Represents h' (Function.update zs l ⟨[], (zs l).after.takeWhile
          (fun y => h.xItemValue (.item y) ≤ h.xItemValue (.item x)) ++ x ::
          (zs l).after.dropWhile fun y => h.xItemValue (.item y) ≤ h.xItemValue (.item x)⟩) ∧
        h'.xItemValue = h.xItemValue := by
  have htoList : (zs l).toList = (zs l).after := by rw [Zipper.toList, hbefore, List.nil_append]
  have hfound := insertAfter_settles (hr.list l) (h.xItemValue (.item x))
  set le : I → Bool := fun y => decide (h.xItemValue (.item y) ≤ h.xItemValue (.item x))
  refine hfound.bind ?_
  rintro s rfl
  have hpq : (zs l).toList = (zs l).toList.takeWhile le ++ (zs l).toList.dropWhile le :=
    List.takeWhile_append_dropWhile.symm
  set a := cursor l ((zs l).toList.takeWhile le)
  have hmem : a ∈ ring l (zs l) := cursor_mem hpq
  have hne' : h.pxNext a ≠ .item x := fun heq =>
    item_notMem_ring (hx l) (heq ▸ (hr.list l).linked.next_mem hmem)
  refine Settles.pure
    ⟨hr.insert hx hpq (by rw [htoList]; rfl) rfl ?_ ?_ (fun _ _ => rfl) rfl rfl rfl, rfl⟩
  · show Function.update (Function.update h.pxPrevious
      (Function.update h.pxNext (.item x) (h.pxNext a) (.item x)) (.item x)) (.item x) a = _
    rw [Function.update_self]
    exact Function.update_comm hne' _ _ _
  · show h.pxIndex l = _
    rw [(hr.list l).index, hbefore]

/-- The values of the other nodes. -/
theorem listSET_LIST_ITEM_VALUE_of_ne {y : Node L I} (hy : y ≠ .item x)
    (v : BitVec 32) : (listSET_LIST_ITEM_VALUE h x v).xItemValue y = h.xItemValue y := by
  simp [listSET_LIST_ITEM_VALUE, hy]

/-- `listSET_LIST_ITEM_VALUE` leaves the lists as they are. -/
theorem Represents.setValue (hr : Represents h zs) (x : I) (v : BitVec 32) :
    Represents (listSET_LIST_ITEM_VALUE h x v) zs := by
  refine ⟨fun l => (hr.list l).congr (fun _ _ => rfl) (fun _ _ => rfl) rfl rfl ?_, hr.container⟩
  exact listSET_LIST_ITEM_VALUE_of_ne (by simp) v

omit [DecidableEq L] in
/-- So does `vListInitialiseItem`, for an item that is in no list. -/
theorem Represents.initialiseItem (hr : Represents h zs) (hx : ∀ k, x ∉ (zs k).toList) :
    Represents (vListInitialiseItem h x) zs := by
  have hsame : vListInitialiseItem h x = h := by
    have hnone := hr.container_none.2 hx
    rw [vListInitialiseItem, ← hnone, Function.update_eq_self]
  rw [hsame]
  exact hr

/-- `vListInitialise`: the list is empty. -/
theorem vListInitialise_isList (h : Heap L I) (l : L) : IsList (vListInitialise h l) l .empty :=
  ⟨.empty (Function.update_self ..) (Function.update_self ..), Function.update_self ..,
    Function.update_self .., Function.update_self ..⟩

/-- Initialising a list keeps the others. -/
theorem vListInitialise_of_ne (hl : IsList h l z) (hne : l ≠ k) :
    IsList (vListInitialise h k) l z := by
  have hend : ∀ y ∈ ring l z, y ≠ .listEnd k := by
    rintro y hy rfl
    exact listEnd_notMem l k z.toList hne hy
  exact hl.congr (fun y hy => Function.update_of_ne (hend y hy) _ _)
    (fun y hy => Function.update_of_ne (hend y hy) _ _) (Function.update_of_ne hne _ _)
    (Function.update_of_ne hne _ _) (Function.update_of_ne (by simpa using hne) _ _)

end Rtos
end Especial
