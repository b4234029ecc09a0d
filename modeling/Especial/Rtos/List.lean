/-
# The lists of the kernel

`list.c` of FreeRTOS: `xList` has a `pxIndex` and an end marker, and its items are linked
both ways, round through the marker.  The model has the pointers as the source has them.

`Represents` says which lists the pointers stand for: a `Zipper` each, with the cursor at
`pxIndex`.  `vListInsertEnd` puts an item behind `pxIndex`, where it is the last one that
`listGET_OWNER_OF_NEXT_ENTRY` comes to; `vListInsert` goes from the marker to the first
item with a greater value; `vListRemove` takes an item out of the list it is in.
-/

import Especial.Lib.Linked
import Especial.Lib.Settles
import Especial.Lib.Zipper

namespace Especial
namespace Rtos

open Lib

/-- `portMAX_DELAY`. -/
def portMAX_DELAY : BitVec 32 := 0xffffffff

/-- What the C program must not do. -/
inductive Fault
  /-- `pvContainer` of an item that is in no list -/
  | nullContainer
  /-- `pvOwner` of an end marker, which has none -/
  | ownerOfListEnd
  /-- `uxTopReadyPriority` below zero -/
  | noReadyTask
  /-- `pxCurrentTCB` before there is a task -/
  | nullCurrentTCB
  /-- `uxSchedulerSuspended` below zero -/
  | notSuspended
  deriving DecidableEq, Repr

/-- What `pxNext` and `pxPrevious` point to: the end marker of a list, or an item. -/
inductive Node (L I : Type)
  | listEnd (l : L)
  | item (i : I)
  deriving DecidableEq

/-- The lists `L` and the items `I`. -/
structure Heap (L I : Type) where
  pxNext : Node L I → Node L I
  pxPrevious : Node L I → Node L I
  xItemValue : Node L I → BitVec 32
  pvContainer : I → Option L
  pxIndex : L → Node L I
  uxNumberOfItems : L → ℕ

section Functions

variable {L I : Type} [DecidableEq L] [DecidableEq I] (h : Heap L I)

/-- `vListInitialise`. -/
def vListInitialise (pxList : L) : Heap L I :=
  let xListEnd : Node L I := .listEnd pxList
  { h with
    pxIndex := Function.update h.pxIndex pxList xListEnd
    xItemValue := Function.update h.xItemValue xListEnd portMAX_DELAY
    pxNext := Function.update h.pxNext xListEnd xListEnd
    pxPrevious := Function.update h.pxPrevious xListEnd xListEnd
    uxNumberOfItems := Function.update h.uxNumberOfItems pxList 0 }

/-- `vListInitialiseItem`. -/
def vListInitialiseItem (pxItem : I) : Heap L I :=
  { h with pvContainer := Function.update h.pvContainer pxItem none }

/-- `listSET_LIST_ITEM_VALUE`. -/
def listSET_LIST_ITEM_VALUE (pxItem : I) (xValue : BitVec 32) : Heap L I :=
  { h with xItemValue := Function.update h.xItemValue (.item pxItem) xValue }

/-- `vListInsertEnd`. -/
def vListInsertEnd (pxList : L) (pxNewListItem : I) : Heap L I :=
  let pxIndex := h.pxIndex pxList
  let new : Node L I := .item pxNewListItem
  let h := { h with pxNext := Function.update h.pxNext new (h.pxNext pxIndex) }
  let h := { h with pxPrevious := Function.update h.pxPrevious new (h.pxIndex pxList) }
  let h := { h with pxPrevious := Function.update h.pxPrevious (h.pxNext pxIndex) new }
  let h := { h with pxNext := Function.update h.pxNext pxIndex new }
  let h := { h with pxIndex := Function.update h.pxIndex pxList new }
  let h := { h with pvContainer := Function.update h.pvContainer pxNewListItem (some pxList) }
  { h with
    uxNumberOfItems := Function.update h.uxNumberOfItems pxList (h.uxNumberOfItems pxList + 1) }

/-- A turn of the loop of `vListInsert`. -/
def insertTurn (xValueOfInsertion : BitVec 32) (pxIterator : Node L I) :
    Except Fault (Turn (Node L I) (Node L I)) :=
  if h.xItemValue (h.pxNext pxIterator) ≤ xValueOfInsertion then
    return .again (h.pxNext pxIterator)
  else return .exit pxIterator

/-- Where `vListInsert` puts the item, with at most `n` turns of its loop. -/
def insertAfter (n : ℕ) (pxList : L) (xValueOfInsertion : BitVec 32) :
    ExceptT Fault Option (Node L I) :=
  if xValueOfInsertion = portMAX_DELAY then return h.pxPrevious (.listEnd pxList)
  else loopM (insertTurn h xValueOfInsertion) n (.listEnd pxList)

/-- `vListInsert`. -/
def vListInsert (n : ℕ) (pxList : L) (pxNewListItem : I) : ExceptT Fault Option (Heap L I) := do
  let new : Node L I := .item pxNewListItem
  let xValueOfInsertion := h.xItemValue new
  let pxIterator ← insertAfter h n pxList xValueOfInsertion
  let h := { h with pxNext := Function.update h.pxNext new (h.pxNext pxIterator) }
  let h := { h with pxPrevious := Function.update h.pxPrevious (h.pxNext new) new }
  let h := { h with pxPrevious := Function.update h.pxPrevious new pxIterator }
  let h := { h with pxNext := Function.update h.pxNext pxIterator new }
  let h := { h with pvContainer := Function.update h.pvContainer pxNewListItem (some pxList) }
  return { h with
    uxNumberOfItems := Function.update h.uxNumberOfItems pxList (h.uxNumberOfItems pxList + 1) }

/-- `vListRemove`. -/
def vListRemove (pxItemToRemove : I) : Except Fault (Heap L I) := do
  let it : Node L I := .item pxItemToRemove
  let h := { h with pxPrevious := Function.update h.pxPrevious (h.pxNext it) (h.pxPrevious it) }
  let h := { h with pxNext := Function.update h.pxNext (h.pxPrevious it) (h.pxNext it) }
  match h.pvContainer pxItemToRemove with
  | none => throw .nullContainer
  | some pxList =>
    let h :=
      if h.pxIndex pxList = it then
        { h with pxIndex := Function.update h.pxIndex pxList (h.pxPrevious it) }
      else h
    let h := { h with pvContainer := Function.update h.pvContainer pxItemToRemove none }
    return { h with
      uxNumberOfItems := Function.update h.uxNumberOfItems pxList (h.uxNumberOfItems pxList - 1) }

/-- `listLIST_IS_EMPTY`. -/
def listLIST_IS_EMPTY (pxList : L) : Bool := h.uxNumberOfItems pxList = 0

/-- `pvOwner`: here the item itself stands for the object that it is a part of. -/
def pvOwner : Node L I → Except Fault I
  | .item i => return i
  | .listEnd _ => throw .ownerOfListEnd

/-- `listGET_OWNER_OF_NEXT_ENTRY`. -/
def listGET_OWNER_OF_NEXT_ENTRY (pxList : L) : Except Fault (I × Heap L I) := do
  let h := { h with pxIndex := Function.update h.pxIndex pxList (h.pxNext (h.pxIndex pxList)) }
  let h :=
    if h.pxIndex pxList = .listEnd pxList then
      { h with pxIndex := Function.update h.pxIndex pxList (h.pxNext (h.pxIndex pxList)) }
    else h
  let i ← pvOwner (h.pxIndex pxList)
  return (i, h)

/-- `listGET_OWNER_OF_HEAD_ENTRY`. -/
def listGET_OWNER_OF_HEAD_ENTRY (pxList : L) : Except Fault I :=
  pvOwner (h.pxNext (.listEnd pxList))

end Functions

/-! ### What the pointers stand for -/

section Represents

variable {L I : Type} {h h' : Heap L I} {l k : L} {i x : I} {z : Zipper I} {zs : L → Zipper I}

/-- `pxIndex` for a cursor. -/
def cursor (l : L) (before : List I) : Node L I :=
  (Node.listEnd l :: before.map .item).getLast (List.cons_ne_nil _ _)

/-- The list `l` is `z`. -/
structure IsList (h : Heap L I) (l : L) (z : Zipper I) : Prop where
  linked : Linked h.pxNext h.pxPrevious (.listEnd l) (z.toList.map .item)
  index : h.pxIndex l = cursor l z.before
  count : h.uxNumberOfItems l = z.toList.length
  marker : h.xItemValue (.listEnd l) = portMAX_DELAY

/-- The lists are `zs`, and each item knows the one that it is in. -/
structure Represents (h : Heap L I) (zs : L → Zipper I) : Prop where
  list : ∀ l, IsList h l (zs l)
  container : ∀ i l, h.pvContainer i = some l ↔ i ∈ (zs l).toList

/-- Items are told apart as nodes. -/
theorem item_injective : Function.Injective (Node.item : I → Node L I) :=
  fun _ _ h => Node.item.inj h

/-- An item is once in its list. -/
theorem IsList.nodup (hl : IsList h l z) : z.toList.Nodup :=
  (List.nodup_cons.1 hl.linked.nodup).2.of_map _

/-- The items among the nodes. -/
theorem mem_map_item {xs : List I} : (Node.item i : Node L I) ∈ xs.map .item ↔ i ∈ xs :=
  List.mem_map_of_injective item_injective

/-- The end marker of a list is not in another one. -/
theorem listEnd_notMem (l k : L) (xs : List I) (hne : l ≠ k) :
    (Node.listEnd k : Node L I) ∉ Node.listEnd l :: xs.map .item := by
  simp [Ne.symm hne]

/-- An item is in one list. -/
theorem Represents.unique (hr : Represents h zs) (hl : i ∈ (zs l).toList)
    (hk : i ∈ (zs k).toList) : l = k :=
  Option.some.inj (((hr.container i l).2 hl).symm.trans ((hr.container i k).2 hk))

/-- An item without a list is in none. -/
theorem Represents.container_none (hr : Represents h zs) :
    h.pvContainer i = none ↔ ∀ l, i ∉ (zs l).toList := by
  constructor
  · intro hnone l hmem
    rw [(hr.container i l).2 hmem] at hnone
    cases hnone
  · intro hall
    cases hc : h.pvContainer i with
    | none => rfl
    | some l => exact absurd ((hr.container i l).1 hc) (hall l)

/-- The links, the cursor, the count and the marker of the list are the same. -/
theorem IsList.congr (hl : IsList h l z)
    (hnext : ∀ y ∈ Node.listEnd l :: z.toList.map .item, h'.pxNext y = h.pxNext y)
    (hprev : ∀ y ∈ Node.listEnd l :: z.toList.map .item, h'.pxPrevious y = h.pxPrevious y)
    (hindex : h'.pxIndex l = h.pxIndex l) (hcount : h'.uxNumberOfItems l = h.uxNumberOfItems l)
    (hmarker : h'.xItemValue (.listEnd l) = h.xItemValue (.listEnd l)) : IsList h' l z :=
  ⟨hl.linked.congr hnext hprev, hindex.trans hl.index, hcount.trans hl.count,
    hmarker.trans hl.marker⟩

/-- The nodes of a list. -/
def ring (l : L) (z : Zipper I) : List (Node L I) := .listEnd l :: z.toList.map .item

/-- Two lists have no node in common. -/
theorem Represents.disjoint (hr : Represents h zs) (hne : k ≠ l) {y : Node L I}
    (hy : y ∈ ring k (zs k)) : y ∉ ring l (zs l) := by
  intro hy'
  rcases List.mem_cons.1 hy with rfl | hy
  · rcases List.mem_cons.1 hy' with hend | hy'
    · exact hne (Node.listEnd.inj hend)
    · obtain ⟨_, -, hi⟩ := List.mem_map.1 hy'
      cases hi
  · obtain ⟨i, hi, rfl⟩ := List.mem_map.1 hy
    rcases List.mem_cons.1 hy' with hend | hy'
    · cases hend
    · exact hne (hr.unique hi (mem_map_item.1 hy'))

/-- An item that is not in the list is no node of it. -/
theorem item_notMem_ring (hx : x ∉ z.toList) : (Node.item x : Node L I) ∉ ring l z := by
  intro hmem
  rcases List.mem_cons.1 hmem with hend | hmem
  · cases hend
  · exact hx (mem_map_item.1 hmem)

/-- The cursor is at a node of the list. -/
theorem cursor_mem {p q : List I} (hpq : z.toList = p ++ q) : cursor l p ∈ ring l z := by
  have hmem : cursor l p ∈ Node.listEnd l :: p.map .item := List.getLast_mem _
  rw [ring, hpq, List.map_append, ← List.cons_append]
  exact List.mem_append_left _ hmem

/-- Before the first item the cursor is at the end marker. -/
@[simp] theorem cursor_nil : cursor (I := I) l [] = .listEnd l := rfl

/-- The cursor is at the last item before it. -/
@[simp] theorem cursor_append_singleton (p : List I) : cursor l (p ++ [x]) = .item x := by
  simp [cursor]

/-- The cursor stands on the item only if the item is the last one of its part. -/
theorem cursor_eq_item {p : List I} (h : cursor l p = .item x) : ∃ p', p = p' ++ [x] := by
  rcases List.eq_nil_or_concat' p with rfl | ⟨p', y, rfl⟩
  · cases h
  · rw [cursor_append_singleton] at h
    exact ⟨p', by rw [Node.item.inj h]⟩

/-- The node behind `p`. -/
theorem IsList.next_cursor (hl : IsList h l z) {p q : List I} (hpq : z.toList = p ++ q) :
    h.pxNext (cursor l p) = (q.map Node.item ++ [Node.listEnd l]).head (by simp) := by
  have hlinked := hl.linked
  rw [hpq, List.map_append] at hlinked
  exact hlinked.next_getLast

/-- **`listGET_OWNER_OF_HEAD_ENTRY`**: the first item. -/
theorem listGET_OWNER_OF_HEAD_ENTRY_eq (hl : IsList h l z) {q : List I} (hz : z.toList = x :: q) :
    listGET_OWNER_OF_HEAD_ENTRY h l = .ok x := by
  have hhead := hl.next_cursor (p := []) hz
  rw [cursor_nil] at hhead
  rw [listGET_OWNER_OF_HEAD_ENTRY, hhead]
  rfl

/-- A list is empty, or it has a first item. -/
theorem IsList.first (hl : IsList h l z) : (listLIST_IS_EMPTY h l = true ∧ z.toList = []) ∨
    ∃ x xs, z.toList = x :: xs ∧ listLIST_IS_EMPTY h l = false ∧
      listGET_OWNER_OF_HEAD_ENTRY h l = .ok x := by
  have hcount := hl.count
  cases hz : z.toList with
  | nil =>
    rw [hz] at hcount
    exact Or.inl ⟨by rw [listLIST_IS_EMPTY, hcount]; rfl, rfl⟩
  | cons x xs =>
    rw [hz] at hcount
    exact Or.inr ⟨x, xs, rfl, by rw [listLIST_IS_EMPTY, hcount]; rfl,
      listGET_OWNER_OF_HEAD_ENTRY_eq hl hz⟩

/-- How far the loop of `vListInsert` has come: the items of `p` have no greater value. -/
def Passed (h : Heap L I) (z : Zipper I) (v : BitVec 32) (p q : List I) : Prop :=
  z.toList = p ++ q ∧ ∀ y ∈ p, h.xItemValue (.item y) ≤ v

/-- **A turn of the loop of `vListInsert`** passes one more item, or has found the place. -/
theorem insertTurn_leads (hl : IsList h l z) {v : BitVec 32} (hv : v ≠ portMAX_DELAY)
    {p q : List I} (hpq : Passed h z v p q) : ∃ t, insertTurn h v (cursor l p) = .ok t ∧
      t.Leads (fun s => ∃ j < q.length, ∃ p q, Passed h z v p q ∧ s = cursor l p ∧
        q.length = j)
        fun s => ∃ p q, Passed h z v p q ∧
          (∀ y ∈ q.head?, ¬ h.xItemValue (.item y) ≤ v) ∧ s = cursor l p := by
  have hnext := hl.next_cursor hpq.1
  cases q with
  | nil =>
    have hmax : ¬ h.xItemValue (.listEnd l) ≤ v := by
      rw [hl.marker, portMAX_DELAY] at *
      bv_omega
    refine ⟨.exit (cursor l p), ?_, p, [], hpq, nofun, rfl⟩
    rw [insertTurn, hnext]
    exact if_neg hmax
  | cons y q =>
    rw [insertTurn, hnext]
    by_cases hy : h.xItemValue (.item y) ≤ v
    · refine ⟨.again (.item y), if_pos hy, q.length, Nat.lt_succ_self _, p ++ [y], q,
        ⟨?_, ?_⟩, ?_, rfl⟩
      · rw [hpq.1, List.append_assoc]
        rfl
      · intro y' hy'
        rcases List.mem_append.1 hy' with hy' | hy'
        · exact hpq.2 y' hy'
        · rw [List.mem_singleton.1 hy']
          exact hy
      · rw [cursor_append_singleton]
    · refine ⟨.exit (cursor l p), if_neg hy, p, y :: q, hpq, ?_, rfl⟩
      rintro _ ⟨⟩
      exact hy

/-- The item goes behind those with no greater value. -/
theorem insertAfter_settles (hl : IsList h l z) (v : BitVec 32) :
    Settles (fun n => insertAfter h n l v) fun s =>
      s = cursor l (z.toList.takeWhile fun y => h.xItemValue (.item y) ≤ v) := by
  have hends : Settles (fun n => insertAfter h n l v) fun s => ∃ p q, Passed h z v p q ∧
      (∀ y ∈ q.head?, ¬ h.xItemValue (.item y) ≤ v) ∧ s = cursor l p := by
    by_cases hmax : v = portMAX_DELAY
    · simp only [insertAfter, if_pos hmax]
      refine Settles.pure ⟨z.toList, [],
        ⟨(List.append_nil _).symm, fun y _ => ?_⟩, nofun, ?_⟩
      · rw [hmax, portMAX_DELAY]
        bv_omega
      · exact hl.linked.prev_end
    · simp only [insertAfter, if_neg hmax]
      refine Settles.loopM (V := fun j s => ∃ p q, Passed h z v p q ∧ s = cursor l p ∧
        q.length = j) ?_ ⟨[], z.toList, ⟨rfl, nofun⟩, rfl, rfl⟩
      rintro j s ⟨p, q, hpq, rfl, rfl⟩
      exact insertTurn_leads hl hmax hpq
  refine hends.mono ?_
  rintro s ⟨p, q, ⟨hpq, hp⟩, hq, rfl⟩
  have hq' : q.takeWhile (fun y => decide (h.xItemValue (.item y) ≤ v)) = [] := by
    cases q with
    | nil => rfl
    | cons y q => exact List.takeWhile_cons_of_neg (by simpa using hq y rfl)
  rw [hpq, List.takeWhile_append_of_pos (by simpa using hp), hq', List.append_nil]

variable [DecidableEq L]

/-- The cursor moves within the list. -/
theorem Represents.move (hr : Represents h zs) (hz : z.toList = (zs l).toList) :
    Represents { h with pxIndex := Function.update h.pxIndex l (cursor l z.before) }
      (Function.update zs l z) := by
  refine ⟨fun k => ?_, fun i k => ?_⟩
  · rcases eq_or_ne k l with rfl | hk
    · rw [Function.update_self]
      exact ⟨by rw [hz]; exact (hr.list k).linked, Function.update_self .., by
        rw [hz]; exact (hr.list k).count, (hr.list k).marker⟩
    · rw [Function.update_of_ne hk]
      exact (hr.list k).congr (fun _ _ => rfl) (fun _ _ => rfl)
        (Function.update_of_ne hk _ _) rfl rfl
  · rcases eq_or_ne k l with rfl | hk
    · rw [Function.update_self, hz]
      exact hr.container i k
    · rw [Function.update_of_ne hk]
      exact hr.container i k

variable [DecidableEq I]

/-- **An item is put in** between `p` and `q`. -/
theorem Represents.insert (hr : Represents h zs) (hx : ∀ k, x ∉ (zs k).toList) {p q : List I}
    (hpq : (zs l).toList = p ++ q) (hz : z.toList = p ++ x :: q)
    (hnext : h'.pxNext = Function.update
      (Function.update h.pxNext (.item x) (h.pxNext (cursor l p))) (cursor l p) (.item x))
    (hprev : h'.pxPrevious = Function.update (Function.update h.pxPrevious (.item x) (cursor l p))
      (h.pxNext (cursor l p)) (.item x))
    (hindex : h'.pxIndex l = cursor l z.before) (hindices : ∀ k ≠ l, h'.pxIndex k = h.pxIndex k)
    (hcontainer : h'.pvContainer = Function.update h.pvContainer x (some l))
    (hcount : h'.uxNumberOfItems = Function.update h.uxNumberOfItems l (h.uxNumberOfItems l + 1))
    (hvalue : h'.xItemValue = h.xItemValue) : Represents h' (Function.update zs l z) := by
  have hlinked := (hr.list l).linked
  have ha := cursor_mem (l := l) hpq
  have hb := hlinked.next_mem ha
  refine ⟨fun k => ?_, fun i k => ?_⟩
  · rcases eq_or_ne k l with rfl | hk
    · rw [Function.update_self]
      refine ⟨?_, hindex, ?_, by rw [hvalue]; exact (hr.list k).marker⟩
      · rw [hpq, List.map_append] at hlinked
        rw [hz, List.map_append, List.map_cons, hnext, hprev]
        refine hlinked.insert ?_ rfl
        rw [← List.map_append, ← hpq]
        exact item_notMem_ring (hx k)
      · rw [hcount, Function.update_self, (hr.list k).count, hpq, hz]
        simp
        omega
    · rw [Function.update_of_ne hk]
      have hne : ∀ y ∈ ring k (zs k), y ≠ .item x ∧ y ≠ cursor l p ∧
          y ≠ h.pxNext (cursor l p) :=
        fun y hy => ⟨fun hyx => item_notMem_ring (hx k) (hyx ▸ hy),
          fun hya => hr.disjoint hk hy (hya ▸ ha), fun hyb => hr.disjoint hk hy (hyb ▸ hb)⟩
      refine (hr.list k).congr (fun y hy => ?_) (fun y hy => ?_) (hindices k hk) ?_ (by rw [hvalue])
      · rw [hnext, Function.update_of_ne (hne y hy).2.1, Function.update_of_ne (hne y hy).1]
      · rw [hprev, Function.update_of_ne (hne y hy).2.2, Function.update_of_ne (hne y hy).1]
      · rw [hcount, Function.update_of_ne hk]
  · rw [hcontainer]
    rcases eq_or_ne i x with rfl | hi
    · rw [Function.update_self]
      rcases eq_or_ne k l with rfl | hk
      · rw [Function.update_self, hz]
        simp
      · rw [Function.update_of_ne hk]
        exact iff_of_false (fun heq => hk (Option.some.inj heq).symm) (hx k)
    · rw [Function.update_of_ne hi, hr.container]
      rcases eq_or_ne k l with rfl | hk
      · rw [Function.update_self, hz, hpq]
        simp [hi]
      · rw [Function.update_of_ne hk]

/-- What `vListRemove` leaves, and where it puts `pxIndex`. -/
theorem cursor_remove (hnodup : z.toList.Nodup) (hx : x ∈ z.toList) :
    ∃ p q, z.toList = p ++ x :: q ∧ (z.remove x).toList = p ++ q ∧
      (if cursor l z.before = .item x then cursor l p else cursor l z.before)
        = cursor l (z.remove x).before := by
  obtain ⟨b, a⟩ := z
  rcases Zipper.remove_cases hnodup hx with ⟨p, q, hb, hz⟩ | ⟨p, q, ha, hxb, hz⟩
  · obtain rfl : b = p ++ x :: q := hb
    refine ⟨p, q ++ a, by simp [Zipper.toList], by simp [hz, Zipper.toList], ?_⟩
    rw [hz]
    -- the item may be the one that the cursor stands on
    rcases List.eq_nil_or_concat' q with rfl | ⟨q, y, rfl⟩
    · rw [cursor_append_singleton, if_pos rfl, List.append_nil]
    · have hlast : cursor l (p ++ x :: (q ++ [y])) = .item y := by
        rw [← List.cons_append, ← List.append_assoc, cursor_append_singleton]
      have hyx : y ≠ x := by
        rintro rfl
        have hmem := (List.nodup_middle.1 (List.nodup_append.1 hnodup).1).notMem
        exact hmem (by simp)
      rw [hlast, if_neg fun heq => hyx (Node.item.inj heq), ← List.append_assoc,
        cursor_append_singleton]
  · obtain rfl : a = p ++ x :: q := ha
    refine ⟨b ++ p, q, by simp [Zipper.toList], by simp [hz, Zipper.toList], ?_⟩
    rw [hz, if_neg]
    intro heq
    obtain ⟨b', hb'⟩ := cursor_eq_item heq
    exact hxb (by rw [show b = b' ++ [x] from hb']; simp)

end Represents
end Rtos
end Especial
