/-
# The tick and the switch

`xPortSysTickHandler` counts a tick and readies the tasks whose time has come;
`xPortPendSVHandler` lets the first task of the highest priority run.  Both have a loop, and
both do what the scheduler's `tick` and `switch` do.

A tick count has the low 32 bits of a time.  When it overflows, the two delay lists are
swapped: nobody waits in the current one then, since all of its times were before the
overflow.
-/

import Especial.Rtos.Refines

namespace Especial
namespace Rtos

open Lib

variable {T : Type} {k k' : Kernel T} {a b : Sched T} {t : T} {n : ℕ}

/-! ### Times and tick counts -/

/-- The tick count overflows later than now. -/
theorem Sched.now_lt_epochEnd (a : Sched T) : a.now < a.epochEnd := by
  rw [Sched.epochEnd]
  omega

/-- Two times of one epoch compare as their tick counts do. -/
theorem ofNat_lt_ofNat {m n : ℕ} (h : m / 2 ^ 32 = n / 2 ^ 32) :
    BitVec.ofNat 32 m < BitVec.ofNat 32 n ↔ m < n := by
  rw [BitVec.lt_def, BitVec.toNat_ofNat, BitVec.toNat_ofNat]
  omega

/-- Two times with no overflow in between. -/
theorem Sched.epoch_eq {w : ℕ} (hge : a.now ≤ w) (hlt : w < a.epochEnd) :
    a.now / 2 ^ 32 = w / 2 ^ 32 := by
  rw [Sched.epochEnd] at hlt
  omega

/-- The agenda is cut in two by the next overflow. -/
theorem Core.delayed_split {zs : ListId → Zipper (Item T)} (hc : Core k a zs) :
    a.delayed = a.delayed.filter (·.2 < a.epochEnd) ++ a.delayed.filter (a.epochEnd ≤ ·.2) :=
  (hc.ordered.filter_lt_append a.epochEnd).symm

/-- A task has one entry. -/
theorem Core.entries_nodup {zs : ListId → Zipper (Item T)} (hc : Core k a zs) :
    (entryItems a.delayed).Nodup := by
  have hd := (hc.heap.list k.pxDelayedTaskList).nodup
  have ho := (hc.heap.list k.pxOverflowDelayedTaskList).nodup
  have hdisj : ∀ i ∈ (zs k.pxDelayedTaskList).toList,
      i ∉ (zs k.pxOverflowDelayedTaskList).toList := fun i hi hi' =>
    hc.delayed_ne_overflow (hc.heap.unique hi hi')
  rw [hc.delayed] at hd hdisj
  rw [hc.overflow] at ho hdisj
  rw [hc.delayed_split, entryItems, List.map_append, List.nodup_append]
  exact ⟨hd, ho, fun i hi j hj hij => hdisj i hi (hij ▸ hj)⟩

/-- The first of the delayed tasks is taken out. -/
theorem Core.tail_eq_filter [DecidableEq T] {zs : ListId → Zipper (Item T)} (hc : Core k a zs)
    {x : T × ℕ} {xs : List (T × ℕ)} (hx : a.delayed = x :: xs) :
    a.delayed.filter (·.1 ≠ x.1) = xs := by
  have hnodup := hc.entries_nodup
  rw [hx, entryItems, List.map_cons, List.nodup_cons] at hnodup
  rw [hx, List.filter_cons_of_neg (by simp), List.filter_eq_self]
  intro y hy
  exact decide_eq_true fun hyx => hnodup.1 (List.mem_map.2 ⟨y, hy, by rw [hyx]⟩)

/-! ### The tick -/

/-- No task waits for a time that is past. -/
def Sched.Punctual (a : Sched T) : Prop := ∀ x ∈ a.delayed, a.now ≤ x.2

/-- The current delayed list is empty, or its first item belongs to the first entry. -/
theorem Core.delayed_cases {zs : ListId → Zipper (Item T)} (hc : Core k a zs) :
    (listLIST_IS_EMPTY k.heap k.pxDelayedTaskList = true ∧ ∀ x ∈ a.delayed,
      a.epochEnd ≤ x.2) ∨ ∃ x xs, a.delayed = x :: xs ∧ x.2 < a.epochEnd ∧
        listLIST_IS_EMPTY k.heap k.pxDelayedTaskList = false ∧
        listGET_OWNER_OF_HEAD_ENTRY k.heap k.pxDelayedTaskList = .ok (.xGenericListItem x.1) := by
  have hl := (hc.heap.list k.pxDelayedTaskList).first
  rw [hc.delayed, Zipper.toList, List.nil_append] at hl
  rcases hl with ⟨hempty, hnil⟩ | ⟨i, is, hcons, hempty, hhead⟩
  · refine Or.inl ⟨hempty, fun x hx => ?_⟩
    have hnot := List.filter_eq_nil_iff.1 (List.map_eq_nil_iff.1 hnil) x hx
    simpa using hnot
  · obtain ⟨x, xs, hxs, rfl, rfl⟩ := List.map_eq_cons_iff.1 hcons
    have hx : x ∈ a.delayed.filter (·.2 < a.epochEnd) := by rw [hxs]; exact List.mem_cons_self
    refine Or.inr ⟨x, xs ++ a.delayed.filter (a.epochEnd ≤ ·.2), ?_,
      of_decide_eq_true (List.mem_filter.1 hx).2, hempty, hhead⟩
    rw [← List.cons_append, ← hxs]
    exact hc.delayed_split

/-- The first of the delayed tasks is the first to wake. -/
theorem Core.first_le {zs : ListId → Zipper (Item T)} (hc : Core k a zs) {x : T × ℕ}
    {xs : List (T × ℕ)} (hx : a.delayed = x :: xs) : ∀ y ∈ a.delayed, x.2 ≤ y.2 := by
  intro y hy
  have hordered := hc.ordered
  rw [hx] at hy hordered
  rcases List.mem_cons.1 hy with rfl | hy
  · exact le_rfl
  · exact (List.pairwise_cons.1 hordered).1 y hy

/-- The value of the first item is a time at which to look at the delayed list again. -/
theorem Core.unblock_first {zs : ListId → Zipper (Item T)} (hc : Core k a zs) (hp : a.Punctual)
    {x : T × ℕ} {xs : List (T × ℕ)} (hx : a.delayed = x :: xs) (hxE : x.2 < a.epochEnd) :
    ∀ y ∈ a.delayed, y.2 < a.epochEnd →
      (k.heap.xItemValue (.item (.xGenericListItem x.1))).toNat ≤ y.2 % 2 ^ 32 := by
  intro y hy hyE
  have hxmem : x ∈ a.delayed := by rw [hx]; exact List.mem_cons_self
  have hle := hc.first_le hx y hy
  have hxepoch := Sched.epoch_eq (hp x hxmem) hxE
  have hyepoch := Sched.epoch_eq (hp y hy) hyE
  rw [hc.value x hxmem, BitVec.toNat_ofNat]
  omega

namespace Sched

variable [DecidableEq T]

/-- With all wake times to come nobody becomes ready. -/
theorem wakeDue_of_lt (h : ∀ x ∈ a.delayed, a.now < x.2) : a.wakeDue = a := by
  have hnone : a.delayed.filter (·.2 ≤ a.now) = [] := by
    rw [List.filter_eq_nil_iff]
    intro x hx
    simpa using h x hx
  rw [wakeDue, due, hnone]
  rfl

/-- The first entry is due. -/
theorem wakeDue_cons {x : T × ℕ} {xs : List (T × ℕ)} (hx : a.delayed = x :: xs)
    (htail : a.delayed.filter (·.1 ≠ x.1) = xs) (hdue : x.2 ≤ a.now) :
    a.wakeDue = (a.wake x.1).wakeDue := by
  have hthis : a.due = x.1 :: (xs.filter (·.2 ≤ a.now)).map Prod.fst := by
    rw [due, hx, List.filter_cons_of_pos (by simpa using hdue), List.map_cons]
  have hthen : (a.wake x.1).due = (xs.filter (·.2 ≤ a.now)).map Prod.fst := by
    rw [← htail]
    rfl
  rw [wakeDue, wakeDue, hthis, hthen, List.foldl_cons]

end Sched

namespace Kernel

/-- The tick count goes on without an overflow. -/
theorem Is.count (hk : k.Is a) (hnext : k.xTickCount + 1 ≠ 0) :
    { k with xTickCount := k.xTickCount + 1 }.Is { a with now := a.now + 1 } := by
  obtain ⟨zs, hc⟩ := hk
  have hsame : (a.now + 1) / 2 ^ 32 = a.now / 2 ^ 32 := by
    rw [hc.tickCount, ne_eq, ← BitVec.toNat_inj] at hnext
    simp at hnext
    omega
  have hE : Sched.epochEnd { a with now := a.now + 1 } = a.epochEnd := by
    rw [Sched.epochEnd, Sched.epochEnd, hsame]
  refine ⟨zs, { hc with
    delayed := by rw [hE]; exact hc.delayed
    overflow := by rw [hE]; exact hc.overflow
    soon := fun x hx => (hc.soon x hx).trans (by show _ < a.now + 1 + _; omega)
    unblock := by rw [hE]; exact hc.unblock
    tickCount := ?_
    overflows := by rw [hsame]; exact hc.overflows }⟩
  show k.xTickCount + 1 = _
  rw [hc.tickCount]
  exact (BitVec.ofNat_add ..).symm

/-- The tick count overflows: all that wait do so for the epoch that begins. -/
theorem Is.swap (hk : k.Is a) (hnext : k.xTickCount + 1 = 0) (ht : a.Timely) :
    { k with
      xTickCount := k.xTickCount + 1
      pxDelayedTaskList := k.pxOverflowDelayedTaskList
      pxOverflowDelayedTaskList := k.pxDelayedTaskList
      xNumOfOverflows := k.xNumOfOverflows + 1
      xNextTaskUnblockTime := 0 }.Is { a with now := a.now + 1 } := by
  obtain ⟨zs, hc⟩ := hk
  have hsucc : (a.now + 1) % 2 ^ 32 = 0 := by
    rw [hc.tickCount, ← BitVec.toNat_inj] at hnext
    simpa using hnext
  have hE : a.epochEnd = a.now + 1 := by
    rw [Sched.epochEnd]
    omega
  have hE' : Sched.epochEnd { a with now := a.now + 1 } = a.now + 1 + 2 ^ 32 := by
    rw [Sched.epochEnd]
    show ((a.now + 1) / 2 ^ 32 + 1) * 2 ^ 32 = _
    omega
  -- the current list is empty, and the other one has all entries
  have hnone : a.delayed.filter (·.2 < a.epochEnd) = [] := by
    rw [List.filter_eq_nil_iff]
    intro x hx
    have hlt := ht x hx
    simp only [decide_eq_true_eq]
    omega
  have hall : a.delayed.filter (a.epochEnd ≤ ·.2) = a.delayed := by
    rw [List.filter_eq_self]
    intro x hx
    have hlt := ht x hx
    simp only [decide_eq_true_eq]
    omega
  refine ⟨zs, { hc with
    delayed := ?_
    overflow := ?_
    lists := ?_
    soon := fun x hx => (hc.soon x hx).trans (by show _ < a.now + 1 + _; omega)
    unblock := fun x _ _ => Nat.zero_le _
    tickCount := ?_
    overflows := ?_ }⟩
  · rw [hE', hc.overflow, hall, List.filter_eq_self.2]
    intro x hx
    have hlt := hc.soon x hx
    simp only [decide_eq_true_eq]
    omega
  · rw [hE', hc.delayed, hnone, List.filter_eq_nil_iff.2]
    intro x hx
    have hlt := hc.soon x hx
    simp only [decide_eq_true_eq]
    omega
  · rcases hc.lists with ⟨hd, ho⟩ | ⟨hd, ho⟩
    · exact Or.inr ⟨ho, hd⟩
    · exact Or.inl ⟨ho, hd⟩
  · show k.xTickCount + 1 = _
    rw [hc.tickCount]
    exact (BitVec.ofNat_add ..).symm
  · show k.xNumOfOverflows + 1 = BitVec.ofNat 32 ((a.now + 1) / 2 ^ 32)
    have hdiv : (a.now + 1) / 2 ^ 32 = a.now / 2 ^ 32 + 1 := by omega
    rw [hc.overflows, hdiv]
    exact (BitVec.ofNat_add ..).symm

/-- **The lists are swapped when the tick count overflows**: nobody waits in the first one
then. -/
theorem swapDelayedLists_returns (hk : k.Is a) (hnext : k.xTickCount + 1 = 0) (ht : a.Timely) :
    Returns { k with xTickCount := k.xTickCount + 1 }.swapDelayedLists
      (Is · { a with now := a.now + 1 }) := by
  have hswap := hk.swap hnext ht
  obtain ⟨zs, hc⟩ := id hswap
  have hp : ∀ x ∈ a.delayed, a.now + 1 ≤ x.2 := ht
  rw [swapDelayedLists]
  rcases hc.delayed_cases with ⟨hempty, hlate⟩ | ⟨x, xs, hx, hxE, hempty, hhead⟩
  · rw [if_pos hempty]
    refine .pure ?_
    exact hswap.setUnblock fun x hx hxE => absurd hxE (Nat.not_lt.2 (hlate x hx))
  · rw [if_neg (by rw [hempty]; exact nofun)]
    refine Returns.bind ⟨_, hhead, rfl⟩ ?_
    rintro _ rfl
    exact .pure (hswap.setUnblock (hc.unblock_first hp hx hxE))

variable [DecidableEq T]

/-- A turn of the loop over the delayed list: the loop is done, or the first task wakes up. -/
theorem checkDelayedTurn_leads (hk : k.Is a) (hp : a.Punctual) :
    Returns k.checkDelayedTurn (Turn.Leads
      (fun k' => ∃ x xs, a.delayed = x :: xs ∧ (a.wake x.1).delayed = xs ∧
        k'.Is (a.wake x.1) ∧ a.wakeDue = (a.wake x.1).wakeDue) fun k' => k'.Is a ∧
        a.wakeDue = a) := by
  obtain ⟨zs, hc⟩ := id hk
  rw [checkDelayedTurn]
  rcases hc.delayed_cases with ⟨hempty, hlate⟩ | ⟨x, xs, hx, hxE, hempty, hhead⟩
  · rw [if_pos hempty]
    refine .pure ⟨?_, ?_⟩
    · exact hk.setUnblock fun x hx hxE => absurd hxE (Nat.not_lt.2 (hlate x hx))
    · exact Sched.wakeDue_of_lt fun x hx => a.now_lt_epochEnd.trans_le (hlate x hx)
  · rw [if_neg (by rw [hempty]; exact nofun), hhead]
    have hxmem : x ∈ a.delayed := by rw [hx]; exact List.mem_cons_self
    have hepoch := Sched.epoch_eq (hp x hxmem) hxE
    have hlt : k.xTickCount < k.heap.xItemValue (.item (.xGenericListItem x.1)) ↔
        a.now < x.2 := by
      rw [hc.tickCount, hc.value x hxmem, ofNat_lt_ofNat hepoch]
    show Returns (if k.xTickCount < k.heap.xItemValue (.item (.xGenericListItem x.1)) then _
        else _) _
    by_cases hwait : a.now < x.2
    · rw [if_pos (hlt.2 hwait)]
      refine .pure ⟨?_, ?_⟩
      · exact hk.setUnblock (hc.unblock_first hp hx hxE)
      · exact Sched.wakeDue_of_lt fun y hy => hwait.trans_le (hc.first_le hx y hy)
    · rw [if_neg (mt hlt.1 hwait)]
      have htail := hc.tail_eq_filter hx
      refine (hk.listRemove ⟨.delayed, x.2, hxmem⟩).bind fun k hk => (hk.listRemoveEvent _).bind
        fun k hk => .pure ⟨x, xs, hx, htail, hk.wake, ?_⟩
      exact Sched.wakeDue_cons hx htail (Nat.not_lt.1 hwait)

/-- **`prvCheckDelayedTasks`** wakes the tasks whose time has come. -/
theorem prvCheckDelayedTasks_settles (hk : k.Is a) (hp : a.Punctual) :
    Settles (fun n => k.prvCheckDelayedTasks n) (Is · a.wakeDue) := by
  obtain ⟨zs, hc⟩ := id hk
  simp only [prvCheckDelayedTasks]
  by_cases hlook : k.xTickCount ≥ k.xNextTaskUnblockTime
  · simp only [if_pos hlook]
    refine Settles.loopM (V := fun j k => ∃ b : Sched T, k.Is b ∧ b.Punctual ∧
      b.wakeDue = a.wakeDue ∧ b.delayed.length = j) ?_ ⟨a, hk, hp, rfl, rfl⟩
    rintro j k ⟨b, hk, hp, hsame, rfl⟩
    refine (checkDelayedTurn_leads hk hp).mono fun r hr => ?_
    cases r with
    | again k' =>
      obtain ⟨x, xs, hx, htail, hk', hwake⟩ := hr
      refine ⟨xs.length, by rw [hx]; exact Nat.lt_succ_self _, b.wake x.1, hk', ?_,
        hwake.symm.trans hsame, by rw [htail]⟩
      intro y hy
      rw [htail] at hy
      exact hp y (by rw [hx]; exact List.mem_cons_of_mem _ hy)
    | exit k' =>
      show k'.Is a.wakeDue
      rw [← hsame, hr.2]
      exact hr.1
  · simp only [if_neg hlook]
    refine Settles.pure ?_
    rw [Sched.wakeDue_of_lt]
    · exact hk
    · intro x hx
      by_cases hxE : x.2 < a.epochEnd
      · have hunblock := hc.unblock x hx hxE
        have hepoch := Sched.epoch_eq (hp x hx) hxE
        rw [ge_iff_le, BitVec.le_def, hc.tickCount, BitVec.toNat_ofNat] at hlook
        omega
      · exact a.now_lt_epochEnd.trans_le (Nat.not_lt.1 hxE)

/-- **`vTaskIncrementTick`** is a tick of the scheduler, if there is room to count one that is
missed. -/
theorem vTaskIncrementTick_settles (hk : k.Is a) (ht : a.Timely)
    (hroom : a.locks ≠ 0 → a.missedTicks + 1 < 2 ^ 32) :
    Settles (fun n => k.vTaskIncrementTick n) (Is · a.tick) := by
  obtain ⟨zs, hc⟩ := id hk
  have hp : Sched.Punctual { a with now := a.now + 1 } := fun x hx => ht x hx
  simp only [vTaskIncrementTick]
  by_cases hlocks : k.uxSchedulerSuspended = 0
  · simp only [if_pos hlocks, Sched.tick, if_pos (hc.locks.eq_zero_iff.1 hlocks)]
    by_cases hnext : k.xTickCount + 1 = 0
    · simp only [if_pos hnext]
      exact (Settles.lift (swapDelayedLists_returns hk hnext ht)).bind fun k hk =>
        prvCheckDelayedTasks_settles hk hp
    · simp only [if_neg hnext]
      exact (Settles.pure (P := (Is · { a with now := a.now + 1 })) (hk.count hnext)).bind
        fun k hk => prvCheckDelayedTasks_settles hk hp
  · have hlocked : a.locks ≠ 0 := mt hc.locks.eq_zero_iff.2 hlocks
    simp only [if_neg hlocks, Sched.tick, if_neg hlocked]
    exact Settles.pure ⟨zs, { hc with missedTicks := hc.missedTicks.succ (hroom hlocked) }⟩

end Kernel

/-! ### The switch -/

/-- The highest priority of a ready task. -/
theorem Sched.highest_eq {p : Priority} (hp : a.ready p ≠ [])
    (hmax : ∀ q, a.ready q ≠ [] → q ≤ p) : a.highest = some p := by
  have hfind : ∀ xs : List Priority, xs.Pairwise (· > ·) → p ∈ xs →
      xs.find? (fun q => decide (a.ready q ≠ [])) = some p := by
    intro xs hxs hmem
    induction hxs with
    | nil => cases hmem
    | @cons q xs hq _ ih =>
      by_cases hqr : a.ready q ≠ []
      · rcases List.mem_cons.1 hmem with rfl | hmem
        · exact List.find?_cons_of_pos (decide_eq_true hqr)
        · exact absurd (hq p hmem) (not_lt.2 (hmax q hqr))
      · rw [List.find?_cons_of_neg (by simpa using hqr)]
        refine ih ((List.mem_cons.1 hmem).resolve_left ?_)
        rintro rfl
        exact hqr hp
  exact hfind [4, 3, 2, 1, 0] (by decide) ((by decide : ∀ p : Priority, p ∈ [4, 3, 2, 1, 0]) p)

namespace Kernel

/-- A ready list is empty when the queue is. -/
theorem Is.ready_isEmpty (hk : k.Is a) (p : Priority) :
    listLIST_IS_EMPTY k.heap (.pxReadyTasksLists p) = true ↔ a.ready p = [] := by
  obtain ⟨zs, hc⟩ := hk
  have hlength := congrArg List.length (hc.ready p)
  rw [(Zipper.queue_perm _).length_eq, List.length_map] at hlength
  rw [listLIST_IS_EMPTY, (hc.heap.list _).count, hlength]
  simp

/-- The loop of `vTaskSwitchContext` comes to the highest priority with a task that is ready. -/
theorem switchLoop_settles (hk : k.Is a) {p : Priority} (hp : a.ready p ≠ []) :
    Settles (fun n => loopM switchTurn n k) fun k' => k'.Is a ∧
    a.ready k'.uxTopReadyPriority ≠ [] := by
  refine Settles.loopM (V := fun j k => k.Is a ∧ k.uxTopReadyPriority.val = j) ?_ ⟨hk, rfl⟩
  rintro j k ⟨hk, rfl⟩
  rw [switchTurn]
  obtain ⟨zs, hc⟩ := id hk
  by_cases hempty : a.ready k.uxTopReadyPriority = []
  · have hlt : ∀ q, a.ready q ≠ [] → q < k.uxTopReadyPriority := fun q hq =>
      lt_of_le_of_ne (hc.top q hq) fun heq => hq (heq ▸ hempty)
    have hpos : k.uxTopReadyPriority ≠ 0 := fun hzero => by
      have hlt' := hlt p hp
      rw [hzero] at hlt'
      exact absurd hlt' (Fin.not_lt_zero p)
    have hval : (k.uxTopReadyPriority - 1).val = k.uxTopReadyPriority.val - 1 :=
      Fin.val_sub_one_of_ne_zero hpos
    have hpos' : k.uxTopReadyPriority.val ≠ 0 := fun hzero => hpos (Fin.ext hzero)
    rw [if_pos ((hk.ready_isEmpty _).2 hempty), if_neg hpos]
    refine .pure ⟨(k.uxTopReadyPriority - 1).val, ?_,
      ⟨zs, { hc with top := fun q hq => ?_ }⟩, rfl⟩
    · rw [hval]
      omega
    · have hq' := hlt q hq
      rw [Fin.lt_def] at hq'
      rw [Fin.le_def, hval]
      omega
  · rw [if_neg (mt (hk.ready_isEmpty _).1 hempty)]
    exact .pure ⟨hk, hempty⟩

/-- The next task of a ready list runs. -/
theorem Is.next [DecidableEq T] (hk : k.Is a) {p : Priority} {ts : List T}
    (hp : a.ready p = t :: ts) :
    Returns (listGET_OWNER_OF_NEXT_ENTRY k.heap (.pxReadyTasksLists p)) fun r =>
      { k with heap := r.2, pxCurrentTCB := some r.1.owner }.Is
        { a with current := t, ready := Function.update a.ready p (ts ++ [t]) } := by
  obtain ⟨zs, hc⟩ := hk
  have hqueue := hc.ready p
  rw [hp, List.map_cons] at hqueue
  have hne : (zs (.pxReadyTasksLists p)).toList ≠ [] := fun hnil => by
    have hperm := (zs (.pxReadyTasksLists p)).queue_perm
    rw [hnil, hqueue] at hperm
    exact absurd hperm.length_eq (by simp)
  obtain ⟨i, z, hz⟩ := Zipper.exists_next hne
  obtain ⟨ys, hys, hthen⟩ := Zipper.queue_next hz
  rw [hqueue] at hys
  obtain ⟨rfl, rfl⟩ := List.cons.inj hys
  refine (listGET_OWNER_OF_NEXT_ENTRY_returns hc.heap hz).mono ?_
  rintro ⟨_, h'⟩ ⟨rfl, hr, hv⟩
  have hother :
      ∀ l ≠ .pxReadyTasksLists p, Function.update zs (.pxReadyTasksLists p) z l = zs l :=
    fun l hl => Function.update_of_ne hl z zs
  refine ⟨_, { hc with
    heap := hr
    ready := fun q => ?_
    delayed := (hother _ (hc.delayed_ne (by simp) (by simp)).1).trans hc.delayed
    overflow := (hother _ (hc.delayed_ne (by simp) (by simp)).2).trans hc.overflow
    suspended := (hother _ (by simp)).trans hc.suspended
    deleted := (hother _ (by simp)).trans hc.deleted
    pending := (hother _ (by simp)).trans hc.pending
    value := fun x hx => (congrFun hv _).trans (hc.value x hx)
    top := fun q hq => hc.top q ?_
    current := rfl }⟩
  · show _ = (Function.update a.ready p (ts ++ [t]) q).map _
    rcases eq_or_ne q p with rfl | hq
    · rw [Function.update_self, Function.update_self, hthen, List.map_append]
      rfl
    · rw [hother _ (by simpa using hq), Function.update_of_ne hq, hc.ready]
  · rcases eq_or_ne q p with rfl | hne'
    · rw [hp]
      exact List.cons_ne_nil _ _
    · have hq' : Function.update a.ready p (ts ++ [t]) q ≠ [] := hq
      rwa [Function.update_of_ne hne'] at hq'

/-- **`vTaskSwitchContext`** runs the first task of the highest priority. -/
theorem vTaskSwitchContext_settles [DecidableEq T] (hk : k.Is a) {p : Priority}
    (hp : a.ready p ≠ []) : Settles (fun n => k.vTaskSwitchContext n) (Is · a.switch) := by
  obtain ⟨zs, hc⟩ := id hk
  simp only [vTaskSwitchContext]
  by_cases hlocks : k.uxSchedulerSuspended ≠ 0
  · simp only [if_pos hlocks, Sched.switch, if_pos (mt hc.locks.eq_zero_iff.2 hlocks)]
    exact Settles.pure ⟨zs, { hc with missedYield := rfl }⟩
  · simp only [if_neg hlocks, Sched.switch, if_neg (mt (mt hc.locks.eq_zero_iff.1) hlocks)]
    refine (switchLoop_settles hk hp).bind ?_
    rintro k ⟨hk, htop⟩
    obtain ⟨zs, hc⟩ := id hk
    obtain ⟨t, ts, hready⟩ := List.exists_cons_of_ne_nil htop
    simp only [Sched.highest_eq htop hc.top, hready]
    exact (Settles.lift (hk.next hready)).bind fun r hr => Settles.pure hr

end Kernel

end Rtos
end Especial
