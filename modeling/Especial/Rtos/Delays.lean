/-
# Suspending the scheduler, and delays

`xTaskResumeAll` makes up for what was missed while the scheduler was suspended: tasks that
were readied meanwhile join their queues, and the ticks that came are counted.  Between
`vTaskSuspendAll` and `xTaskResumeAll`, `vTaskDelay` and `vTaskDelayUntil` put the running task
into one of the two delay lists, by the time at which it is to wake.
-/

import Especial.Rtos.Interrupts

namespace Especial
namespace Rtos

open Lib

variable {T : Type} {k k' : Kernel T} {a b : Sched T} {t : T}

namespace Kernel

/-- The running task is that of the scheduler. -/
theorem Is.currentTCB (hk : k.Is a) : k.currentTCB = .ok a.current := by
  obtain ⟨zs, hc⟩ := hk
  rw [Kernel.currentTCB, hc.current]
  rfl

/-- `portYIELD` asks for a switch. -/
theorem Is.yield (hk : k.Is a) : k.portYIELD.Is a.yield := by
  obtain ⟨zs, hc⟩ := hk
  exact ⟨zs, { hc with switchPending := rfl }⟩

end Kernel

variable [DecidableEq T]

/-! ### The scheduler is resumed -/

namespace Kernel

/-- The list of the tasks that were readied meanwhile is empty, or its first item belongs to the
first of them. -/
theorem Is.pending_cases (hk : k.Is a) :
    (listLIST_IS_EMPTY k.heap .xPendingReadyList = true ∧ a.pending = []) ∨
      ∃ t ts, a.pending = t :: ts ∧ (a.wake t).pending = ts ∧
        listLIST_IS_EMPTY k.heap .xPendingReadyList = false ∧
        listGET_OWNER_OF_HEAD_ENTRY k.heap .xPendingReadyList = .ok (.xEventListItem t) := by
  obtain ⟨zs, hc⟩ := hk
  have hl := hc.heap.list .xPendingReadyList
  have hnodup := hl.nodup
  have hfirst := hl.first
  rw [hc.pending, Zipper.toList, List.append_nil] at hfirst hnodup
  rcases hfirst with ⟨hempty, hnil⟩ | ⟨i, is, hcons, hempty, hhead⟩
  · exact Or.inl ⟨hempty, List.map_eq_nil_iff.1 hnil⟩
  · obtain ⟨t, ts, hts, rfl, rfl⟩ := List.map_eq_cons_iff.1 hcons
    refine Or.inr ⟨t, ts, hts, ?_, hempty, hhead⟩
    show a.pending.filter (· ≠ t) = ts
    rw [hts] at hnodup ⊢
    exact Zipper.filter_ne_of_nodup (p := []) (hnodup.of_map _)

end Kernel

namespace Sched

/-- The tasks that were readied meanwhile wait somewhere. -/
def PendingHeld (a : Sched T) : Prop := ∀ t ∈ a.pending, a.Holds t

/-- The first of the pending tasks becomes ready, and then the others. -/
theorem wakePending_cons {ts : List T} (ht : a.pending = t :: ts) (hts : (a.wake t).pending = ts) :
    a.wakePending = (a.wake t).wakePending := by
  rw [wakePending, wakePending, ht, hts, List.foldl_cons]

/-- The others still wait somewhere. -/
theorem PendingHeld.wake {ts : List T} (h : a.PendingHeld) (ht : a.pending = t :: ts)
    (hts : (a.wake t).pending = ts) : (a.wake t).PendingHeld := by
  intro u hu
  rw [hts] at hu
  obtain ⟨l, hl⟩ := h u (by rw [ht]; exact List.mem_cons_of_mem _ hu)
  by_cases hut : u = t
  · exact ⟨_, at_wake.2 (Or.inr ⟨hut, rfl⟩)⟩
  · exact ⟨l, at_wake.2 (Or.inl ⟨hut, hl⟩)⟩

end Sched

namespace Kernel

/-- The loop of `xTaskResumeAll` over the tasks that were readied meanwhile. -/
theorem pendingLoop_settles (hk : k.Is a) (hheld : a.PendingHeld) :
    Settles (fun n => loopM pendingReadyTurn n (k, false)) fun r =>
      r.1.Is a.wakePending ∧ r.2 = a.urgent := by
  refine Settles.loopM (V := fun j s => ∃ b : Sched T, s.1.Is b ∧ b.PendingHeld ∧
    b.wakePending = a.wakePending ∧ (s.2 || b.urgent) = a.urgent ∧ b.pending.length = j) ?_
    ⟨a, hk, hheld, rfl, by rw [Bool.false_or], rfl⟩
  rintro j ⟨k, y⟩ ⟨b, hk, hheld, hsame, hurgent, rfl⟩
  rw [pendingReadyTurn]
  rcases hk.pending_cases with ⟨hempty, hnil⟩ | ⟨t, ts, ht, hts, hempty, hhead⟩
  · simp only [if_pos hempty]
    refine .pure ⟨?_, ?_⟩
    · rw [← hsame, Sched.wakePending, hnil]
      exact hk
    · rw [← hurgent, Sched.urgent, hnil]
      exact (Bool.or_false y).symm
  · simp only [hempty, hhead]
    have hmem : t ∈ b.pending := by rw [ht]; exact List.mem_cons_self
    refine (hk.listRemove_event hmem).bind fun k hk => ?_
    obtain ⟨l, hl⟩ := hheld t hmem
    refine (hk.listRemove ⟨l, Sched.at_unpend.2 hl⟩).bind fun k hk => ?_
    have hwake : (k.prvAddTaskToReadyQueue t).Is (b.wake t) := hk.wake
    refine Returns.bind ⟨_, hwake.currentTCB, rfl⟩ ?_
    rintro _ rfl
    refine .pure ⟨ts.length, by rw [ht]; exact Nat.lt_succ_self _, b.wake t, hwake,
      hheld.wake ht hts, (Sched.wakePending_cons ht hts).symm.trans hsame, ?_, by rw [hts]⟩
    obtain ⟨zs, hc⟩ := id hwake
    rw [← hurgent, Sched.urgent, Sched.urgent, hts, ht, List.any_cons, Bool.or_assoc, Item.owner,
      hc.priority]
    rfl

/-- The loop of `xTaskResumeAll` over the ticks that were missed. -/
theorem missedTicks_settles (hk : k.Is a) (ht : a.Timely) (hlocks : a.locks = 0) :
    Settles (fun n => whileM (missedTickTurn n) n k) (Is · a.catchUp) := by
  refine Settles.whileM (V := fun j k => ∃ b : Sched T, k.Is b ∧ b.Timely ∧ b.locks = 0 ∧
    b.missedTicks = j ∧ Nat.iterate Sched.countMissed j b = a.catchUp) ?_
    ⟨a, hk, ht, hlocks, rfl, rfl⟩
  rintro j k ⟨b, hk, ht, hlocks, rfl, hsame⟩
  obtain ⟨zs, hc⟩ := id hk
  simp only [missedTickTurn]
  by_cases hmissed : k.uxMissedTicks > 0
  · simp only [if_pos hmissed]
    refine (vTaskIncrementTick_settles hk ht (absurd hlocks)).bind fun k hk => Settles.pure ?_
    rw [Sched.tick, if_pos hlocks] at hk
    have hcount : b.advance.missedTicks = b.missedTicks :=
      Sched.advance_frame (·.missedTicks) (fun _ _ => rfl) (fun _ _ => rfl) b
    have hpos : 0 < b.missedTicks := hc.missedTicks.pos_iff.1 hmissed
    have hmissed' : b.missedTicks = b.missedTicks - 1 + 1 := by omega
    obtain ⟨zs, hc⟩ := hk
    refine ⟨b.missedTicks - 1, by omega, b.countMissed,
      ⟨zs, { hc with missedTicks := hc.missedTicks.pred (hcount ▸ hpos) }⟩,
      b.timely_advance, ?_, ?_, ?_⟩
    · exact (Sched.advance_frame (·.locks) (fun _ _ => rfl) (fun _ _ => rfl) b).trans hlocks
    · exact congrArg (· - 1) hcount
    · rw [← hsame]
      conv_rhs => rw [hmissed']
      rfl
  · simp only [if_neg hmissed]
    refine Settles.pure ?_
    have hzero : b.missedTicks = 0 := Nat.eq_zero_of_not_pos (mt hc.missedTicks.pos_iff.2 hmissed)
    rw [hzero] at hsame
    show k.Is a.catchUp
    rw [← hsame]
    exact hk

/-- What `xTaskResumeAll` does when the scheduler is no longer suspended. -/
theorem makeUp_settles (hk : k.Is a) (ht : a.Timely) (hheld : a.PendingHeld)
    (hlocks : a.locks = 0) :
    Settles (fun n => k.makeUp n) fun r => r.1.Is a.makeUp.1 ∧ r.2 = a.makeUp.2 := by
  have hsame {β : Type} (f : Sched T → β) (hf : ∀ a t, f (Sched.wake a t) = f a) :
      f a.wakePending = f a := Sched.foldl_wake_frame f hf a.pending a
  have hmissed := hsame (·.missedTicks) fun _ _ => rfl
  have hyield := hsame (·.missedYield) fun _ _ => rfl
  refine (pendingLoop_settles hk hheld).bind ?_
  rintro ⟨k, y⟩ ⟨(hk : k.Is a.wakePending), rfl⟩
  obtain ⟨zs, hc⟩ := id hk
  have hmissed' : Counts k.uxMissedTicks a.missedTicks := hmissed ▸ hc.missedTicks
  by_cases hpos : k.uxMissedTicks > 0
  · have hthen : a.makeUp = ({ a.wakePending.catchUp with missedYield := false }.yield, true) := by
      have hne : a.missedTicks ≠ 0 := (hmissed'.pos_iff.1 hpos).ne'
      rw [Sched.makeUp, if_pos (by simp [hne])]
    rw [hthen]
    simp only [if_pos hpos]
    refine (missedTicks_settles hk (ht.foldl_wake _) ?_).bind fun k hk => ?_
    · exact (hsame (·.locks) fun _ _ => rfl).trans hlocks
    · obtain ⟨zs, hc⟩ := hk
      exact Settles.pure ⟨Is.yield ⟨zs, { hc with missedYield := rfl }⟩, rfl⟩
  · have hzero : a.missedTicks = 0 := Nat.eq_zero_of_not_pos (mt hmissed'.pos_iff.2 hpos)
    have hcatchUp : a.wakePending.catchUp = a.wakePending := by
      rw [Sched.catchUp, hmissed, hzero]
      rfl
    have hcond : (a.urgent || decide (a.missedTicks ≠ 0) || a.missedYield)
        = (a.urgent || k.xMissedYield) := by
      rw [hc.missedYield, hyield, hzero]
      simp
    simp only [if_neg hpos]
    rw [Sched.makeUp, hcond, hcatchUp]
    by_cases htrue : (a.urgent || k.xMissedYield) = true
    · simp only [pure_bind, if_pos htrue]
      exact Settles.pure ⟨Is.yield (a := { a.wakePending with missedYield := false })
        ⟨zs, { hc with missedYield := rfl }⟩, rfl⟩
    · simp only [pure_bind, if_neg htrue]
      exact Settles.pure ⟨hk, rfl⟩

/-- **`xTaskResumeAll`** makes up for what was missed while the scheduler was suspended. -/
theorem xTaskResumeAll_settles (hk : k.Is a) (ht : a.Timely) (hheld : a.PendingHeld)
    (htasks : a.tasks ≠ []) (hlocked : 0 < a.locks) :
    Settles (fun n => k.xTaskResumeAll n) fun r => r.1.Is a.unlock.1 ∧ r.2 = a.unlock.2 := by
  obtain ⟨zs, hc⟩ := hk
  have hsuspended : ¬ k.uxSchedulerSuspended = 0 := mt hc.locks.eq_zero_iff.1 hlocked.ne'
  have hcount : k.uxCurrentNumberOfTasks > 0 := hc.tasks.pos_iff.2 (List.length_pos_iff.2 htasks)
  have hlocks : Counts (k.uxSchedulerSuspended - 1) (a.locks - 1) := hc.locks.pred hlocked
  simp only [xTaskResumeAll, if_neg hsuspended, Sched.unlock]
  by_cases hzero : k.uxSchedulerSuspended - 1 = 0
  · have hunlocked : a.locks - 1 = 0 := hlocks.eq_zero_iff.1 hzero
    simp only [if_pos hzero, if_pos hcount, if_pos hunlocked]
    exact makeUp_settles ⟨zs, { hc with locks := hunlocked ▸ hlocks }⟩ ht hheld rfl
  · simp only [if_neg hzero, if_neg (mt hlocks.eq_zero_iff.2 hzero)]
    exact Settles.pure ⟨⟨zs, { hc with locks := hlocks }⟩, rfl⟩

end Kernel

/-! ### Delays -/

/-- `vListInsert` puts the item of a task where its entry belongs, among times of one epoch. -/
theorem vListInsert_entries {h : Heap ListId (Item T)} {zs : ListId → Zipper (Item T)}
    {l : ListId}
    {xs : List (T × ℕ)} {w : ℕ} (hr : Represents h zs) (hl : zs l = ⟨[], entryItems xs⟩)
    (hfree : ∀ i, .xGenericListItem t ∉ (zs i).toList) (hordered : Agenda.Ordered xs)
    (hvalue : h.xItemValue (.item (.xGenericListItem t)) = BitVec.ofNat 32 w)
    (hvalues : ∀ x ∈ xs, h.xItemValue (.item (.xGenericListItem x.1)) = BitVec.ofNat 32 x.2)
    (hepoch : ∀ x ∈ xs, x.2 / 2 ^ 32 = w / 2 ^ 32) :
    Settles (fun n => vListInsert h n l (.xGenericListItem t)) fun h' =>
      Represents h' (Function.update zs l ⟨[], entryItems (Agenda.insert xs (t, w))⟩) ∧
        h'.xItemValue = h.xItemValue := by
  have hle : ∀ x ∈ xs, h.xItemValue (.item (.xGenericListItem x.1)) ≤
      h.xItemValue (.item (.xGenericListItem t)) ↔ x.2 ≤ w := by
    intro x hx
    rw [hvalue, hvalues x hx, ← BitVec.not_lt, ofNat_lt_ofNat (hepoch x hx).symm, Nat.not_lt]
  set p : T × ℕ → Bool := fun x => decide (h.xItemValue (.item (.xGenericListItem x.1)) ≤
    h.xItemValue (.item (.xGenericListItem t)))
  have hdown : xs.Pairwise fun x y => p y → p x := by
    refine List.Pairwise.imp_of_mem (fun {x y} hx hy hxy hpy => ?_) hordered
    exact decide_eq_true ((hle x hx).2 (hxy.trans ((hle y hy).1 (of_decide_eq_true hpy))))
  have htake : xs.takeWhile p = xs.filter (·.2 ≤ w) := by
    rw [takeWhile_eq_filter hdown]
    exact List.filter_congr fun x hx => decide_eq_decide.2 (hle x hx)
  have hdrop : xs.dropWhile p = xs.filter (w < ·.2) := by
    rw [dropWhile_eq_filter hdown]
    refine List.filter_congr fun x hx => ?_
    rw [← decide_not, decide_eq_decide, hle x hx, Nat.not_le]
  refine (vListInsert_settles hr hfree (l := l) (by rw [hl])).mono fun h' hh' => ?_
  rw [hl] at hh'
  have hnew : entryItems (Agenda.insert xs (t, w))
      = entryItems (xs.takeWhile p) ++ .xGenericListItem t :: entryItems (xs.dropWhile p) := by
    rw [htake, hdrop, Agenda.insert, entryItems, List.map_append]
    rfl
  rw [hnew]
  simp only [entryItems, List.takeWhile_map, List.dropWhile_map] at hh' ⊢
  exact hh'

namespace Core

variable {zs : ListId → Zipper (Item T)} {w : ℕ}

omit [DecidableEq T] in
/-- The entry of a task is put into the list of its epoch. -/
theorem insertDelayed (hc : Core k a zs) (hw : w < a.now + 2 ^ 32)
    {h' : Heap ListId (Item T)} {l : ListId} {zs' : ListId → Zipper (Item T)} {v : BitVec 32}
    (hr : Represents h' zs')
    (hvalue : h'.xItemValue (.item (.xGenericListItem t)) = BitVec.ofNat 32 w)
    (hvalues : ∀ x ∈ a.delayed,
      h'.xItemValue (.item (.xGenericListItem x.1)) = BitVec.ofNat 32 x.2)
    (hl : l = k.pxDelayedTaskList ∨ l = k.pxOverflowDelayedTaskList)
      (hother : ∀ i ≠ l, zs' i = zs i)
    (hd : zs' k.pxDelayedTaskList =
      ⟨[], entryItems ((Agenda.insert a.delayed (t, w)).filter (·.2 < a.epochEnd))⟩)
    (ho : zs' k.pxOverflowDelayedTaskList =
      ⟨[], entryItems ((Agenda.insert a.delayed (t, w)).filter (a.epochEnd ≤ ·.2))⟩)
    (hv : ∀ x ∈ Agenda.insert a.delayed (t, w), x.2 < a.epochEnd → v.toNat ≤ x.2 % 2 ^ 32) :
    Core { k with heap := h', xNextTaskUnblockTime := v }
      { a with delayed := Agenda.insert a.delayed (t, w) } zs' := by
  have hne : ∀ i, i ≠ .xDelayedTaskList1 → i ≠ .xDelayedTaskList2 → zs' i = zs i := by
    intro i h₁ h₂
    refine hother i ?_
    rcases hl with rfl | rfl
    · exact (hc.delayed_ne h₁ h₂).1.symm
    · exact (hc.delayed_ne h₁ h₂).2.symm
  refine { hc with
    heap := hr
    ready := fun p => by rw [hne _ (by simp) (by simp), hc.ready]
    delayed := hd
    overflow := ho
    suspended := by rw [hne _ (by simp) (by simp), hc.suspended]
    deleted := by rw [hne _ (by simp) (by simp), hc.deleted]
    pending := by rw [hne _ (by simp) (by simp), hc.pending]
    ordered := Agenda.Ordered.insert hc.ordered (t, w)
    value := fun x hx => ?_
    soon := fun x hx => ?_
    unblock := hv }
  · rcases Agenda.mem_insert.1 hx with rfl | hx
    · exact hvalue
    · exact hvalues x hx
  · rcases Agenda.mem_insert.1 hx with rfl | hx
    · exact hw
    · exact hc.soon x hx

end Core

namespace Kernel

/-- **`prvAddCurrentTaskToDelayedList`**, for a task that is in no list. -/
theorem prvAddCurrentTaskToDelayedList_settles {w : ℕ} (hk : k.Is a) (ht : a.Timely)
    (hfree : ¬ a.Holds a.current) (hnow : a.now < w) (hw : w < a.now + 2 ^ 32) :
    Settles (fun n => k.prvAddCurrentTaskToDelayedList n (BitVec.ofNat 32 w))
      (Is · { a with delayed := Agenda.insert a.delayed (a.current, w) }) := by
  obtain ⟨zs, hc⟩ := id hk
  set c := a.current
  refine (Settles.lift (P := (· = c)) ⟨_, hk.currentTCB, rfl⟩).bind ?_
  rintro _ rfl
  set h := listSET_LIST_ITEM_VALUE k.heap (.xGenericListItem c) (BitVec.ofNat 32 w)
  have hr : Represents h zs := hc.heap.setValue _ _
  have hvalue : h.xItemValue (.item (.xGenericListItem c)) = BitVec.ofNat 32 w :=
    Function.update_self ..
  have hvalues : ∀ x ∈ a.delayed,
      h.xItemValue (.item (.xGenericListItem x.1)) = BitVec.ofNat 32 x.2 := by
    intro x hx
    have hne : x.1 ≠ c := fun heq => hfree ⟨.delayed, x.2, by rw [← heq]; exact hx⟩
    exact (Function.update_of_ne (by simpa using hne) _ _).trans (hc.value x hx)
  have hEnow := a.now_lt_epochEnd
  have hEle : a.epochEnd ≤ a.now + 2 ^ 32 := by
    rw [Sched.epochEnd]
    omega
  by_cases hE : a.epochEnd ≤ w
  · -- the time is in the next epoch
    have hlt : BitVec.ofNat 32 w < k.xTickCount := by
      rw [hc.tickCount, BitVec.lt_def, BitVec.toNat_ofNat, BitVec.toNat_ofNat]
      rw [Sched.epochEnd] at hE
      omega
    simp only [if_pos hlt]
    refine (vListInsert_entries hr hc.overflow (hc.generic_free hfree) (hc.ordered.filter _) hvalue
      (fun x hx => hvalues x (List.mem_of_mem_filter hx)) ?_).bind ?_
    · intro x hx
      obtain ⟨hmem, hEx⟩ := List.mem_filter.1 hx
      have hsoon := hc.soon x hmem
      have hEx : a.epochEnd ≤ x.2 := of_decide_eq_true hEx
      rw [Sched.epochEnd] at hE hEx
      omega
    · rintro h' ⟨hr', hv'⟩
      refine Settles.pure ⟨_, hc.insertDelayed hw hr' (by rw [hv']; exact hvalue)
        (by rw [hv']; exact hvalues) (Or.inr rfl)
        (fun i hi => Function.update_of_ne hi _ _) ?_ ?_ ?_⟩
      · rw [Function.update_of_ne hc.delayed_ne_overflow, hc.delayed,
          Agenda.filter_insert_of_neg hc.ordered (by simpa using hE)]
      · rw [Function.update_self, Agenda.filter_insert_of_pos (by simpa using hE)]
      · intro x hx hxE
        rcases Agenda.mem_insert.1 hx with rfl | hx
        · exact absurd hxE (Nat.not_lt.2 hE)
        · exact hc.unblock x hx hxE
  · have hE : w < a.epochEnd := Nat.not_le.1 hE
    have hepoch := Sched.epoch_eq hnow.le hE
    have hnlt : ¬ BitVec.ofNat 32 w < k.xTickCount := by
      rw [hc.tickCount, ofNat_lt_ofNat hepoch.symm]
      omega
    simp only [if_neg hnlt]
    refine (vListInsert_entries hr hc.delayed (hc.generic_free hfree) (hc.ordered.filter _) hvalue
      (fun x hx => hvalues x (List.mem_of_mem_filter hx)) ?_).bind ?_
    · intro x hx
      obtain ⟨hmem, hxE⟩ := List.mem_filter.1 hx
      exact (Sched.epoch_eq (ht x hmem).le (of_decide_eq_true hxE)).symm.trans hepoch
    · rintro h' ⟨hr', hv'⟩
      have hcore : ∀ v : BitVec 32, v.toNat ≤ k.xNextTaskUnblockTime.toNat →
          v.toNat ≤ (BitVec.ofNat 32 w).toNat →
            { k with heap := h', xNextTaskUnblockTime := v }.Is
            { a with delayed := Agenda.insert a.delayed (c, w) } := by
        intro v hv hvw
        refine ⟨_, hc.insertDelayed hw hr' (by rw [hv']; exact hvalue)
          (by rw [hv']; exact hvalues)
          (Or.inl rfl) (fun i hi => Function.update_of_ne hi _ _) ?_ ?_ ?_⟩
        · rw [Function.update_self, Agenda.filter_insert_of_pos (by simpa using hE)]
        · rw [Function.update_of_ne hc.delayed_ne_overflow.symm, hc.overflow,
            Agenda.filter_insert_of_neg hc.ordered (by simpa using hE)]
        · intro x hx hxE
          rcases Agenda.mem_insert.1 hx with rfl | hx
          · rwa [BitVec.toNat_ofNat] at hvw
          · exact hv.trans (hc.unblock x hx hxE)
      by_cases hfirst : BitVec.ofNat 32 w < k.xNextTaskUnblockTime
      · simp only [if_pos hfirst]
        exact Settles.pure (hcore _ (BitVec.lt_def.1 hfirst).le le_rfl)
      · simp only [if_neg hfirst]
        exact Settles.pure (hcore _ le_rfl (Nat.not_lt.1 (mt BitVec.lt_def.2 hfirst)))

/-- The running task goes to sleep. -/
theorem delayCurrentTask_settles {w : ℕ} (hk : k.Is a) (ht : a.Timely) (hheld : a.Holds a.current)
    (hnow : a.now < w) (hw : w < a.now + 2 ^ 32) :
    Settles (fun n => k.delayCurrentTask n (BitVec.ofNat 32 w))
      (Is · (a.delay a.current (w - a.now))) := by
  refine (Settles.lift (P := (· = a.current)) ⟨_, hk.currentTCB, rfl⟩).bind ?_
  rintro _ rfl
  refine (Settles.lift (hk.listRemove hheld)).bind fun k hk => ?_
  have hwake : a.now + (w - a.now) = w := by omega
  have hdelay : a.delay a.current (w - a.now) = { a.take a.current with
      delayed := Agenda.insert (a.take a.current).delayed (a.current, w) } := by
    rw [Sched.delay, hwake]
  rw [hdelay]
  exact prvAddCurrentTaskToDelayedList_settles hk
    (fun x hx => ht x (List.mem_of_mem_filter hx)) Sched.not_holds_take hnow hw

/-- **`vTaskDelay`**: the running task waits for `xTicksToDelay` ticks. -/
theorem vTaskDelayBody_settles (hk : k.Is a) (ht : a.Timely) (hheld : a.Holds a.current)
    {xTicksToDelay : BitVec 32} (hpos : 0 < xTicksToDelay.toNat) :
    Settles (fun n => k.vTaskDelayBody n xTicksToDelay)
      (Is · (a.delay a.current xTicksToDelay.toNat)) := by
  obtain ⟨zs, hc⟩ := id hk
  have hlt := xTicksToDelay.isLt
  have hwake : k.xTickCount + xTicksToDelay = BitVec.ofNat 32 (a.now + xTicksToDelay.toNat) := by
    rw [hc.tickCount, BitVec.ofNat_add, BitVec.ofNat_toNat, BitVec.setWidth_eq]
  have hsettles := delayCurrentTask_settles (w := a.now + xTicksToDelay.toNat) hk ht hheld
    (by omega) (by omega)
  rw [Nat.add_sub_cancel_left] at hsettles
  simp only [vTaskDelayBody, hwake]
  exact hsettles

omit [DecidableEq T] in
/-- The task is to wait just if less than the period has gone by since the last time. -/
theorem xShouldDelay_eq (k : Kernel T) (xPreviousWakeTime xTimeIncrement : BitVec 32) :
    k.xShouldDelay xPreviousWakeTime (xPreviousWakeTime + xTimeIncrement) =
      decide ((k.xTickCount - xPreviousWakeTime).toNat < xTimeIncrement.toNat) := by
  have hp := xPreviousWakeTime.isLt
  have hi := xTimeIncrement.isLt
  have ht := k.xTickCount.isLt
  rw [xShouldDelay, BitVec.toNat_sub]
  simp only [BitVec.lt_def, gt_iff_lt, BitVec.toNat_add]
  split
  · rw [← Bool.decide_and, decide_eq_decide]
    omega
  · rw [← Bool.decide_or, decide_eq_decide]
    omega

/-- **`vTaskDelayUntil`**: the running task waits until `xTimeIncrement` ticks have gone by since
`xPreviousWakeTime`, unless they have. -/
theorem vTaskDelayUntilBody_settles (hk : k.Is a) (ht : a.Timely) (hheld : a.Holds a.current)
    (xPreviousWakeTime xTimeIncrement : BitVec 32) :
    Settles (fun n => k.vTaskDelayUntilBody n xPreviousWakeTime xTimeIncrement) fun r =>
      r.1.Is (a.delayUntil a.current (BitVec.ofNat 32 a.now - xPreviousWakeTime).toNat
        xTimeIncrement.toNat) ∧ r.2 = xPreviousWakeTime + xTimeIncrement := by
  obtain ⟨zs, hc⟩ := id hk
  simp only [vTaskDelayUntilBody, Sched.delayUntil, xShouldDelay_eq, decide_eq_true_eq,
    hc.tickCount]
  set d := (BitVec.ofNat 32 a.now - xPreviousWakeTime).toNat with hd
  have hi := xTimeIncrement.isLt
  by_cases hless : d < xTimeIncrement.toNat
  · have hwake : xPreviousWakeTime + xTimeIncrement
        = BitVec.ofNat 32 (a.now + (xTimeIncrement.toNat - d)) := by
      have hp := xPreviousWakeTime.isLt
      rw [BitVec.toNat_sub, BitVec.toNat_ofNat] at hd
      apply BitVec.eq_of_toNat_eq
      rw [BitVec.toNat_add, BitVec.toNat_ofNat]
      omega
    have hsettles := delayCurrentTask_settles (w := a.now + (xTimeIncrement.toNat - d)) hk ht hheld
      (by omega) (by omega)
    rw [Nat.add_sub_cancel_left] at hsettles
    simp only [if_pos hless, hwake]
    exact hsettles.bind fun k hk => Settles.pure ⟨hk, rfl⟩
  · simp only [if_neg hless]
    exact Settles.pure ⟨hk, rfl⟩

end Kernel
end Rtos
end Especial
