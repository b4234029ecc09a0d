/-
# The start

`main` creates its tasks and starts the scheduler.  The first task has the lists initialised; each
further one finds a kernel whose tasks are all ready, with the most important of them as the
current one.
-/

import Especial.Rtos.Simulation

namespace Especial
namespace Rtos

open Lib

section Lists

variable {L I : Type} [DecidableEq L] [DecidableEq I]

/-- The lists that are initialised are empty. -/
theorem vListInitialise_all (ls : List L) (h : Heap L I) {l : L} (hl : l ∈ ls) :
    IsList (ls.foldl vListInitialise h) l .empty := by
  induction ls using List.reverseRecOn with
  | nil => cases hl
  | append_singleton ls k ih =>
    rw [List.foldl_concat]
    by_cases heq : l = k
    · rw [heq]
      exact vListInitialise_isList _ k
    · refine vListInitialise_of_ne (ih ?_) heq
      simpa [heq] using hl

/-- Initialising lists moves no item. -/
theorem vListInitialise_pvContainer (ls : List L) (h : Heap L I) :
    (ls.foldl vListInitialise h).pvContainer = h.pvContainer := by
  induction ls using List.reverseRecOn with
  | nil => rfl
  | append_singleton ls k ih =>
    rw [List.foldl_concat]
    exact ih

end Lists

variable {T : Type} [DecidableEq T] {k : Kernel T} {a : Sched T} {t idle : T} {n : ℕ}

namespace Sched

omit [DecidableEq T] in
/-- A scheduler without tasks, with `t` to be the first one. -/
def new (t : T) : Sched T where
  now := 0
  current := t
  priority := fun _ => 0
  base := fun _ => 0
  ready := fun _ => []
  delayed := []
  suspended := []
  deleted := []
  pending := []
  tasks := []
  deletions := 0
  locks := 0
  missedTicks := 0
  missedYield := false
  switchPending := false
  running := false

/-- Before the scheduler runs all tasks are ready. -/
structure Booting (a : Sched T) : Prop where
  now : a.now = 0
  running : a.running = false
  delayed : a.delayed = []
  suspended : a.suspended = []
  deleted : a.deleted = []
  pending : a.pending = []
  deletions : a.deletions = 0
  locks : a.locks = 0
  missedTicks : a.missedTicks = 0
  missedYield : a.missedYield = false
  switchPending : a.switchPending = false
  base : a.base = a.priority
  nodup : a.tasks.Nodup
  tasks : ∀ t, t ∈ a.tasks ↔ t ∈ a.ready (a.priority t)
  ready : ∀ {t p}, t ∈ a.ready p → a.priority t = p

/-- The current task is the most important one. -/
def Led (a : Sched T) : Prop := a.Runs ∧ a.TopBut 0

omit [DecidableEq T] in
/-- Without tasks nothing is wrong. -/
theorem booting_new (t : T) : (new t).Booting :=
  ⟨rfl, rfl, rfl, rfl, rfl, rfl, rfl, rfl, rfl, rfl, rfl, rfl, List.nodup_nil,
    fun _ => iff_of_false List.not_mem_nil List.not_mem_nil, fun h => absurd h List.not_mem_nil⟩

omit [DecidableEq T] in
/-- A task waits in the queue of its priority, if it waits. -/
theorem Booting.at_iff (h : a.Booting) {l : Place} : a.At t l ↔
    ∃ p, l = .ready p ∧ t ∈ a.ready p := by
  cases l with
  | ready p => simp [At]
  | delayed => simp [At, h.delayed]
  | suspended => simp [At, h.suspended]
  | deleted => simp [At, h.deleted]

omit [DecidableEq T] in
/-- Every task waits. -/
theorem Booting.holds_iff (h : a.Booting) : a.Holds t ↔ t ∈ a.tasks := by
  rw [h.tasks]
  constructor
  · rintro ⟨l, hl⟩
    obtain ⟨p, -, ht⟩ := h.at_iff.1 hl
    rwa [h.ready ht]
  · exact fun ht => ⟨.ready _, ht⟩

/-- **One more task** is ready as the others are. -/
theorem Booting.create (h : a.Booting) (ht : t ∉ a.tasks) (n : ℕ) : (a.create t n).Booting := by
  have hsame {β : Type} (f : Sched T → β) (hf : ∀ a t, f (Sched.enqueue a t) = f a)
      (hcurrent : ∀ (a : Sched T) c, f { a with current := c } = f a) :
      f (a.create t n) = f (a.addTask t (Kernel.cappedPriority n)) :=
      create_frame f hf hcurrent a t n
  have hready {u : T} {p : Priority} : u ∈ (a.create t n).ready p ↔
      u ∈ a.ready p ∨ u = t ∧ p = Kernel.cappedPriority n := by
    have hat := at_create (a := a) (t := t) (u := u) (l := .ready p) (n := n)
    simpa [At] using hat
  have hnone {p : Priority} : t ∉ a.ready p := by
    intro hmem
    have hp := h.ready hmem
    exact ht ((h.tasks t).2 (hp ▸ hmem))
  have hpriority {u : T} {p : Priority} (hu : u ∈ (a.create t n).ready p) :
      (a.create t n).priority u = p := by
    rw [create_priority]
    rcases hready.1 hu with hold | ⟨rfl, rfl⟩
    · have hne : u ≠ t := by
        rintro rfl
        exact hnone hold
      rw [Function.update_of_ne hne]
      exact h.ready hold
    · exact Function.update_self ..
  refine ⟨(hsame (·.now) (fun _ _ => rfl) fun _ _ => rfl).trans h.now,
    (hsame (·.running) (fun _ _ => rfl) fun _ _ => rfl).trans h.running,
    (hsame (·.delayed) (fun _ _ => rfl) fun _ _ => rfl).trans h.delayed,
    (hsame (·.suspended) (fun _ _ => rfl) fun _ _ => rfl).trans h.suspended,
    (hsame (·.deleted) (fun _ _ => rfl) fun _ _ => rfl).trans h.deleted,
    (hsame (·.pending) (fun _ _ => rfl) fun _ _ => rfl).trans h.pending,
    (hsame (·.deletions) (fun _ _ => rfl) fun _ _ => rfl).trans h.deletions,
    (hsame (·.locks) (fun _ _ => rfl) fun _ _ => rfl).trans h.locks,
    (hsame (·.missedTicks) (fun _ _ => rfl) fun _ _ => rfl).trans h.missedTicks,
    (hsame (·.missedYield) (fun _ _ => rfl) fun _ _ => rfl).trans h.missedYield,
    (hsame (·.switchPending) (fun _ _ => rfl) fun _ _ => rfl).trans h.switchPending, ?_, ?_,
    fun u => ?_, hpriority⟩
  · rw [create_priority, ← h.base]
    exact hsame (·.base) (fun _ _ => rfl) fun _ _ => rfl
  · rw [hsame (·.tasks) (fun _ _ => rfl) fun _ _ => rfl]
    exact List.nodup_cons.2 ⟨ht, h.nodup⟩
  · rw [hsame (·.tasks) (fun _ _ => rfl) fun _ _ => rfl, hready, create_priority]
    show u ∈ t :: a.tasks ↔ _
    rw [List.mem_cons]
    by_cases heq : u = t
    · subst heq
      simp
    · simp [heq, h.tasks]

/-- The last one of the most important tasks is the current one. -/
theorem Booting.led_create (h : a.Booting) (ht : t ∉ a.tasks)
    (hled : a.Led ∨ a.current = t ∧ ∀ p, a.ready p = []) (n : ℕ) : (a.create t n).Led := by
  set c := Kernel.cappedPriority n with hc
  have hnew : (a.create t n).At t (.ready c) := at_create.2 (Or.inr ⟨rfl, rfl⟩)
  have hpt : (a.create t n).priority t = c := by rw [create_priority, Function.update_self]
  have hother : ∀ {u p}, a.At u (.ready p) → u ≠ t := by
    rintro u p hu rfl
    exact ht (h.holds_iff.1 ⟨_, hu⟩)
  have hfirst : a.running = false := h.running
  have hchoose : (a.create t n).current =
      if (a.addTask t c).priority a.current ≤ n then t else a.current := by
    have hrunning : (a.addTask t c).running = false := hfirst
    have hcurrent : (a.addTask t c).current = a.current := rfl
    rw [Sched.create, ← hc]
    simp only [hrunning, hcurrent, Bool.not_false, Bool.true_and, decide_eq_true_eq]
    split <;> rfl
  rcases hled with ⟨hruns, htop⟩ | ⟨hcurrent, hnil⟩
  · have hne : a.current ≠ t := hother hruns
    have hsame : (a.addTask t c).priority a.current = a.priority a.current :=
      Function.update_of_ne hne _ _
    have hpc : (a.create t n).priority a.current = a.priority a.current := by
      rw [create_priority, Function.update_of_ne hne]
    rw [hsame] at hchoose
    by_cases hle : (a.priority a.current : ℕ) ≤ n
    · rw [if_pos hle] at hchoose
      have hlec : a.priority a.current ≤ c := Kernel.le_cappedPriority hle
      refine ⟨by rw [Runs, hchoose, hpt]; exact hnew, fun u q hu hq => ?_⟩
      rw [hchoose, hpt] at hq
      rcases at_create.1 hu with hu | ⟨-, hqc⟩
      · exact htop u q hu (hlec.trans_lt hq)
      · exact absurd hq (by rw [Place.ready.inj hqc]; exact lt_irrefl c)
    · rw [if_neg hle] at hchoose
      refine ⟨?_, fun u q hu hq => ?_⟩
      · rw [Runs, hchoose, hpc]
        exact at_create.2 (Or.inl hruns)
      · rw [hchoose, hpc] at hq
        rcases at_create.1 hu with hu | ⟨-, hqc⟩
        · exact htop u q hu hq
        · have hcn := Kernel.cappedPriority_le n
          have hlt : (a.priority a.current : ℕ) < q := hq
          rw [Place.ready.inj hqc] at hlt
          omega
  · have hcur : (a.create t n).current = t := by
      rw [hchoose, hcurrent]
      split <;> rfl
    refine ⟨by rw [Runs, hcur, hpt]; exact hnew, fun u q hu hq => ?_⟩
    rw [hcur, hpt] at hq
    rcases at_create.1 hu with hu | ⟨-, hqc⟩
    · have hmem : u ∈ a.ready q := hu
      rw [hnil] at hmem
      cases hmem
    · exact absurd hq (by rw [Place.ready.inj hqc]; exact lt_irrefl c)

omit [DecidableEq T] in
/-- The scheduler starts. -/
theorem Booting.sane (h : a.Booting) (hidle : idle ∈ a.ready tskIDLE_PRIORITY) :
    ({ a with running := true } : Sched T).Sane idle where
  running := rfl
  unique {t l m} hl hm := by
    have hat : ∀ {l}, ({ a with running := true } : Sched T).At t l → a.At t l := by
      intro l hl
      cases l <;> exact hl
    obtain ⟨p, rfl, hp⟩ := h.at_iff.1 (hat hl)
    obtain ⟨q, rfl, hq⟩ := h.at_iff.1 (hat hm)
    rw [← h.ready hp, ← h.ready hq]
  nodup := h.nodup
  tasks t := h.holds_iff.symm.trans (exists_congr fun l => by cases l <;> exact Iff.rfl)
  idle := hidle
  ready hr := h.ready hr
  base := h.base
  pending t ht := by
    have hmem : t ∈ a.pending := ht
    rw [h.pending] at hmem
    cases hmem
  deletedNodup := by
    show a.deleted.Nodup
    rw [h.deleted]
    exact List.nodup_nil
  deletions := by
    show a.deletions = a.deleted.length
    rw [h.deletions, h.deleted]
    rfl

/-- To lock and unlock changes nothing when nothing is missed. -/
theorem Booting.unlock_lock (h : a.Booting) : a.lock.unlock = (a, false) := by
  have hopen : ({ a.lock with locks := 0 } : Sched T) = a := by
    rw [← h.locks]
    rfl
  have hlocks : a.lock.locks - 1 = 0 := by
    show a.locks + 1 - 1 = 0
    rw [h.locks]
  rw [unlock, if_pos hlocks, hopen, makeUp, urgent, wakePending, h.pending, h.missedTicks,
    h.missedYield]
  exact congrArg (·, false) (catchUp_of_missedTicks_eq_zero h.missedTicks)

end Sched

namespace Kernel

/-- **The first task**: the lists are initialised. -/
theorem is_first (t : T) (n : ℕ) :
    (Kernel.new.xTaskGenericCreate t n).Is ((Sched.new t).create t n) := by
  set k₁ : Kernel T := { Kernel.new.prvInitialiseTCBVariables t n with
    uxCurrentNumberOfTasks := 1, pxCurrentTCB := some t }.prvInitialiseTaskLists with hk₁
  set a₁ := (Sched.new t).addTask t (cappedPriority n) with ha₁
  set ls : List ListId := (List.finRange configMAX_PRIORITIES).map .pxReadyTasksLists ++
    [.xDelayedTaskList1, .xDelayedTaskList2, .xPendingReadyList, .xTasksWaitingTermination,
      .xSuspendedTaskList] with hls
  have hheap :
      k₁.heap = ls.foldl vListInitialise (Kernel.new.prvInitialiseTCBVariables t n).heap := by
    rw [hls, List.foldl_append, List.foldl_map]
    rfl
  have hmem : ∀ l, l ∈ ls := by
    intro l
    cases l <;> simp [hls]
  have hcontainer : k₁.heap.pvContainer = fun _ => none := by
    rw [hheap, vListInitialise_pvContainer]
    funext i
    show Function.update (Function.update (fun _ => none) _ none) _ none i = none
    simp [Function.update_apply]
  have hrep : Represents k₁.heap fun _ => .empty := by
    refine ⟨fun l => ?_, fun i l => ?_⟩
    · rw [hheap]
      exact vListInitialise_all ls _ (hmem l)
    · rw [hcontainer]
      simp [Zipper.toList, Zipper.empty]
  have hcore : Core k₁ a₁ fun _ => .empty :=
    { heap := hrep
      ready := fun _ => rfl
      delayed := rfl
      overflow := rfl
      suspended := rfl
      deleted := rfl
      pending := rfl
      lists := Or.inl ⟨rfl, rfl⟩
      ordered := List.Pairwise.nil
      value := fun _ hx => absurd hx List.not_mem_nil
      soon := fun _ hx => absurd hx List.not_mem_nil
      unblock := fun _ hx => absurd hx List.not_mem_nil
      top := fun _ hp => absurd rfl hp
      tickCount := rfl
      overflows := by
        show (0 : BitVec 32) = BitVec.ofNat 32 (0 / 2 ^ 32)
        rw [Nat.zero_div]
        rfl
      current := rfl
      priority := rfl
      base := rfl
      tasks := rfl
      deletions := rfl
      locks := rfl
      missedTicks := rfl
      missedYield := rfl
      switchPending := rfl
      running := rfl }
  have hfree : ¬ a₁.Holds t := by
    rintro ⟨l, hl⟩
    cases l <;> simp [ha₁, Sched.addTask, Sched.new, Sched.At] at hl
  have hcreate : (Sched.new t).create t n = a₁.enqueue t := by
    rw [Sched.create]
    split <;> rfl
  rw [hcreate]
  exact Is.enqueue (k := k₁) ⟨_, hcore⟩ hfree

/-- `pvPortMalloc` before the first task. -/
theorem new_pvPortMalloc :
    Settles (fun n => (Kernel.new : Kernel T).pvPortMalloc n) (· = Kernel.new) := by
  have hopen : (Kernel.new : Kernel T).vTaskSuspendAll.uxSchedulerSuspended - 1 = 0 :=
    show (0 : BitVec 32) + 1 - 1 = 0 by decide
  have hlocked : (Kernel.new : Kernel T).vTaskSuspendAll.uxSchedulerSuspended ≠ 0 :=
    show (0 : BitVec 32) + 1 ≠ 0 by decide
  have hnone : ¬ (Kernel.new : Kernel T).vTaskSuspendAll.uxCurrentNumberOfTasks > 0 :=
    show ¬ (0 : BitVec 32) > 0 by decide
  refine ⟨Kernel.new, 0, fun n _ => ?_, rfl⟩
  simp only [pvPortMalloc, xTaskResumeAll, if_neg hlocked, hopen, if_true, if_neg hnone]
  rfl

/-- `pvPortMalloc` before the scheduler runs. -/
theorem pvPortMalloc_settles (hk : k.Is a) (hb : a.Booting) (htasks : a.tasks ≠ []) :
    Settles (fun n => k.pvPortMalloc n) (Is · a) := by
  obtain ⟨zs, hc⟩ := hk
  have hroom : a.locks + 1 < 2 ^ 32 := by
    rw [hb.locks]
    decide
  have hlock : k.vTaskSuspendAll.Is a.lock := ⟨zs, { hc with locks := hc.locks.succ hroom }⟩
  have htimely : a.lock.Timely := fun x hx => by
    have hmem : x ∈ a.delayed := hx
    rw [hb.delayed] at hmem
    cases hmem
  have hheld : a.lock.PendingHeld := fun t ht => by
    have hmem : t ∈ a.pending := ht
    rw [hb.pending] at hmem
    cases hmem
  refine (xTaskResumeAll_settles hlock htimely hheld htasks (Nat.succ_pos _)).bind ?_
  rintro ⟨k, y⟩ ⟨hk, -⟩
  rw [hb.unlock_lock] at hk
  exact .pure hk

/-- `main` creates one more task. -/
theorem xTaskCreate_settles (hk : k.Is a) (hb : a.Booting) (htasks : a.tasks ≠ [])
    (hroom : a.tasks.length + 1 < 2 ^ 32) (ht : t ∉ a.tasks) (p : ℕ) :
    Settles (fun n => k.xTaskCreate n t p) (Is · (a.create t p)) := by
  refine (pvPortMalloc_settles hk hb htasks).bind fun k hk => ?_
  refine (pvPortMalloc_settles hk hb htasks).bind fun k hk => .pure (hk.create hroom ?_ ?_ p)
  · rw [hb.holds_iff]
    exact ht
  · rw [hb.pending]
    exact List.not_mem_nil

/-- `main` creates further tasks. -/
theorem createAll_settles {tasks : List (T × ℕ)} (hk : k.Is a) (hb : a.Booting) (hled : a.Led)
    (htasks : a.tasks ≠ []) (hfew : a.tasks.length + tasks.length < 2 ^ 32)
    (hnodup : (tasks.map Prod.fst).Nodup) (hnew : ∀ x ∈ tasks, x.1 ∉ a.tasks) :
    Settles (fun n => tasks.foldlM (fun (k : Kernel T) x => k.xTaskCreate n x.1 x.2) k) fun k =>
      k.Is (tasks.foldl (fun a x => a.create x.1 x.2) a) ∧
        (tasks.foldl (fun a x => a.create x.1 x.2) a).Booting ∧
        (tasks.foldl (fun a x => a.create x.1 x.2) a).Led := by
  induction tasks generalizing k a with
  | nil => exact .pure ⟨hk, hb, hled⟩
  | cons x xs ih =>
    simp only [List.foldlM_cons, List.foldl_cons]
    have hx := hnew x List.mem_cons_self
    obtain ⟨hnot, hnodup⟩ := List.nodup_cons.1 hnodup
    have htasks' : (a.create x.1 x.2).tasks = x.1 :: a.tasks :=
      Sched.create_frame (·.tasks) (fun _ _ => rfl) (fun _ _ => rfl) a x.1 x.2
    rw [List.length_cons] at hfew
    refine (xTaskCreate_settles hk hb htasks (by omega) hx x.2).bind fun k hk =>
      ih hk (hb.create hx x.2) (hb.led_create hx (Or.inl hled) x.2) ?_ ?_ hnodup ?_
    · rw [htasks']
      exact List.cons_ne_nil _ _
    · rw [htasks', List.length_cons]
      omega
    · intro y hy
      rw [htasks', List.mem_cons, not_or]
      refine ⟨fun heq => hnot ?_, hnew y (List.mem_cons_of_mem _ hy)⟩
      rw [← heq]
      exact List.mem_map_of_mem hy

/-- `main` creates the idle task as the last one. -/
theorem main_eq (n : ℕ) (tasks : List (T × ℕ)) (idle : T) : main n tasks idle = do
    let k ← (tasks ++ [(idle, 0)]).foldlM
        (fun (k : Kernel T) (x : T × ℕ) => k.xTaskCreate n x.1 x.2) new
    return { k with xSchedulerRunning := true, xTickCount := 0 } := by
  simp only [main, vTaskStartScheduler, List.foldlM_append, List.foldlM_cons,
    List.foldlM_nil, bind_assoc, pure_bind]
  rfl

/-- **`main` starts the scheduler**, with the most important task as the current one. -/
theorem main_settles {tasks : List (T × ℕ)} (hnodup : (tasks.map Prod.fst ++ [idle]).Nodup)
    (hfew : tasks.length + 1 < 2 ^ 32) :
    Settles (fun n => main n tasks idle) fun k => ∃ a : Sched T, k.Is a ∧
      Plan.Ok idle ⟨a, fun _ => []⟩ ∧ a.switchPending = false ∧ a.locks = 0 ∧
      a.now = 0 := by
  have hnodup : ((tasks ++ [(idle, 0)]).map Prod.fst).Nodup := by rwa [List.map_append]
  obtain ⟨x, xs, hcons⟩ := List.exists_cons_of_ne_nil (List.concat_ne_nil (idle, 0) tasks)
  have hfirst := (Sched.booting_new x.1).create (t := x.1) List.not_mem_nil x.2
  have hled := (Sched.booting_new x.1).led_create (t := x.1) List.not_mem_nil
    (Or.inr ⟨rfl, fun _ => rfl⟩) x.2
  have htasks : ((Sched.new x.1).create x.1 x.2).tasks = [x.1] :=
    Sched.create_frame (·.tasks) (fun _ _ => rfl) (fun _ _ => rfl) _ x.1 x.2
  -- the idle task is the last one of the list, and is ready at its priority
  have hidle :
      idle ∈ (xs.foldl (fun a x => a.create x.1 x.2) ((Sched.new x.1).create x.1 x.2)).ready
      tskIDLE_PRIORITY := by
    have hall : xs.foldl (fun a x => a.create x.1 x.2) ((Sched.new x.1).create x.1 x.2)
        = (tasks.foldl (fun a x => a.create x.1 x.2) (Sched.new x.1)).create idle 0 := by
      have hsame :=
        congrArg (List.foldl (fun (a : Sched T) x => a.create x.1 x.2) (Sched.new x.1)) hcons
      rw [List.foldl_append] at hsame
      exact hsame.symm
    rw [hall]
    exact Sched.at_create.2 (Or.inr ⟨rfl, rfl⟩)
  rw [hcons] at hnodup
  have hlength := congrArg List.length hcons
  rw [List.length_append, List.length_singleton, List.length_cons] at hlength
  obtain ⟨hnot, hnodup⟩ := List.nodup_cons.1 hnodup
  simp only [main_eq, hcons, List.foldlM_cons]
  have hcreate : Settles (fun n => (new : Kernel T).xTaskCreate n x.1 x.2)
      (Is · ((Sched.new x.1).create x.1 x.2)) := by
    refine new_pvPortMalloc.bind ?_
    rintro _ rfl
    refine new_pvPortMalloc.bind ?_
    rintro _ rfl
    exact .pure (is_first x.1 x.2)
  refine (hcreate.bind fun k hk => createAll_settles hk hfirst hled ?_ ?_ hnodup
    fun y hy => ?_).bind ?_
  · rw [htasks]
    exact List.cons_ne_nil _ _
  · rw [htasks, List.length_singleton]
    omega
  · rw [htasks, List.mem_singleton]
    exact fun heq => hnot (heq ▸ List.mem_map_of_mem hy)
  · rintro k ⟨⟨zs, hc⟩, hb, hruns, htop⟩
    generalize xs.foldl (fun a x => a.create x.1 x.2) ((Sched.new x.1).create x.1 x.2) = a at *
    refine .pure ⟨{ a with running := true },
      ⟨zs, { hc with running := rfl, tickCount := ?_ }⟩,
      ⟨hb.sane hidle, fun y hy => ?_,
        fun _ => ⟨hb.pending, hb.missedTicks, hb.missedYield⟩, trivial,
        fun _ _ => trivial, fun hmem => absurd hmem List.not_mem_nil, Or.inl hruns, ?_⟩,
      hb.switchPending, hb.locks, hb.now⟩
    · show (0 : BitVec 32) = BitVec.ofNat 32 a.now
      rw [hb.now]
      rfl
    · have hmem : y ∈ a.delayed := hy
      rw [hb.delayed] at hmem
      cases hmem
    · exact Sched.TopBut.leads (a := { a with running := true }) htop _

end Kernel

namespace System

variable {config : Config} {tasks : List (T × ℕ)}

/-- At the start the system stands for a scheduler, if its critical sections are protected. -/
theorem Started.is {s : System T} (h : Started config tasks idle s) (hmask : config.masks = true)
    (hnodup : (tasks.map Prod.fst ++ [idle]).Nodup) (hfew : tasks.length + 1 < 2 ^ 32) :
    ∃ p : Plan T, s.Is p ∧ p.Ok idle ∧ p.sched.switchPending = false ∧ p.sched.locks = 0 ∧
      p.sched.now = 0 := by
  obtain ⟨a, hk, hok, hs, hlocks, hnow⟩ := (Kernel.main_settles hnodup hfew).of_eq h.kernel
  exact ⟨⟨a, fun _ => []⟩, ⟨h.config ▸ hmask, hk, h.todo⟩, hok, hs, hlocks, hnow⟩

end System

end Rtos
end Especial
