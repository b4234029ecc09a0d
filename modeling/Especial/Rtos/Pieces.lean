/-
# The pieces of the tasks' calls

Each piece of a call keeps the invariant: the suspension of the scheduler and its end, the delays,
a yield, and the critical sections of `vTaskSuspend`, `vTaskResume`, `vTaskPrioritySet`,
`vTaskDelete` and `xTaskGenericCreate`.  Where the running task leaves the ready tasks, the rest of
its call gives the processor up (`delayed`, `leaves`).
-/

import Especial.Rtos.Invariant

namespace Especial
namespace Rtos

open Lib

namespace Plan

variable {T : Type} [DecidableEq T] {p : Plan T} {idle : T} {i : Piece T} {is qs : List (Piece T)}
  {b : Sched T}


namespace Next

/-- `vTaskSuspendAll` keeps the invariant. -/
theorem suspendAll (h : Next idle p .vTaskSuspendAll is) : p.execPiece.Ok idle := by
  have hi : Sched.Plain (.vTaskSuspendAll : Piece T) := ⟨by simp, by simp, by simp⟩
  refine h.ok.next h.todo rfl rfl h.ok.sane.vary h.ok.timely
    (fun hzero => absurd hzero (by simp [Sched.lock])) h.fits h.reapable (fun _ => id)
    (Or.inl (h.runs hi)) ?_
  rcases h.top hi with hyield | htop
  · exact Or.inr (Or.inl hyield)
  · exact Sched.TopBut.leads (a := p.sched.lock) htop _

/-- `xTaskResumeAll` keeps it: the running task stays ready, and leads or asks for a switch. -/
theorem resumeAll (h : Next idle p .xTaskResumeAll is) : p.execPiece.Ok idle := by
  have hi : Sched.Plain (.xTaskResumeAll : Piece T) := ⟨by simp, by simp, by simp⟩
  have hdeleted := h.ok.sane.unlock_deleted
  refine h.ok.next h.todo rfl (Sched.unlock_current _) h.ok.sane.unlock h.ok.timely.unlock
    (Sched.quiet_unlock _) (by rw [Sched.unlock_locks]; exact h.fits.2)
    (fun hidle hmem => hdeleted ▸ h.reapable hidle hmem) (fun _ hne => hdeleted ▸ hne)
    (Or.inl (h.ok.sane.runs_unlock (h.runs hi))) ?_
  rcases h.top hi with hyield | htop
  · exact (Sched.unlock_missedYield hyield).imp_right Or.inl
  · cases hdone : p.sched.unlock.2 with
    | true => exact Or.inl (Sched.unlock_yields hdone)
    | false => exact (Sched.unlock_top htop hdone).leads _

/-- At the end of a delay the running task gives the processor up, if not in this piece then in the
next one. -/
theorem resumeAllAndYield (h : Next idle p .xTaskResumeAllAndYield is) : p.execPiece.Ok idle := by
  obtain ⟨hother, hone, hfits⟩ := h.fits
  have hdeleted := h.ok.sane.unlock_deleted
  have hzero : p.sched.unlock.1.locks = 0 := by rw [Sched.unlock_locks, hone]
  have hne : p.sched.current ≠ idle := of_decide_eq_false hother
  cases hdone : p.sched.unlock.2 with
  | true =>
    have hperform : p.sched.perform .xTaskResumeAllAndYield = (p.sched.unlock.1, []) := by
      rw [Sched.perform, hdone]
      rfl
    exact h.ok.next h.todo hperform (Sched.unlock_current _) h.ok.sane.unlock h.ok.timely.unlock
      (Sched.quiet_unlock _) (by rw [hzero]; exact hfits) (fun hidle => absurd hidle hne)
      (fun _ hnil => hdeleted ▸ hnil) (Or.inr (Or.inl ⟨Sched.unlock_yields hdone, hzero⟩))
      (Or.inl (Sched.unlock_yields hdone))
  | false =>
    have hperform : p.sched.perform .xTaskResumeAllAndYield = (p.sched.unlock.1, [.portYIELD]) := by
      rw [Sched.perform, hdone]
      rfl
    exact h.ok.next h.todo hperform (Sched.unlock_current _) h.ok.sane.unlock h.ok.timely.unlock
      (Sched.quiet_unlock _) (by rw [hzero]; exact ⟨hother, hfits⟩)
      (fun hidle => absurd hidle hne)
      (fun _ hnil => hdeleted ▸ hnil) (Or.inr (Or.inr (Or.inr ⟨hzero, _, rfl⟩)))
      (Or.inr (Or.inr (Or.inl ⟨_, Or.inr rfl⟩)))

/-- The running task has put itself among those that wait for a time, and the next piece gives the
processor up. -/
theorem delayed (h : Next idle p i is) (hi : Sched.Plain i) {m : ℕ} (hm : 0 < m)
    (hperform : p.sched.perform i = (p.sched.delay p.sched.current m, []))
    (hne : p.sched.current ≠ idle)
    (hfits : Fits (decide (p.sched.current = idle)) p.sched.locks is)
    (his : ∃ qs, is = .xTaskResumeAllAndYield :: qs) : p.execPiece.Ok idle := by
  have hruns := h.runs hi
  have hdeleted : (p.sched.delay p.sched.current m).deleted = p.sched.deleted :=
    h.ok.sane.take_deleted hruns (by simp)
  refine h.ok.next h.todo hperform rfl (h.ok.sane.delay hruns hne m)
    (fun x hx => ?_) h.ok.quiet hfits
    (fun hidle => absurd hidle hne) (fun _ hnil => hdeleted ▸ hnil) (Or.inr (Or.inr (Or.inl his)))
    (Or.inr (Or.inr (Or.inl (his.imp fun _ => Or.inl))))
  rcases Agenda.mem_insert.1 hx with rfl | hx
  · exact Nat.lt_add_of_pos_right hm
  · exact h.ok.timely x (List.mem_of_mem_filter hx)

/-- The body of `vTaskDelay` keeps it; the task gives the processor up next. -/
theorem delayBody {x : BitVec 32} (h : Next idle p (.vTaskDelayBody x) is) :
    p.execPiece.Ok idle := by
  obtain ⟨hother, -, hpos, his, hfits⟩ := h.fits
  exact h.delayed ⟨by simp, by simp, by simp⟩ hpos rfl (of_decide_eq_false hother) hfits his

/-- So does the body of `vTaskDelayUntil`. -/
theorem delayUntilBody {w x : BitVec 32} (h : Next idle p (.vTaskDelayUntilBody w x) is) :
    p.execPiece.Ok idle := by
  obtain ⟨hother, -, his, hfits⟩ := h.fits
  have hne := of_decide_eq_false hother
  have hi : Sched.Plain (.vTaskDelayUntilBody w x : Piece T) := ⟨by simp, by simp, by simp⟩
  set d := (BitVec.ofNat 32 p.sched.now - w).toNat with hd
  by_cases hlt : d < x.toNat
  · refine h.delayed hi (Nat.sub_pos_of_lt hlt) ?_ hne hfits his
    rw [Sched.perform, ← hd, Sched.delayUntil, if_pos hlt]
  · have hperform : p.sched.perform (.vTaskDelayUntilBody w x) = (p.sched, []) := by
      rw [Sched.perform, ← hd, Sched.delayUntil, if_neg hlt]
    exact h.ok.next_of_keeps h.todo h.switchPending hperform (.refl _) h.ok.sane hi hfits h.reapable
      fun _ => id

/-- A yield keeps it. -/
theorem yield (h : Next idle p .portYIELD is) : p.execPiece.Ok idle := by
  obtain ⟨hother, hfits⟩ := h.fits
  have hne : p.sched.current ≠ idle := of_decide_eq_false hother
  refine h.ok.next h.todo rfl rfl h.ok.sane.vary h.ok.timely h.ok.quiet hfits
    (fun hidle => absurd hidle hne) (fun _ => id) ?_ (Or.inl rfl)
  rcases h.stays with hruns | ⟨-, hzero⟩ | ⟨_, heq⟩ | ⟨hzero, -⟩
  · exact Or.inl hruns
  · exact Or.inr (Or.inl ⟨rfl, hzero⟩)
  · simp at heq
  · exact Or.inr (Or.inl ⟨rfl, hzero⟩)

/-- The running task has left the ready tasks, and is going to yield. -/
theorem leaves (h : Next idle p i is) (hzero : p.sched.locks = 0) (hne : p.sched.current ≠ idle)
    (hperform : p.sched.perform i = (b, [.portYIELD])) (hcurrent : b.current = p.sched.current)
    (hlocks : b.locks = p.sched.locks) (hsane : b.Sane idle) (htimely : b.Timely) (hquiet : b.Quiet)
    (hdeleted : p.sched.deleted ≠ [] → b.deleted ≠ [])
    (hfits : decide (p.sched.current = idle) = false ∧
      Fits (decide (p.sched.current = idle)) p.sched.locks is) : p.execPiece.Ok idle :=
  h.ok.next h.todo hperform hcurrent hsane htimely hquiet (hlocks ▸ hfits)
    (fun hidle => absurd hidle hne) (fun _ => hdeleted)
    (Or.inr (Or.inr (Or.inr ⟨hlocks.trans hzero, _, rfl⟩)))
    (Or.inr (Or.inr (Or.inl ⟨_, Or.inr rfl⟩)))

/-- `vTaskSuspend` keeps it. -/
theorem suspend {c : Option T} (h : Next idle p (.vTaskSuspend c) is)
    (ha : p.sched.AdmitsPiece idle (.vTaskSuspend c)) : p.execPiece.Ok idle := by
  obtain ⟨hlive, hne, hblock⟩ := ha
  set t := c.getD p.sched.current with ht
  have hsane := h.ok.sane.suspend hlive hne
  have hdeleted : (p.sched.suspend t).deleted = p.sched.deleted :=
    Sched.filter_ne_of_notMem (h.ok.sane.live_ne_deleted hlive)
  have hquiet : (p.sched.suspend t).Quiet := fun hzero => by
    obtain ⟨hnil, hrest⟩ := h.ok.quiet hzero
    refine ⟨?_, hrest⟩
    show p.sched.pending.filter (· ≠ t) = []
    rw [hnil]
    rfl
  by_cases hself : t = p.sched.current
  · have hperform : p.sched.perform (.vTaskSuspend c) = (p.sched.suspend t, [.portYIELD]) := by
      rw [Sched.perform, ← ht, if_pos hself]
    exact h.leaves (hblock hself) (hself ▸ hne) hperform rfl rfl hsane
      (Sched.timely_take h.ok.timely t) hquiet (fun hnil => hdeleted ▸ hnil) h.fits
  · have hperform : p.sched.perform (.vTaskSuspend c) = (p.sched.suspend t, []) := by
      rw [Sched.perform, ← ht, if_neg hself]
    exact h.ok.next_of_keeps h.todo h.switchPending hperform (Sched.keeps_suspend hself) hsane
      ⟨by simp, by simp, by simp⟩ h.fits.2
      (fun hidle hmem => hdeleted ▸ h.reapable hidle hmem) fun _ hnil => hdeleted ▸ hnil

/-- `vTaskResume` keeps it. -/
theorem resume {t : T} (h : Next idle p (.vTaskResume t) is) : p.execPiece.Ok idle := by
  have hdeleted := h.ok.sane.resume_deleted t
  exact h.ok.next_of_keeps h.todo h.switchPending rfl (h.ok.sane.keeps_resume t)
    (h.ok.sane.resume t)
    ⟨by simp, by simp, by simp⟩ h.fits.2 (fun hidle hmem => hdeleted ▸ h.reapable hidle hmem)
    fun _ hnil => hdeleted ▸ hnil

/-- `vTaskPrioritySet` keeps it. -/
theorem prioritySet {c : Option T} {n : ℕ} (h : Next idle p (.vTaskPrioritySet c n) is)
    (ha : p.sched.AdmitsPiece idle (.vTaskPrioritySet c n)) : p.execPiece.Ok idle := by
  have hdeleted := h.ok.sane.setPriority_deleted (c.getD p.sched.current) (Kernel.cappedPriority n)
  exact h.ok.next_of_keeps h.todo h.switchPending rfl (h.ok.sane.keeps_setPriority _ _)
    (h.ok.sane.setPriority _ ha.2) ⟨by simp, by simp, by simp⟩ h.fits.2
    (fun hidle hmem => hdeleted ▸ h.reapable hidle hmem) fun _ hnil => hdeleted ▸ hnil

/-- `vTaskDelete` keeps it. -/
theorem delete {c : Option T} (h : Next idle p (.vTaskDelete c) is)
    (ha : p.sched.AdmitsPiece idle (.vTaskDelete c)) : p.execPiece.Ok idle := by
  obtain ⟨hlive, hne, hblock⟩ := ha
  set t := c.getD p.sched.current with ht
  have hsane := h.ok.sane.delete hlive hne
  have hdeleted : (p.sched.delete t).deleted ≠ [] := by simp [Sched.delete]
  by_cases hself : t = p.sched.current
  · have hperform : p.sched.perform (.vTaskDelete c) = (p.sched.delete t, [.portYIELD]) := by
      rw [Sched.perform, ← ht, if_pos hself]
    refine h.leaves (hblock hself) (hself ▸ hne) hperform rfl rfl hsane
      (Sched.timely_take h.ok.timely t) (fun hzero => ?_) (fun _ => hdeleted) h.fits
    obtain ⟨hnil, hrest⟩ := h.ok.quiet hzero
    refine ⟨?_, hrest⟩
    show p.sched.pending.filter (· ≠ t) = []
    rw [hnil]
    rfl
  · have hperform : p.sched.perform (.vTaskDelete c) = (p.sched.delete t, []) := by
      rw [Sched.perform, ← ht, if_neg hself]
    exact h.ok.next_of_keeps h.todo h.switchPending hperform (Sched.keeps_delete hself) hsane
      ⟨by simp, by simp, by simp⟩ h.fits.2 (fun _ _ => hdeleted) fun _ _ => hdeleted

/-- A new task may be more important than the running one, up to the priority that the next piece
looks at. -/
theorem create {t : T} {n : ℕ} (h : Next idle p (.xTaskGenericCreate t n) is)
    (ha : p.sched.AdmitsPiece idle (.xTaskGenericCreate t n)) : p.execPiece.Ok idle := by
  have hi : Sched.Plain (.xTaskGenericCreate t n : Piece T) := ⟨by simp, by simp, by simp⟩
  have hruns := h.runs hi
  have hne : p.sched.current ≠ t := by
    rintro rfl
    exact ha.1 ⟨_, hruns⟩
  have hsame {β : Type} (f : Sched T → β) (hf : ∀ a t, f (Sched.enqueue a t) = f a)
      (hcurrent : ∀ (a : Sched T) c, f { a with current := c } = f a) :
      f (p.sched.create t n) = f (p.sched.addTask t (Kernel.cappedPriority n)) :=
    Sched.create_frame f hf hcurrent p.sched t n
  have hcurrent : (p.sched.create t n).current = p.sched.current := by
    have hrunning : (p.sched.addTask t (Kernel.cappedPriority n)).running = true :=
      h.ok.sane.running
    rw [Sched.create, hrunning]
    rfl
  have hpriority :
      (p.sched.create t n).priority p.sched.current = p.sched.priority p.sched.current := by
    rw [Sched.create_priority, Function.update_of_ne hne]
  have hdelayed : (p.sched.create t n).delayed = p.sched.delayed :=
    hsame (·.delayed) (fun _ _ => rfl) fun _ _ => rfl
  have hnow : (p.sched.create t n).now = p.sched.now :=
    hsame (·.now) (fun _ _ => rfl) fun _ _ => rfl
  have hlocks : (p.sched.create t n).locks = p.sched.locks :=
    hsame (·.locks) (fun _ _ => rfl) fun _ _ => rfl
  have hdeleted : (p.sched.create t n).deleted = p.sched.deleted :=
    hsame (·.deleted) (fun _ _ => rfl) fun _ _ => rfl
  have hmissed : (p.sched.create t n).missedYield = p.sched.missedYield :=
    hsame (·.missedYield) (fun _ _ => rfl) fun _ _ => rfl
  refine h.ok.next h.todo rfl hcurrent (h.ok.sane.create ha.1 n) ?_ (fun hzero => ?_)
    (hlocks ▸ ⟨h.fits.1, h.fits.2⟩)
    (fun hidle hmem => hdeleted ▸ h.reapable hidle (by simpa using hmem))
    (fun _ hnil => hdeleted ▸ hnil) (Or.inl ?_) ?_
  · intro x hx
    rw [hnow]
    exact h.ok.timely x (hdelayed ▸ hx)
  · rw [hmissed, hsame (·.pending) (fun _ _ => rfl) fun _ _ => rfl,
      hsame (·.missedTicks) (fun _ _ => rfl) fun _ _ => rfl]
    exact h.ok.quiet (hlocks ▸ hzero)
  · rw [Sched.Runs, hcurrent, hpriority]
    exact Sched.at_create.2 (Or.inl hruns)
  · rcases h.top hi with hyield | htop
    · exact Or.inr (Or.inl (hmissed.trans hyield))
    · refine Or.inr (Or.inr (Or.inr fun u q hu hq => ?_))
      rw [hcurrent, hpriority] at hq
      show (q : ℕ) ≤ n
      rcases Sched.at_create.1 hu with hu | ⟨-, hcapped⟩
      · exact (htop u q hu hq).trans (Nat.zero_le _)
      · rw [Place.ready.inj hcapped]
        exact Kernel.cappedPriority_le n

/-- The end of `xTaskGenericCreate` keeps it. -/
theorem yieldAfterCreate {n : ℕ} (h : Next idle p (.yieldAfterCreate n) is) :
    p.execPiece.Ok idle := by
  obtain ⟨hother, hfits⟩ := h.fits
  have hne : p.sched.current ≠ idle := of_decide_eq_false hother
  have hruns : p.sched.Runs := by
    rcases h.stays with hruns | ⟨hs, -⟩ | ⟨_, heq⟩ | ⟨-, _, heq⟩
    · exact hruns
    · rw [h.switchPending] at hs
      cases hs
    · simp at heq
    · simp at heq
  by_cases hlower : p.sched.priority p.sched.current < n
  · have hperform : p.sched.perform (.yieldAfterCreate n) = (p.sched.yield, []) := by
      rw [Sched.perform, if_pos hlower]
    exact h.ok.next h.todo hperform rfl h.ok.sane.vary h.ok.timely h.ok.quiet hfits h.reapable
      (fun _ => id) (Or.inl hruns) (Or.inl rfl)
  · have hperform : p.sched.perform (.yieldAfterCreate n) = (p.sched, []) := by
      rw [Sched.perform, if_neg hlower]
    refine h.ok.next h.todo hperform rfl h.ok.sane h.ok.timely h.ok.quiet hfits h.reapable
      (fun _ => id) (Or.inl hruns) ?_
    rcases h.leads with hs | hyield | ⟨_, heq | heq⟩ | htop
    · rw [h.switchPending] at hs
      cases hs
    · exact Or.inr (Or.inl hyield)
    · simp at heq
    · simp at heq
    · refine Sched.TopBut.leads (fun u q hu hq => ?_) _
      have hle : (q : ℕ) ≤ n := htop u q hu hq
      have hlt : (p.sched.priority p.sched.current : ℕ) < q := hq
      omega

end Next

end Plan

end Rtos
end Especial
