/-
# Every event keeps the invariant

The pieces of a round of the idle task, and from them and those of `Especial.Rtos.Pieces` the step
of the running task (`Ok.piece`); the interrupts, which leave the running task where it is
(`Ok.interrupt`); and the switch (`Ok.switch`).  `Ok.exec` is the step of a run.
-/

import Especial.Rtos.Pieces

namespace Especial
namespace Rtos

open Lib

namespace Plan

variable {T : Type} [DecidableEq T] {p : Plan T} {idle : T} {i : Piece T} {is qs : List (Piece T)}
  {b : Sched T}


namespace Next

/-- The idle task looks for deleted tasks. -/
theorem checkTermination (h : Next idle p .prvCheckTasksWaitingTermination is) :
    p.execPiece.Ok idle := by
  obtain ⟨hidle, hnot, hfits⟩ := h.fits
  have hi : Sched.Plain (.prvCheckTasksWaitingTermination : Piece T) :=
    ⟨by simp, by simp, by simp⟩
  by_cases hpos : p.sched.deletions > 0
  · have hperform : p.sched.perform .prvCheckTasksWaitingTermination
        = (p.sched, [.vTaskSuspendAll, .xListIsEmpty]) := by
      rw [Sched.perform, if_pos hpos]
    exact h.ok.next_of_keeps h.todo h.switchPending hperform (.refl _) h.ok.sane hi
      ⟨hidle, Nat.succ_pos _, hnot, hfits⟩
      (fun hidle hmem => h.reapable hidle (by simpa using hmem)) fun _ => id
  · have hperform : p.sched.perform .prvCheckTasksWaitingTermination = (p.sched, []) := by
      rw [Sched.perform, if_neg hpos]
    exact h.ok.next_of_keeps h.todo h.switchPending hperform (.refl _) h.ok.sane hi hfits h.reapable
      fun _ => id

/-- The idle task goes on to remove a task only if there is one. -/
theorem listIsEmpty (h : Next idle p .xListIsEmpty is) : p.execPiece.Ok idle := by
  obtain ⟨hidle, hpos, hnot, hfits⟩ := h.fits
  have hi : Sched.Plain (.xListIsEmpty : Piece T) := ⟨by simp, by simp, by simp⟩
  by_cases hnil : p.sched.deleted = []
  · have hperform : p.sched.perform .xListIsEmpty = (p.sched, [.xTaskResumeAll]) := by
      rw [Sched.perform, if_pos hnil]
    exact h.ok.next_of_keeps h.todo h.switchPending hperform (.refl _) h.ok.sane hi
      ⟨hpos, hfits⟩ (fun hidle hmem => h.reapable hidle (by simpa using hmem)) fun _ => id
  · have hperform : p.sched.perform .xListIsEmpty
        = (p.sched, .xTaskResumeAll :: .removeDeletedTask :: Piece.prvDeleteTCB) := by
      rw [Sched.perform, if_neg hnil]
    refine h.ok.next_of_keeps h.todo h.switchPending hperform (.refl _) h.ok.sane hi
      ⟨hpos, hidle, ?_, Nat.succ_pos _, Nat.succ_pos _, hfits⟩ (fun _ _ => hnil) fun _ => id
    simpa [Piece.prvDeleteTCB, Piece.pvPortMalloc] using hnot

/-- It removes one. -/
theorem removeDeleted (h : Next idle p .removeDeletedTask is) : p.execPiece.Ok idle := by
  obtain ⟨hidle, hnot, hfits⟩ := h.fits
  exact h.ok.next_of_keeps h.todo h.switchPending rfl h.ok.sane.keeps_reap h.ok.sane.reap
    ⟨by simp, by simp, by simp⟩ hfits (fun _ hmem => absurd hmem hnot)
    fun hne => absurd (of_decide_eq_true hidle) hne

/-- It yields to tasks of its own priority. -/
theorem yieldIfShared (h : Next idle p .yieldIfShared is) : p.execPiece.Ok idle := by
  have hi : Sched.Plain (.yieldIfShared : Piece T) := ⟨by simp, by simp, by simp⟩
  by_cases hshared : (p.sched.ready tskIDLE_PRIORITY).length > 1
  · have hperform : p.sched.perform .yieldIfShared = (p.sched.yield, []) := by
      rw [Sched.perform, if_pos hshared]
    exact h.ok.next_of_keeps h.todo h.switchPending hperform (Sched.KeepsRunning.refl _).yield
      h.ok.sane.vary hi h.fits.2 h.reapable fun _ => id
  · have hperform : p.sched.perform .yieldIfShared = (p.sched, []) := by
      rw [Sched.perform, if_neg hshared]
    exact h.ok.next_of_keeps h.todo h.switchPending hperform
      (.refl _) h.ok.sane hi h.fits.2 h.reapable fun _ => id

end Next

/-- **Every piece keeps the invariant.** -/
theorem Ok.piece (h : p.Ok idle) (htodo : p.todo p.sched.current = i :: is)
    (hs : p.sched.switchPending = false) (ha : p.sched.AdmitsPiece idle i) :
    p.execPiece.Ok idle := by
  have hn : Next idle p i is := ⟨h, htodo, hs⟩
  cases i with
  | vTaskSuspendAll => exact hn.suspendAll
  | xTaskResumeAll => exact hn.resumeAll
  | xTaskResumeAllAndYield => exact hn.resumeAllAndYield
  | vTaskDelayBody x => exact hn.delayBody
  | vTaskDelayUntilBody w x => exact hn.delayUntilBody
  | portYIELD => exact hn.yield
  | vTaskSuspend c => exact hn.suspend ha
  | vTaskResume t => exact hn.resume
  | xTaskIsTaskSuspended t | readySuspendedTask t => exact hn.fits.elim
  | vTaskPrioritySet c n => exact hn.prioritySet ha
  | vTaskDelete c => exact hn.delete ha
  | xTaskGenericCreate t n => exact hn.create ha
  | yieldAfterCreate n => exact hn.yieldAfterCreate
  | prvCheckTasksWaitingTermination => exact hn.checkTermination
  | xListIsEmpty => exact hn.listIsEmpty
  | removeDeletedTask => exact hn.removeDeleted
  | yieldIfShared => exact hn.yieldIfShared

/-- An interrupt that leaves the running task where it is. -/
theorem Ok.interrupt (h : p.Ok idle) (hk : p.sched.Keeps b) (hsane : b.Sane idle)
    (hdeleted : b.deleted = p.sched.deleted) : ({ p with sched := b } : Plan T).Ok idle where
  sane := hsane
  timely := hk.timely h.timely
  quiet := hk.quiet h.quiet
  fits := by
    show Fits (decide (b.current = idle)) b.locks (p.todo b.current)
    rw [hk.current, hk.locks]
    exact h.fits
  fitsOthers t ht := h.fitsOthers t (hk.current ▸ ht)
  reapable hmem := hdeleted ▸ h.reapable hmem
  stays := by
    show b.Stays (p.todo b.current)
    rw [hk.current]
    exact hk.stays h.stays
  leads := by
    show b.Leads (p.todo b.current)
    rw [hk.current]
    exact hk.leads_of_leads h.leads

/-- The switch is taken. -/
theorem Ok.switch (h : p.Ok idle) :
    ({ p with sched := { p.sched with switchPending := false }.switch } : Plan T).Ok idle := by
  set a : Sched T := { p.sched with switchPending := false } with ha
  have hsane : a.Sane idle := h.sane.vary
  have hsame {β : Type} (f : Sched T → β)
      (hready : ∀ (a : Sched T) c r, f { a with current := c, ready := r } = f a)
      (hmissed : ∀ (a : Sched T) y, f { a with missedYield := y } = f a) : f a.switch = f a :=
    Sched.switch_frame f hready hmissed a
  have hlocks : a.switch.locks = a.locks := hsame (·.locks) (fun _ _ _ => rfl) fun _ _ => rfl
  have htimely : a.switch.Timely := by
    intro x hx
    rw [hsame (·.delayed) (fun _ _ _ => rfl) fun _ _ => rfl] at hx
    rw [hsame (·.now) (fun _ _ _ => rfl) fun _ _ => rfl]
    exact h.timely x hx
  have hreap : .removeDeletedTask ∈ p.todo idle → a.switch.deleted ≠ [] := fun hmem => by
    rw [hsame (·.deleted) (fun _ _ _ => rfl) fun _ _ => rfl]
    exact h.reapable hmem
  by_cases hzero : a.locks = 0
  · obtain ⟨q, t, ts, hcons, hmax, heq⟩ := hsane.switch_eq hzero
    obtain ⟨hruns, -⟩ := hsane.switch_runs (n := 0) hzero
    have hfits : ∀ t, Fits (decide (t = idle)) 0 (p.todo t) := fun t => by
      by_cases ht : t = p.sched.current
      · rw [ht]
        exact (hzero : p.sched.locks = 0) ▸ h.fits
      · exact h.fitsOthers t ht
    refine ⟨hsane.switch, htimely, fun _ => ?_, ?_, fun t _ => hfits t, hreap, Or.inl hruns, ?_⟩
    · rw [heq]
      exact h.quiet hzero
    · show Fits _ a.switch.locks _
      rw [hlocks, hzero]
      exact hfits _
    · exact Or.inr (Or.inr (Or.inr (hsane.switch_runs hzero).2))
  · have heq : a.switch = { a with missedYield := true } := by rw [Sched.switch, if_pos hzero]
    rw [heq] at htimely hreap ⊢
    refine ⟨h.sane.vary, htimely, fun hz => absurd hz hzero, h.fits, h.fitsOthers, hreap, ?_,
      Or.inr (Or.inl rfl)⟩
    rcases h.stays with hruns | ⟨-, hz⟩ | hps | ⟨hz, -⟩
    · exact Or.inl hruns
    · exact absurd hz hzero
    · exact Or.inr (Or.inr (Or.inl hps))
    · exact absurd hz hzero

/-- **Every event keeps the invariant.** -/
theorem Ok.exec (h : p.Ok idle) {e : Event T} (he : p.Admits idle e) : (p.exec e).Ok idle := by
  cases e with
  | call c =>
    obtain ⟨hs, hcall, hnil, hidle⟩ := he
    have hstays := h.stays
    have hleads := h.leads
    rw [hnil] at hstays hleads
    have hself : Function.update p.todo p.sched.current c.pieces p.sched.current = c.pieces :=
      Function.update_self ..
    have hother : ∀ t ≠ p.sched.current,
        Function.update p.todo p.sched.current c.pieces t = p.todo t :=
      fun t ht => Function.update_of_ne ht _ _
    rw [Plan.exec]
    generalize Function.update p.todo p.sched.current c.pieces = todo at hself hother
    refine ⟨h.sane, h.timely, h.quiet, ?_, fun t ht => ?_, fun hmem => ?_, Or.inl ?_, ?_⟩
    · show Fits _ p.sched.locks (todo p.sched.current)
      rw [hself]
      exact fits_pieces hcall (hidle.trans decide_eq_true_iff.symm)
    · show Fits _ 0 (todo t)
      rw [hother t ht]
      exact h.fitsOthers t ht
    · have hmem : .removeDeletedTask ∈ todo idle := hmem
      by_cases hcur : idle = p.sched.current
      · rw [hcur, hself] at hmem
        exact absurd hmem (c.removeDeletedTask_notMem)
      · rw [hother idle hcur] at hmem
        exact h.reapable hmem
    · rcases hstays with hruns | ⟨hp, -⟩ | ⟨_, heq⟩ | ⟨-, _, heq⟩
      · exact hruns
      · rw [hs] at hp
        cases hp
      · simp at heq
      · simp at heq
    · rcases hleads with hp | hyield | ⟨_, heq | heq⟩ | htop
      · rw [hs] at hp
        cases hp
      · exact Or.inr (Or.inl hyield)
      · simp at heq
      · simp at heq
      · exact htop.leads _
  | piece =>
    obtain ⟨hs, i, is, htodo, ha⟩ := he
    exact h.piece htodo hs ha
  | xPortSysTickHandler =>
    refine h.interrupt h.sane.keeps_tick (Sched.Sane.tick (a := p.sched.yield) h.sane.vary) ?_
    rw [Sched.tick]
    split
    · exact Sched.Sane.advance_deleted (a := p.sched.yield) h.sane.vary
    · rfl
  | xPortPendSVHandler => exact h.switch
  | isr t =>
    exact h.interrupt (h.sane.keeps_resumeFromISR t) (h.sane.resumeFromISR t)
      (h.sane.resumeFromISR_deleted t)

end Plan

end Rtos
end Especial
