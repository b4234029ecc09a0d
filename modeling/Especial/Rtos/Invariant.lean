/-
# The invariant

The system of `Especial.Rtos.System` with the scheduler in place of the kernel, and what is true of
it in every run (`Ok`).  `Ok.next` is the step of a piece in general: the running task has done it,
and what is left to show is about the scheduler and the rest of the call.  `Next` is the state
before a piece; the pieces are in `Especial.Rtos.Pieces` and the events in `Especial.Rtos.Events`.
-/

import Especial.Rtos.Rest

namespace Especial
namespace Rtos

/-- The scheduler, and what is left of the call that each task is in. -/
structure Plan (T : Type) where
  sched : Sched T
  todo : T → List (Piece T)

namespace Plan

variable {T : Type} [DecidableEq T] {p : Plan T} {idle : T} {i : Piece T} {is qs : List (Piece T)}
  {b : Sched T}

/-- The running task does the next piece. -/
def execPiece (p : Plan T) : Plan T :=
  match p.todo p.sched.current with
  | [] => p
  | i :: is =>
    { sched := (p.sched.perform i).1
      todo :=
      Function.update (System.start p.todo i) p.sched.current ((p.sched.perform i).2 ++ is) }

/-- An event, if critical sections are protected. -/
def exec (p : Plan T) : Event T → Plan T
  | .call c => { p with todo := Function.update p.todo p.sched.current c.pieces }
  | .piece => p.execPiece
  | .xPortSysTickHandler => { p with sched := p.sched.yield.tick }
  | .xPortPendSVHandler => { p with sched := { p.sched with switchPending := false }.switch }
  | .isr t => { p with sched := p.sched.resumeFromISR t }

/-- The event can happen. -/
def Admits (p : Plan T) (idle : T) : Event T → Prop
  | .call c => p.sched.switchPending = false ∧ p.sched.AdmitsCall c ∧
      p.todo p.sched.current = [] ∧ (c = .prvIdleTask ↔ p.sched.current = idle)
  | .piece => p.sched.switchPending = false ∧
      ∃ i is, p.todo p.sched.current = i :: is ∧ p.sched.AdmitsPiece idle i
  | .xPortSysTickHandler => p.sched.locks ≠ 0 → p.sched.missedTicks + 1 < 2 ^ 32
  | .xPortPendSVHandler => p.sched.switchPending = true
  | .isr t => p.sched.Live t

/-- What is true in every run. -/
structure Ok (idle : T) (p : Plan T) : Prop where
  sane : p.sched.Sane idle
  timely : p.sched.Timely
  quiet : p.sched.Quiet
  fits : Fits (decide (p.sched.current = idle)) p.sched.locks (p.todo p.sched.current)
  fitsOthers : ∀ t ≠ p.sched.current, Fits (decide (t = idle)) 0 (p.todo t)
  reapable : .removeDeletedTask ∈ p.todo idle → p.sched.deleted ≠ []
  stays : p.sched.Stays (p.todo p.sched.current)
  leads : p.sched.Leads (p.todo p.sched.current)

/-- A task that is created has nothing to do yet; for the others nothing changes. -/
theorem start_cases (todo : T → List (Piece T)) (i : Piece T) (t : T) :
    System.start todo i t = [] ∨ System.start todo i t = todo t := by
  cases i with
  | xTaskGenericCreate u n =>
    by_cases heq : t = u
    · subst heq
      exact Or.inl (Function.update_self ..)
    · exact Or.inr (Function.update_of_ne heq _ _)
  | _ => exact Or.inr rfl

/-- The running task has done a piece. -/
theorem Ok.next (h : p.Ok idle) (htodo : p.todo p.sched.current = i :: is)
    (hperform : p.sched.perform i = (b, qs)) (hcurrent : b.current = p.sched.current)
    (hsane : b.Sane idle) (htimely : b.Timely) (hquiet : b.Quiet)
    (hfits : Fits (decide (p.sched.current = idle)) b.locks (qs ++ is))
    (hreap : p.sched.current = idle → .removeDeletedTask ∈ qs ++ is → b.deleted ≠ [])
    (hdeleted : p.sched.current ≠ idle → p.sched.deleted ≠ [] → b.deleted ≠ [])
    (hstays : b.Stays (qs ++ is)) (hleads : b.Leads (qs ++ is)) : p.execPiece.Ok idle := by
  rw [execPiece, htodo]
  simp only [hperform]
  have hself : Function.update (System.start p.todo i) p.sched.current (qs ++ is) p.sched.current
    = qs ++ is := Function.update_self ..
  have hothers : ∀ t ≠ p.sched.current,
      Function.update (System.start p.todo i) p.sched.current (qs ++ is) t = [] ∨
        Function.update (System.start p.todo i) p.sched.current (qs ++ is) t = p.todo t := by
    intro t ht
    rw [Function.update_of_ne ht]
    exact start_cases p.todo i t
  generalize Function.update (System.start p.todo i) p.sched.current (qs ++ is) =
    todo at hself hothers
  refine ⟨hsane, htimely, hquiet, ?_, fun t ht => ?_, fun hmem => ?_, ?_, ?_⟩
  · show Fits (decide (b.current = idle)) b.locks (todo b.current)
    rw [hcurrent, hself]
    exact hfits
  · have ht : t ≠ p.sched.current := hcurrent ▸ ht
    show Fits _ 0 (todo t)
    rcases hothers t ht with heq | heq <;> rw [heq]
    · exact trivial
    · exact h.fitsOthers t ht
  · have hmem : .removeDeletedTask ∈ todo idle := hmem
    by_cases hidle : p.sched.current = idle
    · rw [← hidle, hself] at hmem
      exact hreap hidle hmem
    · rcases hothers idle (Ne.symm hidle) with heq | heq <;> rw [heq] at hmem
      · exact absurd hmem List.not_mem_nil
      · exact hdeleted hidle (h.reapable hmem)
  · show b.Stays (todo b.current)
    rw [hcurrent, hself]
    exact hstays
  · show b.Leads (todo b.current)
    rw [hcurrent, hself]
    exact hleads

/-- The same for a piece that leaves the running task where it is. -/
theorem Ok.next_of_keeps (h : p.Ok idle) (htodo : p.todo p.sched.current = i :: is)
    (hs : p.sched.switchPending = false) (hperform : p.sched.perform i = (b, qs))
    (hk : p.sched.Keeps b) (hsane : b.Sane idle) (hi : Sched.Plain i)
    (hfits : Fits (decide (p.sched.current = idle)) p.sched.locks (qs ++ is))
    (hreap : p.sched.current = idle → .removeDeletedTask ∈ qs ++ is → b.deleted ≠ [])
    (hdeleted : p.sched.current ≠ idle → p.sched.deleted ≠ [] → b.deleted ≠ []) :
    p.execPiece.Ok idle := by
  have hstays := h.stays
  have hleads := h.leads
  rw [htodo] at hstays hleads
  have hruns := hstays.runs hs hi
  exact h.next htodo hperform hk.current hsane (hk.timely h.timely) (hk.quiet h.quiet)
    (hk.locks ▸ hfits) hreap hdeleted (Or.inl (hk.runs hruns)) (hk.leads (hleads.top hs hi) _)

/-- The running task is about to do the piece `i`. -/
structure Next (idle : T) (p : Plan T) (i : Piece T) (is : List (Piece T)) : Prop where
  ok : p.Ok idle
  todo : p.todo p.sched.current = i :: is
  switchPending : p.sched.switchPending = false

namespace Next

/-- The rest of the call fits to the suspensions. -/
theorem fits (h : Next idle p i is) :
    Fits (decide (p.sched.current = idle)) p.sched.locks (i :: is) := h.todo ▸ h.ok.fits

/-- The running task stays ready until it gives the processor up. -/
theorem stays (h : Next idle p i is) : p.sched.Stays (i :: is) := h.todo ▸ h.ok.stays

/-- The running task leads, or a switch is on its way. -/
theorem leads (h : Next idle p i is) : p.sched.Leads (i :: is) := h.todo ▸ h.ok.leads

/-- The running task is ready. -/
theorem runs (h : Next idle p i is) (hi : Sched.Plain i) : p.sched.Runs :=
  h.stays.runs h.switchPending hi

/-- It is the most important one, or a yield is missed. -/
theorem top (h : Next idle p i is) (hi : Sched.Plain i) :
    p.sched.missedYield = true ∨ p.sched.TopBut 0 := h.leads.top h.switchPending hi

/-- The idle task is about to remove a task that was deleted. -/
theorem reapable (h : Next idle p i is) (hidle : p.sched.current = idle)
    (hmem : .removeDeletedTask ∈ is) : p.sched.deleted ≠ [] := by
  refine h.ok.reapable ?_
  rw [← hidle, h.todo]
  exact List.mem_cons_of_mem _ hmem

end Next

end Plan

end Rtos
end Especial
