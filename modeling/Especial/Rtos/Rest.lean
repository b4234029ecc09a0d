/-
# The rest of a call

Three properties of the scheduler and of what is left of the running task's call.

* `Fits`: a piece that ends a suspension of the scheduler has one to end, a delay is followed by
  the piece that gives the processor up, and what the idle task does is its own.
* `Stays`: the running task is ready, or it is about to give the processor up and nothing can come
  before that.
* `Leads`: no ready task has a higher priority than the running one, or a switch is on its way: it
  has been asked for, it was asked for while the scheduler was suspended, or the running task is
  going to ask for it.
-/

import Especial.Rtos.Unlock

namespace Especial
namespace Rtos

/-! ### What is left of a call -/

section Fits

variable {T : Type} {i : Bool} {d : ℕ} {p : Piece T} {ps qs : List (Piece T)}

/-- The rest of a call fits to `d` suspensions of the scheduler; `i` says whether it is a round of
the idle task. -/
def Fits (i : Bool) : ℕ → List (Piece T) → Prop
  | _, [] => True
  | d, .vTaskSuspendAll :: ps => Fits i (d + 1) ps
  | d, .xTaskResumeAll :: ps => 0 < d ∧ Fits i (d - 1) ps
  | d, .xTaskResumeAllAndYield :: ps => i = false ∧ d = 1 ∧ Fits i 0 ps
  | d, .vTaskDelayBody xTicksToDelay :: ps =>
    i = false ∧ d = 1 ∧ 0 < xTicksToDelay.toNat ∧
      (∃ qs, ps = .xTaskResumeAllAndYield :: qs) ∧ Fits i d ps
  | d, .vTaskDelayUntilBody _ _ :: ps =>
    i = false ∧ d = 1 ∧ (∃ qs, ps = .xTaskResumeAllAndYield :: qs) ∧ Fits i d ps
  | d, .prvCheckTasksWaitingTermination :: ps => i = true ∧
      .removeDeletedTask ∉ ps ∧ Fits i d ps
  | d, .xListIsEmpty :: ps => i = true ∧ 0 < d ∧ .removeDeletedTask ∉ ps ∧ Fits i (d - 1) ps
  | d, .removeDeletedTask :: ps => i = true ∧ .removeDeletedTask ∉ ps ∧ Fits i d ps
  | d, .yieldIfShared :: ps => i = true ∧ Fits i d ps
  | _, .xTaskIsTaskSuspended _ :: _ | _, .readySuspendedTask _ :: _ => False
  | d, _ :: ps => i = false ∧ Fits i d ps

/-- A call fits when it is made. -/
theorem fits_pieces {a : Sched T} {c : Call T} (hc : a.AdmitsCall c)
    (hi : c = .prvIdleTask ↔ i = true) : Fits i a.locks c.pieces := by
  cases c with
  | vTaskDelay x =>
    have hlocks : a.locks = 0 := hc
    have hfalse : i = false := by simpa using hi
    rw [Call.pieces]
    split
    · rename_i hx
      exact ⟨hfalse,
        by rw [hlocks], BitVec.lt_def.1 hx, ⟨_, rfl⟩, hfalse, by rw [hlocks], trivial⟩
    · exact ⟨hfalse, trivial⟩
  | vTaskDelayUntil w x =>
    have hlocks : a.locks = 0 := hc
    have hfalse : i = false := by simpa using hi
    exact ⟨hfalse, by rw [hlocks], ⟨_, rfl⟩, hfalse, by rw [hlocks], trivial⟩
  | taskYIELD | vTaskSuspend h | vTaskResume t | vTaskPrioritySet h n | vTaskDelete h =>
    have hfalse : i = false := by simpa using hi
    exact ⟨hfalse, trivial⟩
  | xTaskGenericCreate t n =>
    have hfalse : i = false := by simpa using hi
    exact ⟨Nat.succ_pos _, Nat.succ_pos _, hfalse, trivial⟩
  | vTaskSuspendAll => exact trivial
  | xTaskResumeAll => exact ⟨hc, trivial⟩
  | pvPortMalloc => exact ⟨Nat.succ_pos _, trivial⟩
  | prvIdleTask =>
    have htrue : i = true := by simpa using hi
    exact ⟨htrue, by simp, htrue, trivial⟩

/-- No call begins with the removal of a task. -/
theorem Call.removeDeletedTask_notMem (c : Call T) : .removeDeletedTask ∉ c.pieces := by
  cases c with
  | vTaskDelay x =>
    rw [Call.pieces]
    split <;> simp
  | _ => simp [Call.pieces, Piece.pvPortMalloc, Piece.prvAllocateTCBAndStack]

end Fits

/-- Cutting a priority makes it no larger. -/
theorem Kernel.cappedPriority_le (n : ℕ) : (Kernel.cappedPriority n : ℕ) ≤ n := by
  rw [Kernel.cappedPriority]
  split
  · exact le_rfl
  · rename_i hn
    show configMAX_PRIORITIES - 1 ≤ n
    omega

/-- It keeps every priority there is. -/
theorem Kernel.le_cappedPriority {p : Priority} {n : ℕ} (h : (p : ℕ) ≤ n) :
    p ≤ Kernel.cappedPriority n := by
  have hp := p.isLt
  rw [Kernel.cappedPriority]
  split
  · exact h
  · exact Fin.le_def.2 (Nat.le_pred_of_lt hp)

/-! ### The running task -/

namespace Sched

variable {T : Type} {a b : Sched T} {t idle : T} {i : Piece T} {ps qs : List (Piece T)} {n : ℕ}

/-- The running task is ready, or it gives the processor up before anything else, with `ps` left of
its call. -/
def Stays (a : Sched T) (ps : List (Piece T)) : Prop :=
  a.Runs ∨ (a.switchPending = true ∧ a.locks = 0) ∨
    (∃ qs, ps = .xTaskResumeAllAndYield :: qs) ∨ (a.locks = 0 ∧ ∃ qs, ps = .portYIELD :: qs)

/-- The priority up to which a new task may be more important than the running one. -/
def slack : List (Piece T) → ℕ
  | .yieldAfterCreate uxPriority :: _ => uxPriority
  | _ => 0

/-- The running task is the most important one, or a switch is on its way. -/
def Leads (a : Sched T) (ps : List (Piece T)) : Prop :=
  a.switchPending = true ∨ a.missedYield = true ∨
    (∃ qs, ps = .xTaskResumeAllAndYield :: qs ∨ ps = .portYIELD :: qs) ∨ a.TopBut (slack ps)

/-- The piece neither gives the processor up nor decides about that. -/
def Plain (i : Piece T) : Prop :=
  i ≠ .xTaskResumeAllAndYield ∧ i ≠ .portYIELD ∧ ∀ n, i ≠ .yieldAfterCreate n

/-- Before a plain piece the running task is ready. -/
theorem Stays.runs (h : a.Stays (i :: ps)) (hs : a.switchPending = false) (hi : Plain i) :
    a.Runs := by
  rcases h with h | ⟨h, -⟩ | ⟨qs, h⟩ | ⟨-, qs, h⟩
  · exact h
  · rw [hs] at h
    cases h
  · exact absurd (List.cons.inj h).1 hi.1
  · exact absurd (List.cons.inj h).1 hi.2.1

/-- Before a plain piece it is the most important one, or a yield is missed. -/
theorem Leads.top (h : a.Leads (i :: ps)) (hs : a.switchPending = false) (hi : Plain i) :
    a.missedYield = true ∨ a.TopBut 0 := by
  rcases h with h | h | ⟨qs, h | h⟩ | h
  · rw [hs] at h
    cases h
  · exact Or.inl h
  · exact absurd (List.cons.inj h).1 hi.1
  · exact absurd (List.cons.inj h).1 hi.2.1
  · refine Or.inr ?_
    have hslack : slack (i :: ps) = 0 := by
      rw [slack]
      exact fun n _ heq => hi.2.2 n (List.cons.inj heq).1
    rwa [hslack] at h

/-- The most important task leads. -/
theorem TopBut.leads (h : a.TopBut 0) (ps : List (Piece T)) : a.Leads ps :=
  Or.inr (Or.inr (Or.inr (h.mono (Nat.zero_le _) le_rfl fun _ _ hu _ => hu)))

/-- It still leads after what keeps it. -/
theorem Keeps.leads (h : Keeps a b) (htop : a.missedYield = true ∨ a.TopBut 0)
    (ps : List (Piece T)) : b.Leads ps := by
  rcases htop with hyield | htop
  · exact Or.inr (Or.inl (h.missedYield.trans hyield))
  · rcases h.top 0 htop with hs | htop
    · exact Or.inl hs
    · exact htop.leads ps

/-- An interrupt keeps both. -/
theorem Keeps.stays (h : Keeps a b) (hstays : a.Stays ps) : b.Stays ps := by
  rcases hstays with hruns | ⟨hs, hlocks⟩ | hps | ⟨hlocks, hps⟩
  · exact Or.inl (h.runs hruns)
  · exact Or.inr (Or.inl ⟨h.switchPending hs, h.locks.trans hlocks⟩)
  · exact Or.inr (Or.inr (Or.inl hps))
  · exact Or.inr (Or.inr (Or.inr ⟨h.locks.trans hlocks, hps⟩))

/-- A switch that was on its way still is. -/
theorem Keeps.leads_of_leads (h : Keeps a b) (hleads : a.Leads ps) : b.Leads ps := by
  rcases hleads with hs | hyield | hps | htop
  · exact Or.inl (h.switchPending hs)
  · exact Or.inr (Or.inl (h.missedYield.trans hyield))
  · exact Or.inr (Or.inr (Or.inl hps))
  · rcases h.top _ htop with hs | htop
    · exact Or.inl hs
    · exact Or.inr (Or.inr (Or.inr htop))

end Sched

end Rtos
end Especial
