/-
# Writes to the EXTI registers

A write acts on all lines at once (`forLines_acts`): what line `i` is afterwards is
a function of what it was and of bit `i` of the value, and the calls on the outputs
come in the order of the lines.  It faults only if it changes a pending bit of a
line without an output (`write_returns`).
-/

import Especial.Exti.Lines

namespace Especial
namespace Exti

open Qemu Stm32 Lib

/-- All lines at once. -/
abbrev ActsAll (f : ℕ → Line → Line) (r : ℕ → Line → Option Bool) (n : ℕ)
    (s t : Stm32Exti) : Prop :=
  ActsOn Stm32Exti.line Stm32Exti.irq f (fun i l => l.drives i (r i l))
    (fun i l => l.Allowed i (r i l)) (List.range n) s t

variable {s t : Stm32Exti} {i : ℕ} {b : Bool} {f : ℕ → Line → Line}
    {r : ℕ → Line → Option Bool}

/-- A loop body that makes the request `r` of each line and otherwise does `f` to it,
and returns if the request is allowed. -/
structure Handles (value : BitVec 32) (body : Stm32Exti → ℕ → Bool → Except Fault Stm32Exti)
    (f : ℕ → Line → Line) (r : ℕ → Line → Option Bool) : Prop where
  acts : ∀ i < 20, ∀ s t, body s i (value.getLsbD i) = .ok t → Acts f r i s t
  returns : ∀ i < 20, ∀ s : Stm32Exti, (s.line i).Allowed i (r i (s.line i)) →
    ∃ t, body s i (value.getLsbD i) = .ok t

variable {value : BitVec 32} {body : Stm32Exti → ℕ → Bool → Except Fault Stm32Exti}

/-- The loop over the lines. -/
theorem forLines_acts (hbody : Handles value body f r) (h : forLines value body s = .ok t) :
    ActsAll f r 20 s t :=
  actsOn_of_foldlM List.nodup_range (fun i hi => hbody.acts i (List.mem_range.1 hi)) h

/-- The loop returns if the requests of all lines are allowed. -/
theorem forLines_returns (hbody : Handles value body f r)
    (hr : ∀ i < 20, (s.line i).Allowed i (r i (s.line i))) :
    ∃ t, forLines value body s = .ok t :=
  exists_foldlM_of_cond List.nodup_range (fun i hi => hbody.acts i (List.mem_range.1 hi))
    (fun i hi => hbody.returns i (List.mem_range.1 hi)) fun i hi => hr i (List.mem_range.1 hi)

/-- `update_TSR_bit` returns if its request is allowed. -/
theorem updateTSRBit_returns {q : Tsr} (hi : i < 20)
    (h : (s.line i).Allowed i ((s.line i).tsrRequest q b)) :
    ∃ t, updateTSRBit q s i b = .ok t := by
  have hassert : assert (i < EXTI_LINE_COUNT) "pos < EXTI_LINE_COUNT" = .ok () :=
    assert_eq_ok.2 (decide_eq_true hi)
  unfold updateTSRBit
  rw [hassert, ok_bind, line_tsr]
  unfold Line.tsrRequest at h
  split_ifs at h ⊢
  · obtain ⟨u, hu⟩ := changePRBit_returns hi h
    rw [hu]
    exact ⟨_, rfl⟩
  · exact ⟨_, rfl⟩

/-- A bit of `SWIER`, likewise. -/
theorem writeSWIERBit_returns (hi : i < 20) (h : (s.line i).Allowed i ((s.line i).swierRequest b)) :
    ∃ t, writeSWIERBit s i b = .ok t := by
  unfold writeSWIERBit
  split_ifs with hc
  · refine trigger_returns hi fun b' hb' hne => h b' ?_ hne
    have hsw : (s.line i).swier = false :=
      Bool.eq_false_iff.2 fun hset => absurd hc.2 ((and_bit_ne_zero s.SWIER i).2 hset)
    rw [Line.swierRequest, hc.1, hsw]
    exact hb'
  · exact ⟨s, rfl⟩

/-- A bit of `PR`, likewise. -/
theorem writePRBit_returns (hi : i < 20) (h : (s.line i).Allowed i ((s.line i).prRequest b)) :
    ∃ t, writePRBit s i b = .ok t := by
  unfold writePRBit
  unfold Line.prRequest at h
  split_ifs at h ⊢
  · exact changePRBit_returns hi h
  · exact ⟨s, rfl⟩

/-- The body for a trigger selection register. -/
theorem updateTSRBit_handles (q : Tsr) (v : BitVec 32) : Handles v (updateTSRBit q)
    (fun i l => (l.apply (l.tsrRequest q (v.getLsbD i))).setTsr (v.getLsbD i) q)
    (fun i l => l.tsrRequest q (v.getLsbD i)) :=
  ⟨fun _ _ _ _ h => (updateTSRBit_acts h).congr rfl rfl, fun _ hi _ => updateTSRBit_returns hi⟩

/-- The body for the software interrupt register. -/
theorem writeSWIERBit_handles (v : BitVec 32) : Handles v writeSWIERBit
    (fun i l => { l with swier := l.swier || v.getLsbD i }.apply (l.swierRequest (v.getLsbD i)))
    (fun i l => l.swierRequest (v.getLsbD i)) :=
  ⟨fun _ hi _ _ h => (writeSWIERBit_acts hi h).congr rfl rfl,
    fun _ hi _ => writeSWIERBit_returns hi⟩

/-- The body for the pending register. -/
theorem writePRBit_handles (v : BitVec 32) : Handles v writePRBit
    (fun i l => l.apply (l.prRequest (v.getLsbD i))) (fun i l => l.prRequest (v.getLsbD i)) :=
  ⟨fun _ _ _ _ h => (writePRBit_acts h).congr rfl rfl, fun _ hi _ => writePRBit_returns hi⟩

/-- What the loop does to a line. -/
theorem ActsAll.line_eq (h : ActsAll f r 20 s t) (j : ℕ) :
    t.line j = if j < 20 then f j (s.line j) else s.line j := by
  rw [h.view_eq j]
  simp only [List.mem_range]

/-- Line `i` after a write of a register whose bit `i` is `b`. -/
def Line.write (i : ℕ) (l : Line) (offset : ℕ) (b : Bool) : Line :=
  match offset with
  | 0x00 => { l with imr := b }
  | 0x08 => if i < 20 then (l.apply (l.tsrRequest .rising b)).setTsr b .rising else l
  | 0x0c => if i < 20 then (l.apply (l.tsrRequest .falling b)).setTsr b .falling else l
  | 0x10 => if i < 20 then { l with swier := l.swier || b }.apply (l.swierRequest b) else l
  | 0x14 => if i < 20 then l.apply (l.prRequest b) else l
  | _ => l

/-- **A write of a register** acts on every line by itself. -/
theorem write_line {offset : ℕ} (h : write s offset value = .ok t) (j : ℕ) :
    t.line j = (s.line j).write j offset (value.getLsbD j) := by
  unfold Exti.write at h
  split at h
  · rw [← pure_eq_ok.1 h]
    rfl
  · rw [← pure_eq_ok.1 h]
    rfl
  · exact (forLines_acts (updateTSRBit_handles .rising value) h).line_eq j
  · exact (forLines_acts (updateTSRBit_handles .falling value) h).line_eq j
  · exact (forLines_acts (writeSWIERBit_handles value) h).line_eq j
  · exact (forLines_acts (writePRBit_handles value) h).line_eq j
  · exact absurd h throw_ne_ok

/-- The request that a write of a register makes of a line. -/
def Line.request (l : Line) (offset : ℕ) (b : Bool) : Option Bool :=
  match offset with
  | 0x08 => l.tsrRequest .rising b
  | 0x0c => l.tsrRequest .falling b
  | 0x10 => l.swierRequest b
  | 0x14 => l.prRequest b
  | _ => none

/-- A write that returns makes only requests that are allowed. -/
theorem write_allowed {offset : ℕ} (h : write s offset value = .ok t) (hi : i < 20) :
    (s.line i).Allowed i ((s.line i).request offset (value.getLsbD i)) := by
  unfold Exti.write at h
  split at h
  · exact fun _ hb => absurd hb (Option.some_ne_none _).symm
  · exact fun _ hb => absurd hb (Option.some_ne_none _).symm
  · exact (forLines_acts (updateTSRBit_handles .rising value) h).cond i (List.mem_range.2 hi)
  · exact (forLines_acts (updateTSRBit_handles .falling value) h).cond i (List.mem_range.2 hi)
  · exact (forLines_acts (writeSWIERBit_handles value) h).cond i (List.mem_range.2 hi)
  · exact (forLines_acts (writePRBit_handles value) h).cond i (List.mem_range.2 hi)
  · exact absurd h throw_ne_ok

/-- The pending bit after a write is what the request makes of it. -/
theorem Line.write_pr (l : Line) (hi : i < 20) (offset : ℕ) (b : Bool) :
    (l.write i offset b).pr = (l.apply (l.request offset b)).pr := by
  unfold Line.write
  split
  · rfl
  · rw [if_pos hi]
    rfl
  · rw [if_pos hi]
    rfl
  · rw [if_pos hi, Line.request]
    cases l.swierRequest b <;> rfl
  · rw [if_pos hi]
    rfl
  · next h₀ h₁ h₂ h₃ h₄ =>
    rw [Line.request.eq_5 l offset b h₁ h₂ h₃ h₄]
    rfl

/-- Only the mask register changes a mask. -/
theorem Line.write_imr (i : ℕ) (l : Line) {offset : ℕ} (ho : offset ≠ 0x00) (b : Bool) :
    (l.write i offset b).imr = l.imr := by
  have happly : ∀ (l : Line) (r : Option Bool), (l.apply r).imr = l.imr := fun _ r => by
    cases r <;> rfl
  unfold Line.write
  split
  · exact absurd rfl ho
  · split_ifs
    · exact happly _ _
    · rfl
  · split_ifs
    · exact happly _ _
    · rfl
  · split_ifs
    · exact happly _ _
    · rfl
  · split_ifs
    · exact happly _ _
    · rfl
  · rfl

/-- Only a software event sets a pending bit. -/
theorem Line.pr_of_write {l : Line} {offset : ℕ} (ho : offset ≠ 0x10) {b : Bool} (hi : i < 20)
    (h : (l.write i offset b).pr = true) : l.pr = true := by
  have hclear : ∀ {r : Option Bool}, r ≠ some true → (l.apply r).pr = true → l.pr = true :=
    fun {r} hr h => by
      rcases r with _ | _ | _
      · exact h
      · cases h
      · exact absurd rfl hr
  rw [Line.write_pr l hi] at h
  refine hclear ?_ h
  unfold Line.request Line.tsrRequest Line.prRequest
  split
  · split_ifs <;> nofun
  · split_ifs <;> nofun
  · exact absurd rfl ho
  · split_ifs <;> nofun
  · nofun

/-- **It returns** if all its requests are allowed. -/
theorem write_returns {offset : ℕ} (ho : offset ∈ [0x00, 0x04, 0x08, 0x0c, 0x10, 0x14])
    (h : ∀ i < 20, (s.line i).Allowed i ((s.line i).request offset (value.getLsbD i))) :
    ∃ t, write s offset value = .ok t := by
  simp only [List.mem_cons, List.not_mem_nil, or_false] at ho
  rcases ho with rfl | rfl | rfl | rfl | rfl | rfl
  · exact ⟨_, rfl⟩
  · exact ⟨_, rfl⟩
  · exact forLines_returns (updateTSRBit_handles .rising value) h
  · exact forLines_returns (updateTSRBit_handles .falling value) h
  · exact forLines_returns (writeSWIERBit_handles value) h
  · exact forLines_returns (writePRBit_handles value) h

end Exti
end Especial
