/-
# The outputs of the controller and the pending register

The output of a line should be high exactly while a pending bit of a line that
shares it is set.  A step that sets pending bits keeps this.  A step that clears
some drives their outputs low, and this is right exactly when it leaves no other
pending bit on such an output: the device does not look at the other lines of the
group.  A reset clears every pending bit and drives nothing.

So the outputs follow the pending register in every state of a run exactly when no
step of the run clears a group in part, or resets the device with an interrupt
pending (`exti_irq_iff_noPartialClear`).
-/

import Especial.Exti.Writes
import Especial.Lib.Run

namespace Especial
namespace Exti

open Qemu Stm32 Lib

/-- The OR of the pending bits of the lines on output `k`. -/
def Stm32Exti.pending (s : Stm32Exti) (k : ℕ) : Bool :=
  (List.range EXTI_LINE_COUNT).any fun i => irqOf i = some k && s.PR.getLsbD i

/-- Every output is at the level its pending bits give. -/
def IrqOk (s : Stm32Exti) : Prop := ∀ k < EXTI_IRQ_COUNT, s.level k = s.pending k

instance (s : Stm32Exti) : Decidable (IrqOk s) := by
  unfold IrqOk
  infer_instance

/-- The pending bits a write to a trigger selection register clears: those of the
lines whose selection it changes. -/
def tsrCleared (s : Stm32Exti) (r : Tsr) (v : BitVec 32) (i : ℕ) : Bool :=
  decide (i < EXTI_LINE_COUNT) && s.PR.getLsbD i && (v.getLsbD i != (s.tsr r).getLsbD i)

/-- The pending bits a write to the pending register clears. -/
def prCleared (s : Stm32Exti) (v : BitVec 32) (i : ℕ) : Bool :=
  decide (i < EXTI_LINE_COUNT) && s.PR.getLsbD i && v.getLsbD i

/-- The lines whose pending bit a register write clears. -/
def cleared (s : Stm32Exti) : Event → ℕ → Bool
  | .write 0x08 v => tsrCleared s .rising v
  | .write 0x0c v => tsrCleared s .falling v
  | .write 0x14 v => prCleared s v
  | _ => fun _ => false

/-- No output has one of its pending bits cleared and another one left, and there
is no reset while an interrupt is pending. -/
def NoPartialClear (s : Stm32Exti) (e : Event) : Prop :=
  (∀ i < EXTI_LINE_COUNT, ∀ j < EXTI_LINE_COUNT, cleared s e i = true → irqOf j = irqOf i →
    s.PR.getLsbD j = true → cleared s e j = true) ∧
  (e = .reset → ∀ k < EXTI_IRQ_COUNT, s.pending k = false)

instance (s : Stm32Exti) (e : Event) : Decidable (NoPartialClear s e) := by
  unfold NoPartialClear
  infer_instance

variable {s t : Stm32Exti}

/-- The lines and the outputs are those of the device. -/
theorem irqOf_bounds {i k : ℕ} (h : irqOf i = some k) : i < 19 ∧ k < EXTI_IRQ_COUNT := by
  unfold irqOf at h
  unfold EXTI_IRQ_COUNT
  split_ifs at h <;> · cases h; omega

/-- An output is pending when one of its lines is. -/
theorem pending_iff {k : ℕ} :
    s.pending k = true ↔ ∃ i, irqOf i = some k ∧ (s.line i).pr = true := by
  unfold Stm32Exti.pending
  rw [List.any_eq_true]
  constructor
  · rintro ⟨i, -, hi⟩
    obtain ⟨hk, hpr⟩ : irqOf i = some k ∧ s.PR.getLsbD i = true := by simpa using hi
    exact ⟨i, hk, hpr⟩
  · rintro ⟨i, hk, hpr⟩
    refine ⟨i, ?_, by simpa using ⟨hk, hpr⟩⟩
    have := (irqOf_bounds hk).1
    rw [List.mem_range, EXTI_LINE_COUNT]
    omega

/-! ### Steps that set or clear pending bits -/

/-- The pending bits of the lines `c` change to `b`, and the outputs of these lines,
and no others, are driven to `b`. -/
structure PrChange (s t : Stm32Exti) (c : ℕ → Prop) (b : Bool) : Prop where
  irq : ∀ i, c i → ∃ k, irqOf i = some k
  changed : ∀ i, c i → (t.line i).pr = b
  kept : ∀ i, ¬c i → (t.line i).pr = (s.line i).pr
  driven : ∀ k i, c i → irqOf i = some k → t.level k = b
  quiet : ∀ k, (∀ i, c i → irqOf i ≠ some k) → t.level k = s.level k

variable {c c' : ℕ → Prop} {b : Bool}

/-- The same lines, described otherwise. -/
theorem PrChange.congr (h : PrChange s t c b) (hc : ∀ i, c i ↔ c' i) : PrChange s t c' b := by
  obtain rfl : c = c' := funext fun i => propext (hc i)
  exact h

/-- An output that is not driven stays right. -/
theorem PrChange.level_eq_pending_of_quiet (h : PrChange s t c b) {k : ℕ}
    (hs : s.level k = s.pending k) (hk : ∀ i, c i → irqOf i ≠ some k) :
    t.level k = t.pending k := by
  have hpending : t.pending k = s.pending k := by
    rw [Bool.eq_iff_iff, pending_iff, pending_iff]
    refine exists_congr fun i => and_congr_right fun hi => ?_
    rw [h.kept i fun hc => hk i hc hi]
  rw [h.quiet k hk, hs, hpending]

/-- **Setting pending bits keeps the outputs right.** -/
theorem PrChange.irqOk_of_set (h : PrChange s t c true) (hs : IrqOk s) : IrqOk t := by
  intro k hk
  by_cases hc : ∃ i, c i ∧ irqOf i = some k
  · obtain ⟨i, hi, hik⟩ := hc
    rw [h.driven k i hi hik, pending_iff.2 ⟨i, hik, h.changed i hi⟩]
  · exact h.level_eq_pending_of_quiet (hs k hk) fun i hi hik => hc ⟨i, hi, hik⟩

/-- **Clearing pending bits keeps them right exactly when** no output has a pending
bit left that was not cleared. -/
theorem PrChange.irqOk_iff_of_clear (h : PrChange s t c false) (hs : IrqOk s) :
    IrqOk t ↔ ∀ i j, c i → irqOf j = irqOf i → (s.line j).pr = true → c j := by
  constructor
  · intro ht i j hi hij hj
    obtain ⟨k, hk⟩ := h.irq i hi
    by_contra hcj
    have hlow := h.driven k i hi hk
    rw [ht k (irqOf_bounds hk).2] at hlow
    have hhigh : t.pending k = true :=
      pending_iff.2 ⟨j, hij.trans hk, by rw [h.kept j hcj]; exact hj⟩
    exact absurd (hlow.symm.trans hhigh) (by decide)
  · intro hall k hk
    by_cases hc : ∃ i, c i ∧ irqOf i = some k
    · obtain ⟨i, hi, hik⟩ := hc
      rw [h.driven k i hi hik, eq_comm, Bool.eq_false_iff]
      intro hp
      obtain ⟨j, hjk, hj⟩ := pending_iff.1 hp
      -- a pending bit that is still set was not cleared, so it was set before
      have hcj : ¬c j := fun hcj => absurd ((h.changed j hcj).symm.trans hj) (by decide)
      exact hcj (hall i j hi (hjk.trans hik.symm) (by rw [← h.kept j hcj]; exact hj))
    · exact h.level_eq_pending_of_quiet (hs k hk) fun i hi hik => hc ⟨i, hi, hik⟩

/-! ### Which steps do -/

variable {f : ℕ → Line → Line} {r : ℕ → Line → Option Bool}

/-- A request drives the output of its line if it changes the pending bit. -/
theorem mem_drives {i : ℕ} {l : Line} {o : Option Bool} {d : ℕ × Bool} :
    d ∈ l.drives i o ↔ o = some d.2 ∧ l.pr ≠ d.2 ∧ irqOf i = some d.1 := by
  obtain ⟨k, b⟩ := d
  cases o with
  | none => simp [Line.drives]
  | some b' =>
    rw [Line.drives]
    split_ifs with hb
    · subst hb
      simp only [List.not_mem_nil, false_iff]
      rintro ⟨h₁, h₂, -⟩
      exact h₂ (Option.some.inj h₁)
    · cases hi : irqOf i with
      | none => simp
      | some n =>
        simp only [Option.toList_some, List.map_cons, List.map_nil, List.mem_singleton,
          Prod.mk.injEq, Option.some.injEq]
        constructor
        · rintro ⟨rfl, rfl⟩
          exact ⟨rfl, hb, rfl⟩
        · rintro ⟨rfl, -, rfl⟩
          exact ⟨rfl, rfl⟩

/-- The outputs of the changed lines are driven, all to the same level. -/
theorem prChange_of_log {log : List (ℕ × Bool)} (hlog : t.irq = s.irq ++ log)
    (hmem : ∀ d, d ∈ log ↔ ∃ i, c i ∧ irqOf i = some d.1 ∧ d.2 = b)
    (hirq : ∀ i, c i → ∃ k, irqOf i = some k) (hchanged : ∀ i, c i → (t.line i).pr = b)
    (hkept : ∀ i, ¬c i → (t.line i).pr = (s.line i).pr) : PrChange s t c b := by
  have hlevel : ∀ k, t.level k = if ∃ d ∈ log, d.1 = k then b else s.level k := by
    intro k
    unfold Stm32Exti.level
    rw [hlog]
    refine lastLevel_append_const fun d hd => ?_
    obtain ⟨i, -, -, hb⟩ := (hmem d).1 hd
    exact hb
  refine ⟨hirq, hchanged, hkept, fun k i hc hk => ?_, fun k hk => ?_⟩
  · rw [hlevel, if_pos ⟨(k, b), (hmem _).2 ⟨i, hc, hk, rfl⟩, rfl⟩]
  · rw [hlevel, if_neg]
    rintro ⟨d, hd, rfl⟩
    obtain ⟨i, hc, hik, -⟩ := (hmem d).1 hd
    exact hk i hc hik

/-- A request changes the pending bit to what it wants, if it is not so already. -/
theorem apply_pr_of_not {l : Line} {o : Option Bool} (ho : ∀ b', o = some b' → b' = b)
    (hc : ¬(o = some b ∧ l.pr ≠ b)) : (l.apply o).pr = l.pr := by
  cases o with
  | none => rfl
  | some b' =>
    obtain rfl := ho b' rfl
    by_contra hne
    exact hc ⟨rfl, Ne.symm hne⟩

/-- Requests on the lines below `n` that all want the same value. -/
theorem ActsAll.prChange {n : ℕ} (h : ActsAll f r n s t)
    (hf : ∀ i l, (f i l).pr = (l.apply (r i l)).pr)
    (hr : ∀ i l b', r i l = some b' → b' = b) :
    PrChange s t (fun i => i < n ∧ r i (s.line i) = some b ∧ (s.line i).pr ≠ b) b := by
  refine prChange_of_log h.log_eq (fun d => ?_) (fun i hc => ?_) (fun i hc => ?_) fun i hc => ?_
  · rw [List.mem_flatMap]
    constructor
    · rintro ⟨i, hi, hd⟩
      obtain ⟨h₁, h₂, h₃⟩ := mem_drives.1 hd
      have hb := hr i _ _ h₁
      rw [hb] at h₁ h₂
      exact ⟨i, ⟨List.mem_range.1 hi, h₁, h₂⟩, h₃, hb⟩
    · rintro ⟨i, ⟨hi, h₁, h₂⟩, h₃, hb⟩
      exact ⟨i, List.mem_range.2 hi, mem_drives.2 (by rw [hb]; exact ⟨h₁, h₂, h₃⟩)⟩
  · exact Option.isSome_iff_exists.1 (h.cond i (List.mem_range.2 hc.1) b hc.2.1 hc.2.2)
  · rw [h.view_eq, if_pos (List.mem_range.2 hc.1), hf, hc.2.1]
    rfl
  · rw [h.view_eq]
    split_ifs with hi
    · rw [hf]
      exact apply_pr_of_not (hr i _) fun h => hc ⟨List.mem_range.1 hi, h⟩
    · rfl

/-- A request on one line. -/
theorem Acts.prChange {i : ℕ} (h : Acts f r i s t)
    (hf : ∀ i l, (f i l).pr = (l.apply (r i l)).pr)
    (hr : ∀ i l b', r i l = some b' → b' = b) :
    PrChange s t (fun j => j = i ∧ r i (s.line i) = some b ∧ (s.line i).pr ≠ b) b := by
  refine prChange_of_log h.log_eq (fun d => ?_) ?_ ?_ fun j hc => ?_
  · rw [mem_drives]
    constructor
    · rintro ⟨h₁, h₂, h₃⟩
      have hb := hr i _ _ h₁
      rw [hb] at h₁ h₂
      exact ⟨i, ⟨rfl, h₁, h₂⟩, h₃, hb⟩
    · rintro ⟨j, ⟨rfl, h₁, h₂⟩, h₃, hb⟩
      rw [hb]
      exact ⟨h₁, h₂, h₃⟩
  · rintro j ⟨rfl, h₁, h₂⟩
    exact Option.isSome_iff_exists.1 (h.cond b h₁ h₂)
  · rintro j ⟨rfl, h₁, -⟩
    rw [h.view_eq, if_pos rfl, hf, h₁]
    rfl
  · rw [h.view_eq]
    split_ifs with hj
    · subst hj
      rw [hf]
      exact apply_pr_of_not (hr j _) fun h => hc ⟨rfl, h⟩
    · rfl

/-- What clears nothing leaves no partly cleared output. -/
theorem noPartialClear_of_not_cleared {e : Event} (he : e ≠ .reset)
    (h : ∀ i, cleared s e i = false) : NoPartialClear s e :=
  ⟨fun i _ _ _ hi => absurd ((h i).symm.trans hi) (by decide), fun hr => absurd hr he⟩

/-- A write that clears pending bits. -/
theorem PrChange.irqOk_iff_noPartialClear {e : Event} (he : e ≠ .reset)
    (h : PrChange s t (fun i => cleared s e i = true) false) (hs : IrqOk s) :
    IrqOk t ↔ NoPartialClear s e := by
  rw [h.irqOk_iff_of_clear hs]
  constructor
  · intro hall
    exact ⟨fun i _ j _ hi hij hj => hall i j hi hij hj, fun hr => absurd hr he⟩
  · rintro ⟨hall, -⟩ i j hi hij hj
    obtain ⟨k, hk⟩ := h.irq i hi
    have hi' := (irqOf_bounds hk).1
    have hj' := (irqOf_bounds (hij.trans hk)).1
    exact hall i (by unfold EXTI_LINE_COUNT; omega) j (by unfold EXTI_LINE_COUNT; omega) hi hij hj

/-- The pending bits that a write to a trigger selection register clears. -/
theorem updateTSR_prChange {q : Tsr} {v : BitVec 32} (h : forLines v (updateTSRBit q) s = .ok t) :
    PrChange s t (fun i => i < 20 ∧ (s.line i).tsrRequest q (v.getLsbD i) = some false ∧
      (s.line i).pr ≠ false) false :=
  (forLines_acts (updateTSRBit_handles q v) h).prChange (fun i l => by cases q <;> rfl)
    fun _ _ _ => Line.eq_of_tsrRequest

/-- The pending bits that a write to the pending register clears. -/
theorem writePR_prChange {v : BitVec 32} (h : forLines v writePRBit s = .ok t) :
    PrChange s t (fun i => i < 20 ∧ (s.line i).prRequest (v.getLsbD i) = some false ∧
      (s.line i).pr ≠ false) false :=
  (forLines_acts (writePRBit_handles v) h).prChange (fun _ _ => rfl) fun _ _ _ =>
    Line.eq_of_prRequest

/-- The pending bits that a write to the software interrupt register sets. -/
theorem writeSWIER_prChange {v : BitVec 32} (h : forLines v writeSWIERBit s = .ok t) :
    PrChange s t (fun i => i < 20 ∧ (s.line i).swierRequest (v.getLsbD i) = some true ∧
      (s.line i).pr ≠ true) true := by
  refine (forLines_acts (writeSWIERBit_handles v) h).prChange (fun i l => ?_)
    fun _ _ _ => Line.eq_of_swierRequest
  cases l.swierRequest (v.getLsbD i) <;> rfl

/-- The lines that a write of a trigger selection register clears, as the requests have it. -/
theorem tsrCleared_iff (s : Stm32Exti) (q : Tsr) (v : BitVec 32) (i : ℕ) :
    i < 20 ∧ (s.line i).tsrRequest q (v.getLsbD i) = some false ∧ (s.line i).pr ≠ false ↔
      tsrCleared s q v i = true := by
  rw [Line.tsrRequest_eq_some, tsrCleared, Bool.and_eq_true, Bool.and_eq_true, decide_eq_true_iff,
    bne_iff_ne, and_assoc, and_comm (a := s.PR.getLsbD i = true), Bool.ne_false_iff, line_tsr]
  rfl

/-- The lines that a write of the pending register clears, as the requests have it. -/
theorem prCleared_iff (s : Stm32Exti) (v : BitVec 32) (i : ℕ) :
    i < 20 ∧ (s.line i).prRequest (v.getLsbD i) = some false ∧ (s.line i).pr ≠ false ↔
      prCleared s v i = true := by
  rw [Line.prRequest_eq_some, prCleared, Bool.and_eq_true, Bool.and_eq_true, decide_eq_true_iff,
    and_assoc, and_comm (a := s.PR.getLsbD i = true), Bool.ne_false_iff]
  rfl

/-- **One step.**  A step from a state with the right outputs ends in one exactly
when it clears no group in part. -/
theorem step_irqOk_iff {e : Event} (hs : IrqOk s) (h : step s e = .ok t) :
    IrqOk t ↔ NoPartialClear s e := by
  cases e with
  | reset =>
    rw [step, pure_eq_ok] at h
    subst h
    have hpending : ∀ k, (reset s).pending k = false := by
      intro k
      rw [Bool.eq_false_iff]
      intro hp
      obtain ⟨i, -, hi⟩ := pending_iff.1 hp
      simp [reset, Stm32Exti.line] at hi
    constructor
    · intro ht
      refine ⟨fun i _ _ _ hi => absurd hi (by simp [cleared]), fun _ k hk => ?_⟩
      rw [← hs k hk, ← hpending k]
      exact ht k hk
    · rintro ⟨-, hr⟩ k hk
      rw [hpending k, ← hr rfl k hk]
      exact hs k hk
  | gpioIn pin level =>
    obtain ⟨-, hacts⟩ := gpioInHandler_acts h
    have hset := hacts.prChange (fun _ _ => rfl) fun _ _ _ => Line.eq_of_edgeRequest
    exact iff_of_true (hset.irqOk_of_set hs) (noPartialClear_of_not_cleared (by simp) fun _ => rfl)
  | write offset v =>
    unfold step write at h
    dsimp only at h
    split at h
    · obtain rfl := pure_eq_ok.1 h
      exact iff_of_true (fun k hk => hs k hk) (noPartialClear_of_not_cleared (by simp) fun _ => rfl)
    · obtain rfl := pure_eq_ok.1 h
      exact iff_of_true hs (noPartialClear_of_not_cleared (by simp) fun _ => rfl)
    · have hc := (updateTSR_prChange h).congr (tsrCleared_iff s .rising v)
      exact hc.irqOk_iff_noPartialClear (by simp) hs
    · have hc := (updateTSR_prChange h).congr (tsrCleared_iff s .falling v)
      exact hc.irqOk_iff_noPartialClear (by simp) hs
    · exact iff_of_true ((writeSWIER_prChange h).irqOk_of_set hs)
        (noPartialClear_of_not_cleared (by simp) fun _ => rfl)
    · have hc := (writePR_prChange h).congr (prCleared_iff s v)
      exact hc.irqOk_iff_noPartialClear (by simp) hs
    · exact absurd h throw_ne_ok

/-! ### Runs -/

/-- A step has one outcome. -/
theorem step_det {e : Event} {t' : Stm32Exti} (h : Step s e t) (h' : Step s e t') : t = t' := by
  unfold Step at h h'
  rw [h] at h'
  exact Except.ok.inj h'

/-- After the first reset no output is pending, and none is driven. -/
theorem irqOk_init : IrqOk .init := by decide

/-- **The outputs follow the pending register exactly in the runs that clear no
group in part.**  In a run from the first reset, the level last driven on each of
the ten outputs is the OR of its pending bits in every state, if and only if no step
of the run clears some but not all pending bits of an output, or resets the device
while an interrupt is pending. -/
theorem exti_irq_iff_noPartialClear (l : List Event) (t : Stm32Exti)
    (h : Run Step .init l t) :
    (∀ l₁ u, l₁ <+: l → Run Step .init l₁ u → IrqOk u) ↔
      Run (Guarded Step NoPartialClear) .init l t :=
  Run.forall_prefix_iff (J := fun _ => True) (fun _ _ _ _ => step_det) (fun _ _ _ _ _ => trivial)
    (fun _ _ _ _ hs hst => step_irqOk_iff hs hst) h trivial irqOk_init

/-- Two lines of one group become pending and are acknowledged together. -/
theorem exti_irq_both_cleared :
    ∃ t, Run (Guarded Step NoPartialClear) .init
      [.write 0x00 0x60, .write 0x08 0x60, .gpioIn 5 true, .gpioIn 6 true, .write 0x14 0x60] t ∧
      IrqOk t := by
  have hall : ∃ t, Run (Guarded Step NoPartialClear) .init
      [.write 0x00 0x60, .write 0x08 0x60, .gpioIn 5 true, .gpioIn 6 true, .write 0x14 0x60] t :=
    ⟨_, .cons (t := ⟨0x60, 0, 0, 0, 0, []⟩) ⟨by rfl, by decide⟩
      (.cons (t := ⟨0x60, 0x60, 0, 0, 0, []⟩) ⟨by rfl, by decide⟩
      (.cons (t := ⟨0x60, 0x60, 0, 0, 0x20, [(5, true)]⟩) ⟨by rfl, by decide⟩
      (.cons (t := ⟨0x60, 0x60, 0, 0, 0x60, [(5, true), (5, true)]⟩) ⟨by rfl, by decide⟩
      (.cons (t := ⟨0x60, 0x60, 0, 0, 0, [(5, true), (5, true), (5, false), (5, false)]⟩)
        ⟨by rfl, by decide⟩ (.nil _)))))⟩
  obtain ⟨t, ht⟩ := hall
  have hrun := ht.mono fun _ _ _ h => h.1
  exact ⟨t, ht, (exti_irq_iff_noPartialClear _ _ hrun).2 ht _ _ List.prefix_rfl hrun⟩

/-- Two lines of one group become pending and one is acknowledged: its output goes
low with the other one still pending. -/
theorem exti_irq_one_cleared :
    ¬∀ (l : List Event) (t : Stm32Exti), Run Step .init l t → IrqOk t := by
  intro hall
  have hrun : Run Step .init
      [.write 0x00 0x60, .write 0x08 0x60, .gpioIn 5 true, .gpioIn 6 true, .write 0x14 0x20]
      ⟨0x60, 0x60, 0, 0, 0x40, [(5, true), (5, true), (5, false)]⟩ :=
    Run.ok_iff_foldlM.2 rfl
  exact absurd (hall _ _ hrun) (by decide)

end Exti
end Especial
