/-
# Software events

A write to `SWIER` that sets a new bit is a software event on its line.  Two things go
wrong with them.

Line 19 has bits in the registers but no output, so a software event on it, when it is
unmasked, runs into the `assert(false)` of `stm32_exti_change_EXTI_PR_bit`; nothing
else does (`exti_returns_iff`).

A software event on a masked line sets its `SWIER` bit without its pending bit.  A `1`
written to the pending register then clears neither, since it acts only where a
pending bit changes, and the line takes no further software event.  As long as there
is no such event, every set `SWIER` bit has its pending bit (`exti_rearmable_iff`).
-/

import Especial.Exti.Pending

namespace Especial
namespace Exti

open Qemu Stm32 Lib

variable {s t : Stm32Exti} {i : ℕ}

/-! ### Line 19 -/

/-- The offsets of the six registers. -/
def offsets : List ℕ := [0x00, 0x04, 0x08, 0x0c, 0x10, 0x14]

/-- A read of a register, or something that can change the device. -/
inductive Access
  | read (offset : ℕ)
  | event (e : Event)
  deriving DecidableEq, Repr

/-- What an access does. -/
def access (s : Stm32Exti) : Access → Except Fault Stm32Exti
  | .read offset => do
    let _ ← read s offset
    return s
  | .event e => step s e

/-- The register exists, and the pin. -/
def Access.Legal : Access → Prop
  | .read offset | .event (.write offset _) => offset ∈ offsets
  | .event (.gpioIn pin _) => pin < GPIO_PIN_COUNT
  | .event .reset => True

instance (a : Access) : Decidable a.Legal :=
  match a with
  | .read offset | .event (.write offset _) => inferInstanceAs (Decidable (offset ∈ offsets))
  | .event (.gpioIn pin _) => inferInstanceAs (Decidable (pin < GPIO_PIN_COUNT))
  | .event .reset => isTrue trivial

/-- A software event on line 19, which is unmasked. -/
def TriggersLine19 (s : Stm32Exti) (a : Access) : Prop :=
  ∃ v, a = .event (.write 0x10 v) ∧ v.getLsbD 19 = true ∧ s.IMR.getLsbD 19 = true ∧
    s.SWIER.getLsbD 19 = false

/-- Only a request to set the pending bit of line 19 is not allowed. -/
theorem forall_allowed_iff {r : ℕ → Option Bool} (hs : (s.line 19).pr = false) :
    (∀ i < 20, (s.line i).Allowed i (r i)) ↔ r 19 ≠ some true := by
  constructor
  · intro h hr
    have hsome := h 19 (by decide) true hr (by rw [hs]; decide)
    exact absurd hsome (by decide)
  · intro hr i hi
    rcases Nat.lt_or_ge i 19 with hlt | hge
    · exact Line.allowed_of_lt hlt _ _
    · obtain rfl : i = 19 := by omega
      intro b hb hne
      cases b with
      | false => exact absurd hs hne
      | true => exact absurd hb hr

/-- A software event asks for the pending bit of an unmasked line, the first time. -/
theorem swierRequest_eq_some {b : Bool} {l : Line} :
    l.swierRequest b = some true ↔ b = true ∧ l.imr = true ∧ l.swier = false := by
  unfold Line.swierRequest
  cases b <;> cases l.swier <;> cases l.imr <;> decide

/-- A write of a register returns unless it is a software event on line 19. -/
theorem write_returns_iff (hs : (s.line 19).pr = false) {offset : ℕ} (ho : offset ∈ offsets)
    (v : BitVec 32) : (∃ t, write s offset v = .ok t) ↔
      ¬TriggersLine19 s (.event (.write offset v)) := by
  have hallowed : (∃ t, write s offset v = .ok t) ↔
      (s.line 19).request offset (v.getLsbD 19) ≠ some true := by
    rw [← forall_allowed_iff (r := fun i => (s.line i).request offset (v.getLsbD i)) hs]
    exact ⟨fun ⟨_, h⟩ _ hi => write_allowed h hi, fun h => write_returns ho h⟩
  rw [hallowed, not_iff_not]
  constructor
  · intro hreq
    unfold Line.request at hreq
    split at hreq
    · exact absurd (Line.eq_of_tsrRequest hreq) (by decide)
    · exact absurd (Line.eq_of_tsrRequest hreq) (by decide)
    · exact ⟨v, rfl, swierRequest_eq_some.1 hreq⟩
    · exact absurd (Line.eq_of_prRequest hreq) (by decide)
    · cases hreq
  · rintro ⟨v', heq, hset⟩
    obtain ⟨rfl, rfl⟩ := Event.write.inj (Access.event.inj heq)
    exact swierRequest_eq_some.2 hset

/-- **An access** returns unless it is a software event on line 19. -/
theorem access_returns_iff {a : Access} (hs : (s.line 19).pr = false) (ha : a.Legal) :
    (∃ t, access s a = .ok t) ↔ ¬TriggersLine19 s a := by
  cases a with
  | read offset =>
    refine iff_of_true ⟨s, ?_⟩ fun ⟨_, h, _⟩ => by cases h
    simp only [Access.Legal, offsets, List.mem_cons, List.not_mem_nil, or_false] at ha
    rcases ha with rfl | rfl | rfl | rfl | rfl | rfl <;> rfl
  | event e =>
    cases e with
    | write offset v => exact write_returns_iff hs ha v
    | gpioIn pin level =>
      exact iff_of_true (gpioInHandler_returns ha) fun ⟨_, h, _⟩ => by cases h
    | reset => exact iff_of_true ⟨reset s, rfl⟩ fun ⟨_, h, _⟩ => by cases h

/-- **An access** leaves the pending bit of line 19 clear. -/
theorem access_line19 {a : Access} (hs : (s.line 19).pr = false) (h : access s a = .ok t) :
    (t.line 19).pr = false := by
  cases a with
  | read offset =>
    obtain ⟨_, _, h⟩ := bind_eq_ok.1 h
    rw [← pure_eq_ok.1 h]
    exact hs
  | event e =>
    cases e with
    | write offset v =>
      have hreq := write_allowed h (by decide : 19 < 20)
      rw [write_line h 19, Line.write_pr _ (by decide)]
      cases hr : (s.line 19).request offset (v.getLsbD 19) with
      | none => exact hs
      | some b =>
        cases b with
        | false => rfl
        | true => exact absurd (hreq true hr (by rw [hs]; decide)) (by decide)
    | gpioIn pin level =>
      obtain ⟨hpin, hacts⟩ := gpioInHandler_acts h
      rw [hacts.view_eq, if_neg (by omega)]
      exact hs
    | reset =>
      rw [← pure_eq_ok.1 h]
      simp [reset, Stm32Exti.line]

/-- **What the guest can do to the emulator through the EXTI.**  A sequence of reads and
writes of its registers, changes of the pins and resets runs to its end, and no assertion
fails, if and only if it has no write that sets bit 19 of `SWIER` at a time when it is
clear and bit 19 of `IMR` is set. -/
theorem exti_returns_iff (l : List Access) (hl : ∀ a ∈ l, a.Legal) :
    (∃ t, Run (fun s a t => access s a = .ok t) .init l t) ↔
      ∀ l₁ a u, l₁ ++ [a] <+: l → Run (fun s a t => access s a = .ok t) .init l₁ u →
        ¬TriggersLine19 u a :=
  Run.exists_iff (J := fun s => (s.line 19).pr = false)
    (fun _ _ _ _ h h' => Except.ok.inj (h.symm.trans h')) (fun _ _ _ hs h => access_line19 hs h)
    (fun _ _ hs ha => access_returns_iff hs ha) rfl hl

/-- All interrupts and all triggers are enabled, an edge comes, and all pending bits are
cleared. -/
def enableAll : List Access :=
  [.event (.write 0x00 0xfffff), .event (.write 0x08 0xfffff), .event (.write 0x0c 0xfffff),
    .event (.gpioIn 0 true), .read 0x14, .event (.write 0x14 0xfffff)]

/-- Nothing goes wrong where `SWIER` is not written. -/
theorem exti_returns_enableAll :
    ∃ t, Run (fun s a t => access s a = .ok t) .init enableAll t := by
  have hno : ∀ a ∈ enableAll, ∀ v, a ≠ .event (.write 0x10 v) := by
    intro a ha v
    simp only [enableAll, List.mem_cons, List.not_mem_nil, or_false] at ha
    rcases ha with rfl | rfl | rfl | rfl | rfl | rfl <;> simp
  refine (exti_returns_iff enableAll (by decide)).2 fun l₁ a u hl₁ _ htrigger => ?_
  obtain ⟨v, ha, -⟩ := htrigger
  exact hno a (hl₁.subset (by simp)) v ha

/-- Line 19 is unmasked and triggered by software. -/
theorem exti_returns_line19 : ¬∀ l : List Access, (∀ a ∈ l, a.Legal) →
    ∃ t, Run (fun s a t => access s a = .ok t) .init l t := by
  intro hall
  obtain ⟨t, ht⟩ :=
    hall [.event (.write 0x00 0x80000), .event (.write 0x10 0x80000)] (by decide)
  have hfold := Run.ok_iff_foldlM.1 ht
  cases hfold

/-! ### Events on masked lines -/

/-- Every set `SWIER` bit has its pending bit. -/
def SwierPending (s : Stm32Exti) : Prop := ∀ i, (s.line i).swier = true → (s.line i).pr = true

/-- What software relies on: a set `SWIER` bit has its pending bit, a `1` written to the
pending bit of a line clears its `SWIER` bit, and then another software event on the
line, if it is unmasked, makes it pending again. -/
structure Rearmable (s : Stm32Exti) : Prop where
  pending : ∀ i, s.SWIER.getLsbD i = true → s.PR.getLsbD i = true
  cleared : ∀ v t, write s 0x14 v = .ok t → ∀ i < EXTI_LINE_COUNT, v.getLsbD i = true →
    t.SWIER.getLsbD i = false
  rearmed : ∀ v t v' u, write s 0x14 v = .ok t → write t 0x10 v' = .ok u →
    ∀ i < EXTI_LINE_COUNT, v.getLsbD i = true → v'.getLsbD i = true →
      t.IMR.getLsbD i = true → u.PR.getLsbD i = true

/-- The write is no software event on a line that is masked and not pending. -/
def NoMaskedEvent (s : Stm32Exti) (e : Event) : Prop :=
  ∀ v, e = .write 0x10 v → ∀ i < EXTI_LINE_COUNT, v.getLsbD i = true →
    s.IMR.getLsbD i = false → s.SWIER.getLsbD i = false → s.PR.getLsbD i = true

/-- A request keeps a `SWIER` bit with its pending bit, and one that clears the pending
bit clears it. -/
theorem swier_apply {l : Line} (h : l.swier = true → l.pr = true) (r : Option Bool) :
    ((l.apply r).swier = true → (l.apply r).pr = true) ∧
      (r = some false → (l.apply r).swier = false) := by
  obtain ⟨imr, rtsr, ftsr, swier, pr⟩ := l
  rcases r with _ | _ | _
  · exact ⟨h, nofun⟩
  · have hclear : (swier && (false || !pr)) = false := by
      cases swier with
      | false => rfl
      | true =>
        obtain rfl : pr = true := h rfl
        rfl
    exact ⟨fun hset => absurd (hclear.symm.trans hset) (by decide), fun _ => hclear⟩
  · exact ⟨fun _ => rfl, nofun⟩

/-- What software relies on is that every set `SWIER` bit has its pending bit. -/
theorem rearmable_iff : Rearmable s ↔ SwierPending s := by
  constructor
  · exact fun h => h.pending
  · intro h
    have hcleared : ∀ v t, write s 0x14 v = .ok t → ∀ i < 20, v.getLsbD i = true →
        (t.line i).swier = false := by
      intro v t ht i hi hv
      rw [write_line ht i, hv, Line.write, if_pos hi]
      exact (swier_apply (h i) _).2 rfl
    refine ⟨h, hcleared, fun v t v' u ht hu i hi hv hv' himr => ?_⟩
    have hreq : (t.line i).swierRequest true = some true :=
      swierRequest_eq_some.2 ⟨rfl, himr, hcleared v t ht i hi hv⟩
    show (u.line i).pr = true
    rw [write_line hu i, hv', Line.write_pr _ hi, Line.request, hreq]
    rfl

/-- A write keeps the `SWIER` bit of a line with its pending bit, unless it is a software
event on a masked line. -/
theorem Line.write_swier_iff {l : Line} (h : l.swier = true → l.pr = true) (offset : ℕ)
    (b : Bool) :
    ((l.write i offset b).swier = true → (l.write i offset b).pr = true) ↔
      (offset = 0x10 → i < 20 → b = true → l.imr = false → l.swier = false →
        l.pr = true) := by
  unfold Line.write
  split
  · exact iff_of_true h fun h => absurd h (by decide)
  · refine iff_of_true ?_ fun h => absurd h (by decide)
    split_ifs
    · exact (swier_apply h _).1
    · exact h
  · refine iff_of_true ?_ fun h => absurd h (by decide)
    split_ifs
    · exact (swier_apply h _).1
    · exact h
  · by_cases hi : i < 20
    · rw [if_pos hi]
      obtain ⟨imr, rtsr, ftsr, swier, pr⟩ := l
      revert h
      cases b <;> cases imr <;> cases swier <;> cases pr <;>
        simp [Line.swierRequest, Line.apply, hi]
    · rw [if_neg hi]
      exact iff_of_true h fun _ h => absurd h hi
  · refine iff_of_true ?_ fun h => absurd h (by decide)
    split_ifs
    · exact (swier_apply h _).1
    · exact h
  · next _ _ _ hne _ => exact iff_of_true h fun h => absurd h hne

/-- **One step.**  A step from a state in which every set `SWIER` bit has its pending bit
ends in one exactly when it is no software event on a masked line. -/
theorem step_swierPending_iff {e : Event} (hs : SwierPending s) (h : Step s e t) :
    SwierPending t ↔ NoMaskedEvent s e := by
  cases e with
  | write offset v =>
    have hline : ∀ i, t.line i = (s.line i).write i offset (v.getLsbD i) := write_line h
    have hiff : SwierPending t ↔ ∀ i, offset = 0x10 → i < 20 → v.getLsbD i = true →
        (s.line i).imr = false → (s.line i).swier = false → (s.line i).pr = true := by
      refine forall_congr' fun i => ?_
      rw [hline i]
      exact Line.write_swier_iff (hs i) offset _
    rw [hiff]
    constructor
    · intro hall v' heq i hi hv himr hsw
      obtain ⟨rfl, rfl⟩ := Event.write.inj heq
      exact hall i rfl hi hv himr hsw
    · rintro hall i rfl hi hv himr hsw
      exact hall v rfl i hi hv himr hsw
  | gpioIn pin level =>
    refine iff_of_true (fun i => ?_) fun _ heq => by cases heq
    rw [(gpioInHandler_acts h).2.view_eq i]
    split_ifs with hi
    · exact (swier_apply (hs pin) _).1
    · exact hs i
  | reset =>
    refine iff_of_true (fun i hi => ?_) fun _ heq => by cases heq
    rw [← pure_eq_ok.1 h] at hi
    simp [reset, Stm32Exti.line] at hi

/-- **Software events can be repeated.**  In every state of a run from the first reset a
set `SWIER` bit has its pending bit, a `1` written to a pending bit clears the `SWIER`
bit and the next software event makes an unmasked line pending again, if and only if no
write in the run is a software event on a line that is masked and not pending. -/
theorem exti_rearmable_iff (l : List Event) (t : Stm32Exti) (h : Run Step .init l t) :
    (∀ l₁ u, l₁ <+: l → Run Step .init l₁ u → Rearmable u) ↔
      Run (Guarded Step NoMaskedEvent) .init l t := by
  simp only [rearmable_iff]
  refine Run.forall_prefix_iff (J := fun _ => True) (fun _ _ _ _ => step_det)
    (fun _ _ _ _ _ => trivial) (fun _ _ _ _ hs hst => step_swierPending_iff hs hst) h trivial ?_
  intro i hi
  simp [Stm32Exti.init, Stm32Exti.line] at hi

/-- A software event on an unmasked line, and its acknowledgement. -/
theorem exti_rearmable_unmasked : ∃ t, Run Step .init
    [.write 0x00 0x1, .write 0x10 0x1, .write 0x14 0x1] t ∧ Rearmable t := by
  have hall : ∃ t, Run (Guarded Step NoMaskedEvent) .init
      [.write 0x00 0x1, .write 0x10 0x1, .write 0x14 0x1] t := by
    refine ⟨_, .cons (t := ⟨0x1, 0, 0, 0, 0, []⟩) ⟨by rfl, fun v h => by cases h⟩
      (.cons (t := ⟨0x1, 0, 0, 0x1, 0x1, [(0, true)]⟩) ⟨by rfl, ?_⟩
      (.cons (t := ⟨0x1, 0, 0, 0, 0, [(0, true), (0, false)]⟩)
        ⟨by rfl, fun v h => by cases h⟩ (.nil _)))⟩
    intro v h
    obtain ⟨-, rfl⟩ := Event.write.inj h
    decide
  obtain ⟨t, ht⟩ := hall
  have hrun := ht.mono fun _ _ _ h => h.1
  exact ⟨t, hrun, (exti_rearmable_iff _ _ hrun).2 ht _ _ List.prefix_rfl hrun⟩

/-- A software event on a masked line: its bit stays after the acknowledgement, and after
the line is unmasked a software event does not make it pending. -/
theorem exti_rearmable_masked :
    ¬∀ (l : List Event) (t : Stm32Exti), Run Step .init l t → Rearmable t := by
  intro hall
  have hrun : Run Step .init [.write 0x10 0x1, .write 0x00 0x1] ⟨0x1, 0, 0, 0x1, 0, []⟩ :=
    Run.ok_iff_foldlM.2 rfl
  have hlost : (⟨0x1, 0, 0, 0x1, 0, []⟩ : Stm32Exti).PR.getLsbD 0 = true :=
    (hall _ _ hrun).rearmed 0x1 _ 0x1 _ rfl rfl 0 (by decide) (by decide) (by decide) (by decide)
  exact absurd hlost (by decide)

end Exti
end Especial
