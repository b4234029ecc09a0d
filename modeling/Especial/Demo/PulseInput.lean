/-
# The speed of a fan

`PulseInput::irq` of `src/demo/pulseinput.cpp` is called for each edge of the signal of a fan.
It counts the edges, and `lastPulseTime` is the time that four of them take.  An edge less than
12 ms after the last one that was counted is a glitch, and is not counted.

The counter is looked at before the filter.  When four edges have been counted, the next
interrupt takes the time and starts again, and it does so for a glitch as well: the glitch then
stands for an edge of the fan.  A glitch at any other moment changes nothing that matters
(`Agree.glitch`).  So the measured times are those of the signal without its glitches exactly if
no glitch comes when four edges have been counted (`pulse_glitches_iff`), and then they are the
times of every four edges (`values_irqs`).
-/

import Especial.Utils.Time

namespace Especial
namespace Demo

open Utils

/-- `PulseInput`, with the values that `lastPulseTime` has been given. -/
structure PulseInput where
  startTime : Timeout
  /-- when the last edge was counted -/
  currentTime : Timeout
  pulseCounter : BitVec 32
  lastPulseTime : BitVec 32
  lastPulseTimestamp : Timeout
  values : List (BitVec 32)
  deriving DecidableEq, Repr

/-- `PulseInput::PulseInput`; it does not set the times. -/
def PulseInput.new (startTime currentTime lastPulseTimestamp : Timeout) : PulseInput where
  startTime := startTime
  currentTime := currentTime
  pulseCounter := 0#32
  lastPulseTime := 1000#32
  lastPulseTimestamp := lastPulseTimestamp
  values := []

/-- The first half of `PulseInput::irq`, which takes the time. -/
def takeTime (p : PulseInput) (now : Timeout) : PulseInput :=
  if p.pulseCounter = 0#32 then { p with startTime := now }
  else if p.pulseCounter = 4#32 then
    { p with
      lastPulseTime := timeDiffMs now p.startTime
      lastPulseTimestamp := now
      startTime := now
      pulseCounter := 0#32
      values := p.values ++ [timeDiffMs now p.startTime] }
  else p

/-- The second half, the filter. -/
def countPulse (p : PulseInput) (now : Timeout) : PulseInput :=
  let pulseWidth := timeDiffMs now p.currentTime
  if pulseWidth ≥ 12#32 then
    { p with currentTime := now, pulseCounter := p.pulseCounter + 1#32 }
  else p

/-- `PulseInput::irq`, with the time that `time_get` returns in it. -/
def irq (p : PulseInput) (now : Timeout) : PulseInput := countPulse (takeTime p now) now

/-- The interrupts of a sequence of edges. -/
def irqs (p : PulseInput) (edges : List Timeout) : PulseInput := edges.foldl irq p

/-- An edge less than 12 ms after the last one that was counted. -/
def Glitch (last now : Timeout) : Prop := timeDiffMs now last < 12#32

instance (last now : Timeout) : Decidable (Glitch last now) :=
  inferInstanceAs (Decidable (_ < _))

/-- The edges without the glitches. -/
def dropGlitches (last : Timeout) : List Timeout → List Timeout
  | [] => []
  | now :: edges => if Glitch last now then dropGlitches last edges
      else now :: dropGlitches now edges

/-- No glitch comes when four edges have been counted. -/
def NoGlitchTimed (p : PulseInput) : List Timeout → Prop
  | [] => True
  | now :: edges =>
    ¬(p.pulseCounter = 4#32 ∧ Glitch p.currentTime now) ∧ NoGlitchTimed (irq p now) edges

instance decidableNoGlitchTimed : ∀ p edges, Decidable (NoGlitchTimed p edges)
  | _, [] => isTrue trivial
  | p, now :: edges =>
    haveI := decidableNoGlitchTimed (irq p now) edges
    inferInstanceAs (Decidable (¬(_ ∧ _) ∧ NoGlitchTimed (irq p now) edges))

variable {p a b : PulseInput} {last now : Timeout} {edges : List Timeout}

/-! ### An interrupt -/

/-- Taking the time keeps the time of the last edge. -/
theorem takeTime_currentTime (p : PulseInput) (now : Timeout) :
    (takeTime p now).currentTime = p.currentTime := by
  unfold takeTime
  split_ifs <;> rfl

/-- A glitch takes the time, and is not counted. -/
theorem irq_of_glitch (h : Glitch p.currentTime now) : irq p now = takeTime p now := by
  unfold irq countPulse
  rw [takeTime_currentTime]
  exact if_neg (BitVec.not_le.2 h)

/-- An edge that is no glitch takes the time, and is counted. -/
theorem irq_of_not_glitch (h : ¬Glitch p.currentTime now) : irq p now =
    { takeTime p now with
      currentTime := now, pulseCounter := (takeTime p now).pulseCounter + 1#32 } := by
  unfold irq countPulse
  rw [takeTime_currentTime]
  exact if_pos (BitVec.not_lt.1 h)

/-- An edge that is counted is the last one afterwards. -/
theorem currentTime_irq (h : ¬Glitch p.currentTime now) : (irq p now).currentTime = now := by
  rw [irq_of_not_glitch h]

/-- When four edges have been counted, the next one takes the time. -/
theorem takeTime_values (h : p.pulseCounter = 4#32) (now : Timeout) :
    (takeTime p now).values = p.values ++ [timeDiffMs now p.startTime] := by
  rw [takeTime, if_neg (by rw [h]; decide), if_pos h]

/-- A measurement is made in the first half of `irq`. -/
theorem irq_values (p : PulseInput) (now : Timeout) :
    (irq p now).values = (takeTime p now).values := by
  unfold irq countPulse
  dsimp only
  split_ifs <;> rfl

/-- Values are only added. -/
theorem values_prefix_irqs (p : PulseInput) (edges : List Timeout) :
    p.values <+: (irqs p edges).values := by
  induction edges generalizing p with
  | nil => exact List.prefix_rfl
  | cons now edges ih =>
    have hone : p.values <+: (irq p now).values := by
      rw [irq_values, takeTime]
      split_ifs
      · exact List.prefix_rfl
      · exact List.prefix_append _ _
      · exact List.prefix_rfl
    exact hone.trans (ih (irq p now))

/-! ### With and without glitches -/

/-- Two states in which the next edges have the same effect: before the first edge is counted,
the start time is still to be set. -/
structure Agree (a b : PulseInput) : Prop where
  currentTime : a.currentTime = b.currentTime
  pulseCounter : a.pulseCounter = b.pulseCounter
  lastPulseTime : a.lastPulseTime = b.lastPulseTime
  lastPulseTimestamp : a.lastPulseTimestamp = b.lastPulseTimestamp
  values : a.values = b.values
  startTime : a.pulseCounter ≠ 0#32 → a.startTime = b.startTime

/-- A state agrees with itself. -/
theorem Agree.refl (p : PulseInput) : Agree p p := ⟨rfl, rfl, rfl, rfl, rfl, fun _ => rfl⟩

/-- **A common edge** makes them equal. -/
theorem Agree.irq_eq (h : Agree a b) (now : Timeout) : irq a now = irq b now := by
  have htake : takeTime a now = takeTime b now := by
    obtain ⟨startTime, currentTime, pulseCounter, lastPulseTime, timestamp, values⟩ := a
    obtain ⟨startTime', currentTime', pulseCounter', lastPulseTime', timestamp', values'⟩ := b
    obtain ⟨rfl, rfl, rfl, rfl, rfl, hstart⟩ := h
    unfold takeTime
    split_ifs with h0 h4
    · rfl
    · rw [show startTime = startTime' from hstart h0]
    · rw [show startTime = startTime' from hstart h0]
  rw [irq, irq, htake]

/-- **A glitch** that comes before four edges have been counted is as if it had not come. -/
theorem Agree.glitch (h : Agree a b) (hg : Glitch a.currentTime now)
    (h4 : a.pulseCounter ≠ 4#32) : Agree (irq a now) b := by
  rw [irq_of_glitch hg, takeTime]
  split_ifs with h0
  · exact ⟨h.currentTime, h.pulseCounter, h.lastPulseTime, h.lastPulseTimestamp, h.values,
      fun hne => absurd h0 hne⟩
  · exact h

/-- A glitch is dropped, and the next edge is compared with the same one. -/
theorem dropGlitches_of_glitch (h : Glitch last now) :
    dropGlitches last (now :: edges) = dropGlitches last edges := if_pos h

/-- An edge that is no glitch stays, and the next edge is compared with it. -/
theorem dropGlitches_of_not_glitch (h : ¬Glitch last now) :
    dropGlitches last (now :: edges) = now :: dropGlitches now edges := if_neg h

/-- If no glitch takes the time, the run without the glitches ends alike. -/
theorem Agree.of_noGlitchTimed (h : Agree a b) (hedges : NoGlitchTimed a edges) :
    Agree (irqs a edges) (irqs b (dropGlitches b.currentTime edges)) := by
  induction edges generalizing a b with
  | nil => exact h
  | cons now edges ih =>
    obtain ⟨hnow, hedges⟩ := hedges
    by_cases hg : Glitch a.currentTime now
    · rw [dropGlitches_of_glitch (h.currentTime ▸ hg)]
      exact ih (h.glitch hg fun h4 => hnow ⟨h4, hg⟩) hedges
    · rw [dropGlitches_of_not_glitch (h.currentTime ▸ hg)]
      have hagree : Agree (irq a now) (irq b now) := by
        rw [h.irq_eq]
        exact .refl _
      have hrest := ih hagree hedges
      rw [currentTime_irq (h.currentTime ▸ hg)] at hrest
      exact hrest

/-- The first edge that is left is not a glitch. -/
theorem dropGlitches_cases (last : Timeout) (edges : List Timeout) :
    dropGlitches last edges = [] ∨
    ∃ now rest, dropGlitches last edges = now :: rest ∧ ¬Glitch last now := by
  induction edges with
  | nil => exact Or.inl rfl
  | cons now edges ih =>
    by_cases hg : Glitch last now
    · rw [dropGlitches_of_glitch hg]
      exact ih
    · exact Or.inr ⟨now, _, dropGlitches_of_not_glitch hg, hg⟩

/-- A list goes on in one way. -/
theorem eq_of_prefix_concat {α : Type*} {l l' : List α} {x y : α} (hx : l ++ [x] <+: l')
    (hy : l ++ [y] <+: l') : x = y := by
  have hxy := (List.prefix_of_prefix_length_le hx hy (by simp)).eq_of_length (by simp)
  exact List.singleton_inj.1 (List.append_cancel_left hxy)

/-- When four edges have been counted, the next edge gives the next value. -/
theorem prefix_irqs_concat (h : p.pulseCounter = 4#32) (now : Timeout) (edges : List Timeout) :
    p.values ++ [timeDiffMs now p.startTime] <+: (irqs (irq p now) edges).values := by
  rw [← takeTime_values h, ← irq_values]
  exact values_prefix_irqs _ _

/-- A glitch that takes the time gives a value that no counted edge gives. -/
theorem values_ne_of_glitch (h : Agree a b) (hg : Glitch a.currentTime now)
    (h4 : a.pulseCounter = 4#32) : (irqs (irq a now) edges).values ≠
      (irqs b (dropGlitches b.currentTime edges)).values := by
  intro heq
  have hfull := prefix_irqs_concat h4 now edges
  rw [heq, h.values, h.startTime (by rw [h4]; decide)] at hfull
  rcases dropGlitches_cases b.currentTime edges with hnil | ⟨next, rest, hcons, hnext⟩
  · -- without the glitch there is no further value
    rw [hnil] at hfull
    have := hfull.length_le
    simp [irqs] at this
  · rw [hcons] at hfull
    have hclean := prefix_irqs_concat (h.pulseCounter ▸ h4) next rest
    have hsame : now = next := timeDiffMs_right_inj.1 (eq_of_prefix_concat hfull hclean)
    exact hnext (hsame ▸ h.currentTime ▸ hg)

/-- If the run without the glitches gives the same values, no glitch took the time. -/
theorem Agree.noGlitchTimed (h : Agree a b)
    (hvalues : (irqs a edges).values = (irqs b (dropGlitches b.currentTime edges)).values) :
    NoGlitchTimed a edges := by
  induction edges generalizing a b with
  | nil => trivial
  | cons now edges ih =>
    by_cases hg : Glitch a.currentTime now
    · rw [dropGlitches_of_glitch (h.currentTime ▸ hg)] at hvalues
      have h4 : a.pulseCounter ≠ 4#32 := fun h4 => values_ne_of_glitch h hg h4 hvalues
      exact ⟨fun hboth => h4 hboth.1, ih (h.glitch hg h4) hvalues⟩
    · rw [dropGlitches_of_not_glitch (h.currentTime ▸ hg)] at hvalues
      refine ⟨fun hboth => hg hboth.2, ih (b := irq b now) ?_ ?_⟩
      · rw [h.irq_eq]
        exact .refl _
      · rw [currentTime_irq (h.currentTime ▸ hg)]
        exact hvalues

/-- **When glitches do not matter.**  From any state and for any edges, deleting the glitches
changes neither `lastPulseTime` nor the values that it takes exactly if no glitch comes when
four edges have been counted. -/
theorem pulse_glitches_iff (p : PulseInput) (edges : List Timeout) :
    ((irqs p (dropGlitches p.currentTime edges)).lastPulseTime = (irqs p edges).lastPulseTime ∧
      (irqs p (dropGlitches p.currentTime edges)).values = (irqs p edges).values) ↔
      NoGlitchTimed p edges := by
  constructor
  · rintro ⟨-, hvalues⟩
    exact (Agree.refl p).noGlitchTimed hvalues.symm
  · intro hedges
    have hagree := (Agree.refl p).of_noGlitchTimed hedges
    exact ⟨hagree.lastPulseTime.symm, hagree.values.symm⟩

/-- A glitch after the first counted edge. -/
theorem pulse_glitch_ignored :
    let p := PulseInput.new ⟨0⟩ ⟨0⟩ ⟨0⟩
    let edges : List Timeout := [⟨20⟩, ⟨25⟩, ⟨40⟩, ⟨60⟩, ⟨80⟩, ⟨100⟩]
    (irqs p edges).lastPulseTime = 80#32 ∧
      (irqs p (dropGlitches p.currentTime edges)).lastPulseTime = (irqs p edges).lastPulseTime ∧
      (irqs p (dropGlitches p.currentTime edges)).values = (irqs p edges).values :=
  ⟨by decide, (pulse_glitches_iff _ _).2 (by decide)⟩

/-- A glitch 1 ms after the fourth counted edge: it ends the measurement, 61 ms after the start,
and the fifth edge of the fan, 80 ms after it, starts the next one. -/
theorem pulse_glitch_timed :
    let p := PulseInput.new ⟨0⟩ ⟨0⟩ ⟨0⟩
    let edges : List Timeout := [⟨20⟩, ⟨40⟩, ⟨60⟩, ⟨80⟩, ⟨81⟩, ⟨100⟩]
    p.pulseCounter = 0#32 ∧ edges.Pairwise (fun s t => s.value ≤ t.value) ∧
      dropGlitches p.currentTime edges = [⟨20⟩, ⟨40⟩, ⟨60⟩, ⟨80⟩, ⟨100⟩] ∧
      (irqs p edges).lastPulseTime = 61#32 ∧
      (irqs p (dropGlitches p.currentTime edges)).lastPulseTime = 80#32 := by
  decide

/-! ### What is measured -/

/-- The times of every four edges after one at `start`. -/
def fourTimes (start : Timeout) : List Timeout → List (BitVec 32)
  | _ :: _ :: _ :: now :: edges => timeDiffMs now start :: fourTimes now edges
  | _ => []

/-- The times of every four of these edges. -/
def measurements : List Timeout → List (BitVec 32)
  | [] => []
  | start :: edges => fourTimes start edges

/-- All these edges are counted. -/
def Counted (last : Timeout) : List Timeout → Prop
  | [] => True
  | now :: edges => ¬Glitch last now ∧ Counted now edges

/-- **Without the glitches every edge is counted.** -/
theorem counted_dropGlitches (last : Timeout) (edges : List Timeout) :
    Counted last (dropGlitches last edges) := by
  induction edges generalizing last with
  | nil => trivial
  | cons now edges ih =>
    by_cases hg : Glitch last now
    · rw [dropGlitches_of_glitch hg]
      exact ih last
    · rw [dropGlitches_of_not_glitch hg]
      exact ⟨hg, ih now⟩

/-- The second, third and fourth edge are only counted. -/
theorem irq_counted (h0 : p.pulseCounter ≠ 0#32) (h4 : p.pulseCounter ≠ 4#32)
    (hg : ¬Glitch p.currentTime now) :
    irq p now = { p with currentTime := now, pulseCounter := p.pulseCounter + 1#32 } := by
  rw [irq_of_not_glitch hg, takeTime, if_neg h0, if_neg h4]

/-- The first edge sets the start time. -/
theorem irq_first (h0 : p.pulseCounter = 0#32) (hg : ¬Glitch p.currentTime now) :
    irq p now = { p with startTime := now, currentTime := now, pulseCounter := 1#32 } := by
  rw [irq_of_not_glitch hg, takeTime, if_pos h0, h0]
  rfl

/-- The fifth edge takes the time, and is the first of the next four. -/
theorem irq_fifth (h4 : p.pulseCounter = 4#32) (hg : ¬Glitch p.currentTime now) :
    irq p now = { p with
      lastPulseTime := timeDiffMs now p.startTime
      lastPulseTimestamp := now
      startTime := now
      currentTime := now
      pulseCounter := 1#32
      values := p.values ++ [timeDiffMs now p.startTime] } := by
  rw [irq_of_not_glitch hg, takeTime, if_neg (by rw [h4]; decide), if_pos h4]
  rfl

/-- Fewer than four edges give no time. -/
theorem fourTimes_of_length_lt {start : Timeout} (h : edges.length < 4) :
    fourTimes start edges = [] := by
  unfold fourTimes
  split
  · simp only [List.length_cons] at h
    omega
  · rfl

/-- From the first counted edge on: the counter is the number of the edges counted `since` the
start, and one for the start. -/
theorem values_irqs_since (since : List Timeout) (h : p.pulseCounter.toNat = since.length + 1)
    (hsince : since.length < 4) (hedges : Counted p.currentTime edges) :
    (irqs p edges).values = p.values ++ fourTimes p.startTime (since ++ edges) := by
  induction edges generalizing p since with
  | nil =>
    rw [List.append_nil, fourTimes_of_length_lt hsince, List.append_nil]
    rfl
  | cons now edges ih =>
    obtain ⟨hg, hedges⟩ := hedges
    show (irqs (irq p now) edges).values = _
    by_cases h3 : since.length = 3
    · -- the fifth edge is the first of the next four
      obtain ⟨t₁, t₂, t₃, rfl⟩ := List.length_eq_three.1 h3
      have h4 : p.pulseCounter = 4#32 := BitVec.eq_of_toNat_eq h
      rw [irq_fifth h4 hg, ih [] rfl (by decide) hedges, List.append_assoc]
      rfl
    · have h0 : p.pulseCounter ≠ 0#32 := fun h0 => by simp [h0] at h
      have h4 : p.pulseCounter ≠ 4#32 := fun h4 => h3 (by simpa [h4] using h.symm)
      have hcounter : (p.pulseCounter + 1#32).toNat = (since ++ [now]).length + 1 := by
        rw [BitVec.toNat_add, h, List.length_append, List.length_singleton, BitVec.toNat_ofNat]
        omega
      have hlt : (since ++ [now]).length < 4 := by
        rw [List.length_append, List.length_singleton]
        omega
      rw [irq_counted h0 h4 hg, ih (since ++ [now]) hcounter hlt hedges, List.append_assoc]
      rfl

/-- **What is measured**, if no glitch comes when four edges have been counted: the times of
every four edges of the signal without its glitches. -/
theorem values_irqs (h : p.pulseCounter = 0#32) (hedges : NoGlitchTimed p edges) :
    (irqs p edges).values = p.values ++ measurements (dropGlitches p.currentTime edges) := by
  rw [((Agree.refl p).of_noGlitchTimed hedges).values]
  have hcounted := counted_dropGlitches p.currentTime edges
  cases hkept : dropGlitches p.currentTime edges with
  | nil => exact (List.append_nil _).symm
  | cons now rest =>
    rw [hkept] at hcounted
    show (irqs (irq p now) rest).values = _
    rw [irq_first h hcounted.1, values_irqs_since [] rfl (by decide) hcounted.2]
    rfl

end Demo
end Especial
