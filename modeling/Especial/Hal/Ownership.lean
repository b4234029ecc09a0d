/-
# Who owns a line

`_isrVector` has one slot per line, and a line is a pin number; the objects are on
ports and pins.  An object that finds the slot of its line taken gets `false` from
`registerInterrupt` and does not own the line.  But `unregisterInterrupt` clears the
slot without looking whose it is, and an object that registers again while it owns the
line is told `false` as well.

`registration_owner_iff` says that these are the only two ways in which the slots and
the answers the objects have got can come apart.
-/

import Especial.Hal.Registration

namespace Especial
namespace Hal

open Qemu Stm32 Lib Gpio Exti Afio

/-- The calls of the objects. -/
inductive InputCall
  | registerInterrupt (clkEnabled : Bool) (d : ℕ)
  | unregisterInterrupt (d : ℕ)
  deriving DecidableEq, Repr

/-- The calls with what they have returned. -/
inductive Done
  | registered (clkEnabled : Bool) (d : ℕ) (returned : Bool)
  | unregistered (d : ℕ)
  deriving DecidableEq, Repr

/-- The call. -/
def Done.call : Done → InputCall
  | .registered clkEnabled d _ => .registerInterrupt clkEnabled d
  | .unregistered d => .unregisterInterrupt d

/-- A call that returns. -/
def CallStep (s : Firmware) : Done → Firmware → Prop
  | .registered clkEnabled d b, s' => registerInterrupt clkEnabled s d = .ok (b, s')
  | .unregistered d, s' => s' = unregisterInterrupt s d

/-- What a call means for the claim of object `d` on its line: an answer, or the end. -/
def Done.claim (d : ℕ) (owns : Bool) : Done → Bool
  | .registered _ d' b => if d' = d then b else owns
  | .unregistered d' => if d' = d then false else owns

/-- The last registration of `d` returned `true`, and `d` has not unregistered since. -/
def owns (d : ℕ) (l : List Done) : Bool := l.foldl (Done.claim d) false

/-- **The slots are the owners'**: the slot of a line refers to an object exactly if it
is on this line and owns it. -/
def Owners (pins : ℕ → Pin) (l : List Done) (s : Firmware) : Prop :=
  ∀ n d, s.isrVector n = some d ↔ (pins d).line = n ∧ owns d l = true

/-- No object unregisters while the slot of its line is another one's, and none registers
while it is its own. -/
def OwnCall (s : Firmware) : Done → Prop
  | .registered _ d _ => s.isrVector (s.inputs d).pin.line ≠ some d
  | .unregistered d => ∀ d', s.isrVector (s.inputs d).pin.line = some d' → d' = d

variable {io₀ : Io} {aircr : BitVec 32} {pins : ℕ → Pin} {s s' : Firmware}
    {l : List Done} {x : Done}

/-- One more call, and whether the object owns its line. -/
theorem owns_snoc (d : ℕ) (l : List Done) (x : Done) :
    owns d (l ++ [x]) = x.claim d (owns d l) := by
  simp [owns, List.foldl_append]

/-- What holds in every state: the pins of the objects do not change. -/
structure Idle (pins : ℕ → Pin) (s : Firmware) : Prop where
  ok : s.Ok
  pin : ∀ d, (s.inputs d).pin = pins d
  idle : s.handler = .idle

/-- The invariant holds after a reset. -/
theorem init_idle (hreset : machineReset Io.alloc = .ok io₀) :
    Idle pins (Firmware.init io₀ aircr pins) := ⟨init_ok hreset, fun _ => rfl, rfl⟩

/-- What a call does to the slots. -/
theorem registered_of_callStep {clkEnabled b : Bool} {d : ℕ} (h : Idle pins s)
    (hs : CallStep s (.registered clkEnabled d b) s') : Registered (some d) (pins d) s b s' := by
  rw [← h.pin d]
  exact (registerInt_returns clkEnabled (some d) (s.inputs d).pin h.ok.ports).of_eq_ok hs

/-- Every call keeps it. -/
theorem callStep_idle (h : Idle pins s) (hs : CallStep s x s') : Idle pins s' := by
  cases x with
  | registered clkEnabled d b =>
    have hr := registered_of_callStep h hs
    exact ⟨hr.ok h.ok, fun d' => by rw [hr.inputs]; exact h.pin d', hr.handler.trans h.idle⟩
  | unregistered d =>
    obtain rfl : s' = unregisterInt s (s.inputs d).pin := hs
    exact ⟨(Effect.unregister h.idle).ok h.ok, h.pin, h.idle⟩

/-- A call has one outcome. -/
theorem callStep_det (s : Firmware) (x : Done) (t t' : Firmware) (h : CallStep s x t)
    (h' : CallStep s x t') : t = t' := by
  cases x with
  | registered clkEnabled d b => exact (Prod.mk.inj (Except.ok.inj (h.symm.trans h'))).2
  | unregistered d => exact h.trans h'.symm

/-- A registration of an object that finds its slot free. -/
theorem Owners.register_free {d : ℕ} {clkEnabled : Bool} (hP : Owners pins l s)
    (hr : Registered (some d) (pins d) s true s') :
    Owners pins (l ++ [.registered clkEnabled d true]) s' := by
  have hfree : s.isrVector (pins d).line = none := hr.free.1 rfl
  intro n d'
  rw [owns_snoc, hr.vector, if_pos rfl]
  dsimp only [Done.claim]
  rcases eq_or_ne n (pins d).line with rfl | hn
  · rw [Function.update_self, Option.some.injEq]
    rcases eq_or_ne d d' with rfl | hd
    · simp
    · rw [if_neg hd, ← hP, hfree]
      exact iff_of_false hd nofun
  · rw [Function.update_of_ne hn, hP]
    rcases eq_or_ne d d' with rfl | hd
    · exact iff_of_false (fun h => hn h.1.symm) fun h => hn h.1.symm
    · rw [if_neg hd]

/-- A registration of an object that finds its slot taken. -/
theorem Owners.register_taken_iff {d : ℕ} {clkEnabled : Bool} (hP : Owners pins l s)
    (hr : Registered (some d) (pins d) s false s') :
    Owners pins (l ++ [.registered clkEnabled d false]) s' ↔
    s.isrVector (pins d).line ≠ some d := by
  have hvector : s'.isrVector = s.isrVector := hr.vector
  constructor
  · intro h hown
    have hfalse := ((h (pins d).line d).1 (by rw [hvector]; exact hown)).2
    rw [owns_snoc] at hfalse
    simp [Done.claim] at hfalse
  · intro hother n d'
    rw [owns_snoc, hvector]
    dsimp only [Done.claim]
    rcases eq_or_ne d d' with rfl | hd
    · rw [if_pos rfl]
      refine iff_of_false (fun h => hother ?_) fun h => absurd h.2 Bool.false_ne_true
      rw [((hP n d).1 h).1]
      exact h
    · rw [if_neg hd]
      exact hP n d'

/-- The end of a registration. -/
theorem Owners.unregister_iff {d : ℕ} (hP : Owners pins l s)
    (hvector : s'.isrVector = Function.update s.isrVector (pins d).line none) :
    Owners pins (l ++ [.unregistered d]) s' ↔ ∀ d', s.isrVector (pins d).line = some d' →
    d' = d := by
  constructor
  · intro h d' hd'
    by_contra hne
    have howns := ((hP _ d').1 hd')
    have hslot := (h (pins d).line d').2 ⟨howns.1, by
      rw [owns_snoc]
      simp [Done.claim, Ne.symm hne, howns.2]⟩
    rw [hvector, Function.update_self] at hslot
    cases hslot
  · intro hown n d'
    rw [owns_snoc, hvector]
    dsimp only [Done.claim]
    rcases eq_or_ne n (pins d).line with rfl | hn
    · rw [Function.update_self]
      refine iff_of_false nofun fun h => ?_
      rcases eq_or_ne d d' with rfl | hd
      · simp at h
      · rw [if_neg hd] at h
        exact hd (hown d' ((hP _ d').2 h)).symm
    · rw [Function.update_of_ne hn, hP]
      rcases eq_or_ne d d' with rfl | hd
      · exact iff_of_false (fun h => hn h.1.symm) fun h => hn h.1.symm
      · rw [if_neg hd]

/-- **A call** keeps the slots with their owners exactly if it is one of the owner. -/
theorem callStep_owners_iff (h : Idle pins s) (hP : Owners pins l s) (hs : CallStep s x s') :
    Owners pins (l ++ [x]) s' ↔ OwnCall s x := by
  cases x with
  | registered clkEnabled d b =>
    have hr := registered_of_callStep h hs
    show _ ↔ s.isrVector (s.inputs d).pin.line ≠ some d
    rw [h.pin d]
    cases b with
    | true =>
      refine iff_of_true (hP.register_free hr) ?_
      rw [hr.free.1 rfl]
      nofun
    | false => exact hP.register_taken_iff hr
  | unregistered d =>
    show _ ↔ ∀ d', s.isrVector (s.inputs d).pin.line = some d' → d' = d
    rw [h.pin d]
    refine hP.unregister_iff ?_
    rw [← h.pin d]
    exact congrArg Firmware.isrVector hs

/-- Every sequence of calls returns. -/
theorem exists_calls (h : Idle pins s) (calls : List InputCall) :
    ∃ l t, l.map Done.call = calls ∧ Run CallStep s l t := by
  induction calls generalizing s with
  | nil => exact ⟨[], s, rfl, .nil s⟩
  | cons c calls ih =>
    obtain ⟨x, u, hx, hu⟩ : ∃ x u, Done.call x = c ∧ CallStep s x u := by
      cases c with
      | registerInterrupt clkEnabled d =>
        obtain ⟨⟨b, u⟩, hu, -⟩ :=
          registerInt_returns clkEnabled (some d) (s.inputs d).pin h.ok.ports
        exact ⟨.registered clkEnabled d b, u, rfl, hu⟩
      | unregisterInterrupt d => exact ⟨.unregistered d, _, rfl, rfl⟩
    obtain ⟨l, t, hl, hrun⟩ := ih (callStep_idle h hu)
    exact ⟨x :: l, t, by rw [List.map_cons, hx, hl], .cons hu hrun⟩

/-- **Who owns a line.**  Every sequence of calls of `registerInterrupt` and
`unregisterInterrupt` by any objects returns; and after each of them the slot of a line
refers to an object exactly if the last registration of that object returned `true` and
it has not unregistered since, if and only if no object unregisters while the slot of
its line is another one's and none registers while it is its own. -/
theorem registration_owner_iff (io₀ : Io) (aircr : BitVec 32) (pins : ℕ → Pin)
    (hreset : machineReset Io.alloc = .ok io₀) :
    (∀ calls, ∃ l s, l.map Done.call = calls ∧
      Run CallStep (Firmware.init io₀ aircr pins) l s) ∧
      ∀ l s, Run CallStep (Firmware.init io₀ aircr pins) l s →
        ((∀ l₁ u, l₁ <+: l → Run CallStep (Firmware.init io₀ aircr pins) l₁ u →
          Owners pins l₁ u) ↔
          Run (Guarded CallStep OwnCall) (Firmware.init io₀ aircr pins) l s) := by
  have hidle : Idle pins (Firmware.init io₀ aircr pins) := init_idle hreset
  refine ⟨fun calls => exists_calls hidle calls, fun l s hrun => ?_⟩
  refine Run.forall_prefix_hist_iff (J := fun _ => Idle pins) callStep_det
    (fun _ _ _ _ h hs => callStep_idle h hs) (fun _ _ _ _ h hP hs => callStep_owners_iff h hP hs)
    hrun hidle fun n d => ?_
  exact iff_of_false nofun fun h => absurd h.2 Bool.false_ne_true

/-- `PA.3`, and `PB.3` for every other object. -/
def pinsAB : ℕ → Pin
  | 0 => pinA3
  | _ => pinB3

/-- Object 0 gets the line, object 1 does not. -/
theorem exists_owned_a3 : ∃ io₀ s, machineReset Io.alloc = .ok io₀ ∧
    Run (Guarded CallStep OwnCall) (Firmware.init io₀ 0#32 pinsAB)
      [.registered true 0 true, .registered true 1 false] s ∧
    s.isrVector 3 = some 0 ∧ Idle pinsAB s := by
  obtain ⟨io₀, hreset⟩ : ∃ io₀, machineReset Io.alloc = .ok io₀ := ⟨_, rfl⟩
  have hidle : Idle pinsAB (Firmware.init io₀ 0#32 pinsAB) := init_idle hreset
  obtain ⟨⟨b, t⟩, ht, hr⟩ := registerInt_returns true (some 0) pinA3 hidle.ok.ports
  obtain rfl : b = true := hr.free.2 rfl
  have htaken : t.isrVector 3 = some 0 := by
    rw [hr.vector]
    rfl
  have hidle' : Idle pinsAB t := callStep_idle (x := .registered true 0 true) hidle ht
  obtain ⟨⟨b, s⟩, hs, hr'⟩ := registerInt_returns true (some 1) pinB3 hidle'.ok.ports
  have hb : ¬b = true := fun h => absurd (htaken.symm.trans (hr'.free.1 h)) (by decide)
  obtain rfl : b = false := Bool.eq_false_iff.2 hb
  have hs' : CallStep t (.registered true 1 false) s := by
    show registerInt true t (some 1) (t.inputs 1).pin = _
    rw [hidle'.pin 1]
    exact hs
  have hother : OwnCall t (.registered true 1 false) := by
    show t.isrVector (t.inputs 1).pin.line ≠ some 1
    rw [hidle'.pin 1, show (pinsAB 1).line = 3 from rfl, htaken]
    decide
  refine ⟨io₀, s, hreset, .cons ⟨ht, nofun⟩ (.cons ⟨hs', hother⟩ (.nil s)), ?_,
    callStep_idle hidle' hs'⟩
  rw [show s.isrVector = t.isrVector from hr'.vector]
  exact htaken

/-- Both objects try, and the owner unregisters. -/
theorem registration_owner_unregister : ∃ io₀ s, machineReset Io.alloc = .ok io₀ ∧
    Run CallStep (Firmware.init io₀ 0#32 pinsAB)
      [.registered true 0 true, .registered true 1 false, .unregistered 0] s ∧
    Owners pinsAB [.registered true 0 true, .registered true 1 false, .unregistered 0] s := by
  obtain ⟨io₀, s, hreset, hrun, htaken, hidle⟩ := exists_owned_a3
  have hown : OwnCall s (.unregistered 0) := by
    intro d' hd'
    rw [hidle.pin 0, show (pinsAB 0).line = 3 from rfl, htaken] at hd'
    exact (Option.some.inj hd').symm
  have hrun' : Run (Guarded CallStep OwnCall) (Firmware.init io₀ 0#32 pinsAB)
      [.registered true 0 true, .registered true 1 false, .unregistered 0]
      (unregisterInterrupt s 0) :=
    Run.snoc_iff.2 ⟨s, hrun, show CallStep s (.unregistered 0) _ from rfl, hown⟩
  have hcalls := hrun'.mono fun _ _ _ h => h.1
  exact ⟨io₀, _, hreset, hcalls,
    ((registration_owner_iff io₀ 0#32 pinsAB hreset).2 _ _ hcalls).2
    hrun' _ _ List.prefix_rfl hcalls⟩

/-- Object 1 unregisters although it does not own the line, and object 0, which has not
unregistered, loses its slot. -/
theorem registration_owner_other : ∃ io₀ s, machineReset Io.alloc = .ok io₀ ∧
    Run CallStep (Firmware.init io₀ 0#32 pinsAB)
      [.registered true 0 true, .registered true 1 false, .unregistered 1] s ∧
    owns 0 [.registered true 0 true, .registered true 1 false, .unregistered 1] = true ∧
    s.isrVector pinA3.line = none ∧
    ¬Owners pinsAB [.registered true 0 true, .registered true 1 false, .unregistered 1] s := by
  obtain ⟨io₀, s, hreset, hrun, -, hidle⟩ := exists_owned_a3
  have hnone : (unregisterInterrupt s 1).isrVector pinA3.line = none := by
    show Function.update s.isrVector (s.inputs 1).pin.line none pinA3.line = none
    rw [hidle.pin 1]
    exact Function.update_self ..
  refine ⟨io₀, unregisterInterrupt s 1, hreset,
    Run.snoc_iff.2 ⟨s, hrun.mono fun _ _ _ h => h.1, rfl⟩, rfl, hnone, fun h => ?_⟩
  cases hnone.symm.trans ((h pinA3.line 0).2 ⟨rfl, rfl⟩)

end Hal
end Especial
