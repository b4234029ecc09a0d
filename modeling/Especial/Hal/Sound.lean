/-
# A registration that is interrupted

The mask of a line and its slot in the callback table are two pieces of state.
`registerInt` unmasks the line first and writes the slot at its end; `unregisterInt`
clears the slot and leaves the line unmasked, and pending if it is.

`Sound` holds in every state of every interleaving of the loads and stores of `registerInt`
with the handlers and the inputs: since `EXTI_Init` masks the line for a moment, a line that
is pending while it is masked is the one that is being registered (`Sound.masked`).
-/

import Especial.Hal.Preemption
import Especial.Hal.Registration

namespace Especial
namespace Hal

open Qemu Stm32 Lib Gpio Exti Afio

/-! ### The property and its condition -/

/-- A line that is pending and unmasked has a callback, and the assertion in
`checkLineFlag` does not fail: the handler can go on. -/
structure Served (s : Firmware) : Prop where
  callback : ∀ n : Fin 16, (s.io.exti.line n).pr = true → (s.io.exti.line n).imr = true →
    s.isrVector n ≠ none
  valid : ∃ t, handlerStep s = .ok t

/-- No edge reaches the pending register of a line without a callback, and no line that
is pending loses its callback. -/
def KeepsServed (s : Program) : Moment → Prop
  | .event (.gpioIn port n level) => ∀ line : Fin 16, n = line →
    Reaches s.firmware.io port n level → s.firmware.isrVector line ≠ none
  | .event (.unregisterInt pin) => (s.firmware.io.exti.line pin.line).pr = false
  | _ => True

/-- Every line that is pending, masked or not, has a callback, and so has the line whose
callback the handler is about to call. -/
structure Backed (s : Firmware) : Prop where
  pending : ∀ n : Fin 16, (s.io.exti.line n).pr = true → s.isrVector n ≠ none
  called : ∀ line rest, s.handler = .callIsr line rest → s.isrVector line ≠ none

variable {s s' : Firmware} {r : Registering} {a : Access} {rest : List Access}

/-- The handler goes on exactly if the callback that it is about to call is there. -/
theorem handlerStep_returns_iff (s : Firmware) : (∃ t, handlerStep s = .ok t) ↔
    ∀ line rest, s.handler = .callIsr line rest → s.isrVector line ≠ none := by
  unfold handlerStep
  split
  next hpc => exact iff_of_true ⟨s, rfl⟩ fun line rest h => by rw [hpc] at h; cases h
  next line rest hpc =>
    rw [extiGetITStatus_eq]
    exact iff_of_true ⟨_, rfl⟩ fun line rest h => by rw [hpc] at h; cases h
  next line rest hpc =>
    rw [callIsr_eq]
    cases hslot : s.isrVector line with
    | none => exact iff_of_false (fun ⟨t, ht⟩ => by cases ht) fun h => h line rest hpc hslot
    | some d =>
      refine iff_of_true ⟨_, rfl⟩ fun line' rest' h => ?_
      obtain ⟨rfl, -⟩ := HandlerPc.callIsr.inj (hpc.symm.trans h)
      rw [hslot]
      nofun
  next line rest hpc =>
    obtain ⟨io, hio, -⟩ : Returns (extiClearITPendingBit s.io (BIT line)) _ :=
      extiClearITPendingBit_returns line.isLt
    rw [hio]
    exact iff_of_true ⟨_, rfl⟩ fun line rest h => by rw [hpc] at h; cases h

/-- With a callback for every pending line the handler can go on. -/
theorem Backed.served (h : Backed s) : Served s :=
  ⟨fun n hpr _ => h.pending n hpr, (handlerStep_returns_iff s).2 h.called⟩

/-! ### What holds in every state -/

/-- Where a call of `registerInt` is. -/
structure Registering.Ok (r : Registering) (s : Firmware) : Prop where
  rest : r.rest <:+ accesses
  ne_nil : r.rest ≠ []
  /-- nothing but the call itself changes the mask register -/
  tmp : ∀ v, r.tmp = some v →
    (r.rest.head? = some (.clear 0x00) ∨ r.rest.head? = some (.set 0x00)) →
    ∀ j, v.getLsbD j = (s.io.exti.line j).imr
  free : r.rest = [.storeVector] → s.isrVector r.pin.line = none

/-- What holds in every state: a line that is pending is unmasked, or it is being
registered and will be unmasked. -/
structure Sound (s : Program) : Prop where
  routed : Routed s.firmware.io
  main : ∀ r, s.main = some r → r.Ok s.firmware
  masked : ∀ n : Fin 16, (s.firmware.io.exti.line n).pr = true →
    (s.firmware.io.exti.line n).imr = true ∨
      ∃ r, s.main = some r ∧ r.pin.line = n ∧ .set 0x00 ∈ r.rest

/-- The order of the accesses. -/
structure Follows (a : Access) (rest : List Access) : Prop where
  unmask : a = .clear 0x00 → .set 0x00 ∈ rest
  test : a = .testVector → rest = [.storeVector]
  test_of : rest = [.storeVector] → a = .testVector
  last : a = .storeVector → rest = []
  last_of : rest = [] → a = .storeVector
  clear_ne : a ≠ .clear 0x10
  set_ne : a ≠ .set 0x10

/-- The order of what is left of the accesses. -/
theorem follows_of_suffix (h : a :: rest <:+ accesses) : Follows a rest := by
  have hall :
      ∀ l ∈ accesses.tails, ∀ a ∈ l.head?, (a = .clear 0x00 → .set 0x00 ∈ l.tail) ∧
      (a = .testVector → l.tail = [.storeVector]) ∧
      (l.tail = [.storeVector] → a = .testVector) ∧
      (a = .storeVector → l.tail = []) ∧ (l.tail = [] → a = .storeVector) ∧
      a ≠ .clear 0x10 ∧ a ≠ .set 0x10 := by
    decide
  obtain ⟨h₁, h₂, h₃, h₄, h₅, h₆, h₇⟩ :=
    hall (a :: rest) ((List.mem_tails _ _).2 h) a rfl
  exact ⟨h₁, h₂, h₃, h₄, h₅, h₆, h₇⟩

/-- A store sets no pending bit. -/
theorem Stored.pr {v : BitVec 32} (h : Stored r v s a s') (hclear : a ≠ .clear 0x10)
    (hset : a ≠ .set 0x10) (n : Fin 16) (hpr : (s'.io.exti.line n).pr = true) :
    (s.io.exti.line n).pr = true := by
  have hn : n.val < 20 := by omega
  cases h with
  | exticrClear hw | exticrSet hw =>
    dsimp only at hpr
    rwa [(write_sameInputs hw).exti] at hpr
  | pending hw => exact Line.pr_of_write (by decide) hn (write_line hw n ▸ hpr)
  | clear hw =>
    exact Line.pr_of_write (fun ho => hclear (congrArg _ ho)) hn (write_line hw n ▸ hpr)
  | set hw => exact Line.pr_of_write (fun ho => hset (congrArg _ ho)) hn (write_line hw n ▸ hpr)
  | nvic | test | vector => exact hpr

/-- A store keeps a line unmasked, unless it is the one that is registered; when what was
loaded is what is there. -/
theorem Stored.imr {v : BitVec 32} (h : Stored r v s a s')
    (hv : a = .clear 0x00 ∨ a = .set 0x00 → ∀ j, v.getLsbD j = (s.io.exti.line j).imr)
    {n : Fin 16}
    (hn : n = r.pin.line → a ≠ .clear 0x00) (himr : (s.io.exti.line n).imr = true) :
    (s'.io.exti.line n).imr = true := by
  cases h with
  | exticrClear hw | exticrSet hw =>
    dsimp only
    rwa [(write_sameInputs hw).exti]
  | pending hw => rwa [write_line hw n, Line.write_imr _ _ (by decide)]
  | @clear offset exti hw =>
    dsimp only
    rw [write_line hw n]
    rcases eq_or_ne offset 0x00 with rfl | ho
    · show (v &&& ~~~BIT r.pin.line).getLsbD n = true
      rw [getLsbD_and_not_BIT, if_neg fun h => hn (Fin.ext h) rfl, hv (.inl rfl), himr]
    · rwa [Line.write_imr _ _ ho]
  | @set offset exti hw =>
    dsimp only
    rw [write_line hw n]
    rcases eq_or_ne offset 0x00 with rfl | ho
    · show (v ||| BIT r.pin.line).getLsbD n = true
      rw [getLsbD_or_BIT r.pin.line.isLt, hv (.inr rfl), himr, ite_self]
    · rwa [Line.write_imr _ _ ho]
  | nvic | test | vector => exact himr

/-- The store that unmasks the line. -/
theorem Stored.imr_line {v : BitVec 32} (h : Stored r v s (.set 0x00) s') :
    (s'.io.exti.line r.pin.line).imr = true := by
  cases h with
  | nvic ha => rcases ha with ha | ha <;> cases ha
  | set hw =>
    dsimp only
    rw [write_line hw]
    show (v ||| BIT r.pin.line).getLsbD r.pin.line = true
    rw [getLsbD_or_BIT r.pin.line.isLt, if_pos rfl]

/-- A store keeps the routing invariant. -/
theorem Stored.routed {v : BitVec 32} (h : Stored r v s a s') (hr : Routed s.io) :
    Routed s'.io := by
  cases h with
  | exticrClear hw | exticrSet hw => exact write_routed hr hw
  | pending | clear | set => exact hr.of_eq (fun _ => rfl) rfl
  | nvic | test | vector => exact hr

/-- Only the last access changes the table. -/
theorem Stored.isrVector {v : BitVec 32} (h : Stored r v s a s') (ha : a ≠ .storeVector) :
    s'.isrVector = s.isrVector := by
  cases h with
  | vector => exact absurd rfl ha
  | exticrClear | exticrSet | pending | clear | set | nvic | test => rfl

/-- What the mask register holds when it is loaded. -/
theorem load_IMR {value : BitVec 32} (h : r.load s a = .ok (value, s'))
    (ha : a = .clear 0x00 ∨ a = .set 0x00) (j : ℕ) :
    value.getLsbD j = (s'.io.exti.line j).imr := by
  rcases ha with rfl | rfl
  · obtain ⟨rfl, rfl⟩ := Prod.mk.inj (Except.ok.inj h)
    rfl
  · obtain ⟨rfl, rfl⟩ := Prod.mk.inj (Except.ok.inj h)
    rfl

/-- What a load or a store of a call does: the table is tested and written at the end. -/
inductive Accessed (r : Registering) (s : Firmware) (returned : Option Bool) : Program → Prop
  | taken (hrest : r.rest = [.testVector, .storeVector]) (hslot : s.isrVector r.pin.line ≠ none) :
      Accessed r s returned ⟨s, none, some false⟩
  | free (hrest : r.rest = [.testVector, .storeVector]) (hslot : s.isrVector r.pin.line = none) :
      Accessed r s returned ⟨s, some { r with rest := [.storeVector] }, returned⟩
  | registered (hrest : r.rest = [.storeVector]) (hslot : s.isrVector r.pin.line = none) :
      Accessed r s returned
        ⟨{ s with isrVector := Function.update s.isrVector r.pin.line r.isr }, none, some true⟩
  | load {a : Access} {rest : List Access} {value : BitVec 32} {s' : Firmware}
      (hrest : r.rest = a :: rest) (hload : r.load s a = .ok (value, s')) :
      Accessed r s returned ⟨s', some { r with tmp := some value }, returned⟩
  | store {a : Access} {rest : List Access} {v : BitVec 32} {s' : Firmware}
      (hrest : r.rest = a :: rest) (ha : a ≠ .testVector) (ha' : a ≠ .storeVector)
      (hv : a = .clear 0x00 ∨ a = .set 0x00 → ∀ j, v.getLsbD j = (s.io.exti.line j).imr)
      (hst : Stored r v s a s') (htmp : a.Loads = true → r.tmp = some v) :
      Accessed r s returned ⟨s', some { r with rest := rest, tmp := none }, returned⟩

/-- What the next load or store of a call does. -/
theorem step_accessed {returned : Option Bool} {p : Program} (hok : r.Ok s)
    (h : r.step s returned = .ok p) : Accessed r s returned p := by
  obtain ⟨a, rest, hcons⟩ := List.exists_cons_of_ne_nil hok.ne_nil
  have hfollows := follows_of_suffix (hcons ▸ hok.rest)
  rcases eq_or_ne a .testVector with rfl | htest
  · obtain rfl := hfollows.test rfl
    unfold Registering.step at h
    rw [hcons] at h
    dsimp only at h
    split_ifs at h with hslot
    · rw [← pure_eq_ok.1 h]
      exact .taken hcons hslot
    · rw [← pure_eq_ok.1 h]
      exact .free hcons (not_not.1 hslot)
  · rcases eq_or_ne a .storeVector with rfl | hstore
    · obtain rfl := hfollows.last rfl
      unfold Registering.step at h
      rw [hcons] at h
      rw [← Except.ok.inj h]
      exact .registered hcons (hok.free hcons)
    · rw [step_cons r s returned htest hstore hcons] at h
      split_ifs at h with hloads
      · obtain ⟨⟨value, s'⟩, hload, h⟩ := bind_eq_ok.1 h
        rw [← pure_eq_ok.1 h]
        exact .load hcons hload
      · obtain ⟨s', hst, h⟩ := bind_eq_ok.1 h
        rw [← pure_eq_ok.1 h]
        have htmp : a.Loads = true → r.tmp = some (r.tmp.getD 0#32) := fun hl => by
          obtain ⟨v, hv⟩ := Option.ne_none_iff_exists'.1 fun h => hloads ⟨hl, h⟩
          rw [hv]
          rfl
        refine .store hcons htest hstore (fun ha => ?_) (store_stored hst) htmp
        have hl : a.Loads = true := by rcases ha with rfl | rfl <;> rfl
        refine hok.tmp _ (htmp hl) ?_
        rw [hcons]
        exact ha.imp (congrArg some) (congrArg some)

/-- What happens in a step. -/
inductive Happens (s : Program) : Moment → Program → Prop
  | call {clkEnabled : Bool} {isr : Option ℕ} {pin : Pin} (hmain : s.main = none) :
      Happens s (.call clkEnabled isr pin)
        { s with main := some ⟨clkEnabled, isr, pin, accesses, none⟩ }
  | access {r : Registering} {p : Program} (hmain : s.main = some r)
      (hidle : s.firmware.handler = .idle) (hp : Accessed r s.firmware s.returned p) :
      Happens s .access p
  | event {e : Event} {firmware : Firmware} (he : Effect s.firmware e firmware)
      (hreg : ∀ clkEnabled isr pin, e ≠ .registerInt clkEnabled isr pin)
      (hunreg : ∀ pin, e = .unregisterInt pin → s.main = none) :
      Happens s (.event e) { s with firmware := firmware }

/-- What happens in a step of a sound state. -/
theorem happens_of_step {s t : Program} {m : Moment} (h : Sound s) (hs : Program.Step s m t) :
    Happens s m t := by
  obtain ⟨hen, hs⟩ := hs
  cases m with
  | call clkEnabled isr pin =>
    rw [← pure_eq_ok.1 hs]
    exact .call (of_decide_eq_true hen).1
  | access =>
    obtain ⟨hmain, hidle⟩ := of_decide_eq_true hen
    obtain ⟨r, hr⟩ := Option.ne_none_iff_exists'.1 hmain
    unfold Program.step at hs
    rw [hr] at hs
    exact .access hr hidle (step_accessed (h.main r hr) hs)
  | event e =>
    obtain ⟨firmware, hfirmware, hs⟩ := bind_eq_ok.1 hs
    rw [← pure_eq_ok.1 hs]
    have hreg : ∀ clkEnabled isr pin, e ≠ .registerInt clkEnabled isr pin := by
      rintro clkEnabled isr pin rfl
      cases hen
    have henabled : Hal.Enabled s.firmware e = true ∧ ∀ pin, e = .unregisterInt pin →
        s.main = none := by
      cases e with
      | registerInt clkEnabled isr pin => cases hen
      | unregisterInt pin =>
          exact ⟨(of_decide_eq_true hen).2, fun _ _ => (of_decide_eq_true hen).1⟩
      | read d => exact ⟨(of_decide_eq_true hen).2, nofun⟩
      | enter h => exact ⟨hen, nofun⟩
      | handler => exact ⟨hen, nofun⟩
      | gpioIn port n level => exact ⟨hen, nofun⟩
    exact .event (step_effect_of_routed h.routed hreg ⟨henabled.1, hfirmware⟩) hreg henabled.2

/-- What an event does to the lines: it keeps the masks, and sets a pending bit only at an
edge that reaches it. -/
theorem Effect.lines {e : Event} (he : Effect s e s')
    (hreg : ∀ clkEnabled isr pin, e ≠ .registerInt clkEnabled isr pin) (hr : Routed s.io) :
    Routed s'.io ∧ ∀ j, (s'.io.exti.line j).imr = (s.io.exti.line j).imr ∧
      ((s'.io.exti.line j).pr = true → (s.io.exti.line j).pr = true ∨
        ∃ port level, e = .gpioIn port j level ∧ Reaches s.io port j level) := by
  cases he with
  | register => exact absurd rfl (hreg _ _ _)
  | unregister | read | enter | test | call => exact ⟨hr, fun j => ⟨rfl, .inl⟩⟩
  | clear _ hio =>
    refine ⟨hr.of_eq (fun p => by rw [hio.gpio]) hio.afio, fun j => ?_⟩
    dsimp only
    rw [hio.line j]
    split_ifs with hj
    · rw [hj]
      exact ⟨rfl, nofun⟩
    · exact ⟨rfl, .inl⟩
  | @notify port n level io hio =>
    refine ⟨hio.routed, fun j => ⟨hio.imr_eq j, fun hpr => ?_⟩⟩
    rcases (hio.pr_iff j).1 hpr with hpr | ⟨rfl, hreach⟩
    · exact .inl hpr
    · exact .inr ⟨port, level, rfl, hreach⟩

/-- Only `unregisterInt` changes the table. -/
theorem Effect.isrVector {e : Event} (he : Effect s e s')
    (hreg : ∀ clkEnabled isr pin, e ≠ .registerInt clkEnabled isr pin) :
    s'.isrVector = s.isrVector ∨ ∃ pin, e = .unregisterInt pin := by
  cases he with
  | register => exact absurd rfl (hreg _ _ _)
  | @unregister pin => exact .inr ⟨pin, rfl⟩
  | read | enter | test | call | clear | notify => exact .inl rfl

/-- The call goes on in order, and what it has loaded is still there. -/
theorem Accessed.ok {returned : Option Bool} {t : Program} (hp : Accessed r s returned t)
    (hok : r.Ok s) : ∀ r', t.main = some r' → r'.Ok t.firmware := by
  intro r' hr'
  cases hp with
  | taken => cases hr'
  | registered => cases hr'
  | free hrest hslot =>
    obtain rfl := Option.some.inj hr'
    have hlast : [.storeVector] <:+ accesses := by decide
    exact ⟨hlast, nofun, fun v _ hhead => by simp at hhead, fun _ => hslot⟩
  | load hrest hload =>
    obtain rfl := Option.some.inj hr'
    refine ⟨hok.rest, hok.ne_nil, fun v hv hhead => ?_, fun hstore => ?_⟩
    · obtain rfl := Option.some.inj hv
      rw [hrest] at hhead
      exact load_IMR hload (hhead.imp Option.some.inj Option.some.inj)
    · rw [(load_loaded hload).isrVector]
      exact hok.free hstore
  | @store a rest v s' hrest ha ha' hv hst =>
    obtain rfl := Option.some.inj hr'
    have hfollows := follows_of_suffix (hrest ▸ hok.rest)
    exact ⟨(List.suffix_cons a rest).trans (hrest ▸ hok.rest),
      fun h => ha' (hfollows.last_of h), nofun, fun h => absurd (hfollows.test_of h) ha⟩

/-- A load or a store keeps the routing invariant. -/
theorem Accessed.routed {returned : Option Bool} {t : Program} (hp : Accessed r s returned t)
    (h : Routed s.io) : Routed t.firmware.io := by
  cases hp with
  | taken | free | registered => exact h
  | load _ hload => exact (load_loaded hload).routed h
  | store _ _ _ _ hst => exact hst.routed h

/-- A line that is pending is unmasked, or the call will unmask it. -/
theorem Accessed.masked {returned : Option Bool} {t : Program} (hp : Accessed r s returned t)
    (hok : r.Ok s) (h : ∀ n : Fin 16, (s.io.exti.line n).pr = true →
      (s.io.exti.line n).imr = true ∨ r.pin.line = n ∧ .set 0x00 ∈ r.rest) (n : Fin 16)
    (hpr : (t.firmware.io.exti.line n).pr = true) : (t.firmware.io.exti.line n).imr = true ∨
      ∃ r', t.main = some r' ∧ r'.pin.line = n ∧ .set 0x00 ∈ r'.rest := by
  have hlate : .set 0x00 ∉ r.rest → (s.io.exti.line n).pr = true →
      (s.io.exti.line n).imr = true := fun hrest hpr =>
    (h n hpr).resolve_right fun hunmask => hrest hunmask.2
  cases hp with
  | taken hrest => exact .inl (hlate (by rw [hrest]; decide) hpr)
  | free hrest => exact .inl (hlate (by rw [hrest]; decide) hpr)
  | registered hrest => exact .inl (hlate (by rw [hrest]; decide) hpr)
  | load hrest hload =>
    dsimp only at hpr ⊢
    rw [(load_loaded hload).exti] at hpr ⊢
    exact (h n hpr).imp_right fun hunmask => ⟨_, rfl, hunmask⟩
  | @store a rest v s' hrest ha ha' hv hst =>
    have hfollows := follows_of_suffix (hrest ▸ hok.rest)
    have hpr := hst.pr hfollows.clear_ne hfollows.set_ne n hpr
    rcases h n hpr with himr | ⟨hn, hmem⟩
    · by_cases hclear : n = r.pin.line ∧ a = .clear 0x00
      · exact .inr ⟨_, rfl, hclear.1.symm, hfollows.unmask hclear.2⟩
      · exact .inl (hst.imr hv (fun hn ha => hclear ⟨hn, ha⟩) himr)
    · rw [hrest] at hmem
      rcases List.mem_cons.1 hmem with rfl | hmem
      · exact .inl (hn ▸ hst.imr_line)
      · exact .inr ⟨_, rfl, hn, hmem⟩

/-- What happens between two accesses leaves what the call has loaded. -/
theorem Registering.Ok.event (h : r.Ok s)
    (himr : ∀ j, (s'.io.exti.line j).imr = (s.io.exti.line j).imr)
    (hvector : s'.isrVector = s.isrVector) : r.Ok s' := by
  refine ⟨h.rest, h.ne_nil, fun v hv hhead j => ?_, fun hstore => ?_⟩
  · rw [himr]
    exact h.tmp v hv hhead j
  · rw [hvector]
    exact h.free hstore

/-- **A load or a store of a registration keeps the invariant.** -/
theorem accessed_sound {s t : Program} (h : Sound s) (hmain : s.main = some r)
    (hp : Accessed r s.firmware s.returned t) : Sound t := by
  have hok := h.main r hmain
  refine ⟨hp.routed h.routed, hp.ok hok, hp.masked hok fun n hpr =>
    (h.masked n hpr).imp_right ?_⟩
  rintro ⟨r', hr', hunmask⟩
  obtain rfl := Option.some.inj (hmain.symm.trans hr')
  exact hunmask

/-- **A step** keeps what holds in every state. -/
theorem Happens.sound {s t : Program} {m : Moment} (hs : Happens s m t) (h : Sound s) :
    Sound t := by
  cases hs with
  | call hmain =>
    refine ⟨h.routed, fun r' hr' => ?_, fun n hpr => .inl ((h.masked n hpr).resolve_right ?_)⟩
    · obtain rfl := Option.some.inj hr'
      exact ⟨List.suffix_rfl, nofun, nofun, nofun⟩
    · rintro ⟨r, hr, -⟩
      cases hmain.symm.trans hr
  | access hmain _ hp => exact accessed_sound h hmain hp
  | event he hreg hunreg =>
    obtain ⟨hrouted, hlines⟩ := he.lines hreg h.routed
    refine ⟨hrouted, fun r hr => ?_, fun n hpr => ?_⟩
    · rcases he.isrVector hreg with hvector | ⟨pin, rfl⟩
      · exact (h.main r hr).event (fun j => (hlines j).1) hvector
      · cases (hunreg pin rfl).symm.trans hr
    · dsimp only
      rw [(hlines n).1]
      rcases (hlines n).2 hpr with hpr | ⟨port, level, -, hreach⟩
      · exact h.masked n hpr
      · exact .inl hreach.2.1

end Hal
end Especial
