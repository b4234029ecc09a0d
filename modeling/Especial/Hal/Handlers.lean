/-
# The handlers call the registered objects

Here a handler runs without interruption, as the functions of `intcontroller.cpp` are
written (`irqHandler`); it is the run of its steps (`run_irqHandler`).  Inputs are
registered on distinct lines, and then inputs change and handlers run.

What holds from the first registration on is `Wired`: the slots are those of the
registrations, a line with a registration is connected to its port and enabled, and any
other line is masked and not pending.  A registration adds to it (`Wired.register`), a
change of an input and a call of `checkLineFlag` keep it.  So a handler calls the objects
of its lines that are pending, each once, and no other (`handlers_call_registered`).
-/

import Especial.Hal.Registration
import Especial.Lib.Run

namespace Especial
namespace Hal

open Qemu Stm32 Lib Gpio Exti Afio

/-! ### The handlers -/

/-- `checkLineFlag`. -/
def checkLineFlag (s : Firmware) (line : Fin 16) : Except Fault Firmware := do
  let status ← extiGetITStatus s.io (BIT line)
  if status then do
    let (valid, s) ← callIsr s (BIT line)
    assert valid "valid"
    let io ← extiClearITPendingBit s.io (BIT line)
    return { s with io := io }
  else return s

/-- The calls of `checkLineFlag` for some lines. -/
def checkLines (s : Firmware) : List (Fin 16) → Except Fault Firmware
  | [] => return s
  | line :: rest => do
    let s ← checkLineFlag s line
    checkLines s rest

/-- `EXTIx_IRQHandler`. -/
def irqHandler (s : Firmware) (h : IrqHandler) : Except Fault Firmware := checkLines s h.lines

variable {s s' : Firmware}

/-- The line is pending and unmasked. -/
def Pending (s : Firmware) (line : Fin 16) : Bool :=
  (s.io.exti.line line).pr && (s.io.exti.line line).imr

/-- `EXTI_GetITStatus` tells whether a line is pending. -/
theorem extiGetITStatus_eq_pending (s : Firmware) (line : Fin 16) :
    extiGetITStatus s.io (BIT line) = .ok (Pending s line) := extiGetITStatus_eq s.io line

/-- A line that is not pending. -/
theorem checkLineFlag_quiet {line : Fin 16} (hp : Pending s line = false) :
    checkLineFlag s line = .ok s := by
  unfold checkLineFlag
  rw [extiGetITStatus_eq_pending, hp]
  rfl

/-- A pending line with a callback. -/
theorem checkLineFlag_pending {line : Fin 16} {d : ℕ} (hp : Pending s line = true)
    (hd : s.isrVector line = some d) : checkLineFlag s line = (do
      let io ← extiClearITPendingBit s.io (BIT line)
      return { called s d with io := io }) := by
  unfold checkLineFlag
  rw [extiGetITStatus_eq_pending, hp, ok_bind, if_pos rfl, callIsr_eq]
  dsimp only
  rw [hd]
  rfl

/-- The handler's steps are those of the functions. -/
theorem run_checkLineFlag {line : Fin 16} (rest : List (Fin 16))
    (h : checkLineFlag s line = .ok s') :
    ∃ k, Run Step { s with handler := .getITStatus line rest } (List.replicate k .handler)
      { s' with handler := .next rest } := by
  have htest : Step { s with handler := .getITStatus line rest } .handler
      { s with handler := if Pending s line then .callIsr line rest else .next rest } := by
    refine ⟨rfl, ?_⟩
    show handlerStep { s with handler := .getITStatus line rest } = _
    unfold handlerStep
    dsimp only
    rw [extiGetITStatus_eq]
    rfl
  cases hp : Pending s line with
  | false =>
    rw [checkLineFlag_quiet hp] at h
    obtain rfl := Except.ok.inj h
    rw [hp] at htest
    exact ⟨1, .cons htest (.nil _)⟩
  | true =>
    rw [hp] at htest
    cases hd : s.isrVector line with
    | none =>
      -- the assertion fails
      unfold checkLineFlag at h
      rw [extiGetITStatus_eq_pending, hp, ok_bind, if_pos rfl, callIsr_eq] at h
      dsimp only at h
      rw [hd] at h
      cases h
    | some d =>
      rw [checkLineFlag_pending hp hd] at h
      obtain ⟨io, hio, h⟩ := bind_eq_ok.1 h
      obtain rfl := pure_eq_ok.1 h
      have hcall : Step { s with handler := .callIsr line rest } .handler
          { called s d with handler := .clearITPendingBit line rest } := by
        refine ⟨rfl, ?_⟩
        show handlerStep { s with handler := .callIsr line rest } = _
        unfold handlerStep
        dsimp only
        rw [callIsr_eq]
        dsimp only
        rw [hd]
        rfl
      have hclear : Step { called s d with handler := .clearITPendingBit line rest } .handler
          { called s d with io := io, handler := .next rest } :=
        ⟨rfl, bind_eq_ok.2 ⟨io, hio, rfl⟩⟩
      exact ⟨3, .cons htest (.cons hcall (.cons hclear (.nil _)))⟩

/-- **A handler that is not interrupted** is the run of its steps. -/
theorem run_irqHandler {h : IrqHandler} (hidle : s.handler = .idle)
    (hcall : irqHandler s h = .ok s') :
    ∃ k, Run Step s (.enter h :: List.replicate k .handler) { s' with handler := .idle } := by
  have hlines : ∀ (ls : List (Fin 16)) (s : Firmware), checkLines s ls = .ok s' →
      ∃ k, Run Step { s with handler := .next ls } (List.replicate k .handler)
        { s' with handler := .idle } := by
    intro ls
    induction ls with
    | nil =>
      intro s h
      obtain rfl := pure_eq_ok.1 h
      exact ⟨0, .nil _⟩
    | cons line rest ih =>
      intro s h
      obtain ⟨u, hline, hrest⟩ := bind_eq_ok.1 h
      obtain ⟨k, hk⟩ := run_checkLineFlag rest hline
      obtain ⟨k', hk'⟩ := ih u hrest
      refine ⟨k + k', ?_⟩
      rw [List.replicate_add]
      exact Run.append_iff.2 ⟨_, hk, hk'⟩
  obtain ⟨k, hk⟩ := hlines h.lines s hcall
  exact ⟨k, .cons ⟨decide_eq_true hidle, rfl⟩ hk⟩

/-! ### The registrations -/

/-- A call of `registerInt`. -/
structure Registration where
  clkEnabled : Bool
  isr : ℕ
  pin : Pin
  deriving DecidableEq, Repr

/-- Calls of `registerInt` one after the other, all of them successful. -/
def registerAll (s : Firmware) : List Registration → Except Fault Firmware
  | [] => return s
  | g :: regs => do
    let (success, s) ← registerInt g.clkEnabled s (some g.isr) g.pin
    assert success "registerInt"
    registerAll s regs

variable {regs : List Registration}

/-- What the registrations have left: their slots, their ports and their masks.  A line
without one is masked and not pending. -/
structure Wired (regs : List Registration) (s : Firmware) : Prop where
  ok : s.Ok
  vector : ∀ g ∈ regs, s.isrVector g.pin.line = some g.isr
  port : ∀ g ∈ regs, extiPort s.io g.pin.line = g.pin.base
  free : ∀ n, (∀ g ∈ regs, g.pin.line ≠ n) → s.isrVector n = none
  masked : ∀ j, (∀ g ∈ regs, g.pin.line.val ≠ j) →
    (s.io.exti.line j).imr = false ∧ (s.io.exti.line j).pr = false

/-- A pending line is a registered one. -/
theorem Wired.of_pr (h : Wired regs s) {j : ℕ} (hpr : (s.io.exti.line j).pr = true) :
    ∃ g ∈ regs, g.pin.line.val = j := by
  by_contra hno
  have hmasked := h.masked j fun g hg heq => hno ⟨g, hg, heq⟩
  exact absurd (hmasked.2.symm.trans hpr) Bool.false_ne_true

/-- So is an unmasked one. -/
theorem Wired.of_imr (h : Wired regs s) {j : ℕ} (himr : (s.io.exti.line j).imr = true) :
    ∃ g ∈ regs, g.pin.line.val = j := by
  by_contra hno
  have hmasked := h.masked j fun g hg heq => hno ⟨g, hg, heq⟩
  exact absurd (hmasked.1.symm.trans himr) Bool.false_ne_true

/-- With the registrations made, a pending bit is always unmasked. -/
theorem Wired.pending_eq (h : Wired regs s) (n : Fin 16) :
    Pending s n = (s.io.exti.line n).pr := by
  cases hpr : (s.io.exti.line n).pr with
  | false => rw [Pending, hpr, Bool.false_and]
  | true =>
    obtain ⟨g, hg, hn⟩ := h.of_pr hpr
    obtain rfl : g.pin.line = n := Fin.ext hn
    have hslot : s.isrVector g.pin.line ≠ none := by
      rw [h.vector g hg]
      nofun
    rw [Pending, hpr, (h.ok.enabled _ hslot).1, Bool.true_and]

/-- A change of the lines that keeps the masks and makes no masked line pending. -/
theorem Wired.of_masks (h : Wired regs s) (hok : s'.Ok) (hvector : s'.isrVector = s.isrVector)
    (hport : ∀ m, extiPort s'.io m = extiPort s.io m)
    (himr : ∀ j, (s'.io.exti.line j).imr = (s.io.exti.line j).imr)
    (hpr : ∀ j, (s'.io.exti.line j).pr = true → (s.io.exti.line j).pr = true ∨
      (s.io.exti.line j).imr = true) : Wired regs s' where
  ok := hok
  vector g hg := by
    rw [hvector]
    exact h.vector g hg
  port g hg := (hport _).trans (h.port g hg)
  free n hn := by
    rw [hvector]
    exact h.free n hn
  masked j hj := by
    refine ⟨(himr j).trans (h.masked j hj).1, Bool.eq_false_iff.2 fun hset => ?_⟩
    rcases hpr j hset with hset | hset
    · exact absurd ((h.masked j hj).2.symm.trans hset) Bool.false_ne_true
    · exact absurd ((h.masked j hj).1.symm.trans hset) Bool.false_ne_true

/-- **A registration** on a line that has none succeeds. -/
theorem Wired.register {g : Registration} (h : Wired regs s)
    (hg : ∀ g' ∈ regs, g'.pin.line ≠ g.pin.line) :
    ∃ s', registerInt g.clkEnabled s (some g.isr) g.pin = .ok (true, s') ∧
    Wired (g :: regs) s' := by
  obtain ⟨⟨b, s'⟩, hcall, hr⟩ :=
    registerInt_returns g.clkEnabled (some g.isr) g.pin h.ok.ports
  obtain rfl : b = true := hr.free.2 (h.free _ hg)
  refine ⟨s', hcall, hr.ok h.ok, fun g' hg' => ?_, fun g' hg' => ?_, fun n hn => ?_,
    fun j hj => ?_⟩
  · rw [hr.vector, if_pos rfl]
    rcases List.mem_cons.1 hg' with rfl | hg'
    · exact Function.update_self ..
    · rw [Function.update_of_ne (hg g' hg')]
      exact h.vector g' hg'
  · rw [hr.port _ g'.pin.line.isLt]
    rcases List.mem_cons.1 hg' with rfl | hg'
    · exact if_pos rfl
    · rw [if_neg fun heq => hg g' hg' (Fin.ext heq)]
      exact h.port g' hg'
  · rw [hr.vector, if_pos rfl, Function.update_of_ne (hn g List.mem_cons_self).symm]
    exact h.free n fun g' hg' => hn g' (List.mem_cons_of_mem g hg')
  · rw [hr.line, if_neg (hj g List.mem_cons_self).symm]
    exact h.masked j fun g' hg' => hj g' (List.mem_cons_of_mem g hg')

/-- The order of the registrations does not matter. -/
theorem Wired.of_mem_iff {regs' : List Registration} (h : Wired regs s)
    (hmem : ∀ g, g ∈ regs' ↔ g ∈ regs) : Wired regs' s where
  ok := h.ok
  vector g hg := h.vector g ((hmem g).1 hg)
  port g hg := h.port g ((hmem g).1 hg)
  free n hn := h.free n fun g hg => hn g ((hmem g).2 hg)
  masked j hj := h.masked j fun g hg => hj g ((hmem g).2 hg)

/-- **Registrations on distinct lines** all succeed. -/
theorem Wired.registerAll {news : List Registration} (h : Wired regs s)
    (hdistinct : ((news ++ regs).map fun g => g.pin.line).Nodup) :
    ∃ s', registerAll s news = .ok s' ∧ Wired (news ++ regs) s' := by
  induction news generalizing regs s with
  | nil => exact ⟨s, rfl, h⟩
  | cons g news ih =>
    have hmiddle : ((g :: news ++ regs).map fun g => g.pin.line).Perm
        ((news ++ g :: regs).map fun g => g.pin.line) := List.perm_middle.symm.map _
    have hdistinct' := hmiddle.nodup_iff.1 hdistinct
    have hg : ∀ g' ∈ regs, g'.pin.line ≠ g.pin.line := fun g' hg' heq => by
      rw [List.cons_append, List.map_cons, List.nodup_cons] at hdistinct
      exact hdistinct.1 (List.mem_map.2 ⟨g', List.mem_append_right _ hg', heq⟩)
    obtain ⟨t, hcall, ht⟩ := h.register hg
    obtain ⟨s', hall, hs'⟩ := ih ht hdistinct'
    refine ⟨s', ?_, hs'.of_mem_iff fun g' => List.perm_middle.symm.mem_iff⟩
    rw [Hal.registerAll, hcall]
    exact hall

/-- **A change of an input** keeps it. -/
theorem Wired.notify {port : Fin GPIO_COUNT} {n : ℕ} {level : Bool} {io : Io} (h : Wired regs s)
    (hio : Notified port n level s.io io) : Wired regs { s with io := io } :=
  h.of_masks ((Effect.notify hio).ok h.ok) rfl hio.port hio.imr_eq fun j hpr => by
    rcases (hio.pr_iff j).1 hpr with hpr | ⟨rfl, hreach⟩
    · exact .inl hpr
    · exact .inr hreach.2.1

/-! ### A run of a handler -/

/-- The objects of those of the lines that are pending, in their order. -/
def pendingObjects (s : Firmware) (ls : List (Fin 16)) : List ℕ :=
  (ls.filter fun n : Fin 16 => (s.io.exti.line n).pr).filterMap s.isrVector

/-- What the calls of `checkLineFlag` for some lines do: they call the objects of those
that are pending, in their order, and clear their pending bits.  The objects that are
called hold the levels of their pins. -/
structure Checked (regs : List Registration) (ls : List (Fin 16)) (s s' : Firmware) : Prop where
  irqs : s'.irqs = s.irqs ++ pendingObjects s ls
  inputs : ∀ d, s'.inputs d =
    if d ∈ pendingObjects s ls then (refresh s d).inputs d else s.inputs d
  pr : ∀ j, (s'.io.exti.line j).pr = true ↔
    (s.io.exti.line j).pr = true ∧ ∀ n ∈ ls, n.val ≠ j
  vector : s'.isrVector = s.isrVector
  gpio : s'.io.gpio = s.io.gpio
  wired : Wired regs s'

/-- The objects of the first line, and those of the others. -/
theorem pendingObjects_cons (s : Firmware) (n : Fin 16) (ls : List (Fin 16)) :
    pendingObjects s (n :: ls) = pendingObjects s [n] ++ pendingObjects s ls := by
  rw [pendingObjects, pendingObjects, pendingObjects, ← List.filterMap_append,
    ← List.filter_append, List.singleton_append]

/-- A refreshed object. -/
theorem refresh_self (s : Firmware) (d : ℕ) : (refresh s d).inputs d =
    { s.inputs d with
      state := if level s.io (s.inputs d).pin.base (s.inputs d).pin.line then .on else .off } :=
  Function.update_self ..

/-- It only depends on itself and on the ports. -/
theorem refresh_inputs_congr {d : ℕ} (hd : s'.inputs d = s.inputs d)
    (hgpio : s'.io.gpio = s.io.gpio) : (refresh s' d).inputs d = (refresh s d).inputs d := by
  have hlevel : level s'.io = level s.io := by
    unfold level
    rw [hgpio]
  rw [refresh_self, refresh_self, hd, hlevel]

/-- To refresh an object twice is to refresh it once. -/
theorem refresh_refresh {d : ℕ} (hd : s'.inputs d = (refresh s d).inputs d)
    (hgpio : s'.io.gpio = s.io.gpio) : (refresh s' d).inputs d = (refresh s d).inputs d := by
  have hlevel : level s'.io = level s.io := by
    unfold level
    rw [hgpio]
  rw [refresh_self] at hd ⊢
  rw [hd, hlevel, refresh_self]

/-- **One call of `checkLineFlag`.** -/
theorem checkLineFlag_checked (h : Wired regs s) (n : Fin 16) :
    Returns (checkLineFlag s n) fun s' => Checked regs [n] s s' := by
  have hpr := h.pending_eq n
  cases hp : Pending s n with
  | false =>
    rw [hp] at hpr
    have hnone : pendingObjects s [n] = [] := by simp [pendingObjects, ← hpr]
    refine ⟨_, checkLineFlag_quiet hp, by rw [hnone, List.append_nil],
      fun d => by rw [hnone, if_neg List.not_mem_nil], fun j => ?_, rfl, rfl, h⟩
    refine ⟨fun hj => ⟨hj, fun m hm heq => ?_⟩, And.left⟩
    obtain rfl := List.mem_singleton.1 hm
    subst heq
    exact absurd (hpr.trans hj) Bool.false_ne_true
  | true =>
    rw [hp] at hpr
    obtain ⟨g, hg, hn⟩ := h.of_pr hpr.symm
    obtain rfl : g.pin.line = n := Fin.ext hn
    have hd := h.vector g hg
    have hone : pendingObjects s [g.pin.line] = [g.isr] := by simp [pendingObjects, ← hpr, hd]
    rw [checkLineFlag_pending hp hd]
    refine .bind (extiClearITPendingBit_returns g.pin.line.isLt) fun io hio => .pure ?_
    have hpr' : ∀ j, (io.exti.line j).pr = true ↔
        (s.io.exti.line j).pr = true ∧ ∀ m ∈ [g.pin.line], m.val ≠ j := fun j => by
      rw [hio.line j, List.forall_mem_singleton]
      split_ifs with hj
      · exact iff_of_false nofun fun h => h.2 hj.symm
      · exact (and_iff_left (Ne.symm hj)).symm
    refine ⟨by rw [hone]; rfl, fun d => ?_, hpr', rfl, hio.gpio, ?_⟩
    · rw [hone]
      split_ifs with hisr
      · rw [List.mem_singleton.1 hisr]
        rfl
      · exact Function.update_of_ne (fun heq => hisr (List.mem_singleton.2 heq)) ..
    · refine h.of_masks (h.ok.acts hio rfl) rfl (fun m => ?_) (fun j => ?_)
        fun j hj => .inl ((hpr' j).1 hj).1
      · dsimp only
        rw [extiPort, hio.afio]
        rfl
      · dsimp only
        rw [hio.line j]
        split_ifs with hj
        · rw [hj]
          rfl
        · rfl

/-- **One line and then the others.**  An object of two lines is called twice, and holds the
level that it read both times. -/
theorem Checked.cons {n : Fin 16} {ls : List (Fin 16)} {u : Firmware} (h₁ : Checked regs [n] s u)
    (h₂ : Checked regs ls u s') (hn : n ∉ ls) : Checked regs (n :: ls) s s' := by
  -- the lines that follow are as they were
  have hkept : ∀ m ∈ ls, (u.io.exti.line m).pr = (s.io.exti.line m).pr := fun m hm => by
    refine Bool.eq_iff_iff.2 ((h₁.pr m).trans (and_iff_left fun n' hn' heq => ?_))
    obtain rfl := List.mem_singleton.1 hn'
    exact hn (Fin.ext heq ▸ hm)
  have hrest : pendingObjects u ls = pendingObjects s ls := by
    rw [pendingObjects, pendingObjects, h₁.vector, List.filter_congr hkept]
  refine ⟨?_, fun d => ?_, fun j => ?_, h₂.vector.trans h₁.vector,
    h₂.gpio.trans h₁.gpio, h₂.wired⟩
  · rw [h₂.irqs, h₁.irqs, hrest, List.append_assoc, ← pendingObjects_cons]
  · rw [h₂.inputs, hrest, pendingObjects_cons]
    by_cases hfirst : d ∈ pendingObjects s [n]
    · have hd := h₁.inputs d
      rw [if_pos hfirst] at hd
      rw [if_pos (List.mem_append_left _ hfirst), refresh_refresh hd h₁.gpio, hd, ite_self]
    · have hd := h₁.inputs d
      rw [if_neg hfirst] at hd
      rw [refresh_inputs_congr hd h₁.gpio, hd]
      simp [hfirst]
  · rw [h₂.pr, h₁.pr, and_assoc]
    simp

/-- **The loop over the lines of a handler.** -/
theorem checkLines_checked {ls : List (Fin 16)} (h : Wired regs s) (hls : ls.Nodup) :
    Returns (checkLines s ls) fun s' => Checked regs ls s s' := by
  induction ls generalizing s with
  | nil =>
    refine .pure ⟨(List.append_nil _).symm, fun d => ?_, fun j => by simp, rfl, rfl, h⟩
    exact (if_neg List.not_mem_nil).symm
  | cons n ls ih =>
    obtain ⟨hn, hls⟩ := List.nodup_cons.1 hls
    refine .bind (checkLineFlag_checked h n) fun u h₁ => ?_
    exact (ih h₁.wired hls).mono fun _ h₂ => h₁.cons h₂ hn

/-- The lines of a handler are distinct. -/
theorem IrqHandler.nodup_lines (h : IrqHandler) : h.lines.Nodup := by
  cases h <;> decide

/-- The objects that are called are those of the registrations whose line is one of `ls`
and pending. -/
theorem Wired.pendingObjects_perm {ls : List (Fin 16)} (h : Wired regs s) (hls : ls.Nodup)
    (hdistinct : (regs.map fun g => g.pin.line).Nodup) :
    (pendingObjects s ls).Perm ((regs.filter fun g => g.pin.line ∈ ls ∧
      (s.io.exti.line g.pin.line).pr).map Registration.isr) := by
  set called' := regs.filter fun g => g.pin.line ∈ ls ∧ (s.io.exti.line g.pin.line).pr
  have hlines : (ls.filter fun n : Fin 16 => (s.io.exti.line n).pr).Perm
      (called'.map fun g => g.pin.line) := by
    refine (List.perm_ext_iff_of_nodup (hls.filter _)
      (hdistinct.sublist (List.filter_sublist.map _))).2 fun n => ?_
    simp only [List.mem_filter, List.mem_map, decide_eq_true_eq]
    constructor
    · rintro ⟨hn, hpr⟩
      obtain ⟨g, hg, hgn⟩ := h.of_pr hpr
      obtain rfl : g.pin.line = n := Fin.ext hgn
      exact ⟨g, ⟨hg, hn, hpr⟩, rfl⟩
    · rintro ⟨g, ⟨-, hn, hpr⟩, rfl⟩
      exact ⟨hn, hpr⟩
  have hisr :
      (called'.map fun g => g.pin.line).filterMap s.isrVector = called'.map Registration.isr := by
    rw [List.filterMap_map, ← List.filterMap_eq_map]
    exact List.filterMap_congr fun g hg => h.vector g (List.mem_of_mem_filter hg)
  rw [pendingObjects, ← hisr]
  exact hlines.filterMap _

/-! ### The system -/

/-- What happens after the registrations: changes of the inputs, and handlers that are not
interrupted. -/
inductive Occurrence
  | gpioIn (port : Fin GPIO_COUNT) (pin : ℕ) (level : Bool)
  | irq (h : IrqHandler)
  deriving DecidableEq, Repr

/-- What it does. -/
def Occurs (s : Firmware) : Occurrence → Firmware → Prop
  | .gpioIn port pin level, s' => ∃ io, gpioInTrigger s.io port pin level = .ok io ∧
      s' = { s with io := io }
  | .irq h, s' => irqHandler s h = .ok s'

/-- **A run of a handler.** -/
theorem irqHandler_checked (h : Wired regs s) (x : IrqHandler) :
    Returns (irqHandler s x) fun s' => Checked regs x.lines s s' :=
  checkLines_checked h x.nodup_lines

/-- **A step** keeps what the registrations have left. -/
theorem Wired.occurs {o : Occurrence} (h : Wired regs s) (ho : Occurs s o s') : Wired regs s' := by
  cases o with
  | gpioIn port n level =>
    obtain ⟨io, hio, rfl⟩ := ho
    exact h.notify (gpioInTrigger_notified h.ok.routed hio)
  | irq x =>
    exact ((irqHandler_checked h x).of_eq_ok ho).wired

/-- **A line becomes pending** only at a change of the pin that is registered on it. -/
theorem Wired.becomes_pending {o : Occurrence} {j : ℕ} (h : Wired regs s) (ho : Occurs s o s')
    (hbefore : (s.io.exti.line j).pr = false) (hafter : (s'.io.exti.line j).pr = true) :
    ∃ g ∈ regs, ∃ level, g.pin.line = j ∧ o = .gpioIn g.pin.base g.pin.line level := by
  cases o with
  | gpioIn port n level =>
    obtain ⟨io, hio, rfl⟩ := ho
    rcases ((gpioInTrigger_notified h.ok.routed hio).pr_iff j).1 hafter with hpr | ⟨rfl, hreach⟩
    · exact absurd (hbefore.symm.trans hpr) Bool.false_ne_true
    · obtain ⟨g, hg, rfl⟩ := h.of_imr hreach.2.1
      have hport : port = g.pin.base := Fin.ext (hreach.1.symm.trans (h.port g hg))
      exact ⟨g, hg, level, rfl, by rw [hport]⟩
  | irq x =>
    have hc := (irqHandler_checked h x).of_eq_ok ho
    exact absurd (hbefore.symm.trans ((hc.pr j).1 hafter).1) Bool.false_ne_true

/-- Without registrations every line is masked. -/
theorem init_wired {io₀ : Io} (aircr : BitVec 32) (pins : ℕ → Pin)
    (hreset : machineReset Io.alloc = .ok io₀) : Wired [] (Firmware.init io₀ aircr pins) := by
  refine ⟨init_ok hreset, nofun, nofun, fun _ _ => rfl, fun j _ => ?_⟩
  show (io₀.exti.line j).imr = false ∧ (io₀.exti.line j).pr = false
  rw [(reset_sameInputs hreset).exti]
  simp [Exti.reset, Stm32Exti.line]

/-- **The registrations succeed**, on distinct lines, and leave their slots, ports and masks. -/
theorem registered_wired {io₀ : Io} (aircr : BitVec 32) (pins : ℕ → Pin)
    (hreset : machineReset Io.alloc = .ok io₀)
    (hdistinct : (regs.map fun g => g.pin.line).Nodup) :
    ∃ s, registerAll (Firmware.init io₀ aircr pins) regs = .ok s ∧ Wired regs s := by
  obtain ⟨s, hall, hs⟩ := (init_wired aircr pins hreset).registerAll
    (by rw [List.append_nil]; exact hdistinct)
  exact ⟨s, hall, by rwa [List.append_nil] at hs⟩

/-- **The handlers call the registered objects.**  Calls of `registerInt` on distinct lines
all succeed.  In every state that changes of the inputs and runs of the handlers lead to
from there, every handler returns, and no assertion fails; it calls `irq` of the objects
whose line is one of its lines and pending, once each, and of no other; the objects that
it calls then hold the level of their pin, and no other object changes; afterwards none of
its lines is pending.  And a line becomes pending only at a change of the pin that is
registered on it. -/
theorem handlers_call_registered (io₀ : Io) (aircr : BitVec 32) (pins : ℕ → Pin)
    (regs : List Registration) (hreset : machineReset Io.alloc = .ok io₀)
    (hdistinct : (regs.map fun g => g.pin.line).Nodup) :
    ∃ s, registerAll (Firmware.init io₀ aircr pins) regs = .ok s ∧
    ∀ l t, Run Occurs s l t →
      (∀ x : IrqHandler, ∃ called t', irqHandler t x = .ok t' ∧ t'.irqs = t.irqs ++ called ∧
        called.Perm ((regs.filter fun g => g.pin.line ∈ x.lines ∧
          (t.io.exti.line g.pin.line).pr).map Registration.isr) ∧
        (∀ d, t'.inputs d = if d ∈ called then
          { t.inputs d with
            state := if level t.io (t.inputs d).pin.base (t.inputs d).pin.line then .on else .off }
          else t.inputs d) ∧
        ∀ n ∈ x.lines, (t'.io.exti.line n).pr = false) ∧
      ∀ o t' j, Occurs t o t' → (t.io.exti.line j).pr = false →
        (t'.io.exti.line j).pr = true →
        ∃ g ∈ regs, ∃ level, g.pin.line = j ∧ o = .gpioIn g.pin.base g.pin.line level := by
  obtain ⟨s, hall, hs⟩ := registered_wired aircr pins hreset hdistinct
  refine ⟨s, hall, fun l t hrun => ?_⟩
  have ht : Wired regs t := hrun.invariant (fun _ _ _ h ho => h.occurs ho) hs
  refine ⟨fun x => ?_, fun o t' j ho => ht.becomes_pending ho⟩
  obtain ⟨t', hcall, hc⟩ := irqHandler_checked ht x
  refine ⟨pendingObjects t x.lines, t', hcall, hc.irqs,
    ht.pendingObjects_perm x.nodup_lines hdistinct, fun d => ?_, fun n hn => ?_⟩
  · rw [hc.inputs d, refresh_self]
  · exact Bool.eq_false_iff.2 fun hpr => ((hc.pr n).1 hpr).2 n hn rfl

/-- An object on `PA.3` and one on `PB.5`. -/
def twoInputs : List Registration :=
  [⟨true, 0, pinA3⟩, ⟨true, 1, { pinB3 with pinNumber := 5#8, pinNumber_lt := by decide }⟩]

/-- An edge on `PA.3`, and its handler. -/
theorem handlers_call_registered_edge : ∃ io₀ s t t', machineReset Io.alloc = .ok io₀ ∧
    registerAll (Firmware.init io₀ 0#32 fun _ => pinA3) twoInputs = .ok s ∧
    Run Occurs s [.gpioIn pinA3.base 3 true] t ∧ irqHandler t .exti3 = .ok t' ∧
    t'.irqs = t.irqs ++ [0] := by
  obtain ⟨io₀, hreset⟩ : ∃ io₀, machineReset Io.alloc = .ok io₀ := ⟨_, rfl⟩
  have hdistinct : (twoInputs.map fun g => g.pin.line).Nodup := by decide
  obtain ⟨s, hall, hs⟩ := registered_wired 0#32 (fun _ => pinA3) hreset hdistinct
  obtain ⟨s', hall', hruns⟩ :=
    handlers_call_registered io₀ 0#32 (fun _ => pinA3) twoInputs hreset hdistinct
  obtain rfl := Except.ok.inj (hall.symm.trans hall')
  -- the edge reaches the pending register
  have hmem : (⟨true, 0, pinA3⟩ : Registration) ∈ twoInputs := List.mem_cons_self
  have hslot : s.isrVector pinA3.line ≠ none := by
    rw [hs.vector _ hmem]
    nofun
  obtain ⟨himr, hrtsr, -⟩ := hs.ok.enabled _ hslot
  have hport := hs.port _ hmem
  dsimp only at hport
  rw [show pinA3.line.val = 3 from rfl] at hport himr hrtsr
  have hreach : Reaches s.io pinA3.base 3 true := ⟨hport, himr, hrtsr⟩
  obtain ⟨io, hio⟩ := hs.ok.routed.gpioInTrigger_returns pinA3.base (by decide : 3 < 16) true
  have hpr : (io.exti.line 3).pr = true :=
    ((gpioInTrigger_notified hs.ok.routed hio).pr_iff 3).2 (.inr ⟨rfl, hreach⟩)
  have hrun : Run Occurs s [.gpioIn pinA3.base 3 true] { s with io := io } :=
    .cons ⟨io, hio, rfl⟩ (.nil _)
  obtain ⟨called, t', hcall, hirqs, hperm, -⟩ := (hruns _ _ hrun).1 .exti3
  have hfilter : ((twoInputs.filter fun g => g.pin.line ∈ IrqHandler.exti3.lines ∧
      (io.exti.line g.pin.line).pr).map Registration.isr) = [0] := by
    have hother : (5 : Fin 16) ∉ IrqHandler.exti3.lines := by decide
    rw [twoInputs, List.filter_cons, List.filter_cons, List.filter_nil,
      if_pos (decide_eq_true ⟨List.mem_singleton.2 rfl, hpr⟩),
      if_neg fun h => hother (of_decide_eq_true h).1]
    rfl
  dsimp only at hperm
  rw [hfilter] at hperm
  rw [List.perm_singleton.1 hperm] at hirqs
  exact ⟨io₀, s, _, t', hreset, hall, hrun, hcall, hirqs⟩

end Hal
end Especial
