/-
# A registration, while it is interrupted

A call of `registerInt` configures the line of its pin access by access (`Preemption`), and
between two accesses handlers run and inputs change.  `Progress` says which registers the
call has set for the line so far.  The next access brings it one register further
(`Accessed.progress`), and nothing that happens in between takes one back
(`Progress.event`); so when the call returns the line is configured (`LineReady`), however
often it was interrupted.
-/

import Especial.Hal.Mcu
import Especial.Hal.Served

namespace Especial
namespace Hal

open Qemu Stm32 Lib Gpio Exti Afio

/-! ### The bits of the line -/

/-- The registers of the controller in which a registration sets the bit of its line: the
mask and the two triggers. -/
def lineRegisters : List ℕ := [0x00, 0x08, 0x0c]

/-- The bit of a line in one of them. -/
def lineBit (l : Line) : ℕ → Bool
  | 0x00 => l.imr
  | 0x08 => l.rtsr
  | 0x0c => l.ftsr
  | _ => true

/-- A request for the pending bit leaves the others. -/
theorem lineBit_apply (l : Line) (request : Option Bool) (o : ℕ) :
    lineBit (l.apply request) o = lineBit l o := by
  obtain ⟨himr, hrtsr, hftsr⟩ := masks_apply l request
  unfold lineBit
  split
  · exact himr
  · exact hrtsr
  · exact hftsr
  · rfl

/-- A write of another register leaves the bit. -/
theorem lineBit_write_of_ne (i : ℕ) (l : Line) {offset o : ℕ} (ho : o ≠ offset) (b : Bool) :
    lineBit (l.write i offset b) o = lineBit l o := by
  unfold Line.write
  split
  · unfold lineBit
    split <;> first | rfl | exact absurd rfl ho
  · split_ifs
    · rw [← lineBit_apply l (l.tsrRequest .rising b) o]
      unfold lineBit
      split <;> first | rfl | exact absurd rfl ho
    · rfl
  · split_ifs
    · rw [← lineBit_apply l (l.tsrRequest .falling b) o]
      unfold lineBit
      split <;> first | rfl | exact absurd rfl ho
    · rfl
  · split_ifs
    · rw [lineBit_apply]
      unfold lineBit
      split <;> rfl
    · rfl
  · split_ifs
    · exact lineBit_apply _ _ _
    · rfl
  · rfl

/-- A write of a `1` sets the bit. -/
theorem lineBit_write_true {i : ℕ} (hi : i < 20) (l : Line) (o : ℕ) :
    lineBit (l.write i o true) o = true := by
  unfold lineBit
  split
  · rfl
  · simp [Line.write, hi, Line.setTsr]
  · simp [Line.write, hi, Line.setTsr]
  · rfl

variable {r : Registering} {s s' : Firmware} {a : Access} {rest : List Access} {v : BitVec 32}

/-- A store to another register leaves the bits of all lines. -/
theorem Stored.lineBit (h : Stored r v s a s') {o : ℕ} (ho : o ∈ lineRegisters)
    (hclear : a ≠ .clear o) (hset : a ≠ .set o) (n : Fin 16) :
    Hal.lineBit (s'.io.exti.line n) o = Hal.lineBit (s.io.exti.line n) o := by
  cases h with
  | exticrClear hw | exticrSet hw =>
    dsimp only
    rw [(write_sameInputs hw).exti]
  | pending hw =>
    dsimp only
    rw [write_line hw n, lineBit_write_of_ne]
    rintro rfl
    exact absurd ho (by decide)
  | clear hw =>
    dsimp only
    rw [write_line hw n, lineBit_write_of_ne _ _ fun heq => hclear (congrArg _ heq.symm)]
  | set hw =>
    dsimp only
    rw [write_line hw n, lineBit_write_of_ne _ _ fun heq => hset (congrArg _ heq.symm)]
  | nvic | test | vector => rfl

/-- The store that sets a bit of the line. -/
theorem Stored.lineBit_set {o : ℕ} (h : Stored r v s (.set o) s') :
    Hal.lineBit (s'.io.exti.line r.pin.line) o = true := by
  cases h with
  | nvic ha => rcases ha with ha | ha <;> cases ha
  | set hw =>
    have hbit : (v ||| BIT r.pin.line).getLsbD r.pin.line = true := by
      rw [getLsbD_or_BIT r.pin.line.isLt, if_pos rfl]
    have hline : (r.pin.line : ℕ) < 20 := by have := r.pin.line.isLt; omega
    dsimp only
    rw [write_line hw, show (v ||| r.pin.pin).getLsbD r.pin.line = true from hbit]
    exact lineBit_write_true hline _ _

/-! ### The port of the line -/

/-- The `EXTICR` register of a pin. -/
theorem exists_exticr_index (pin : Pin) :
    ∃ index : Fin 4, (pin.pinNumber >>> 2).toNat = index ∧ (pin.line : ℕ) / 4 = index := by
  have hline := pin.line.isLt
  have hindex : (pin.pinNumber >>> 2).toNat = pin.line / 4 := by
    rw [BitVec.toNat_ushiftRight, Nat.shiftRight_eq_div_pow]
    rfl
  exact ⟨⟨pin.line / 4, by omega⟩, hindex, rfl⟩

/-- A write of this register. -/
theorem write_exticr_port {clkEnabled : Bool} {io io' : Io} {pin : Pin} {value : BitVec 32}
    (hw : Afio.write clkEnabled io (0x08 + 4 * (pin.pinNumber >>> 2).toNat) value = .ok io') :
    extiPort io' pin.line = nibble value (pin.line % 4) ∧
      ∀ m < 16, extiPort io' m < GPIO_COUNT ∨ extiPort io' m = extiPort io m := by
  obtain ⟨index, hindex, hdiv⟩ := exists_exticr_index pin
  rw [hindex, write_EXTICR] at hw
  have hport : ∀ m < 16, extiPort io' m =
      if m / 4 = index then nibble value (m % 4) else extiPort io m := fun m hm => by
    have hroute := congrArg Route.port (exticrWrite_route hw hm)
    rw [apply_ite Route.port, route_checkPeriphClk] at hroute
    exact hroute
  refine ⟨(hport _ pin.line.isLt).trans (if_pos hdiv), fun m hm => ?_⟩
  rw [hport m hm]
  split_ifs with hm4
  · exact .inl (exticrWrite_nibble_lt hw (Nat.mod_lt _ (by decide)))
  · exact .inr rfl

/-- A store leaves every line connected to a port that exists. -/
theorem Stored.ports (h : Stored r v s a s') (hports : ∀ m < 16, extiPort s.io m < GPIO_COUNT) :
    ∀ m < 16, extiPort s'.io m < GPIO_COUNT := by
  intro m hm
  cases h with
  | exticrClear hw | exticrSet hw =>
    rcases (write_exticr_port hw).2 m hm with hlt | heq
    · exact hlt
    · exact heq ▸ hports m hm
  | pending | clear | set | nvic | test | vector => exact hports m hm

/-- A store to another device leaves the ports of all lines. -/
theorem Stored.port (h : Stored r v s a s') (hclear : a ≠ .exticrClear)
    (hset : a ≠ .exticrSet) (m : ℕ) : extiPort s'.io m = extiPort s.io m := by
  cases h with
  | exticrClear => exact absurd rfl hclear
  | exticrSet => exact absurd rfl hset
  | pending | clear | set | nvic | test | vector => rfl

/-- The position of the line in its register. -/
theorem toNat_pinNumber_and (pin : Pin) : (pin.pinNumber &&& 0x03#8).toNat = pin.line % 4 := by
  rw [BitVec.toNat_and, show (0x03#8).toNat = 2 ^ 2 - 1 from rfl, Nat.and_two_pow_sub_one_eq_mod]
  rfl

/-- The first store connects the line to port A. -/
theorem Stored.port_exticrClear (h : Stored r v s .exticrClear s') :
    extiPort s'.io r.pin.line = 0 := by
  cases h with
  | nvic ha => rcases ha with ha | ha <;> cases ha
  | exticrClear hw =>
    rw [(write_exticr_port hw).1, toNat_pinNumber_and, nibble_clear _ (Nat.mod_lt _ (by decide)),
      if_pos rfl]

/-- The second one connects it to the port of the pin, if what was loaded is clear there. -/
theorem Stored.port_exticrSet (h : Stored r v s .exticrSet s')
    (hv : nibble v (r.pin.line % 4) = 0) : extiPort s'.io r.pin.line = r.pin.base := by
  have hlt := r.pin.base.isLt
  have hsrc : (r.pin.port - 0x41#8).toNat = r.pin.base := by
    rw [BitVec.toNat_sub_of_le (by rw [BitVec.le_def]; exact r.pin.port_ok.1)]
    rfl
  have hwidth :
      (r.pin.port - 0x41#8).setWidth 32 = ((r.pin.port - 0x41#8).setWidth 4).setWidth 32 := by
    apply BitVec.eq_of_toNat_eq
    simp only [BitVec.toNat_setWidth]
    unfold GPIO_COUNT at hlt
    omega
  cases h with
  | nvic ha => rcases ha with ha | ha <;> cases ha
  | exticrSet hw =>
    rw [(write_exticr_port hw).1, toNat_pinNumber_and,
      nibble_set hwidth (Nat.mod_lt _ (by decide)) hv, if_pos rfl, BitVec.toNat_setWidth, hsrc]
    unfold GPIO_COUNT at hlt
    omega

/-- What is loaded for the second store. -/
theorem load_exticrSet {value : BitVec 32} (h : r.load s .exticrSet = .ok (value, s')) :
    nibble value (r.pin.line % 4) = extiPort s.io r.pin.line := by
  obtain ⟨index, hindex, hdiv⟩ := exists_exticr_index r.pin
  obtain ⟨⟨w, io⟩, hread, h⟩ := bind_eq_ok.1 h
  rw [hindex, read_EXTICR] at hread
  obtain ⟨rfl, -⟩ := Prod.mk.inj (Except.ok.inj hread)
  obtain ⟨rfl, -⟩ := Prod.mk.inj (pure_eq_ok.1 h)
  rw [extiPort, (ofNat_eq_iff r.pin.line.isLt).2 hdiv]

/-! ### How far a call has come -/

/-- The line of a pin is configured: unmasked, sensitive to both edges, and connected to the
port of the pin. -/
structure LineReady (pin : Pin) (s : Firmware) : Prop where
  bits : ∀ o ∈ lineRegisters, lineBit (s.io.exti.line pin.line) o = true
  port : extiPort s.io pin.line = pin.base

/-- What a call has done for the line of its pin, and what it has loaded. -/
structure Registering.Progress (r : Registering) (s : Firmware) : Prop where
  bits : ∀ o ∈ lineRegisters, .set o ∉ r.rest → lineBit (s.io.exti.line r.pin.line) o = true
  port : .exticrSet ∉ r.rest → extiPort s.io r.pin.line = r.pin.base
  cleared : r.rest.head? = some .exticrSet → extiPort s.io r.pin.line = 0
  loaded : r.rest.head? = some .exticrSet → ∀ v, r.tmp = some v →
    nibble v (r.pin.line % 4) = 0

/-- At the beginning nothing is done. -/
theorem Registering.Progress.start (hrest : r.rest = accesses) : r.Progress s := by
  have hall : ∀ o ∈ lineRegisters, Access.set o ∈ accesses := by decide
  refine ⟨fun o ho hset => absurd ?_ hset, fun hset => absurd ?_ hset, fun hhead => ?_,
    fun hhead => ?_⟩
  · rw [hrest]
    exact hall o ho
  · rw [hrest]
    decide
  · rw [hrest] at hhead
    exact absurd hhead (by decide)
  · rw [hrest] at hhead
    exact absurd hhead (by decide)

/-- At the end everything is. -/
theorem Registering.Progress.lineReady (h : r.Progress s)
    (hset : ∀ o ∈ lineRegisters, .set o ∉ r.rest)
    (hport : .exticrSet ∉ r.rest) : LineReady r.pin s :=
  ⟨fun o ho => h.bits o ho (hset o ho), h.port hport⟩

/-- The order of the accesses to the registers of the line. -/
structure LineOrder (a : Access) (rest : List Access) : Prop where
  clear : ∀ o ∈ lineRegisters, a = .clear o → .set o ∈ rest
  exticr : a = .exticrClear → .exticrSet ∈ rest
  exticr_of : rest.head? = some .exticrSet → a = .exticrClear

/-- The order in which `registerInt` makes them. -/
theorem lineOrder_of_suffix (h : a :: rest <:+ accesses) : LineOrder a rest := by
  have hall : ∀ l ∈ accesses.tails, ∀ a ∈ l.head?,
      (∀ o ∈ lineRegisters, a = .clear o → .set o ∈ l.tail) ∧
      (a = .exticrClear → .exticrSet ∈ l.tail) ∧
      (l.tail.head? = some .exticrSet → a = .exticrClear) := by
    decide
  obtain ⟨h₁, h₂, h₃⟩ := hall (a :: rest) ((List.mem_tails _ _).2 h) a rfl
  exact ⟨h₁, h₂, h₃⟩

/-- A store brings the call one register further. -/
theorem Stored.progress (h : Stored r v s a s') (hp : r.Progress s) (hrest : r.rest = a :: rest)
    (horder : LineOrder a rest) (htmp : a.Loads = true → r.tmp = some v) :
    Registering.Progress { r with rest := rest, tmp := none } s' := by
  have hmem : ∀ {b : Access}, b ∉ rest → a ≠ b → b ∉ r.rest := fun hb ha => by
    rw [hrest]
    exact fun h => (List.mem_cons.1 h).elim (fun heq => ha heq.symm) hb
  refine ⟨fun o ho hset => ?_, fun hset => ?_, fun hhead => ?_, fun _ v hv => nomatch hv⟩
  · rcases eq_or_ne a (.set o) with rfl | ha
    · exact h.lineBit_set
    · have hclear : a ≠ .clear o := fun heq => hset (horder.clear o ho heq)
      exact (h.lineBit ho hclear ha _).trans (hp.bits o ho (hmem hset ha))
  · rcases eq_or_ne a .exticrSet with rfl | ha
    · exact h.port_exticrSet (hp.loaded (by rw [hrest]; rfl) v (htmp rfl))
    · have hclear : a ≠ .exticrClear := fun heq => hset (horder.exticr heq)
      exact (h.port hclear ha _).trans (hp.port (hmem hset ha))
  · obtain rfl := horder.exticr_of hhead
    exact h.port_exticrClear

/-- **An access** of a call brings it further; when the call returns the line is configured. -/
theorem Accessed.progress {returned : Option Bool} {t : Program} (hp : Accessed r s returned t)
    (hok : r.Ok s) (h : r.Progress s) : (∀ r', t.main = some r' → r'.Progress t.firmware) ∧
      (t.main = none → LineReady r.pin t.firmware) := by
  have hlate :
      ∀ o ∈ lineRegisters, Access.set o ∉ [Access.testVector, .storeVector] := by decide
  cases hp with
  | taken hrest =>
    exact ⟨nofun, fun _ => h.lineReady (by rw [hrest]; exact hlate) (by rw [hrest]; decide)⟩
  | registered hrest =>
    have hready := h.lineReady (fun o ho => by
      rw [hrest]
      exact fun hmem => hlate o ho (List.mem_cons_of_mem _ hmem)) (by rw [hrest]; decide)
    exact ⟨nofun, fun _ => ⟨hready.bits, hready.port⟩⟩
  | free hrest =>
    have hready := h.lineReady (by rw [hrest]; exact hlate) (by rw [hrest]; decide)
    refine ⟨fun r' hr' => ?_, nofun⟩
    obtain rfl := Option.some.inj hr'
    exact ⟨fun o ho _ => hready.bits o ho, fun _ => hready.port, nofun, nofun⟩
  | @load a rest value s' hrest hload =>
    have hl := load_loaded hload
    have hport : extiPort s'.io r.pin.line = extiPort s.io r.pin.line :=
      congrArg Route.port (hl.route _)
    refine ⟨fun r' hr' => ?_, nofun⟩
    obtain rfl := Option.some.inj hr'
    refine ⟨fun o ho hset => ?_, fun hset => hport.trans (h.port hset),
      fun hhead => hport.trans (h.cleared hhead), fun hhead w hw => ?_⟩
    · dsimp only
      rw [hl.exti]
      exact h.bits o ho hset
    · obtain rfl := Option.some.inj hw
      have ha : a = .exticrSet := by
        rw [show Registering.rest { r with tmp := some value } = r.rest from rfl, hrest] at hhead
        exact Option.some.inj hhead
      subst ha
      exact (load_exticrSet hload).trans (h.cleared hhead)
  | store hrest _ _ _ hst htmp =>
    refine ⟨fun r' hr' => ?_, nofun⟩
    obtain rfl := Option.some.inj hr'
    exact hst.progress h hrest (lineOrder_of_suffix (hrest ▸ hok.rest)) htmp

/-- What an access leaves alone: the objects, the handler, the outputs and the levels of the
inputs. -/
structure Untouched (s s' : Firmware) : Prop where
  inputs : s'.inputs = s.inputs
  handler : s'.handler = s.handler
  outputs : SameOutputs s.io s'.io
  level : ∀ p, (s'.io.gpio p).inputs = (s.io.gpio p).inputs

/-- A store does. -/
theorem Stored.untouched (h : Stored r v s a s') : Untouched s s' := by
  cases h with
  | exticrClear hw | exticrSet hw =>
    exact ⟨rfl, rfl, write_sameOutputs hw, (write_sameInputs hw).inputs⟩
  | pending | clear | set | nvic | test | vector => exact ⟨rfl, rfl, fun _ => rfl, fun _ => rfl⟩

/-- **An access** does. -/
theorem Accessed.untouched {returned : Option Bool} {t : Program} (hp : Accessed r s returned t) :
    Untouched s t.firmware := by
  cases hp with
  | taken | free | registered => exact ⟨rfl, rfl, fun _ => rfl, fun _ => rfl⟩
  | load _ hload =>
    have hl := load_loaded hload
    exact ⟨hl.inputs, hl.handler, .of_gpio hl.gpio, fun p => by rw [hl.gpio]⟩
  | store _ _ _ _ hst => exact hst.untouched

/-- Every line stays connected to a port that exists. -/
theorem Accessed.ports {returned : Option Bool} {t : Program} (hp : Accessed r s returned t)
    (hports : ∀ m < 16, extiPort s.io m < GPIO_COUNT) :
    ∀ m < 16, extiPort t.firmware.io m < GPIO_COUNT := by
  cases hp with
  | taken | free | registered => exact hports
  | load _ hload =>
    intro m hm
    rw [show extiPort _ m = extiPort s.io m from congrArg Route.port ((load_loaded hload).route m)]
    exact hports m hm
  | store _ _ _ _ hst => exact hst.ports hports

/-! ### What happens between two accesses -/

variable {e : Event}

/-- No event but a registration changes the bits and the port of a line. -/
theorem Effect.lineBits (he : Effect s e s')
    (hreg : ∀ clkEnabled isr pin, e ≠ .registerInt clkEnabled isr pin) :
    (∀ n o, lineBit (s'.io.exti.line n) o = lineBit (s.io.exti.line n) o) ∧
      ∀ m, extiPort s'.io m = extiPort s.io m := by
  cases he with
  | register => exact absurd rfl (hreg _ _ _)
  | unregister | read | enter | test | call => exact ⟨fun _ _ => rfl, fun _ => rfl⟩
  | clear _ hio =>
    refine ⟨fun n o => ?_, fun m => by rw [extiPort, hio.afio]; rfl⟩
    dsimp only
    rw [hio.line]
    split_ifs with hn
    · rw [hn]
      exact lineBit_apply _ _ _
    · rfl
  | notify hio =>
    refine ⟨fun n o => ?_, hio.port⟩
    dsimp only
    rw [hio.line]
    split_ifs
    · exact lineBit_apply _ _ _
    · rfl

/-- **What happens between two accesses** takes nothing back. -/
theorem Registering.Progress.event (h : r.Progress s) (he : Effect s e s')
    (hreg : ∀ clkEnabled isr pin, e ≠ .registerInt clkEnabled isr pin) : r.Progress s' := by
  obtain ⟨hbits, hport⟩ := he.lineBits hreg
  refine ⟨fun o ho hset => ?_, fun hset => ?_, fun hhead => ?_, h.loaded⟩
  · rw [hbits]
    exact h.bits o ho hset
  · rw [hport]
    exact h.port hset
  · rw [hport]
    exact h.cleared hhead

/-- A line that is configured stays so. -/
theorem LineReady.event {pin : Pin} (h : LineReady pin s) (he : Effect s e s')
    (hreg : ∀ clkEnabled isr pin, e ≠ .registerInt clkEnabled isr pin) : LineReady pin s' := by
  obtain ⟨hbits, hport⟩ := he.lineBits hreg
  refine ⟨fun o ho => ?_, ?_⟩
  · rw [hbits]
    exact h.bits o ho
  · rw [hport]
    exact h.port

end Hal
end Especial
