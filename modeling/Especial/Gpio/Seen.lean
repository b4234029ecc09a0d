/-
# The output register and the lines

Two things follow from what a write does to each pin.

* `bsrr_like_odr_iff`: a write to `BRR` does to the outputs what the same write to `ODR`
  would do.  A write to `BSRR` does not, if its high half resets an output that is set:
  the bit is cleared and the line stays high.
* `odr_seen_iff`: the line of an output shows its bit of `ODR` as long as a pin is made
  an output only while the two agree.
-/

import Especial.Gpio.Levels

namespace Especial
namespace Gpio

open Qemu Stm32 Lib

variable {s s' : Stm32Gpio} {n : ℕ} {v : BitVec 32}

/-! ### Setting and resetting bits -/

/-- Two ports have the same `ODR`, and the same levels on the outputs of `s`. -/
structure SameOutputs (s a b : Stm32Gpio) : Prop where
  odr : a.ODR = b.ODR
  level : ∀ n < 16, getModeBits s n ≠ 0#8 → lastLevel a.outIrq n = lastLevel b.outIrq n

/-- A port goes on from `s` with calls on its outputs only. -/
def DrivesOutputs (s a : Stm32Gpio) : Prop :=
  ∃ calls, a.outIrq = s.outIrq ++ calls ∧ ∀ d ∈ calls, getModeBits s d.1 ≠ 0#8

/-- The output register is determined by its sixteen bits. -/
theorem eq_odr_of_pins {a b : Stm32Gpio} (ha : PortOk a) (hb : PortOk b)
    (h : ∀ n < 16, (a.pin n).odr = (b.pin n).odr) : a.ODR = b.ODR := by
  apply BitVec.eq_of_getLsbD_eq
  intro n _
  by_cases hn : n < 16
  · exact h n hn
  · rw [ha.odr n (by omega), hb.odr n (by omega)]

/-- A pin is an output when its mode bits say so. -/
theorem PortOk.out_eq (h : PortOk s) (hn : n < 16) : (s.pin n).out = true ↔
    getModeBits s n ≠ 0#8 := by
  rw [Stm32Gpio.pin, h.dir n hn, decide_eq_true_iff]

/-- `stm32_gpio_trigger_irq` drives no input. -/
theorem triggerIrq_drivesOutputs (h : PortOk s) (v : BitVec 32) (pinNbr : BitVec 16) :
    DrivesOutputs s (triggerIrq s v pinNbr) := by
  refine ⟨_, rfl, fun d hd => ?_⟩
  obtain ⟨pin, hpin, rfl⟩ := List.mem_map.1 hd
  obtain ⟨hlt, hmask⟩ := List.mem_filter.1 hpin
  rw [BitVec.getLsbD_and, Bool.and_eq_true] at hmask
  exact (h.out_eq (List.mem_range.1 hlt)).1 hmask.2

/-- Neither does a write to `BSRR` or `BRR`. -/
theorem write_drivesOutputs {clkEnabled : Bool} {offset : ℕ} (hok : PortOk s)
    (hoffset : offset = 0x10 ∨ offset = 0x14) (h : write clkEnabled s offset v = .ok s') :
    DrivesOutputs s s' := by
  have hchecked : PortOk (checked clkEnabled s) := by
    cases clkEnabled <;> exact ⟨hok.dir, hok.odr⟩
  have hdrives : DrivesOutputs (checked clkEnabled s) s' := by
    cases write_written h with
    | bsrr | brr => exact triggerIrq_drivesOutputs hchecked _ _
    | crl | crh | idr | odr => omega
  cases clkEnabled <;> exact hdrives

/-- Driving the pins that are named, against driving those that change: the levels of an
output that shows its bit come out the same if it is named or does not change. -/
theorem PinState.trigger_level_iff {p : PinState} (hout : p.out = true) (hlevel : p.level = p.odr)
    (named b : Bool) :
    (p.trigger named b).level = (p.write b).level ↔ named = true ∨ b = p.odr := by
  obtain ⟨out, odr, level⟩ := p
  obtain rfl : out = true := hout
  obtain rfl : level = odr := hlevel
  cases named <;> cases b <;> cases level <;> decide

/-- A write to a register that names its pins, against a write to `ODR` with the same
bits. -/
theorem sameOutputs_iff {clkEnabled : Bool} {offset : ℕ} {w : BitVec 32} {a b : Stm32Gpio}
    (hok : PortOk s)
    (hlevel : ∀ n < 16, getModeBits s n ≠ 0#8 → lastLevel s.outIrq n = s.ODR.getLsbD n)
    (ha : write clkEnabled s offset v = .ok a) (hb : write clkEnabled s 0x0c w = .ok b)
    (hafter : ∀ n < 16,
      (s.pin n).after n offset v = (s.pin n).trigger (v.getLsbD n) (w.getLsbD n)) :
    a.ODR = b.ODR ∧ (SameOutputs s a b ↔ ∀ n < 16, getModeBits s n ≠ 0#8 →
      v.getLsbD n = true ∨ w.getLsbD n = s.ODR.getLsbD n) := by
  have hpin_a : ∀ n < 16, a.pin n = (s.pin n).trigger (v.getLsbD n) (w.getLsbD n) := fun n hn =>
    (write_pin ha hn).trans (hafter n hn)
  have hpin_b : ∀ n < 16, b.pin n = (s.pin n).write (w.getLsbD n) := fun n hn => write_pin hb hn
  have hodr : a.ODR = b.ODR := eq_odr_of_pins (hok.write ha) (hok.write hb) fun n hn => by
    rw [hpin_a n hn, hpin_b n hn]
    rfl
  have hone : ∀ n < 16, getModeBits s n ≠ 0#8 →
      (lastLevel a.outIrq n = lastLevel b.outIrq n ↔
      v.getLsbD n = true ∨ w.getLsbD n = s.ODR.getLsbD n) := by
    intro n hn hmode
    have hiff := PinState.trigger_level_iff ((hok.out_eq hn).2 hmode) (hlevel n hn hmode)
      (v.getLsbD n) (w.getLsbD n)
    rw [← hpin_a n hn, ← hpin_b n hn] at hiff
    exact hiff
  refine ⟨hodr, fun h n hn hmode => (hone n hn hmode).1 (h.level n hn hmode),
    fun h => ⟨hodr, ?_⟩⟩
  exact fun n hn hmode => (hone n hn hmode).2 (h n hn hmode)

/-- **`BSRR` and `BRR` against `ODR`.**  In every state of a port in which the line of
each output shows its bit: neither register drives an input; a write to `BRR` leaves
`ODR` and the levels of the outputs as a write of `ODR & ~v` to `ODR` would; and a write
to `BSRR` leaves `ODR` as a write of `(ODR & ~(v >> 16)) | (v & 0xffff)` would, and the
levels of the outputs exactly if it resets no output that is set, unless it also sets it. -/
theorem bsrr_like_odr_iff (periph : Periph) (l : List PortEvent) (s : Stm32Gpio) (clkEnabled : Bool)
    (v : BitVec 32) (hrun : Run PortStep (.alloc periph) l s)
    (hlevel : ∀ n < 16, getModeBits s n ≠ 0#8 → lastLevel s.outIrq n = s.ODR.getLsbD n) :
    ∃ bsrr brr odr₁ odr₂, write clkEnabled s 0x10 v = .ok bsrr ∧
      write clkEnabled s 0x0c ((s.ODR &&& ~~~(v >>> 16)) ||| (v &&& 0xffff#32)) = .ok odr₁ ∧
      write clkEnabled s 0x14 v = .ok brr ∧
      write clkEnabled s 0x0c (s.ODR &&& ~~~v) = .ok odr₂ ∧
      DrivesOutputs s bsrr ∧ DrivesOutputs s brr ∧ SameOutputs s brr odr₂ ∧
      bsrr.ODR = odr₁.ODR ∧
      (SameOutputs s bsrr odr₁ ↔ ∀ n < 16, getModeBits s n ≠ 0#8 →
        s.ODR.getLsbD n = true → v.getLsbD (16 + n) = true → v.getLsbD n = true) := by
  have hok : PortOk s := run_ok hrun
  have hbsrr : ∀ n < 16, ((s.ODR &&& ~~~(v >>> 16)) ||| (v &&& 0xffff#32)).getLsbD n =
      ((s.ODR.getLsbD n && !v.getLsbD (16 + n)) || v.getLsbD n) := by
    intro n hn
    rw [BitVec.getLsbD_or, BitVec.getLsbD_and, BitVec.getLsbD_and, BitVec.getLsbD_not,
      BitVec.getLsbD_ushiftRight, getLsbD_0xffff, decide_eq_true hn,
      decide_eq_true (by omega : n < 32), Bool.true_and, Bool.and_true]
  have hbrr : ∀ n < 16, (s.ODR &&& ~~~v).getLsbD n = (s.ODR.getLsbD n && !v.getLsbD n) := by
    intro n hn
    rw [BitVec.getLsbD_and, BitVec.getLsbD_not, decide_eq_true (by omega : n < 32), Bool.true_and]
  obtain ⟨bsrr, hw₁⟩ : ∃ a, write clkEnabled s 0x10 v = .ok a := ⟨_, rfl⟩
  obtain ⟨brr, hw₂⟩ : ∃ a, write clkEnabled s 0x14 v = .ok a := ⟨_, rfl⟩
  obtain ⟨hodr₁, hsame₁⟩ := sameOutputs_iff hok hlevel hw₁ rfl fun n hn => by
    rw [hbsrr n hn]; rfl
  obtain ⟨-, hsame₂⟩ := sameOutputs_iff hok hlevel hw₂ rfl fun n hn => by
    rw [hbrr n hn]; rfl
  refine ⟨bsrr, brr, _, _, hw₁, rfl, hw₂, rfl, write_drivesOutputs hok (Or.inl rfl) hw₁,
    write_drivesOutputs hok (Or.inr rfl) hw₂, hsame₂.2 fun n hn _ => ?_, hodr₁,
    hsame₁.trans ?_⟩
  · rw [hbrr n hn]
    cases v.getLsbD n <;> simp
  · refine forall_congr' fun n => forall_congr' fun hn => imp_congr_right fun _ => ?_
    rw [hbsrr n hn]
    cases v.getLsbD n <;> cases v.getLsbD (16 + n) <;> cases s.ODR.getLsbD n <;> decide

/-- Pin 0 becomes an output, and is set. -/
def setPin0 : List PortEvent := [.reset, .write true 0x00 0x44444443#32, .write true 0x0c 0x1#32]

/-- An output is set and an input is reset, in one write to `BSRR`. -/
theorem bsrr_like_odr_input : ∃ s bsrr odr₁, Run PortStep (.alloc .gpioa) setPin0 s ∧
    write true s 0x10 0x20001#32 = .ok bsrr ∧
    write true s 0x0c
      ((s.ODR &&& ~~~(0x20001#32 >>> 16)) ||| (0x20001#32 &&& 0xffff#32)) = .ok odr₁ ∧
    SameOutputs s bsrr odr₁ := by
  have hrun : ∃ s, Run PortStep (.alloc .gpioa) setPin0 s ∧
      (∀ n < 16, getModeBits s n ≠ 0#8 → lastLevel s.outIrq n = s.ODR.getLsbD n) ∧
      ∀ n < 16, getModeBits s n ≠ 0#8 → s.ODR.getLsbD n = true →
        (0x20001#32).getLsbD (16 + n) = true → (0x20001#32).getLsbD n = true :=
    ⟨_, .cons rfl (.cons rfl (.cons rfl (.nil _))), by decide, by decide⟩
  obtain ⟨s, hrun, hlevel, hcond⟩ := hrun
  obtain ⟨bsrr, _, odr₁, _, hbsrr, hodr₁, _, _, _, _, _, _, hiff⟩ :=
    bsrr_like_odr_iff .gpioa setPin0 s true 0x20001#32 hrun hlevel
  exact ⟨s, bsrr, odr₁, hrun, hbsrr, hodr₁, hiff.2 hcond⟩

/-- The high half of `BSRR` resets pin 0, and the machine still sees it set. -/
theorem bsrr_reset_unseen : ∃ s bsrr odr₁, Run PortStep (.alloc .gpioa) setPin0 s ∧
    (∀ n < 16, getModeBits s n ≠ 0#8 → lastLevel s.outIrq n = s.ODR.getLsbD n) ∧
    write true s 0x10 0x10000#32 = .ok bsrr ∧
    write true s 0x0c
      ((s.ODR &&& ~~~(0x10000#32 >>> 16)) ||| (0x10000#32 &&& 0xffff#32)) = .ok odr₁ ∧
    getModeBits s 0 ≠ 0#8 ∧ bsrr.ODR = 0#32 ∧ odr₁.ODR = 0#32 ∧
    lastLevel bsrr.outIrq 0 = true ∧ lastLevel odr₁.outIrq 0 = false :=
  ⟨_, _, _, .cons rfl (.cons rfl (.cons rfl (.nil _))),
    by decide, rfl, rfl, by decide, rfl, rfl, rfl, rfl⟩

/-! ### Data before direction -/

/-- A write to `CRL`, `CRH` or `ODR`. -/
def PortEvent.IsCrOrOdr : PortEvent → Prop
  | .write _ offset _ => offset = 0x00 ∨ offset = 0x04 ∨ offset = 0x0c
  | _ => False

/-- The line of pin `n` shows its bit of `ODR` when the event makes the pin an output. -/
def SeenAtSwitch (n : ℕ) (s : Stm32Gpio) : PortEvent → Prop
  | .write _ 0x00 v => n < 8 → outputMode v n = true → lastLevel s.outIrq n = s.ODR.getLsbD n
  | .write _ 0x04 v => 8 ≤ n → outputMode v (n - 8) = true →
      lastLevel s.outIrq n = s.ODR.getLsbD n
  | _ => True

/-- An output shows its bit. -/
def PinState.Seen (p : PinState) : Prop := p.out = true → p.level = p.odr

/-- A write to `ODR` drives the output that changes, and an input is not looked at. -/
theorem PinState.Seen.write {p : PinState} (h : p.Seen) (b : Bool) : (p.write b).Seen := by
  intro hout
  have hlevel : p.level = p.odr := h hout
  have hp : p.out = true := hout
  show (if p.out && (p.odr != b) then b else p.level) = b
  rw [hp, Bool.true_and, hlevel]
  cases p.odr <;> cases b <;> rfl

/-- A pin shows its bit, in terms of the registers. -/
theorem PortOk.seen_iff (h : PortOk s) (hn : n < 16) : (s.pin n).Seen ↔
    (getModeBits s n ≠ 0#8 → lastLevel s.outIrq n = s.ODR.getLsbD n) :=
  imp_congr (h.out_eq hn) Iff.rfl

/-- **One write.**  An output that shows its bit goes on to do so exactly if it shows it
when it is made an output. -/
theorem seen_step_iff {e : PortEvent} (he : e.IsCrOrOdr) (hn : n < 16) (hs : (s.pin n).Seen)
    (h : PortStep s e s') : (s'.pin n).Seen ↔ SeenAtSwitch n s e := by
  cases e with
  | write clkEnabled offset v =>
    rw [write_pin h hn]
    obtain rfl | rfl | rfl := he
    · by_cases h8 : n < 8
      · rw [PinState.after, if_pos h8]
        exact ⟨fun hseen _ => hseen, fun hseen => hseen h8⟩
      · rw [PinState.after, if_neg h8]
        exact iff_of_true hs fun hlt => absurd hlt h8
    · by_cases h8 : n < 8
      · rw [PinState.after, if_pos h8]
        exact iff_of_true hs fun hle => absurd h8 (by omega)
      · rw [PinState.after, if_neg h8]
        exact ⟨fun hseen _ => hseen, fun hseen => hseen (by omega)⟩
    · exact iff_of_true (hs.write _) trivial
  | read | inTrigger | connect | reset => exact he.elim

/-- A step has one outcome. -/
theorem portStep_det (s : Stm32Gpio) (e : PortEvent) (t t' : Stm32Gpio) (h : PortStep s e t)
    (h' : PortStep s e t') : t = t' := Except.ok.inj (h.symm.trans h')

/-- **Data before direction.**  In a sequence of writes to `CRL`, `CRH` and `ODR` after a
reset, the line of pin `n` shows its bit of `ODR` in every state in which the pin is an
output exactly if it shows it whenever the pin is made an output: a change of the bit
of an input is not driven when the pin becomes an output later. -/
theorem odr_seen_iff (s₀ s : Stm32Gpio) (l : List PortEvent) (n : ℕ) (hn : n < 16)
    (hl : ∀ e ∈ l, e.IsCrOrOdr) (h : Run PortStep (reset s₀) l s) :
    (∀ l₁ u, l₁ <+: l → Run PortStep (reset s₀) l₁ u → getModeBits u n ≠ 0#8 →
      lastLevel u.outIrq n = u.ODR.getLsbD n) ↔
      Run (Guarded PortStep (SeenAtSwitch n)) (reset s₀) l s := by
  have h₀ : PortOk (reset s₀) := reset_ok s₀
  have hinput : (reset s₀).dirMask.getLsbD n = false := BitVec.getLsbD_zero
  have hseen₀ : ((reset s₀).pin n).Seen :=
    fun hout => absurd (hinput.symm.trans hout) (by decide)
  rw [← Run.forall_prefix_mem_iff (J := PortOk) (P := fun u => (u.pin n).Seen)
    (A := PortEvent.IsCrOrOdr) (G := SeenAtSwitch n) portStep_det
    (fun _ _ _ hs hi => portStep_ok hs hi)
    (fun s e t he _ hs hi => seen_step_iff he hn hs hi) h hl h₀ hseen₀]
  have hiff : ∀ l₁ u, Run PortStep (reset s₀) l₁ u → ((u.pin n).Seen ↔
      (getModeBits u n ≠ 0#8 → lastLevel u.outIrq n = u.ODR.getLsbD n)) := by
    intro l₁ u hu
    exact (h₀.run hu).seen_iff hn
  exact forall_congr' fun l₁ => forall_congr' fun u => imp_congr_right fun _ =>
    forall_congr' fun hu => (hiff l₁ u hu).symm

/-- Pin 12 is made an output and then set, as an LED is. -/
theorem odr_seen_after_switch : ∃ s, Run PortStep (reset (.alloc .gpioc))
    [.write true 0x04 0x44434444#32, .write true 0x0c 0x1000#32] s ∧
    getModeBits s 12 ≠ 0#8 ∧ lastLevel s.outIrq 12 = s.ODR.getLsbD 12 ∧
    s.ODR.getLsbD 12 = true := by
  have hrun : ∃ s, Run (Guarded PortStep (SeenAtSwitch 12)) (reset (.alloc .gpioc))
      [.write true 0x04 0x44434444#32, .write true 0x0c 0x1000#32] s ∧
      getModeBits s 12 ≠ 0#8 ∧ s.ODR.getLsbD 12 = true :=
    ⟨_, .cons ⟨rfl, fun _ _ => rfl⟩ (.cons ⟨rfl, trivial⟩ (.nil _)), by decide, rfl⟩
  obtain ⟨s, hrun, hmode, hodr⟩ := hrun
  have hplain := hrun.mono fun _ _ _ h => h.1
  have hl : ∀ e ∈ [PortEvent.write true 0x04 0x44434444#32, .write true 0x0c 0x1000#32],
      e.IsCrOrOdr := by
    simp [PortEvent.IsCrOrOdr]
  exact ⟨s, hplain, hmode,
    (odr_seen_iff _ s _ 12 (by decide) hl hplain).2 hrun _ s List.prefix_rfl hplain hmode, hodr⟩

/-- The order of `init_led`: pin 12 is set and then made an output, and its line stays
low. -/
theorem odr_unseen_before_switch : ∃ s, Run PortStep (reset (.alloc .gpioc))
    [.write true 0x0c 0x1000#32, .write true 0x04 0x44434444#32] s ∧
    getModeBits s 12 ≠ 0#8 ∧ s.ODR.getLsbD 12 = true ∧ lastLevel s.outIrq 12 = false :=
  ⟨_, .cons rfl (.cons rfl (.nil _)), by decide, rfl, rfl⟩

end Gpio
end Especial
