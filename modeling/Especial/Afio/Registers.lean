/-
# What the AFIO makes of the values it is given

`MAPR` is not stored: a write decodes three fields and a read puts them together again.
`stm32_afio_AFIO_MAPR_write` takes the fields of USART1 and USART2 from the variable
`AFIO_MAPR` instead of the new value, and nothing writes that variable; so only the field
of USART3 can be changed (`mapr_write_iff`).

A nibble of an `EXTICR` register is an index into the array of the seven ports.  A write
uses the nibbles of the new value, and those of the old one, without a check.  Since the
old value was written before, all indices are in bounds exactly if all written nibbles
are (`exticr_indices_iff`).
-/

import Especial.Afio.Resets
import Especial.Lib.Returns

namespace Especial
namespace Afio

open Qemu Stm32 Lib Gpio Exti

variable {io io' : Io} {v : BitVec 32}

/-! ### Who changes the registers -/

/-- Connecting a line writes no register of the AFIO. -/
theorem exticrLine_afio {index : Fin 4} {init : Bool} {i : ℕ}
    (h : exticrLine index v init io i = .ok io') : io'.afio = io.afio := by
  unfold exticrLine at h
  obtain ⟨io₁, h₁, h₂⟩ := bind_eq_ok.1 h
  rw [(connectIrq_spec h₂).2.1]
  cases init with
  | true => rw [← pure_eq_ok.1 h₁]
  | false => exact (connectIrq_spec h₁).2.1

/-- A write to `EXTICR` changes that register of the AFIO and no other. -/
theorem exticrWrite_afio {index : Fin 4} {init : Bool} (h : exticrWrite io index v init = .ok io') :
    io'.afio = { io.afio with EXTICR := Function.update io.afio.EXTICR index v } := by
  unfold exticrWrite at h
  obtain ⟨io₁, hloop, h⟩ := bind_eq_ok.1 h
  have hafio : io₁.afio = io.afio :=
    foldlM_invariant (P := fun io₁ : Io => io₁.afio = io.afio)
      (fun a b i _ ha hi => (exticrLine_afio hi).trans ha) rfl hloop
  rw [← pure_eq_ok.1 h, ← hafio]

/-! ### Pin mappings -/

/-- What the AFIO keeps of `MAPR`: the three fields, and the variable of that name. -/
structure Mapping where
  usart1 : BitVec 32
  usart2 : BitVec 32
  usart3 : BitVec 32
  mapr : BitVec 32

/-- The mapping of an AFIO. -/
def Stm32Afio.mapping (s : Stm32Afio) : Mapping :=
  ⟨s.USART1_REMAP, s.USART2_REMAP, s.USART3_REMAP, s.AFIO_MAPR⟩

/-- The mapping after a write of `v`, in a machine where the variable is `0`. -/
def Mapping.of (v : BitVec 32) : Mapping := ⟨0#32, 0#32, extract32 v 4 2, 0#32⟩

/-- The value that an event writes to `MAPR`. -/
def Event.mapr : Event → Option (BitVec 32)
  | .afioWrite _ offset value => if offset = 0x04 then some value else none
  | .afioReset => some 0#32
  | _ => none

/-- The value last written to `MAPR`. -/
def maprValue (l : List Event) : BitVec 32 := l.foldl (fun v e => e.mapr.getD v) 0#32

/-- The bits of the mask of the USART3 field are bits 4 and 5. -/
theorem getLsbD_usart3Mask :
    ∀ i < 32, (0x30#32).getLsbD i = (decide (4 ≤ i) && decide (i < 6)) := by
  decide

/-- The field of USART3, cut out with a mask. -/
theorem and_ushiftRight_eq_extract32 (v : BitVec 32) : (v &&& 0x30#32) >>> 4 = extract32 v 4 2 := by
  apply BitVec.eq_of_getLsbD_eq
  intro i _
  rw [extract32, getLsbD_extractField (by decide), BitVec.getLsbD_ushiftRight, BitVec.getLsbD_and]
  by_cases hi : 4 + i < 32
  · rw [getLsbD_usart3Mask _ hi]
    congr 1
    rw [Bool.eq_iff_iff]
    simp only [Bool.and_eq_true, decide_eq_true_eq]
    omega
  · rw [BitVec.getLsbD_of_ge v _ (by omega)]
    rfl

/-- The field of USART3, put back. -/
theorem extract32_shiftLeft (v : BitVec 32) : extract32 v 4 2 <<< 4 = v &&& 0x30#32 := by
  rw [← and_ushiftRight_eq_extract32]
  apply BitVec.eq_of_getLsbD_eq
  intro i hi
  rw [BitVec.getLsbD_shiftLeft, BitVec.getLsbD_ushiftRight, BitVec.getLsbD_and, BitVec.getLsbD_and,
    getLsbD_usart3Mask i hi]
  by_cases h4 : i < 4
  · have hle : ¬4 ≤ i := by omega
    simp [h4, hle]
  · have hsub : 4 + (i - 4) = i := by omega
    rw [hsub, getLsbD_usart3Mask i hi]
    simp [h4, hi]

/-- The fields of USART1 and USART2 are `0`. -/
theorem and_c_eq_zero_iff (v : BitVec 32) :
    v &&& 0xc#32 = 0#32 ↔ v.getLsbD 2 = false ∧ v.getLsbD 3 = false := by
  have hmask : 0xc#32 = bit 32 2 ||| bit 32 3 := by decide
  have hsplit : v &&& 0xc#32 = (v &&& bit 32 2) ||| (v &&& bit 32 3) := by
    rw [hmask, BitVec.and_or_distrib_left]
  rw [hsplit, BitVec.or_eq_zero_iff, ← not_iff_not, not_and_or, not_and_or]
  rw [← Ne, ← Ne, and_bit_ne_zero, and_bit_ne_zero, Bool.not_eq_false, Bool.not_eq_false]

/-- A field of one bit is `0` when the bit is. -/
theorem extract32_one_eq_zero_iff (v : BitVec 32) (i : ℕ) :
    0#32 = extract32 v i 1 ↔ v.getLsbD i = false := by
  rw [extract32, extractField_one (by decide)]
  cases v.getLsbD i <;> decide

/-- **A write of `MAPR`** gives the mapping of its value, as long as the variable is `0`. -/
theorem maprWrite_mapping {s : Stm32Afio} (h : s.mapping.mapr = 0#32) (v : BitVec 32) :
    (maprWrite s v).mapping = .of v := by
  have hzero : s.AFIO_MAPR = 0#32 := h
  unfold maprWrite Stm32Afio.mapping Mapping.of
  dsimp only
  rw [hzero, and_ushiftRight_eq_extract32]
  rfl

/-- A write of an `EXTICR` register keeps the mapping. -/
theorem exticrWrite_mapping {index : Fin 4} {init : Bool}
    (h : exticrWrite io index v init = .ok io') : io'.afio.mapping = io.afio.mapping := by
  rw [exticrWrite_afio h]
  rfl

/-- The check of the clock keeps the mapping. -/
theorem checkPeriphClk_mapping (clkEnabled : Bool) (io : Io) :
    (checkPeriphClk clkEnabled io).afio.mapping = io.afio.mapping := by
  cases clkEnabled <;> rfl

/-- **A write of any register** keeps the mapping, unless it is the one of `MAPR`. -/
theorem write_mapping {clkEnabled : Bool} {offset : ℕ} (hm : io.afio.mapping.mapr = 0#32)
    (h : write clkEnabled io offset v = .ok io') :
    io'.afio.mapping = if offset = 0x04 then .of v else io.afio.mapping := by
  have hclk := checkPeriphClk_mapping clkEnabled io
  unfold write at h
  dsimp only at h
  split at h
  · exact absurd h throw_ne_ok
  · rw [← pure_eq_ok.1 h]
    exact maprWrite_mapping (by rw [hclk]; exact hm) v
  all_goals first
    | exact absurd h throw_ne_ok
    | exact (exticrWrite_mapping h).trans hclk

/-- A reset gives the mapping of `0`. -/
theorem reset_mapping (hm : io.afio.mapping.mapr = 0#32) (h : reset io = .ok io') :
    io'.afio.mapping = .of 0#32 := by
  obtain ⟨io₁, h₁, h⟩ := bind_eq_ok.1 h
  obtain ⟨io₂, h₂, h⟩ := bind_eq_ok.1 h
  obtain ⟨io₃, h₃, h⟩ := bind_eq_ok.1 h
  rw [exticrWrite_mapping h, exticrWrite_mapping h₃, exticrWrite_mapping h₂,
    exticrWrite_mapping h₁]
  exact maprWrite_mapping hm 0#32

/-- **One step.**  The mapping changes when `MAPR` is written, and nothing writes `AFIO_MAPR`. -/
theorem step_mapping {e : Event} (hm : io.afio.mapping = .of v) (hs : Step io e io') :
    io'.afio.mapping = .of (e.mapr.getD v) := by
  have hzero : io.afio.mapping.mapr = 0#32 := by rw [hm]; rfl
  cases e with
  | afioWrite clkEnabled offset value =>
    rw [write_mapping hzero hs, Event.mapr]
    split_ifs
    · rfl
    · exact hm
  | afioReset => exact reset_mapping hzero hs
  | extiWrite offset value =>
    obtain ⟨exti, -, hs⟩ := bind_eq_ok.1 hs
    rw [← pure_eq_ok.1 hs]
    exact hm
  | gpioWrite port clkEnabled offset value =>
    obtain ⟨g, -, hs⟩ := bind_eq_ok.1 hs
    rw [← pure_eq_ok.1 hs]
    exact hm
  | extiReset | gpioReset =>
    rw [← pure_eq_ok.1 hs]
    exact hm
  | gpioIn port pin level =>
    obtain ⟨-, exti, -, rfl⟩ := gpioInTrigger_eq hs
    exact hm

/-- **The mapping of a run** is the one of the value last written. -/
theorem run_mapping {l : List Event} (h : Run Step Io.alloc l io) :
    io.afio.mapping = .of (maprValue l) := by
  refine h.invariant_hist (P := fun l io => io.afio.mapping = .of (maprValue l))
    (fun l io e io' hm hs => ?_) rfl
  rw [step_mapping hm hs, maprValue, maprValue, List.foldl_append]
  rfl

/-- The mapping is the one that a write of `v` asks for. -/
structure Remapped (io : Io) (v : BitVec 32) : Prop where
  mapr : ∀ clkEnabled, Prod.fst <$> read clkEnabled io 0x04 = .ok (v &&& 0x3c#32)
  uart1 : getPeriphMap io.afio .uart1 = .ok (extract32 v 2 1)
  uart2 : getPeriphMap io.afio .uart2 = .ok (extract32 v 3 1)
  uart3 : getPeriphMap io.afio .uart3 = .ok (extract32 v 4 2)

/-- The mapping is the one that `v` asks for unless `v` remaps USART1 or USART2: the fields of
these two are taken from the old register. -/
theorem remapped_iff (h : io.afio.mapping = .of v) : Remapped io v ↔ v &&& 0xc#32 = 0#32 := by
  have h₁ : io.afio.USART1_REMAP = 0#32 := congrArg Mapping.usart1 h
  have h₂ : io.afio.USART2_REMAP = 0#32 := congrArg Mapping.usart2 h
  have h₃ : io.afio.USART3_REMAP = extract32 v 4 2 := congrArg Mapping.usart3 h
  have hread : maprRead io.afio = v &&& 0x30#32 := by
    rw [maprRead, h₁, h₂, h₃, extract32_shiftLeft]
    simp
  constructor
  · intro hv
    have huart1 := Except.ok.inj hv.uart1
    have huart2 := Except.ok.inj hv.uart2
    rw [h₁, extract32_one_eq_zero_iff] at huart1
    rw [h₂, extract32_one_eq_zero_iff] at huart2
    exact (and_c_eq_zero_iff v).2 ⟨huart1, huart2⟩
  · intro hv
    obtain ⟨hbit2, hbit3⟩ := (and_c_eq_zero_iff v).1 hv
    refine ⟨fun clkEnabled => ?_, ?_, ?_, congrArg Except.ok h₃⟩
    · have hmask : 0x3c#32 = 0x30#32 ||| 0xc#32 := by decide
      rw [hmask, BitVec.and_or_distrib_left, hv, BitVec.or_zero, ← hread]
      cases clkEnabled <;> rfl
    · exact congrArg Except.ok (h₁.trans ((extract32_one_eq_zero_iff v 2).2 hbit2))
    · exact congrArg Except.ok (h₂.trans ((extract32_one_eq_zero_iff v 3).2 hbit3))

/-- **A write to `MAPR`** in any state of a run remaps USART3 as it should.  All of the
mapping is the one written exactly if the fields of USART1 and USART2 are written as `0`. -/
theorem mapr_write_iff (io : Io) (l : List Event) (h : Run Step Io.alloc l io) (clkEnabled : Bool)
    (v : BitVec 32) : ∃ io', write clkEnabled io 0x04 v = .ok io' ∧
      getPeriphMap io'.afio .uart3 = .ok (extract32 v 4 2) ∧
      (Remapped io' v ↔ v &&& 0xc#32 = 0#32) := by
  obtain ⟨io', hw⟩ : ∃ io', write clkEnabled io 0x04 v = .ok io' := ⟨_, rfl⟩
  have hzero : io.afio.mapping.mapr = 0#32 := by rw [run_mapping h, Mapping.of]
  have hmap := write_mapping hzero hw
  rw [if_pos rfl] at hmap
  exact ⟨io', hw, congrArg Except.ok (congrArg Mapping.usart3 hmap), remapped_iff hmap⟩

/-- USART3 is remapped to port D. -/
theorem mapr_write_usart3 :
    ∃ io', write true Io.alloc 0x04 0x30#32 = .ok io' ∧ Remapped io' 0x30#32 := by
  obtain ⟨io', hw, -, hiff⟩ := mapr_write_iff Io.alloc [] (.nil _) true 0x30#32
  exact ⟨io', hw, hiff.2 (by decide)⟩

/-- USART1 is remapped to port B after the first reset: the register reads as `0`, and
`stm32_afio_get_periph_map` still returns the mapping to port A. -/
theorem mapr_usart1_ignored : ∃ io₁ io', Run Step Io.alloc [.afioReset] io₁ ∧
    write true io₁ 0x04 0x4#32 = .ok io' ∧ Prod.fst <$> read true io' 0x04 = .ok 0x0#32 ∧
    getPeriphMap io'.afio .uart1 = .ok 0#32 ∧ extract32 0x4#32 2 1 = 1#32 := by
  exact ⟨_, _, .cons rfl (.nil _), rfl, rfl, rfl, by decide⟩

/-! ### Indices into the array of ports -/

/-- A write of an `EXTICR` register: whether the clock is enabled, the register, the value. -/
def exticrStep (io : Io) (w : Bool × Fin 4 × BitVec 32) : Except Fault Io :=
  write w.1 io (0x08 + 4 * w.2.1) w.2.2

/-- The nibbles of a value name ports. -/
def NamesPorts (v : BitVec 32) : Prop := ∀ i < 4, nibble v i < GPIO_COUNT

/-- A write of an `EXTICR` register checks the clock and rewires the lines. -/
theorem exticrStep_eq (io : Io) (w : Bool × Fin 4 × BitVec 32) :
    exticrStep io w = exticrWrite (checkPeriphClk w.1 io) w.2.1 w.2.2 false := by
  obtain ⟨clkEnabled, index, value⟩ := w
  fin_cases index <;> rfl

/-- **One write.**  The old nibbles name ports, so it returns exactly if the new ones do. -/
theorem exticrStep_returns_iff (h : PortsExist io) (w : Bool × Fin 4 × BitVec 32) :
    (∃ io', exticrStep io w = .ok io') ↔ NamesPorts w.2.2 := by
  rw [exticrStep_eq]
  constructor
  · rintro ⟨io', hw⟩ i hi
    obtain ⟨io₁, hloop, -⟩ := bind_eq_ok.1 hw
    have hmem : w.2.1 * EXTI_PER_CR + i ∈ linesOf w.2.1 :=
      List.mem_map.2 ⟨i, List.mem_range.2 hi, rfl⟩
    have hport := ((exticrLoop_acts hloop).cond _ hmem).1
    have hmod : (w.2.1 * EXTI_PER_CR + i) % 4 = i := by unfold EXTI_PER_CR; omega
    rwa [hmod] at hport
  · intro hnew
    exact exticrWrite_returns (h.checkPeriphClk w.1) hnew

/-- A write of an `EXTICR` register leaves nibbles that name ports, if it returns. -/
theorem exticrStep_portsExist {w : Bool × Fin 4 × BitVec 32} (h : PortsExist io)
    (hw : exticrStep io w = .ok io') : PortsExist io' := write_portsExist h hw

/-- The access out of bounds. -/
def OutOfBounds (e : Fault) : Prop := e = .outOfBounds "gpio"

/-- Connecting a line fails only when the port does not exist. -/
theorem connectIrq_failsOnly (io : Io) (i n : ℕ) (irq : Option ℕ) :
    FailsOnly OutOfBounds (connectIrq io i n irq) := by
  unfold connectIrq
  split_ifs with hi
  · exact .pure _
  · exact fun e h => (Except.error.inj h).symm

/-- It fails with an access out of bounds only. -/
theorem exticrStep_failsOnly (io : Io) (w : Bool × Fin 4 × BitVec 32) :
    FailsOnly OutOfBounds (exticrStep io w) := by
  rw [exticrStep_eq]
  refine (FailsOnly.foldlM (fun io i => ?_) _ _).bind fun io => .pure _
  exact (connectIrq_failsOnly _ _ _ _).bind fun io => connectIrq_failsOnly _ _ _ _

/-- **Every index of a sequence of writes is in bounds**, in any state of a run after a
reset, exactly if every nibble of every written value names one of the seven ports. -/
theorem exticr_indices_iff (io₀ io₁ io : Io) (l : List Event) (hreset : reset io₀ = .ok io₁)
    (h : Run Step io₁ l io) (ws : List (Bool × Fin 4 × BitVec 32)) :
    ((∃ io', ws.foldlM exticrStep io = .ok io') ↔ ∀ w ∈ ws, NamesPorts w.2.2) ∧
    FailsOnly OutOfBounds (ws.foldlM exticrStep io) := by
  have hports : PortsExist io :=
    h.invariant (fun _ _ _ hp hs => step_portsExist hp hs) (reset_portsExist hreset)
  exact ⟨foldlM_returns_iff (fun _ _ _ hp hw => exticrStep_portsExist hp hw)
    (fun _ w hp => exticrStep_returns_iff hp w) hports,
    FailsOnly.foldlM exticrStep_failsOnly ws io⟩

/-- All lines of the first register go to port G, and one of them back to port A. -/
theorem exticr_indices_portG : ∃ io₁ io', reset Io.alloc = .ok io₁ ∧
    [(true, (0 : Fin 4), 0x6666#32), (true, 0, 0x6660#32)].foldlM exticrStep io₁ = .ok io' := by
  obtain ⟨io₁, hreset⟩ : ∃ io₁, reset Io.alloc = .ok io₁ := ⟨_, rfl⟩
  have hnames : ∀ w ∈ [(true, (0 : Fin 4), 0x6666#32), (true, 0, 0x6660#32)],
      NamesPorts w.2.2 := by
    have hfirst : NamesPorts 0x6666#32 := by unfold NamesPorts; decide
    have hsecond : NamesPorts 0x6660#32 := by unfold NamesPorts; decide
    intro w hw
    rcases List.mem_pair.1 hw with rfl | rfl
    · exact hfirst
    · exact hsecond
  obtain ⟨io', hw⟩ := (exticr_indices_iff _ io₁ io₁ [] hreset (.nil _) _).1.2 hnames
  exact ⟨io₁, io', hreset, hw⟩

/-- Line 0 is given the port after the last one: `s->gpio[7]` is used. -/
theorem exticr_index_seven : ∃ io₁, reset Io.alloc = .ok io₁ ∧
    exticrStep io₁ (true, 0, 0x7#32) = .error (.outOfBounds "gpio") ∧ ¬NamesPorts 0x7#32 := by
  obtain ⟨io₁, hreset, hstep⟩ : ∃ io₁, reset Io.alloc = .ok io₁ ∧
      exticrStep io₁ (true, 0, 0x7#32) = .error (.outOfBounds "gpio") := ⟨_, rfl, rfl⟩
  exact ⟨io₁, hreset, hstep, fun h => absurd (h 0 (by decide)) (by decide)⟩

end Afio
end Especial
