/-
# The firmware library, on the emulated registers

The functions of `stm32f10x_gpio.c` and `stm32f10x_exti.c` that the interrupt
controller of the firmware calls.  Each is a sequence of accesses to the registers
of the AFIO, the EXTI controller and the GPIO ports, through the emulator's read
and write functions.

A read-modify-write of an EXTI register that touches one bit acts on the line of
that bit alone (`ActsLine`), and so do sequences of them.  `GPIO_EXTILineConfig`
changes the port of one line (`LineConfigured`), in two writes.
-/

import Especial.Afio.Routing
import Especial.Exti.Writes
import Especial.Lib.Returns

namespace Especial
namespace Hal

open Qemu Stm32 Lib Gpio Exti Afio

/-! ### The functions -/

/-- `EXTI->reg = f(EXTI->reg)`. -/
def extiModify (io : Io) (offset : ℕ) (f : BitVec 32 → BitVec 32) : Except Fault Io := do
  let value ← Exti.read io.exti offset
  let exti ← Exti.write io.exti offset (f value)
  return { io with exti := exti }

/-- `AFIO->EXTICR[index] = f(AFIO->EXTICR[index])`. -/
def exticrModify (clkEnabled : Bool) (io : Io) (index : ℕ) (f : BitVec 32 → BitVec 32) :
    Except Fault Io := do
  let (value, io) ← Afio.read clkEnabled io (0x08 + 4 * index)
  Afio.write clkEnabled io (0x08 + 4 * index) (f value)

/-- `GPIO_EXTILineConfig`. -/
def gpioEXTILineConfig (clkEnabled : Bool) (io : Io) (portSource pinSource : BitVec 8) :
    Except Fault Io := do
  let shift := 4 * (pinSource &&& 0x03#8).toNat
  let index := (pinSource >>> 2).toNat
  let io ← exticrModify clkEnabled io index (· &&& ~~~(0x0f#32 <<< shift))
  exticrModify clkEnabled io index (· ||| portSource.setWidth 32 <<< shift)

/-- `EXTIMode_TypeDef`. -/
inductive EXTIMode
  | interrupt
  | event
  deriving DecidableEq, Repr

/-- The value of a mode: the offset of the mask register it means. -/
def EXTIMode.val : EXTIMode → ℕ
  | .interrupt => 0x00
  | .event => 0x04

/-- `EXTITrigger_TypeDef`. -/
inductive EXTITrigger
  | rising
  | falling
  | risingFalling
  deriving DecidableEq, Repr

/-- The value of a trigger: the offset of the register it means, for the first two. -/
def EXTITrigger.val : EXTITrigger → ℕ
  | .rising => 0x08
  | .falling => 0x0c
  | .risingFalling => 0x10

/-- `EXTI_InitTypeDef`. -/
structure EXTIInitTypeDef where
  line : BitVec 32
  mode : EXTIMode
  trigger : EXTITrigger
  lineCmd : FunctionalState

/-- `EXTI_Init`. -/
def extiInit (io : Io) (init : EXTIInitTypeDef) : Except Fault Io :=
  if init.lineCmd ≠ .DISABLE then do
    let io ← extiModify io 0x00 (· &&& ~~~init.line)
    let io ← extiModify io 0x04 (· &&& ~~~init.line)
    let io ← extiModify io init.mode.val (· ||| init.line)
    let io ← extiModify io 0x08 (· &&& ~~~init.line)
    let io ← extiModify io 0x0c (· &&& ~~~init.line)
    if init.trigger = .risingFalling then do
      let io ← extiModify io 0x08 (· ||| init.line)
      extiModify io 0x0c (· ||| init.line)
    else extiModify io init.trigger.val (· ||| init.line)
  else extiModify io init.mode.val (· &&& ~~~init.line)

/-- `EXTI_ClearITPendingBit`. -/
def extiClearITPendingBit (io : Io) (line : BitVec 32) : Except Fault Io := do
  let exti ← Exti.write io.exti 0x14 line
  return { io with exti := exti }

/-- `EXTI_GetITStatus`. -/
def extiGetITStatus (io : Io) (line : BitVec 32) : Except Fault Bool := do
  let imr ← Exti.read io.exti 0x00
  let enablestatus := imr &&& line
  let pr ← Exti.read io.exti 0x14
  return pr &&& line ≠ 0#32 ∧ enablestatus ≠ 0#32

/-- `GPIO_ReadInputDataBit`. -/
def gpioReadInputDataBit (io : Io) (port : Fin GPIO_COUNT) (pin : BitVec 32) :
    Except Fault Bool := do
  let (idr, _) ← Gpio.read (io.gpio port) 0x08
  return idr &&& pin ≠ 0#32

/-! ### One line of the EXTI controller -/

variable {io io' io'' : Io} {n : ℕ} {f g : Line → Line}

/-- Only line `n` of the EXTI controller changes, by `f`. -/
structure ActsLine (n : ℕ) (f : Line → Line) (io io' : Io) : Prop where
  line : ∀ j, io'.exti.line j = if j = n then f (io.exti.line n) else io.exti.line j
  gpio : io'.gpio = io.gpio
  afio : io'.afio = io.afio

/-- A line changes twice. -/
theorem ActsLine.trans (h : ActsLine n f io io') (h' : ActsLine n g io' io'') :
    ActsLine n (fun l => g (f l)) io io'' := by
  refine ⟨fun j => ?_, h'.gpio.trans h.gpio, h'.afio.trans h.afio⟩
  rw [h'.line j, h.line n, h.line j, if_pos rfl]
  split_ifs <;> rfl

/-- Bit `n` of a register that is modified, as it is read. -/
def readBit (l : Line) : ℕ → Bool
  | 0x00 => l.imr
  | 0x08 => l.rtsr
  | 0x0c => l.ftsr
  | _ => false

/-- A register of the controller is read bit by bit. -/
theorem read_eq {s : Stm32Exti} {offset : ℕ} (ho : offset ∈ [0x00, 0x04, 0x08, 0x0c]) :
    ∃ value, Exti.read s offset = .ok value ∧ ∀ j,
    value.getLsbD j = readBit (s.line j) offset := by
  simp only [List.mem_cons, List.not_mem_nil, or_false] at ho
  rcases ho with rfl | rfl | rfl | rfl
  · exact ⟨s.IMR, rfl, fun _ => rfl⟩
  · exact ⟨0#32, rfl, fun _ => by simp [readBit]⟩
  · exact ⟨s.RTSR, rfl, fun _ => rfl⟩
  · exact ⟨s.FTSR, rfl, fun _ => rfl⟩

/-- A register that is written back as it was asks for nothing. -/
theorem request_readBit (l : Line) {offset : ℕ} (ho : offset ∈ [0x00, 0x04, 0x08, 0x0c]) :
    l.request offset (readBit l offset) = none := by
  simp only [List.mem_cons, List.not_mem_nil, or_false] at ho
  rcases ho with rfl | rfl | rfl | rfl
  · rfl
  · rfl
  · exact if_neg (not_not.2 rfl)
  · exact if_neg (not_not.2 rfl)

/-- Writing back the bit that was read changes nothing. -/
theorem write_readBit (j : ℕ) (l : Line) {offset : ℕ}
    (ho : offset ∈ [0x00, 0x04, 0x08, 0x0c]) : l.write j offset (readBit l offset) = l := by
  have hreq := request_readBit l ho
  simp only [List.mem_cons, List.not_mem_nil, or_false] at ho
  rcases ho with rfl | rfl | rfl | rfl
  · rfl
  · rfl
  · rw [Line.request] at hreq
    simp only [Line.write, hreq]
    split_ifs <;> rfl
  · rw [Line.request] at hreq
    simp only [Line.write, hreq]
    split_ifs <;> rfl

/-- **A read-modify-write of one bit** returns and acts on the line of the bit. -/
theorem extiModify_returns {offset : ℕ} {m : BitVec 32 → BitVec 32} {b : Bool}
    (ho : offset ∈ [0x00, 0x04, 0x08, 0x0c]) (hn : n < 16)
    (hm : ∀ v j, (m v).getLsbD j = if j = n then b else v.getLsbD j) :
    Returns (extiModify io offset m) (ActsLine n (fun l => l.write n offset b) io) := by
  obtain ⟨value, hread, hbit⟩ := read_eq (s := io.exti) ho
  have hwritten : ∀ j, (m value).getLsbD j =
      if j = n then b else readBit (io.exti.line j) offset := fun j => by rw [hm, hbit]
  have hallowed : ∀ j < 20, (io.exti.line j).Allowed j
      ((io.exti.line j).request offset ((m value).getLsbD j)) := fun j _ => by
    rw [hwritten]
    split_ifs with hj
    · exact Line.allowed_of_lt (by omega) _ _
    · rw [request_readBit _ ho]
      exact fun _ h => absurd h (Option.some_ne_none _).symm
  obtain ⟨exti, hwrite⟩ := write_returns (List.mem_append_left [0x10, 0x14] ho) hallowed
  refine ⟨{ io with exti := exti },
    bind_eq_ok.2 ⟨value, hread, bind_eq_ok.2 ⟨exti, hwrite, rfl⟩⟩, fun j => ?_, rfl, rfl⟩
  rw [write_line hwrite j, hwritten]
  split_ifs with hj
  · rw [hj]
  · rw [write_readBit j _ ho]

/-- Setting one bit of a word. -/
theorem getLsbD_or_BIT (hn : n < 16) (v : BitVec 32) (j : ℕ) :
    (v ||| BIT n).getLsbD j = if j = n then true else v.getLsbD j := by
  rw [BIT, getLsbD_or_bit v (by omega) j]
  split_ifs with hj <;> simp [hj]

/-- Clearing one bit of a word. -/
theorem getLsbD_and_not_BIT (n : ℕ) (v : BitVec 32) (j : ℕ) :
    (v &&& ~~~BIT n).getLsbD j = if j = n then false else v.getLsbD j := by
  rw [BIT, getLsbD_and_not_bit v n j]
  split_ifs with hj <;> simp [hj]

/-- Clearing the pending bit of a line. -/
theorem extiClearITPendingBit_returns (hn : n < 16) :
    Returns (extiClearITPendingBit io (BIT n)) (ActsLine n (fun l => l.apply (some false)) io) := by
  have hbit : ∀ j, (BIT n).getLsbD j = decide (j = n) := fun j => by
    rw [BIT, getLsbD_bit]
    rcases eq_or_ne j n with rfl | hj
    · simp [(by omega : j < 32)]
    · simp [hj]
  have hallowed : ∀ j < 20, (io.exti.line j).Allowed j
      ((io.exti.line j).request 0x14 ((BIT n).getLsbD j)) := fun j _ => by
    rw [hbit]
    rcases eq_or_ne j n with rfl | hj
    · exact Line.allowed_of_lt (by omega) _ _
    · rw [decide_eq_false hj]
      exact fun _ h => absurd h (Option.some_ne_none _).symm
  obtain ⟨exti, hwrite⟩ := write_returns (by decide) hallowed
  refine ⟨{ io with exti := exti }, bind_eq_ok.2 ⟨exti, hwrite, rfl⟩, fun j => ?_, rfl, rfl⟩
  rw [write_line hwrite j, hbit]
  rcases eq_or_ne j n with rfl | hj
  · simp [Line.write, Line.prRequest, (by omega : j < 20)]
  · rw [decide_eq_false hj, if_neg hj]
    simp only [Line.write, Line.prRequest]
    split_ifs <;> trivial

/-- The line that `EXTI_ClearITPendingBit` and `EXTI_Init` leave, for an interrupt on
both edges. -/
def enabledLine (l : Line) : Line where
  imr := true
  rtsr := true
  ftsr := true
  swier := l.swier && !l.pr
  pr := false

/-- **`EXTI_Init`** for an interrupt on both edges, after the pending bit was cleared. -/
theorem extiInit_returns {io₁ : Io} (hn : n < 16)
    (h₁ : ActsLine n (fun l => l.apply (some false)) io io₁) :
    Returns (extiInit io₁ ⟨BIT n, .interrupt, .risingFalling, .ENABLE⟩)
      (ActsLine n enabledLine io) := by
  have hor := getLsbD_or_BIT hn
  have hand := getLsbD_and_not_BIT n
  refine .bind (extiModify_returns (by decide) hn hand) fun io₂ h₂ => ?_
  refine .bind (extiModify_returns (by decide) hn hand) fun io₃ h₃ => ?_
  refine .bind (extiModify_returns (show 0x00 ∈ [0x00, 0x04, 0x08, 0x0c] by decide) hn hor)
    fun io₄ h₄ => ?_
  refine .bind (extiModify_returns (by decide) hn hand) fun io₅ h₅ => ?_
  refine .bind (extiModify_returns (by decide) hn hand) fun io₆ h₆ => ?_
  refine .bind (extiModify_returns (by decide) hn hor) fun io₇ h₇ => ?_
  refine (extiModify_returns (by decide) hn hor).mono fun io₈ h₈ => ?_
  have hacts :=
    ((((((h₁.trans h₂).trans h₃).trans h₄).trans h₅).trans h₆).trans h₇).trans h₈
  refine ⟨fun j => ?_, hacts.gpio, hacts.afio⟩
  rw [hacts.line j]
  split_ifs with hj
  · obtain ⟨imr, rtsr, ftsr, swier, pr⟩ := io.exti.line n
    simp only [Line.write, (by omega : n < 20), if_true]
    cases rtsr <;> cases ftsr <;> cases swier <;> cases pr <;> rfl
  · rfl

/-- What `EXTI_GetITStatus` looks at. -/
theorem extiGetITStatus_eq (io : Io) (n : ℕ) : extiGetITStatus io (BIT n) =
    .ok ((io.exti.line n).pr && (io.exti.line n).imr) := by
  have hpr : io.exti.PR &&& BIT n ≠ 0#32 ↔ (io.exti.line n).pr = true :=
    and_bit_ne_zero io.exti.PR n
  have himr : io.exti.IMR &&& BIT n ≠ 0#32 ↔ (io.exti.line n).imr = true :=
    line_imr io.exti n |>.symm
  show Except.ok (decide (io.exti.PR &&& BIT n ≠ 0#32 ∧ io.exti.IMR &&& BIT n ≠ 0#32)) = _
  simp only [hpr, himr, Bool.decide_and, Bool.decide_eq_true]

/-- The level of a pin, as the port has it. -/
def level (io : Io) (port : Fin GPIO_COUNT) (n : ℕ) : Bool := (io.gpio port).inputs.getLsbD n

/-- `GPIO_ReadInputDataBit` reads it. -/
theorem gpioReadInputDataBit_eq (io : Io) (port : Fin GPIO_COUNT) (hn : n < 16) :
    gpioReadInputDataBit io port (BIT n) = .ok (level io port n) := by
  have hbit : (io.gpio port).inputs.setWidth 32 &&& BIT n ≠ 0#32 ↔ level io port n = true := by
    have hwide := and_bit_ne_zero ((io.gpio port).inputs.setWidth 32) n
    rw [BitVec.getLsbD_setWidth, decide_eq_true (by omega : n < 32), Bool.true_and] at hwide
    exact hwide
  show Except.ok (decide ((io.gpio port).inputs.setWidth 32 &&& BIT n ≠ 0#32)) = _
  simp only [hbit, Bool.decide_eq_true]

/-! ### The port of a line -/

/-- A nibble, bit by bit. -/
theorem nibble_eq (v : BitVec 32) (i : ℕ) : nibble v i = (v.extractLsb' (i * 4) 4).toNat := by
  rw [nibble, BitVec.toNat_and, BitVec.toNat_ushiftRight, BitVec.extractLsb'_toNat,
    show (0xf#32).toNat = 2 ^ 4 - 1 from rfl, Nat.and_two_pow_sub_one_eq_mod]

/-- A register with other bits in nibble `k` only. -/
theorem nibble_of_bits {v w : BitVec 32} {q : BitVec 4} {k : ℕ}
    (h : ∀ j, w.getLsbD j = if j / 4 = k then q.getLsbD (j % 4) else v.getLsbD j) (i : ℕ) :
    nibble w i = if i = k then q.toNat else nibble v i := by
  have hbits : w.extractLsb' (i * 4) 4 = if i = k then q else v.extractLsb' (i * 4) 4 := by
    apply BitVec.eq_of_getLsbD_eq
    intro j hj
    have hdiv : (i * 4 + j) / 4 = i := by omega
    have hmod : (i * 4 + j) % 4 = j := by omega
    rw [BitVec.getLsbD_extractLsb', h, hdiv, hmod, decide_eq_true hj, Bool.true_and]
    split_ifs
    · rfl
    · rw [BitVec.getLsbD_extractLsb', decide_eq_true hj, Bool.true_and]
  rw [nibble_eq, hbits]
  split_ifs
  · rfl
  · rw [nibble_eq]

/-- Bit `j` of a nibble that is shifted to its place. -/
theorem getLsbD_shiftLeft_nibble {u : BitVec 32} {q : BitVec 4} (hu : u = q.setWidth 32) {k : ℕ}
    (hk : k < 4) (j : ℕ) :
    (u <<< (4 * k)).getLsbD j = (decide (j / 4 = k) && q.getLsbD (j % 4)) := by
  rw [hu, BitVec.getLsbD_shiftLeft, BitVec.getLsbD_setWidth]
  by_cases hdiv : j / 4 = k
  · have h₁ : j < 32 := by omega
    have h₂ : ¬j < 4 * k := by omega
    have h₃ : j % 4 < 32 := by omega
    have h₄ : j - 4 * k = j % 4 := by omega
    simp only [hdiv, h₁, h₂, h₃, h₄, decide_true, decide_false, Bool.not_false,
      Bool.true_and]
  · by_cases h₂ : j < 4 * k
    · simp [hdiv, h₂]
    · have h₃ : 4 ≤ j - 4 * k := by omega
      simp [hdiv, BitVec.getLsbD_of_ge q _ h₃]

/-- The first write of `GPIO_EXTILineConfig` clears a nibble. -/
theorem nibble_clear (v : BitVec 32) {k : ℕ} (hk : k < 4) (i : ℕ) :
    nibble (v &&& ~~~(0x0f#32 <<< (4 * k))) i = if i = k then 0 else nibble v i := by
  refine nibble_of_bits (q := 0#4) (fun j => ?_) i
  have hmask : (0x0f#32 <<< (4 * k)).getLsbD j = (decide (j / 4 = k) && (0xf#4).getLsbD (j % 4)) :=
    getLsbD_shiftLeft_nibble (by decide) hk j
  have hones : (0xf#4).getLsbD (j % 4) = true := by
    rw [show 0xf#4 = BitVec.allOnes 4 from rfl, BitVec.getLsbD_allOnes]
    exact decide_eq_true (by omega)
  by_cases hj : j < 32
  · rw [BitVec.getLsbD_and, BitVec.getLsbD_not, hmask, hones]
    split_ifs with hdiv <;> simp [hdiv, hj]
  · rw [BitVec.getLsbD_of_ge _ _ (by omega), BitVec.getLsbD_of_ge v _ (by omega)]
    simp

/-- The second write sets a nibble that is clear. -/
theorem nibble_set {v : BitVec 32} {q : BitVec 4} {u : BitVec 32} (hu : u = q.setWidth 32) {k : ℕ}
    (hk : k < 4) (hclear : nibble v k = 0) (i : ℕ) :
    nibble (v ||| u <<< (4 * k)) i = if i = k then q.toNat else nibble v i := by
  refine nibble_of_bits (fun j => ?_) i
  rw [BitVec.getLsbD_or, getLsbD_shiftLeft_nibble hu hk]
  split_ifs with hdiv
  · have hzero : v.extractLsb' (k * 4) 4 = 0#4 := by
      apply BitVec.eq_of_toNat_eq
      rw [← nibble_eq, hclear]
      rfl
    have hbit : (v.extractLsb' (k * 4) 4).getLsbD (j % 4) = false := by rw [hzero]; simp
    rw [BitVec.getLsbD_extractLsb', decide_eq_true (by omega), Bool.true_and,
      show k * 4 + j % 4 = j by omega] at hbit
    simp [hdiv, hbit]
  · simp [hdiv]

/-- The check of the clock keeps the inputs. -/
theorem sameInputs_checkPeriphClk (clkEnabled : Bool) (io : Io) :
    SameInputs io (checkPeriphClk clkEnabled io) := by
  cases clkEnabled <;> exact ⟨rfl, fun _ => rfl⟩

/-- It keeps `EXTICR`. -/
theorem EXTICR_checkPeriphClk (clkEnabled : Bool) (io : Io) :
    (checkPeriphClk clkEnabled io).afio.EXTICR = io.afio.EXTICR := by
  cases clkEnabled <;> rfl

/-- `EXTICR` is read as it is. -/
theorem read_EXTICR (clkEnabled : Bool) (io : Io) (index : Fin 4) :
    Afio.read clkEnabled io (0x08 + 4 * index) =
      .ok (io.afio.EXTICR index, checkPeriphClk clkEnabled io) := by
  rw [← EXTICR_checkPeriphClk clkEnabled io]
  fin_cases index <;> rfl

/-- A write of `EXTICR` rewires its lines. -/
theorem write_EXTICR (clkEnabled : Bool) (io : Io) (index : Fin 4) (value : BitVec 32) :
    Afio.write clkEnabled io (0x08 + 4 * index) value =
      exticrWrite (checkPeriphClk clkEnabled io) index value false := by
  fin_cases index <;> rfl

/-- What a read-modify-write of `EXTICR` that leaves `value` in it does. -/
structure Rewired (index : Fin 4) (value : BitVec 32) (io io' : Io) : Prop where
  same : SameInputs io io'
  routed : Routed io → Routed io'
  port : ∀ m < 16, extiPort io' m = if m / 4 = index then nibble value (m % 4) else extiPort io m
  value : io'.afio.EXTICR index = value

/-- **A read-modify-write of `EXTICR`** returns if the ports of all nibbles exist. -/
theorem exticrModify_returns (clkEnabled : Bool) {index : Fin 4} {m : BitVec 32 → BitVec 32}
    (hold : ∀ n < 16, extiPort io n < GPIO_COUNT)
    (hnew : ∀ i < 4, nibble (m (io.afio.EXTICR index)) i < GPIO_COUNT) :
    Returns (exticrModify clkEnabled io index m) (Rewired index (m (io.afio.EXTICR index)) io) := by
  set u := checkPeriphClk clkEnabled (checkPeriphClk clkEnabled io) with hu
  have hroute : ∀ n, route u n = route io n := fun n => by
    rw [hu, route_checkPeriphClk, route_checkPeriphClk]
  have hport : ∀ n, extiPort u n = extiPort io n := fun n => congrArg Route.port (hroute n)
  have hsame : SameInputs io u :=
    (sameInputs_checkPeriphClk clkEnabled io).trans (sameInputs_checkPeriphClk clkEnabled _)
  obtain ⟨io', hw⟩ : ∃ io', exticrWrite u index (m (io.afio.EXTICR index)) false = .ok io' :=
    exticrWrite_returns (fun n hn => by rw [hport]; exact hold n hn) hnew
  refine ⟨io', ?_, hsame.trans (exticrWrite_sameInputs hw), fun h => ?_, fun n hn => ?_, ?_⟩
  · unfold exticrModify
    rw [read_EXTICR, ok_bind]
    dsimp only
    rw [write_EXTICR]
    exact hw
  · exact exticrWrite_routed (fun n hn => by rw [hroute]; exact h n hn) hw
  · have hafter := congrArg Route.port (exticrWrite_route hw hn)
    rw [hroute, apply_ite Route.port] at hafter
    exact hafter
  · obtain ⟨io₁, -, hw⟩ := bind_eq_ok.1 hw
    rw [← pure_eq_ok.1 hw]
    exact Function.update_self ..

/-- The port of line `n` is `port`; the other lines are as they were. -/
structure LineConfigured (port n : ℕ) (io io' : Io) : Prop where
  same : SameInputs io io'
  routed : Routed io → Routed io'
  port : ∀ m < 16, extiPort io' m = if m = n then port else extiPort io m

/-- **`GPIO_EXTILineConfig`** returns and changes the port of its line. -/
theorem gpioEXTILineConfig_returns (clkEnabled : Bool) {portSource pinSource : BitVec 8}
    (hports : ∀ m < 16, extiPort io m < GPIO_COUNT) (hport : portSource.toNat < GPIO_COUNT)
    (hpin : pinSource.toNat < 16) :
    Returns (gpioEXTILineConfig clkEnabled io portSource pinSource)
      (LineConfigured portSource.toNat pinSource.toNat io) := by
  set n := pinSource.toNat with hn
  have hk : (pinSource &&& 0x03#8).toNat = n % 4 := by
    rw [BitVec.toNat_and, show (0x03#8).toNat = 2 ^ 2 - 1 from rfl, Nat.and_two_pow_sub_one_eq_mod]
  have hindex : (pinSource >>> 2).toNat = n / 4 := by
    rw [BitVec.toNat_ushiftRight, Nat.shiftRight_eq_div_pow]
  have hk4 : n % 4 < 4 := Nat.mod_lt _ (by decide)
  have hu : portSource.setWidth 32 = (portSource.setWidth 4).setWidth 32 := by
    apply BitVec.eq_of_toNat_eq
    simp only [BitVec.toNat_setWidth]
    unfold GPIO_COUNT at hport
    omega
  have hq : (portSource.setWidth 4).toNat = portSource.toNat := by
    rw [BitVec.toNat_setWidth]
    exact Nat.mod_eq_of_lt (by unfold GPIO_COUNT at hport; omega)
  obtain ⟨index, hdiv⟩ : ∃ index : Fin 4, n / 4 = index := ⟨⟨n / 4, by omega⟩, rfl⟩
  unfold gpioEXTILineConfig
  dsimp only
  rw [hk, hindex, hdiv]
  -- the nibble is cleared, which connects the line to port A
  set cleared := io.afio.EXTICR index &&& ~~~(0x0f#32 <<< (4 * (n % 4))) with hcleared
  have hclear :
      ∀ i < 4, nibble cleared i = if i = n % 4 then 0 else extiPort io (index * 4 + i) :=
    fun i hi => by rw [hcleared, nibble_clear _ hk4, ← extiPort_line io index hi]; rfl
  have hlt : ∀ i < 4, nibble cleared i < GPIO_COUNT := fun i hi => by
    rw [hclear i hi]
    split_ifs
    · decide
    · exact hports _ (by omega)
  refine .bind (exticrModify_returns clkEnabled hports hlt) fun io₁ h₁ => ?_
  have hports₁ : ∀ m < 16, extiPort io₁ m < GPIO_COUNT := fun m hm => by
    rw [h₁.port m hm]
    split_ifs
    · exact hlt _ (Nat.mod_lt _ (by decide))
    · exact hports m hm
  have hset :
      ∀ i < 4, nibble (io₁.afio.EXTICR index ||| portSource.setWidth 32 <<< (4 * (n % 4))) i =
      if i = n % 4 then portSource.toNat else nibble cleared i := fun i hi => by
    rw [h₁.value, nibble_set hu hk4 (by rw [hclear _ hk4, if_pos rfl]), hq]
  refine (exticrModify_returns clkEnabled hports₁ fun i hi => ?_).mono fun io₂ h₂ => ?_
  · rw [hset i hi]
    split_ifs
    · exact hport
    · exact hlt i hi
  · refine ⟨h₁.same.trans h₂.same, fun h => h₂.routed (h₁.routed h), fun m hm => ?_⟩
    rw [h₂.port m hm, h₁.port m hm]
    rcases eq_or_ne (m / 4) index with hm4 | hm4
    · have hmod : m % 4 = n % 4 ↔ m = n := by omega
      rw [if_pos hm4, hset _ (Nat.mod_lt _ (by decide)), hclear _ (Nat.mod_lt _ (by decide)),
        show index * 4 + m % 4 = m by omega]
      simp only [hmod]
      split_ifs <;> rfl
    · rw [if_neg hm4, if_neg hm4, if_neg (by rintro rfl; exact hm4 hdiv)]

end Hal
end Especial
