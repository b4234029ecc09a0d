/-
# The events that enter the emulator (`stm32p103_emul_evt_handle`)

A second thread reads frames of four bytes from the monitor: a digital input changes
or an event is acknowledged.  The bytes come over a TCP connection, and `read` returns
what has arrived, from one byte to the four that it asks for.

The loop takes each `read` by itself: what is not four bytes long is dropped, and the
rest of its frame is then taken for a new one.  `evt_handle_iff` says for which
lengths of the reads this does not matter, whatever the bytes are.
-/

import Especial.Emul.Basic
import Especial.Lib.Framing

namespace Especial
namespace Emul

open Lib

/-! ### The loop -/

/-- The union `Value` that the loop reads into: its bytes in memory. -/
structure Value where
  byte0 : BitVec 8
  byte1 : BitVec 8
  byte2 : BitVec 8
  byte3 : BitVec 8
  deriving DecidableEq, Repr

/-- The outcome of `read`: the bytes it stored, `none` for `-1`. -/
abbrev Read := Option (List (BitVec 8))

/-- The outcome as a `size_t`. -/
def Read.n : Read → ℕ
  | some bytes => bytes.length
  | none => 2 ^ 64 - 1

/-- `data` after the `read`. -/
def Read.into (r : Read) (data : Value) : Value :=
  let bytes := r.getD []
  ⟨bytes.getD 0 data.byte0, bytes.getD 1 data.byte1, bytes.getD 2 data.byte2,
    bytes.getD 3 data.byte3⟩

/-- `data.nbr = ntohl(data.nbr)`, on a little-endian host. -/
def ntohl (data : Value) : Value := ⟨data.byte3, data.byte2, data.byte1, data.byte0⟩

/-- The input lines of the buttons, in `stm_state`. -/
inductive BtnIrq
  | btn0
  | btn1
  | btn2
  | btn3
  deriving DecidableEq, Repr

/-- What the thread does. -/
inductive Action
  /-- `qemu_set_irq(btIrq, btValue)` -/
  | setIrq (button : BtnIrq) (level : BitVec 8)
  /-- `qemu_cond_signal(&evt_ack_cond)`, under `evt_mutex` -/
  | ack
  deriving DecidableEq, Repr

/-- The line of a button, if there is one with this number. -/
def btIrq (btId : BitVec 8) : Option BtnIrq :=
  match btId.toNat with
  | 0 => some .btn0
  | 1 => some .btn1
  | 2 => some .btn2
  | 3 => some .btn3
  | _ => none

/-- What the loop does with four bytes. -/
def handle (data : Value) : List Action :=
  let id := data.byte3
  if id.toNat = EventId.SCALA_DIGITAL_IN.val then
    match btIrq data.byte1 with
    | some button =>
      let btValue := data.byte0
      [.setIrq button (if btValue ≠ 0#8 then 1#8 else btValue)]
    | none => []
  else if id.toNat = EventId.SCALA_ACK_EVT.val then [.ack]
  else []

/-- The loop of `stm32p103_emul_evt_handle`, over the outcomes of `read`; where the
list ends the thread waits in `read`. -/
def evtLoop (data : Value) : List Read → List Action
  | [] => []
  | r :: rs =>
    let data := ntohl (r.into data)
    if r.n = 0 then []
    else if r.n ≠ 4 then evtLoop data rs
    else handle data ++ evtLoop data rs

/-- `stm32p103_emul_evt_handle`, with the outcome of `inet_connect`. -/
def evtHandle (connected : Bool) (data : Value) (rs : List Read) : List Action :=
  if connected then evtLoop data rs else []

/-! ### Frames -/

/-- The buttons, from number 0 up. -/
def BtnIrq.all : List BtnIrq := [.btn0, .btn1, .btn2, .btn3]

/-- What a frame of the monitor says: its id, a byte that is not used, the number of
a button and its level. -/
def decode : List (BitVec 8) → List Action
  | [id, _, button, level] =>
    if id = 0x56#8 then
      (BtnIrq.all[button.toNat]?).toList.map (.setIrq · (if level = 0#8 then 0#8 else 1#8))
    else if id = 0x41#8 then [.ack]
    else []
  | _ => []

/-- The button of a number, from the list of the buttons. -/
theorem btIrq_eq : ∀ btId : BitVec 8, btIrq btId = BtnIrq.all[btId.toNat]? := by
  decide

/-- In `data` the bytes of the frame stand the other way round. -/
theorem handle_eq (data : Value) :
    handle data = decode [data.byte3, data.byte2, data.byte1, data.byte0] := by
  have hV : data.byte3.toNat = EventId.SCALA_DIGITAL_IN.val ↔ data.byte3 = 0x56#8 := by
    rw [← BitVec.toNat_inj]
    rfl
  have hA : data.byte3.toNat = EventId.SCALA_ACK_EVT.val ↔ data.byte3 = 0x41#8 := by
    rw [← BitVec.toNat_inj]
    rfl
  simp only [handle, decode, hV, hA, btIrq_eq]
  cases BtnIrq.all[data.byte1.toNat]? <;> split_ifs <;> simp_all

/-- The loop does what a frame says, if it gets it in one piece. -/
theorem handle_read {frame : List (BitVec 8)} (h : frame.length = 4) (data : Value) :
    handle (ntohl (Read.into (some frame) data)) = decode frame := by
  obtain ⟨id, unused, button, level, rfl⟩ := List.length_eq_four.1 h
  exact handle_eq _

/-- The loop takes each `read` by itself, up to the end of the stream. -/
theorem evtLoop_chunks (data : Value) {chunks : List (List (BitVec 8))}
    (h : ∀ c ∈ chunks, c ≠ []) {rest : List Read} (hrest : ∀ data, evtLoop data rest = []) :
    evtLoop data (chunks.map some ++ rest) =
      (chunks.filter fun c => c.length = 4).flatMap decode := by
  induction chunks generalizing data with
  | nil => exact hrest data
  | cons c chunks ih =>
    have hne : Read.n (some c) ≠ 0 :=
      fun h0 => h c List.mem_cons_self (List.length_eq_zero_iff.1 h0)
    have htail := fun data => ih data fun c' hc' => h c' (List.mem_cons_of_mem c hc')
    rw [List.map_cons, List.cons_append, evtLoop, if_neg hne]
    by_cases hlen : c.length = 4
    · have hn : ¬Read.n (some c) ≠ 4 := not_not.2 hlen
      rw [if_neg hn, handle_read hlen, htail, List.filter_cons_of_pos (by simpa using hlen),
        List.flatMap_cons]
    · have hn : Read.n (some c) ≠ 4 := hlen
      rw [if_pos hn, htail, List.filter_cons_of_neg (by simpa using hlen)]

/-- The reads of a stream in chunks; at the end the monitor can close it. -/
def reads (chunks : List (List (BitVec 8))) (closed : Bool) : List Read :=
  chunks.map some ++ if closed then [some []] else []

/-- **The thread decodes the chunks of four bytes**, and skips the others. -/
theorem evtHandle_reads (data : Value) {chunks : List (List (BitVec 8))}
    (h : ∀ c ∈ chunks, c ≠ []) (closed : Bool) : evtHandle true data (reads chunks closed) =
      (chunks.filter fun c => c.length = 4).flatMap decode := by
  refine evtLoop_chunks data h fun data => ?_
  cases closed <;> rfl

/-- **Frames in pieces.**  Take a way to cut a stream into reads of one to four bytes.
For every stream that comes in this way the thread does what the frames of the stream
say, one after the other, exactly if each whole frame comes in one `read`: a shorter
`read` occurs only when fewer than four bytes are left. -/
theorem evt_handle_iff (ns : List ℕ) (hns : ∀ n ∈ ns, 1 ≤ n ∧ n ≤ 4) :
    (∀ (chunks : List (List (BitVec 8))) (data : Value) (closed : Bool),
      chunks.map List.length = ns →
        evtHandle true data (reads chunks closed) = (cut 4 chunks.flatten).flatMap decode) ↔
      Whole 4 ns := by
  have hne : ∀ chunks : List (List (BitVec 8)), chunks.map List.length = ns →
      ∀ c ∈ chunks, c ≠ [] := by
    rintro chunks rfl c hc rfl
    exact absurd (hns 0 (List.mem_map.2 ⟨[], hc, rfl⟩)).1 (by decide)
  constructor
  · intro h
    refine whole_of_forall decode 0#8 0x41#8 rfl (by decide) hns fun chunks hlen => ?_
    rw [← evtHandle_reads ⟨0#8, 0#8, 0#8, 0#8⟩ (hne chunks hlen) false]
    exact h chunks _ false hlen
  · rintro h chunks data closed rfl
    rw [evtHandle_reads data (hne chunks rfl), filter_eq_cut (by decide) h]

/-- Two frames and the first half of a third. -/
theorem evt_handle_whole : Whole 4 [4, 4, 2] ∧
    ∀ (chunks : List (List (BitVec 8))) (data : Value) (closed : Bool),
      chunks.map List.length = [4, 4, 2] →
        evtHandle true data (reads chunks closed) = (cut 4 chunks.flatten).flatMap decode :=
  ⟨by decide, (evt_handle_iff [4, 4, 2] (by decide)).2 (by decide)⟩

/-- An acknowledgement that arrives in two halves is lost. -/
theorem evt_handle_split : ¬∀ (chunks : List (List (BitVec 8))) (data : Value) (closed : Bool),
    (∀ c ∈ chunks, 1 ≤ c.length ∧ c.length ≤ 4) →
      evtHandle true data (reads chunks closed) = (cut 4 chunks.flatten).flatMap decode := by
  intro hall
  have h := hall [[0x41#8, 0#8], [0#8, 0#8]] ⟨0#8, 0#8, 0#8, 0#8⟩ false (by decide)
  exact absurd h (by decide)

end Emul
end Especial
