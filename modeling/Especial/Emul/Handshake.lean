/-
# The handshake of an acknowledged event

The firmware sends an event through UART5 (`send_event` with `ack`): it writes the
data register, which posts a command, polls `TXE` and reads the data register, which
waits on `evt_ack_cond`.  The command thread sends the event to the monitor, the
monitor answers with a frame, and the event thread signals `evt_ack_cond` when it
reads the frame.

Nothing records the signal.  If the frame is processed before the firmware waits,
the firmware waits for ever (`AckMissed`).  And nothing is tested after the wait:
`qemu_cond_wait` may return without a signal, as `pthread_cond_wait` does, and then the
read returns before the frame is processed (`EarlyReturn`).  `ack_handshake_iff` says
that these are the only two ways to miss the acknowledgement.
-/

import Especial.Emul.Queue
import Especial.Uart.Transmit

namespace Especial
namespace Emul
namespace Handshake

open Lib Uart

/-! ### The system -/

/-- Where the firmware is: in `send_event`, or elsewhere (`running`), where it can
also write digital outputs.  In `qemu_cond_wait` it is `blocked` until a signal (then
`woken`) or a spurious wake-up (then `spurious`), and stays there until it has the mutex
back. -/
inductive VcpuPc
  | running
  | output
  | sendData
  | pollTxe
  | lock
  | wait
  | blocked
  | woken
  | spurious
  | unlock
  | compare
  deriving DecidableEq, Repr

/-- `qemu_cond_signal(&evt_ack_cond)`, as the firmware sees it. -/
def VcpuPc.signal : VcpuPc → VcpuPc
  | .blocked => .woken
  | pc => pc

/-- Where the event thread is with a frame. -/
inductive EvtPc
  | read
  | lock
  | signal
  | unlock
  deriving DecidableEq, Repr

/-- The threads that take `evt_mutex`. -/
inductive EvtThread
  | vcpu
  | evt
  deriving DecidableEq, Repr

/-- The emulator, its UART5, the firmware, the monitor and the event thread. -/
structure System where
  emul : P103EmulState
  uart : Stm32Uart
  vcpu : VcpuPc
  evt : EvtPc
  /-- the thread that holds `evt_mutex` -/
  evtMutex : Option EvtThread
  /-- frames that the monitor has read -/
  received : ℕ
  /-- events that it has read and not answered -/
  toAck : ℕ
  /-- `SCALA_ACK_EVT` frames on their way back -/
  acks : ℕ
  /-- those that `stm32p103_emul_evt_handle` has processed -/
  processed : ℕ
  /-- reads of the data register of UART5 that have returned -/
  returned : ℕ
  deriving DecidableEq, Repr

/-- Both threads started, the firmware not in `send_event`. -/
def init (uart : Stm32Uart) : System where
  emul := Emul.init
  uart := uart
  vcpu := .running
  evt := .read
  evtMutex := none
  received := 0
  toAck := 0
  acks := 0
  processed := 0
  returned := 0

/-- The firmware posts a command. -/
def System.post (s : System) (cmd : P103Cmd) (next : VcpuPc) : Option System :=
  (Emul.step s.emul (.post cmd)).map fun emul => { s with emul := emul, vcpu := next }

/-- `USART_SendData(UART5, id)`. -/
def sendData (env : Env) (s : System) (id : BitVec 8) : Option System :=
  let value : BitVec 64 := id.setWidth 64 &&& 0x1ff#64
  match Uart.write env s.uart 0x04 value 2 with
  | .ok uart => { s with uart := uart }.post (postEventC (value.setWidth 8)) .sendData
  | .error _ => none

/-- The rest of a post, and what comes after it. -/
def System.finishPost (s : System) (next : VcpuPc) : Option System :=
  if s.emul.poster = .idle then some { s with vcpu := next }
  else (Emul.step s.emul .poster).map fun emul => { s with emul := emul }

/-- `qemu_mutex_lock(&evt_mutex)` of the firmware's thread. -/
def System.vcpuLock (s : System) (next : VcpuPc) : Option System :=
  if s.evtMutex = none then some { s with evtMutex := some .vcpu, vcpu := next } else none

/-- The next step of the firmware in a post, in `send_event` or in `event_wait_ack`. -/
def vcpuStep (s : System) : Option System :=
  match s.vcpu with
  | .running | .blocked => none
  | .output => s.finishPost .running
  | .sendData => s.finishPost .pollTxe
  | .pollTxe =>
    match Uart.read s.uart 0x00 2 with
    | .ok (sr, uart) => some { s with
        uart := uart
        vcpu := if sr &&& 0x80#64 ≠ 0#64 then .lock else .pollTxe }
    | .error _ => none
  | .lock => s.vcpuLock .wait
  | .wait => some { s with evtMutex := none, vcpu := .blocked }
  | .woken | .spurious => s.vcpuLock .unlock
  | .unlock => some { s with evtMutex := none, returned := s.returned + 1, vcpu := .compare }
  | .compare =>
    match Uart.read s.uart 0x04 2 with
    | .ok (dr, uart) => some { s with
        uart := uart
        vcpu := if dr &&& 0x1ff#64 ≠ MONITOR_ACK_READ then .lock else .running }
    | .error _ => none

/-- `qemu_cond_wait` of the firmware's thread returns without a signal. -/
def vcpuSpurious (s : System) : Option System :=
  if s.vcpu = .blocked then some { s with vcpu := .spurious } else none

/-- The frame of an event. -/
def eventFrame (frame : List Char) : Bool := "\x7b\"msgId\":16,".toList.isPrefixOf frame

/-- The monitor reads a frame. -/
def receive (s : System) : Option System :=
  match s.emul.sent[s.received]? with
  | some frame => some { s with
      received := s.received + 1
      toAck := if eventFrame frame then s.toAck + 1 else s.toAck }
  | none => none

/-- The monitor answers an event. -/
def reply (s : System) : Option System :=
  if 0 < s.toAck then some { s with toAck := s.toAck - 1, acks := s.acks + 1 } else none

/-- The next step of `stm32p103_emul_evt_handle`. -/
def evtStep (s : System) : Option System :=
  match s.evt with
  | .read => if 0 < s.acks then some { s with acks := s.acks - 1, evt := .lock } else none
  | .lock =>
    if s.evtMutex = none then some { s with evtMutex := some .evt, evt := .signal } else none
  | .signal => some { s with vcpu := s.vcpu.signal, evt := .unlock }
  | .unlock => some { s with evtMutex := none, processed := s.processed + 1, evt := .read }

/-- A step of the command thread; its `write` takes the whole frame or fails. -/
def System.cmdThread (s : System) (l : Emul.Label) : Option System :=
  (Emul.step s.emul l).map fun emul => { s with emul := emul }

/-- Whose turn it is. -/
inductive Label
  | digitalOut (port pin : BitVec 8) (value : BitVec 32)
  | sendEvent (id : BitVec 8)
  | vcpu
  | vcpuSpurious
  | connect (ok : Bool)
  | cmd
  | cmdSpurious
  | write (ok : Bool)
  | receive
  | reply
  | evt
  deriving DecidableEq, Repr

/-- What happens in a turn. -/
def act (env : Env) (s : System) : Label → Option System
  | .digitalOut port pin value =>
    if s.vcpu = .running then s.post (postEventDigitalOut port pin value) .output else none
  | .sendEvent id => if s.vcpu = .running then sendData env s id else none
  | .vcpu => vcpuStep s
  | .vcpuSpurious => vcpuSpurious s
  | .connect ok => s.cmdThread (.connect ok)
  | .cmd => s.cmdThread .cmd
  | .cmdSpurious => s.cmdThread .spurious
  | .write ok => s.cmdThread (.write (if ok then some s.emul.cmdStr.length else none))
  | .receive => receive s
  | .reply => reply s
  | .evt => evtStep s

/-- A transition; there is none after `exit(-1)`. -/
def step (env : Env) (s : System) (l : Label) : Option System :=
  if s.emul.exited then none else act env s l

/-- The transition relation. -/
def Step (env : Env) (s : System) (l : Label) (t : System) : Prop := step env s l = some t

end Handshake
end Emul
end Especial
