/-
# The commands that leave the emulator (`stm32_p103_emul.c`)

The emulator posts commands (a digital output changed, the firmware reports an
event) into a queue; a thread takes them out and writes them to a socket.  The queue
is shared under `cmd_mutex`; the thread sleeps on `cmd_cond`.

The model has one transition for each access to shared data: a call of
`stm32p103_emul_event_post` by the one thread that posts, the command thread, and
`stm32p103_emul_exit`.  Every interleaving of them is a run of `Step`.  A record of
the queue is a cell with the address `g_malloc` gave it.

`qemu_cond_wait` is a bare `pthread_cond_wait`, which may also return without a signal;
that is a transition of its own (`Label.spurious`).
-/

import Mathlib.Data.List.Basic
import Mathlib.Data.Int.Notation
import Mathlib.Data.Nat.Notation

namespace Especial
namespace Emul

/-! ### Commands and frames -/

/-- `EventId`. -/
inductive EventId
  | DIGITAL_OUT
  | C_EVENT
  | SCALA_DIGITAL_IN
  | SCALA_ACK_EVT
  deriving DecidableEq, Repr

/-- The value of an `EventId`. -/
def EventId.val : EventId → ℕ
  | .DIGITAL_OUT => 0x00
  | .C_EVENT => 0x10
  | .SCALA_DIGITAL_IN => 'V'.toNat
  | .SCALA_ACK_EVT => 'A'.toNat

/-- The `data` of a `P103Cmd`. -/
structure P103Cmd where
  id : EventId
  port : BitVec 8
  pin : BitVec 8
  value : BitVec 32
  deriving DecidableEq, Repr

/-- `post_event_digital_out`. -/
def postEventDigitalOut (port pin : BitVec 8) (value : BitVec 32) : P103Cmd :=
  ⟨.DIGITAL_OUT, port, pin, value⟩

/-- `post_event_c`. -/
def postEventC (eventId : BitVec 8) : P103Cmd := ⟨.C_EVENT, 0#8, 0#8, eventId.setWidth 32⟩

/-- `%d`. -/
def decimal (v : ℤ) : List Char :=
  if v < 0 then '-' :: Nat.toDigits 10 v.natAbs else Nat.toDigits 10 v.toNat

/-- `%c`. -/
def character (v : BitVec 8) : List Char := [Char.ofNat v.toNat]

/-- `CMD_EVENT`. -/
def cmdEvent (cmd : P103Cmd) : List Char :=
  "\x7b\"msgId\":".toList ++ decimal cmd.id.val ++ ",\"value\":".toList ++
    decimal cmd.value.toInt ++ "\x7d\n".toList

/-- `CMD_PERIPH`. -/
def cmdPeriph (cmd : P103Cmd) : List Char :=
  "\x7b\"msgId\":".toList ++ decimal cmd.id.val ++ ",\"pin\":\x7b\"port\":\"".toList ++
    character cmd.port ++ "\",\"nbr\":".toList ++ decimal cmd.pin.toNat ++
    "\x7d,\"value\":".toList ++ decimal cmd.value.toInt ++ "\x7d\n".toList

/-- The frame of a command; for other ids the buffer keeps what it held. -/
def format (cmd : P103Cmd) (cmdStr : List Char) : List Char :=
  match cmd.id with
  | .C_EVENT => cmdEvent cmd
  | .DIGITAL_OUT => cmdPeriph cmd
  | _ => cmdStr

example : format (postEventC 0x41) [] = "\x7b\"msgId\":16,\"value\":65\x7d\n".toList := by decide

/-! ### Threads -/

/-- A record of the queue and its address. -/
structure Cell where
  addr : ℕ
  data : P103Cmd
  deriving DecidableEq, Repr

/-- The threads that take `cmd_mutex`. -/
inductive Thread
  | poster
  | cmd
  deriving DecidableEq, Repr

/-- Where the posting thread is in `stm32p103_emul_event_post`: the next statement,
with the `size` it has read. -/
inductive PosterPc
  | idle
  | lock (size : BitVec 32) (e : Cell)
  | insert (size : BitVec 32) (e : Cell)
  | count (size : BitVec 32)
  | signal (size : BitVec 32)
  | unlock (size : BitVec 32)
  | check (size : BitVec 32)
  deriving DecidableEq, Repr

/-- Where the command thread is.  In `qemu_cond_wait` it is `blocked` until a signal or
a spurious wake-up, and then `woken` until it has the mutex back. -/
inductive CmdPc
  | connect
  | lock
  | wait
  | blocked
  | woken
  | unlock
  | testTerminate
  | testEmpty
  | popLock
  | pop
  | write (cmd : Cell)
  | removeHead (cmd : Cell)
  | countDown (cmd : Cell)
  | popUnlock (cmd : Cell)
  | free (cmd : Cell)
  | failUnlock (cmd : Cell)
  | failFree (cmd : Cell)
  | terminated
  | segfault
  deriving DecidableEq, Repr

/-- `qemu_cond_signal(&cmd_cond)`, as the command thread sees it. -/
def CmdPc.signal : CmdPc → CmdPc
  | .blocked => .woken
  | pc => pc

/-- Where `stm32p103_emul_exit` is. -/
inductive ExitPc
  | idle
  | signal
  | join
  | joined
  deriving DecidableEq, Repr

/-- `P103EmulState`, with the threads and what they have done to the world. -/
structure P103EmulState where
  cmdList : List Cell
  cmdListSize : BitVec 32
  cmdThreadTerminate : BitVec 32
  /-- the thread that holds `cmd_mutex` -/
  cmdMutex : Option Thread
  poster : PosterPc
  cmdThread : CmdPc
  exit : ExitPc
  /-- `cmd_str` of the command thread, up to `count` -/
  cmdStr : List Char
  /-- what each `write` put on the socket -/
  sent : List (List Char)
  /-- the next address of `g_malloc` -/
  malloc : ℕ
  /-- the addresses given to `g_free` -/
  freed : List ℕ
  /-- `exit(-1)` was called -/
  exited : Bool
  deriving DecidableEq, Repr

/-- `stm32p103_emul_init`. -/
def init : P103EmulState where
  cmdList := []
  cmdListSize := 0#32
  cmdThreadTerminate := 0#32
  cmdMutex := none
  poster := .idle
  cmdThread := .connect
  exit := .idle
  cmdStr := []
  sent := []
  malloc := 0
  freed := []
  exited := false

/-! ### Transitions -/

/-- `stm32p103_emul_event_post` up to its call of `event_queue_add`. -/
def eventPost (s : P103EmulState) (cmd : P103Cmd) : Option P103EmulState :=
  match s.poster with
  | .idle => some { s with
      poster := .lock s.cmdListSize ⟨s.malloc, cmd⟩
      malloc := s.malloc + 1 }
  | _ => none

/-- The next statement of `event_queue_add`, and the check after it. -/
def posterStep (s : P103EmulState) : Option P103EmulState :=
  match s.poster with
  | .idle => none
  | .lock size e =>
    if s.cmdMutex = none then some { s with cmdMutex := some .poster, poster := .insert size e }
    else none
  | .insert size e => some { s with cmdList := s.cmdList ++ [e], poster := .count size }
  | .count size => some { s with cmdListSize := s.cmdListSize + 1#32, poster := .signal size }
  | .signal size => some { s with cmdThread := s.cmdThread.signal, poster := .unlock size }
  | .unlock size => some { s with cmdMutex := none, poster := .check size }
  | .check size => some { s with exited := decide (size > 1023#32), poster := .idle }

/-- The outcome of `inet_connect`. -/
def connect (s : P103EmulState) (ok : Bool) : Option P103EmulState :=
  match s.cmdThread with
  | .connect => some { s with cmdThread := if ok then .lock else .terminated }
  | _ => none

/-- `qemu_mutex_lock(&cmd_mutex)` of the command thread, also the one at the end of
`qemu_cond_wait`. -/
def cmdLock (s : P103EmulState) (next : CmdPc) : Option P103EmulState :=
  if s.cmdMutex = none then some { s with cmdMutex := some .cmd, cmdThread := next } else none

/-- The next statement of `stm32p103_emul_cmd_thread`. -/
def cmdStep (s : P103EmulState) : Option P103EmulState :=
  match s.cmdThread with
  | .lock => cmdLock s .wait
  | .wait => some { s with cmdMutex := none, cmdThread := .blocked }
  | .woken => cmdLock s .unlock
  | .unlock => some { s with cmdMutex := none, cmdThread := .testTerminate }
  | .testTerminate =>
    some { s with cmdThread := if s.cmdThreadTerminate ≠ 0#32 then .terminated else .testEmpty }
  | .testEmpty => some { s with cmdThread := if s.cmdList.isEmpty then .lock else .popLock }
  | .popLock => cmdLock s .pop
  | .pop =>
    match s.cmdList with
    | [] => some { s with cmdThread := .segfault }
    | cmd :: _ => some { s with cmdStr := format cmd.data s.cmdStr, cmdThread := .write cmd }
  | .removeHead cmd => some { s with cmdList := s.cmdList.tail, cmdThread := .countDown cmd }
  | .countDown cmd =>
    some { s with cmdListSize := s.cmdListSize - 1#32, cmdThread := .popUnlock cmd }
  | .popUnlock cmd => some { s with cmdMutex := none, cmdThread := .free cmd }
  | .free cmd => some { s with freed := s.freed ++ [cmd.addr], cmdThread := .testEmpty }
  | .failUnlock cmd => some { s with cmdMutex := none, cmdThread := .failFree cmd }
  | .failFree cmd => some { s with freed := s.freed ++ [cmd.addr], cmdThread := .terminated }
  | .connect | .blocked | .write _ | .terminated | .segfault => none

/-- `qemu_cond_wait` of the command thread returns without a signal. -/
def spuriousWakeup (s : P103EmulState) : Option P103EmulState :=
  match s.cmdThread with
  | .blocked => some { s with cmdThread := .woken }
  | _ => none

/-- The outcome of `write`: the number of characters it took, `none` for `-1`. -/
def writeStep (s : P103EmulState) (res : Option ℕ) : Option P103EmulState :=
  match s.cmdThread, res with
  | .write cmd, none => some { s with cmdThread := .failUnlock cmd }
  | .write cmd, some n =>
    if n ≤ s.cmdStr.length then
      some { s with sent := s.sent ++ [s.cmdStr.take n], cmdThread := .removeHead cmd }
    else none
  | _, _ => none

/-- The next statement of `stm32p103_emul_exit`, up to the join of the command
thread. -/
def exitStep (s : P103EmulState) : Option P103EmulState :=
  match s.exit with
  | .idle => some { s with cmdThreadTerminate := 1#32, exit := .signal }
  | .signal => some { s with cmdThread := s.cmdThread.signal, exit := .join }
  | .join => if s.cmdThread = .terminated then some { s with exit := .joined } else none
  | .joined => none

/-- Whose turn it is, with what comes from outside. -/
inductive Label
  | post (cmd : P103Cmd)
  | poster
  | connect (ok : Bool)
  | cmd
  | spurious
  | write (res : Option ℕ)
  | exit
  deriving DecidableEq, Repr

/-- What happens in a turn. -/
def act (s : P103EmulState) : Label → Option P103EmulState
  | .post cmd => eventPost s cmd
  | .poster => posterStep s
  | .connect ok => connect s ok
  | .cmd => cmdStep s
  | .spurious => spuriousWakeup s
  | .write res => writeStep s res
  | .exit => exitStep s

/-- A transition; there is none after `exit(-1)`. -/
def step (s : P103EmulState) (l : Label) : Option P103EmulState :=
  if s.exited then none else act s l

/-- The transition relation. -/
def Step (s : P103EmulState) (l : Label) (s' : P103EmulState) : Prop := step s l = some s'

end Emul
end Especial
