/-
# What each transition does to the emulator

The transitions of the three threads change the state in a handful of ways.  `Effect`
lists them, with where the thread is before and what it does, and `step_effect` says
that every transition is one of them.  What holds of the wake-ups, of the queue, of
the mutex and of the pointers in memory is derived from this list.
-/

import Especial.Emul.Basic

namespace Especial
namespace Emul

variable {s t : P103EmulState} {l : Label}

/-- The command thread takes the mutex. -/
inductive CmdPc.Locks : CmdPc → CmdPc → Prop
  | lock : Locks .lock .wait
  | woken : Locks .woken .unlock
  | popLock : Locks .popLock .pop

/-- The command thread gives the mutex back. -/
inductive CmdPc.Unlocks : CmdPc → CmdPc → Prop
  | wait : Unlocks .wait .blocked
  | unlock : Unlocks .unlock .testTerminate
  | popUnlock (cmd : Cell) : Unlocks (.popUnlock cmd) (.free cmd)
  | failUnlock (cmd : Cell) : Unlocks (.failUnlock cmd) (.failFree cmd)

/-- The command thread goes on and changes nothing else. -/
inductive CmdPc.Goes (s : P103EmulState) : Label → CmdPc → CmdPc → Prop
  | connected : Goes s (.connect true) .connect .lock
  | notConnected : Goes s (.connect false) .connect .terminated
  | terminate : Goes s .cmd .testTerminate .terminated
  | goOn : Goes s .cmd .testTerminate .testEmpty
  | empty : Goes s .cmd .testEmpty .lock
  | queued (hlist : s.cmdList ≠ []) : Goes s .cmd .testEmpty .popLock
  | segfault (hlist : s.cmdList = []) : Goes s .cmd .pop .segfault
  | writeFails (cmd : Cell) : Goes s (.write none) (.write cmd) (.failUnlock cmd)

/-- The command thread frees its record. -/
inductive CmdPc.Frees (cmd : Cell) : CmdPc → CmdPc → Prop
  | free : Frees cmd (.free cmd) .testEmpty
  | failFree : Frees cmd (.failFree cmd) .terminated

/-- What a transition does. -/
inductive Effect (s : P103EmulState) : Label → P103EmulState → Prop
  | post (cmd : P103Cmd) (hp : s.poster = .idle) :
      Effect s (.post cmd)
        { s with poster := .lock s.cmdListSize ⟨s.malloc, cmd⟩, malloc := s.malloc + 1 }
  | posterLock (size : BitVec 32) (e : Cell) (hp : s.poster = .lock size e)
      (hm : s.cmdMutex = none) :
      Effect s .poster { s with cmdMutex := some .poster, poster := .insert size e }
  | insert (size : BitVec 32) (e : Cell) (hp : s.poster = .insert size e) :
      Effect s .poster { s with cmdList := s.cmdList ++ [e], poster := .count size }
  | count (size : BitVec 32) (hp : s.poster = .count size) :
      Effect s .poster { s with cmdListSize := s.cmdListSize + 1#32, poster := .signal size }
  | posterSignal (size : BitVec 32) (hp : s.poster = .signal size) :
      Effect s .poster { s with cmdThread := s.cmdThread.signal, poster := .unlock size }
  | posterUnlock (size : BitVec 32) (hp : s.poster = .unlock size) :
      Effect s .poster { s with cmdMutex := none, poster := .check size }
  | check (size : BitVec 32) (hp : s.poster = .check size) :
      Effect s .poster { s with exited := decide (size > 1023#32), poster := .idle }
  | cmdLock {next : CmdPc} (hc : s.cmdThread.Locks next) (hm : s.cmdMutex = none) :
      Effect s .cmd { s with cmdMutex := some .cmd, cmdThread := next }
  | cmdUnlock {next : CmdPc} (hc : s.cmdThread.Unlocks next) :
      Effect s .cmd { s with cmdMutex := none, cmdThread := next }
  | cmdGo {l : Label} {next : CmdPc} (hc : s.cmdThread.Goes s l next) :
      Effect s l { s with cmdThread := next }
  | pop (cmd : Cell) (hc : s.cmdThread = .pop) (hlist : s.cmdList.head? = some cmd) :
      Effect s .cmd { s with cmdStr := format cmd.data s.cmdStr, cmdThread := .write cmd }
  | write (n : ℕ) (cmd : Cell) (hc : s.cmdThread = .write cmd) :
      Effect s (.write (some n))
        { s with sent := s.sent ++ [s.cmdStr.take n], cmdThread := .removeHead cmd }
  | removeHead (cmd : Cell) (hc : s.cmdThread = .removeHead cmd) :
      Effect s .cmd { s with cmdList := s.cmdList.tail, cmdThread := .countDown cmd }
  | countDown (cmd : Cell) (hc : s.cmdThread = .countDown cmd) :
      Effect s .cmd { s with cmdListSize := s.cmdListSize - 1#32, cmdThread := .popUnlock cmd }
  | free {next : CmdPc} (cmd : Cell) (hc : s.cmdThread.Frees cmd next) :
      Effect s .cmd { s with freed := s.freed ++ [cmd.addr], cmdThread := next }
  | spurious (hc : s.cmdThread = .blocked) :
      Effect s .spurious { s with cmdThread := s.cmdThread.signal }
  | terminate (he : s.exit = .idle) :
      Effect s .exit { s with cmdThreadTerminate := 1#32, exit := .signal }
  | exitSignal (he : s.exit = .signal) :
      Effect s .exit { s with cmdThread := s.cmdThread.signal, exit := .join }
  | join (he : s.exit = .join) : Effect s .exit { s with exit := .joined }

/-- `stm32p103_emul_event_post` begins. -/
theorem eventPost_effect {cmd : P103Cmd} (h : eventPost s cmd = some t) :
    Effect s (.post cmd) t := by
  unfold eventPost at h
  split at h
  · rename_i hp
    obtain rfl := Option.some.inj h
    exact .post cmd hp
  · simp at h

/-- A statement of `event_queue_add`, or the check after it. -/
theorem posterStep_effect (h : posterStep s = some t) : Effect s .poster t := by
  cases hp : s.poster <;> simp only [posterStep, hp] at h
  case idle => simp at h
  case lock size e =>
    split_ifs at h with hm
    obtain rfl := Option.some.inj h
    exact .posterLock size e hp hm
  all_goals obtain rfl := Option.some.inj h
  case insert size e => exact .insert size e hp
  case count size => exact .count size hp
  case signal size => exact .posterSignal size hp
  case unlock size => exact .posterUnlock size hp
  case check size => exact .check size hp

/-- `inet_connect` returns. -/
theorem connect_effect {ok : Bool} (h : connect s ok = some t) : Effect s (.connect ok) t := by
  unfold connect at h
  split at h
  · rename_i hc
    obtain rfl := Option.some.inj h
    cases ok with
    | false => exact .cmdGo (hc ▸ .notConnected)
    | true => exact .cmdGo (hc ▸ .connected)
  · simp at h

/-- The command thread gets the mutex. -/
theorem cmdLock_effect {next : CmdPc} (hc : s.cmdThread.Locks next)
    (h : cmdLock s next = some t) : Effect s .cmd t := by
  unfold cmdLock at h
  split_ifs at h with hm
  obtain rfl := Option.some.inj h
  exact .cmdLock hc hm

/-- A statement of the command thread. -/
theorem cmdStep_effect (h : cmdStep s = some t) : Effect s .cmd t := by
  cases hc : s.cmdThread <;> simp only [cmdStep, hc] at h
  case connect | blocked | write | terminated | segfault => simp at h
  case lock => exact cmdLock_effect (hc ▸ .lock) h
  case woken => exact cmdLock_effect (hc ▸ .woken) h
  case popLock => exact cmdLock_effect (hc ▸ .popLock) h
  case testTerminate =>
    split_ifs at h <;> obtain rfl := Option.some.inj h
    · exact .cmdGo (hc ▸ .terminate)
    · exact .cmdGo (hc ▸ .goOn)
  case testEmpty =>
    split_ifs at h with hempty <;> obtain rfl := Option.some.inj h
    · exact .cmdGo (hc ▸ .empty)
    · exact .cmdGo (hc ▸ .queued fun hnil => hempty (by rw [hnil]; rfl))
  case pop =>
    cases hlist : s.cmdList with
    | nil =>
      rw [hlist] at h
      obtain rfl := Option.some.inj h
      rw [← hlist]
      exact .cmdGo (hc ▸ .segfault hlist)
    | cons cmd rest =>
      rw [hlist] at h
      obtain rfl := Option.some.inj h
      rw [← hlist]
      exact .pop cmd hc (by rw [hlist]; rfl)
  all_goals obtain rfl := Option.some.inj h
  case wait => exact .cmdUnlock (hc ▸ .wait)
  case unlock => exact .cmdUnlock (hc ▸ .unlock)
  case removeHead cmd => exact .removeHead cmd hc
  case countDown cmd => exact .countDown cmd hc
  case popUnlock cmd => exact .cmdUnlock (hc ▸ .popUnlock cmd)
  case free cmd => exact .free cmd (hc ▸ .free)
  case failUnlock cmd => exact .cmdUnlock (hc ▸ .failUnlock cmd)
  case failFree cmd => exact .free cmd (hc ▸ .failFree)

/-- A spurious wake-up of the command thread. -/
theorem spuriousWakeup_effect (h : spuriousWakeup s = some t) : Effect s .spurious t := by
  unfold spuriousWakeup at h
  split at h
  · rename_i hc
    obtain rfl := Option.some.inj h
    have heffect := Effect.spurious hc
    rwa [hc] at heffect
  · simp at h

/-- `write` returns. -/
theorem writeStep_effect {res : Option ℕ} (h : writeStep s res = some t) :
    Effect s (.write res) t := by
  unfold writeStep at h
  split at h
  · rename_i cmd hc
    obtain rfl := Option.some.inj h
    exact .cmdGo (hc ▸ .writeFails cmd)
  · rename_i cmd n hc
    split_ifs at h
    obtain rfl := Option.some.inj h
    exact .write n cmd hc
  · simp at h

/-- A statement of `stm32p103_emul_exit`. -/
theorem exitStep_effect (h : exitStep s = some t) : Effect s .exit t := by
  cases he : s.exit <;> simp only [exitStep, he] at h
  case idle =>
    obtain rfl := Option.some.inj h
    exact .terminate he
  case signal =>
    obtain rfl := Option.some.inj h
    exact .exitSignal he
  case join =>
    split_ifs at h
    obtain rfl := Option.some.inj h
    exact .join he
  case joined => simp at h

/-- Nothing happens after `exit(-1)`. -/
theorem running_of_step (h : Step s l t) : s.exited = false := by
  unfold Step step at h
  split_ifs at h with hx
  simpa using hx

/-- A transition is what happens in its turn. -/
theorem act_of_step (h : Step s l t) : act s l = some t := by
  rw [← h, step, if_neg (by simp [running_of_step h])]

/-- **A transition** has one of the effects. -/
theorem step_effect (h : Step s l t) : Effect s l t := by
  have hact := act_of_step h
  cases l with
  | post cmd => exact eventPost_effect hact
  | poster => exact posterStep_effect hact
  | connect ok => exact connect_effect hact
  | cmd => exact cmdStep_effect hact
  | spurious => exact spuriousWakeup_effect hact
  | write res => exact writeStep_effect hact
  | exit => exact exitStep_effect hact

end Emul
end Especial
