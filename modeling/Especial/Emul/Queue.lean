/-
# No command is lost between the queue and the socket

The command that the thread has in its hands is the first of the queue until the thread
removes it, since the other threads only append (`step_atHead`).

`frames s` is what has been written to the socket, then the commands of the queue
that are not written yet, then the one that is being posted.  As long as each
`write` takes the whole frame or fails, a transition adds to it exactly the frame of
a command that is posted (`step_frames`).
-/

import Especial.Emul.Wakeup

namespace Especial
namespace Emul

open Lib

variable {s t : P103EmulState} {l : Label}

/-! ### The command at the head -/

/-- The command that the thread writes, removes or gives up is the first of the queue. -/
def CmdPc.AtHead (s : P103EmulState) : CmdPc → Prop
  | .write cmd | .removeHead cmd | .failUnlock cmd | .failFree cmd => s.cmdList.head? = some cmd
  | _ => True

section AtHead

variable {pc next : CmdPc} {cmd : Cell}

/-- The other threads add to the end of the queue only. -/
theorem CmdPc.AtHead.append (h : pc.AtHead s) (es : List Cell)
    (hlist : t.cmdList = s.cmdList ++ es) : pc.AtHead t := by
  cases pc
  case write cmd | removeHead cmd | failUnlock cmd | failFree cmd =>
    have hhead : s.cmdList.head? = some cmd := h
    show t.cmdList.head? = some cmd
    simp [hlist, hhead]
  all_goals trivial

/-- A signal leaves the command at the head. -/
theorem CmdPc.AtHead.signal (h : pc.AtHead s) : pc.signal.AtHead s := by
  cases pc <;> exact h

/-- The command that is removed is the first of the queue. -/
theorem CmdPc.AtHead.exists_cons (h : pc.AtHead s) (hpc : pc = .removeHead cmd) :
    ∃ rest, s.cmdList = cmd :: rest := by
  subst hpc
  exact List.head?_eq_some_iff.1 h

/-- With the mutex just taken the thread has no command yet. -/
theorem CmdPc.Locks.atHead (h : pc.Locks next) : next.AtHead s := by
  cases h <;> trivial

/-- Giving the mutex back leaves the command at the head. -/
theorem CmdPc.Unlocks.atHead (h : pc.Unlocks next) (hs : pc.AtHead s) : next.AtHead s := by
  cases h with
  | failUnlock => exact hs
  | wait | unlock | popUnlock => trivial

/-- With its record freed the thread has no command. -/
theorem CmdPc.Frees.atHead (h : pc.Frees cmd next) : next.AtHead s := by
  cases h <;> trivial

/-- A step that changes nothing else leaves the command at the head. -/
theorem CmdPc.Goes.atHead (h : pc.Goes s l next) (hs : pc.AtHead s) : next.AtHead s := by
  cases h with
  | writeFails => exact hs
  | connected | notConnected | terminate | goOn | empty | queued | segfault => trivial

end AtHead

/-- Only the command thread removes, and only what it has written. -/
theorem step_atHead (h : s.cmdThread.AtHead s) (hstep : Step s l t) : t.cmdThread.AtHead t := by
  have hkept : ∀ {pc : CmdPc}, pc.AtHead s → t.cmdList = s.cmdList → pc.AtHead t :=
    fun hpc hlist =>
    hpc.append [] (by rw [hlist, List.append_nil])
  cases step_effect hstep with
  | insert size e _ => exact h.append [e] rfl
  | post _ _ | posterLock _ _ _ _ | count _ _ | posterUnlock _ _ | check _ _
      | terminate _ | join _ =>
    exact hkept h rfl
  | posterSignal _ _ | exitSignal _ | spurious _ => exact hkept h.signal rfl
  | cmdLock hc _ => exact hkept hc.atHead rfl
  | cmdUnlock hc => exact hkept (hc.atHead h) rfl
  | cmdGo hc => exact hkept (hc.atHead h) rfl
  | free _ hc => exact hkept hc.atHead rfl
  | pop cmd _ hlist => exact hlist
  | write _ cmd hc =>
    rw [hc] at h
    exact h
  | removeHead _ _ | countDown _ _ => trivial

/-! ### The commands on their way -/

/-- The two ids that the emulator posts. -/
def P103Cmd.Postable (cmd : P103Cmd) : Prop := cmd.id = .C_EVENT ∨ cmd.id = .DIGITAL_OUT

/-- The frame of a command. -/
def frame (cmd : P103Cmd) : List Char := format cmd []

/-- For the two ids that are posted the buffer is overwritten. -/
theorem format_eq_frame {cmd : P103Cmd} (h : cmd.Postable) (cmdStr : List Char) :
    format cmd cmdStr = frame cmd := by
  rcases h with h | h <;> simp [frame, format, h]

/-- Posts have one of the two ids, and a `write` takes the whole frame or fails. -/
def Regular (s : P103EmulState) : Label → Prop
  | .post cmd => cmd.Postable
  | .write res => res = none ∨ res = some s.cmdStr.length
  | _ => True

/-- The commands of the queue that are not on the socket yet. -/
def CmdPc.unsent (cmdList : List Cell) : CmdPc → List Cell
  | .removeHead _ => cmdList.tail
  | _ => cmdList

/-- The command that is being posted and is not in the queue yet. -/
def PosterPc.posting : PosterPc → List Cell
  | .lock _ e | .insert _ e => [e]
  | _ => []

/-- All commands on their way to the socket. -/
def underway (s : P103EmulState) : List Cell := s.cmdThread.unsent s.cmdList ++ s.poster.posting

/-- The frames on the socket, followed by those on their way. -/
def frames (s : P103EmulState) : List (List Char) :=
  s.sent ++ (underway s).map fun e => frame e.data

/-- What the command thread knows of the head of the queue. -/
def CmdPc.HeadOk (s : P103EmulState) : CmdPc → Prop
  | .popLock | .pop => s.cmdList ≠ []
  | .write cmd => s.cmdList.head? = some cmd ∧ s.cmdStr = frame cmd.data
  | .removeHead cmd => s.cmdList.head? = some cmd
  | _ => True

/-- What holds in every state. -/
structure QueueOk (s : P103EmulState) : Prop where
  head : s.cmdThread.HeadOk s
  postable : ∀ e ∈ s.cmdList ++ s.poster.posting, e.data.Postable

/-- At the beginning the queue is empty. -/
theorem init_queueOk : QueueOk init := ⟨trivial, by simp [init, PosterPc.posting]⟩

/-! ### The head of the queue -/

/-- What a transition leaves as it is for the command thread, when it is not its own:
the queue can grow at its end, and the thread can be woken. -/
theorem CmdPc.HeadOk.append {pc : CmdPc} (h : pc.HeadOk s) (es : List Cell)
    (hlist : t.cmdList = s.cmdList ++ es) (hstr : t.cmdStr = s.cmdStr) : pc.HeadOk t := by
  cases pc
  case popLock | pop =>
    show t.cmdList ≠ []
    have hne : s.cmdList ≠ [] := h
    simp [hlist, hne]
  case write cmd =>
    obtain ⟨hhead, hframe⟩ := h
    exact ⟨by simp [hlist, hhead], hstr.trans hframe⟩
  case removeHead cmd =>
    have hhead : s.cmdList.head? = some cmd := h
    show t.cmdList.head? = some cmd
    simp [hlist, hhead]
  all_goals trivial

/-- What is inserted is not sent yet. -/
theorem CmdPc.HeadOk.unsent_append {pc : CmdPc} (h : pc.HeadOk s) (es : List Cell) :
    pc.unsent (s.cmdList ++ es) = pc.unsent s.cmdList ++ es := by
  cases pc
  case removeHead cmd =>
    have hhead : s.cmdList.head? = some cmd := h
    show (s.cmdList ++ es).tail = s.cmdList.tail ++ es
    rw [List.tail_append_of_ne_nil]
    rintro hnil
    simp [hnil] at hhead
  all_goals rfl

/-- A signal changes nothing that the thread knows. -/
theorem CmdPc.HeadOk.signal {pc : CmdPc} (h : pc.HeadOk s) : pc.signal.HeadOk s := by
  cases pc <;> exact h

/-- A signal sends nothing. -/
theorem CmdPc.unsent_signal (pc : CmdPc) (cmdList : List Cell) :
    pc.signal.unsent cmdList = pc.unsent cmdList := by
  cases pc <;> rfl

/-- The invariant after a transition, and the frames it adds; what is on the socket
stays there. -/
structure Adds (s t : P103EmulState) (fs : List (List Char)) : Prop where
  ok : QueueOk t
  frames_eq : frames t = frames s ++ fs
  sent : s.sent <+: t.sent

/-- A transition that changes neither the queue nor the command that is posted. -/
theorem QueueOk.adds_nil (h : QueueOk s) (hlist : t.cmdList = s.cmdList)
    (hposting : t.poster.posting = s.poster.posting) (hsent : t.sent = s.sent)
    (hhead : t.cmdThread.HeadOk t)
    (hunsent : t.cmdThread.unsent s.cmdList = s.cmdThread.unsent s.cmdList) : Adds s t [] := by
  refine ⟨⟨hhead, ?_⟩, ?_, by simp [hsent]⟩
  · rw [hlist, hposting]
    exact h.postable
  · rw [List.append_nil, frames, frames, underway, underway, hlist, hposting, hsent, hunsent]

/-- A transition of the command thread that leaves the queue and the socket alone. -/
theorem QueueOk.adds_of_cmd {next : CmdPc} (h : QueueOk s)
    (hnext : next.HeadOk s ∧ ∀ q, next.unsent q = s.cmdThread.unsent q)
    (ht : t.cmdThread = next) (hlist : t.cmdList = s.cmdList) (hstr : t.cmdStr = s.cmdStr)
    (hposter : t.poster = s.poster) (hsent : t.sent = s.sent) : Adds s t [] := by
  refine h.adds_nil hlist (by rw [hposter]) hsent ?_ (by rw [ht, hnext.2])
  rw [ht]
  exact hnext.1.append [] (by rw [hlist, List.append_nil]) hstr

/-! ### All threads -/

/-- The frames a transition adds. -/
def Label.posted : Label → List (List Char)
  | .post c => [frame c]
  | _ => []

section Head

variable {pc next : CmdPc} {cmd : Cell}

/-- Taking the mutex sends nothing. -/
theorem CmdPc.Locks.headOk (h : pc.Locks next) (hs : pc.HeadOk s) :
    next.HeadOk s ∧ ∀ q, next.unsent q = pc.unsent q := by
  cases h <;> exact ⟨hs, fun _ => rfl⟩

/-- Giving it back sends nothing. -/
theorem CmdPc.Unlocks.headOk (h : pc.Unlocks next) :
    next.HeadOk s ∧ ∀ q, next.unsent q = pc.unsent q := by
  cases h <;> exact ⟨trivial, fun _ => rfl⟩

/-- Freeing a record sends nothing. -/
theorem CmdPc.Frees.headOk (h : pc.Frees cmd next) :
    next.HeadOk s ∧ ∀ q, next.unsent q = pc.unsent q := by
  cases h <;> exact ⟨trivial, fun _ => rfl⟩

/-- A step that changes nothing else sends nothing, and posts nothing. -/
theorem CmdPc.Goes.headOk (h : pc.Goes s l next) :
    (next.HeadOk s ∧ ∀ q, next.unsent q = pc.unsent q) ∧ l.posted = [] := by
  cases h
  case queued hlist => exact ⟨⟨hlist, fun _ => rfl⟩, rfl⟩
  all_goals exact ⟨⟨trivial, fun _ => rfl⟩, rfl⟩

end Head

/-- **A transition** adds the frame of the command that is posted. -/
theorem step_frames (h : QueueOk s) (hl : Regular s l) (hstep : Step s l t) :
    Adds s t l.posted := by
  have hhead := h.head
  cases step_effect hstep with
  | post cmd hp =>
    refine ⟨⟨hhead.append [] (by simp) rfl, fun e he => ?_⟩, ?_, List.prefix_rfl⟩
    · rcases List.mem_append.1 he with he | he
      · exact h.postable e (List.mem_append_left _ he)
      · rw [List.mem_singleton.1 he]
        exact hl
    · simp [frames, underway, hp, PosterPc.posting, Label.posted]
  | posterLock _ _ hp _ | count _ hp | posterUnlock _ hp | check _ hp =>
    exact h.adds_nil rfl (by rw [hp]; rfl) rfl (hhead.append [] (by simp) rfl) rfl
  | insert size e hp =>
    refine ⟨⟨hhead.append [e] rfl rfl, fun e' he' => h.postable e' ?_⟩, ?_, List.prefix_rfl⟩
    · simpa [hp, PosterPc.posting] using he'
    · simp [frames, underway, hp, hhead.unsent_append, PosterPc.posting, Label.posted]
  | posterSignal _ hp =>
    exact h.adds_nil rfl (by rw [hp]; rfl) rfl (hhead.signal.append [] (by simp) rfl)
      (CmdPc.unsent_signal _ _)
  | exitSignal _ | spurious _ =>
    exact h.adds_nil rfl rfl rfl (hhead.signal.append [] (by simp) rfl) (CmdPc.unsent_signal _ _)
  | terminate _ | join _ => exact h.adds_nil rfl rfl rfl (hhead.append [] (by simp) rfl) rfl
  | cmdLock hc _ => exact h.adds_of_cmd (hc.headOk hhead) rfl rfl rfl rfl rfl
  | cmdUnlock hc => exact h.adds_of_cmd hc.headOk rfl rfl rfl rfl rfl
  | free _ hc => exact h.adds_of_cmd hc.headOk rfl rfl rfl rfl rfl
  | cmdGo hc =>
    rw [hc.headOk.2]
    exact h.adds_of_cmd hc.headOk.1 rfl rfl rfl rfl rfl
  | pop cmd hc hlist =>
    have hcmd : cmd.data.Postable :=
      h.postable cmd (List.mem_append_left _ (List.mem_of_mem_head? hlist))
    exact h.adds_nil rfl rfl rfl ⟨hlist, format_eq_frame hcmd _⟩ (by rw [hc]; rfl)
  | write n cmd hc =>
    -- the frame leaves the commands on their way and is on the socket
    rw [hc] at hhead
    obtain ⟨hlist, hframe⟩ := hhead
    obtain ⟨rest, hrest⟩ : ∃ rest, s.cmdList = cmd :: rest := List.head?_eq_some_iff.1 hlist
    obtain rfl : n = s.cmdStr.length := Option.some.inj (hl.resolve_left nofun)
    refine ⟨⟨hlist, h.postable⟩, ?_, List.prefix_append _ _⟩
    simp [frames, underway, hc, CmdPc.unsent, hrest, hframe, Label.posted]
  | removeHead cmd hc =>
    refine ⟨⟨trivial, fun e he => h.postable e ?_⟩, ?_, List.prefix_rfl⟩
    · rcases List.mem_append.1 he with he | he
      · exact List.mem_append_left _ (List.mem_of_mem_tail he)
      · exact List.mem_append_right _ he
    · simp [frames, underway, hc, CmdPc.unsent, Label.posted]
  | countDown _ hc => exact h.adds_nil rfl rfl rfl trivial (by rw [hc]; rfl)

end Emul
end Especial
