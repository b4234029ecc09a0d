/-
# The queue of commands over whole runs

Three threads of control meet on the queue: `stm32p103_emul_event_post` reads
`cmd_list_size` without the mutex, inserts under it and tests the size it read; the
command thread tests for an empty queue without the mutex and removes under it.
`Tally` says in which states the size and the queue differ, and how many commands
there can be at each statement of the thread that posts.
-/

import Especial.Emul.Queue
import Especial.Lib.Mutex

namespace Especial
namespace Emul

open Lib

variable {s t : P103EmulState} {l : Label}

/-! ### Critical sections -/

/-- Between `qemu_mutex_lock` and `qemu_mutex_unlock` of `event_queue_add`. -/
def PosterPc.inside : PosterPc → Bool
  | .insert _ _ | .count _ | .signal _ | .unlock _ => true
  | _ => false

/-- The command thread holds `cmd_mutex`. -/
def CmdPc.inside : CmdPc → Bool
  | .wait | .unlock | .pop | .write _ | .removeHead _ | .countDown _ | .popUnlock _
  | .failUnlock _ | .segfault => true
  | _ => false

/-- The threads in their critical sections. -/
def Inside (s : P103EmulState) : Thread → Prop
  | .poster => s.poster.inside = true
  | .cmd => s.cmdThread.inside = true

/-- The command is in the queue and `cmd_list_size` does not count it yet. -/
def PosterPc.uncounted : PosterPc → ℕ
  | .count _ => 1
  | _ => 0

/-- The command has left the queue and `cmd_list_size` still counts it. -/
def CmdPc.uncounted : CmdPc → ℕ
  | .countDown _ => 1
  | _ => 0

/-- The size that the posting thread has read. -/
def PosterPc.size : PosterPc → ℕ
  | .idle => 0
  | .lock size _ | .insert size _ | .count size | .signal size | .unlock size | .check size =>
    size.toNat

/-- How many commands there can be: those that were counted when the posting thread
read the size, and after its insertion one more. -/
def PosterPc.limit : PosterPc → ℕ
  | .idle => 1024
  | .lock size _ | .insert size _ => size.toNat
  | .count size | .signal size | .unlock size | .check size => size.toNat + 1

/-- The same after `exit(-1)`. -/
def limit (s : P103EmulState) : ℕ := if s.exited then 1025 else s.poster.limit

/-- What holds in every state: who has the mutex, how `cmd_list_size` and the queue
can differ, and how many commands there are. -/
structure Tally (s : P103EmulState) : Prop where
  mutex : Owned s.cmdMutex (Inside s)
  size : s.cmdListSize.toNat + s.poster.uncounted = s.cmdList.length + s.cmdThread.uncounted
  read : s.poster.size ≤ 1024
  limit : s.cmdList.length + s.cmdThread.uncounted ≤ limit s

/-- Before `exit(-1)` the limit is that of the posting thread. -/
theorem limit_of_running (hx : s.exited = false) : limit s = s.poster.limit := by
  simp [limit, hx]

/-- A bound for the posting thread is one for the state. -/
theorem le_limit {n : ℕ} (hx : s.exited = false) (h : n ≤ s.poster.limit) : n ≤ limit s := by
  rw [limit_of_running hx]
  exact h

/-- After `stm32p103_emul_init` there is nothing to count. -/
theorem init_tally : Tally init := by
  refine ⟨fun i => ?_, rfl, by decide, by decide⟩
  cases i <;> simp [init, Inside, PosterPc.inside, CmdPc.inside]

/-- Outside of the critical sections `cmd_list_size` is the length of the queue. -/
theorem Tally.size_eq (h : Tally s) (hmutex : s.cmdMutex = none) :
    s.cmdListSize.toNat = s.cmdList.length := by
  have howned := h.mutex
  rw [hmutex] at howned
  have hposter : s.poster.uncounted = 0 := by
    have hout := howned.not_inside .poster
    cases hp : s.poster <;> simp_all [Inside, PosterPc.inside, PosterPc.uncounted]
  have hcmd : s.cmdThread.uncounted = 0 := by
    have hout := howned.not_inside .cmd
    cases hc : s.cmdThread <;> simp_all [Inside, CmdPc.inside, CmdPc.uncounted]
  have hsize := h.size
  omega

/-- There are at most 1025 commands while the size read is at most 1024. -/
theorem PosterPc.limit_le {pc : PosterPc} (h : pc.size ≤ 1024) : pc.limit ≤ 1025 := by
  cases pc <;> simp only [PosterPc.size, PosterPc.limit] at * <;> omega

/-- There are never more than 1025 commands. -/
theorem Tally.length_le (h : Tally s) : s.cmdList.length ≤ 1025 := by
  have hlimit : Emul.limit s ≤ 1025 := by
    unfold Emul.limit
    split_ifs
    · exact Nat.le_refl _
    · exact PosterPc.limit_le h.read
  have hlength := h.limit
  omega

/-! ### Inside and outside -/

/-- A step of the posting thread leaves the command thread where it is. -/
theorem stay_of_poster (h : t.cmdThread.inside = s.cmdThread.inside) :
    OthersStay (Inside s) (Inside t) .poster := by
  intro j hj
  cases j with
  | poster => exact absurd rfl hj
  | cmd => simp [Inside, h]

/-- A step of the command thread leaves the posting thread where it is. -/
theorem stay_of_cmd (h : t.poster = s.poster) : OthersStay (Inside s) (Inside t) .cmd := by
  intro j hj
  cases j with
  | poster => simp [Inside, h]
  | cmd => exact absurd rfl hj

/-- Who is in a critical section is seen in the two program counters. -/
theorem inside_iff (hposter : t.poster.inside = s.poster.inside)
    (hcmd : t.cmdThread.inside = s.cmdThread.inside) (i : Thread) : Inside t i ↔ Inside s i := by
  cases i <;> simp [Inside, hposter, hcmd]

section Inside

variable {pc next : CmdPc} {cmd : Cell}

/-- With the mutex the command thread is in its critical section. -/
theorem CmdPc.Locks.inside (h : pc.Locks next) :
    next.inside = true ∧ next.uncounted = pc.uncounted := by
  cases h <;> exact ⟨rfl, rfl⟩

/-- It leaves the critical section with the mutex. -/
theorem CmdPc.Unlocks.inside (h : pc.Unlocks next) :
    pc.inside = true ∧ next.inside = false ∧ next.uncounted = pc.uncounted := by
  cases h <;> exact ⟨rfl, rfl, rfl⟩

/-- Freeing a record enters and leaves nothing. -/
theorem CmdPc.Frees.inside (h : pc.Frees cmd next) :
    next.inside = pc.inside ∧ next.uncounted = pc.uncounted := by
  cases h <;> exact ⟨rfl, rfl⟩

/-- Neither does a step that changes nothing else. -/
theorem CmdPc.Goes.inside (h : pc.Goes s l next) :
    next.inside = pc.inside ∧ next.uncounted = pc.uncounted := by
  cases h <;> exact ⟨rfl, rfl⟩

/-- A signal moves no thread into or out of its critical section. -/
theorem CmdPc.inside_signal (pc : CmdPc) : pc.signal.inside = pc.inside := by cases pc <;> rfl

/-- A signal counts nothing. -/
theorem CmdPc.uncounted_signal (pc : CmdPc) : pc.signal.uncounted = pc.uncounted := by
  cases pc <;> rfl

end Inside

/-! ### The posting thread -/

/-- A post begins: its size is the one that is counted. -/
theorem Tally.post (h : Tally s) (hx : s.exited = false) (hp : s.poster = .idle) (cmd : P103Cmd) :
    Tally { s with poster := .lock s.cmdListSize ⟨s.malloc, cmd⟩, malloc := s.malloc + 1 } := by
  obtain ⟨hmutex, hsize, -, hlimit⟩ := h
  rw [limit_of_running hx] at hlimit
  rw [hp] at hsize hlimit
  have hread : s.cmdListSize.toNat = s.cmdList.length + s.cmdThread.uncounted := hsize
  refine ⟨hmutex.keep (inside_iff (by rw [hp]; rfl) rfl), hsize, ?_,
    le_limit hx (Nat.le_of_eq hread.symm)⟩
  exact Nat.le_trans (Nat.le_of_eq hread) hlimit

/-- The posting thread inserts its command. -/
theorem Tally.insert (h : Tally s) (hx : s.exited = false) {size : BitVec 32} {e : Cell}
    (hp : s.poster = .insert size e) :
    Tally { s with cmdList := s.cmdList ++ [e], poster := .count size } := by
  obtain ⟨hmutex, hsize, hread, hlimit⟩ := h
  rw [limit_of_running hx] at hlimit
  simp only [hp, PosterPc.limit, PosterPc.size, PosterPc.uncounted] at hsize hread hlimit
  refine ⟨hmutex.keep (inside_iff (by rw [hp]; rfl) rfl), ?_, hread, le_limit hx ?_⟩
  · simp only [PosterPc.uncounted, List.length_append, List.length_singleton]
    omega
  · simp only [PosterPc.limit, List.length_append, List.length_singleton]
    omega

/-- The posting thread counts its command. -/
theorem Tally.count (h : Tally s) (hx : s.exited = false) {size : BitVec 32}
    (hp : s.poster = .count size) :
    Tally { s with cmdListSize := s.cmdListSize + 1#32, poster := .signal size } := by
  obtain ⟨hmutex, hsize, hread, hlimit⟩ := h
  rw [limit_of_running hx] at hlimit
  simp only [hp, PosterPc.limit, PosterPc.size, PosterPc.uncounted] at hsize hread hlimit
  refine ⟨hmutex.keep (inside_iff (by rw [hp]; rfl) rfl), ?_, hread, le_limit hx hlimit⟩
  have hone : (1#32).toNat = 1 := rfl
  simp only [PosterPc.uncounted, BitVec.toNat_add, hone]
  omega

/-- **The check of the size**: above 1023 the process exits, so that the limit holds. -/
theorem Tally.check (h : Tally s) (hx : s.exited = false) {size : BitVec 32}
    (hp : s.poster = .check size) :
    Tally { s with exited := decide (size > 1023#32), poster := .idle } := by
  obtain ⟨hmutex, hsize, hread, hlimit⟩ := h
  rw [limit_of_running hx] at hlimit
  simp only [hp, PosterPc.limit, PosterPc.size, PosterPc.uncounted] at hsize hread hlimit
  refine ⟨hmutex.keep (inside_iff (by rw [hp]; rfl) rfl), hsize, Nat.zero_le _, ?_⟩
  -- the size that was read before the insertion decides
  have hgt : size > 1023#32 ↔ 1023 < size.toNat := BitVec.lt_def
  simp only [Emul.limit, hgt, decide_eq_true_eq, PosterPc.limit]
  split_ifs <;> omega

/-! ### The command thread -/

/-- A transition that takes or gives back the mutex or sends a signal, and does not
change how many commands there are. -/
theorem Tally.of_counts (h : Tally s) (hmutex : Owned t.cmdMutex (Inside t))
    (hposter : t.poster.uncounted = s.poster.uncounted ∧ t.poster.size = s.poster.size ∧
      t.poster.limit = s.poster.limit)
    (hexited : t.exited = s.exited) (hsize : t.cmdListSize = s.cmdListSize)
    (hqueue : t.cmdList.length + t.cmdThread.uncounted =
      s.cmdList.length + s.cmdThread.uncounted) : Tally t := by
  obtain ⟨huncounted, hread, hlimit⟩ := hposter
  refine ⟨hmutex, ?_, ?_, ?_⟩
  · rw [hsize, huncounted, hqueue]
    exact h.size
  · rw [hread]
    exact h.read
  · rw [hqueue, Emul.limit, hexited, hlimit]
    exact h.limit

/-- The command thread moves without changing what is counted. -/
theorem Tally.cmd (h : Tally s) (hmutex : Owned t.cmdMutex (Inside t))
    (hposter : t.poster = s.poster) (hexited : t.exited = s.exited)
    (hsize : t.cmdListSize = s.cmdListSize) (hqueue : t.cmdList.length + t.cmdThread.uncounted =
      s.cmdList.length + s.cmdThread.uncounted) : Tally t :=
  h.of_counts hmutex (by simp [hposter]) hexited hsize hqueue

/-- The command thread counts its command down. -/
theorem Tally.countDown (h : Tally s) {cmd : Cell} (hc : s.cmdThread = .countDown cmd) :
    Tally { s with cmdListSize := s.cmdListSize - 1#32, cmdThread := .popUnlock cmd } := by
  obtain ⟨hmutex, hsize, hread, hlimit⟩ := h
  -- the posting thread is not inside, so the count is that of the queue and one more
  have hinside : Inside s .cmd := by rw [Inside, hc]; rfl
  have hposter : s.poster.uncounted = 0 := by
    cases hp : s.poster
    case count size =>
      have heq : Thread.poster = .cmd := hmutex.eq_of_inside (by rw [Inside, hp]; rfl) hinside
      exact absurd heq (by decide)
    all_goals rfl
  simp only [hc, hposter, CmdPc.uncounted] at hsize hlimit
  have hone : (1#32).toNat = 1 := rfl
  refine ⟨hmutex.keep (inside_iff rfl (by rw [hc]; rfl)), ?_, hread, ?_⟩
  · simp only [hposter, CmdPc.uncounted, BitVec.toNat_sub, hone]
    omega
  · exact Nat.le_trans (Nat.le_succ _) hlimit

/-- The command thread removes its command. -/
theorem Tally.removeHead (h : Tally s) (hhead : s.cmdThread.AtHead s) {cmd : Cell}
    (hc : s.cmdThread = .removeHead cmd) :
    Tally { s with cmdList := s.cmdList.tail, cmdThread := .countDown cmd } := by
  obtain ⟨rest, hrest⟩ := hhead.exists_cons hc
  refine h.cmd (h.mutex.keep (inside_iff rfl (by rw [hc]; rfl))) rfl rfl rfl ?_
  simp [hc, hrest, CmdPc.uncounted]

/-! ### All threads -/

/-- **A transition** keeps the tally. -/
theorem step_tally (h : Tally s) (hhead : s.cmdThread.AtHead s) (hstep : Step s l t) : Tally t := by
  have hx := running_of_step hstep
  have hmutex := h.mutex
  cases step_effect hstep with
  | post cmd hp => exact h.post hx hp cmd
  | posterLock size e hp hm =>
    rw [hm] at hmutex
    exact h.of_counts (hmutex.lock rfl (stay_of_poster rfl)) (by rw [hp]; exact ⟨rfl, rfl, rfl⟩)
      rfl rfl rfl
  | insert size e hp => exact h.insert hx hp
  | count size hp => exact h.count hx hp
  | posterSignal size hp =>
    exact h.of_counts (hmutex.keep (inside_iff (by rw [hp]; rfl) (CmdPc.inside_signal _)))
      (by rw [hp]; exact ⟨rfl, rfl, rfl⟩) rfl rfl (by rw [CmdPc.uncounted_signal])
  | posterUnlock size hp =>
    exact h.of_counts (hmutex.unlock (i := .poster) (by rw [Inside, hp]; rfl) Bool.false_ne_true
      (stay_of_poster rfl)) (by rw [hp]; exact ⟨rfl, rfl, rfl⟩) rfl rfl rfl
  | check size hp => exact h.check hx hp
  | cmdLock hc hm =>
    rw [hm] at hmutex
    exact h.cmd (hmutex.lock hc.inside.1 (stay_of_cmd rfl)) rfl rfl rfl (by rw [hc.inside.2])
  | cmdUnlock hc =>
    obtain ⟨hin, hout, huncounted⟩ := hc.inside
    exact h.cmd (hmutex.unlock (i := .cmd) hin (by simp [Inside, hout]) (stay_of_cmd rfl))
      rfl rfl rfl (by rw [huncounted])
  | cmdGo hc =>
    exact h.cmd (hmutex.keep (inside_iff rfl hc.inside.1)) rfl rfl rfl (by rw [hc.inside.2])
  | free cmd hc =>
    exact h.cmd (hmutex.keep (inside_iff rfl hc.inside.1)) rfl rfl rfl (by rw [hc.inside.2])
  | pop cmd hc _ | write _ cmd hc =>
    exact h.cmd (hmutex.keep (inside_iff rfl (by rw [hc]; rfl))) rfl rfl rfl (by rw [hc]; rfl)
  | removeHead cmd hc => exact h.removeHead hhead hc
  | countDown cmd hc => exact h.countDown hc
  | exitSignal _ | spurious _ =>
    exact h.cmd (hmutex.keep (inside_iff rfl (CmdPc.inside_signal _))) rfl rfl rfl
      (by rw [CmdPc.uncounted_signal])
  | terminate _ | join _ => exact h.cmd (hmutex.keep (inside_iff rfl rfl)) rfl rfl rfl rfl

/-! ### Runs -/

/-- **The tally** of every state of a run. -/
theorem run_tally {ls : List Label} (hrun : Run Step init ls s) : Tally s := by
  have hinv : s.cmdThread.AtHead s ∧ Tally s :=
    hrun.invariant (P := fun s => s.cmdThread.AtHead s ∧ Tally s)
      (fun _ _ _ hs hstep => ⟨step_atHead hs.1 hstep, step_tally hs.2 hs.1 hstep⟩)
      ⟨trivial, init_tally⟩
  exact hinv.2

/-- The commands that are posted in a run. -/
def postedCmds (ls : List Label) : List P103Cmd :=
  ls.filterMap fun
    | .post cmd => some cmd
    | _ => none

/-- Each `write` takes the whole frame. -/
def WritesInFull (s : P103EmulState) (l : Label) : Prop :=
  ∀ res, l = .write res → res = some s.cmdStr.length

instance (s : P103EmulState) (l : Label) : Decidable (WritesInFull s l) :=
  match l with
  | .write res => decidable_of_iff (res = some s.cmdStr.length)
      ⟨fun h _ heq => (Label.write.inj heq) ▸ h, fun h => h res rfl⟩
  | .post _ | .poster | .connect _ | .cmd | .spurious | .exit => isTrue nofun

/-- The commands that are still to be sent: the queue, without the command whose
frame is written and that the same critical section is about to remove. -/
def stillQueued (s : P103EmulState) : List Cell := s.cmdThread.unsent s.cmdList

/-- The frames posted in a run are those of the commands posted. -/
theorem flatMap_posted (ls : List Label) :
    ls.flatMap Label.posted = (postedCmds ls).map frame := by
  induction ls with
  | nil => rfl
  | cons l ls ih => cases l <;> simp [postedCmds, Label.posted, ih]

/-- The step of `frames`, for runs in which all transitions are regular. -/
theorem step_adds (hq : QueueOk s) (h : Guarded Step Regular s l t) :
    QueueOk t ∧ frames t = frames s ++ l.posted :=
  have hadds := step_frames hq h.2 h.1
  ⟨hadds.ok, hadds.frames_eq⟩

/-- Where the mutex is free, no command is both written and in the queue. -/
theorem Tally.stillQueued_eq (h : Tally s) (hmutex : s.cmdMutex = none) :
    stillQueued s = s.cmdList := by
  have howned := h.mutex
  rw [hmutex] at howned
  have hout := howned.not_inside .cmd
  unfold stillQueued
  cases hc : s.cmdThread
  case removeHead cmd => exact absurd (show Inside s .cmd by rw [Inside, hc]; rfl) hout
  all_goals rfl

/-- **The commands on their way to the monitor.**  For every interleaving in which
each `write` takes the whole frame, and in every state:

* the frames on the socket, those of the commands still queued and that of a command
  being posted are the frames of all commands posted, in the order of the posts;
* outside of the critical sections the commands still queued are all that are in the
  queue, and `cmd_list_size` is their number;
* there are at most 1025 commands in the queue. -/
theorem commands_conserved (ls : List Label) (s : P103EmulState)
    (hrun : Run (Guarded Step WritesInFull) init ls s)
    (hposts : ∀ cmd ∈ postedCmds ls, cmd.Postable) :
    s.sent ++ (stillQueued s).map (fun e => frame e.data) ++
        s.poster.posting.map (fun e => frame e.data) = (postedCmds ls).map frame ∧
      (s.cmdMutex = none → stillQueued s = s.cmdList ∧
        s.cmdListSize.toNat = s.cmdList.length) ∧
      s.cmdList.length ≤ 1025 := by
  have hlabels : ∀ l ∈ ls, ∀ cmd, l = .post cmd → cmd.Postable := by
    rintro l hl cmd rfl
    exact hposts cmd (List.mem_filterMap.2 ⟨_, hl, rfl⟩)
  have hregular : Run (Guarded Step Regular) init ls s := by
    refine (hrun.guarded_of_forall hlabels).mono fun s l t h => ⟨h.1.1, ?_⟩
    cases l with
    | post cmd => exact h.2 cmd rfl
    | write res => exact Or.inr (h.1.2 res rfl)
    | poster | connect | cmd | spurious | exit => trivial
  have hframes : frames s = frames init ++ ls.flatMap Label.posted :=
    hregular.log_eq (fun s l t hq h => step_adds hq h) init_queueOk
  have htally : Tally s := run_tally (hrun.mono fun _ _ _ h => h.1)
  refine ⟨?_, fun hm => ⟨htally.stillQueued_eq hm, htally.size_eq hm⟩, htally.length_le⟩
  rw [flatMap_posted] at hframes
  simpa [frames, underway, stillQueued, init, PosterPc.posting, CmdPc.unsent] using hframes

/-- Two commands are posted while the command thread waits, and it writes the first. -/
def postTwo : List Label :=
  List.flatten [[.connect true, .cmd, .cmd, .post (postEventC 0x41)], List.replicate 6 .poster,
    [.post (postEventDigitalOut 0x43 12 1)], List.replicate 6 .poster, List.replicate 6 .cmd,
    [.write (some 24)]]

/-- The first command is on the socket and not yet removed from the queue. -/
theorem commands_conserved_two : ∃ s, Run (Guarded Step WritesInFull) init postTwo s ∧
    s.sent = [frame (postEventC 0x41)] ∧ s.cmdList.length = 2 ∧
    s.sent ++ (stillQueued s).map (fun e => frame e.data) ++
        s.poster.posting.map (fun e => frame e.data) =
      [postEventC 0x41, postEventDigitalOut 0x43 12 1].map frame := by
  have hend : (postTwo.foldlM (fun s l => if WritesInFull s l then step s l else none) init).map
      (fun s => (s.sent, s.cmdList.length)) = some ([frame (postEventC 0x41)], 2) := by
      decide +kernel
  obtain ⟨s, hs, hval⟩ := Option.map_eq_some_iff.1 hend
  obtain ⟨hsent, hlength⟩ := Prod.mk.inj hval
  have hrun : Run (Guarded Step WritesInFull) init postTwo s := Run.guarded_of_foldlM hs
  have hposted : postedCmds postTwo = [postEventC 0x41, postEventDigitalOut 0x43 12 1] := by decide
  have hposts : ∀ cmd ∈ postedCmds postTwo, cmd.Postable := by
    rw [hposted]
    intro cmd hcmd
    rcases List.mem_pair.1 hcmd with rfl | rfl
    · exact Or.inl rfl
    · exact Or.inr rfl
  refine ⟨s, hrun, hsent, hlength, ?_⟩
  rw [← hposted]
  exact (commands_conserved postTwo s hrun hposts).1

end Emul
end Especial
