/-
# Where the records of the queue are

A record comes from `g_malloc`, is in the hands of the posting thread until it is linked
into `cmd_list`, and leaves the list through the hands of the command thread, which frees
it.  So every record is linked, in the hands of a thread or freed, and in one of the three
places only: together they are the addresses that `g_malloc` has given, each once
(`Placed`).

When `write` fails, the command thread frees the record at the head of the list and returns
without removing it.  That is the one statement that breaks the invariant
(`step_placed_iff`), and no other thread repairs it: the freed record stays linked, and the
next `QSIMPLEQ_INSERT_TAIL` can store through it.
-/

import Especial.Emul.Conservation
import Especial.Emul.Linked
import Mathlib.Data.List.Range
import Mathlib.Data.List.Nodup

namespace Especial
namespace Emul

open Lib Qemu

variable {s t : P103EmulState} {l : Label}

/-! ### The three places -/

/-- The records in `cmd_list`. -/
def linked (s : P103EmulState) : List ℕ := s.cmdList.map (·.addr)

/-- The command that is removed and is not freed yet. -/
def CmdPc.removed : CmdPc → List Cell
  | .countDown cmd | .popUnlock cmd | .free cmd => [cmd]
  | _ => []

/-- The records in the hands of the two threads. -/
def inHand (s : P103EmulState) : List ℕ :=
  (s.poster.posting ++ s.cmdThread.removed).map (·.addr)

/-- All records, place by place. -/
def records (s : P103EmulState) : List ℕ := linked s ++ inHand s ++ s.freed

/-- Every record that `g_malloc` has given is in one place. -/
def Placed (s : P103EmulState) : Prop := (records s).Perm (List.range s.malloc)

/-- What it means: a record that is in no thread's hands is either linked and not freed, or
freed and not linked; no freed record is linked; and a record in a thread's hands is
neither. -/
structure Tidy (s : P103EmulState) : Prop where
  one : ∀ a < s.malloc, a ∉ inHand s →
    (a ∈ linked s ∧ a ∉ s.freed) ∨ (a ∉ linked s ∧ a ∈ s.freed)
  live : ∀ a ∈ linked s, a ∉ s.freed
  held : ∀ a ∈ inHand s, a ∉ linked s ∧ a ∉ s.freed

/-- **Records in one place each are tidy.** -/
theorem Placed.tidy (h : Placed s) : Tidy s := by
  have hmem : ∀ a, a < s.malloc → a ∈ linked s ∨ a ∈ inHand s ∨ a ∈ s.freed := by
    intro a ha
    have hrecords : a ∈ records s := h.mem_iff.2 (List.mem_range.2 ha)
    simpa [records] using hrecords
  have hnodup : (linked s ++ inHand s ++ s.freed).Nodup := h.nodup_iff.2 List.nodup_range
  obtain ⟨hboth, -, hfreed⟩ := List.nodup_append.1 hnodup
  obtain ⟨-, -, hhand⟩ := List.nodup_append.1 hboth
  have hlive : ∀ a ∈ linked s, a ∉ s.freed := fun a ha hfree =>
    hfreed a (List.mem_append_left _ ha) a hfree rfl
  refine ⟨fun a hlt hout => ?_, hlive, fun a ha => ⟨fun hlink => ?_, fun hfree => ?_⟩⟩
  · rcases hmem a hlt with ha | ha | ha
    · exact Or.inl ⟨ha, hlive a ha⟩
    · exact absurd ha hout
    · exact Or.inr ⟨fun hlink => hlive a hlink ha, ha⟩
  · exact hhand a hlink a ha rfl
  · exact hfreed a (List.mem_append_right _ ha) a hfree rfl

/-! ### The transitions -/

/-- The command thread is about to free a record that it has not removed. -/
def CmdPc.freesLinked : CmdPc → Bool
  | .failFree _ => true
  | _ => false

/-- The `g_free` of a failed `write` is not executed. -/
def FreesUnlinked (s : P103EmulState) (l : Label) : Prop :=
  l = .cmd → s.cmdThread.freesLinked = false

instance (s : P103EmulState) (l : Label) : Decidable (FreesUnlinked s l) :=
  inferInstanceAs (Decidable (l = .cmd → s.cmdThread.freesLinked = false))

section Removed

variable {pc next : CmdPc} {cmd : Cell}

/-- Taking the mutex removes nothing. -/
theorem CmdPc.Locks.removed (h : pc.Locks next) : next.removed = pc.removed := by
  cases h <;> rfl

/-- Giving it back removes nothing. -/
theorem CmdPc.Unlocks.removed (h : pc.Unlocks next) : next.removed = pc.removed := by
  cases h <;> rfl

/-- A step that changes nothing else removes nothing. -/
theorem CmdPc.Goes.removed (h : pc.Goes s l next) : next.removed = pc.removed := by
  cases h <;> rfl

/-- A signal removes nothing. -/
theorem CmdPc.removed_signal (pc : CmdPc) : pc.signal.removed = pc.removed := by
  cases pc <;> rfl

/-- What is freed was removed, or the `write` failed. -/
theorem CmdPc.Frees.removed (h : pc.Frees cmd next) :
    next.removed = [] ∧
    (pc.freesLinked = false ∧ pc.removed = [cmd] ∨ pc = .failFree cmd) := by
  cases h with
  | free => exact ⟨rfl, Or.inl ⟨rfl, rfl⟩⟩
  | failFree => exact ⟨rfl, Or.inr rfl⟩

end Removed

/-- A transition that moves no record. -/
theorem Placed.of_eq (h : Placed s) (hlist : t.cmdList = s.cmdList)
    (hposting : t.poster.posting = s.poster.posting)
    (hremoved : t.cmdThread.removed = s.cmdThread.removed) (hfreed : t.freed = s.freed)
    (hmalloc : t.malloc = s.malloc) : Placed t := by
  have hrecords : records t = records s := by
    rw [records, records, linked, linked, inHand, inHand, hlist, hposting, hremoved, hfreed]
  rw [Placed, hrecords, hmalloc]
  exact h

/-- A transition that moves a record from one place to another. -/
theorem Placed.of_perm (h : Placed s) (hperm : (records t).Perm (records s))
    (hmalloc : t.malloc = s.malloc) : Placed t := by
  rw [Placed, hmalloc]
  exact hperm.trans h

/-- `g_malloc` gives a record to the posting thread. -/
theorem Placed.post (h : Placed s) (hp : s.poster = .idle) (cmd : P103Cmd) :
    Placed { s with
      poster := .lock s.cmdListSize ⟨s.malloc, cmd⟩
      malloc := s.malloc + 1 } := by
  show (linked s ++ s.malloc :: s.cmdThread.removed.map (·.addr) ++ s.freed).Perm
    (List.range (s.malloc + 1))
  have hrecords : records s = linked s ++ (s.cmdThread.removed.map (·.addr) ++ s.freed) := by
    simp [records, inHand, hp, PosterPc.posting]
  rw [List.append_assoc, List.cons_append, List.range_succ]
  refine List.perm_middle.trans ?_
  rw [← hrecords]
  exact (h.cons _).trans (List.perm_append_singleton _ _).symm

/-- `QSIMPLEQ_REMOVE_HEAD` gives the first record to the command thread. -/
theorem Placed.removeHead (h : Placed s) {cmd : Cell} (hhead : s.cmdThread.AtHead s)
    (hc : s.cmdThread = .removeHead cmd) :
    Placed { s with cmdList := s.cmdList.tail, cmdThread := .countDown cmd } := by
  obtain ⟨rest, hrest⟩ := hhead.exists_cons hc
  refine h.of_perm ?_ rfl
  have hmove : (rest.map (·.addr) ++ s.poster.posting.map (·.addr) ++ cmd.addr :: s.freed).Perm
      (cmd.addr :: (rest.map (·.addr) ++ s.poster.posting.map (·.addr) ++ s.freed)) :=
    List.perm_middle
  simpa [records, linked, inHand, hrest, hc, CmdPc.removed] using hmove

/-- The command thread frees the record it has removed. -/
theorem Placed.free (h : Placed s) {cmd : Cell} {next : CmdPc} (hpc : s.cmdThread.removed = [cmd])
    (hnext : next.removed = []) :
    Placed { s with freed := s.freed ++ [cmd.addr], cmdThread := next } := by
  refine h.of_perm ?_ rfl
  have hmove : (linked s ++ s.poster.posting.map (·.addr) ++ (s.freed ++ [cmd.addr])).Perm
      (linked s ++ s.poster.posting.map (·.addr) ++ cmd.addr :: s.freed) :=
    (List.perm_append_singleton _ _).append_left _
  simpa [records, linked, inHand, hpc, hnext] using hmove

/-- **One transition** leaves every record in one place, unless it frees one that is
linked. -/
theorem step_placed (h : Placed s) (hhead : s.cmdThread.AtHead s) (hfrees : FreesUnlinked s l)
    (hstep : Step s l t) : Placed t := by
  cases step_effect hstep with
  | post cmd hp => exact h.post hp cmd
  | posterLock _ _ hp _ | count _ hp | posterUnlock _ hp | check _ hp =>
    exact h.of_eq rfl (by rw [hp]; rfl) rfl rfl rfl
  | insert size e hp =>
    refine h.of_perm (.of_eq ?_) rfl
    simp [records, linked, inHand, hp, PosterPc.posting]
  | posterSignal _ hp => exact h.of_eq rfl (by rw [hp]; rfl) (CmdPc.removed_signal _) rfl rfl
  | exitSignal _ | spurious _ => exact h.of_eq rfl rfl (CmdPc.removed_signal _) rfl rfl
  | terminate _ | join _ => exact h.of_eq rfl rfl rfl rfl rfl
  | cmdLock hc _ => exact h.of_eq rfl rfl hc.removed rfl rfl
  | cmdUnlock hc => exact h.of_eq rfl rfl hc.removed rfl rfl
  | cmdGo hc => exact h.of_eq rfl rfl hc.removed rfl rfl
  | pop _ hc _ | write _ _ hc | countDown _ hc => exact h.of_eq rfl rfl (by rw [hc]; rfl) rfl rfl
  | removeHead cmd hc => exact h.removeHead hhead hc
  | free cmd hc =>
    obtain ⟨hnext, ⟨-, hpc⟩ | hfail⟩ := hc.removed
    · exact h.free hpc hnext
    · have hlinked := hfrees rfl
      rw [hfail] at hlinked
      exact absurd hlinked (by simp [CmdPc.freesLinked])

/-- The record of a failed `write` is freed and still linked. -/
theorem not_tidy_of_failFree (hhead : s.cmdThread.AtHead s) (hfrees : ¬FreesUnlinked s l)
    (hstep : Step s l t) : ¬Tidy t := by
  intro htidy
  obtain ⟨rfl, hlinked⟩ : l = .cmd ∧ s.cmdThread.freesLinked = true := by
    simpa [FreesUnlinked] using hfrees
  obtain ⟨cmd, hc⟩ : ∃ cmd, s.cmdThread = .failFree cmd := by
    cases hc : s.cmdThread <;> simp_all [CmdPc.freesLinked]
  have hcmd : cmdStep s = some t := act_of_step hstep
  rw [cmdStep, hc] at hcmd
  obtain rfl := Option.some.inj hcmd
  rw [hc] at hhead
  have hfirst : s.cmdList.head? = some cmd := hhead
  exact htidy.live cmd.addr (List.mem_map_of_mem (List.mem_of_mem_head? hfirst)) (by simp)

/-- **A transition keeps every record in one place** exactly if it does not free a linked one. -/
theorem step_placed_iff (h : Placed s) (hhead : s.cmdThread.AtHead s) (hstep : Step s l t) :
    Placed t ↔ FreesUnlinked s l := by
  refine ⟨fun ht => ?_, fun hfrees => step_placed h hhead hfrees hstep⟩
  by_contra hfrees
  exact not_tidy_of_failFree hhead hfrees hstep ht.tidy

/-! ### Runs -/

/-- **The records of the queue.**  In every state of every run the pointers of `cmd_list` lead
through the linked records in their order, and `cmd_list_size` is their number, up to the
record that one of the threads is just about to count.  In all states of the run each record
is linked or freed, and not both, exactly if the run does not come to the `g_free` after a
failed `write`. -/
theorem records_tidy_iff (q : Simpleq) (ls : List Label) (s : P103EmulState)
    (hrun : Run Step init ls s) :
    (∃ q', Run Linked.Step ⟨init, q.init⟩ ls ⟨s, q'⟩ ∧ q'.Holds (linked s)) ∧
      s.cmdListSize.toNat + s.poster.uncounted = (linked s).length + s.cmdThread.uncounted ∧
      ((∀ ls₁ u, ls₁ <+: ls → Run Step init ls₁ u → Tidy u) ↔
        Run (Guarded Step FreesUnlinked) init ls s) := by
  refine ⟨linked_run q hrun, ?_, ?_⟩
  · rw [linked, List.length_map]
    exact (run_tally hrun).size
  · refine Run.forall_prefix_iff_of_stronger (J := fun s => s.cmdThread.AtHead s) (Q := Placed)
      step_unique (fun _ _ _ h hstep => step_atHead h hstep) (fun _ h => h.tidy)
      (fun s l t hhead h hstep => step_placed_iff h hhead hstep) ?_ hrun trivial ?_
    · intro s l t hhead h hstep htidy
      by_contra hplaced
      rw [step_placed_iff h hhead hstep] at hplaced
      exact not_tidy_of_failFree hhead hplaced hstep htidy
    · exact List.Perm.refl []

/-- A command is posted while the thread waits, and the thread writes it with the outcome
`res`. -/
def postOne (res : Option ℕ) : List Label :=
  List.flatten [[.connect true, .cmd, .cmd, .post (postEventC 0x41)], List.replicate 6 .poster,
    List.replicate 6 .cmd, [.write res]]

/-- The `write` takes the frame, and the thread removes and frees the record. -/
def postWritten : List Label := postOne (some 24) ++ List.replicate 4 .cmd

/-- The `write` fails, the thread frees the record and returns, and another command is
posted. -/
def postFailed : List Label :=
  postOne none ++ [.cmd, .cmd, .post (postEventC 0x42)] ++ List.replicate 6 .poster

/-- The record that is written is no longer linked when it is freed. -/
theorem records_tidy_written :
    ∃ s, Run Step init postWritten s ∧ linked s = [] ∧ s.freed = [0] ∧ Tidy s := by
  have hend :
      (postWritten.foldlM (fun s l => if FreesUnlinked s l then step s l else none) init).map
      (fun s => (linked s, s.freed)) = some ([], [0]) := by decide +kernel
  obtain ⟨s, hs, hval⟩ := Option.map_eq_some_iff.1 hend
  obtain ⟨hlinked, hfreed⟩ := Prod.mk.inj hval
  have hguarded : Run (Guarded Step FreesUnlinked) init postWritten s := Run.guarded_of_foldlM hs
  have hrun : Run Step init postWritten s := hguarded.mono fun _ _ _ h => h.1
  obtain ⟨-, -, htidy⟩ := records_tidy_iff ⟨none, .first, fun _ => none⟩ postWritten s hrun
  exact ⟨s, hrun, hlinked, hfreed, htidy.2 hguarded _ s List.prefix_rfl hrun⟩

/-- The record of the failed `write` is freed and stays linked, and the next command is linked
behind it. -/
theorem records_freed_linked : ∃ s, Run Step init postFailed s ∧ s.cmdThread = .terminated ∧
    s.poster = .idle ∧ s.cmdMutex = none ∧ linked s = [0, 1] ∧ s.freed = [0] ∧
    ¬Tidy s := by
  have hend : (postFailed.foldlM step init).map
      (fun s => (s.cmdThread, s.poster, s.cmdMutex, linked s, s.freed)) =
        some (.terminated, .idle, none, [0, 1], [0]) := by decide +kernel
  obtain ⟨s, hs, hval⟩ := Option.map_eq_some_iff.1 hend
  simp only [Prod.mk.injEq] at hval
  obtain ⟨hc, hp, hm, hlinked, hfreed⟩ := hval
  refine ⟨s, Run.some_iff_foldlM.2 hs, hc, hp, hm, hlinked, hfreed, fun htidy => ?_⟩
  exact htidy.live 0 (by simp [hlinked]) (by simp [hfreed])

end Emul
end Especial
