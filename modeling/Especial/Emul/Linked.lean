/-
# The queue of commands in memory

`P103EmulState` has the queue as a list.  In memory it is a `QSIMPLEQ` of records
that `g_malloc` gives and `g_free` takes; the posting thread inserts with
`QSIMPLEQ_INSERT_TAIL`, the command thread removes with `QSIMPLEQ_REMOVE_HEAD`.
`linked_run` says that the two agree in every state of a run: the pointers lead
through the commands of the list in their order, and no null pointer is read.
-/

import Especial.Emul.Queue
import Especial.Qemu.Simpleq

namespace Especial
namespace Emul

open Lib Qemu

variable {s t : P103EmulState} {l : Label} {q : Simpleq}

/-- The emulator and the pointers of `cmd_list`. -/
structure Linked where
  emul : P103EmulState
  cmdList : Simpleq

/-- What a transition does to the pointers of `cmd_list`. -/
def link (s : P103EmulState) (q : Simpleq) : Label → Option Simpleq
  | .poster =>
    match s.poster with
    | .insert _ e => some (q.insertTail e.addr)
    | _ => some q
  | .cmd =>
    match s.cmdThread with
    | .removeHead _ => q.removeHead
    | _ => some q
  | _ => some q

/-- A transition of the emulator and of the pointers. -/
def Linked.Step (a : Linked) (l : Label) (b : Linked) : Prop :=
  Emul.Step a.emul l b.emul ∧ link a.emul a.cmdList l = some b.cmdList

/-! ### Addresses -/

/-- The addresses of the records in the queue, and of the one that is being posted. -/
def addrs (s : P103EmulState) : List ℕ := (s.cmdList ++ s.poster.posting).map (·.addr)

/-- No two records have the same address, and none has one that `g_malloc` is still
to give. -/
structure Distinct (s : P103EmulState) : Prop where
  nodup : (addrs s).Nodup
  lt : ∀ a ∈ addrs s, a < s.malloc

/-- At the beginning there are no records. -/
theorem init_distinct : Distinct init := ⟨by decide, by decide⟩

/-- What a transition does to the queue and the addresses. -/
inductive Alters (s t : P103EmulState) (q : Simpleq) (r : Option Simpleq) : Prop
  | keeps (hlist : t.cmdList = s.cmdList) (haddrs : addrs t = addrs s)
      (hmalloc : t.malloc = s.malloc) (hr : r = some q)
  | posts (hlist : t.cmdList = s.cmdList) (haddrs : addrs t = addrs s ++ [s.malloc])
      (hmalloc : t.malloc = s.malloc + 1) (hr : r = some q)
  | inserts (e : Cell) (hlist : t.cmdList = s.cmdList ++ [e])
      (hadds : addrs s = s.cmdList.map (·.addr) ++ [e.addr]) (haddrs : addrs t = addrs s)
      (hmalloc : t.malloc = s.malloc) (hr : r = some (q.insertTail e.addr))
  | removes (e : Cell) (hlist : s.cmdList = e :: t.cmdList) (haddrs : addrs s = e.addr :: addrs t)
      (hmalloc : t.malloc = s.malloc) (hr : r = q.removeHead)

/-- A transition that changes neither queue nor addresses. -/
theorem Alters.of_same {r : Option Simpleq} (hlist : t.cmdList = s.cmdList)
    (hposting : t.poster.posting = s.poster.posting) (hmalloc : t.malloc = s.malloc)
    (hr : r = some q) : Alters s t q r :=
  .keeps hlist (by rw [addrs, addrs, hlist, hposting]) hmalloc hr

/-- Only one statement of the command thread changes the pointers. -/
theorem link_cmd (h : ∀ cmd, s.cmdThread ≠ .removeHead cmd) : link s q .cmd = some q := by
  cases hc : s.cmdThread
  case removeHead cmd => exact absurd hc (h cmd)
  all_goals simp [link, hc]

section Kept

variable {pc next : CmdPc} {cmd : Cell}

/-- Taking the mutex removes no record. -/
theorem CmdPc.Locks.keeps (h : pc.Locks next) (e : Cell) : pc ≠ .removeHead e := by
  cases h <;> nofun

/-- Giving it back removes none. -/
theorem CmdPc.Unlocks.keeps (h : pc.Unlocks next) (e : Cell) : pc ≠ .removeHead e := by
  cases h <;> nofun

/-- Freeing a record is not removing it. -/
theorem CmdPc.Frees.keeps (h : pc.Frees cmd next) (e : Cell) : pc ≠ .removeHead e := by
  cases h <;> nofun

/-- A step that changes nothing else removes none. -/
theorem CmdPc.Goes.keeps (h : pc.Goes s l next) (e : Cell) : pc ≠ .removeHead e := by
  cases h <;> nofun

/-- It is not a step of the posting thread either. -/
theorem CmdPc.Goes.not_poster (h : pc.Goes s l next) : l ≠ .poster := by
  cases h <;> nofun

end Kept

/-- The pointers stay as they are in such a step. -/
theorem link_go {next : CmdPc} (h : s.cmdThread.Goes s l next) : link s q l = some q := by
  cases l with
  | cmd => exact link_cmd h.keeps
  | poster => exact absurd rfl h.not_poster
  | post | connect | spurious | write | exit => rfl

/-- **What a transition does to the queue, it does to the pointers.** -/
theorem step_alters (hhead : s.cmdThread.AtHead s) (hstep : Step s l t) :
    Alters s t q (link s q l) := by
  cases step_effect hstep with
  | post cmd hp => exact .posts rfl (by simp [addrs, hp, PosterPc.posting]) rfl rfl
  | posterLock _ _ hp _ | count _ hp | posterSignal _ hp | posterUnlock _ hp | check _ hp =>
    exact .of_same rfl (by rw [hp]; rfl) rfl (by simp [link, hp])
  | insert size e hp =>
    refine .inserts e rfl ?_ ?_ rfl (by simp [link, hp])
    · simp [addrs, hp, PosterPc.posting]
    · simp [addrs, hp, PosterPc.posting]
  | cmdLock hc _ => exact .of_same rfl rfl rfl (link_cmd hc.keeps)
  | cmdUnlock hc => exact .of_same rfl rfl rfl (link_cmd hc.keeps)
  | free _ hc => exact .of_same rfl rfl rfl (link_cmd hc.keeps)
  | cmdGo hc => exact .of_same rfl rfl rfl (link_go hc)
  | pop _ hc _ | countDown _ hc => exact .of_same rfl rfl rfl (by simp [link, hc])
  | removeHead cmd hc =>
    obtain ⟨rest, hrest⟩ := hhead.exists_cons hc
    refine .removes cmd (by simp [hrest]) ?_ rfl (by simp [link, hc])
    simp [addrs, hrest]
  | write _ _ _ | terminate _ | exitSignal _ | spurious _ | join _ => exact .of_same rfl rfl rfl rfl

/-! ### The pointers follow the list -/

/-- The addresses stay distinct. -/
theorem Alters.distinct {r : Option Simpleq} (h : Alters s t q r) (hs : Distinct s) :
    Distinct t := by
  obtain ⟨hnodup, hlt⟩ := hs
  cases h with
  | keeps _ haddrs hmalloc _ | inserts _ _ _ haddrs hmalloc _ =>
    exact ⟨by rw [haddrs]; exact hnodup, by rw [haddrs, hmalloc]; exact hlt⟩
  | posts _ haddrs hmalloc _ =>
    have hnew : s.malloc ∉ addrs s := fun hmem => Nat.lt_irrefl _ (hlt _ hmem)
    constructor
    · rw [haddrs]
      exact List.nodup_append.2 ⟨hnodup, by simp, fun a ha b hb hab =>
        hnew (List.mem_singleton.1 hb ▸ hab ▸ ha)⟩
    · rw [haddrs, hmalloc]
      intro a ha
      rcases List.mem_append.1 ha with ha | ha
      · exact Nat.lt_succ_of_lt (hlt a ha)
      · rw [List.mem_singleton.1 ha]
        exact Nat.lt_succ_self _
  | removes _ _ haddrs hmalloc _ =>
    rw [haddrs] at hnodup hlt
    refine ⟨(List.nodup_cons.1 hnodup).2, fun a ha => ?_⟩
    rw [hmalloc]
    exact hlt a (List.mem_cons_of_mem _ ha)

/-- **The pointers hold the queue** after a transition, which does not fail on them. -/
theorem Alters.holds {r : Option Simpleq} (h : Alters s t q r) (hs : Distinct s)
    (hq : q.Holds (s.cmdList.map (·.addr))) :
    ∃ q', r = some q' ∧ q'.Holds (t.cmdList.map (·.addr)) := by
  cases h with
  | keeps hlist _ _ hr | posts hlist _ _ hr => exact ⟨q, hr, by rw [hlist]; exact hq⟩
  | inserts e hlist hadds _ _ hr =>
    have hnodup := hs.nodup
    rw [hadds] at hnodup
    have hnew : e.addr ∉ s.cmdList.map (·.addr) := fun hmem =>
      (List.nodup_append.1 hnodup).2.2 _ hmem _ (by simp) rfl
    refine ⟨_, hr, ?_⟩
    rw [hlist, List.map_append]
    exact hq.insertTail hnew
  | removes e hlist _ _ hr =>
    rw [hlist] at hq
    rw [hr]
    exact hq.removeHead

/-- **The pointers of `cmd_list`.**  Every run of the emulator is one of the emulator
with its pointers, and in its last state they lead through the commands of the list. -/
theorem linked_run (q : Simpleq) {ls : List Label} (hrun : Run Step init ls s) :
    ∃ q', Run Linked.Step ⟨init, q.init⟩ ls ⟨s, q'⟩ ∧
    q'.Holds (s.cmdList.map (·.addr)) := by
  induction ls using List.reverseRecOn generalizing s with
  | nil =>
    obtain rfl := Run.nil_iff.1 hrun
    exact ⟨q.init, .nil _, q.init_holds⟩
  | append_singleton ls l ih =>
    obtain ⟨u, hu, hstep⟩ := Run.snoc_iff.1 hrun
    obtain ⟨q₁, hq₁, hholds⟩ := ih hu
    obtain ⟨hhead, hdistinct⟩ : u.cmdThread.AtHead u ∧ Distinct u :=
      hu.invariant (P := fun s => s.cmdThread.AtHead s ∧ Distinct s)
        (fun s l t hs h => ⟨step_atHead hs.1 h, (step_alters (q := q) hs.1 h).distinct hs.2⟩)
        ⟨trivial, init_distinct⟩
    obtain ⟨q₂, hlink, hholds'⟩ := (step_alters hhead hstep).holds hdistinct hholds
    exact ⟨q₂, Run.snoc_iff.2 ⟨⟨u, q₁⟩, hq₁, hstep, hlink⟩, hholds'⟩

end Emul
end Especial
