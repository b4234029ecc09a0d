/-
# The changes of one update

`clktree_recalc_output_freq` tells the users of a clock in the middle of its recursion
over the children.  A clock is listed under each of its inputs, and under one input as
often as it names it, so it can be visited several times.

The selected inputs make the clocks a forest (`Tree.parent`), and the children that are
visited with the frequency of clock `i` are those whose parent is `i`.  The clocks below
two such children are different ones, and the second visit of the same child finds it
settled.  So the changes of one update are in an order in which a later change is never
above an earlier one.  That is what `Updates.trans` asks for, and it is enough: no clock
changes twice, and the frequencies of a clock and of all clocks above it stay as they were
when its users were told.
-/

import Especial.Clktree.Notify
import Especial.Lib.Forest

namespace Especial
namespace Clktree

open Qemu Lib

variable {t t' t'' : Tree} {i j o : ℕ} {f : BitVec 32}

/-! ### Links -/

/-- The clock that a clock has selected. -/
def Tree.parent (t : Tree) (j : ℕ) : Option ℕ := (t.clk j).getInputClk

/-- A clock is linked to older clocks as its inputs and to newer ones as its outputs. -/
structure Forward (t : Tree) : Prop where
  output : ∀ i, ∀ o ∈ (t.clk i).output, i < o ∧ o < t.size
  input : ∀ j i, some i ∈ (t.clk j).input → i < j

/-- The selected clocks are settings. -/
theorem SameCfg.parent (h : SameCfg t t') : t'.parent = t.parent := funext h.getInputClk

/-- The users are settings. -/
theorem SameCfg.user (h : SameCfg t t') (j : ℕ) : (t'.clk j).user = (t.clk j).user := by
  have hu : (t'.clk j).cfg.user = (t.clk j).cfg.user := congrArg Clk.user (h.cfg j)
  exact hu

/-- The inputs are settings. -/
theorem SameCfg.input (h : SameCfg t t') (j : ℕ) : (t'.clk j).input = (t.clk j).input := by
  have hi : (t'.clk j).cfg.input = (t.clk j).cfg.input := congrArg Clk.input (h.cfg j)
  exact hi

/-- The direction of the links is a matter of the settings. -/
theorem Forward.sameCfg (h : Forward t) (hc : SameCfg t t') : Forward t' := by
  refine ⟨fun i o ho => ?_, fun j i hi => ?_⟩
  · rw [hc.output] at ho
    rw [hc.size]
    exact h.output i o ho
  · rw [hc.input] at hi
    exact h.input j i hi

/-- A selected clock is older than the clock that has selected it. -/
theorem Forward.parentsFirst (h : Forward t) : ParentsFirst t.parent := by
  intro j i hj
  refine h.input j i ?_
  rw [Tree.parent, Clk.getInputClk, Option.join_eq_some_iff] at hj
  exact List.mem_of_getElem? hj

/-! ### Notifications -/

/-- The notifications so far, in their order: the user, and the heap that it finds. -/
def Tree.notifications (t : Tree) : List (ℕ × List Clk) :=
  t.log.reverse.filterMap fun
    | .setIrq user clks => some (user, clks)
    | .exceedsMax _ _ _ => none

/-- A warning is no notification. -/
theorem notifications_warnMax (t : Tree) (i : ℕ) (f : BitVec 32) :
    (t.warnMax i f).notifications = t.notifications := by
  unfold Tree.warnMax
  split_ifs
  · simp [Tree.notifications, Tree.emit]
  · rfl

/-- The loop over the users notifies each of them once, with the heap as it is. -/
theorem notifications_notifyUsers (t : Tree) (i : ℕ) :
    (t.notifyUsers i).notifications = t.notifications ++ (t.clk i).user.map fun u =>
      (u, t.clks) := by
  have hloop : ∀ (us : List ℕ) (t : Tree),
      (us.foldl (fun t u => t.emit (.setIrq u t.clks)) t).notifications =
        t.notifications ++ us.map fun u => (u, t.clks) := by
    intro us
    induction us with
    | nil => exact fun t => by simp
    | cons u us ih =>
      intro t
      rw [List.foldl_cons, ih]
      simp [Tree.notifications, Tree.emit]
  exact hloop _ t

/-- A change of the output frequency of a clock, with the heap that its users find. -/
structure Change where
  clk : ℕ
  clks : List Clk

/-- Every user of the clock is told once, in the order of `clk->user`. -/
def Change.notifications (t : Tree) (m : Change) : List (ℕ × List Clk) :=
  (t.clk m.clk).user.map fun u => (u, m.clks)

/-- Who is notified of a change depends on the users only. -/
theorem Change.notifications_congr (h : ∀ j, (t'.clk j).user = (t.clk j).user) :
    Change.notifications t' = Change.notifications t := by
  funext m
  rw [Change.notifications, Change.notifications, h]

/-- What a call does to the output frequencies and to their users, change by change: the
users of a clock are told once if its frequency is another one after the call, and not at
all otherwise; and they find the clock and the clocks above it with the frequencies that
these have after the call. -/
structure Told (t : Tree) (ms : List Change) (t' : Tree) : Prop where
  notifications : t'.notifications = t.notifications ++ ms.flatMap (Change.notifications t)
  nodup : (ms.map Change.clk).Nodup
  changed : ∀ j, j ∈ ms.map Change.clk ↔ (t'.clk j).outputFreq ≠ (t.clk j).outputFreq
  final : ∀ m ∈ ms, ∀ a, Ancestor t'.parent m.clk a →
    (m.clks.getD a default).outputFreq = (t'.clk a).outputFreq

/-- The same, with all settings as they were. -/
structure Updates (t : Tree) (ms : List Change) (t' : Tree) : Prop extends Told t ms t' where
  sameCfg : SameCfg t t'

/-- Nothing changed and nobody was told. -/
theorem Updates.nil (hcfg : SameCfg t t') (hnote : t'.notifications = t.notifications)
    (hout : ∀ j, (t'.clk j).outputFreq = (t.clk j).outputFreq) : Updates t [] t' where
  sameCfg := hcfg
  notifications := by simp [hnote]
  nodup := List.nodup_nil
  changed j := by simp [hout j]
  final := by simp

/-- **One update after another**, where no later change is above an earlier one. -/
theorem Updates.trans {ms ms' : List Change} (h : Updates t ms t') (h' : Updates t' ms' t'')
    (hsep : ∀ m ∈ ms, ∀ a, Ancestor t.parent m.clk a → a ∉ ms'.map Change.clk) :
    Updates t (ms ++ ms') t'' := by
  have hkept : ∀ a, a ∉ ms'.map Change.clk → (t''.clk a).outputFreq = (t'.clk a).outputFreq :=
    fun a ha => by_contra fun hne => ha ((h'.changed a).2 hne)
  have hlater : ∀ j ∈ ms.map Change.clk, j ∉ ms'.map Change.clk := by
    intro j hj
    obtain ⟨m, hm, rfl⟩ := List.mem_map.1 hj
    exact hsep m hm m.clk (.refl _)
  refine ⟨⟨?_, ?_, fun j => ?_, fun m hm a ha => ?_⟩, h.sameCfg.trans h'.sameCfg⟩
  · rw [h'.notifications, h.notifications, Change.notifications_congr h.sameCfg.user,
      List.flatMap_append, List.append_assoc]
  · rw [List.map_append, List.nodup_append]
    exact ⟨h.nodup, h'.nodup, fun a ha b hb hab => hlater a ha (hab ▸ hb)⟩
  · rw [List.map_append, List.mem_append]
    by_cases hj : j ∈ ms.map Change.clk
    · rw [hkept j (hlater j hj)]
      exact iff_of_true (Or.inl hj) ((h.changed j).1 hj)
    · have hsame : (t'.clk j).outputFreq = (t.clk j).outputFreq :=
        by_contra fun hne => hj ((h.changed j).2 hne)
      rw [or_iff_right hj, h'.changed, hsame]
  · rcases List.mem_append.1 hm with hm | hm
    · rw [h'.sameCfg.parent] at ha
      rw [hkept a (hsep m hm a (h.sameCfg.parent ▸ ha))]
      exact h.final m hm a ha
    · exact h'.final m hm a ha

/-- A new output frequency, and the loop over the users. -/
theorem updates_withOutput (hi : i < t.size) (hne : f ≠ (t.clk i).outputFreq) :
    Updates t [⟨i, (t.withOutput i f).clks⟩] (t.withOutput i f) := by
  refine ⟨⟨?_, by simp, fun j => ?_, ?_⟩, .withOutput hi⟩
  · set t₀ := t.modify i fun c => { c with outputFreq := f } with ht₀
    have hclks : (t₀.warnMax i f).clks = t₀.clks := Tree.clks_warnMax t₀ i f
    have huser : ((t₀.warnMax i f).clk i).user = (t.clk i).user :=
      (congrArg Clk.user (clk_congr hclks i)).trans (field_modify t i i Clk.user fun _ => rfl)
    rw [Tree.withOutput, notifications_notifyUsers, notifications_warnMax,
      Tree.clks_notifyUsers, huser]
    simp only [Change.notifications, List.flatMap_cons, List.flatMap_nil, List.append_nil]
    rfl
  · rw [Tree.clk_withOutput hi]
    by_cases hj : j = i
    · simp [hj, hne]
    · simp [hj]
  · intro m hm a _
    rw [List.mem_singleton.1 hm]
    rfl

/-! ### The recursion -/

/-- A clock that sees the frequency `f` and whose output needs no update. -/
structure Settled (t : Tree) (f : BitVec 32) (o : ℕ) : Prop where
  inputFreq : (t.clk o).inputFreq = f
  outputFreq : (t.clk o).newOutputFreq = .ok (t.clk o).outputFreq

/-- What the update of clock `i` does: it changes clocks below `i` only. -/
structure Recalculated (t : Tree) (i : ℕ) (ms : List Change) (t' : Tree) : Prop where
  updates : Updates t ms t'
  below : ∀ m ∈ ms, Ancestor t.parent m.clk i
  frame : ∀ j, ¬Ancestor t.parent j i → t'.clk j = t.clk j
  settled : Settled t' (t.clk i).inputFreq i
  /-- a settled clock is left as it is -/
  idle : Settled t (t.clk i).inputFreq i → t' = t

/-- What the loop over the children has done after the visits `done`: it changes clocks below
the children whose parent is `i`, and leaves these settled. -/
structure Looped (i : ℕ) (f : BitVec 32) (done : List ℕ) (t : Tree) (ms : List Change)
    (t' : Tree) : Prop where
  updates : Updates t ms t'
  below : ∀ m ∈ ms, ∃ o ∈ done, t.parent o = some i ∧ Ancestor t.parent m.clk o
  frame : ∀ j, (∀ o ∈ done, t.parent o = some i → ¬Ancestor t.parent j o) →
    t'.clk j = t.clk j
  settled : ∀ o ∈ done, t.parent o = some i → Settled t' f o

/-- Before the first visit of the loop. -/
theorem Looped.nil (i : ℕ) (f : BitVec 32) (t : Tree) : Looped i f [] t [] t :=
  ⟨.nil (.refl t) rfl fun _ => rfl, by simp, fun _ _ => rfl, by simp⟩

/-- An assignment of what is there already. -/
theorem modify_eq_self {g : Clk → Clk} (hg : g (t.clk i) = t.clk i) : t.modify i g = t := by
  have hclks : t.clks.modify i g = t.clks := by
    apply List.ext_getElem?
    intro j
    rw [List.getElem?_modify]
    split_ifs with hij
    · subst hij
      cases hc : t.clks[i]? with
      | none => rfl
      | some c =>
        have hclk : t.clk i = c := by simp [Tree.clk, List.getD_eq_getElem?_getD, hc]
        rw [hclk] at hg
        simp [hg]
    · simp
  unfold Tree.modify
  rw [hclks]

variable {recalc : Tree → ℕ → Except Fault Tree} {done : List ℕ} {ms : List Change}

/-- A visit that changes nothing. -/
theorem Looped.skip (h : Looped i f done t ms t') (ho : t.parent o = some i → o ∈ done) :
    Looped i f (done ++ [o]) t ms t' := by
  have hmem : ∀ p ∈ done ++ [o], t.parent p = some i → p ∈ done := by
    intro p hp hparent
    rcases List.mem_append.1 hp with hp | hp
    · exact hp
    · obtain rfl := List.mem_singleton.1 hp
      exact ho hparent
  refine ⟨h.updates, fun m hm => ?_, fun j hj => h.frame j fun p hp => ?_,
    fun p hp hparent => ?_⟩
  · obtain ⟨p, hp, hbelow⟩ := h.below m hm
    exact ⟨p, List.mem_append_left _ hp, hbelow⟩
  · exact hj p (List.mem_append_left _ hp)
  · exact h.settled p (hmem p hp hparent) hparent

/-- The first visit of a child of `i`. -/
theorem Looped.visit {ms' : List Change} (h : Looped i f done t ms t') (hfwd : Forward t)
    (hsize : o < t.size) (hparent : t.parent o = some i) (hnew : o ∉ done)
    (hrec : Recalculated (t'.modify o fun c => { c with inputFreq := f }) o ms' t'') :
    Looped i f (done ++ [o]) t (ms ++ ms') t'' := by
  have hcfg := h.updates.sameCfg
  set t₁ := t'.modify o fun c => { c with inputFreq := f } with ht₁
  have hsize' : o < t'.size := by rw [hcfg.size]; exact hsize
  have hcfg₁ : SameCfg t' t₁ := .modify hsize' rfl
  have hparent₁ : t₁.parent = t.parent := hcfg₁.parent.trans hcfg.parent
  have hfirst := hfwd.parentsFirst
  obtain ⟨hupd, hbelow, hframe, hsettled, -⟩ := hrec
  rw [hparent₁] at hbelow hframe
  have hinput : Updates t' [] t₁ :=
    .nil hcfg₁ rfl fun j => field_modify t' o j Clk.outputFreq fun _ => rfl
  have hupd' : Updates t' ms' t'' := hinput.trans hupd (by simp)
  refine ⟨h.updates.trans hupd' fun m hm a ha hmem => ?_, fun m hm => ?_, fun j hj => ?_,
    fun p hp hpi => ?_⟩
  · -- two children of `i` with a clock below both are the same child
    obtain ⟨p, hp, hpi, hmp⟩ := h.below m hm
    obtain ⟨m', hm', rfl⟩ := List.mem_map.1 hmem
    obtain rfl := Ancestor.eq_of_siblings hfirst hpi hparent hmp (ha.trans (hbelow m' hm'))
    exact hnew hp
  · rcases List.mem_append.1 hm with hm | hm
    · obtain ⟨p, hp, hpi⟩ := h.below m hm
      exact ⟨p, List.mem_append_left _ hp, hpi⟩
    · exact ⟨o, List.mem_append_right _ (List.mem_singleton_self o), hparent, hbelow m hm⟩
  · have hjo : ¬Ancestor t.parent j o :=
      hj o (List.mem_append_right _ (List.mem_singleton_self o)) hparent
    have hne : j ≠ o := fun heq => hjo (heq ▸ .refl j)
    rw [hframe j hjo, ht₁, Tree.clk_modify_of_ne hne]
    exact h.frame j fun p hp => hj p (List.mem_append_left _ hp)
  · rcases List.mem_append.1 hp with hdone | hlast
    · -- a child that was visited before is not below `o`
      have hne : p ≠ o := fun heq => hnew (heq ▸ hdone)
      have hpo : ¬Ancestor t.parent p o := fun hpo =>
        hne (Ancestor.eq_of_siblings hfirst hpi hparent (.refl p) hpo)
      have hclk : t''.clk p = t'.clk p := by
        rw [hframe p hpo, ht₁, Tree.clk_modify_of_ne hne]
      obtain ⟨hin, hout⟩ := h.settled p hdone hpi
      exact ⟨by rw [hclk]; exact hin, by rw [hclk]; exact hout⟩
    · obtain rfl := List.mem_singleton.1 hlast
      have hin : (t₁.clk p).inputFreq = f := by rw [ht₁, Tree.clk_modify_self hsize']
      rw [hin] at hsettled
      exact hsettled

/-- **The loop over the children.** -/
theorem Looped.foldlM {os : List ℕ} (h : Looped i f done t ms t') (hfwd : Forward t)
    (hos : ∀ o ∈ os, o < t.size)
    (hrec : ∀ o ∈ os, ∀ t₁ t₂, SameCfg t t₁ → recalc t₁ o = .ok t₂ →
      ∃ ms, Recalculated t₁ o ms t₂)
    (hfold : os.foldlM (propagate recalc i f) t' = .ok t'') :
    ∃ ms', Looped i f (done ++ os) t ms' t'' := by
  induction os generalizing done ms t' with
  | nil =>
    obtain rfl := Except.ok.inj hfold
    exact ⟨ms, by simpa using h⟩
  | cons o os ih =>
    rw [List.foldlM_cons] at hfold
    obtain ⟨t₂, hvisit, hfold⟩ := bind_eq_ok.1 hfold
    have hsize : o < t.size := hos o List.mem_cons_self
    have hcfg := h.updates.sameCfg
    obtain ⟨ms₂, h₂⟩ : ∃ ms₂, Looped i f (done ++ [o]) t ms₂ t₂ := by
      unfold propagate at hvisit
      split_ifs at hvisit with hsel
      · have hparent : t.parent o = some i := by rw [← hcfg.parent]; exact hsel
        have hcfg₁ : SameCfg t' (t'.modify o fun c => { c with inputFreq := f }) :=
          .modify (by rw [hcfg.size]; exact hsize) rfl
        obtain ⟨ms', hms'⟩ := hrec o List.mem_cons_self _ _ (hcfg.trans hcfg₁) hvisit
        by_cases hdone : o ∈ done
        · -- the child is listed twice: the second visit finds it settled
          have hsettled := h.settled o hdone hparent
          have hself : (t'.modify o fun c => { c with inputFreq := f }) = t' := by
            apply modify_eq_self
            rw [← hsettled.inputFreq]
          rw [hself] at hms'
          obtain rfl := hms'.idle ⟨rfl, hsettled.outputFreq⟩
          exact ⟨ms, h.skip fun _ => hdone⟩
        · exact ⟨_, h.visit hfwd hsize hparent hdone hms'⟩
      · obtain rfl := Except.ok.inj hvisit
        refine ⟨ms, h.skip fun hparent => absurd ?_ hsel⟩
        rw [← hcfg.parent] at hparent
        exact hparent
    obtain ⟨ms', h'⟩ := ih h₂ (fun p hp => hos p (List.mem_cons_of_mem o hp))
      (fun p hp => hrec p (List.mem_cons_of_mem o hp)) hfold
    exact ⟨ms', by simpa using h'⟩

/-- **The recursive update.**  The induction is on the depth; the changes are that of clock
`i`, and then those of the loop, all of them below a child of `i` and so not above `i`. -/
theorem recalcOutputFreq_changes {fuel : ℕ} (hfwd : Forward t) (hi : i < t.size)
    (h : recalcOutputFreq fuel t i = .ok t') : ∃ ms, Recalculated t i ms t' := by
  induction fuel generalizing t i t' with
  | zero => exact absurd h throw_ne_ok
  | succ fuel ih =>
    rw [recalcOutputFreq_succ] at h
    obtain ⟨newFreq, hnew, h⟩ := bind_eq_ok.1 h
    split_ifs at h with heq
    · obtain rfl := pure_eq_ok.1 h
      refine ⟨[], .nil (.refl t) rfl fun _ => rfl,
        by simp, fun _ _ => rfl, ⟨rfl, ?_⟩, fun _ => rfl⟩
      rw [hnew, heq]
    · have hout := updates_withOutput hi heq
      set t₁ := t.withOutput i newFreq with ht₁
      have hclk : ∀ j, t₁.clk j = if j = i then { t.clk i with outputFreq := newFreq }
        else t.clk j :=
        Tree.clk_withOutput hi
      have hcfg := hout.sameCfg
      have hfwd₁ := hfwd.sameCfg hcfg
      have hfirst := hfwd.parentsFirst
      obtain ⟨ms, hloop⟩ := (Looped.nil i newFreq t₁).foldlM hfwd₁
        (fun o ho => (hfwd₁.output i o ho).2)
        (fun o ho t₂ t₃ ht₂ hrec => ih (hfwd₁.sameCfg ht₂)
          (by rw [ht₂.size]; exact (hfwd₁.output i o ho).2) hrec) h
      obtain ⟨hupd, hbelow, hframe, -⟩ := hloop
      rw [hcfg.parent] at hbelow hframe
      have hself : t'.clk i = { t.clk i with outputFreq := newFreq } := by
        rw [hframe i fun o _ ho hio => absurd (hio.le hfirst) (hfirst o i ho).not_ge, hclk,
          if_pos rfl]
      refine ⟨⟨i, t₁.clks⟩ :: ms, hout.trans hupd fun m hm a ha hmem => ?_, fun m hm => ?_,
        fun j hj => ?_, ⟨by rw [hself], by rw [hself]; exact hnew⟩, fun hsettled => ?_⟩
      · obtain rfl := List.mem_singleton.1 hm
        obtain ⟨m', hm', rfl⟩ := List.mem_map.1 hmem
        obtain ⟨o, -, ho, hm'o⟩ := hbelow m' hm'
        have hle : m'.clk ≤ i := ha.le hfirst
        have hge : o ≤ m'.clk := hm'o.le hfirst
        have hlt : i < o := hfirst o i ho
        omega
      · rcases List.mem_cons.1 hm with rfl | hm
        · exact .refl i
        · obtain ⟨o, -, ho, hmo⟩ := hbelow m hm
          exact hmo.to_parent ho
      · have hne : j ≠ i := fun heq => hj (heq ▸ .refl j)
        rw [hframe j fun o _ ho hjo => hj (hjo.to_parent ho), hclk, if_neg hne]
      · have hsame := hsettled.outputFreq
        rw [hnew] at hsame
        exact absurd (Except.ok.inj hsame) heq

/-- The new frequency is computed without a call. -/
theorem newOutputFreq_ends (c : Clk) : FailsOnly (· ≠ Fault.diverges) c.newOutputFreq := by
  unfold Clk.newOutputFreq
  split_ifs
  · refine FailsOnly.bind (fun e he => ?_) fun f => .pure _
    unfold muldiv64 at he
    split_ifs at he
    obtain rfl := Except.error.inj he
    exact nofun
  · exact .pure _

/-- As many calls as there are clocks from `i` on are deep enough. -/
theorem recalcOutputFreq_ends {fuel : ℕ} (hfwd : Forward t) (hi : i < t.size)
    (hfuel : t.size - i ≤ fuel) :
    FailsOnly (· ≠ Fault.diverges) (recalcOutputFreq fuel t i) := by
  induction fuel generalizing t i with
  | zero => omega
  | succ fuel ih =>
    rw [recalcOutputFreq_succ]
    refine FailsOnly.bind (newOutputFreq_ends _) fun newFreq => ?_
    split_ifs with heq
    · exact .pure t
    · have hcfg : SameCfg t (t.withOutput i newFreq) := .withOutput hi
      set t₁ := t.withOutput i newFreq
      have hfwd₁ := hfwd.sameCfg hcfg
      have hset : ∀ {t₂ o}, SameCfg t₁ t₂ → o ∈ (t₁.clk i).output →
          SameCfg t₁ (t₂.modify o fun c => { c with inputFreq := newFreq }) := fun ht₂ ho =>
        ht₂.trans (.modify (by rw [ht₂.size]; exact (hfwd₁.output i _ ho).2) rfl)
      refine FailsOnly.foldlM_of_invariant (P := SameCfg t₁)
        (fun t₂ t₃ o ho ht₂ hvisit => ?_) (fun t₂ o ho ht₂ => ?_) (.refl t₁)
      · unfold propagate at hvisit
        split_ifs at hvisit
        · have hcfg₂ := hset ht₂ ho
          obtain ⟨ms, hrec⟩ := recalcOutputFreq_changes (hfwd₁.sameCfg hcfg₂)
            (by rw [hcfg₂.size]; exact (hfwd₁.output i o ho).2) hvisit
          exact hcfg₂.trans hrec.updates.sameCfg
        · obtain rfl := Except.ok.inj hvisit
          exact ht₂
      · unfold propagate
        split_ifs
        · have hcfg₂ := hset ht₂ ho
          have hsize₂ := hcfg₂.size
          have hsize₁ := hcfg.size
          obtain ⟨hio, ho₁⟩ := hfwd₁.output i o ho
          exact ih (hfwd₁.sameCfg hcfg₂) (by omega) (by omega)
        · exact .pure t₂

end Clktree
end Especial
