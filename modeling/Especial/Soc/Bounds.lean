/-
# What the handlers of the clocks divide by

A register of the RCC sets several clocks one after another, and a handler that is
notified in between sees a mixture of the old settings and the new ones.  Every such
mixture is in the ranges of the board (`Especial.Rcc.Ranges`), and that is all a handler
needs:

* `stm32_rcc_hclk_upd_irq_handler` divides by an eighth of `HCLK`, which is off or at
  least 500 kHz (`clocks_in_bounds`);
* `stm32_uart_baud_update` divides by the quotient of the peripheral clock and `BRR`.  The
  clock can be as slow as 62500 Hz, and `BRR` has sixteen bits; so a divider above 62500
  and the largest prescalers stop the emulator (`baud_returns_iff`).
-/

import Especial.Rcc.Ranges
import Especial.Rcc.History
import Especial.Soc.Derived
import Especial.Uart.Divider

namespace Especial
namespace Soc

open Qemu Stm32 Clktree Rcc Uart Lib

variable {env : Env} {s s' : Machine} {clks : List Clk}

/-! ### The handler of `HCLK` -/

/-- The RCC, the ports and the dividers are the same. -/
structure SameDividers (s s' : Machine) : Prop where
  rcc : s'.rcc = s.rcc
  uart : ∀ n, Divided (s.uart n).periph (s.uart n).BRR (s'.uart n)

/-- Nothing changes. -/
theorem SameDividers.refl (s : Machine) : SameDividers s s := ⟨rfl, fun _ => ⟨rfl, rfl⟩⟩

/-- Two steps that keep the dividers. -/
theorem SameDividers.trans {s₁ s₂ s₃ : Machine} (h : SameDividers s₁ s₂)
    (h' : SameDividers s₂ s₃) : SameDividers s₁ s₃ :=
  ⟨h'.rcc.trans h.rcc, fun n =>
    ⟨(h'.uart n).periph.trans (h.uart n).periph, (h'.uart n).brr.trans (h.uart n).brr⟩⟩

/-- **`stm32_rcc_hclk_upd_irq_handler`** returns on clocks in range. -/
theorem hclkUpdIrqHandler_returns (h : boardRanges.InRange clks) (s : Machine) :
    Returns (hclkUpdIrqHandler clks s) (SameDividers s) := by
  have hb := (inBounds_of_safe (t := ⟨clks, []⟩) ⟨h, by simp⟩).hclk
  change ¬(1 ≤ (freqOf clks HCLK).toNat ∧ (freqOf clks HCLK).toNat ≤ 7) at hb
  unfold hclkUpdIrqHandler
  dsimp only
  split_ifs with hpos hext
  · have hlt := (udiv_eq_zero_iff (by decide)).1 hext
    have hone : 0 < (freqOf clks HCLK).toNat := hpos
    have height : (8#32).toNat = 8 := rfl
    exact absurd ⟨hone, by omega⟩ hb
  · exact Returns.pure ⟨rfl, fun _ => ⟨rfl, rfl⟩⟩
  · exact Returns.pure (.refl s)

/-- **The clocks are in bounds at all times.**  For every sequence of resets and writes
that the RCC takes: the sequence returns; its calls on the clock tree are traced, and at
every heap on the way, from the first on, no divisor is `0`, every output frequency
computed is the exact quotient and at most 128 MHz, and `HCLK` is not between 1 and 7 Hz;
at the end the cached frequencies are exact; and `stm32_rcc_hclk_upd_irq_handler` returned
from each of its calls. -/
theorem clocks_in_bounds (s₀ : Stm32Rcc) (l : List Rcc.Event) (hinit : Rcc.init = .ok s₀)
    (hl : ∀ e ∈ l, e.Taken) :
    ∃ s tr, Run Rcc.Step s₀ l s ∧
      (l.flatMap Rcc.Event.settings).foldlM Trace.set ⟨s₀.tree, []⟩ = .ok tr ∧
      tr.tree = s.tree ∧ (∀ t ∈ s₀.tree :: tr.past, InBounds t) ∧
      (∀ i < 25, (s.outputFreq i).toNat = (s.tree.clk i).exactFreq) ∧
      ∀ clks, .setIrq hclkUpdIrq clks ∈ s.tree.log →
        ∀ m : Machine, ∃ m', hclkUpdIrqHandler clks m = .ok m' := by
  have h₀ : ∃ c r, Has c r s₀ := run_has hinit (.nil s₀)
  have hsafe₀ : boardRanges.Safe s₀.tree := init_safe hinit
  obtain ⟨s, hrun, c, r, h⟩ :=
    Run.exists_of_forall (J := fun s => ∃ c r, Has c r s) (A := Event.Taken)
    (fun s e ⟨_, _, hs⟩ he => hs.step he) h₀ hl
  obtain ⟨tr, hfold, htree, htr⟩ := run_trace hsafe₀ hrun
  have hsafe : boardRanges.Safe s.tree := htree ▸ htr.tree
  refine ⟨s, tr, hrun, hfold, htree, fun t ht => ?_, fun i hi => h.exactFreq hsafe hi,
    fun clks hclks m => ?_⟩
  · rcases List.mem_cons.1 ht with rfl | ht
    · exact inBounds_of_safe hsafe₀
    · exact inBounds_of_safe (htr.past t ht)
  · obtain ⟨m', hm', -⟩ := hclkUpdIrqHandler_returns (hsafe.shown _ _ hclks) m
    exact ⟨m', hm'⟩

/-- A reset, all oscillators and the PLL, and the largest multiplier on the HSE. -/
def fastest : List Rcc.Event := [.reset, .write 0x00 0x1010001, .write 0x04 0x3d0002]

/-- The bound is reached. -/
theorem clocks_in_bounds_fastest :
    ∃ s₀ s tr, Rcc.init = .ok s₀ ∧ Run Rcc.Step s₀ fastest s ∧
    (fastest.flatMap Rcc.Event.settings).foldlM Trace.set ⟨s₀.tree, []⟩ = .ok tr ∧
    (∀ t ∈ tr.past, InBounds t) ∧ (s.outputFreq SYSCLK).toNat = 128000000 := by
  have htaken : ∀ e ∈ fastest, e.Taken := by
    simp only [fastest, List.forall_mem_cons]
    exact ⟨trivial, trivial, (by decide : ¬_), by simp⟩
  have hfreq : (Rcc.init >>= fun s₀ => fastest.foldlM Rcc.step s₀).map (·.outputFreq SYSCLK) =
      .ok 128000000#32 := by decide +kernel
  obtain ⟨s₀, hinit, -⟩ := init_has
  obtain ⟨s, tr, hrun, htr, -, hpast, -, -⟩ := clocks_in_bounds s₀ fastest hinit htaken
  rw [hinit, ok_bind, Run.ok_iff_foldlM.1 hrun] at hfreq
  refine ⟨s₀, s, tr, hinit, hrun, htr, fun t ht => hpast t (List.mem_cons_of_mem _ ht), ?_⟩
  exact congrArg BitVec.toNat (Except.ok.inj hfreq)

/-! ### The handlers of the UARTs -/

/-- The slowest frequency of a peripheral clock that runs. -/
def SLOWEST : ℕ := 62500

/-- A divider up to the slowest frequency is fine for every clock in range. -/
theorem divides_of_inRange (h : boardRanges.InRange clks) (p : Periph) {brr : BitVec 32}
    (hbrr : brr.toNat ≤ SLOWEST) : Divides brr (freqOf clks (PERIPHCLK p)) := by
  have hout : (boardRanges.clk (PERIPHCLK p)).output = apbFreqs := by cases p <;> rfl
  have hmem := (h.2 (PERIPHCLK p) (periphclk_lt p)).output
  rw [hout] at hmem
  have hgap : apbFreqs.Le [(0, 0), (SLOWEST, MAX_FREQ)] := by decide
  rcases hmem.eq_zero_or_le hgap with hzero | hle
  · exact Or.inr (Or.inl (BitVec.eq_of_toNat_eq hzero))
  · exact Or.inr (Or.inr (hbrr.trans hle))

/-- A UART that keeps its divider. -/
theorem sameDividers_update {n : UartNumber} {u : Stm32Uart}
    (hu : Divided (s.uart n).periph (s.uart n).BRR u) :
    SameDividers s { s with uart := Function.update s.uart n u } := by
  refine ⟨rfl, fun m => ?_⟩
  dsimp only
  rcases eq_or_ne m n with rfl | hm
  · rw [Function.update_self]
    exact hu
  · rw [Function.update_of_ne hm]
    exact ⟨rfl, rfl⟩

/-- No divider is above the slowest frequency. -/
def Moderate (s : Machine) : Prop := ∀ n, (s.uart n).BRR.toNat ≤ SLOWEST

/-- Dividers that are kept stay moderate. -/
theorem SameDividers.moderate (h : SameDividers s s') (hs : Moderate s) : Moderate s' := by
  intro n
  rw [(h.uart n).brr]
  exact hs n

/-- **One notification**, with clocks in range. -/
theorem deliver_returns {e : Clktree.Event} (hs : Moderate s)
    (he : ∀ u clks, e = .setIrq u clks → boardRanges.InRange clks) :
    Returns (deliver env s e) (SameDividers s) := by
  cases e with
  | exceedsMax name freq max => exact Returns.pure (.refl s)
  | setIrq u clks =>
    have hrange := he u clks rfl
    unfold deliver
    dsimp only
    split_ifs
    · exact hclkUpdIrqHandler_returns hrange s
    · cases UartNumber.ofClkIrq u with
      | none => exact Returns.pure (.refl s)
      | some n =>
        exact Returns.bind (baudUpdate_returns_iff.2 (divides_of_inRange hrange n.periph (hs n)))
          fun u hu => Returns.pure (sameDividers_update hu)

/-- The notifications of an update. -/
theorem deliver_foldlM_returns {es : List Clktree.Event} (hs : Moderate s)
    (hes : ∀ u clks, .setIrq u clks ∈ es → boardRanges.InRange clks) :
    Returns (es.foldlM (deliver env) s) (SameDividers s) := by
  refine Returns.foldlM (fun s₁ e he h₁ => ?_) (.refl s)
  have hclks : ∀ u clks, e = .setIrq u clks → boardRanges.InRange clks :=
    fun u clks h => hes u clks (h ▸ he)
  exact (deliver_returns (h₁.moderate hs) hclks).mono fun s₂ h₂ => h₁.trans h₂

/-! ### One step -/

/-- The clocks are in range, every UART is itself, and no divider is above the slowest
frequency. -/
structure Bounded (s : Machine) : Prop where
  has : ∃ c r, Has c r s.rcc
  safe : boardRanges.Safe s.rcc.tree
  periph : ∀ n, (s.uart n).periph = n.periph
  moderate : Moderate s

/-- The events of an update are in the log. -/
theorem mem_log_of_newEvents {t t' : Tree} {e : Clktree.Event} (h : e ∈ newEvents t t') :
    e ∈ t'.log :=
  List.mem_of_mem_take (List.mem_reverse.1 h)

/-- **An access to the RCC** returns, with all its notifications. -/
theorem Bounded.rcc {e : Rcc.Event} (hs : Bounded s) (he : e.Taken) :
    Returns (step env s (.rcc e)) fun s' =>
      Bounded s' ∧ Rcc.Step s.rcc e s'.rcc ∧ ∀ n, (s'.uart n).BRR = (s.uart n).BRR := by
  obtain ⟨c, r, h⟩ := hs.has
  obtain ⟨rcc, hrcc, h'⟩ := h.step he
  have hsafe := step_safe hs.safe hrcc
  have hfold : Returns ((newEvents s.rcc.tree rcc.tree).foldlM (deliver env) { s with rcc := rcc })
      (SameDividers { s with rcc := rcc }) :=
    deliver_foldlM_returns hs.moderate fun u clks hmem =>
      hsafe.shown u clks (mem_log_of_newEvents hmem)
  obtain ⟨s', hs', hsame⟩ := hfold
  have hrcc' : s'.rcc = rcc := hsame.rcc
  refine ⟨s', bind_eq_ok.2 ⟨rcc, hrcc, hs'⟩,
    ⟨?_, ?_, fun n => ?_, hsame.moderate hs.moderate⟩, ?_, fun n => (hsame.uart n).brr⟩
  · rw [hrcc']
    exact h'
  · rw [hrcc']
    exact hsafe
  · exact (hsame.uart n).periph.trans (hs.periph n)
  · rw [hrcc']
    exact hrcc

/-- A UART with a new divider. -/
theorem Bounded.update {n : UartNumber} {u : Stm32Uart} {brr : BitVec 32} (hs : Bounded s)
    (hu : Divided (s.uart n).periph brr u) (hbrr : brr.toNat ≤ SLOWEST) :
    Bounded { s with uart := Function.update s.uart n u } := by
  refine ⟨hs.has, hs.safe, fun m => ?_, fun m => ?_⟩
  · dsimp only
    rcases eq_or_ne m n with rfl | hm
    · rw [Function.update_self, hu.periph]
      exact hs.periph m
    · rw [Function.update_of_ne hm]
      exact hs.periph m
  · dsimp only
    rcases eq_or_ne m n with rfl | hm
    · rw [Function.update_self, hu.brr]
      exact hbrr
    · rw [Function.update_of_ne hm]
      exact hs.moderate m

/-- The registers that the sequences below write: those of the RCC, and bytes, halves and
words of `BRR` that turn a divider of `B` (or none) into another. -/
def Event.Writes (B : Set (BitVec 16)) : Event → Prop
  | .rcc e => e.Taken
  | .uart _ (.write offset value size) =>
    ((size = 1 ∨ size = 2 ∨ size = 4) ∧ offset % size = 0) ∧ offset / 4 * 4 = 0x08 ∧
      ∀ b ∈ insert 0 B, (merge (b.setWidth 32) offset value size).setWidth 16 ∈ insert 0 B
  | .uart _ .reset => True
  | .uart _ _ => False

/-- The dividers are those of `B`, or none. -/
def Chosen (B : Set (BitVec 16)) (s : Machine) : Prop :=
  ∀ n, ∃ b ∈ insert 0 B, (s.uart n).BRR = b.setWidth 32

/-- A chosen divider is moderate if all of `B` are. -/
theorem moderate_of_mem {B : Set (BitVec 16)} (hB : ∀ b ∈ B, b.toNat ≤ SLOWEST)
    {b : BitVec 16} (hb : b ∈ insert 0 B) : (b.setWidth 32).toNat ≤ SLOWEST := by
  rw [BitVec.toNat_setWidth_of_le (by decide)]
  rcases hb with rfl | hb
  · exact Nat.zero_le _
  · exact hB b hb

/-- A UART with a divider of `B`. -/
theorem Chosen.update {B : Set (BitVec 16)} {n : UartNumber} {u : Stm32Uart} {b : BitVec 16}
    (h : Chosen B s) (hb : b ∈ insert 0 B) (hu : u.BRR = b.setWidth 32) :
    Chosen B { s with uart := Function.update s.uart n u } := by
  intro m
  dsimp only
  rcases eq_or_ne m n with rfl | hm
  · rw [Function.update_self]
    exact ⟨b, hb, hu⟩
  · rw [Function.update_of_ne hm]
    exact h m

/-- **A write to a `BRR`** returns, with a moderate value. -/
theorem Bounded.write {B : Set (BitVec 16)} {n : UartNumber} {offset size : ℕ} {value : BitVec 64}
    (hs : Bounded s) (hc : Chosen B s) (h : Event.Writes B (.uart n (.write offset value size)))
    (hB : ∀ b ∈ B, b.toNat ≤ SLOWEST) :
    Returns (step env s (.uart n (.write offset value size))) fun s' => Bounded s' ∧
    Chosen B s' := by
  obtain ⟨b, hb, hbrr⟩ := hc n
  by_cases hport : (s.uart n).periph = .uart5
  · exact Returns.bind (write_uart5_returns hport) fun u hu =>
      Returns.pure ⟨hs.update hu (hs.moderate n), hc.update hb (hu.brr.trans hbrr)⟩
  · have hmem := h.2.2 b hb
    have hnew : merge (s.uart n).BRR offset value size &&& 0xffff#32 =
        ((merge (b.setWidth 32) offset value size).setWidth 16).setWidth 32 := by
      rw [hbrr, and_ffff]
    obtain ⟨w, hw⟩ := write_brr_eq h.2.1 hport (s.env env n) value size
    rw [hnew] at hw
    have hle := moderate_of_mem hB hmem
    have hdiv := divides_of_inRange hs.safe.inRange n.periph hle
    refine Returns.bind ?_ fun u hu => Returns.pure ⟨hs.update hu hle, hc.update hmem hu.brr⟩
    show Returns (Uart.write _ _ offset value size) _
    rw [hw]
    exact baudUpdate_returns_iff.2 hdiv

/-- **One step** with moderate values. -/
theorem Bounded.step {B : Set (BitVec 16)} (hB : ∀ b ∈ B, b.toNat ≤ SLOWEST)
    (hs : Bounded s ∧ Chosen B s) (i : Env × Event) (hi : i.2.Writes B) :
    ∃ s', Step s i s' ∧ Bounded s' ∧ Chosen B s' := by
  obtain ⟨env, e⟩ := i
  obtain ⟨hs, hc⟩ := hs
  cases e with
  | rcc e =>
    obtain ⟨s', hstep, hs', -, hbrr⟩ : Returns (Soc.step env s (.rcc e)) _ := hs.rcc hi
    exact ⟨s', ⟨trivial, hstep⟩, hs', fun n => by rw [hbrr]; exact hc n⟩
  | uart n e =>
    cases e with
    | write offset value size =>
      obtain ⟨s', hstep, hs'⟩ : Returns (Soc.step env s _) _ := hs.write hc hi hB
      exact ⟨s', ⟨hi.1, hstep⟩, hs'⟩
    | reset =>
      have hreset : Divided (s.uart n).periph 0#32 (resetState (s.uart n)) := ⟨rfl, rfl⟩
      exact ⟨_, ⟨trivial, bind_eq_ok.2 ⟨_, reset_eq _ _, rfl⟩⟩,
        hs.update hreset (Nat.zero_le _), hc.update (Set.mem_insert 0 B) rfl⟩
    | read offset size => exact hi.elim
    | receive ch => exact hi.elim
    | rxTimer => exact hi.elim
    | txTimer => exact hi.elim
    | clkIrq level => exact hi.elim

/-! ### The new machine -/

/-- `stm32_uart_init` keeps the bounds. -/
theorem uartInit_bounded {n : UartNumber} (hs : Bounded s) (h : uartInit env s n = .ok s') :
    Bounded s' := by
  obtain ⟨tree, htree, h⟩ := bind_eq_ok.1 h
  dsimp only at h
  rw [reset_eq] at h
  obtain rfl := pure_eq_ok.1 h
  obtain ⟨c, r, hc⟩ := hs.has
  have hlt : PERIPHCLK n.periph < s.rcc.tree.size := by
    rw [hc.size]
    exact periphclk_lt n.periph
  have hreset : Divided (s.uart n).periph 0#32 (resetState (s.uart n)) := ⟨rfl, rfl⟩
  have hadd : Bounded { s with rcc := { s.rcc with tree := tree } } := by
    obtain ⟨_, hcount, htree'⟩ := bind_eq_ok.1 htree
    have hcount := of_decide_eq_true (assert_eq_ok.1 hcount)
    rw [Tree.clk_modify_self hlt] at hcount
    have hroom : (s.rcc.tree.clk (PERIPHCLK n.periph)).user.length < MAX_IRQ := by
      simpa using hcount
    have href : Refines c.graph tree :=
      Returns.of_eq_ok (hc.tree.adduser hlt hroom) htree
    obtain rfl := pure_eq_ok.1 htree'
    refine ⟨⟨c, r, href, hc.regs⟩, hs.safe.modify (periphclk_lt n.periph) ?_, hs.periph,
      hs.moderate⟩
    obtain ⟨h₁, h₂, h₃, h₄, h₅, h₆⟩ := hs.safe.fits (periphclk_lt n.periph)
    exact ⟨h₁, h₂, h₃, h₄, h₅, h₆⟩
  exact hadd.update hreset (Nat.zero_le _)

/-- The new machine is in the bounds. -/
theorem init_bounded {connected : UartNumber → Bool} {afioBoardMap : UartNumber → BitVec 32}
    (h : init env connected afioBoardMap = .ok s) : Bounded s := by
  obtain ⟨rcc, hrcc, h⟩ := bind_eq_ok.1 h
  have h₀ :
      Bounded ⟨rcc, fun n => .alloc n.periph (connected n) (afioBoardMap n), 0#32, 1000#32⟩ :=
    ⟨run_has hrcc (.nil rcc), init_safe hrcc, fun n => rfl, fun n => Nat.zero_le _⟩
  exact foldlM_invariant (fun s s' n _ hs hstep => uartInit_bounded hs hstep) h₀ h

end Soc
end Especial
