/-
# The derived values are current

The baud rates of the UARTs and the scales of the SysTick timer are computed from
frequencies of the clock tree, and only when a notification comes.  They are right for
the frequency that the last notification showed (`Current`); every user of a clock has
last been shown the frequency that the clock has now (`Heard`); so they are right for
the frequencies of now, between any two accesses (`derived_values_current`).
-/

import Especial.Soc.Basic
import Especial.Rcc.Notify
import Especial.Uart.Baud
import Especial.Lib.Run

namespace Especial
namespace Soc

open Qemu Stm32 Clktree Rcc Uart Lib

variable {env : Env} {s s' : Machine} {f : BitVec 32}

/-- The scales are right for a frequency of `HCLK`. -/
def ScaleOk (s : Machine) (f : BitVec 32) : Prop :=
  f ≠ 0#32 → s.systemClockScale.toNat = 10 ^ 9 / f.toNat ∧
    s.externalRefClockScale.toNat = 10 ^ 9 / (f.toNat / 8)

/-- The frequency that the last notification of a user showed it. -/
def shown (u i : ℕ) (log : List Clktree.Event) : BitVec 32 := (heard u i log).getD 0#32

/-- The derived values are right for what the events so far have shown. -/
structure Current (s : Machine) (log : List Clktree.Event) : Prop where
  baud : ∀ n : UartNumber, BaudOk (s.uart n) (shown n.clkIrq (PERIPHCLK n.periph) log)
  scale : ScaleOk s (shown hclkUpdIrq HCLK log)

/-! ### One notification -/

/-- One more notification is the last one of its user. -/
theorem shown_setIrq (u v i : ℕ) (clks : List Clk) (log : List Clktree.Event) :
    shown u i (.setIrq v clks :: log) = if v = u then freqOf clks i else shown u i log := by
  rw [shown, heard]
  split_ifs <;> rfl

/-- The interrupt of a UART is its own. -/
theorem UartNumber.ofClkIrq_eq_some {u : ℕ} {n : UartNumber}
    (h : UartNumber.ofClkIrq u = some n) : u = n.clkIrq := by
  unfold UartNumber.ofClkIrq at h
  split at h <;> cases h <;> rfl

/-- The UART behind its interrupt. -/
theorem UartNumber.ofClkIrq_clkIrq (n : UartNumber) : UartNumber.ofClkIrq n.clkIrq = some n := by
  cases n <;> rfl

/-- The user of `HCLK` is no UART. -/
theorem UartNumber.clkIrq_ne (n : UartNumber) : hclkUpdIrq ≠ n.clkIrq := by
  cases n <;> decide

/-- A quotient of the ticks fits into an `int`. -/
theorem toNat_ticks_div (f : BitVec 32) :
    ((TICKS_PER_SEC / f.setWidth 64).setWidth 32).toNat = 10 ^ 9 / f.toNat := by
  have hdiv : (TICKS_PER_SEC / f.setWidth 64).toNat = 10 ^ 9 / f.toNat := by
    rw [BitVec.toNat_udiv, BitVec.toNat_setWidth_of_le (by decide)]
    rfl
  have hle := Nat.div_le_self (10 ^ 9) f.toNat
  rw [BitVec.toNat_setWidth, hdiv]
  exact Nat.mod_eq_of_lt (by omega)

/-- **The handler of `HCLK`** makes the scales right for the frequency it finds. -/
theorem hclkUpdIrqHandler_spec {clks : List Clk} (h : hclkUpdIrqHandler clks s = .ok s') :
    ScaleOk s' (freqOf clks HCLK) ∧ s'.rcc = s.rcc ∧ s'.uart = s.uart := by
  unfold hclkUpdIrqHandler at h
  dsimp only at h
  split_ifs at h with hpos hext
  · obtain rfl := pure_eq_ok.1 h
    refine ⟨fun _ => ⟨toNat_ticks_div _, ?_⟩, rfl, rfl⟩
    show ((TICKS_PER_SEC / (freqOf clks HCLK / 8#32).setWidth 64).setWidth 32).toNat = _
    rw [toNat_ticks_div, BitVec.toNat_udiv]
    rfl
  · obtain rfl := pure_eq_ok.1 h
    refine ⟨fun hne => absurd ?_ hpos, rfl, rfl⟩
    exact (BitVec.pos_iff_ne_zero _).2 hne

/-- The handler of a UART makes its rate right for the frequency that it is shown. -/
theorem uartClkIrqHandler_spec {clks : List Clk} {n : UartNumber}
    (h : uartClkIrqHandler env clks s n = .ok s') :
    ∃ u, BaudOk u (freqOf clks (PERIPHCLK n.periph)) ∧
      s' = { s with uart := Function.update s.uart n u } := by
  obtain ⟨u, hu, h⟩ := bind_eq_ok.1 h
  exact ⟨u, baudUpdate_baudOk hu, (pure_eq_ok.1 h).symm⟩

/-- **One event** of the clock tree. -/
theorem deliver_current {e : Clktree.Event} {log : List Clktree.Event} (hs : Current s log)
    (h : deliver env s e = .ok s') : Current s' (e :: log) ∧ s'.rcc = s.rcc := by
  cases e with
  | exceedsMax name freq max =>
    obtain rfl := pure_eq_ok.1 h
    exact ⟨⟨hs.baud, hs.scale⟩, rfl⟩
  | setIrq user clks =>
    unfold deliver at h
    dsimp only at h
    split_ifs at h with huser
    · obtain ⟨hscale, hrcc, huart⟩ := hclkUpdIrqHandler_spec h
      refine ⟨⟨fun n => ?_, ?_⟩, hrcc⟩
      · rw [huart, shown_setIrq, if_neg (by rw [huser]; exact n.clkIrq_ne)]
        exact hs.baud n
      · rw [shown_setIrq, if_pos huser]
        exact hscale
    · cases hn : UartNumber.ofClkIrq user with
      | none =>
        rw [hn] at h
        obtain rfl := pure_eq_ok.1 h
        refine ⟨⟨fun n => ?_, ?_⟩, rfl⟩
        · rw [shown_setIrq, if_neg]
          · exact hs.baud n
          · rintro rfl
            rw [n.ofClkIrq_clkIrq] at hn
            exact absurd hn (by simp)
        · rw [shown_setIrq, if_neg huser]
          exact hs.scale
      | some n =>
        rw [hn] at h
        obtain rfl := UartNumber.ofClkIrq_eq_some hn
        obtain ⟨u, hu, rfl⟩ := uartClkIrqHandler_spec h
        refine ⟨⟨fun m => ?_, ?_⟩, rfl⟩
        · rw [shown_setIrq]
          rcases eq_or_ne m n with rfl | hm
          · rw [if_pos rfl]
            dsimp only
            rw [Function.update_self]
            exact hu
          · rw [if_neg fun h => hm ?_]
            · dsimp only
              rw [Function.update_of_ne hm]
              exact hs.baud m
            · have heq := congrArg UartNumber.ofClkIrq h
              rw [n.ofClkIrq_clkIrq, m.ofClkIrq_clkIrq] at heq
              exact (Option.some.inj heq).symm
        · rw [shown_setIrq, if_neg huser]
          exact hs.scale

/-- The events of one update, the earliest first. -/
theorem deliver_foldlM_current {es log : List Clktree.Event} (hs : Current s log)
    (h : es.foldlM (deliver env) s = .ok s') :
    Current s' (es.reverse ++ log) ∧ s'.rcc = s.rcc := by
  induction es generalizing s log with
  | nil =>
    obtain rfl := pure_eq_ok.1 h
    exact ⟨hs, rfl⟩
  | cons e es ih =>
    rw [List.foldlM_cons] at h
    obtain ⟨s₁, h₁, h⟩ := bind_eq_ok.1 h
    obtain ⟨hs₁, hrcc₁⟩ := deliver_current hs h₁
    obtain ⟨hs', hrcc⟩ := ih hs₁ h
    rw [List.reverse_cons, List.append_assoc]
    exact ⟨hs', hrcc.trans hrcc₁⟩

/-! ### One step -/

/-- The derived values are current, and each handler is registered with its clock. -/
structure Inv (s : Machine) : Prop where
  heard : Heard s.rcc.tree
  hclk : hclkUpdIrq ∈ (s.rcc.tree.clk HCLK).user
  uart : ∀ n : UartNumber, n.clkIrq ∈ (s.rcc.tree.clk (PERIPHCLK n.periph)).user
  current : Current s s.rcc.tree.log

/-- A UART has been shown the frequency of its clock. -/
theorem Inv.shown_uart (h : Inv s) (n : UartNumber) :
    shown n.clkIrq (PERIPHCLK n.periph) s.rcc.tree.log = s.rcc.outputFreq (PERIPHCLK n.periph) :=
  h.heard _ _ (h.uart n)

/-- The user of `HCLK` was last shown its frequency. -/
theorem Inv.shown_hclk (h : Inv s) :
    shown hclkUpdIrq HCLK s.rcc.tree.log = s.rcc.outputFreq HCLK := h.heard _ _ h.hclk

/-- The log after an update is the log before with the new events. -/
theorem newEvents_append {t t' : Tree} (h : t.log <:+ t'.log) :
    (newEvents t t').reverse ++ t.log = t'.log := by
  obtain ⟨new, hnew⟩ := h
  rw [newEvents, List.reverse_reverse, ← hnew]
  simp

/-- **An access to the RCC**: the tree tells its users, and they recompute. -/
theorem rcc_inv {e : Rcc.Event} (hs : Inv s) (h : step env s (.rcc e) = .ok s') : Inv s' := by
  obtain ⟨rcc, hrcc, h⟩ := bind_eq_ok.1 h
  have htells := step_tells hrcc
  obtain ⟨hcur, hrcc'⟩ := deliver_foldlM_current (s := { s with rcc := rcc })
    ⟨hs.current.baud, hs.current.scale⟩ h
  rw [newEvents_append htells.log] at hcur
  dsimp only at hrcc'
  refine ⟨?_, ?_, fun n => ?_, ?_⟩
  · rw [hrcc']
    exact htells.heard hs.heard
  · rw [hrcc', htells.user]
    exact hs.hclk
  · rw [hrcc', htells.user]
    exact hs.uart n
  · rw [hrcc']
    exact hcur

/-- **An event of a UART** finds the frequency that it has been shown. -/
theorem uart_inv {n : UartNumber} {e : Uart.Event} (hs : Inv s)
    (h : step env s (.uart n e) = .ok s') : Inv s' := by
  obtain ⟨u, hu, h⟩ := bind_eq_ok.1 h
  obtain rfl := pure_eq_ok.1 h
  refine ⟨hs.heard, hs.hclk, hs.uart, fun m => ?_, hs.current.scale⟩
  rcases eq_or_ne m n with rfl | hm
  · dsimp only
    rw [Function.update_self, hs.shown_uart]
    have hbaud : BaudOk (s.uart m) (s.env env m).periphFreq := by
      have hshown := hs.current.baud m
      rwa [hs.shown_uart] at hshown
    exact step_baudOk hbaud hu
  · dsimp only
    rw [Function.update_of_ne hm]
    exact hs.current.baud m

/-- **Every step keeps the derived values current.** -/
theorem step_inv {i : Env × Event} (hs : Inv s) (h : Step s i s') : Inv s' := by
  obtain ⟨env, e⟩ := i
  cases e with
  | rcc e => exact rcc_inv hs h.2
  | uart n e => exact uart_inv hs h.2

/-! ### The new machine -/

/-- No clock runs yet, and nobody was told anything. -/
structure Quiet (t : Tree) : Prop where
  log : t.log = []
  outputFreq : ∀ i, (t.clk i).outputFreq = 0#32
  size : t.size = 25

/-- The clocks of the new RCC, with the user of `HCLK`. -/
theorem initClk_quiet : (initClk.map fun t =>
    (t.log, t.clks.map (·.outputFreq), (t.clk HCLK).user)) =
      .ok ([], List.replicate 25 0#32, [hclkUpdIrq]) := by decide +kernel

/-- In a new RCC no clock runs. -/
theorem init_quiet {rcc : Stm32Rcc} (h : Rcc.init = .ok rcc) :
    Quiet rcc.tree ∧ (rcc.tree.clk HCLK).user = [hclkUpdIrq] := by
  obtain ⟨t, ht, h⟩ := bind_eq_ok.1 h
  obtain rfl := pure_eq_ok.1 h
  have hq := initClk_quiet
  rw [ht] at hq
  obtain ⟨hlog, hrest⟩ := Prod.mk.inj (Except.ok.inj hq)
  obtain ⟨hfreq, huser⟩ := Prod.mk.inj hrest
  have hsize : t.clks.length = 25 := by simpa using congrArg List.length hfreq
  refine ⟨⟨hlog, fun i => ?_, hsize⟩, huser⟩
  have hclk : (t.clk i).outputFreq = (t.clks.map (·.outputFreq)).getD i 0#32 := by
    rw [Tree.clk, List.getD_eq_getElem?_getD, List.getD_eq_getElem?_getD, List.getElem?_map]
    cases t.clks[i]? <;> rfl
  rw [hclk, hfreq, List.getD_eq_getElem?_getD, List.getElem?_replicate]
  split_ifs <;> rfl

/-- A UART that has been initialised. -/
def Ready (s : Machine) (n : UartNumber) : Prop :=
  n.clkIrq ∈ (s.rcc.tree.clk (PERIPHCLK n.periph)).user ∧ BaudOk (s.uart n) 0#32

/-- **The initialisation of a UART.**  Its clock does not run. -/
theorem uartInit_spec {n : UartNumber} (hq : Quiet s.rcc.tree) (h : uartInit env s n = .ok s') :
    Quiet s'.rcc.tree ∧ Ready s' n ∧ (∀ m, Ready s m → Ready s' m) ∧
      ∀ i u, u ∈ (s.rcc.tree.clk i).user → u ∈ (s'.rcc.tree.clk i).user := by
  obtain ⟨tree, htree, h⟩ := bind_eq_ok.1 h
  dsimp only at h
  obtain ⟨u, hu, h⟩ := bind_eq_ok.1 h
  obtain rfl := pure_eq_ok.1 h
  have hlt : PERIPHCLK n.periph < s.rcc.tree.size := by
    rw [hq.size]
    cases n <;> decide
  have hadd := adduser_spec hlt htree
  have hfreq : ∀ i, (tree.clk i).outputFreq = 0#32 := fun i =>
    (hadd.outputFreq i).trans (hq.outputFreq i)
  have hbaud : BaudOk u 0#32 := by
    have hok : BaudOk u (tree.clk (PERIPHCLK n.periph)).outputFreq := reset_baudOk hu
    rwa [hfreq] at hok
  refine ⟨⟨hadd.log.trans hq.log, hfreq, hadd.size.trans hq.size⟩, ⟨hadd.added, ?_⟩,
    fun m hm => ⟨hadd.kept _ _ hm.1, ?_⟩, hadd.kept⟩
  · dsimp only
    rw [Function.update_self]
    exact hbaud
  · dsimp only
    rcases eq_or_ne m n with rfl | hmn
    · rw [Function.update_self]
      exact hbaud
    · rw [Function.update_of_ne hmn]
      exact hm.2

/-- The UARTs are initialised one after another. -/
theorem uartInit_foldlM_spec {l : List UartNumber} (hq : Quiet s.rcc.tree)
    (h : l.foldlM (uartInit env) s = .ok s') :
    Quiet s'.rcc.tree ∧ (∀ n, n ∈ l ∨ Ready s n → Ready s' n) ∧
      ∀ i u, u ∈ (s.rcc.tree.clk i).user → u ∈ (s'.rcc.tree.clk i).user := by
  induction l generalizing s with
  | nil =>
    obtain rfl := pure_eq_ok.1 h
    exact ⟨hq, fun n hn => hn.resolve_left (by simp), fun _ _ hu => hu⟩
  | cons n l ih =>
    rw [List.foldlM_cons] at h
    obtain ⟨s₁, h₁, h⟩ := bind_eq_ok.1 h
    obtain ⟨hq₁, hn₁, hkeep₁, huser₁⟩ := uartInit_spec hq h₁
    obtain ⟨hq', hready, huser⟩ := ih hq₁ h
    refine ⟨hq', fun m hm => hready m ?_, fun i u hu => huser i u (huser₁ i u hu)⟩
    rcases hm with hm | hm
    · rcases List.mem_cons.1 hm with rfl | hm
      · exact Or.inr hn₁
      · exact Or.inl hm
    · exact Or.inr (hkeep₁ m hm)

/-- **The new machine**: all clocks stand still, and every handler is registered. -/
theorem init_inv {connected : UartNumber → Bool} {afioBoardMap : UartNumber → BitVec 32}
    (h : init env connected afioBoardMap = .ok s) : Inv s := by
  obtain ⟨rcc, hrcc, h⟩ := bind_eq_ok.1 h
  obtain ⟨hq, hhclk⟩ := init_quiet hrcc
  obtain ⟨hq', hready, huser⟩ := uartInit_foldlM_spec hq h
  have hnone : ∀ u i, shown u i s.rcc.tree.log = 0#32 := fun u i => by
    rw [hq'.log]
    rfl
  have hall : ∀ n : UartNumber, n ∈ UartNumber.all := fun n => by cases n <;> decide
  refine ⟨fun i u _ => ?_, huser _ _ ?_, fun n => (hready n (Or.inl (hall n))).1,
    fun n => ?_, ?_⟩
  · exact (hnone u i).trans (hq'.outputFreq i).symm
  · rw [hhclk]
    exact List.mem_singleton_self _
  · rw [hnone]
    exact (hready n (Or.inl (hall n))).2
  · rw [hnone]
    exact fun hne => absurd rfl hne

/-- **The derived values are current.**  In every state of the machine between two
accesses: the rate of each UART is that of its `BRR` and the frequency of its
peripheral clock, and while `HCLK` runs the scales of the SysTick timer are those of
its frequency. -/
theorem derived_values_current (env₀ : Env) (connected : UartNumber → Bool)
    (afioBoardMap : UartNumber → BitVec 32) (s₀ s : Machine) (l : List (Env × Event))
    (hinit : init env₀ connected afioBoardMap = .ok s₀) (h : Run Step s₀ l s) :
    (∀ n : UartNumber,
      (if (s.uart n).BRR = 0#32 ∨ s.rcc.outputFreq (PERIPHCLK n.periph) = 0#32 then
          (s.uart n).bitsPerSec = 0#32
        else (s.uart n).bitsPerSec.toNat =
          (s.rcc.outputFreq (PERIPHCLK n.periph)).toNat / (s.uart n).BRR.toNat) ∧
      ((s.uart n).bitsPerSec ≠ 0#32 →
        (s.uart n).nsPerChar.toNat = 10 * (10 ^ 9 / (s.uart n).bitsPerSec.toNat))) ∧
    (s.rcc.outputFreq HCLK ≠ 0#32 →
      s.systemClockScale.toNat = 10 ^ 9 / (s.rcc.outputFreq HCLK).toNat ∧
      s.externalRefClockScale.toNat = 10 ^ 9 / ((s.rcc.outputFreq HCLK).toNat / 8)) := by
  have hs : Inv s := h.invariant (fun _ _ _ hs hstep => step_inv hs hstep) (init_inv hinit)
  refine ⟨fun n => ?_, ?_⟩
  · have hbaud := hs.current.baud n
    rw [hs.shown_uart] at hbaud
    exact ⟨hbaud.bitsPerSec, hbaud.nsPerChar⟩
  · have hscale := hs.current.scale
    rwa [hs.shown_hclk] at hscale

/-- A reset, the clock and the divider of UART1, and half the speed on the AHB. -/
def halveAhb : List (Env × Event) :=
  [(exampleEnv 0, .rcc .reset), (exampleEnv 0, .rcc (.write 0x18 0x4000)),
    (exampleEnv 0, .uart .one (.write 0x08 0x341 4)), (exampleEnv 0, .rcc (.write 0x04 0x80))]

/-- A sequence of events that is always possible, executed from the new machine. -/
theorem exists_run_of_map {α : Type} {connected : UartNumber → Bool}
    {afioBoardMap : UartNumber → BitVec 32} {l : List (Env × Event)}
    {f : Machine → α} {a : α} (hen : ∀ i ∈ l, ∀ s, i.2.Enabled i.1 s)
    (hall : ((init env connected afioBoardMap) >>= fun s₀ =>
      l.foldlM (fun s i => step i.1 s i.2) s₀).map f = .ok a) :
    ∃ s₀ s, init env connected afioBoardMap = .ok s₀ ∧ Run Step s₀ l s ∧ f s = a := by
  cases hinit : init env connected afioBoardMap with
  | error e =>
    rw [hinit] at hall
    exact absurd hall (by simp [bind, Except.bind, Except.map])
  | ok s₀ =>
    rw [hinit, ok_bind] at hall
    cases hfold : l.foldlM (fun s i => step i.1 s i.2) s₀ with
    | error e =>
      rw [hfold] at hall
      exact absurd hall (by simp [Except.map])
    | ok s =>
      rw [hfold] at hall
      have hrun := (Run.ok_iff_foldlM.2 hfold).guarded_of_forall hen
      exact ⟨s₀, s, rfl, hrun.mono fun s i t h => ⟨h.2 s, h.1⟩, Except.ok.inj hall⟩

/-- UART1 halves its rate from 9603 to 4801 bits per second. -/
theorem derived_values_current_halved :
    ∃ s₀ s, init (exampleEnv 0) (fun _ => true) (fun _ => 0) = .ok s₀ ∧
    Run Step s₀ halveAhb s ∧ (s.rcc.outputFreq (PERIPHCLK .uart1)).toNat = 4000000 ∧
    (s.uart .one).BRR = 833#32 ∧ (s.uart .one).bitsPerSec.toNat = 4000000 / 833 := by
  have hen : ∀ i ∈ halveAhb, ∀ s, i.2.Enabled i.1 s := by
    intro i hi s
    fin_cases hi
    · trivial
    · trivial
    · exact ⟨by decide, rfl⟩
    · trivial
  have hall : ((init (exampleEnv 0) (fun _ => true) fun _ => 0) >>= fun s₀ =>
      halveAhb.foldlM (fun s i => step i.1 s i.2) s₀).map (fun s =>
        (s.rcc.outputFreq (PERIPHCLK .uart1), (s.uart .one).BRR)) = .ok (4000000#32, 833#32) := by
    decide +kernel
  obtain ⟨s₀, s, hinit, hrun, hs⟩ := exists_run_of_map hen hall
  obtain ⟨hfreq, hbrr⟩ := Prod.mk.inj hs
  have hrate := ((derived_values_current _ _ _ _ _ _ hinit hrun).1 .one).1
  rw [show s.rcc.outputFreq (PERIPHCLK UartNumber.one.periph) = 4000000#32 from hfreq, hbrr,
    if_neg (by decide)] at hrate
  exact ⟨s₀, s, hinit, hrun, by rw [hfreq]; rfl, hbrr, hrate⟩

end Soc
end Especial
