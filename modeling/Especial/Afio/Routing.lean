/-
# Which port an EXTI line is connected to

`Routed` is the routing invariant: line `n` is connected to the port that nibble `n`
of the `EXTICR` registers names, and to no other.  A write to such a register
disconnects the old port of each of its lines and connects the new one, so it keeps
the invariant (`exticrWrite_routed`).  A reset connects all lines to port A and
disconnects nothing, so it establishes the invariant if no other port is connected
(`reset_routed_iff`), as at the first reset.
-/

import Especial.Afio.Basic
import Especial.Exti.Lines
import Especial.Lib.Run

namespace Especial
namespace Afio

open Qemu Stm32 Lib Gpio Exti

variable {io io' : Io} {n : ℕ}

/-- What belongs to a line: where the ports' `in_irq[n]` point, and its nibble. -/
structure Route where
  inIrq : Fin GPIO_COUNT → Option ℕ
  port : ℕ

/-- The route of a line. -/
def route (io : Io) (n : ℕ) : Route := ⟨fun p => (io.gpio p).inIrq n, extiPort io n⟩

/-- Line `n` is connected to the port of its nibble only. -/
def Route.Ok (r : Route) (n : ℕ) : Prop :=
  ∀ p : Fin GPIO_COUNT, r.inIrq p = if p.val = r.port then some n else none

/-- **The routing invariant.** -/
def Routed (io : Io) : Prop := ∀ n < 16, (route io n).Ok n

/-! ### Writes to `EXTICR` -/

/-- One pointer changes. -/
theorem connectIrq_spec {i : ℕ} {irq : Option ℕ} (h : connectIrq io i n irq = .ok io') :
    i < GPIO_COUNT ∧ io'.afio = io.afio ∧ ∀ (p : Fin GPIO_COUNT) (m : ℕ),
      (io'.gpio p).inIrq m = if m = n ∧ p.val = i then irq else (io.gpio p).inIrq m := by
  unfold connectIrq at h
  split_ifs at h with hi
  rw [← Except.ok.inj h]
  refine ⟨hi, rfl, fun p m => ?_⟩
  rcases eq_or_ne p ⟨i, hi⟩ with rfl | hp
  · rcases eq_or_ne m n with rfl | hm
    · simp
    · simp [hm]
  · have hpi : ¬p.val = i := fun h => hp (Fin.ext h)
    simp [Function.update_of_ne hp, hpi]

/-- The route of a line after the body of the loop for it. -/
def Route.rewire (newValue : BitVec 32) (init : Bool) (n : ℕ) (r : Route) : Route :=
  { r with inIrq := fun p =>
      if p.val = nibble newValue (n % 4) then some n
      else if init = false ∧ p.val = r.port then none
      else r.inIrq p }

/-- The ports that the body connects and disconnects exist. -/
def Route.Exists (newValue : BitVec 32) (init : Bool) (n : ℕ) (r : Route) : Prop :=
  nibble newValue (n % 4) < GPIO_COUNT ∧ (init = false → r.port < GPIO_COUNT)

/-- The nibble of a line in its register. -/
theorem extiPort_line (io : Io) (index : Fin 4) {i : ℕ} (hi : i < 4) :
    extiPort io (index * EXTI_PER_CR + i) = nibble (io.afio.EXTICR index) i := by
  have hdiv : (index * EXTI_PER_CR + i) / 4 = index := by unfold EXTI_PER_CR; omega
  have hmod : (index * EXTI_PER_CR + i) % 4 = i := by unfold EXTI_PER_CR; omega
  rw [extiPort, hdiv, hmod]
  simp

/-- The body acts on its line. -/
theorem exticrLine_acts {index : Fin 4} {newValue : BitVec 32} {init : Bool} {i : ℕ} (hi : i < 4)
    (h : exticrLine index newValue init io i = .ok io') :
    ActsAt route (fun _ => ([] : List Unit)) (Route.rewire newValue init) (fun _ _ => [])
      (Route.Exists newValue init) (index * EXTI_PER_CR + i) io io' := by
  have hmod : (index * EXTI_PER_CR + i) % 4 = i := by unfold EXTI_PER_CR; omega
  unfold exticrLine at h
  obtain ⟨io₁, h₁, h₂⟩ := bind_eq_ok.1 h
  obtain ⟨hnew, hafio₂, hirq₂⟩ := connectIrq_spec h₂
  have hfirst : (init = false → nibble (io.afio.EXTICR index) i < GPIO_COUNT) ∧
      io₁.afio = io.afio ∧ ∀ (p : Fin GPIO_COUNT) (m : ℕ), (io₁.gpio p).inIrq m =
        if m = index * EXTI_PER_CR + i ∧ init = false ∧ p.val = nibble (io.afio.EXTICR index) i
        then none else (io.gpio p).inIrq m := by
    cases init with
    | true =>
      obtain rfl := pure_eq_ok.1 h₁
      exact ⟨by simp, rfl, fun p m => by simp⟩
    | false =>
      obtain ⟨hold, hafio, hirq⟩ := connectIrq_spec h₁
      exact ⟨fun _ => hold, hafio, fun p m => by rw [hirq p m]; simp⟩
  obtain ⟨hold, hafio₁, hirq₁⟩ := hfirst
  refine ⟨fun m => ?_, rfl,
    by rw [hmod]; exact hnew, by rw [route, extiPort_line io index hi]; exact hold⟩
  have hport : extiPort io' m = extiPort io m := by rw [extiPort, hafio₂, hafio₁]; rfl
  have hroute : route io' m = ⟨fun p => (io'.gpio p).inIrq m, extiPort io m⟩ := by
    rw [← hport]; rfl
  rw [hroute]
  split_ifs with hm
  · subst hm
    simp only [hirq₂, hirq₁, Route.rewire, route, hmod, extiPort_line io index hi, true_and]
  · simp only [hirq₂, hirq₁, hm, false_and, if_false]
    rfl

/-- The lines of a register. -/
def linesOf (index : Fin 4) : List ℕ := (List.range EXTI_PER_CR).map (index * EXTI_PER_CR + ·)

/-- A register has each of its lines once. -/
theorem nodup_linesOf (index : Fin 4) : (linesOf index).Nodup :=
  List.nodup_range.map fun _ _ hab => Nat.add_left_cancel hab

/-- The lines of a register are four in a row. -/
theorem mem_linesOf {index : Fin 4} : n ∈ linesOf index ↔ n / 4 = index := by
  simp only [linesOf, List.mem_map, List.mem_range, EXTI_PER_CR]
  constructor
  · rintro ⟨i, hi, rfl⟩
    omega
  · intro hdiv
    exact ⟨n % 4, by omega, by omega⟩

/-- The loop, as a loop over the lines of its register. -/
theorem exticrLoop_eq (index : Fin 4) (newValue : BitVec 32) (init : Bool) (io : Io) :
    (List.range EXTI_PER_CR).foldlM (exticrLine index newValue init) io =
      (linesOf index).foldlM
        (fun io m => exticrLine index newValue init io (m - index * EXTI_PER_CR)) io := by
  rw [linesOf, List.foldlM_map]
  simp

/-- The body of the loop, for a line by its number. -/
theorem exticrLine_acts_of_mem {index : Fin 4} {newValue : BitVec 32} {init : Bool}
    (hn : n ∈ linesOf index)
    (h : exticrLine index newValue init io (n - index * EXTI_PER_CR) = .ok io') :
    ActsAt route (fun _ => ([] : List Unit)) (Route.rewire newValue init) (fun _ _ => [])
      (Route.Exists newValue init) n io io' := by
  obtain ⟨i, hi, rfl⟩ := List.mem_map.1 hn
  rw [Nat.add_sub_cancel_left] at h
  exact exticrLine_acts (List.mem_range.1 hi) h

/-- The loop rewires the lines of its register. -/
theorem exticrLoop_acts {index : Fin 4} {newValue : BitVec 32} {init : Bool}
    (h : (List.range EXTI_PER_CR).foldlM (exticrLine index newValue init) io = .ok io') :
    ActsOn route (fun _ => ([] : List Unit)) (Route.rewire newValue init) (fun _ _ => [])
      (Route.Exists newValue init) (linesOf index) io io' := by
  rw [exticrLoop_eq] at h
  exact actsOn_of_foldlM (nodup_linesOf index) (fun _ hm _ _ => exticrLine_acts_of_mem hm) h

/-- The register of a line, as an index. -/
theorem ofNat_eq_iff {index : Fin 4} (hn : n < 16) : Fin.ofNat 4 (n / 4) = index ↔
    n / 4 = index := by
  have hval : (Fin.ofNat 4 (n / 4)).val = n / 4 := Nat.mod_eq_of_lt (by omega)
  rw [Fin.ext_iff, hval]

/-- **A write to `EXTICR`** rewires the four lines of its register. -/
theorem exticrWrite_route {index : Fin 4} {newValue : BitVec 32} {init : Bool}
    (h : exticrWrite io index newValue init = .ok io') (hn : n < 16) : route io' n =
      if n / 4 = index then
        { (route io n).rewire newValue init n with port := nibble newValue (n % 4) }
      else route io n := by
  unfold exticrWrite at h
  obtain ⟨io₁, hloop, h⟩ := bind_eq_ok.1 h
  have hroute := (exticrLoop_acts hloop).view_eq n
  rw [← pure_eq_ok.1 h]
  by_cases hdiv : n / 4 = index
  · rw [if_pos (mem_linesOf.2 hdiv)] at hroute
    have hport :
        Function.update io₁.afio.EXTICR index newValue (Fin.ofNat 4 (n / 4)) = newValue := by
      rw [(ofNat_eq_iff hn).2 hdiv, Function.update_self]
    rw [if_pos hdiv, ← hroute, route, extiPort]
    dsimp only
    rw [hport]
    rfl
  · rw [if_neg (mt mem_linesOf.1 hdiv)] at hroute
    have hport : Function.update io₁.afio.EXTICR index newValue (Fin.ofNat 4 (n / 4)) =
        io₁.afio.EXTICR (Fin.ofNat 4 (n / 4)) :=
      Function.update_of_ne (mt (ofNat_eq_iff hn).1 hdiv) _ _
    rw [if_neg hdiv, ← hroute, route, extiPort]
    dsimp only
    rw [hport]
    rfl

/-- A write that returns names ports that exist. -/
theorem exticrWrite_nibble_lt {index : Fin 4} {newValue : BitVec 32} {init : Bool}
    (h : exticrWrite io index newValue init = .ok io') {i : ℕ} (hi : i < 4) :
    nibble newValue i < GPIO_COUNT := by
  obtain ⟨io₁, hloop, -⟩ := bind_eq_ok.1 h
  have hmem : index * EXTI_PER_CR + i ∈ linesOf index :=
    List.mem_map.2 ⟨i, List.mem_range.2 hi, rfl⟩
  have hexists := ((exticrLoop_acts hloop).cond _ hmem).1
  rwa [show (index * EXTI_PER_CR + i) % 4 = i by unfold EXTI_PER_CR; omega] at hexists

/-- Connecting a line to a port that exists returns. -/
theorem connectIrq_returns {i : ℕ} (hi : i < GPIO_COUNT) (irq : Option ℕ) :
    ∃ io', connectIrq io i n irq = .ok io' := by
  unfold connectIrq
  rw [dif_pos hi]
  exact ⟨_, rfl⟩

/-- **It returns** if the ports of its nibbles exist, the old ones and the new ones. -/
theorem exticrWrite_returns {index : Fin 4} {newValue : BitVec 32}
    (hold : ∀ n < 16, extiPort io n < GPIO_COUNT)
    (hnew : ∀ i < 4, nibble newValue i < GPIO_COUNT) :
    ∃ io', exticrWrite io index newValue false = .ok io' := by
  have hbody : ∀ m ∈ linesOf index, ∀ io : Io, (route io m).Exists newValue false m →
      ∃ io', exticrLine index newValue false io (m - index * EXTI_PER_CR) = .ok io' := by
    intro m hm io hex
    obtain ⟨i, hi, rfl⟩ := List.mem_map.1 hm
    rw [Nat.add_sub_cancel_left]
    have hport : nibble (io.afio.EXTICR index) i < GPIO_COUNT := by
      rw [← extiPort_line io index (List.mem_range.1 hi)]
      exact hex.2 rfl
    obtain ⟨io₁, h₁⟩ := connectIrq_returns hport none
    obtain ⟨io₂, h₂⟩ := connectIrq_returns (hnew i (List.mem_range.1 hi))
      (some (index * EXTI_PER_CR + i))
    exact ⟨io₂, bind_eq_ok.2 ⟨io₁, h₁, h₂⟩⟩
  have hloop :
      ∃ io', (List.range EXTI_PER_CR).foldlM (exticrLine index newValue false) io = .ok io' := by
    rw [exticrLoop_eq]
    refine exists_foldlM_of_cond (nodup_linesOf index) (fun _ hm _ _ => exticrLine_acts_of_mem hm)
      hbody fun m hm => ⟨hnew _ (Nat.mod_lt _ (by decide)), fun _ => hold m ?_⟩
    have hdiv := mem_linesOf.1 hm
    omega
  obtain ⟨io', h⟩ := hloop
  exact ⟨_, bind_eq_ok.2 ⟨io', h, rfl⟩⟩

/-- The EXTI controller and the inputs of the ports are the same. -/
structure SameInputs (io io' : Io) : Prop where
  exti : io'.exti = io.exti
  inputs : ∀ p, (io'.gpio p).inputs = (io.gpio p).inputs

/-- Two steps that keep the inputs keep them together. -/
theorem SameInputs.trans {io'' : Io} (h : SameInputs io io') (h' : SameInputs io' io'') :
    SameInputs io io'' :=
  ⟨h'.exti.trans h.exti, fun p => (h'.inputs p).trans (h.inputs p)⟩

/-- Connecting a line keeps the EXTI controller and the inputs. -/
theorem connectIrq_sameInputs {i : ℕ} {irq : Option ℕ} (h : connectIrq io i n irq = .ok io') :
    SameInputs io io' := by
  unfold connectIrq at h
  split_ifs at h with hi
  rw [← Except.ok.inj h]
  refine ⟨rfl, fun p => ?_⟩
  rcases eq_or_ne p ⟨i, hi⟩ with rfl | hp
  · dsimp only
    rw [Function.update_self]
  · dsimp only
    rw [Function.update_of_ne hp]

/-- So does the body of the loop. -/
theorem exticrLine_sameInputs {index : Fin 4} {newValue : BitVec 32} {init : Bool} {i : ℕ}
    (h : exticrLine index newValue init io i = .ok io') : SameInputs io io' := by
  unfold exticrLine at h
  obtain ⟨io₁, h₁, h₂⟩ := bind_eq_ok.1 h
  cases init with
  | true =>
    obtain rfl := pure_eq_ok.1 h₁
    exact connectIrq_sameInputs h₂
  | false => exact (connectIrq_sameInputs h₁).trans (connectIrq_sameInputs h₂)

/-- It changes nothing but the pointers and the register. -/
theorem exticrWrite_sameInputs {index : Fin 4} {newValue : BitVec 32} {init : Bool}
    (h : exticrWrite io index newValue init = .ok io') : SameInputs io io' := by
  unfold exticrWrite at h
  obtain ⟨io₁, hloop, h⟩ := bind_eq_ok.1 h
  have hsame : SameInputs io io₁ :=
    (Run.ok_iff_foldlM.2 hloop).invariant (P := SameInputs io)
      (fun _ _ _ hs hi => hs.trans (exticrLine_sameInputs hi)) ⟨rfl, fun _ => rfl⟩
  rw [← pure_eq_ok.1 h]
  exact ⟨hsame.exti, hsame.inputs⟩

/-- A write after the first reset keeps a line routed. -/
theorem Route.Ok.rewire {r : Route} (h : r.Ok n) (newValue : BitVec 32) :
    Route.Ok { r.rewire newValue false n with port := nibble newValue (n % 4) } n := by
  intro p
  simp only [Route.rewire, true_and]
  split_ifs with h₁ h₂
  · rfl
  · rfl
  · rw [h p, if_neg h₂]

/-- **A write of an `EXTICR` register keeps the routing invariant.** -/
theorem exticrWrite_routed {index : Fin 4} {newValue : BitVec 32} (h : Routed io)
    (hw : exticrWrite io index newValue false = .ok io') : Routed io' := by
  intro n hn
  rw [exticrWrite_route hw hn]
  split_ifs
  · exact (h n hn).rewire newValue
  · exact h n hn

/-- The check of the clock keeps the routes. -/
theorem route_checkPeriphClk (clkEnabled : Bool) (io : Io) (n : ℕ) :
    route (checkPeriphClk clkEnabled io) n = route io n := by
  cases clkEnabled <;> rfl

/-- A write that returns is one of `MAPR` or of an `EXTICR` register. -/
theorem write_cases {clkEnabled : Bool} {offset : ℕ} {value : BitVec 32}
    (h : write clkEnabled io offset value = .ok io') :
    io' = { checkPeriphClk clkEnabled io with
      afio := maprWrite (checkPeriphClk clkEnabled io).afio value } ∨
    ∃ index, exticrWrite (checkPeriphClk clkEnabled io) index value false = .ok io' := by
  unfold write at h
  dsimp only at h
  split at h
  · exact absurd h throw_ne_ok
  · exact Or.inl (pure_eq_ok.1 h).symm
  · exact Or.inr ⟨0, h⟩
  · exact Or.inr ⟨1, h⟩
  · exact Or.inr ⟨2, h⟩
  · exact Or.inr ⟨3, h⟩
  · exact absurd h throw_ne_ok

/-- A read only checks the clock. -/
theorem read_io {clkEnabled : Bool} {offset : ℕ} {value : BitVec 32}
    (h : read clkEnabled io offset = .ok (value, io')) : io' = checkPeriphClk clkEnabled io := by
  unfold read at h
  dsimp only at h
  split at h
  · exact absurd h throw_ne_ok
  · exact (Prod.mk.inj (pure_eq_ok.1 h)).2.symm
  · exact (Prod.mk.inj (pure_eq_ok.1 h)).2.symm
  · exact (Prod.mk.inj (pure_eq_ok.1 h)).2.symm
  · exact (Prod.mk.inj (pure_eq_ok.1 h)).2.symm
  · exact (Prod.mk.inj (pure_eq_ok.1 h)).2.symm
  · exact absurd h throw_ne_ok

/-- So does a write of any register of the AFIO. -/
theorem write_routed {clkEnabled : Bool} {offset : ℕ} {value : BitVec 32} (h : Routed io)
    (hw : write clkEnabled io offset value = .ok io') : Routed io' := by
  have h' : Routed (checkPeriphClk clkEnabled io) := fun n hn => by
    rw [route_checkPeriphClk]
    exact h n hn
  rcases write_cases hw with rfl | ⟨index, hw⟩
  · exact h'
  · exact exticrWrite_routed h' hw

/-- A write of the AFIO keeps the EXTI controller and the inputs. -/
theorem write_sameInputs {clkEnabled : Bool} {offset : ℕ} {value : BitVec 32}
    (hw : write clkEnabled io offset value = .ok io') : SameInputs io io' := by
  have h' : SameInputs io (checkPeriphClk clkEnabled io) := by
    cases clkEnabled <;> exact ⟨rfl, fun _ => rfl⟩
  rcases write_cases hw with rfl | ⟨index, hw⟩
  · exact h'.trans ⟨rfl, fun _ => rfl⟩
  · exact h'.trans (exticrWrite_sameInputs hw)

/-- **The reset** connects every line to port A, and disconnects none. -/
theorem reset_route (h : reset io = .ok io') (hn : n < 16) :
    route io' n = ⟨fun p => if p.val = 0 then some n else (route io n).inIrq p, 0⟩ := by
  have hzero : ∀ i, nibble 0#32 i = 0 := fun i => by rw [nibble, BitVec.zero_ushiftRight]; rfl
  unfold reset at h
  obtain ⟨io₁, h₀, h⟩ := bind_eq_ok.1 h
  obtain ⟨io₂, h₁, h⟩ := bind_eq_ok.1 h
  obtain ⟨io₃, h₂, h₃⟩ := bind_eq_ok.1 h
  have hdiv : n / 4 = 0 ∨ n / 4 = 1 ∨ n / 4 = 2 ∨ n / 4 = 3 := by omega
  -- the registers of the other lines leave this line alone
  rw [exticrWrite_route h₃ hn, exticrWrite_route h₂ hn, exticrWrite_route h₁ hn,
    exticrWrite_route h₀ hn]
  rcases hdiv with hd | hd | hd | hd <;> simp [hd, hzero, Route.rewire, route]

/-- So does its reset. -/
theorem reset_sameInputs (h : reset io = .ok io') : SameInputs io io' := by
  obtain ⟨io₁, h₁, h⟩ := bind_eq_ok.1 h
  obtain ⟨io₂, h₂, h⟩ := bind_eq_ok.1 h
  obtain ⟨io₃, h₃, h⟩ := bind_eq_ok.1 h
  have hmapr : SameInputs io { io with afio := maprWrite io.afio 0#32 } := ⟨rfl, fun _ => rfl⟩
  exact (((hmapr.trans (exticrWrite_sameInputs h₁)).trans (exticrWrite_sameInputs h₂)).trans
    (exticrWrite_sameInputs h₃)).trans (exticrWrite_sameInputs h)

/-- After a reset every line is on port A. -/
theorem reset_extiPort (h : reset io = .ok io') (hn : n < 16) : extiPort io' n = 0 :=
  congrArg Route.port (reset_route h hn)

/-- **The lines are routed after a reset** exactly if every other port was connected to
none of them. -/
theorem reset_routed_iff (h : reset io = .ok io') :
    Routed io' ↔ ∀ n < 16, ∀ p : Fin GPIO_COUNT, p.val ≠ 0 →
    (io.gpio p).inIrq n = none := by
  constructor
  · intro hr n hn p hp
    have hirq := hr n hn p
    rw [reset_route h hn] at hirq
    simpa [hp, route] using hirq
  · intro hfree n hn p
    rw [reset_route h hn]
    dsimp only
    split_ifs with hp
    · rfl
    · exact hfree n hn p hp

/-- The reset of an AFIO whose ports are connected to nothing. -/
theorem reset_routed (hfree : ∀ n p, (io.gpio p).inIrq n = none) (h : reset io = .ok io') :
    Routed io' :=
  (reset_routed_iff h).2 fun n _ p _ => hfree n p

end Afio
end Especial
