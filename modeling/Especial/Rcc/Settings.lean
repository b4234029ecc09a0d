/-
# The calls on the clock tree that a write makes

Which settings a write to a register changes, and in which order, depends on the register
and the value only; the copies of the registers and the warnings are the only part that
looks at the device.  So a sequence of writes is a sequence of calls on the clock tree
(`run_settings`).
-/

import Especial.Rcc.Writes
import Especial.Clktree.Trace

namespace Especial
namespace Rcc

open Qemu Stm32 Clktree Lib

/-! ### The calls -/

/-- The calls of `stm32_rcc_RCC_CR_write`. -/
def crSettings (v : BitVec 32) : List Setting :=
  [.enabled PLLCLK (v.getLsbD 24), .enabled HSECLK (v.getLsbD 16), .enabled HSICLK (v.getLsbD 0)]

/-- The calls of `stm32_rcc_RCC_CFGR_write`. -/
def cfgrSettings (v : BitVec 32) : List Setting :=
  [.scale PLLCLK ((pllMultiplier (extract32 v 18 4)).setWidth 16) 1#16,
    .selectedInput PLLXTPRECLK (extract32 v 17 1).toNat,
    .selectedInput PLLCLK (extract32 v 16 1).toNat,
    .scale PCLK2 1#16 ((apbDivisor ((v &&& 0x3c00#32) >>> 11)).setWidth 16),
    .scale PCLK1 1#16 ((apbDivisor ((v &&& 0x700#32) >>> 8)).setWidth 16),
    .scale HCLK 1#16 ((ahbDivisor ((v &&& 0xf0#32) >>> 4)).setWidth 16),
    .selectedInput SYSCLK ((v &&& 0x3#32) >>> 0).toNat]

/-- The calls of `stm32_rcc_periph_enable`, for a list of peripherals with their bits. -/
def periphSettings (v : BitVec 32) (l : List (Periph × ℕ)) : List Setting :=
  l.map fun pb => .enabled (PERIPHCLK pb.1) (v.getLsbD pb.2)

/-- The calls of `stm32_rcc_writew`. -/
def writeSettings (offset : ℕ) (v : BitVec 32) : List Setting :=
  match offset with
  | 0x00 => crSettings v
  | 0x04 => cfgrSettings v
  | 0x0c | 0x18 => periphSettings v apb2Bits
  | 0x10 | 0x1c => periphSettings v apb1Bits
  | 0x20 => [.enabled LSECLK (v.getLsbD 0)]
  | 0x24 => [.enabled LSICLK (v.getLsbD 0)]
  | _ => []

/-- The calls of `stm32_rcc_reset`. -/
def resetSettings : List Setting :=
  crSettings 0x83#32 ++ cfgrSettings 0#32 ++ periphSettings 0#32 apb2Bits ++
    periphSettings 0#32 apb1Bits ++ [.enabled LSECLK false, .enabled LSICLK false]

/-- The calls of an event. -/
def Event.settings : Event → List Setting
  | .write offset v => writeSettings offset v
  | .reset => resetSettings

/-! ### What a write does is what its calls do -/

/-- The calls lead from the clocks of one state to those of the other. -/
def Does (xs : List Setting) (s s' : Stm32Rcc) : Prop :=
  xs.foldlM (fun t x => t.exec x.op) s.tree = .ok s'.tree

variable {s s₁ s' : Stm32Rcc} {v : BitVec 32} {xs ys : List Setting}

/-- No call. -/
theorem Does.nil : Does [] s s := rfl

/-- Calls after calls. -/
theorem Does.append (h : Does xs s s₁) (h' : Does ys s₁ s') : Does (xs ++ ys) s s' := by
  unfold Does
  rw [List.foldlM_append, h]
  exact h'

/-- A warning changes no clock. -/
@[simp] theorem tree_warnIf (s : Stm32Rcc) (cond : Bool) (text : String) :
    (s.warnIf cond text).tree = s.tree := by
  unfold Stm32Rcc.warnIf
  split_ifs <;> rfl

/-- The calls of what comes after a warning. -/
theorem Does.of_warnIf {cond : Bool} {text : String} (h : Does xs (s.warnIf cond text) s') :
    Does xs s s' := by
  unfold Does at h
  rwa [tree_warnIf] at h

/-- One call, through the wrapper that keeps the rest of the device. -/
theorem does_of_exec {x : Setting}
    (h : (s.tree.exec x.op >>= fun t => pure { s with tree := t }) = .ok s') : Does [x] s s' := by
  obtain ⟨t, ht, h⟩ := bind_eq_ok.1 h
  obtain rfl := pure_eq_ok.1 h
  unfold Does
  rw [List.foldlM_cons, ht]
  rfl

/-- The call of `clktree_set_enabled`. -/
theorem setEnabled_does {i : ℕ} {on : Bool} (h : s.setEnabled i on = .ok s') :
    Does [.enabled i on] s s' := does_of_exec h

/-- The call of `clktree_set_scale`. -/
theorem setScale_does {i : ℕ} {m d : BitVec 32} (h : s.setScale i m d = .ok s') :
    Does [.scale i (m.setWidth 16) (d.setWidth 16)] s s' := does_of_exec h

/-- The call of `clktree_set_selected_input`. -/
theorem setSelectedInput_does {i : ℕ} {sel : BitVec 32} (h : s.setSelectedInput i sel = .ok s') :
    Does [.selectedInput i sel.toNat] s s' := does_of_exec h

/-- The calls of a write to `CR`. -/
theorem crWrite_does (h : crWrite s v = .ok s') : Does (crSettings v) s s' := by
  unfold crWrite at h
  obtain ⟨s₁, h₁, h⟩ := bind_eq_ok.1 h
  obtain ⟨s₂, h₂, h₃⟩ := bind_eq_ok.1 h
  have hd₁ := (setEnabled_does h₁).of_warnIf
  have hd₂ := (setEnabled_does h₂).of_warnIf
  have hd₃ := (setEnabled_does h₃).of_warnIf
  exact hd₁.append (hd₂.append hd₃)

/-- The call of the `PLLMUL` part of a write to `CFGR`. -/
theorem pllmulWrite_does {init : Bool} (h : pllmulWrite s v init = .ok s') :
    Does [.scale PLLCLK ((pllMultiplier v).setWidth 16) 1#16] s s' := by
  unfold pllmulWrite at h
  obtain ⟨_, -, h⟩ := bind_eq_ok.1 h
  obtain ⟨s₁, h₁, h⟩ := bind_eq_ok.1 h
  obtain rfl := pure_eq_ok.1 h
  exact (setScale_does h₁).of_warnIf

/-- The call of its `PLLXTPRE` part. -/
theorem pllxtpreWrite_does {init : Bool} (h : pllxtpreWrite s v init = .ok s') :
    Does [.selectedInput PLLXTPRECLK v.toNat] s s' := by
  unfold pllxtpreWrite at h
  obtain ⟨s₁, h₁, h⟩ := bind_eq_ok.1 h
  obtain rfl := pure_eq_ok.1 h
  exact (setSelectedInput_does h₁).of_warnIf

/-- The call of its `PLLSRC` part. -/
theorem pllsrcWrite_does {init : Bool} (h : pllsrcWrite s v init = .ok s') :
    Does [.selectedInput PLLCLK v.toNat] s s' := by
  unfold pllsrcWrite at h
  obtain ⟨s₁, h₁, h⟩ := bind_eq_ok.1 h
  obtain rfl := pure_eq_ok.1 h
  exact (setSelectedInput_does h₁).of_warnIf

/-- The call of its `SW` part. -/
theorem swWrite_does (h : swWrite s v = .ok s') : Does [.selectedInput SYSCLK v.toNat] s s' := by
  unfold swWrite at h
  dsimp only at h
  split_ifs at h
  have hd := setSelectedInput_does h
  exact hd

/-- The calls of a write to `CFGR`. -/
theorem cfgrWrite_does {init : Bool} (h : cfgrWrite s v init = .ok s') :
    Does (cfgrSettings v) s s' := by
  unfold cfgrWrite at h
  obtain ⟨s₁, h₁, h⟩ := bind_eq_ok.1 h
  obtain ⟨s₂, h₂, h⟩ := bind_eq_ok.1 h
  obtain ⟨s₃, h₃, h⟩ := bind_eq_ok.1 h
  obtain ⟨s₄, h₄, h⟩ := bind_eq_ok.1 h
  obtain ⟨s₅, h₅, h⟩ := bind_eq_ok.1 h
  obtain ⟨s₆, h₆, h₇⟩ := bind_eq_ok.1 h
  have hpll :=
    (pllmulWrite_does h₁).append ((pllxtpreWrite_does h₂).append (pllsrcWrite_does h₃))
  have hd₄ := setScale_does h₄
  have hd₅ := setScale_does h₅
  have hd₆ := setScale_does h₆
  exact hpll.append (Does.append hd₄ (Does.append hd₅ (Does.append hd₆ (swWrite_does h₇))))

/-- The calls for the peripherals of a bus. -/
theorem periphEnable_does {l : List (Periph × ℕ)} (h : periphEnable s v l = .ok s') :
    Does (periphSettings v l) s s' := by
  induction l generalizing s with
  | nil =>
    obtain rfl := pure_eq_ok.1 h
    exact .nil
  | cons pb l ih =>
    unfold periphEnable at h
    rw [List.foldlM_cons] at h
    obtain ⟨s₁, h₁, h⟩ := bind_eq_ok.1 h
    exact (setEnabled_does h₁).append (ih h)

/-- The four peripheral registers: the gates, and then a copy of the value. -/
theorem periphEnable_then_does {l : List (Periph × ℕ)} {f : Stm32Rcc → Stm32Rcc}
    (h : (periphEnable s v l >>= fun s => pure (f s)) = .ok s') (hf : ∀ s, (f s).tree = s.tree) :
    Does (periphSettings v l) s s' := by
  obtain ⟨s₁, h₁, h⟩ := bind_eq_ok.1 h
  unfold Does
  rw [← pure_eq_ok.1 h, hf]
  exact periphEnable_does h₁

/-- **The calls of a write** to any register. -/
theorem writew_does {offset : ℕ} (h : writew s offset v = .ok s') :
    Does (writeSettings offset v) s s' := by
  unfold writew at h
  split at h
  · exact crWrite_does h
  · exact cfgrWrite_does h
  · obtain rfl := pure_eq_ok.1 h
    exact .nil
  · exact periphEnable_then_does h fun _ => rfl
  · exact periphEnable_then_does h fun _ => rfl
  · exact absurd h throw_ne_ok
  · exact periphEnable_then_does h fun _ => rfl
  · exact periphEnable_then_does h fun _ => rfl
  · exact setEnabled_does h
  · exact setEnabled_does h
  all_goals exact absurd h throw_ne_ok

/-- The calls of a reset. -/
theorem reset_does (h : reset s = .ok s') : Does resetSettings s s' := by
  unfold reset at h
  obtain ⟨s₁, h₁, h⟩ := bind_eq_ok.1 h
  obtain ⟨s₂, h₂, h⟩ := bind_eq_ok.1 h
  obtain ⟨s₃, h₃, h⟩ := bind_eq_ok.1 h
  obtain ⟨s₄, h₄, h⟩ := bind_eq_ok.1 h
  obtain ⟨s₅, h₅, h₆⟩ := bind_eq_ok.1 h
  have hd₃ : Does (periphSettings 0#32 apb2Bits) s₂ s₃ :=
    periphEnable_then_does h₃ fun _ => rfl
  have hd₄ : Does (periphSettings 0#32 apb1Bits) s₃ s₄ :=
    periphEnable_then_does h₄ fun _ => rfl
  have hd₅ : Does [.enabled LSECLK false] s₄ s₅ := setEnabled_does h₅
  have hd₆ : Does [.enabled LSICLK false] s₅ s' := setEnabled_does h₆
  exact ((((crWrite_does h₁).append (cfgrWrite_does h₂)).append hd₃).append hd₄).append
    (hd₅.append hd₆)

/-- **An event is a sequence of calls.** -/
theorem step_does {e : Event} (h : Step s e s') : Does e.settings s s' := by
  cases e with
  | write offset v => exact writew_does h
  | reset => exact reset_does h

/-- **So is a run.** -/
theorem run_settings {l : List Event} (h : Run Step s l s') :
    Does (l.flatMap Event.settings) s s' := by
  induction l generalizing s with
  | nil =>
    obtain rfl := Run.nil_iff.1 h
    exact .nil
  | cons e l ih =>
    obtain ⟨s₁, h₁, h⟩ := Run.cons_iff.1 h
    exact (step_does h₁).append (ih h)

end Rcc
end Especial
