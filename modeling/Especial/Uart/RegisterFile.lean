/-
# The register file of a USART

What software configures is everything but the data, the status and the outputs of a USART
(`Stm32Uart.config`), and the events of the line leave it alone.  Of it, `BRR`, `CR1`, `CR2`
and `CR3` with the six flags that are decoded from `CR1` are the register file.  A write puts
the new bytes over the old ones (`deposit64`), masks the result and stores it.
-/

import Especial.Uart.Effects

namespace Especial
namespace Uart

open Qemu Stm32 Lib

variable {env : Env} {s s' : Stm32Uart} {v : BitVec 32}

/-! ### What software configures -/

/-- The configuration: a state without its data, its status and its outputs. -/
def Stm32Uart.config (s : Stm32Uart) : Stm32Uart :=
  { s with
    RDR := 0#32
    TDR := 0#32
    TXE := false
    TC := false
    RXNE := false
    ORE := false
    srReadSinceOreSet := false
    receiving := false
    rxTimer := none
    txTimer := none
    chr := none
    irq := false
    currIrqLevel := false
    warnings := []
    events := [] }

/-- The interrupt is no configuration. -/
@[simp] theorem updateIrq_config (s : Stm32Uart) : (updateIrq s).config = s.config := by
  rw [updateIrq_eq]
  rfl

/-- A character that comes in keeps the configuration. -/
theorem receive_config (env : Env) (s : Stm32Uart) (ch : BitVec 8) :
    (receive env s ch).config = s.config := by
  have hirq := updateIrq_config
  unfold receive
  split_ifs
  · exact (hirq _).trans (hirq _)
  · exact hirq _
  · rfl

/-- So does one that has been sent. -/
theorem txComplete_config (env : Env) (s : Stm32Uart) : (txComplete env s).config = s.config := by
  unfold txComplete
  split_ifs
  · exact updateIrq_config _
  · exact updateIrq_config { s with TXE := true }

/-- So does one that is written. -/
theorem drWrite_config (h : drWrite env s v = .ok s') : s'.config = s.config := by
  rcases drWrite_frame h with ⟨-, rfl⟩ | ⟨-, -, rfl⟩
  · exact updateIrq_config _
  · exact updateIrq_config _

/-- **A read keeps the configuration.** -/
theorem read_config {offset size : ℕ} {value : BitVec 64}
    (h : read s offset size = .ok (value, s')) : s'.config = s.config := by
  unfold read at h
  dsimp only at h
  split at h
  · obtain ⟨-, rfl⟩ := Prod.mk.inj (pure_eq_ok.1 h)
    obtain ⟨b, hb⟩ := srRead_frame s
    rw [hb]
    rfl
  · split_ifs at h
    · obtain ⟨-, rfl⟩ := Prod.mk.inj (pure_eq_ok.1 h)
      rfl
    · obtain ⟨⟨_, s₁⟩, hd, h⟩ := bind_eq_ok.1 h
      obtain ⟨-, rfl⟩ := Prod.mk.inj (pure_eq_ok.1 h)
      obtain ⟨ore, -, -, -, -, rfl⟩ := drRead_frame hd
      exact updateIrq_config _
  all_goals first
    | (obtain ⟨-, rfl⟩ := Prod.mk.inj (pure_eq_ok.1 h); rfl)
    | exact absurd h throw_ne_ok

/-! ### The registers -/

/-- The control registers. -/
inductive Ctrl
  | BRR
  | CR1
  | CR2
  | CR3
  deriving DecidableEq, Repr

/-- The offset of a control register. -/
def Ctrl.offset : Ctrl → ℕ
  | BRR => 0x08
  | CR1 => 0x0c
  | CR2 => 0x10
  | CR3 => 0x14

/-- The bits that are implemented. -/
def Ctrl.mask : Ctrl → BitVec 32
  | BRR => 0xffff#32
  | CR1 => 0x3fff#32
  | CR2 => 0x7f7f#32
  | CR3 => 0x7ff#32

/-- The stored value. -/
def Stm32Uart.ctrl (s : Stm32Uart) : Ctrl → BitVec 32
  | .BRR => s.BRR
  | .CR1 => s.CR1
  | .CR2 => s.CR2
  | .CR3 => s.CR3

/-- The four functions that write them. -/
def ctrlWrite (env : Env) (s : Stm32Uart) (r : Ctrl) (newValue : BitVec 32) :
    Except Fault Stm32Uart :=
  match r with
  | .BRR => brrWrite env s newValue
  | .CR1 => cr1Write env s newValue
  | .CR2 => return cr2Write s newValue
  | .CR3 => return cr3Write s newValue

/-- The check of the clock keeps the control registers. -/
theorem checkPeriphClk_ctrl (env : Env) (s : Stm32Uart) (r : Ctrl) :
    (checkPeriphClk env s).ctrl r = s.ctrl r := by
  obtain ⟨w, hw⟩ := checkPeriphClk_frame env s
  rw [hw]
  cases r <;> rfl

/-- **A write at the offset of a control register.** -/
theorem write_ctrl_eq {r : Ctrl} {offset size : ℕ} {value : BitVec 64}
    (ho : offset / 4 * 4 = r.offset) (hport : s.periph ≠ .uart5) : write env s offset value size =
      ctrlWrite env (checkPeriphClk env s) r (merge (s.ctrl r) offset value size) := by
  rw [← checkPeriphClk_ctrl env s r]
  unfold write
  rw [if_neg hport, ho]
  cases r <;> rfl

/-- **A write to the data register.** -/
theorem write_dr_eq {offset size : ℕ} {value : BitVec 64} (ho : offset / 4 * 4 = 0x04)
    (hport : s.periph ≠ .uart5) : write env s offset value size =
      drWrite env (checkPeriphClk env s) (merge 0#32 offset value size) := by
  unfold write
  rw [if_neg hport, ho]
  rfl

/-- A write at any other offset leaves the configuration. -/
theorem write_config {offset size : ℕ} {value : BitVec 64}
    (h : write env s offset value size = .ok s')
    (hport : s.periph ≠ .uart5) (ho : ∀ r : Ctrl, offset / 4 * 4 ≠ r.offset) :
    s'.config = s.config := by
  unfold write at h
  rw [if_neg hport] at h
  obtain ⟨w, hw⟩ := checkPeriphClk_frame env s
  rw [hw] at h
  dsimp only at h
  split at h
  case h_1 =>
    obtain ⟨b, hb⟩ := srRead_frame { s with warnings := w }
    rw [hb] at h
    rw [srWrite_frame h, updateIrq_config]
    rfl
  case h_2 =>
    have hdr := drWrite_config h
    exact hdr
  case h_3 hreg => exact absurd hreg (ho .BRR)
  case h_4 hreg => exact absurd hreg (ho .CR1)
  case h_5 hreg => exact absurd hreg (ho .CR2)
  case h_6 hreg => exact absurd hreg (ho .CR3)
  all_goals exact absurd h throw_ne_ok

/-- **A read at the offset of a control register.** -/
theorem read_ctrl_eq {r : Ctrl} {offset size : ℕ} (ho : offset / 4 * 4 = r.offset) :
    read s offset size =
      .ok (extract64 ((s.ctrl r).setWidth 64) (offset % 4 * 8) (size * 8), s) := by
  unfold read
  dsimp only
  rw [ho]
  cases r <;> rfl

/-- A bit after a write of some bytes. -/
theorem getLsbD_merge {i size : ℕ} (hi : i < 32) (hsize : size * 8 ≤ 64) (old : BitVec 32)
    (offset : ℕ) (value : BitVec 64) : (merge old offset value size).getLsbD i =
      if offset % 4 * 8 ≤ i ∧ i < offset % 4 * 8 + size * 8 then
        value.getLsbD (i - offset % 4 * 8)
      else old.getLsbD i := by
  have h64 : i < 64 := by omega
  rw [merge, BitVec.getLsbD_setWidth, deposit64, getLsbD_depositField hsize _ _ _ _ h64,
    BitVec.getLsbD_setWidth, decide_eq_true hi, decide_eq_true h64, Bool.true_and, Bool.true_and]

/-! ### The register file -/

/-- The control registers, and the flags that are decoded from `CR1`. -/
structure File where
  reg : Ctrl → BitVec 32
  UE : Bool
  TXEIE : Bool
  TCIE : Bool
  RXNEIE : Bool
  TE : Bool
  RE : Bool

/-- The register file of a USART. -/
def Stm32Uart.file (s : Stm32Uart) : File :=
  ⟨s.ctrl, s.UE, s.TXEIE, s.TCIE, s.RXNEIE, s.TE, s.RE⟩

/-- The flags are the bits of `CR1`. -/
structure Decoded (s : Stm32Uart) : Prop where
  UE : s.UE = s.CR1.getLsbD 13
  TXEIE : s.TXEIE = s.CR1.getLsbD 7
  TCIE : s.TCIE = s.CR1.getLsbD 6
  RXNEIE : s.RXNEIE = s.CR1.getLsbD 5
  TE : s.TE = s.CR1.getLsbD 3
  RE : s.RE = s.CR1.getLsbD 2

/-- A register file by its registers, with the flags decoded. -/
def File.ofRegs (reg : Ctrl → BitVec 32) : File where
  reg := reg
  UE := (reg .CR1).getLsbD 13
  TXEIE := (reg .CR1).getLsbD 7
  TCIE := (reg .CR1).getLsbD 6
  RXNEIE := (reg .CR1).getLsbD 5
  TE := (reg .CR1).getLsbD 3
  RE := (reg .CR1).getLsbD 2

/-- With its flags decoded the register file is given by its registers. -/
theorem Decoded.file_eq (h : Decoded s) : s.file = .ofRegs s.ctrl := by
  unfold Stm32Uart.file
  rw [h.UE, h.TXEIE, h.TCIE, h.RXNEIE, h.TE, h.RE]
  rfl

/-- The registers and the flags of such a file. -/
theorem of_file_eq {reg : Ctrl → BitVec 32} (h : s.file = .ofRegs reg) :
    s.ctrl = reg ∧ Decoded s := by
  obtain rfl : s.ctrl = reg := congrArg File.reg h
  exact ⟨rfl, congrArg File.UE h, congrArg File.TXEIE h, congrArg File.TCIE h,
    congrArg File.RXNEIE h, congrArg File.TE h, congrArg File.RE h⟩

/-- The register file is part of the configuration. -/
theorem file_of_config (h : s'.config = s.config) : s'.file = s.file := by
  have hfile : s'.config.file = s.config.file := by rw [h]
  exact hfile

/-- The registers after a write. -/
def setReg (reg : Ctrl → BitVec 32) (r : Ctrl) (v : BitVec 32) : Ctrl → BitVec 32 :=
  Function.update reg r (v &&& r.mask)

/-- The fourteen bits of `CR1`. -/
theorem getLsbD_and_3fff (v : BitVec 32) {i : ℕ} (hi : i < 14) :
    (v &&& 0x3fff#32).getLsbD i = v.getLsbD i := by
  have hmask : ∀ i < 14, (0x3fff#32).getLsbD i = true := by decide
  rw [BitVec.getLsbD_and, hmask i hi, Bool.and_true]

/-- **A write of a control register** stores the bits that are implemented, and decodes. -/
theorem ctrlWrite_file {r : Ctrl} (hdec : Decoded s) (h : ctrlWrite env s r v = .ok s') :
    s'.file = .ofRegs (setReg s.ctrl r v) := by
  cases r with
  | BRR =>
    obtain ⟨bps, ns, rfl⟩ := baudUpdate_frame (s := { s with BRR := v &&& 0xffff#32 }) h
    have hdec' : Decoded { s with BRR := v &&& 0xffff#32, bitsPerSec := bps, nsPerChar := ns } := by
      obtain ⟨h₁, h₂, h₃, h₄, h₅, h₆⟩ := hdec
      exact ⟨h₁, h₂, h₃, h₄, h₅, h₆⟩
    rw [hdec'.file_eq]
    congr 1
    funext r
    cases r <;> rfl
  | CR1 =>
    rw [cr1Write_frame h, file_of_config (updateIrq_config _)]
    have hdec' : Decoded { s with
        UE := v.getLsbD 13, TXEIE := v.getLsbD 7, TCIE := v.getLsbD 6, RXNEIE := v.getLsbD 5
        TE := v.getLsbD 3, RE := v.getLsbD 2, CR1 := v &&& 0x3fff#32 } := by
      constructor <;> exact (getLsbD_and_3fff v (by decide)).symm
    rw [hdec'.file_eq]
    congr 1
    funext r
    cases r <;> rfl
  | CR2 =>
    obtain rfl := pure_eq_ok.1 h
    have hdec' : Decoded (cr2Write s v) := by
      obtain ⟨h₁, h₂, h₃, h₄, h₅, h₆⟩ := hdec
      exact ⟨h₁, h₂, h₃, h₄, h₅, h₆⟩
    rw [hdec'.file_eq]
    congr 1
    funext r
    cases r <;> rfl
  | CR3 =>
    obtain rfl := pure_eq_ok.1 h
    have hdec' : Decoded (cr3Write s v) := by
      obtain ⟨h₁, h₂, h₃, h₄, h₅, h₆⟩ := hdec
      exact ⟨h₁, h₂, h₃, h₄, h₅, h₆⟩
    rw [hdec'.file_eq]
    congr 1
    funext r
    cases r <;> rfl

end Uart
end Especial
