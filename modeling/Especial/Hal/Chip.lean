/-
# The chip, and the start-up of its clocks

The chip has the RCC with its UARTs (`Especial.Soc`) and the ports with the AFIO.  An access
to the RCC also runs the handlers of the clocks, which change the rates of the UARTs and
nothing else of them (`unrated`).  `SystemInit` needs nothing of the RCC but what `Described`
says, so it does on the chip what it does on the RCC alone.

`SPI1->CR2`, which `init_usart2` also writes, is not emulated.
-/

import Especial.Hal.Mcu
import Especial.Hal.UsartInit
import Especial.Rcc.SystemInit
import Especial.Soc.Bounds
import Especial.Soc.Mapping

namespace Especial
namespace Hal
namespace Rs232

open Qemu Stm32 Clktree Lib Gpio Afio Rcc Uart Soc

/-! ### The firmware -/

/-- The devices that the firmware uses. -/
structure Chip where
  soc : Soc.Machine
  io : Io

/-- What a UART sees of the chip; the rest is the time. -/
def Chip.env (s : Chip) (env : Env) (n : UartNumber) : Env :=
  s.soc.env ((Soc.Mapping.Machine.mk s.io s.soc.uart).env env) n

/-- The registers of the RCC, with the handlers behind them. -/
def rccOf (env : Env) : Registers Chip where
  read s offset := readw s.soc.rcc offset
  write s offset value := do
    let soc ← Soc.step env s.soc (.rcc (.write offset value))
    return { s with soc := soc }

/-- `RCC_APB1PeriphClockCmd` and `RCC_APB2PeriphClockCmd`. -/
def periphClockCmd (env : Env) (s : Chip) (bus : Bus) (periph : BitVec 32)
    (newState : FunctionalState) : Except Fault Chip :=
  modifyReg (rccOf env) s bus.offset fun old => newEnr old periph newState

/-- `GPIO_Init`. -/
def Chip.gpioInit (s : Chip) (port : Fin GPIO_COUNT) (init : GPIOInitTypeDef) :
    Except Fault Chip := do
  let ports ← Hal.gpioInit ⟨s.soc.rcc, s.io.gpio⟩ port init
  return { s with io := { s.io with gpio := ports.gpio } }

/-- A function of the library, on a USART of the chip. -/
def Chip.usart (s : Chip) (env : Env) (n : UartNumber)
    (f : Env → Stm32Uart → Except Fault Stm32Uart) : Except Fault Chip := do
  let u ← f (s.env env n) (s.soc.uart n)
  return { s with soc := { s.soc with uart := Function.update s.soc.uart n u } }

/-- The configuration of `init_usart2`. -/
def usart2Init : USARTInitTypeDef :=
  { USARTInitTypeDef.default with
    baudRate := 115200
    wordLength := .b8
    stopBits := .one
    parity := .no
    hardwareFlowControl := .none
    mode := .tx }

/-- `init_usart2`. -/
def initUsart2 (env : Env) (s : Chip) : Except Fault Chip := do
  let s ← periphClockCmd env s .apb2 (portsRcc portA ||| apb2PeriphAfio) .ENABLE
  let s ← periphClockCmd env s .apb1 0x20000#32 .ENABLE
  let s ← s.gpioInit portA { pin := 0x0008#16, mode := .IN_FLOATING, speed := .speed50MHz }
  let s ← s.gpioInit portA { pin := 0x0004#16, mode := .AF_PP, speed := .speed50MHz }
  let s ← s.usart env .two fun env u =>
    usartClockInit env u { clock := 0#16, cpol := 0#16, cpha := 0x0200#16, lastBit := 0#16 }
  let clocks := getClocksFreq (cfgrRead s.soc.rcc)
  let s ← s.usart env .two fun env u => usartInit env clocks u usart2Init
  s.usart env .two fun env u => usartCmd env u .ENABLE

/-- `_start` calls `SystemInit`, and the firmware `init_usart2`. -/
def boot (env : Env) (n : ℕ) (s : Chip) : ExceptT Fault Option Chip := do
  let s ← systemInit (rccOf env) n s
  initUsart2 env s

/-! ### The handlers of the clocks -/

/-- A UART without its rate. -/
def unrated (u : Stm32Uart) : Stm32Uart := { u with bitsPerSec := 0#32, nsPerChar := 0#64 }

/-- The UARTs are the same but for their rates. -/
def SameUarts (m m' : Soc.Machine) : Prop := ∀ n, unrated (m'.uart n) = unrated (m.uart n)

section Handlers

variable {env : Env} {m m' m'' : Soc.Machine}

/-- Two steps that keep the UARTs but for their rates. -/
theorem SameUarts.trans (h : SameUarts m m') (h' : SameUarts m' m'') : SameUarts m m'' :=
  fun n => (h' n).trans (h n)

/-- A field that is not the rate. -/
theorem SameUarts.field {α : Type} (h : SameUarts m m') (f : Stm32Uart → α)
    (hf : ∀ u, f (unrated u) = f u) (n : UartNumber) : f (m'.uart n) = f (m.uart n) := by
  rw [← hf, h n, hf]

/-- A notification of the clock tree changes the rate of a UART, and no register of the RCC. -/
theorem deliver_sameUarts {e : Clktree.Event} (h : deliver env m e = .ok m') :
    m'.rcc = m.rcc ∧ SameUarts m m' := by
  cases e with
  | exceedsMax name freq max =>
    obtain rfl := pure_eq_ok.1 h
    exact ⟨rfl, fun _ => rfl⟩
  | setIrq user clks =>
    unfold deliver at h
    dsimp only at h
    split_ifs at h
    · obtain ⟨-, hrcc, huart⟩ := hclkUpdIrqHandler_spec h
      exact ⟨hrcc, fun n => by rw [huart]⟩
    · split at h
      case h_1 n _ =>
        obtain ⟨u, hu, h⟩ := bind_eq_ok.1 h
        obtain rfl := pure_eq_ok.1 h
        obtain ⟨_, _, rfl⟩ := baudUpdate_frame (show baudUpdate _ (m.uart n) = .ok u from hu)
        refine ⟨rfl, fun k => ?_⟩
        dsimp only
        rcases eq_or_ne k n with rfl | hk
        · rw [Function.update_self]
          rfl
        · rw [Function.update_of_ne hk]
      case h_2 =>
        obtain rfl := pure_eq_ok.1 h
        exact ⟨rfl, fun _ => rfl⟩

/-- **An access to the RCC** changes no more of a UART than its rate. -/
theorem rcc_sameUarts {e : Rcc.Event} (h : Soc.step env m (.rcc e) = .ok m') :
    Rcc.Step m.rcc e m'.rcc ∧ SameUarts m m' := by
  obtain ⟨rcc, hrcc, h⟩ := bind_eq_ok.1 h
  obtain ⟨hsame, huarts⟩ : m'.rcc = rcc ∧ SameUarts m m' :=
    foldlM_invariant (f := deliver env) (a := { m with rcc := rcc })
      (P := fun t => t.rcc = rcc ∧ SameUarts m t)
      (fun _ _ _ _ hs hd =>
        ⟨(deliver_sameUarts hd).1.trans hs.1, hs.2.trans (deliver_sameUarts hd).2⟩)
      ⟨rfl, fun _ => rfl⟩ h
  exact ⟨hsame ▸ hrcc, huarts⟩

end Handlers

/-! ### Where the firmware may start -/

/-- The wiring of a USART does not change. -/
theorem effect_board {u u' : Stm32Uart} {a : Uart.Access} (h : Uart.Effect u a u') :
    u'.afioBoardMap = u.afioBoardMap := by
  have hsame : ∀ {t : Stm32Uart}, Same u' t → u'.afioBoardMap = t.afioBoardMap := fun h =>
    h.field Stm32Uart.afioBoardMap fun _ => rfl
  have hirq : ∀ t : Stm32Uart, (updateIrq t).afioBoardMap = t.afioBoardMap :=
    fun t => by rw [updateIrq_eq]
  cases h with
  | other h | ignored _ _ _ h | rxTimer h => exact (hsame h :)
  | readDR _ _ _ _ _ h | writeSR h | startDR _ _ _ h | holdDR _ _ _ h | writeCR1 _ _ _ _ _ _ h
  | received _ _ _ _ h | txFinish _ h | reset h => exact (hsame h).trans (hirq _)
  | txShift d _ h => exact (hsame h).trans (hirq { u with TXE := true })

/-- What holds of the RCC and the UARTs since they were made. -/
structure Started (board : UartNumber → BitVec 32) (m : Soc.Machine) : Prop where
  has : ∃ c r, Has c r m.rcc ∧ FieldsOk r
  safe : boardRanges.Safe m.rcc.tree
  inv : Soc.Inv m
  periph : ∀ n, (m.uart n).periph = n.periph
  board : ∀ n, (m.uart n).afioBoardMap = board n
  decoded : ∀ n, Decoded (m.uart n)

section Started

variable {board : UartNumber → BitVec 32} {m m' : Soc.Machine}

/-- The flags of a UART are decoded from its registers, not from its rate. -/
theorem unrated_decoded {u u' : Stm32Uart} (h : unrated u' = unrated u) (hu : Decoded u) :
    Decoded u' := by
  have hfield : ∀ {α : Type} (f : Stm32Uart → α), (∀ u, f (unrated u) = f u) →
      f u' = f u :=
    fun f hf => by rw [← hf, h, hf]
  obtain ⟨hUE, hTXEIE, hTCIE, hRXNEIE, hTE, hRE⟩ := hu
  have hCR1 := hfield Stm32Uart.CR1 fun _ => rfl
  refine ⟨?_, ?_, ?_, ?_, ?_, ?_⟩ <;> rw [hCR1]
  · exact (hfield Stm32Uart.UE fun _ => rfl).trans hUE
  · exact (hfield Stm32Uart.TXEIE fun _ => rfl).trans hTXEIE
  · exact (hfield Stm32Uart.TCIE fun _ => rfl).trans hTCIE
  · exact (hfield Stm32Uart.RXNEIE fun _ => rfl).trans hRXNEIE
  · exact (hfield Stm32Uart.TE fun _ => rfl).trans hTE
  · exact (hfield Stm32Uart.RE fun _ => rfl).trans hRE

/-- The RCC and the UARTs after `stm32_init`. -/
theorem init_started {env : Env} {connected : UartNumber → Bool}
    (h : Soc.init env connected board = .ok m) : Started board m := by
  have hbounded := init_bounded h
  have hinv := init_inv h
  obtain ⟨rcc, hrcc, h⟩ := bind_eq_ok.1 h
  -- `stm32_uart_init` adds a user to the clock tree and resets the UART
  obtain ⟨hok, hboard, hdec⟩ :
      FieldsOk m.rcc.regs ∧ (∀ n, (m.uart n).afioBoardMap = board n) ∧
      ∀ n, Decoded (m.uart n) := by
    refine foldlM_invariant (P := fun m : Soc.Machine => FieldsOk m.rcc.regs ∧
      (∀ n, (m.uart n).afioBoardMap = board n) ∧ ∀ n, Decoded (m.uart n))
      (fun t t' n _ ⟨hok, hboard, hdec⟩ hinit => ?_)
      ⟨init_fieldsOk hrcc, fun _ => rfl, fun n => ?_⟩ h
    · obtain ⟨tree, -, hinit⟩ := bind_eq_ok.1 hinit
      obtain ⟨u, hu, hinit⟩ := bind_eq_ok.1 hinit
      obtain rfl := pure_eq_ok.1 hinit
      have heffect : Uart.Effect (t.uart n) .reset u := Uart.step_effect (e := .reset) hu
      exact ⟨hok,
        (Function.forall_update_iff _ fun n (u : Stm32Uart) => u.afioBoardMap = board n).2
          ⟨(effect_board heffect).trans (hboard n), fun k _ => hboard k⟩,
        (Function.forall_update_iff _ fun _ u => Decoded u).2
          ⟨reset_decoded hu, fun k _ => hdec k⟩⟩
    · constructor <;> exact BitVec.getLsbD_zero.symm
  obtain ⟨c, r, hc⟩ := hbounded.has
  exact ⟨⟨c, r, hc, hc.regs ▸ hok⟩, hbounded.safe, hinv, hbounded.periph, hboard, hdec⟩

/-- They stay so in every step. -/
theorem Started.step (h : Started board m) {i : Env × Soc.Event} (hs : Soc.Step m i m') :
    Started board m' := by
  have hinv := step_inv h.inv hs
  obtain ⟨env, e⟩ := i
  cases e with
  | rcc e =>
    obtain ⟨hrcc, hsame⟩ := rcc_sameUarts hs.2
    exact ⟨step_has_fieldsOk h.has hrcc, step_safe h.safe hrcc, hinv,
      fun n => (hsame.field Stm32Uart.periph (fun _ => rfl) n).trans (h.periph n),
      fun n => (hsame.field Stm32Uart.afioBoardMap (fun _ => rfl) n).trans (h.board n),
      fun n => unrated_decoded (hsame n) (h.decoded n)⟩
  | uart n e =>
    obtain ⟨u, hu, hm⟩ := bind_eq_ok.1 hs.2
    obtain rfl := pure_eq_ok.1 hm
    have heffect := Uart.step_effect hu
    exact ⟨h.has, h.safe, hinv,
      (Function.forall_update_iff _ fun n (u : Stm32Uart) => u.periph = n.periph).2
        ⟨heffect.periph.trans (h.periph n), fun k _ => h.periph k⟩,
      (Function.forall_update_iff _ fun n (u : Stm32Uart) => u.afioBoardMap = board n).2
        ⟨(effect_board heffect).trans (h.board n), fun k _ => h.board k⟩,
      (Function.forall_update_iff _ fun _ u => Decoded u).2
        ⟨(h.decoded n).step hu, fun k _ => h.decoded k⟩⟩

/-- **A run** of the RCC and the UARTs. -/
theorem run_started {env : Env} {connected : UartNumber → Bool} {m₀ : Soc.Machine}
    {l : List (Env × Soc.Event)} (hinit : Soc.init env connected board = .ok m₀)
    (hrun : Run Soc.Step m₀ l m) : Started board m :=
  hrun.invariant (fun _ _ _ h hs => h.step hs) (init_started hinit)

/-- **The clocks and dividers are in their ranges** if the values written are moderate. -/
theorem Started.bounded (h : Started board m) (hmod : Moderate m) : Bounded m := by
  obtain ⟨c, r, hc, -⟩ := h.has
  exact ⟨⟨c, r, hc⟩, h.safe, h.periph, hmod⟩

end Started

/-- **A run** of the ports and the AFIO: USART2 stays on its first pins. -/
theorem run_usart2Map {io : Io} {k : List Afio.Event} (h : Run Afio.Step Io.alloc k io) :
    getPeriphMap io.afio .uart2 = .ok 0#32 :=
  congrArg Except.ok (congrArg Afio.Mapping.usart2 (run_mapping h))

/-! ### The clocks of the chip -/

section Clocks

variable {env : Env} {s s₀ s' : Chip} {c : Cfg} {r rcc : Stm32Rcc} {ws : List String}
  {cr cfgr v : BitVec 32} {offset : ℕ}

/-- What an access to the RCC keeps of the rest of the chip. -/
structure RccOnly (s s' : Chip) : Prop where
  bounded : Bounded s'.soc
  inv : Soc.Inv s'.soc
  uarts : SameUarts s.soc s'.soc
  io : s'.io = s.io

/-- Two accesses to the RCC. -/
theorem RccOnly.trans (h : RccOnly s₀ s) (h' : RccOnly s s') : RccOnly s₀ s' :=
  ⟨h'.bounded, h'.inv, h.uarts.trans h'.uarts, h'.io.trans h.io⟩

/-- **A write that the RCC takes**, with the handlers that it runs. -/
theorem rccOf_write (hs : RccOnly s₀ s) (h : writew s.soc.rcc offset v = .ok rcc) :
    Returns ((rccOf env).write s offset v) fun s' => s'.soc.rcc = rcc ∧ RccOnly s₀ s' := by
  have hret : Returns (Soc.step env s.soc (.rcc (.write offset v))) _ :=
    hs.bounded.rcc (writable_of_writew h)
  obtain ⟨soc, hstep, hbounded, hrcc, -⟩ := hret
  refine ⟨{ s with soc := soc }, bind_eq_ok.2 ⟨soc, hstep, rfl⟩,
    Except.ok.inj (hrcc.symm.trans h), ?_⟩
  exact hs.trans ⟨hbounded, rcc_inv hs.inv hstep, (rcc_sameUarts hstep).2, rfl⟩

/-- A read-modify-write of a register of the RCC, in the chip. -/
theorem rccOf_modify (hs : RccOnly s₀ s) {f : BitVec 32 → BitVec 32}
    (h : modifyReg rccRegisters s.soc.rcc offset f = .ok rcc) :
    Returns (modifyReg (rccOf env) s offset f) fun s' => s'.soc.rcc = rcc ∧ RccOnly s₀ s' := by
  obtain ⟨value, hread, hwrite⟩ := bind_eq_ok.1 h
  obtain ⟨s', hw, h'⟩ := rccOf_write hs hwrite
  exact ⟨s', bind_eq_ok.2 ⟨value, hread, hw⟩, h'⟩

/-- The chip while the firmware sets up its clocks. -/
structure Booting (c : Cfg) (r : Stm32Rcc) (ws : List String) (s₀ : Chip) (cr cfgr : BitVec 32)
    (s : Chip) : Prop where
  holds : Holds c r ws cr cfgr s.soc.rcc
  only : RccOnly s₀ s

/-- A write of the RCC is one of the chip, with the handlers behind it. -/
theorem Booting.write {cr' cfgr' : BitVec 32} (h : Booting c r ws s₀ cr cfgr s)
    (hw : Returns (writew s.soc.rcc offset v) (Holds c r ws cr' cfgr')) :
    Returns ((rccOf env).write s offset v) (Booting c r ws s₀ cr' cfgr') := by
  obtain ⟨rcc, hw, hholds⟩ := hw
  refine (rccOf_write h.only hw).mono fun s' ⟨hrcc, honly⟩ => ⟨?_, honly⟩
  rw [hrcc]
  exact hholds

/-- **The RCC of the chip has the registers that `SystemInit` relies on.** -/
theorem booting_described (env : Env) (c : Cfg) (r : Stm32Rcc) (ws : List String) (s₀ : Chip) :
    Described (rccOf env) (Booting c r ws s₀) where
  readCr _ _ _ h := h.holds.readCr
  readCfgr _ _ _ h := h.holds.readCfgr
  writeCr _ _ _ _ h hquiet := h.write (h.holds.writeCr hquiet)
  writeCfgr _ _ _ _ h hquiet := h.write (h.holds.writeCfgr hquiet)
  writeCir _ _ _ t h := h.write ⟨t.soc.rcc, rfl, h.holds⟩

/-- **`SystemInit`** on the chip. -/
theorem systemInit_settles (h : Has c r s.soc.rcc) (hok : FieldsOk r) (hs : RccOnly s s) :
    Settles (fun n => systemInit (rccOf env) n s)
      (Booting c r s.soc.rcc.warnings s 0x1030003#32 0x1D0402#32) := by
  refine (booting_described env c r s.soc.rcc.warnings s).systemInit ?_
  obtain ⟨rcc₂, hfirst, cr, cfgr, hhsi, hholds⟩ := h.systemInitFirst hok
  obtain ⟨rcc₁, hfirst₁, hfirst₂⟩ := bind_eq_ok.1 hfirst
  refine (rccOf_modify hs hfirst₁).bind fun s₁ ⟨hrcc₁, hs₁⟩ => ?_
  rw [← hrcc₁] at hfirst₂
  refine (rccOf_modify hs₁ hfirst₂).mono fun s₂ ⟨hrcc₂, hs₂⟩ =>
    ⟨cr, cfgr, hhsi, ?_, hs₂⟩
  rw [hrcc₂]
  exact hholds

/-- Enabling peripherals does not warn. -/
theorem periphEnable_warnings {s s' : Stm32Rcc} {l : List (Periph × ℕ)}
    (h : periphEnable s v l = .ok s') : s'.warnings = s.warnings :=
  foldlM_invariant (P := fun t : Stm32Rcc => t.warnings = s.warnings)
    (fun t t' _ _ ht hset => by
      obtain ⟨tree, -, hset⟩ := bind_eq_ok.1 hset
      rw [← pure_eq_ok.1 hset]
      exact ht) rfl h

/-- **An enable register** is modified: the clocks of the buses stay as they are. -/
theorem Holds.enable {s : Stm32Rcc} (h : Holds c r ws cr cfgr s) (bus : Bus) (periph : BitVec 32)
    (newState : FunctionalState) :
    Returns (apbPeriphClockCmd bus s periph newState) fun s' => ∃ r',
      Holds { c with periph := gateAfter bus (newEnr (enr r bus) periph newState) c.periph } r' ws
        cr cfgr s' := by
  cases bus with
  | apb1 =>
    have hread : readw s 0x1c = .ok (enr r .apb1) :=
      (congrArg (fun r : Stm32Rcc => Except.ok (enr r .apb1)) h.has.regs :)
    show Returns (readw s 0x1c >>= fun old => writew s 0x1c (newEnr old periph newState)) _
    rw [hread, ← gates_apb1Bits]
    obtain ⟨s', hw, h'⟩ := apb1enrWrite_has (v := newEnr (enr r .apb1) periph newState) h.has
    refine ⟨s', hw,
      { r with APB1ENR := newEnr (enr r .apb1) periph newState &&& 0x5e7d#32 }, h', ?_⟩
    obtain ⟨t, ht, hw⟩ := bind_eq_ok.1 hw
    rw [← pure_eq_ok.1 hw]
    exact (periphEnable_warnings ht).trans h.warnings
  | apb2 =>
    have hread : readw s 0x18 = .ok (enr r .apb2) :=
      (congrArg (fun r : Stm32Rcc => Except.ok (enr r .apb2)) h.has.regs :)
    show Returns (readw s 0x18 >>= fun old => writew s 0x18 (newEnr old periph newState)) _
    rw [hread, ← gates_apb2Bits]
    obtain ⟨s', hw, h'⟩ := apb2enrWrite_has (v := newEnr (enr r .apb2) periph newState) h.has
    refine ⟨s', hw,
      { r with APB2ENR := newEnr (enr r .apb2) periph newState &&& 0xfffd#32 }, h', ?_⟩
    obtain ⟨t, ht, hw⟩ := bind_eq_ok.1 hw
    rw [← pure_eq_ok.1 hw]
    exact (periphEnable_warnings ht).trans h.warnings

/-- A peripheral clock command opens its gates and keeps the rest. -/
theorem Booting.enable (h : Booting c r ws s₀ cr cfgr s) (bus : Bus) (periph : BitVec 32)
    (newState : FunctionalState) :
    Returns (periphClockCmd env s bus periph newState) fun s' => ∃ r',
      Booting { c with periph := gateAfter bus (newEnr (enr r bus) periph newState) c.periph } r' ws
        s₀ cr cfgr s' := by
  obtain ⟨rcc, hcmd, r', hholds⟩ := Holds.enable h.holds bus periph newState
  refine (rccOf_modify h.only hcmd).mono fun s' ⟨hrcc, honly⟩ => ⟨r', ?_, honly⟩
  rw [hrcc]
  exact hholds

end Clocks

end Rs232
end Hal
end Especial
