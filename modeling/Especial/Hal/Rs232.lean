/-
# The serial port, from the start-up of the clocks to the text

`init_usart2` of `src/hal/helper.c` switches three clocks on, configures the two pins of
USART2 and the USART itself, and enables it.  It needs the clocks that `SystemInit` has set
up, and `println` needs what it leaves.  `rs232_println` follows the firmware through all of
it.
-/

import Especial.Afio.Registers
import Especial.Afio.Resets
import Especial.Hal.Chip
import Especial.Uart.Println

namespace Especial
namespace Hal
namespace Rs232

open Qemu Stm32 Clktree Lib Gpio Afio Rcc Uart Soc

/-! ### The pins and the USART of the chip -/

section Usart

variable {env : Env} {s s' : Chip} {n : UartNumber}

/-- `GPIO_Init` on the chip. -/
theorem gpioInit_returns (port : Fin GPIO_COUNT) (init : GPIOInitTypeDef) :
    Returns (s.gpioInit port init) fun s' => s'.soc = s.soc ∧ s'.io.afio = s.io.afio ∧
      Sets init init.pin.getLsbD (s.io.gpio port) (s'.io.gpio port) := by
  have hret : Returns (Hal.gpioInit ⟨s.soc.rcc, s.io.gpio⟩ port init) _ := gpioInit_sets init
  exact hret.bind fun ports hports => Returns.pure ⟨rfl, rfl, hports.here⟩

/-- A call for a USART changes nothing but the USART. -/
theorem usart_returns {f : Env → Stm32Uart → Except Fault Stm32Uart} {P : Stm32Uart → Prop}
    (h : Returns (f (s.env env n) (s.soc.uart n)) P) :
    Returns (s.usart env n f) fun s' =>
      s'.soc.rcc = s.soc.rcc ∧ s'.io = s.io ∧ P (s'.soc.uart n) := by
  refine h.bind fun u hu => Returns.pure ⟨rfl, rfl, ?_⟩
  show P (Function.update s.soc.uart n u n)
  rw [Function.update_self]
  exact hu

/-- What a UART sees depends on the RCC, the AFIO and the ports. -/
theorem env_congr (hrcc : s'.soc.rcc = s.soc.rcc) (hio : s'.io = s.io) (env : Env)
    (n : UartNumber) : s'.env env n = s.env env n := by
  unfold Chip.env Soc.Machine.env Soc.Mapping.Machine.env
  rw [hrcc, hio]

/-- The pin that USART2 transmits on is an alternate output. -/
theorem checkTxPin_two {u : Stm32Uart} (hport : u.periph = .uart2)
    (hmap : getPeriphMap s.io.afio .uart2 = .ok 0#32)
    (hpin : getPinConfig (s.io.gpio portA) 2 = 0xB#8) : checkTxPin (s.env env .two) u = .ok () := by
  have hmode : (s.env env .two).modeBits .gpioa 2 = 0x3#8 := by
    show getModeBits (s.io.gpio portA) 2 = _
    rw [getModeBits, hpin]
    rfl
  have hconfig : (s.env env .two).configBits .gpioa 2 = GPIO_OUT_ALT_PUSHPULL := by
    show getConfigBits (s.io.gpio portA) 2 = _
    rw [getConfigBits, hpin]
    rfl
  have htx : txPin (s.env env .two) .uart2 = .ok (.gpioa, 2) := by
    show (getPeriphMap s.io.afio .uart2 >>= _) = _
    rw [hmap]
    rfl
  rw [checkTxPin, hport, if_neg (by decide), htx, ok_bind]
  dsimp only
  rw [hmode, hconfig]
  rfl

/-- `USART_Cmd` keeps the rate. -/
theorem usartModify_baudOk {e : Env} {u u' : Stm32Uart} {r : Ctrl} {f : BitVec 16 → BitVec 16}
    (hu : BaudOk u e.periphFreq) (h : usartModify e u r f = .ok u') : BaudOk u' e.periphFreq := by
  unfold usartModify at h
  rw [usartRead_eq, ok_bind] at h
  exact write_baudOk hu h

/-- **`USART_Cmd`** enables the USART and keeps the rest of its configuration. -/
theorem usartCmd_enable {e : Env} {u : Stm32Uart} (hu : Reachable e u)
    (hbaud : BaudOk u e.periphFreq) :
    Returns (usartCmd e u .ENABLE) fun u' => traffic u' = traffic u ∧ u'.UE = true ∧
      u'.TE = u.TE ∧ u'.BRR = u.BRR ∧ BaudOk u' e.periphFreq := by
  obtain ⟨u', hret, hconf, -⟩ :=
    usartModify_returns hu (r := .CR1) (by decide) (· ||| 0x2000#16)
  obtain ⟨hctrl, hdec⟩ := of_file_eq hconf.file
  have hcr1 : u'.CR1 = ((u.CR1.setWidth 16 ||| 0x2000#16).setWidth 32) &&& 0x3fff#32 :=
    (congrFun hctrl .CR1).trans (Function.update_self ..)
  have hbrr : u'.BRR = u.BRR := (congrFun hctrl .BRR).trans (Function.update_of_ne (by decide) ..)
  refine ⟨u', hret, hconf.traffic, ?_, ?_, hbrr, usartModify_baudOk hbaud hret⟩
  · rw [hdec.UE, hcr1]
    simp
  · rw [hdec.TE, hcr1, hu.decoded.TE]
    simp

/-- What `init_usart2` leaves of the USART `u₀`. -/
structure Serial (u₀ : Stm32Uart) (s : Chip) : Prop where
  traffic : traffic (s.soc.uart .two) = traffic u₀
  UE : (s.soc.uart .two).UE = true
  TE : (s.soc.uart .two).TE = true
  rate : (s.soc.uart .two).bitsPerSec = 115384#32
  pin : ∀ env, checkTxPin (s.env env .two) (s.soc.uart .two) = .ok ()

/-- **The three calls for USART2**, once its clock runs at 36 MHz. -/
theorem usart2_returns {u₀ : Stm32Uart} (hu : Reachable (s.env env .two) (s.soc.uart .two))
    (hport : (s.soc.uart .two).periph = .uart2)
    (htraffic : Hal.traffic (s.soc.uart .two) = Hal.traffic u₀)
    (hfreq : s.soc.rcc.outputFreq (PERIPHCLK .uart2) = 36000000#32)
    (hclocks : (getClocksFreq (cfgrRead s.soc.rcc)).PCLK1_Frequency = 36000000#32)
    (hmap : getPeriphMap s.io.afio .uart2 = .ok 0#32)
    (hpin : getPinConfig (s.io.gpio portA) 2 = 0xB#8) :
    Returns (do
      let s ← s.usart env .two fun env u =>
        usartClockInit env u { clock := 0#16, cpol := 0#16, cpha := 0x0200#16, lastBit := 0#16 }
      let clocks := getClocksFreq (cfgrRead s.soc.rcc)
      let s ← s.usart env .two fun env u => usartInit env clocks u usart2Init
      s.usart env .two fun env u => usartCmd env u .ENABLE) fun s' =>
        s'.soc.rcc = s.soc.rcc ∧ Serial u₀ s' := by
  have hclock : ∀ init, Returns (usartClockInit (s.env env .two) (s.soc.uart .two) init) fun u =>
      Hal.traffic u = Hal.traffic (s.soc.uart .two) ∧ Reachable (s.env env .two) u := fun init =>
    (usartModify_returns hu (by decide) _).mono fun u ⟨hconf, hu⟩ => ⟨hconf.traffic, hu⟩
  refine (usart_returns (f := fun env u => usartClockInit env u _) (hclock _)).bind
    fun s₁ ⟨hrcc₁, hio₁, htraffic₁, hu₁⟩ => ?_
  rw [← env_congr hrcc₁ hio₁] at hu₁
  have hport₁ : (s₁.soc.uart .two).periph = .uart2 :=
    ((congrArg Stm32Uart.periph htraffic₁ :)).trans hport
  have hfreq₁ : (s₁.env env .two).periphFreq = 36000000#32 := by
    rw [env_congr hrcc₁ hio₁]
    exact hfreq
  have hbus : (if (s₁.soc.uart .two).periph = .uart1 then
      (getClocksFreq (cfgrRead s₁.soc.rcc)).PCLK2_Frequency
      else (getClocksFreq (cfgrRead s₁.soc.rcc)).PCLK1_Frequency) = 36000000#32 := by
    rw [hport₁, if_neg (by decide), hrcc₁, hclocks]
  refine (usart_returns (f := fun env u => usartInit env _ u usart2Init)
    (usartInit_returns hu₁ usart2Init hbus
      (by rw [hfreq₁]; exact Or.inr (Or.inr (by decide))))).bind
    fun s₂ ⟨hrcc₂, hio₂, hready⟩ => ?_
  have hu₂ := hready.reachable
  have hbaud := hready.baud
  rw [← env_congr hrcc₂ hio₂] at hu₂ hbaud
  refine (usart_returns (f := fun env u => usartCmd env u .ENABLE)
    (usartCmd_enable hu₂ hbaud)).mono
    fun s₃ ⟨hrcc₃, hio₃, htraffic₃, hUE, hTE, hBRR, hbaud₃⟩ => ?_
  have hall : Hal.traffic (s₃.soc.uart .two) = Hal.traffic u₀ :=
    htraffic₃.trans (hready.traffic.trans (htraffic₁.trans htraffic))
  have hio : s₃.io = s.io := hio₃.trans (hio₂.trans hio₁)
  have hport₃ : (s₃.soc.uart .two).periph = .uart2 := by
    have hsame := htraffic₃.trans (hready.traffic.trans htraffic₁)
    exact ((congrArg Stm32Uart.periph hsame :)).trans hport
  refine ⟨hrcc₃.trans (hrcc₂.trans hrcc₁), hall, hUE, hTE.trans hready.TE, ?_,
    fun env => ?_⟩
  · -- 36 MHz over 312
    have hdivider : (s₃.soc.uart .two).BRR = 312#32 := (hBRR.trans hready.BRR).trans (by decide)
    have hrate := hbaud₃.bitsPerSec
    rw [env_congr hrcc₂ hio₂, hfreq₁, hdivider, if_neg (by decide)] at hrate
    exact BitVec.eq_of_toNat_eq hrate
  · exact checkTxPin_two hport₃ (by rw [hio]; exact hmap) (by rw [hio]; exact hpin)

/-- **`init_usart2`** after `SystemInit`. -/
theorem initUsart2_returns {c : Cfg} {r : Stm32Rcc} {ws : List String} {s₀ : Chip}
    (h : Booting c r ws s₀ 0x1030003#32 0x1D0402#32 s)
    (hmap : getPeriphMap s₀.io.afio .uart2 = .ok 0#32)
    (hperiph : (s₀.soc.uart .two).periph = .uart2)
    (hboard : (s₀.soc.uart .two).afioBoardMap = 0#32) (hdec : Decoded (s₀.soc.uart .two)) :
    Returns (initUsart2 env s) fun s' =>
      s'.soc.rcc.warnings = ws ∧ Serial (s₀.soc.uart .two) s' := by
  unfold initUsart2
  refine (h.enable .apb2 _ _).bind fun s₁ ⟨r₁, h₁⟩ => ?_
  refine (h₁.enable .apb1 _ _).bind fun s₂ ⟨r₂, h₂⟩ => ?_
  -- the clock of USART2 is on, and it is the one of its bus
  have hon : s₂.soc.rcc.isEnabled (PERIPHCLK .uart2) = true := by
    have hgates : HasGates _ _ s₂.soc.rcc := ⟨_, _, h₂.holds.has, rfl, rfl⟩
    rw [hgates.isEnabled]
    show (newEnr (enr r₁ .apb1) 0x20000#32 .ENABLE).getLsbD 17 = true
    rw [getLsbD_newEnr _ _ _ (by decide)]
    rfl
  obtain ⟨hcfgr, -, -, hpclk1, -⟩ := h₂.holds.sameClocks
  have hclocks : (getClocksFreq (cfgrRead s₂.soc.rcc)).PCLK1_Frequency = 36000000#32 := by
    rw [hcfgr]
    decide
  have hfreq : s₂.soc.rcc.outputFreq (PERIPHCLK .uart2) = 36000000#32 := by
    rw [outputFreq_periphclk h₂.holds.has (by simp) hon, ← hclocks]
    exact hpclk1.symm
  have hunrated := h₂.only.uarts .two
  have hio₂ : s₂.io = s₀.io := h₂.only.io
  refine (gpioInit_returns portA _).bind fun s₃ ⟨hsoc₃, hafio₃, hsets₃⟩ => ?_
  refine (gpioInit_returns portA _).bind fun s₄ ⟨hsoc₄, hafio₄, hsets₄⟩ => ?_
  have hsoc : s₄.soc = s₂.soc := hsoc₄.trans hsoc₃
  have hpin : getPinConfig (s₄.io.gpio portA) 2 = 0xB#8 :=
    (hsets₄.config 2 (by decide)).trans (if_pos rfl)
  have hmap₄ : getPeriphMap s₄.io.afio .uart2 = .ok 0#32 := by
    rw [hafio₄, hafio₃, hio₂]
    exact hmap
  rw [← hsoc] at hfreq hon hclocks hunrated
  have hfield : ∀ {α : Type} (f : Stm32Uart → α), (∀ u, f (unrated u) = f u) →
      f (s₄.soc.uart .two) = f (s₀.soc.uart .two) := fun f hf => by rw [← hf, hunrated, hf]
  have hport : (s₄.soc.uart .two).periph = .uart2 :=
    (hfield Stm32Uart.periph fun _ => rfl).trans hperiph
  have hu : Reachable (s₄.env env .two) (s₄.soc.uart .two) := by
    refine ⟨by rw [hport]; decide, hon, ?_, unrated_decoded hunrated hdec⟩
    rw [hport, hfield Stm32Uart.afioBoardMap fun _ => rfl, hboard]
    exact hmap₄
  refine (usart2_returns hu hport (hfield Hal.traffic fun _ => rfl) hfreq hclocks hmap₄ hpin).mono
    fun s₅ ⟨hrcc, hserial⟩ => ⟨?_, hserial⟩
  rw [hrcc, hsoc]
  exact h₂.holds.warnings

end Usart

/-! ### The text -/

open SendByte (Sys start Sending)
open Println (CString println)

/-- A step of the firmware that sends bytes through USART2 of the chip, or of USART2. -/
def Sends (s : Chip) (t : Sys) (i : Env × SendByte.Label) (t' : Sys) : Prop :=
  SendByte.Step t (s.env i.1 .two, i.2) t'

section Text

variable {s : Chip} {u₀ : Stm32Uart} {bytes : List (BitVec 8)} {t : Sys}

/-- After `init_usart2` an idle USART is ready to send. -/
theorem Serial.ready (h : Serial u₀ s) (hport : u₀.periph = .uart2) (hTC : u₀.TC = true)
    (hTXE : u₀.TXE = true) : SendByte.Ready (s.soc.uart .two) := by
  have hfield : ∀ {α : Type} (f : Stm32Uart → α), (∀ u, f (Hal.traffic u) = f u) →
      f (s.soc.uart .two) = f u₀ := fun f hf => by rw [← hf, h.traffic, hf]
  refine ⟨?_, h.UE, h.TE, (hfield Stm32Uart.TC fun _ => rfl).trans hTC,
    (hfield Stm32Uart.TXE fun _ => rfl).trans hTXE⟩
  rw [hfield Stm32Uart.periph fun _ => rfl, hport]
  decide

/-- In every run the bytes are sent in their order. -/
theorem sends_sending {l : List (Env × SendByte.Label)} (hready : SendByte.Ready (s.soc.uart .two))
    (hrun : Run (Sends s) (start (s.soc.uart .two) bytes) l t) :
    Sending (s.soc.uart .two) bytes t :=
  hrun.invariant (fun _ _ _ h hs => h.step hready hs) (SendByte.sending_start hready bytes)

/-- A call that is running can return. -/
theorem poll_can_return {u : Stm32Uart} (h : Sending u bytes t) (hpc : t.pc = .poll) :
    ∃ l t', Run (Sends s) t l t' ∧ t'.pc = .idle ∧ t'.todo = t.todo := by
  rcases Bool.eq_false_or_eq_true t.uart.TXE with hTXE | hTXE
  · exact ⟨[(exampleEnv 0, .firmware)], _,
      .cons (SendByte.poll_returns _ hpc hTXE) (.nil _), rfl, rfl⟩
  · -- the timer that empties the data register is armed
    obtain ⟨d, hd⟩ := Option.isSome_iff_exists.1 (h.served (Or.inr hTXE))
    set env : Env := exampleEnv d with henv
    have hexpire : Sends s t (env, .txTimer)
        { t with uart := txTimerExpire (s.env env .two) { t.uart with txTimer := none } } :=
      ⟨⟨d, hd, BitVec.le_refl d⟩, rfl⟩
    have hTXE' := SendByte.txTimerExpire_TXE (s.env env .two) t.uart
    exact ⟨[(env, .txTimer), (env, .firmware)], _,
      .cons hexpire (.cons (SendByte.poll_returns _ hpc hTXE') (.nil _)), rfl, rfl⟩

/-- The bytes that are left can all be sent, by induction on their number. -/
theorem can_finish (hready : SendByte.Ready (s.soc.uart .two))
    (hpin : ∀ env, checkTxPin (s.env env .two) (s.soc.uart .two) = .ok ())
    (h : Sending (s.soc.uart .two) bytes t) :
    ∃ l t', Run (Sends s) t l t' ∧ t'.todo = [] ∧ t'.pc = .idle := by
  induction hn : t.todo generalizing t with
  | nil =>
    cases hpc : t.pc with
    | idle => exact ⟨[], t, .nil t, hn, hpc⟩
    | poll =>
      obtain ⟨l, t', hrun, hidle, htodo⟩ := poll_can_return (s := s) h hpc
      exact ⟨l, t', hrun, htodo.trans hn, hidle⟩
  | cons b todo ih =>
    obtain ⟨l₁, t₁, hrun₁, hidle, htodo⟩ :
        ∃ l t', Run (Sends s) t l t' ∧ t'.pc = .idle ∧ t'.todo = t.todo := by
      cases hpc : t.pc with
      | idle => exact ⟨[], t, .nil t, hpc, rfl⟩
      | poll => exact poll_can_return h hpc
    have h₁ : Sending (s.soc.uart .two) bytes t₁ :=
      hrun₁.invariant (fun _ _ _ h hs => h.step hready hs) h
    -- the next byte is written
    obtain ⟨t₂, hstep⟩ := h₁.returns hready (hpin (exampleEnv 0)) .firmware
    have hsend : Sends s t₁ (exampleEnv 0, .firmware) t₂ := by
      refine ⟨Or.inr ?_, hstep⟩
      rw [htodo, hn]
      exact List.cons_ne_nil b todo
    have htodo₂ : t₂.todo = todo := by
      change SendByte.firmwareStep _ t₁ = .ok t₂ at hstep
      unfold SendByte.firmwareStep at hstep
      rw [hidle, htodo, hn] at hstep
      obtain ⟨u, -, hstep⟩ := bind_eq_ok.1 hstep
      rw [← pure_eq_ok.1 hstep]
    obtain ⟨l₂, t₃, hrun₂, hdone⟩ := ih (h₁.step hready hsend) htodo₂
    exact ⟨_, t₃, Run.append_iff.2 ⟨t₁, hrun₁, .cons hsend hrun₂⟩, hdone⟩

end Text

/-- **The serial port.**  Whatever happened to the RCC, the UARTs, the AFIO and the ports since
they were made, let USART2 be idle and wired to its first pins, and let no divider stop the
handlers of the clocks.  `SystemInit` and `init_usart2` return, give no warning of the RCC, and
leave USART2 at 115384 bits per second.  Then `println` sends every string of at most 255
characters: however the timers expire and characters come in, no step of it stops the
emulator, it can always come to its end, and there the backend has been handed the string. -/
theorem rs232_println (env₀ : Env) (connected : UartNumber → Bool)
    (board : UartNumber → BitVec 32)
    (m₀ m : Soc.Machine) (l : List (Env × Soc.Event)) (io : Io) (k : List Afio.Event)
    (hinit : Soc.init env₀ connected board = .ok m₀) (hrun : Run Soc.Step m₀ l m)
    (hio : Run Afio.Step Io.alloc k io) (hboard : board .two = 0#32) (hmod : Moderate m)
    (hTC : (m.uart .two).TC = true) (hTXE : (m.uart .two).TXE = true) (env : Env) :
    Settles (fun n => boot env n ⟨m, io⟩) fun s =>
      s.soc.rcc.warnings = m.rcc.warnings ∧ (s.soc.uart .two).bitsPerSec = 115384#32 ∧
      ∀ str : CString, str.chars.length < 256 →
        ∃ n calls, println str n = some (.ok calls) ∧
          ∀ l t, Run (Sends s) (start (s.soc.uart .two) calls) l t →
            (∀ i : Env × SendByte.Label, i.2.Enabled (s.env i.1 .two) t →
              ∃ t', Sends s t i t') ∧
            (∃ l' t', Run (Sends s) t l' t' ∧ t'.todo = [] ∧ t'.pc = .idle) ∧
            (t.todo = [] → t.pc = .idle →
              t.uart.chr = (m.uart .two).chr.map (· ++ str.chars)) := by
  have hstarted := run_started hinit hrun
  have hmap := run_usart2Map hio
  obtain ⟨c, r, hhas, hok⟩ := hstarted.has
  have honly : RccOnly ⟨m, io⟩ ⟨m, io⟩ :=
    ⟨hstarted.bounded hmod, hstarted.inv, fun _ => rfl, rfl⟩
  refine Settles.bind (systemInit_settles hhas hok honly) fun s₁ h₁ => ?_
  refine (Settles.lift (initUsart2_returns h₁ hmap (hstarted.periph .two)
    ((hstarted.board .two).trans hboard) (hstarted.decoded .two))).mono
    fun s ⟨hwarn, hserial⟩ => ?_
  have hready := hserial.ready (hstarted.periph .two) hTC hTXE
  refine ⟨hwarn, hserial.rate,
    fun str hlen => ⟨_, str.chars, (Println.println_ends hlen).ends, ?_⟩⟩
  intro l t hrun
  have hsending := sends_sending hready hrun
  refine ⟨fun i hi => ?_, can_finish hready hserial.pin hsending, fun htodo hpc => ?_⟩
  · obtain ⟨t', ht'⟩ := hsending.returns hready (hserial.pin i.1) i.2
    exact ⟨t', hi, ht'⟩
  · have hchr : (s.soc.uart .two).chr = (m.uart .two).chr :=
      (congrArg Stm32Uart.chr hserial.traffic :)
    have hsent : t.sent = str.chars := by
      rw [← hsending.bytes, htodo, List.append_nil]
    rw [hsending.delivered hpc, hsent, hchr]

/-- On a new machine, with a string of two characters. -/
theorem rs232_println_new :
    ∃ m₀, Soc.init (exampleEnv 0) (fun _ => true) (fun _ => 0#32) = .ok m₀ ∧
    Settles (fun n => boot (exampleEnv 0) n ⟨m₀, Io.alloc⟩) fun s =>
      (s.soc.uart .two).bitsPerSec = 115384#32 ∧
      ∃ l t, Run (Sends s) (start (s.soc.uart .two) [0x48#8, 0x69#8]) l t ∧
        t.uart.chr = some [0x48#8, 0x69#8] := by
  have hidle : (Soc.init (exampleEnv 0) (fun _ => true) fun _ => 0#32).map (fun m =>
      ((m.uart .two).TC, (m.uart .two).TXE, (m.uart .two).chr)) = .ok (true, true, some []) := by
    decide +kernel
  cases hinit : Soc.init (exampleEnv 0) (fun _ => true) fun _ => 0#32 with
  | error e =>
    rw [hinit] at hidle
    cases hidle
  | ok m₀ =>
    rw [hinit] at hidle
    have hidle := Except.ok.inj hidle
    simp only [Prod.mk.injEq] at hidle
    obtain ⟨hTC, hTXE, hchr⟩ := hidle
    refine ⟨m₀, rfl,
      (rs232_println (exampleEnv 0) (fun _ => true) (fun _ => 0#32) m₀ m₀ [] Io.alloc []
      hinit (.nil m₀) (.nil Io.alloc) rfl (init_bounded hinit).moderate hTC hTXE
      (exampleEnv 0)).mono fun s ⟨_, hrate, hsend⟩ => ⟨hrate, ?_⟩⟩
    obtain ⟨n, calls, hprintln, hall⟩ := hsend ⟨[0x48#8, 0x69#8], by decide⟩ (by decide)
    obtain rfl : calls = [0x48#8, 0x69#8] :=
      Except.ok.inj (loop_unique hprintln (Println.println_ends (by decide)).ends)
    obtain ⟨-, ⟨l, t, hrun, htodo, hpc⟩, -⟩ := hall [] _ (.nil _)
    refine ⟨l, t, hrun, ?_⟩
    rw [(hall l t hrun).2.2 htodo hpc, hchr]
    rfl

end Rs232
end Hal
end Especial
