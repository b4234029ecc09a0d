/-
# What the digital outputs of the firmware show

Several `DigitalOutput` objects on different pins, some of them on the same port,
share the configuration and output registers of their ports.  After every call of one
of their methods, each object that was initialized agrees with its pin: its state is
the bit of the output register, the pin is an output, and the last call on the line
of the pin had that level.  The call leaves all other pins alone.

One call is `exec_returns`, a sequence of calls `digitalOutput_levels`.
-/

import Especial.Hal.GpioInit
import Especial.Lib.Drive

namespace Especial
namespace Hal

open Qemu Stm32 Lib Gpio Afio Rcc

variable {ι : Type} [DecidableEq ι]

/-! ### Pins -/

/-- Two pins with the same port and the same line. -/
theorem Pin.ext_base_line {p q : Pin} (hbase : p.base = q.base) (hline : p.line = q.line) :
    p = q := by
  obtain ⟨port, pinNumber, hport, hpin⟩ := p
  obtain ⟨port', pinNumber', hport', hpin'⟩ := q
  have h₁ : port.toNat - 0x41 = port'.toNat - 0x41 := (congrArg Fin.val hbase :)
  have h₂ : pinNumber.toNat = pinNumber'.toNat := (congrArg Fin.val hline :)
  obtain rfl : port = port' := BitVec.eq_of_toNat_eq (by omega)
  obtain rfl : pinNumber = pinNumber' := BitVec.eq_of_toNat_eq h₂
  rfl

/-- The output bit of a pin. -/
def odrBit (s : Ports) (p : Pin) : Bool := (s.gpio p.base).ODR.getLsbD p.line

/-- The pin shows the state of its object: the state is the output bit, the direction
is output, and the line was last set to the bit. -/
structure Shows (s : Ports) (p : Pin) (state : State) : Prop where
  state : state = if odrBit s p then .on else .off
  dir : (s.gpio p.base).dirMask.getLsbD p.line = true
  level : LastOf (fun d => d.1 = p.line.val) (fun d => d.2 = odrBit s p) (s.gpio p.base).outIrq

/-- No pin but `p` is touched: the nibbles and output bits of the others stay, and
all new calls are on the line of `p`. -/
structure OthersKept (p : Pin) (s t : Ports) : Prop where
  config : ∀ port (n : Fin 16), (port, n) ≠ (p.base, p.line) →
    getPinConfig (t.gpio port) n = getPinConfig (s.gpio port) n
  odr : ∀ port (n : Fin 16), (port, n) ≠ (p.base, p.line) →
    (t.gpio port).ODR.getLsbD n = (s.gpio port).ODR.getLsbD n
  calls : ∀ port, ∃ calls, (t.gpio port).outIrq = (s.gpio port).outIrq ++ calls ∧
    ∀ d ∈ calls, port = p.base ∧ d.1 = p.line.val

/-! ### One pin changes -/

/-- What a call does to the ports: it touches one pin, makes it an output and drives
it to `b`. -/
structure Driven (p : Pin) (b : Bool) (s t : Ports) : Prop where
  touches : ∃ calls, Touches p.line (s.gpio p.base) (t.gpio p.base) (calls ++ [(p.line.val, b)])
  output : IsOutput (t.gpio p.base) p.line
  odr : odrBit t p = b
  others : ∀ port, port ≠ p.base → t.gpio port = s.gpio port

variable {p q : Pin} {b : Bool} {s t : Ports} {state : State}

/-- A call touches no pin but its own. -/
theorem Driven.othersKept (h : Driven p b s t) : OthersKept p s t := by
  obtain ⟨⟨calls, htouches⟩, -, -, hothers⟩ := h
  refine ⟨fun port n hne => ?_, fun port n hne => ?_, fun port => ?_⟩
  · by_cases hport : port = p.base
    · subst hport
      exact htouches.config n n.isLt fun hn => hne (by rw [Fin.ext hn])
    · rw [hothers port hport]
  · by_cases hport : port = p.base
    · subst hport
      exact htouches.odr n n.isLt fun hn => hne (by rw [Fin.ext hn])
    · rw [hothers port hport]
  · by_cases hport : port = p.base
    · subst hport
      exact ⟨_, htouches.outIrq, fun d hd => ⟨rfl, htouches.line d hd⟩⟩
    · exact ⟨[], by rw [hothers port hport, List.append_nil], by simp⟩

/-- The pin that is driven shows the level. -/
theorem Driven.shows (h : Driven p b s t) (hstate : state = if b then .on else .off) :
    Shows t p state := by
  obtain ⟨⟨calls, htouches⟩, hout, hodr, -⟩ := h
  refine ⟨by rw [hodr]; exact hstate, hout.dir, ?_⟩
  rw [htouches.outIrq, ← List.append_assoc]
  exact lastOf_snoc.2 (Or.inl ⟨rfl, hodr.symm⟩)

/-- Calls on other lines do not count. -/
theorem lastOf_append_of_forall {α : Type} {P Q : α → Prop} {l l' : List α} (h : LastOf P Q l)
    (hl' : ∀ a ∈ l', ¬P a) : LastOf P Q (l ++ l') := by
  induction l' using List.reverseRecOn with
  | nil => rwa [List.append_nil]
  | append_singleton l' a ih =>
    rw [← List.append_assoc]
    exact lastOf_snoc.2
      (Or.inr ⟨hl' a (by simp), ih fun c hc => hl' c (List.mem_append_left _ hc)⟩)

/-- What is shown, and that the pin is configured as an output. -/
structure Settled (s : Ports) (p : Pin) (state : State) : Prop where
  shows : Shows s p state
  output : IsOutput (s.gpio p.base) p.line

/-- Another pin is not affected. -/
theorem Driven.settled (h : Driven p b s t) (hq : Settled s q state) (hne : q ≠ p) :
    Settled t q state := by
  obtain ⟨⟨calls, htouches⟩, -, -, hothers⟩ := h
  obtain ⟨⟨hstate, hdir, hlevel⟩, hout⟩ := hq
  by_cases hport : q.base = p.base
  · have hline : q.line ≠ p.line := fun hl => hne (Pin.ext_base_line hport hl)
    have hval : (q.line : ℕ) ≠ p.line := fun hl => hline (Fin.ext hl)
    rw [← hport] at htouches
    have hodr : odrBit t q = odrBit s q := htouches.odr q.line q.line.isLt hval
    have hout' : IsOutput (t.gpio q.base) q.line := htouches.output q.line q.line.isLt hval hout
    refine ⟨⟨by rw [hodr]; exact hstate, hout'.dir, ?_⟩, hout'⟩
    rw [htouches.outIrq, hodr]
    refine lastOf_append_of_forall hlevel fun d hd hd' => hval ?_
    rw [← hd', htouches.line d hd]
  · have hsame : t.gpio q.base = s.gpio q.base := hothers q.base hport
    have hodr : odrBit t q = odrBit s q := by rw [odrBit, odrBit, hsame]
    refine ⟨⟨by rw [hodr]; exact hstate, by rw [hsame]; exact hdir, ?_⟩,
      by rw [hsame]; exact hout⟩
    rw [hsame, hodr]
    exact hlevel

/-! ### One call -/

/-- What holds between calls, when the objects of `done` have been initialized. -/
structure Inv (pins : ι → Pin) (done : ι → Prop) (s : Outputs ι) : Prop where
  rcc : ∃ f e, HasGates f e s.ports.rcc
  pin : ∀ o, (s.objects o).pin = pins o
  settled : ∀ o, done o → Settled s.ports (pins o) (s.objects o).state

variable {pins : ι → Pin} {done : ι → Prop} {s t : Outputs ι} {o : ι}

/-- The objects after `o` has got a state. -/
def withState (objects : ι → DigitalOutput) (o : ι) (b : Bool) : ι → DigitalOutput :=
  Function.update objects o { objects o with state := if b then .on else .off }

/-- What a call on the object `o` does. -/
structure Acts (o : ι) (b : Bool) (s t : Outputs ι) : Prop where
  driven : Driven (s.objects o).pin b s.ports t.ports
  rcc : ∃ f e, HasGates f e t.ports.rcc
  objects : t.objects = withState s.objects o b

/-- **`setState`** of an output that is configured. -/
theorem setState_returns (b : Bool) (hrcc : ∃ f e, HasGates f e s.ports.rcc)
    (hout : IsOutput (s.ports.gpio (s.objects o).pin.base) (s.objects o).pin.line) :
    Returns (setState s o (if b then .on else .off)) (Acts o b s) := by
  have hn : ((s.objects o).pin.line : ℕ) < 16 := (s.objects o).pin.line.isLt
  have hfinish :
      ∀ ports, OnPort (s.objects o).pin.base (Drives (s.objects o).pin.line b) s.ports ports →
      Acts o b s { objects := withState s.objects o b, ports := ports } := by
    intro ports hon
    refine ⟨⟨⟨[], hon.here.touches⟩, hon.here.output, hon.here.odr, hon.others⟩, ?_,
      rfl⟩
    dsimp only
    rw [hon.rcc]
    exact hrcc
  cases b
  · exact Returns.bind (gpioResetBits_returns hn hout) fun ports hon => .pure (hfinish ports hon)
  · exact Returns.bind (gpioSetBits_returns hn hout) fun ports hon => .pure (hfinish ports hon)

/-- **`set`** of an output that is configured. -/
theorem set_returns (b : Bool) (hrcc : ∃ f e, HasGates f e s.ports.rcc)
    (hout : IsOutput (s.ports.gpio (s.objects o).pin.base) (s.objects o).pin.line) :
    Returns (set s o b) (Acts o b s) := by
  have hset : set s o b = setState s o (if b then .on else .off) := by
    unfold set
    split_ifs <;> rfl
  rw [hset]
  exact setState_returns b hrcc hout

/-- **`toggle`** of an object that shows its pin inverts the pin. -/
theorem toggle_returns (hrcc : ∃ f e, HasGates f e s.ports.rcc)
    (h : Settled s.ports (s.objects o).pin (s.objects o).state) :
    Returns (toggle s o) (Acts o (!odrBit s.ports (s.objects o).pin) s) := by
  have hneg : State.ofVal (-(s.objects o).state.val) =
      if !odrBit s.ports (s.objects o).pin then .on else .off := by
    rw [h.shows.state]
    cases odrBit s.ports (s.objects o).pin <;> rfl
  unfold toggle
  rw [hneg]
  exact setState_returns _ hrcc h.output

/-- **`initialize`** makes the pin an output and resets it. -/
theorem initializeOutput_returns (o : ι) (hrcc : ∃ f e, HasGates f e s.ports.rcc) :
    Returns (initializeOutput s o) (Acts o false s) := by
  obtain ⟨f, e, hgates⟩ := hrcc
  set p := (s.objects o).pin with hp
  have hrcc : Returns (apb2PeriphClockCmd s.ports.rcc (apb2PeriphAfio ||| portsRcc p.base) .ENABLE)
      fun rcc => ∃ f e, HasGates f e rcc :=
    (exec_hasGates hgates ⟨.apb2, apb2PeriphAfio ||| portsRcc p.base, .ENABLE⟩).mono
      fun rcc h => ⟨_, _, h⟩
  refine hrcc.bind fun rcc hrcc' => ?_
  refine (gpioInit_output { s.ports with rcc := rcc } p.base p.line.isLt).bind fun ports hinit => ?_
  obtain ⟨⟨htouches, hout⟩, hothers, hsame⟩ := hinit
  have hrcc'' : ∃ f e, HasGates f e ports.rcc := by rw [hsame]; exact hrcc'
  refine (set_returns (s := { s with ports := ports }) false hrcc'' hout).mono fun t ht => ?_
  obtain ⟨⟨⟨calls, htouches'⟩, hout', hodr, hothers'⟩, hrcc, hobjects⟩ := ht
  refine ⟨⟨⟨calls, htouches.trans htouches'⟩, hout', hodr, fun port hport => ?_⟩,
    hrcc, hobjects⟩
  exact (hothers' port hport).trans (hothers port hport)

/-- The objects that are initialized after a call. -/
def Call.after (c : Call ι) (done : ι → Prop) (o : ι) : Prop :=
  done o ∨ c = .initializeOutput o

/-- The invariant after a call on `o`. -/
theorem Acts.inv {b : Bool} {done' : ι → Prop} (h : Acts o b s t) (hinv : Inv pins done s)
    (hpins : Function.Injective pins) (hdone : ∀ o', done' o' → done o' ∨ o' = o) :
    Inv pins done' t := by
  obtain ⟨hdriven, hrcc, hobjects⟩ := h
  rw [hinv.pin] at hdriven
  have hstate : ∀ o', (t.objects o').state =
      if o' = o then (if b then .on else .off) else (s.objects o').state := by
    intro o'
    rw [hobjects, withState]
    by_cases ho : o' = o
    · rw [ho, Function.update_self, if_pos rfl]
    · rw [Function.update_of_ne ho, if_neg ho]
  refine ⟨hrcc, fun o' => ?_, fun o' ho' => ?_⟩
  · rw [← hinv.pin o', hobjects, withState]
    by_cases ho : o' = o
    · rw [ho, Function.update_self]
    · rw [Function.update_of_ne ho]
  · by_cases ho : o' = o
    · subst ho
      exact ⟨hdriven.shows (by rw [hstate, if_pos rfl]), hdriven.output⟩
    · have hsettled := hinv.settled o' ((hdone o' ho').resolve_right ho)
      rw [hstate, if_neg ho]
      exact hdriven.settled hsettled fun hpin => ho (hpins hpin)

/-- What a call does to its object, if that is initialized or the call initializes it. -/
theorem exec_acts (c : Call ι) (hinv : Inv pins done s)
    (hc : c = .initializeOutput c.object ∨ done c.object) :
    ∃ b, Returns (exec s c) (Acts c.object b s) := by
  have hsettled : ∀ o, done o → Settled s.ports (s.objects o).pin (s.objects o).state := by
    intro o ho
    rw [hinv.pin]
    exact hinv.settled o ho
  cases c with
  | initializeOutput o => exact ⟨false, initializeOutput_returns o hinv.rcc⟩
  | set o b => exact ⟨b, set_returns b hinv.rcc (hsettled o (hc.resolve_left nofun)).output⟩
  | assign o b => exact ⟨b, set_returns b hinv.rcc (hsettled o (hc.resolve_left nofun)).output⟩
  | toggle o => exact ⟨_, toggle_returns hinv.rcc (hsettled o (hc.resolve_left nofun))⟩

/-- **One call** on an object that is initialized, or that it initializes. -/
theorem exec_returns (c : Call ι) (hinv : Inv pins done s) (hpins : Function.Injective pins)
    (hc : c = .initializeOutput c.object ∨ done c.object) : Returns (exec s c) fun t =>
      OthersKept (pins c.object) s.ports t.ports ∧ Inv pins (c.after done) t := by
  obtain ⟨b, hacts⟩ := exec_acts c hinv hc
  refine hacts.mono fun t ht => ⟨?_, ht.inv hinv hpins fun o ho => ?_⟩
  · rw [← hinv.pin]
    exact ht.driven.othersKept
  · rcases ho with ho | rfl
    · exact Or.inl ho
    · exact Or.inr rfl

/-! ### Sequences of calls -/

/-- Each object is initialized before its first `set`, assignment or `toggle`. -/
def InitializedFirst (calls : List (Call ι)) : Prop :=
  ∀ l₁ c l₂, calls = l₁ ++ c :: l₂ →
    c = .initializeOutput c.object ∨ .initializeOutput c.object ∈ l₁

omit [DecidableEq ι] in
/-- The same by position. -/
theorem initializedFirst_iff {calls : List (Call ι)} : InitializedFirst calls ↔
    ∀ i : Fin calls.length, calls.get i = .initializeOutput (calls.get i).object ∨
      .initializeOutput (calls.get i).object ∈ calls.take i := by
  constructor
  · intro h i
    refine h (calls.take i) (calls.get i) (calls.drop (i + 1)) ?_
    rw [List.get_eq_getElem, List.getElem_cons_drop, List.take_append_drop]
  · rintro h l₁ c l₂ rfl
    simpa using h ⟨l₁.length, by simp⟩

instance (calls : List (Call ι)) : Decidable (InitializedFirst calls) :=
  decidable_of_iff _ initializedFirst_iff.symm

omit [DecidableEq ι] in
/-- So it is for the calls before the last one. -/
theorem InitializedFirst.init {calls : List (Call ι)} {c : Call ι}
    (h : InitializedFirst (calls ++ [c])) : InitializedFirst calls := by
  rintro l₁ c' l₂ rfl
  exact h l₁ c' (l₂ ++ [c]) (by simp)

/-- The calls return, and the invariant holds after them. -/
theorem calls_return {calls : List (Call ι)} (hpins : Function.Injective pins)
    (h₀ : Inv pins (fun _ => False) s) (hcalls : InitializedFirst calls) :
    Returns (calls.foldlM exec s) (Inv pins fun o => .initializeOutput o ∈ calls) := by
  induction calls using List.reverseRecOn with
  | nil => exact .pure ⟨h₀.rcc, h₀.pin, fun o ho => absurd ho (by simp)⟩
  | append_singleton calls c ih =>
    rw [List.foldlM_append]
    refine (ih hcalls.init).bind fun t ht => ?_
    rw [List.foldlM_cons]
    refine (exec_returns c ht hpins (hcalls calls c [] rfl)).bind fun u hu => .pure ?_
    refine ⟨hu.2.rcc, hu.2.pin, fun o ho => hu.2.settled o ?_⟩
    rcases List.mem_append.1 ho with ho | ho
    · exact Or.inl ho
    · exact Or.inr (List.mem_singleton.1 ho).symm

/-- **The digital outputs.**  Objects on different pins, on an RCC in any state since
its initialization and ports in any state.  A sequence of calls in which each object
is initialized before it is set returns; after its last call each object that has been
initialized agrees with its pin, and the call has touched no pin but its own. -/
theorem digitalOutput_levels (pins : ι → Pin) (hpins : Function.Injective pins)
    (rcc₀ rcc : Stm32Rcc) (l : List Rcc.Event) (hinit : Rcc.init = .ok rcc₀)
    (hrcc : Run Rcc.Step rcc₀ l rcc) (gpio : Fin GPIO_COUNT → Stm32Gpio)
    (calls : List (Call ι)) (c : Call ι) (hcalls : InitializedFirst (calls ++ [c])) :
    ∃ s t, calls.foldlM exec (Outputs.init ⟨rcc, gpio⟩ pins) = .ok s ∧ exec s c = .ok t ∧
      (∀ o, .initializeOutput o ∈ calls ++ [c] →
        Shows t.ports (pins o) (t.objects o).state) ∧
      OthersKept (pins c.object) s.ports t.ports := by
  obtain ⟨cfg, r, hhas⟩ := run_has hinit hrcc
  have h₀ : Inv pins (fun _ => False) (Outputs.init ⟨rcc, gpio⟩ pins) :=
    ⟨⟨_, _, cfg, r, hhas, rfl, rfl⟩, fun _ => rfl, fun _ h => h.elim⟩
  obtain ⟨s, hs, hinv⟩ := calls_return hpins h₀ hcalls.init
  obtain ⟨t, ht, hkept, hinv'⟩ := exec_returns c hinv hpins (hcalls calls c [] rfl)
  refine ⟨s, t, hs, ht, fun o ho => (hinv'.settled o ?_).shows, hkept⟩
  rcases List.mem_append.1 ho with ho | ho
  · exact Or.inl ho
  · exact Or.inr (List.mem_singleton.1 ho).symm

/-- The LEDs 0 and 2 of the board, on `PC.12` and `PC.4`. -/
def leds : Bool → Pin
  | false => { port := 0x43#8, pinNumber := 12#8, port_ok := by decide, pinNumber_lt := by decide }
  | true => { port := 0x43#8, pinNumber := 4#8, port_ok := by decide, pinNumber_lt := by decide }

/-- Both LEDs are initialized, the first is switched on and the second is toggled. -/
theorem digitalOutput_levels_leds : ∃ rcc s t, Rcc.init = .ok rcc ∧
    List.foldlM exec (Outputs.init ⟨rcc, fun port => Stm32Gpio.alloc (portPeriph port)⟩ leds)
      [.initializeOutput false, .initializeOutput true, .set false true] = .ok s ∧
    exec s (.toggle true) = .ok t ∧ Shows t.ports (leds false) (t.objects false).state ∧
    Shows t.ports (leds true) (t.objects true).state ∧
    OthersKept (leds true) s.ports t.ports := by
  obtain ⟨rcc, -, hinit, -⟩ := exists_reset
  have hleds : Function.Injective leds := by
    intro a b
    cases a <;> cases b <;> decide
  have hcalls :
      InitializedFirst ([.initializeOutput false, .initializeOutput true, .set false true] ++
      [Call.toggle true]) := by decide
  obtain ⟨s, t, hs, ht, hshows, hkept⟩ :=
    digitalOutput_levels leds hleds rcc rcc [] hinit (.nil rcc)
    (fun port => Stm32Gpio.alloc (portPeriph port))
    [.initializeOutput false, .initializeOutput true, .set false true] (.toggle true) hcalls
  exact ⟨rcc, s, t, hinit, hs, ht, hshows false (by simp), hshows true (by simp), hkept⟩

end Hal
end Especial
