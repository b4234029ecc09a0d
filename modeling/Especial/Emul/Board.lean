/-
# The board: a guest whose outputs are posted to the monitor

`stm32_p103_init` connects five output lines of the ports to `output_write_handler`,
which posts a command for each call.  The guest runs in the thread that posts: it does
not go on before all commands of its last step have been posted, while the command
thread goes on at any time.  What other threads do to the guest (a button that is
pressed) does not wait either.

`qemu_system_reset` lowers all output lines before the guest starts, so that the first
commands are those of the reset: the five LEDs are off (`resetCmds_eq`).

`Board` puts a guest (any state type with any steps) in front of the queue of commands.
All its frames are accounted for: those on the socket, those on their way and those of
the commands that are still to be posted are the frames of all commands so far, in order
(`board_frames`).
-/

import Especial.Afio.Basic
import Especial.Emul.Conservation

namespace Especial
namespace Emul

open Qemu Stm32 Lib Gpio Afio

/-! ### The output lines -/

/-- `outputs_irq`, as `stm32_p103_init` connects it to the outputs of the ports. -/
def outputsIrq (port : Fin GPIO_COUNT) (pin : ℕ) : Option ℕ :=
  match port.val, pin with
  | 2, 12 => some 0
  | 2, 3 => some 1
  | 2, 4 => some 2
  | 1, 8 => some 3
  | 1, 9 => some 4
  | _, _ => none

/-- `output_write_handler`. -/
def outputWriteHandler (n : ℕ) (level : BitVec 32) : List P103Cmd :=
  match n with
  | 0 => [postEventDigitalOut 0x43#8 12#8 level]
  | 1 => [postEventDigitalOut 0x43#8 3#8 level]
  | 2 => [postEventDigitalOut 0x43#8 4#8 level]
  | 3 => [postEventDigitalOut 0x42#8 8#8 level]
  | 4 => [postEventDigitalOut 0x42#8 9#8 level]
  | _ => []

/-- A call on an output line of a port. -/
def setIrq (port : Fin GPIO_COUNT) (call : ℕ × Bool) : List P103Cmd :=
  match outputsIrq port call.1 with
  | some n => outputWriteHandler n (if call.2 then 1#32 else 0#32)
  | none => []

/-- The commands that come from what the ports have done since `gpio`.  One step of the
guest writes to one port. -/
def portCmds (gpio gpio' : Fin GPIO_COUNT → Stm32Gpio) : List P103Cmd :=
  (List.finRange GPIO_COUNT).flatMap fun port =>
    ((gpio' port).outIrq.drop (gpio port).outIrq.length).flatMap (setIrq port)

/-- `output_write_handler` only posts outputs. -/
theorem mem_outputWriteHandler {n : ℕ} {level : BitVec 32} {cmd : P103Cmd}
    (h : cmd ∈ outputWriteHandler n level) : cmd.id = .DIGITAL_OUT := by
  unfold outputWriteHandler at h
  split at h
  case h_6 => exact absurd h List.not_mem_nil
  all_goals rw [List.mem_singleton.1 h]; rfl

/-- The commands of the ports can be posted. -/
theorem postable_of_mem_portCmds {gpio gpio' : Fin GPIO_COUNT → Stm32Gpio} {cmd : P103Cmd}
    (h : cmd ∈ portCmds gpio gpio') : cmd.Postable := by
  obtain ⟨port, -, h⟩ := List.mem_flatMap.1 h
  obtain ⟨call, -, h⟩ := List.mem_flatMap.1 h
  unfold setIrq at h
  split at h
  · exact Or.inr (mem_outputWriteHandler h)
  · simp at h

/-- Only one element of the list adds something. -/
theorem flatMap_ite_eq {α β : Type} [DecidableEq α] {l : List α} {a : α} (hl : l.Nodup)
    (ha : a ∈ l) (k : List β) : l.flatMap (fun c => if c = a then k else []) = k := by
  obtain ⟨l₁, l₂, rfl⟩ := List.append_of_mem ha
  have hne : ∀ c ∈ l₁ ++ l₂, c ≠ a := by
    rintro c hc rfl
    exact (List.nodup_middle.1 hl).notMem hc
  have hnil : ∀ l' : List α, (∀ c ∈ l', c ≠ a) →
      l'.flatMap (fun c => if c = a then k else []) = [] := fun l' h =>
    List.flatMap_eq_nil_iff.2 fun c hc => if_neg (h c hc)
  rw [List.flatMap_append, List.flatMap_cons, if_pos rfl,
    hnil l₁ fun c hc => hne c (List.mem_append_left _ hc),
    hnil l₂ fun c hc => hne c (List.mem_append_right _ hc), List.nil_append, List.append_nil]

/-- If only one port has done something. -/
theorem portCmds_eq {gpio gpio' : Fin GPIO_COUNT → Stm32Gpio} {port : Fin GPIO_COUNT}
    {calls : List (ℕ × Bool)} (hport : (gpio' port).outIrq = (gpio port).outIrq ++ calls)
    (hothers : ∀ p, p ≠ port → (gpio' p).outIrq = (gpio p).outIrq) :
    portCmds gpio gpio' = calls.flatMap (setIrq port) := by
  have hone : ∀ p, ((gpio' p).outIrq.drop (gpio p).outIrq.length).flatMap (setIrq p) =
      if p = port then calls.flatMap (setIrq port) else [] := fun p => by
    split_ifs with hp
    · rw [hp, hport, List.drop_left]
    · rw [hothers p hp, List.drop_length]
      rfl
  unfold portCmds
  simp only [hone]
  exact flatMap_ite_eq (List.nodup_finRange _) (List.mem_finRange port) _

/-! ### The guest and the queue -/

/-- The commands of the reset of the machine.  `bus_add_child` adds at the head, so that
the devices are reset in the reverse order of their creation. -/
def resetCmds : List P103Cmd :=
  (List.finRange GPIO_COUNT).reverse.flatMap fun port =>
    (Gpio.reset (Stm32Gpio.alloc (portPeriph port))).outIrq.flatMap (setIrq port)

/-- The reset reports that the five LEDs are off. -/
theorem resetCmds_eq : resetCmds =
    [postEventDigitalOut 0x43#8 3#8 0#32, postEventDigitalOut 0x43#8 4#8 0#32,
      postEventDigitalOut 0x43#8 12#8 0#32, postEventDigitalOut 0x42#8 8#8 0#32,
      postEventDigitalOut 0x42#8 9#8 0#32] := by decide

/-- A guest, the commands that are still to be posted, all commands so far, and the
emulator. -/
structure Board (σ : Type) where
  guest : σ
  pending : List P103Cmd
  history : List P103Cmd
  emul : P103EmulState

/-- The board after the reset of the machine, when the guest starts. -/
def Board.start {σ : Type} (guest : σ) : Board σ where
  guest := guest
  pending := resetCmds
  history := resetCmds
  emul := init

/-- Whose turn it is. -/
inductive Turn (ε : Type)
  | guest (e : ε)
  | emul (l : Label)
  deriving DecidableEq, Repr

variable {σ ε : Type}

/-- The events of the guest in a run. -/
def guestEvents (l : List (Turn ε)) : List ε :=
  l.filterMap fun
    | .guest e => some e
    | .emul _ => none

/-- A guest: its steps, the commands that a step makes, and the steps that are not its own
(of the other threads). -/
structure Guest (σ ε : Type) where
  step : σ → ε → Option σ
  cmds : σ → σ → List P103Cmd
  foreign : ε → Bool

/-- What happens in a turn.  The guest waits for its posts; the next command to post is the
first one pending. -/
def Board.step (guest : Guest σ ε) (b : Board σ) : Turn ε → Option (Board σ)
  | .guest e =>
    if b.emul.exited = false ∧ (guest.foreign e ∨ b.pending = [] ∧ b.emul.poster = .idle) then
      (guest.step b.guest e).map fun t => { b with
        guest := t
        pending := b.pending ++ guest.cmds b.guest t
        history := b.history ++ guest.cmds b.guest t }
    else none
  | .emul (.post cmd) =>
    if b.pending.head? = some cmd then
      (Emul.step b.emul (.post cmd)).map fun t => { b with pending := b.pending.tail, emul := t }
    else none
  | .emul l => (Emul.step b.emul l).map fun t => { b with emul := t }

/-- The same, case by case. -/
inductive BoardEffect (guest : Guest σ ε) (b : Board σ) : Turn ε → Board σ → Prop
  | guest {e : ε} {t : σ} (hstep : guest.step b.guest e = some t) :
      BoardEffect guest b (.guest e) { b with
        guest := t
        pending := b.pending ++ guest.cmds b.guest t
        history := b.history ++ guest.cmds b.guest t }
  | post {cmd : P103Cmd} {rest : List P103Cmd} {t : P103EmulState}
      (hpending : b.pending = cmd :: rest) (hstep : Step b.emul (.post cmd) t) :
      BoardEffect guest b (.emul (.post cmd)) { b with pending := rest, emul := t }
  | emul {l : Label} {t : P103EmulState} (hl : ∀ cmd, l ≠ .post cmd) (hstep : Step b.emul l t) :
      BoardEffect guest b (.emul l) { b with emul := t }

/-- Each `write` to the socket takes the whole frame. -/
def Board.WritesInFull (b : Board σ) : Turn ε → Prop
  | .guest _ => True
  | .emul l => Emul.WritesInFull b.emul l

instance (b : Board σ) (a : Turn ε) : Decidable (b.WritesInFull a) :=
  match a with
  | .guest _ => isTrue trivial
  | .emul l => inferInstanceAs (Decidable (Emul.WritesInFull b.emul l))

/-- All interleavings of the guest with the threads of the emulator, on a socket that
takes whole frames. -/
def BoardStep (guest : Guest σ ε) : Board σ → Turn ε → Board σ → Prop :=
  Guarded (fun b a b' => b.step guest a = some b') Board.WritesInFull

variable {guest : Guest σ ε} {b b' : Board σ} {l : List (Turn ε)}

/-- Every turn is one of the cases. -/
theorem step_boardEffect {a : Turn ε} (h : b.step guest a = some b') :
    BoardEffect guest b a b' := by
  cases a with
  | guest e =>
    rw [Board.step, Option.ite_none_right_eq_some] at h
    obtain ⟨t, ht, rfl⟩ := Option.map_eq_some_iff.1 h.2
    exact .guest ht
  | emul l =>
    cases l with
    | post cmd =>
      rw [Board.step, Option.ite_none_right_eq_some] at h
      obtain ⟨hhead, h⟩ := h
      obtain ⟨t, ht, rfl⟩ := Option.map_eq_some_iff.1 h
      obtain ⟨rest, hrest⟩ := List.head?_eq_some_iff.1 hhead
      rw [show b.pending.tail = rest by rw [hrest]; rfl]
      exact .post hrest ht
    | poster | connect | cmd | spurious | write | exit =>
      obtain ⟨t, ht, rfl⟩ := Option.map_eq_some_iff.1 h
      exact .emul (by simp) ht

/-- All frames: on the socket, on their way, and still to be posted. -/
def Board.frames (b : Board σ) : List (List Char) := Emul.frames b.emul ++ b.pending.map frame

/-- What holds in every state of the board. -/
structure BoardOk (b : Board σ) : Prop where
  queue : QueueOk b.emul
  postable : ∀ cmd ∈ b.pending, cmd.Postable
  frames : b.frames = b.history.map frame

/-- The board has it at the start. -/
theorem start_boardOk (s : σ) : BoardOk (Board.start s) := by
  refine ⟨init_queueOk, fun cmd hcmd => ?_, rfl⟩
  have hall : ∀ cmd ∈ resetCmds, cmd.id = .DIGITAL_OUT := by
    rw [resetCmds_eq]
    decide
  exact Or.inr (hall cmd hcmd)

/-- A turn of the emulator that is not a post adds no frame. -/
theorem step_emul_frames {s t : P103EmulState} {a : Label} (hq : QueueOk s)
    (ha : ∀ cmd, a ≠ .post cmd) (hfull : Emul.WritesInFull s a) (hstep : Step s a t) :
    QueueOk t ∧ Emul.frames t = Emul.frames s := by
  have hregular : Regular s a := by
    cases a with
    | post cmd => exact absurd rfl (ha cmd)
    | write res => exact Or.inr (hfull res rfl)
    | poster | connect | cmd | spurious | exit => trivial
  obtain ⟨hok, hframes⟩ := step_adds hq ⟨hstep, hregular⟩
  refine ⟨hok, hframes.trans ?_⟩
  cases a with
  | post cmd => exact absurd rfl (ha cmd)
  | write | poster | connect | cmd | spurious | exit => exact List.append_nil _

/-- **A turn** keeps the account of the frames. -/
theorem step_boardOk (hcmds : ∀ s t, ∀ cmd ∈ guest.cmds s t, cmd.Postable) {a : Turn ε}
    (h : BoardOk b) (hstep : BoardStep guest b a b') : BoardOk b' := by
  obtain ⟨hstep, hfull⟩ := hstep
  cases step_boardEffect hstep with
  | guest hguest =>
    refine ⟨h.queue, fun cmd hcmd => ?_, ?_⟩
    · rcases List.mem_append.1 hcmd with hcmd | hcmd
      · exact h.postable cmd hcmd
      · exact hcmds _ _ cmd hcmd
    · have hframes := h.frames
      rw [Board.frames] at hframes
      show Emul.frames b.emul ++ _ = _
      rw [List.map_append, List.map_append, ← List.append_assoc, hframes]
  | @post cmd rest t hpending hemul =>
    have hcmd : cmd.Postable := h.postable cmd (by rw [hpending]; exact List.mem_cons_self)
    obtain ⟨hok, hframes⟩ := step_adds h.queue ⟨hemul, hcmd⟩
    refine ⟨hok, fun c hc => h.postable c (by rw [hpending]; exact List.mem_cons_of_mem cmd hc),
      ?_⟩
    show Emul.frames t ++ _ = _
    rw [hframes, ← h.frames, Board.frames, hpending]
    simp [Label.posted]
  | @emul a t ha hemul =>
    obtain ⟨hok, hframes⟩ := step_emul_frames h.queue ha hfull hemul
    refine ⟨hok, h.postable, ?_⟩
    show Emul.frames t ++ _ = _
    rw [hframes]
    exact h.frames

/-- **The frames of a board**, in every state of every interleaving. -/
theorem board_frames (hcmds : ∀ s t, ∀ cmd ∈ guest.cmds s t, cmd.Postable) {s : σ}
    (hrun : Run (BoardStep guest) (Board.start s) l b) : b.frames = b.history.map frame :=
  (hrun.invariant (fun _ _ _ h hstep => step_boardOk hcmds h hstep) (start_boardOk s)).frames

/-- **What the guest and its commands satisfy along its own runs**, they satisfy on the
board: the emulator does not interfere. -/
theorem board_invariant {P : List ε → σ → List P103Cmd → Prop} {s : σ}
    (h₀ : P [] s resetCmds)
    (hstep : ∀ es s hist e t, P es s hist → guest.step s e = some t →
      P (es ++ [e]) t (hist ++ guest.cmds s t))
    (hrun : Run (BoardStep guest) (Board.start s) l b) : P (guestEvents l) b.guest b.history := by
  refine hrun.invariant_hist
    (P := fun (l : List (Turn ε)) (b : Board σ) => P (guestEvents l) b.guest b.history)
    (fun l b a b' hP h => ?_) h₀
  have hsnoc : guestEvents (l ++ [a]) = guestEvents l ++ guestEvents [a] := List.filterMap_append
  rw [hsnoc]
  cases step_boardEffect h.1 with
  | @guest e t hguest => exact hstep _ _ _ e t hP hguest
  | post _ _ => simpa [guestEvents] using hP
  | emul _ _ => simpa [guestEvents] using hP

/-- A condition on the turns of the guest. -/
def Board.Meets (G : σ → ε → Prop) (b : Board σ) : Turn ε → Prop
  | .guest e => G b.guest e
  | .emul _ => True

instance {G : σ → ε → Prop} [∀ s e, Decidable (G s e)] (b : Board σ) (a : Turn ε) :
    Decidable (b.Meets G a) :=
  match a with
  | .guest e => inferInstanceAs (Decidable (G b.guest e))
  | .emul _ => isTrue trivial

/-- **The guest's part** of a run is a run of the guest. -/
theorem board_guest {G : σ → ε → Prop}
    (hrun : Run (Guarded (BoardStep guest) (Board.Meets G)) b l b') :
    Run (Guarded (fun s e t => guest.step s e = some t) G) b.guest (guestEvents l) b'.guest := by
  induction hrun with
  | nil _ => exact .nil _
  | @cons b a b₁ l b' hstep _ ih =>
    obtain ⟨hstep, hG⟩ := hstep
    cases step_boardEffect hstep.1 with
    | guest hguest => exact .cons ⟨hguest, hG⟩ ih
    | post _ _ => exact ih
    | emul _ _ => exact ih

end Emul
end Especial
