/-
# What the monitor can read from the frames

The command thread prints each command as one line of text with decimal fields
(`CMD_PERIPH`, `CMD_EVENT`).  The fields end where the first character comes that is not
a digit, and the line ends at the newline, which is nowhere else; so the stream of frames
determines the commands (`stream_inj`), without any length in front of a frame.
-/

import Especial.Emul.Queue
import Especial.Lib.Framing

namespace Especial
namespace Emul

open Lib

/-! ### Decimal fields -/

/-- The characters of a decimal field. -/
theorem mem_decimal {v : ℤ} {c : Char} (hc : c ∈ decimal v) : c = '-' ∨ c.isDigit = true := by
  have hdigit : ∀ n, c ∈ Nat.toDigits 10 n → c.isDigit = true := fun n h =>
    Nat.isDigit_of_mem_toDigits (by decide) (by decide) h
  unfold decimal at hc
  split_ifs at hc
  · rcases List.mem_cons.1 hc with rfl | hc
    · exact .inl rfl
    · exact .inr (hdigit _ hc)
  · exact .inr (hdigit _ hc)

/-- A number has no characters other than digits and the minus sign. -/
theorem not_mem_decimal {c : Char} (hminus : c ≠ '-') (hdigit : c.isDigit = false) (v : ℤ) :
    c ∉ decimal v := fun h => by
  rcases mem_decimal h with rfl | h
  · exact hminus rfl
  · exact absurd (hdigit.symm.trans h) Bool.false_ne_true

/-- The digits of a number determine it. -/
theorem toDigits_inj {m n : ℕ} (h : Nat.toDigits 10 m = Nat.toDigits 10 n) : m = n := by
  rw [← Nat.ofDigitChars_ten_toDigits (n := m), h, Nat.ofDigitChars_ten_toDigits]

/-- **A decimal field determines its number.** -/
theorem decimal_inj {v w : ℤ} (h : decimal v = decimal w) : v = w := by
  have hne : ∀ m n, '-' :: Nat.toDigits 10 m ≠ Nat.toDigits 10 n := fun m n h => by
    have hmem : '-' ∈ Nat.toDigits 10 n := h ▸ List.mem_cons_self
    have hdigit := Nat.isDigit_of_mem_toDigits (by decide) (by decide) hmem
    exact absurd hdigit (by decide)
  unfold decimal at h
  split_ifs at h with hv hw hw
  · have := toDigits_inj (List.cons.inj h).2
    omega
  · exact absurd h (hne _ _)
  · exact absurd h.symm (hne _ _)
  · have := toDigits_inj h
    omega

/-- A number of ten digits or less. -/
theorem length_decimal_le {v : ℤ} {k : ℕ} (hk : 0 < k) (hv : v.natAbs < 10 ^ k) :
    (decimal v).length ≤ k + 1 := by
  have hlen : ∀ n, n < 10 ^ k → (Nat.toDigits 10 n).length ≤ k := fun n hn =>
    (Nat.length_toDigits_le_iff (by decide) hk).2 hn
  unfold decimal
  split_ifs
  · exact Nat.succ_le_succ (hlen _ hv)
  · exact (hlen _ (by omega)).trans (Nat.le_succ k)

/-! ### The commands and their frames -/

/-- The commands that are posted. -/
inductive Posting
  | digitalOut (port pin : BitVec 8) (value : BitVec 32)
  | cEvent (eventId : BitVec 8)
  deriving DecidableEq, Repr

/-- The post. -/
def Posting.cmd : Posting → P103Cmd
  | .digitalOut port pin value => postEventDigitalOut port pin value
  | .cEvent eventId => postEventC eventId

/-- The port is a letter from 'A' to 'G'. -/
def Posting.Lettered : Posting → Prop
  | .digitalOut port _ _ => 'A'.toNat ≤ port.toNat ∧ port.toNat ≤ 'G'.toNat
  | .cEvent _ => True

/-- `snprintf(str, size, ...)`: what is in the buffer before the null byte, and the number
of characters that the text has. -/
def snprintf (size : ℕ) (text : List Char) : List Char × ℕ :=
  (text.take (size - 1), text.length)

/-- `sizeof(cmd_str)`. -/
def CMD_STR_SIZE : ℕ := 128

/-- The characters on the socket. -/
def stream (posts : List Posting) : List Char := posts.flatMap fun p => frame p.cmd

variable {p q : Posting}

/-- The codes of ASCII characters are told apart. -/
theorem ofNat_inj {m n : ℕ} (hm : m < 128) (hn : n < 128) (h : Char.ofNat m = Char.ofNat n) :
    m = n := by
  have hchar : ∀ k < 128, (Char.ofNat k).toNat = k := by decide
  rw [← hchar m hm, h, hchar n hn]

/-- A character below 128 is read back from the frame. -/
theorem character_inj {c d : BitVec 8} (hc : c.toNat < 128) (hd : d.toNat < 128)
    (h : character c = character d) : c = d :=
  BitVec.eq_of_toNat_eq (ofNat_inj hc hd (List.cons.inj h).1)

/-- The fixed parts of the frames, as far as the proofs need to know them. -/
structure Layout (K A B D F : List Char) : Prop where
  digitalOut : ∀ port pin value, frame (Posting.digitalOut port pin value).cmd =
    K ++ '0' :: (A ++ (character port ++ (B ++ (decimal pin.toNat ++ '\x7d' :: (D ++
      (decimal value.toInt ++ ['\x7d', '\n']))))))
  cEvent : ∀ eventId, frame (Posting.cEvent eventId).cmd =
    K ++ '1' :: (F ++ (decimal (eventId.setWidth 32).toInt ++ ['\x7d', '\n']))
  newline : '\n' ∉ K ++ A ++ B ++ D ++ F
  length : (K ++ A ++ B ++ D ++ F).length ≤ 64

/-- The two formats have such fixed parts. -/
theorem exists_layout : ∃ K A B D F, Layout K A B D F := by
  have hend : "\x7d\n".toList = ['\x7d', '\n'] := by decide +kernel
  have hpin : "\x7d,\"value\":".toList = '\x7d' :: ",\"value\":".toList := by decide +kernel
  have hzero : decimal EventId.DIGITAL_OUT.val = ['0'] := by decide +kernel
  have hsixteen : decimal EventId.C_EVENT.val = ['1', '6'] := by decide +kernel
  refine ⟨"\x7b\"msgId\":".toList, ",\"pin\":\x7b\"port\":\"".toList, "\",\"nbr\":".toList,
    ",\"value\":".toList, '6' :: ",\"value\":".toList, fun port pin value => ?_, fun eventId => ?_,
    by decide +kernel, by decide +kernel⟩
  · show cmdPeriph (postEventDigitalOut port pin value) = _
    unfold cmdPeriph
    rw [hend, hpin, show (postEventDigitalOut port pin value).id = .DIGITAL_OUT from rfl, hzero]
    simp only [List.append_assoc, List.cons_append, List.nil_append, postEventDigitalOut]
  · show cmdEvent (postEventC eventId) = _
    unfold cmdEvent
    rw [hend, show (postEventC eventId).id = .C_EVENT from rfl, hsixteen]
    simp only [List.append_assoc, List.cons_append, List.nil_append, postEventC]

variable {K A B D F : List Char}

/-- The letter of a port is not the end of a frame. -/
theorem newline_ne_letter {port : BitVec 8} (h : (Posting.digitalOut port 0 0).Lettered) :
    '\n' ∉ character port := fun hmem => by
  have hA : 65 ≤ port.toNat := h.1
  have hG : port.toNat ≤ 71 := h.2
  have heq : Char.ofNat 10 = Char.ofNat port.toNat := List.mem_singleton.1 hmem
  have := ofNat_inj (by decide) (by omega) heq
  omega

/-- **A frame ends in a newline** and has no other. -/
theorem Layout.terminated (hL : Layout K A B D F) (hp : p.Lettered) :
    Terminated '\n' (frame p.cmd) := by
  have hdecimal : ∀ v, '\n' ∉ decimal v := not_mem_decimal (by decide) (by decide)
  have hnew := hL.newline
  simp only [List.mem_append, not_or] at hnew
  obtain ⟨⟨⟨⟨hK, hA⟩, hB⟩, hD⟩, hF⟩ := hnew
  cases p with
  | digitalOut port pin value =>
    refine ⟨K ++ '0' :: (A ++ (character port ++ (B ++ (decimal pin.toNat ++ '\x7d' :: (D ++
      (decimal value.toInt ++ ['\x7d'])))))), ?_, ?_⟩
    · rw [hL.digitalOut]
      simp only [List.append_assoc, List.cons_append, List.nil_append]
    · simp only [List.mem_append, List.mem_cons, List.not_mem_nil, or_false, not_or]
      exact ⟨hK, by decide, hA, newline_ne_letter hp, hB, hdecimal _, by decide, hD, hdecimal _,
        by decide⟩
  | cEvent eventId =>
    refine ⟨K ++ '1' :: (F ++ (decimal (eventId.setWidth 32).toInt ++ ['\x7d'])), ?_, ?_⟩
    · rw [hL.cEvent]
      simp only [List.append_assoc, List.cons_append, List.nil_append]
    · simp only [List.mem_append, List.mem_cons, List.not_mem_nil, or_false, not_or]
      exact ⟨hK, by decide, hF, hdecimal _, by decide⟩

/-- **A frame fits into the buffer.** -/
theorem Layout.length_frame (hL : Layout K A B D F) (p : Posting) :
    (frame p.cmd).length < CMD_STR_SIZE := by
  have hvalue : ∀ v : BitVec 32, (decimal v.toInt).length ≤ 11 := fun v =>
    length_decimal_le (by decide) (by have := v.isLt; rw [BitVec.toInt_eq_toNat_cond]; omega)
  have hlen := hL.length
  simp only [List.length_append] at hlen
  unfold CMD_STR_SIZE
  cases p with
  | digitalOut port pin value =>
    have hpin : (decimal pin.toNat).length ≤ 4 :=
      length_decimal_le (by decide) (by have := pin.isLt; omega)
    have hval := hvalue value
    rw [hL.digitalOut]
    simp only [List.length_append, List.length_cons, List.length_nil, character]
    omega
  | cEvent eventId =>
    have hval := hvalue (eventId.setWidth 32)
    rw [hL.cEvent]
    simp only [List.length_append, List.length_cons, List.length_nil]
    omega

/-- **A frame determines its command.** -/
theorem Layout.frame_inj (hL : Layout K A B D F) (hp : p.Lettered) (hq : q.Lettered)
    (h : frame p.cmd = frame q.cmd) : p = q := by
  have hbrace : ∀ v, '\x7d' ∉ decimal v := not_mem_decimal (by decide) (by decide)
  cases p with
  | digitalOut port pin value =>
    cases q with
    | digitalOut port' pin' value' =>
      rw [hL.digitalOut, hL.digitalOut] at h
      have h := List.append_cancel_left (List.cons.inj (List.append_cancel_left h)).2
      obtain ⟨hport, h⟩ := List.append_inj h rfl
      obtain ⟨hpin, h⟩ := append_cons_inj (hbrace _) (hbrace _) (List.append_cancel_left h)
      obtain ⟨hvalue, -⟩ := append_cons_inj (hbrace _) (hbrace _) (List.append_cancel_left h)
      have hA : port.toNat ≤ 71 := hp.2
      have hA' : port'.toNat ≤ 71 := hq.2
      rw [character_inj (by omega) (by omega) hport,
        BitVec.eq_of_toNat_eq (Int.ofNat.inj (decimal_inj hpin)),
        BitVec.eq_of_toInt_eq (decimal_inj hvalue)]
    | cEvent eventId =>
      rw [hL.digitalOut, hL.cEvent] at h
      exact absurd (List.cons.inj (List.append_cancel_left h)).1 (by decide)
  | cEvent eventId =>
    cases q with
    | digitalOut port' pin' value' =>
      rw [hL.digitalOut, hL.cEvent] at h
      exact absurd (List.cons.inj (List.append_cancel_left h)).1 (by decide)
    | cEvent eventId' =>
      rw [hL.cEvent, hL.cEvent] at h
      have h := List.append_cancel_left (List.cons.inj (List.append_cancel_left h)).2
      obtain ⟨hvalue, -⟩ := append_cons_inj (hbrace _) (hbrace _) h
      have hwide := congrArg BitVec.toNat (BitVec.eq_of_toInt_eq (decimal_inj hvalue))
      simp only [BitVec.toNat_setWidth] at hwide
      have hlt := eventId.isLt
      have hlt' := eventId'.isLt
      rw [Nat.mod_eq_of_lt (by omega), Nat.mod_eq_of_lt (by omega)] at hwide
      rw [BitVec.eq_of_toNat_eq hwide]

/-- **The stream determines the commands.**  The frame of a posted command is not cut off
by the buffer; its last character is a newline, and it has no other; and two sequences of
posted commands with the same stream are the same. -/
theorem stream_inj :
    (∀ p : Posting, p.Lettered →
      snprintf CMD_STR_SIZE (frame p.cmd) = (frame p.cmd, (frame p.cmd).length) ∧
      (frame p.cmd).getLast? = some '\n' ∧ (frame p.cmd).count '\n' = 1) ∧
    ∀ posts posts' : List Posting, (∀ p ∈ posts, p.Lettered) →
      (∀ p ∈ posts', p.Lettered) → stream posts = stream posts' → posts = posts' := by
  obtain ⟨K, A, B, D, F, hL⟩ := exists_layout
  refine ⟨fun p hp => ⟨?_, ?_, ?_⟩, fun posts posts' hposts hposts' h => ?_⟩
  · have hlen := hL.length_frame p
    rw [snprintf, List.take_of_length_le (by omega)]
  · obtain ⟨body, hbody, -⟩ := hL.terminated hp
    rw [hbody, List.getLast?_concat]
  · obtain ⟨body, hbody, hnew⟩ := hL.terminated hp
    rw [hbody, List.count_append, List.count_eq_zero_of_not_mem hnew]
    rfl
  · exact flatMap_inj (fun _ => hL.terminated) (fun _ _ => hL.frame_inj) hposts hposts' h

/-- Two outputs and an event: their frames fit, and no other commands have their stream. -/
theorem stream_inj_outputs : ∀ posts : List Posting, (∀ p ∈ posts, p.Lettered) →
    stream posts = stream [.digitalOut 0x43 12 1, .cEvent 7, .digitalOut 0x42 8 0xffffffff] →
      posts = [.digitalOut 0x43 12 1, .cEvent 7, .digitalOut 0x42 8 0xffffffff] ∧
      ∀ p ∈ posts,
      snprintf CMD_STR_SIZE (frame p.cmd) = (frame p.cmd, (frame p.cmd).length) := by
  intro posts hposts h
  refine ⟨stream_inj.2 posts _ hposts (fun p hp => ?_) h,
    fun p hp => (stream_inj.1 p (hposts p hp)).1⟩
  simp only [List.mem_cons, List.not_mem_nil, or_false] at hp
  rcases hp with rfl | rfl | rfl
  · exact ⟨by decide, by decide⟩
  · trivial
  · exact ⟨by decide, by decide⟩

end Emul
end Especial
