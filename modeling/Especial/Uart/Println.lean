/-
# Strings sent by polling

`println` of `src/hal/helper.c` calls `send_byte` for the characters of a string, one after
the other, until it reads the NUL at the end.  Its index is a `uint8_t`: after `s[255]` comes
`s[0]` again.  A string of at most 255 characters has its NUL where the index can reach it, and
is sent; a longer one never ends (`println_sends_iff`).

`println` makes no access of its own to the USART, so the system of `SendByte`, given the calls
of `println`, is the system in which it runs (`println_delivered`).
-/

import Especial.Uart.SendByte
import Especial.Lib.Loop

namespace Especial
namespace Uart
namespace Println

open Qemu Lib

/-- The characters of a string in front of the NUL that ends it. -/
structure CString where
  chars : List (BitVec 8)
  nonzero : 0x00#8 ∉ chars

/-- `s[i]`. -/
def CString.read (s : CString) (i : BitVec 8) : Except Fault (BitVec 8) :=
  match (s.chars ++ [0x00#8])[i.toNat]? with
  | some c => return c
  | none => throw (.outOfBounds "s")

/-- The variables of `println`. -/
structure Vars where
  i : BitVec 8
  /-- the calls of `send_byte` -/
  calls : List (BitVec 8)

/-- A turn of the loop of `println`. -/
def turn (s : CString) (v : Vars) : Except Fault (Turn Vars (List (BitVec 8))) := do
  let c ← s.read v.i
  if c ≠ 0x00#8 then return .again { i := v.i + 1#8, calls := v.calls ++ [c] }
  else return .exit v.calls

/-- `println`, for at most `n` turns; it returns the calls of `send_byte`. -/
def println (s : CString) (n : ℕ) : Option (Except Fault (List (BitVec 8))) :=
  loop (turn s) n { i := 0#8, calls := [] }

variable {s : CString} {v : Vars}

/-! ### A turn -/

/-- A character is sent, and the index goes on. -/
theorem turn_of_lt (h : v.i.toNat < s.chars.length) : turn s v =
    .ok (.again { i := v.i + 1#8, calls := v.calls ++ [s.chars[v.i.toNat]] }) := by
  have hread : s.read v.i = .ok s.chars[v.i.toNat] := by
    rw [CString.read, List.getElem?_append_left h, List.getElem?_eq_getElem h]
    rfl
  have hne : s.chars[v.i.toNat] ≠ 0x00#8 := fun h0 => s.nonzero (h0 ▸ List.getElem_mem h)
  rw [turn, hread, ok_bind, if_pos hne]
  rfl

/-- The NUL ends the loop. -/
theorem turn_of_eq (h : v.i.toNat = s.chars.length) : turn s v = .ok (.exit v.calls) := by
  have hread : s.read v.i = .ok 0x00#8 := by
    rw [CString.read, h, List.getElem?_concat_length]
    rfl
  rw [turn, hread, ok_bind]
  rfl

/-! ### All turns -/

/-- `n` characters are left: those before them have been sent. -/
structure Left (s : CString) (n : ℕ) (v : Vars) : Prop where
  index : v.i.toNat + n = s.chars.length
  calls : v.calls = s.chars.take v.i.toNat

/-- **A short string is sent**, in one turn for each character and one for the NUL. -/
theorem println_ends (hs : s.chars.length < 256) :
    EndsIn (turn s) { i := 0#8, calls := [] } (s.chars.length + 1) (.ok s.chars) := by
  refine EndsIn.of_variant (V := Left s) (fun n v hv => ?_) (fun v hv => ?_) ⟨by simp, by simp⟩
  · have hlt : v.i.toNat < s.chars.length := by have := hv.index; omega
    refine ⟨_, turn_of_lt hlt, ?_⟩
    have hi : (v.i + 1#8).toNat = v.i.toNat + 1 := by
      rw [BitVec.toNat_add, BitVec.toNat_ofNat]
      omega
    refine ⟨?_, ?_⟩
    · show (v.i + 1#8).toNat + n = s.chars.length
      have := hv.index
      omega
    · show v.calls ++ [s.chars[v.i.toNat]] = s.chars.take (v.i + 1#8).toNat
      rw [hi, hv.calls, List.take_append_getElem hlt]
  · have hi : v.i.toNat = s.chars.length := hv.index
    rw [turn_of_eq hi, hv.calls, hi, List.take_length]

/-- **A long string is never sent**: the index cannot leave its first 256 characters. -/
theorem println_diverges (hs : 256 ≤ s.chars.length) :
    Diverges (turn s) { i := 0#8, calls := [] } := by
  refine Diverges.of_invariant (I := fun _ => True) (fun v _ => ?_) trivial
  have hi := v.i.isLt
  exact ⟨_, turn_of_lt (by omega), trivial⟩

/-- **Which strings `println` sends.**  It returns, and has then called `send_byte` with the
characters of the string, in order and each once, exactly if there are at most 255 of them.
For any other string it does not return. -/
theorem println_sends_iff (s : CString) :
    ((∃ n, println s n = some (.ok s.chars)) ↔ s.chars.length < 256) ∧
      (256 ≤ s.chars.length → ∀ n, println s n = none) := by
  refine ⟨⟨fun h => ?_, fun hs => ⟨_, (println_ends hs).ends⟩⟩, println_diverges⟩
  obtain ⟨n, hn⟩ := h
  by_contra hs
  have hnone : println s n = none := println_diverges (by omega) n
  exact absurd (hn.symm.trans hnone) nofun

/-- Two characters. -/
theorem println_sends_two : ∃ s : CString, s.chars = [0x48#8, 0x69#8] ∧
    ∃ n, println s n = some (.ok s.chars) :=
  ⟨⟨[0x48#8, 0x69#8], by decide⟩, rfl, (println_sends_iff _).1.2 (by decide)⟩

/-- A string of 256 characters. -/
theorem println_256_diverges : ∃ s : CString, s.chars = List.replicate 256 0x41#8 ∧
    ∀ n, println s n = none :=
  ⟨⟨List.replicate 256 0x41#8, fun h => absurd (List.eq_of_mem_replicate h) (by decide)⟩, rfl,
    println_diverges List.length_replicate.ge⟩

/-! ### On the USART -/

/-- **What `println` sends arrives.**  The firmware makes the calls of a `println` that returns,
on a USART that is enabled and idle, and the timers expire and characters come in as they may.
When the last call has returned, the backend has been handed the string. -/
theorem println_delivered {u₀ : Stm32Uart} {n : ℕ} {calls : List (BitVec 8)}
    {l : List (Env × SendByte.Label)} {t : SendByte.Sys} (hready : SendByte.Ready u₀)
    (hprintln : println s n = some (.ok calls))
    (hrun : Run SendByte.Step (SendByte.start u₀ calls) l t)
    (htodo : t.todo = []) (hpc : t.pc = .idle) : t.uart.chr = u₀.chr.map (· ++ s.chars) := by
  have hshort : s.chars.length < 256 := by
    by_contra hs
    exact absurd (hprintln.symm.trans (println_diverges (by omega) n)) nofun
  have hcalls : calls = s.chars :=
    Except.ok.inj (loop_unique hprintln (println_ends hshort).ends)
  have hsending := SendByte.sending_of_run hready hrun
  have hsent : t.sent = s.chars := by
    rw [← hcalls, ← hsending.bytes, htodo, List.append_nil]
  rw [hsending.delivered hpc, hsent]

end Println
end Uart
end Especial
