/-
# Frames on a stream

A stream carries frames of `k` symbols and is read in chunks that can end anywhere.
`cut k` gives the frames of the stream.  A reader that looks at each chunk by itself
and takes it for a frame when it has `k` symbols sees the frames of the stream if the
chunks are `Whole`: from the first chunk that is not a frame on, there are fewer than
`k` symbols (`filter_eq_cut`).  Nothing weaker will do for every stream, if there are
a frame with no effect and one that differs from it in the first symbol and has an
effect (`whole_of_forall`).

Frames of any size that end in a symbol that is nowhere else in them (`Terminated`) need
no more than that to be told apart: the stream determines them (`flatMap_inj`).
-/

import Mathlib.Algebra.GroupWithZero.Nat
import Mathlib.Algebra.Order.BigOperators.Group.List
import Mathlib.Algebra.Order.Group.Nat

namespace Especial
namespace Lib

universe u v
variable {α : Type u} {β : Type v} {k : ℕ}

/-- The frames of a stream. -/
def cut (k : ℕ) (stream : List α) : List (List α) :=
  (List.range (stream.length / k)).map fun i => (stream.drop (k * i)).take k

/-- With chunks of these lengths, each frame is a chunk. -/
def Whole (k : ℕ) : List ℕ → Prop
  | [] => True
  | n :: ns => n = k ∧ Whole k ns ∨ n + ns.sum < k

instance Whole.decidable (k : ℕ) : (ns : List ℕ) → Decidable (Whole k ns)
  | [] => isTrue trivial
  | n :: ns =>
    have := Whole.decidable k ns
    inferInstanceAs (Decidable (n = k ∧ Whole k ns ∨ n + ns.sum < k))

/-- An unfinished frame is none. -/
theorem cut_of_length_lt {stream : List α} (h : stream.length < k) : cut k stream = [] := by
  simp [cut, Nat.div_eq_of_lt h]

/-- **The first frame of a stream** is cut off, and the rest is cut. -/
theorem cut_append (hk : 0 < k) {frame : List α} (hframe : frame.length = k) (stream : List α) :
    cut k (frame ++ stream) = frame :: cut k stream := by
  have hdrop : ∀ i, (frame ++ stream).drop (k * (i + 1)) = stream.drop (k * i) := by
    intro i
    have hle : frame.length ≤ k * (i + 1) := by
      rw [hframe]
      exact Nat.le_mul_of_pos_right k i.succ_pos
    rw [List.drop_append, List.drop_eq_nil_of_le hle, hframe, List.nil_append, Nat.mul_succ,
      Nat.add_sub_cancel]
  rw [cut, List.length_append, hframe, Nat.add_div_left _ hk, List.range_succ_eq_map, List.map_cons,
    List.map_map]
  congr 1
  · simp [hframe]
  · exact List.map_congr_left fun i _ => by rw [Function.comp_apply, hdrop]

/-- Chunks that have fewer than `k` symbols together contain no frame. -/
theorem filter_eq_nil_of_sum_lt {chunks : List (List α)} (h : (chunks.map List.length).sum < k) :
    chunks.filter (fun c => c.length = k) = [] := by
  refine List.filter_eq_nil_iff.2 fun c hc hlen => ?_
  have hle : c.length ≤ (chunks.map List.length).sum :=
    List.le_sum_of_mem (List.mem_map_of_mem hc)
  have hk : c.length = k := by simpa using hlen
  omega

/-- **Whole chunks** give the frames of the stream. -/
theorem filter_eq_cut (hk : 0 < k) {chunks : List (List α)}
    (h : Whole k (chunks.map List.length)) :
    chunks.filter (fun c => c.length = k) = cut k chunks.flatten := by
  induction chunks with
  | nil => exact (cut_of_length_lt hk).symm
  | cons c chunks ih =>
    rcases h with ⟨hc, hrest⟩ | hlt
    · rw [List.filter_cons_of_pos (by simpa using hc), ih hrest, List.flatten_cons,
        cut_append hk hc]
    · have hsum : ((c :: chunks).map List.length).sum < k := by simpa using hlt
      have hlen : (c :: chunks).flatten.length < k := by rw [List.length_flatten]; exact hsum
      rw [filter_eq_nil_of_sum_lt hsum, cut_of_length_lt hlen]

section Converse

variable {decode : List α → List β} {quiet loud : α}

/-- The chunks of the given lengths that consist of quiet symbols. -/
theorem quiet_chunks (hquiet : decode (List.replicate k quiet) = []) (ns : List ℕ) :
    ((ns.map fun n => List.replicate n quiet).filter fun c => c.length = k).flatMap decode =
      [] := by
  refine List.flatMap_eq_nil_iff.2 fun c hc => ?_
  obtain ⟨hmem, hlen⟩ := List.mem_filter.1 hc
  obtain ⟨n, -, rfl⟩ := List.mem_map.1 hmem
  have hn : n = k := by simpa using hlen
  rw [hn]
  exact hquiet

/-- Chunks of one symbol, joined. -/
theorem flatten_replicate_map (ns : List ℕ) (x : α) :
    (ns.map fun n => List.replicate n x).flatten = List.replicate ns.sum x := by
  induction ns with
  | nil => rfl
  | cons n ns ih =>
    rw [List.map_cons, List.flatten_cons, ih, List.replicate_append_replicate, List.sum_cons]

/-- **Only whole chunks** give the frames of every stream. -/
theorem whole_of_forall (decode : List α → List β) (quiet loud : α)
    (hquiet : decode (List.replicate k quiet) = [])
    (hloud : decode (loud :: List.replicate (k - 1) quiet) ≠ []) {ns : List ℕ}
    (hns : ∀ n ∈ ns, 0 < n ∧ n ≤ k)
    (h : ∀ chunks : List (List α), chunks.map List.length = ns →
      (chunks.filter fun c => c.length = k).flatMap decode =
      (cut k chunks.flatten).flatMap decode) :
    Whole k ns := by
  induction ns with
  | nil => trivial
  | cons n ns ih =>
    obtain ⟨hpos, hle⟩ := hns n List.mem_cons_self
    have hk : 0 < k := hpos.trans_le hle
    by_cases hn : n = k
    · -- a quiet frame in front of the other chunks changes nothing
      refine Or.inl
        ⟨hn, ih (fun m hm => hns m (List.mem_cons_of_mem n hm)) fun chunks hlen => ?_⟩
      have hcons := h (List.replicate k quiet :: chunks) (by simp [hlen, hn])
      rw [List.filter_cons_of_pos (by simp), List.flatten_cons, cut_append hk (by simp),
        List.flatMap_cons, List.flatMap_cons, hquiet] at hcons
      simpa using hcons
    · -- the loud symbol is in a short chunk, and the rest completes its frame
      refine Or.inr (Nat.lt_of_not_le fun hge => ?_)
      have hlt : n < k := lt_of_le_of_ne hle hn
      let first := loud :: List.replicate (n - 1) quiet
      have hfirst : first.length = n := by
        simp only [first, List.length_cons, List.length_replicate]
        omega
      have hall := h (first :: ns.map fun n => List.replicate n quiet)
        (by simp [hfirst, Function.comp_def])
      rw [List.filter_cons_of_neg (by simp [hfirst, hn]), quiet_chunks hquiet, List.flatten_cons,
        flatten_replicate_map] at hall
      have hstream : first ++ List.replicate ns.sum quiet =
          (loud :: List.replicate (k - 1) quiet) ++ List.replicate (n + ns.sum - k) quiet := by
        simp only [first, List.cons_append, List.replicate_append_replicate]
        congr 2
        omega
      have hframe : (loud :: List.replicate (k - 1) quiet).length = k := by
        simp only [List.length_cons, List.length_replicate]
        omega
      rw [hstream, cut_append hk hframe, List.flatMap_cons] at hall
      exact hloud (List.append_eq_nil_iff.1 hall.symm).1

end Converse

/-! ### Frames with an end symbol -/

/-- A field ends at the first symbol that is not in it. -/
theorem append_cons_inj {x : α} {l l' r r' : List α} (hl : x ∉ l) (hl' : x ∉ l')
    (h : l ++ x :: r = l' ++ x :: r') : l = l' ∧ r = r' := by
  induction l generalizing l' with
  | nil =>
    cases l' with
    | nil => exact ⟨rfl, (List.cons.inj h).2⟩
    | cons y l' => exact absurd ((List.cons.inj h).1 ▸ List.mem_cons_self) hl'
  | cons y l ih =>
    cases l' with
    | nil => exact absurd ((List.cons.inj h).1 ▸ List.mem_cons_self) hl
    | cons z l' =>
      obtain ⟨rfl, htail⟩ := List.cons.inj h
      obtain ⟨rfl, rfl⟩ := ih (fun hx => hl (List.mem_cons_of_mem y hx))
        (fun hx => hl' (List.mem_cons_of_mem y hx)) htail
      exact ⟨rfl, rfl⟩

/-- The symbol is the last one of the frame and nowhere else in it. -/
def Terminated (x : α) (frame : List α) : Prop := ∃ body, frame = body ++ [x] ∧ x ∉ body

/-- **Where a terminated frame ends is seen in the stream.** -/
theorem Terminated.append_inj {x : α} {f f' r r' : List α} (hf : Terminated x f)
    (hf' : Terminated x f') (h : f ++ r = f' ++ r') : f = f' ∧ r = r' := by
  obtain ⟨body, rfl, hbody⟩ := hf
  obtain ⟨body', rfl, hbody'⟩ := hf'
  simp only [List.append_assoc, List.singleton_append] at h
  obtain ⟨rfl, rfl⟩ := append_cons_inj hbody hbody' h
  exact ⟨rfl, rfl⟩

/-- **The stream determines the frames**, and what they stand for. -/
theorem flatMap_inj {x : α} {f : β → List α} {P : β → Prop}
    (hend : ∀ b, P b → Terminated x (f b))
    (hinj : ∀ b b', P b → P b' → f b = f b' → b = b') {l l' : List β}
    (hl : ∀ b ∈ l, P b)
    (hl' : ∀ b ∈ l', P b) (h : l.flatMap f = l'.flatMap f) : l = l' := by
  have hne : ∀ b, P b → f b ≠ [] := fun b hb hnil => by
    obtain ⟨body, hbody, -⟩ := hend b hb
    rw [hnil] at hbody
    exact absurd hbody.symm (by simp)
  induction l generalizing l' with
  | nil =>
    cases l' with
    | nil => rfl
    | cons b' l' =>
      rw [List.flatMap_nil, List.flatMap_cons] at h
      exact absurd (List.append_eq_nil_iff.1 h.symm).1 (hne b' (hl' b' List.mem_cons_self))
  | cons b l ih =>
    cases l' with
    | nil =>
      rw [List.flatMap_nil, List.flatMap_cons] at h
      exact absurd (List.append_eq_nil_iff.1 h).1 (hne b (hl b List.mem_cons_self))
    | cons b' l' =>
      have hb := hl b List.mem_cons_self
      have hb' := hl' b' List.mem_cons_self
      rw [List.flatMap_cons, List.flatMap_cons] at h
      obtain ⟨hframe, hrest⟩ := (hend b hb).append_inj (hend b' hb') h
      obtain rfl := hinj b b' hb hb' hframe
      rw [ih (fun c hc => hl c (List.mem_cons_of_mem b hc))
        (fun c hc => hl' c (List.mem_cons_of_mem b hc)) hrest]

end Lib
end Especial
