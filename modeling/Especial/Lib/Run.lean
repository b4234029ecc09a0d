/-
# Runs of a labelled transition relation

A system is a relation `R s i t`: in state `s`, the input (or scheduling choice)
`i` leads to `t`.  `Run R s l t` is a whole run over a list of inputs, and the
rules below are the inductions every statement about runs goes through:

* `Run.invariant`: what one step preserves, a run preserves;
* `Run.invariant_hist`: the same for a property of the state and of the inputs
  taken so far, which grow at the end;
* `Run.balance`: what comes in goes out in the same order or is still held;
* `Run.forall_prefix_iff`: if a step keeps a property exactly when a guard holds
  before it, then the property holds in every state of a run exactly when every
  step of the run meets the guard (`Guarded`); `Run.forall_prefix_hist_iff` is the
  same with the inputs taken so far, and `Run.forall_prefix_mem_iff` for a run over
  inputs of a kind;
* `Run.exists_iff`: which lists of inputs have a run; `Run.exists_of_forall`: all of them,
  when nothing can go wrong.

`Run.ok_iff_foldlM` and `Run.some_iff_foldlM` connect runs with the executable
`List.foldlM` of a step function that may fail or is not always enabled.
-/

import Mathlib.Data.List.Induction

namespace Especial
namespace Lib

universe u v w
variable {σ : Type u} {ι : Type v}

/-- `Run R s l t`: taking the inputs `l` in order, `R` leads from `s` to `t`. -/
inductive Run (R : σ → ι → σ → Prop) : σ → List ι → σ → Prop
  | nil (s : σ) : Run R s [] s
  | cons {s t u : σ} {i : ι} {l : List ι} : R s i t → Run R t l u → Run R s (i :: l) u

/-- The steps of `R` that meet the guard `G` before they are taken. -/
def Guarded (R : σ → ι → σ → Prop) (G : σ → ι → Prop) (s : σ) (i : ι) (t : σ) :
    Prop :=
  R s i t ∧ G s i

variable {R R' : σ → ι → σ → Prop} {s t u : σ} {i : ι} {l l' : List ι}

/-- A run without inputs stays. -/
@[simp] theorem Run.nil_iff : Run R s [] t ↔ t = s := by
  constructor
  · rintro ⟨⟩
    rfl
  · rintro rfl
    exact .nil t

/-- A run takes its first step, and runs on. -/
@[simp] theorem Run.cons_iff : Run R s (i :: l) u ↔ ∃ t, R s i t ∧ Run R t l u := by
  constructor
  · rintro ⟨⟩
    exact ⟨_, ‹_›, ‹_›⟩
  · rintro ⟨t, h, hr⟩
    exact .cons h hr

/-- Two runs, one after the other. -/
theorem Run.append_iff : Run R s (l ++ l') u ↔ ∃ t, Run R s l t ∧ Run R t l' u := by
  induction l generalizing s with
  | nil => simp
  | cons i l ih =>
      simp only [List.cons_append, Run.cons_iff, ih]
      constructor
      · rintro ⟨t, h, v, hv, hu⟩
        exact ⟨v, ⟨t, h, hv⟩, hu⟩
      · rintro ⟨v, ⟨t, h, hv⟩, hu⟩
        exact ⟨t, h, v, hv, hu⟩

/-- A run, and its last step. -/
theorem Run.snoc_iff : Run R s (l ++ [i]) u ↔ ∃ t, Run R s l t ∧ R t i u := by
  simp [Run.append_iff]

/-- A run of a smaller relation is a run of the larger one. -/
theorem Run.mono (hR : ∀ s i t, R s i t → R' s i t) (h : Run R s l t) : Run R' s l t := by
  induction h with
  | nil s => exact .nil s
  | cons h _ ih => exact .cons (hR _ _ _ h) ih

/-- A run whose inputs all have a property is a run of the steps with such inputs. -/
theorem Run.guarded_of_forall {Q : ι → Prop} (h : Run R s l t) (hl : ∀ i ∈ l, Q i) :
    Run (Guarded R fun _ i => Q i) s l t := by
  induction h with
  | nil s => exact .nil s
  | cons h _ ih =>
      exact .cons ⟨h, hl _ List.mem_cons_self⟩ (ih fun i hi => hl i (List.mem_cons_of_mem _ hi))

/-- **The invariant rule.**  What one step preserves, a run preserves. -/
theorem Run.invariant {P : σ → Prop} (hstep : ∀ s i t, P s → R s i t → P t)
    (h : Run R s l t) (hs : P s) : P t := by
  induction h with
  | nil s => exact hs
  | cons h _ ih => exact ih (hstep _ _ _ hs h)

/-- **The invariant rule with history.**  The inputs taken so far grow at the
end by one in each step. -/
theorem Run.invariant_hist {P : List ι → σ → Prop}
    (hstep : ∀ l s i t, P l s → R s i t → P (l ++ [i]) t)
    (h : Run R s l t) (hs : P [] s) : P l t := by
  induction l using List.reverseRecOn generalizing t with
  | nil => rw [Run.nil_iff.1 h]; exact hs
  | append_singleton l i ih =>
      obtain ⟨v, hv, hi⟩ := Run.snoc_iff.1 h
      exact hstep l v i t (ih hv) hi

/-- **The rule of conservation.**  If in every step what is held and what comes in is
what goes out and what is held then, in this order, the same is true of a run. -/
theorem Run.balance {α : Type w} {J : σ → Prop} {held : σ → List α}
    {inp out : ι → List α}
    (hstep : ∀ s i t, J s → R s i t → J t ∧ held s ++ inp i = out i ++ held t)
    (h : Run R s l t) (hs : J s) : held s ++ l.flatMap inp = l.flatMap out ++ held t := by
  induction h with
  | nil s => simp
  | cons h _ ih =>
      obtain ⟨hJ, hbal⟩ := hstep _ _ _ hs h
      rw [List.flatMap_cons, List.flatMap_cons, ← List.append_assoc, hbal,
        List.append_assoc, ih hJ, List.append_assoc]

/-- A log, from which nothing goes out: in a run it becomes the old log and everything
that came in, in order. -/
theorem Run.log_eq {α : Type w} {J : σ → Prop} {log : σ → List α} {inp : ι → List α}
    (hstep : ∀ s i t, J s → R s i t → J t ∧ log t = log s ++ inp i)
    (h : Run R s l t) (hs : J s) : log t = log s ++ l.flatMap inp := by
  let none : ι → List α := fun _ => []
  have hstep' : ∀ s i t, J s → R s i t → J t ∧ log s ++ inp i = none i ++ log t :=
    fun s i t hJ hi => ⟨(hstep s i t hJ hi).1, (hstep s i t hJ hi).2.symm⟩
  have hbal := h.balance hstep' hs
  have hnone : l.flatMap none = [] := by simp [none]
  rw [hnone, List.nil_append] at hbal
  exact hbal.symm

/-- A deterministic relation has one run over each list of inputs. -/
theorem Run.unique (hdet : ∀ s i t t', R s i t → R s i t' → t = t')
    (h : Run R s l t) (h' : Run R s l u) : t = u := by
  induction h with
  | nil s => exact (Run.nil_iff.1 h').symm
  | cons h _ ih =>
      obtain ⟨v, hv, hr⟩ := Run.cons_iff.1 h'
      obtain rfl := hdet _ _ _ _ h hv
      exact ih hr

/-- A run meets a guard exactly if each of its steps does. -/
theorem Run.guarded_iff {G : σ → ι → Prop}
    (hdet : ∀ s i t t', R s i t → R s i t' → t = t') (h : Run R s l t) :
    Run (Guarded R G) s l t ↔ ∀ l₁ i u, l₁ ++ [i] <+: l → Run R s l₁ u → G u i := by
  induction l using List.reverseRecOn generalizing t with
  | nil =>
      refine ⟨fun _ l₁ i u hl₁ => absurd (List.prefix_nil.1 hl₁) (by simp), fun _ => ?_⟩
      rw [Run.nil_iff.1 h]
      exact .nil s
  | append_singleton l i ih =>
      obtain ⟨v, hv, hi⟩ := Run.snoc_iff.1 h
      constructor
      · intro hg l₁ j u hl₁ hu
        obtain ⟨w, hw, -, hG⟩ := Run.snoc_iff.1 hg
        rcases List.prefix_concat_iff.1 hl₁ with heq | hl₁
        · obtain ⟨rfl, hj⟩ := List.append_inj' heq rfl
          obtain rfl := List.singleton_inj.1 hj
          rw [hu.unique hdet (hw.mono fun _ _ _ h => h.1)]
          exact hG
        · obtain rfl := hv.unique hdet (hw.mono fun _ _ _ h => h.1)
          exact (ih hv).1 hw l₁ j u hl₁ hu
      · intro hall
        have hg :=
          (ih hv).2 fun l₁ j u hl₁ => hall l₁ j u (hl₁.trans (List.prefix_append l [i]))
        exact Run.snoc_iff.2 ⟨v, hg, hi, hall l i v List.prefix_rfl hv⟩

/-- **The guard rule, both ways, with history.**  If a step of a deterministic
system leads to `P` exactly when the guard `G` holds before it, then `P` holds
after every prefix of a run exactly when every step of the run meets `G`. -/
theorem Run.forall_prefix_hist_iff {J P : List ι → σ → Prop} {G : σ → ι → Prop}
    (hdet : ∀ s i t t', R s i t → R s i t' → t = t')
    (hJ : ∀ l s i t, J l s → R s i t → J (l ++ [i]) t)
    (hstep : ∀ l s i t, J l s → P l s → R s i t → (P (l ++ [i]) t ↔ G s i))
    (h : Run R s l t) (hs : J [] s) (hP : P [] s) :
    (∀ l₁ u, l₁ <+: l → Run R s l₁ u → P l₁ u) ↔ Run (Guarded R G) s l t := by
  induction l using List.reverseRecOn generalizing t with
  | nil =>
      obtain rfl := Run.nil_iff.1 h
      refine ⟨fun _ => .nil t, fun _ l₁ u hl₁ hu => ?_⟩
      obtain rfl := List.prefix_nil.1 hl₁
      rw [Run.nil_iff.1 hu]
      exact hP
  | append_singleton l i ih =>
      obtain ⟨v, hv, hi⟩ := Run.snoc_iff.1 h
      have hJv : J l v := hv.invariant_hist hJ hs
      constructor
      · intro hall
        have hPv : P l v := hall l v (List.prefix_append l [i]) hv
        have hPt : P (l ++ [i]) t := hall _ t List.prefix_rfl h
        have hg :=
          (ih hv).1 fun l₁ u hl₁ => hall l₁ u (hl₁.trans (List.prefix_append l [i]))
        exact Run.snoc_iff.2 ⟨v, hg, hi, (hstep l v i t hJv hPv hi).1 hPt⟩
      · intro hg l₁ u hl₁ hu
        obtain ⟨w, hw, -, hG⟩ := Run.snoc_iff.1 hg
        obtain rfl := hv.unique hdet (hw.mono fun _ _ _ h => h.1)
        have hbefore := (ih hv).2 hw
        rcases List.prefix_concat_iff.1 hl₁ with rfl | hl₁
        · obtain rfl := h.unique hdet hu
          exact (hstep l v i t hJv (hbefore l v List.prefix_rfl hv) hi).2 hG
        · exact hbefore l₁ u hl₁ hu

/-- **The guard rule, both ways**, for a property of the state. -/
theorem Run.forall_prefix_iff {J P : σ → Prop} {G : σ → ι → Prop}
    (hdet : ∀ s i t t', R s i t → R s i t' → t = t')
    (hJ : ∀ s i t, J s → R s i t → J t)
    (hstep : ∀ s i t, J s → P s → R s i t → (P t ↔ G s i))
    (h : Run R s l t) (hs : J s) (hP : P s) :
    (∀ l₁ u, l₁ <+: l → Run R s l₁ u → P u) ↔ Run (Guarded R G) s l t :=
  Run.forall_prefix_hist_iff (J := fun _ => J) (P := fun _ => P) hdet (fun _ => hJ)
    (fun _ => hstep) h hs hP

/-- **The guard rule, both ways, for a run over admitted inputs.** -/
theorem Run.forall_prefix_mem_iff {J P : σ → Prop} {A : ι → Prop} {G : σ → ι → Prop}
    (hdet : ∀ s i t t', R s i t → R s i t' → t = t')
    (hJ : ∀ s i t, J s → R s i t → J t)
    (hstep : ∀ s i t, A i → J s → P s → R s i t → (P t ↔ G s i))
    (h : Run R s l t) (hl : ∀ i ∈ l, A i) (hs : J s) (hP : P s) :
    (∀ l₁ u, l₁ <+: l → Run R s l₁ u → P u) ↔ Run (Guarded R G) s l t := by
  have hiff := Run.forall_prefix_iff (R := Guarded R fun _ i => A i) (J := J) (P := P) (G := G)
    (fun s i t t' hi hi' => hdet s i t t' hi.1 hi'.1) (fun s i t hs hi => hJ s i t hs hi.1)
    (fun s i t hs hP hi => hstep s i t hi.2 hs hP hi.1) (h.guarded_of_forall hl) hs hP
  constructor
  · intro hall
    have hrun := hiff.1 fun l₁ u hl₁ hu => hall l₁ u hl₁ (hu.mono fun _ _ _ h => h.1)
    exact hrun.mono fun _ _ _ h => ⟨h.1.1, h.2⟩
  · intro hrun l₁ u hl₁ hu
    have hrun' : Run (Guarded (Guarded R fun _ i => A i) G) s l t :=
      (hrun.guarded_of_forall hl).mono fun _ _ _ h => ⟨⟨h.1.1, h.2⟩, h.1.2⟩
    exact hiff.2 hrun' l₁ u hl₁ (hu.guarded_of_forall fun i hi => hl i (hl₁.subset hi))

/-- **The guard rule, both ways, through a stronger invariant**: where `P` alone does not
decide the next step, but `Q` does and is as strong as `P` one step later. -/
theorem Run.forall_prefix_iff_of_stronger {J P Q : σ → Prop} {G : σ → ι → Prop}
    (hdet : ∀ s i t t', R s i t → R s i t' → t = t')
    (hJ : ∀ s i t, J s → R s i t → J t) (hQP : ∀ s, Q s → P s)
    (hstep : ∀ s i t, J s → Q s → R s i t → (Q t ↔ G s i))
    (hPQ : ∀ s i t, J s → Q s → R s i t → P t → Q t)
    (h : Run R s l t) (hs : J s) (hQ : Q s) :
    (∀ l₁ u, l₁ <+: l → Run R s l₁ u → P u) ↔ Run (Guarded R G) s l t := by
  rw [← Run.forall_prefix_iff hdet hJ hstep h hs hQ]
  refine ⟨fun hall l₁ => ?_, fun hall l₁ u hl₁ hu => hQP u (hall l₁ u hl₁ hu)⟩
  induction l₁ using List.reverseRecOn with
  | nil =>
      intro u _ hu
      rw [Run.nil_iff.1 hu]
      exact hQ
  | append_singleton l₁ i ih =>
      intro u hl₁ hu
      obtain ⟨v, hv, hi⟩ := Run.snoc_iff.1 hu
      have hQv : Q v := ih v ((List.prefix_append l₁ [i]).trans hl₁) hv
      exact hPQ v i u (hv.invariant hJ hs) hQv hi (hall _ u hl₁ hu)

/-- If every admitted input can be taken and leads to a state of the same kind, then every
list of admitted inputs has a run. -/
theorem Run.exists_of_forall {J : σ → Prop} {A : ι → Prop}
    (hstep : ∀ s i, J s → A i → ∃ t, R s i t ∧ J t) (hs : J s) (hl : ∀ i ∈ l, A i) :
    ∃ t, Run R s l t ∧ J t := by
  induction l generalizing s with
  | nil => exact ⟨s, .nil s, hs⟩
  | cons i l ih =>
      obtain ⟨u, hu, hJ⟩ := hstep s i hs (hl i (List.mem_cons_self ..))
      obtain ⟨t, ht, hJt⟩ := ih hJ fun j hj => hl j (List.mem_cons_of_mem _ hj)
      exact ⟨t, .cons hu ht, hJt⟩

/-- **The rule of progress.**  If an admitted input can be taken exactly when a guard
holds, then a list of admitted inputs has a run exactly when every state on the way
meets the guard for the next input. -/
theorem Run.exists_iff {J : σ → Prop} {A : ι → Prop} {G : σ → ι → Prop}
    (hdet : ∀ s i t t', R s i t → R s i t' → t = t')
    (hJ : ∀ s i t, J s → R s i t → J t)
    (hstep : ∀ s i, J s → A i → ((∃ t, R s i t) ↔ G s i)) (hs : J s)
    (hl : ∀ i ∈ l, A i) :
    (∃ t, Run R s l t) ↔ ∀ l₁ i u, l₁ ++ [i] <+: l → Run R s l₁ u → G u i := by
  induction l using List.reverseRecOn with
  | nil => exact iff_of_true ⟨s, .nil s⟩ fun l₁ i u hl₁ =>
      absurd (List.prefix_nil.1 hl₁) (by simp)
  | append_singleton l i ih =>
      have ih := ih fun j hj => hl j (List.mem_append_left _ hj)
      have hi : A i := hl i (List.mem_append_right _ (List.mem_singleton.2 rfl))
      constructor
      · rintro ⟨t, ht⟩ l₁ j u hl₁ hu
        obtain ⟨v, hv, hi'⟩ := Run.snoc_iff.1 ht
        rcases List.prefix_concat_iff.1 hl₁ with heq | hl₁
        · obtain ⟨rfl, hj⟩ := List.append_inj' heq rfl
          obtain rfl := List.singleton_inj.1 hj
          obtain rfl := hu.unique hdet hv
          exact (hstep u j (hv.invariant hJ hs) hi).1 ⟨t, hi'⟩
        · exact ih.1 ⟨v, hv⟩ l₁ j u hl₁ hu
      · intro hall
        obtain ⟨v, hv⟩ :=
          ih.2 fun l₁ j u hl₁ => hall l₁ j u (hl₁.trans (List.prefix_append l [i]))
        obtain ⟨t, ht⟩ := (hstep v i (hv.invariant hJ hs) hi).2 (hall l i v List.prefix_rfl hv)
        exact ⟨t, Run.snoc_iff.2 ⟨v, hv, ht⟩⟩

/-- **Runs of a step function that may fail** are the successful folds of it. -/
theorem Run.ok_iff_foldlM {ε : Type w} {f : σ → ι → Except ε σ} :
    Run (fun s i t => f s i = .ok t) s l t ↔ l.foldlM f s = .ok t := by
  induction l generalizing s with
  | nil => simp [pure, Except.pure, eq_comm]
  | cons i l ih =>
      rw [Run.cons_iff, List.foldlM_cons]
      cases hf : f s i with
      | error e => simp [bind, Except.bind]
      | ok v => simp [bind, Except.bind, ih]

/-- The same for a step function that is not always enabled. -/
theorem Run.some_iff_foldlM {f : σ → ι → Option σ} :
    Run (fun s i t => f s i = some t) s l t ↔ l.foldlM f s = some t := by
  induction l generalizing s with
  | nil => simp [eq_comm]
  | cons i l ih =>
      rw [Run.cons_iff, List.foldlM_cons]
      cases hf : f s i with
      | none => simp
      | some v => simp [ih]

/-- A run of such a function that checks the guard before each step. -/
theorem Run.guarded_of_foldlM {f : σ → ι → Option σ} {G : σ → ι → Prop}
    [∀ s i, Decidable (G s i)]
    (h : l.foldlM (fun s i => if G s i then f s i else none) s = some t) :
    Run (Guarded (fun s i t => f s i = some t) G) s l t := by
  refine (Run.some_iff_foldlM.2 h).mono fun s i t hi => ?_
  split_ifs at hi with hG
  exact ⟨hi, hG⟩

end Lib
end Especial
