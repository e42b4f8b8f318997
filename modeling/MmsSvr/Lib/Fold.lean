import Mathlib.Data.List.Basic

/-!
Folds that fill the fields of a record: a step sets a field to a value of its own, or
leaves it as it is.
-/

namespace MmsSvr.Lib

variable {σ τ ε α ι : Type}

/-- The steps that satisfy `p` set the field that `get` reads, and no other step does. -/
structure FilledBy (f : σ → ε → σ) (get : σ → α) (p : ε → Prop) : Prop where
  sets : ∀ e, p e → ∃ v, ∀ s, get (f s e) = v
  keeps : ∀ e, ¬ p e → ∀ s, get (f s e) = get s

namespace FilledBy

variable {f : σ → ε → σ} {get : σ → α} {p : ε → Prop} (h : FilledBy f get p)
include h

theorem foldl_unfilled {es : List ε} (hes : ¬ ∃ e ∈ es, p e) (s : σ) :
    get (es.foldl f s) = get s := by
  induction es generalizing s with
  | nil => rfl
  | cons e es ih =>
      have he : ¬ p e := fun he => hes ⟨e, by simp, he⟩
      have hrest : ¬ ∃ e ∈ es, p e := by
        rintro ⟨e', he', hp⟩
        exact hes ⟨e', by simp [he'], hp⟩
      rw [List.foldl_cons, ih hrest, h.keeps e he]

theorem foldl_congr (es : List ε) {s t : σ} (hst : get s = get t) :
    get (es.foldl f s) = get (es.foldl f t) := by
  induction es generalizing s t with
  | nil => exact hst
  | cons e es ih =>
      apply ih
      by_cases he : p e
      · obtain ⟨v, hv⟩ := h.sets e he
        rw [hv s, hv t]
      · rw [h.keeps e he s, h.keeps e he t, hst]

theorem foldl_filled {es : List ε} (hes : ∃ e ∈ es, p e) (s t : σ) :
    get (es.foldl f s) = get (es.foldl f t) := by
  induction es generalizing s t with
  | nil => simp at hes
  | cons e es ih =>
      by_cases he : p e
      · obtain ⟨v, hv⟩ := h.sets e he
        exact h.foldl_congr es (by rw [hv s, hv t])
      · obtain ⟨e', he', hp⟩ := hes
        rcases List.mem_cons.mp he' with rfl | hmem
        · exact absurd hp he
        · exact ih ⟨e', hmem, hp⟩ _ _

/-- Over starting values that differ in the field, its final value is fixed exactly when
some step sets it. -/
theorem forall_eq_iff (init : ι → σ) (i j : ι) (hinit : get (init i) ≠ get (init j))
    (es : List ε) :
    (∀ i j, get (es.foldl f (init i)) = get (es.foldl f (init j))) ↔ ∃ e ∈ es, p e := by
  constructor
  · intro hall
    by_contra hes
    have heq := hall i j
    rw [h.foldl_unfilled hes, h.foldl_unfilled hes] at heq
    exact hinit heq
  · intro hes i j
    exact h.foldl_filled hes _ _

end FilledBy

theorem foldlM_eq_some {f : τ → ε → Option τ} {g : σ → ε → σ} (mk : σ → τ)
    (h : ∀ s e, f (mk s) e = some (mk (g s e))) (es : List ε) (s : σ) :
    es.foldlM f (mk s) = some (mk (es.foldl g s)) := by
  induction es generalizing s with
  | nil => rfl
  | cons e es ih =>
      rw [List.foldlM_cons, h]
      exact ih (g s e)

end MmsSvr.Lib
