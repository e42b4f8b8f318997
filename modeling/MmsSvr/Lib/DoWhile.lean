import Mathlib.Logic.Relation

/-!
Do/while loops whose body can fail, or can itself run forever.
-/

namespace MmsSvr.Lib

section Except

variable {α β ε : Type} {g : α → β} {r : Except ε α}

theorem map_eq_ok_iff {b : β} : r.map g = .ok b ↔ ∃ a, r = .ok a ∧ g a = b := by
  cases r <;> simp [Except.map]

theorem map_eq_error_iff {e : ε} : r.map g = .error e ↔ r = .error e := by
  cases r <;> simp [Except.map]

end Except

/-- The loop `do body while (again)`.  The value `none` of the body stands for a
body that never returns. -/
structure DoWhile (σ ε : Type) where
  body : σ → Option (Except ε σ)
  again : σ → Bool

namespace DoWhile

variable {σ ε : Type} (w : DoWhile σ ε)

def run : Nat → σ → Option (Except ε σ)
  | 0, _ => none
  | fuel + 1, s =>
      match w.body s with
      | none => none
      | some (.error e) => some (.error e)
      | some (.ok t) => if w.again t then run fuel t else some (.ok t)

def Ends (s : σ) : Prop := ∃ fuel r, w.run fuel s = some r

def Yields (s : σ) (r : Except ε σ) : Prop := ∃ fuel, w.run fuel s = some r

/-- A completed turn after which the loop goes on. -/
def Turn (s t : σ) : Prop := w.body s = some (.ok t) ∧ w.again t = true

/-- The states in which a turn of the loop entered at `s` begins. -/
def Visits (s t : σ) : Prop := Relation.ReflTransGen w.Turn s t

/-- The loop entered at `s` is left normally at `u`. -/
inductive Completes : σ → σ → Prop where
  | last {s t : σ} (hbody : w.body s = some (.ok t)) (hlast : w.again t = false) : Completes s t
  | turn {s t u : σ} (hturn : w.Turn s t) (hrest : Completes t u) : Completes s u

variable {w}

theorem run_succ_of_error {s : σ} {e : ε} (h : w.body s = some (.error e)) (fuel : Nat) :
    w.run (fuel + 1) s = some (.error e) := by
  simp [run, h]

theorem run_succ_of_last {s t : σ} (h : w.body s = some (.ok t)) (ht : w.again t = false)
    (fuel : Nat) : w.run (fuel + 1) s = some (.ok t) := by
  simp [run, h, ht]

theorem run_succ_of_turn {s t : σ} (h : w.Turn s t) (fuel : Nat) :
    w.run (fuel + 1) s = w.run fuel t := by
  simp [run, h.1, h.2]

theorem run_succ_of_none {s : σ} (h : w.body s = none) (fuel : Nat) :
    w.run (fuel + 1) s = none := by
  simp [run, h]

theorem body_cases (s : σ) :
    w.body s = none ∨ (∃ e, w.body s = some (.error e)) ∨
      (∃ t, w.body s = some (.ok t) ∧ w.again t = false) ∨ ∃ t, w.Turn s t := by
  cases hbody : w.body s with
  | none => exact .inl rfl
  | some r =>
      cases r with
      | error e => exact .inr (.inl ⟨e, rfl⟩)
      | ok t =>
          cases hagain : w.again t with
          | false => exact .inr (.inr (.inl ⟨t, rfl, hagain⟩))
          | true => exact .inr (.inr (.inr ⟨t, hbody, hagain⟩))

theorem run_mono {s : σ} {r : Except ε σ} {fuel more : Nat} (h : w.run fuel s = some r)
    (hle : fuel ≤ more) : w.run more s = some r := by
  induction fuel generalizing s more with
  | zero => exact nomatch h
  | succ fuel ih =>
      obtain ⟨more, rfl⟩ : ∃ m, more = m + 1 := ⟨more - 1, by omega⟩
      rcases body_cases (w := w) s with hn | ⟨e, he⟩ | ⟨t, ht, hl⟩ | ⟨t, ht⟩
      · rw [run_succ_of_none hn] at h
        exact nomatch h
      · rw [run_succ_of_error he] at h ⊢
        exact h
      · rw [run_succ_of_last ht hl] at h ⊢
        exact h
      · rw [run_succ_of_turn ht] at h ⊢
        exact ih h (by omega)

theorem Yields.unique {s : σ} {r r' : Except ε σ} (h : w.Yields s r) (h' : w.Yields s r') :
    r = r' := by
  obtain ⟨fuel, hr⟩ := h
  obtain ⟨fuel', hr'⟩ := h'
  have hmore := run_mono hr (Nat.le_max_left fuel fuel')
  rw [run_mono hr' (Nat.le_max_right fuel fuel'), Option.some.injEq] at hmore
  exact hmore.symm

theorem yields_of_last {s t : σ} (h : w.body s = some (.ok t)) (ht : w.again t = false) :
    w.Yields s (.ok t) := ⟨1, run_succ_of_last h ht 0⟩

theorem yields_iff_of_turn {s t : σ} (h : w.Turn s t) {r : Except ε σ} :
    w.Yields s r ↔ w.Yields t r := by
  constructor
  · rintro ⟨fuel, hr⟩
    cases fuel with
    | zero => exact nomatch hr
    | succ fuel => exact ⟨fuel, by rw [← run_succ_of_turn h]; exact hr⟩
  · rintro ⟨fuel, hr⟩
    exact ⟨fuel + 1, by rw [run_succ_of_turn h]; exact hr⟩

theorem yields_ok_iff {s u : σ} : w.Yields s (.ok u) ↔ w.Completes s u := by
  constructor
  · rintro ⟨fuel, hrun⟩
    induction fuel generalizing s with
    | zero => exact nomatch hrun
    | succ fuel ih =>
        rcases body_cases (w := w) s with hn | ⟨e, he⟩ | ⟨t, ht, hl⟩ | ⟨t, ht⟩
        · simp [run_succ_of_none hn] at hrun
        · simp [run_succ_of_error he] at hrun
        · rw [run_succ_of_last ht hl, Option.some.injEq, Except.ok.injEq] at hrun
          rw [← hrun]
          exact .last ht hl
        · rw [run_succ_of_turn ht] at hrun
          exact .turn ht (ih hrun)
  · intro h
    induction h with
    | last hbody hlast => exact yields_of_last hbody hlast
    | turn hturn _ ih => exact (yields_iff_of_turn hturn).mpr ih

theorem run_of_measure (inv : σ → Prop) (m : σ → Nat) (hnone : ∀ s, inv s → w.body s ≠ none)
    (hturn : ∀ s t, inv s → w.Turn s t → inv t ∧ m t < m s) {s : σ} (hs : inv s) :
    ∃ r, w.run (m s + 1) s = some r := by
  induction hm : m s using Nat.strongRecOn generalizing s with
  | ind n ih =>
      subst hm
      rcases body_cases (w := w) s with hn | ⟨e, he⟩ | ⟨t, ht, hl⟩ | ⟨t, ht⟩
      · exact absurd hn (hnone s hs)
      · exact ⟨_, run_succ_of_error he _⟩
      · exact ⟨_, run_succ_of_last ht hl _⟩
      · obtain ⟨hinv, hlt⟩ := hturn s t hs ht
        obtain ⟨r, hr⟩ := ih (m t) hlt hinv rfl
        exact ⟨r, by rw [run_succ_of_turn ht]; exact run_mono hr hlt⟩

theorem not_ends_of_stuck {s : σ} (h : w.Turn s s) : ¬ w.Ends s := by
  rintro ⟨fuel, r, hr⟩
  induction fuel with
  | zero => exact nomatch hr
  | succ fuel ih =>
      rw [run_succ_of_turn h] at hr
      exact ih hr

/-- When every turn lowers the measure or changes nothing, the measure bounds the
turns of every run that is left. -/
theorem run_of_ends {m : σ → Nat} (hturn : ∀ s t, w.Turn s t → m t < m s ∨ t = s) {s : σ}
    {r : Except ε σ} {fuel : Nat} (h : w.run fuel s = some r) : w.run (m s + 1) s = some r := by
  induction fuel generalizing s with
  | zero => exact nomatch h
  | succ fuel ih =>
      rcases body_cases (w := w) s with hn | ⟨e, he⟩ | ⟨t, ht, hl⟩ | ⟨t, ht⟩
      · rw [run_succ_of_none hn] at h
        exact nomatch h
      · rw [run_succ_of_error he] at h ⊢
        exact h
      · rw [run_succ_of_last ht hl] at h ⊢
        exact h
      · rw [run_succ_of_turn ht] at h
        rcases hturn s t ht with hlt | rfl
        · rw [run_succ_of_turn ht]
          exact run_mono (ih h) hlt
        · exact ih h

theorem Visits.of_turn {s t u : σ} (h : w.Turn s t) (hv : w.Visits t u) : w.Visits s u :=
  Relation.ReflTransGen.head h hv

theorem Visits.eq_of_last {s u : σ} (hlast : ∀ t, ¬ w.Turn s t) (hv : w.Visits s u) : u = s := by
  rcases Relation.ReflTransGen.cases_head hv with rfl | ⟨t, ht, -⟩
  · rfl
  · exact absurd ht (hlast t)

theorem yields_of_visits {s t : σ} {e : ε} (hv : w.Visits s t) (h : w.body t = some (.error e)) :
    w.Yields s (.error e) := by
  induction hv using Relation.ReflTransGen.head_induction_on with
  | refl => exact ⟨1, run_succ_of_error h 0⟩
  | head hturn _ ih => exact (yields_iff_of_turn hturn).mpr ih

theorem Visits.error_unique {s t t' : σ} {e e' : ε} (hv : w.Visits s t) (hv' : w.Visits s t')
    (h : w.body t = some (.error e)) (h' : w.body t' = some (.error e')) : t = t' := by
  have hlast : ∀ {u : σ} {e : ε}, w.body u = some (.error e) → ∀ v, ¬ w.Turn u v := by
    rintro u e hu v ⟨hbody, -⟩
    rw [hu] at hbody
    simp at hbody
  have hright : Relator.RightUnique w.Turn := by
    rintro u v v' ⟨hv, -⟩ ⟨hv', -⟩
    rw [hv, Option.some.injEq, Except.ok.injEq] at hv'
    exact hv'
  rcases Relation.ReflTransGen.total_of_right_unique hright hv hv' with hvisit | hvisit
  · exact (Visits.eq_of_last (hlast h) hvisit).symm
  · exact Visits.eq_of_last (hlast h') hvisit

theorem Visits.invariant (inv : σ → Prop) (hturn : ∀ s t, inv s → w.Turn s t → inv t) {s t : σ}
    (hv : w.Visits s t) (hs : inv s) : inv t := by
  induction hv with
  | refl => exact hs
  | tail _ h ih => exact hturn _ _ ih h

variable (w) in
/-- At most `fuel` turns begin, each of them in a state with `P`. -/
def Checked (P : σ → Prop) : Nat → σ → Prop
  | 0, _ => False
  | fuel + 1, s =>
      P s ∧ ∀ r ∈ w.body s, ∀ t ∈ r.toOption, w.again t = true → Checked P fuel t

instance decidableChecked (P : σ → Prop) [DecidablePred P] :
    ∀ fuel s, Decidable (w.Checked P fuel s)
  | 0, _ => isFalse False.elim
  | fuel + 1, s =>
      have := decidableChecked P fuel
      inferInstanceAs (Decidable (P s ∧
        ∀ r ∈ w.body s, ∀ t ∈ r.toOption, w.again t = true → w.Checked P fuel t))

theorem Checked.visits {P : σ → Prop} {fuel : Nat} {s t : σ} (h : w.Checked P fuel s)
    (hv : w.Visits s t) : P t := by
  induction hv using Relation.ReflTransGen.head_induction_on generalizing fuel with
  | refl =>
      cases fuel with
      | zero => exact h.elim
      | succ fuel => exact h.1
  | head hturn _ ih =>
      cases fuel with
      | zero => exact h.elim
      | succ fuel => exact ih (h.2 _ hturn.1 _ rfl hturn.2)

theorem run_ok (inv : σ → Prop) {s t : σ} {fuel : Nat} (h : w.run fuel s = some (.ok t))
    (hs : inv s) (hbody : ∀ u v, w.Visits s u → inv u → w.body u = some (.ok v) → inv v) :
    inv t := by
  induction fuel generalizing s with
  | zero => exact nomatch h
  | succ fuel ih =>
      rcases body_cases (w := w) s with hn | ⟨e, he⟩ | ⟨u, hu, hl⟩ | ⟨u, hu⟩
      · rw [run_succ_of_none hn] at h
        exact nomatch h
      · rw [run_succ_of_error he] at h
        exact nomatch h
      · rw [run_succ_of_last hu hl, Option.some.injEq, Except.ok.injEq] at h
        rw [← h]
        exact hbody s u .refl hs hu
      · rw [run_succ_of_turn hu] at h
        exact ih h (hbody s u .refl hs hu.1) fun v x hv => hbody v x (.of_turn hu hv)

end DoWhile

end MmsSvr.Lib
