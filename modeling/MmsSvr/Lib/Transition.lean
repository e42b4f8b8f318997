import Mathlib.Logic.Relation

/-!
Runs of a machine whose steps are chosen from outside, and what holds in all of
them.
-/

namespace MmsSvr.Lib

/-- A machine: where it starts, and where an action takes it if it is enabled. -/
structure Transition (σ α : Type) where
  init : σ
  step : σ → α → Option σ

namespace Transition

variable {σ α : Type} (T : Transition σ α)

def run : List α → σ → Option σ
  | [], s => some s
  | a :: as, s => (T.step s a).bind (run as)

/-- `inv` holds in every state of the run of `as` from `s`. -/
def Always (inv : σ → Prop) : List α → σ → Prop
  | [], s => inv s
  | a :: as, s => inv s ∧ ∀ t, T.step s a = some t → Always inv as t

/-- Every step of the run of `as` from `s` is taken under `guard`. -/
def Guarded (guard : σ → α → Prop) : List α → σ → Prop
  | [], _ => True
  | a :: as, s => guard s a ∧ ∀ t, T.step s a = some t → Guarded guard as t

instance decidableGuarded (guard : σ → α → Prop) [∀ s a, Decidable (guard s a)] :
    ∀ as s, Decidable (T.Guarded guard as s)
  | [], _ => isTrue trivial
  | a :: as, s =>
      have := decidableGuarded guard as
      inferInstanceAs (Decidable (guard s a ∧ ∀ t ∈ T.step s a, T.Guarded guard as t))

/-- The states of the runs in which every step is taken under `guard`. -/
inductive Reachable (guard : σ → α → Prop) : σ → Prop where
  | init : Reachable guard T.init
  | step {s t : σ} {a : α} (hs : Reachable guard s) (hguard : guard s a)
      (hstep : T.step s a = some t) : Reachable guard t

variable {T} {guard : σ → α → Prop}

theorem Reachable.invariant (inv : σ → Prop) (hinit : inv T.init)
    (hkeep : ∀ s a t, inv s → guard s a → T.step s a = some t → inv t) {s : σ}
    (h : T.Reachable guard s) : inv s := by
  induction h with
  | init => exact hinit
  | step _ hguard hstep ih => exact hkeep _ _ _ ih hguard hstep

/-- When another system can follow every guarded step, it can follow every guarded run. -/
theorem Reachable.simulated {τ : Type} {matched : σ → τ → Prop} {next : α → τ → τ → Prop} {t₀ : τ}
    (hinit : matched T.init t₀)
    (hfollow : ∀ s a s' t, matched s t → guard s a → T.step s a = some s' →
      ∃ t', next a t t' ∧ matched s' t') {s : σ} (h : T.Reachable guard s) :
    ∃ t, Relation.ReflTransGen (fun t t' => ∃ a, next a t t') t₀ t ∧ matched s t := by
  induction h with
  | init => exact ⟨t₀, .refl, hinit⟩
  | @step s s' a _ hguard hstep ih =>
      obtain ⟨t, hrun, hmatched⟩ := ih
      obtain ⟨t', hnext, hmatched'⟩ := hfollow s a s' t hmatched hguard hstep
      exact ⟨t', hrun.tail ⟨a, hnext⟩, hmatched'⟩

theorem run_nil {s t : σ} : T.run [] s = some t ↔ s = t := by
  simp [run]

theorem run_cons {a : α} {as : List α} {s u : σ} :
    T.run (a :: as) s = some u ↔ ∃ t, T.step s a = some t ∧ T.run as t = some u := by
  rw [run, Option.bind_eq_some_iff]

theorem run_append (as bs : List α) (s : σ) :
    T.run (as ++ bs) s = (T.run as s).bind (T.run bs) := by
  induction as generalizing s with
  | nil => rfl
  | cons a as ih =>
      rw [List.cons_append, run, run, Option.bind_assoc]
      congr 1
      funext t
      exact ih t

theorem Guarded.always {inv : σ → Prop}
    (hkeep : ∀ s a t, inv s → guard s a → T.step s a = some t → inv t) {as : List α} {s : σ}
    (hs : inv s) (h : T.Guarded guard as s) : T.Always inv as s := by
  induction as generalizing s with
  | nil => exact hs
  | cons a as ih =>
      refine ⟨hs, ?_⟩
      intro t ht
      exact ih (hkeep s a t hs h.1 ht) (h.2 t ht)

theorem Always.imp {inv P : σ → Prop} (himp : ∀ s, inv s → P s) {as : List α} {s : σ}
    (h : T.Always inv as s) : T.Always P as s := by
  induction as generalizing s with
  | nil => exact himp s h
  | cons a as ih => exact ⟨himp s h.1, fun t ht => ih (h.2 t ht)⟩

theorem Always.head {P : σ → Prop} {as : List α} {s : σ} (h : T.Always P as s) : P s := by
  cases as with
  | nil => exact h
  | cons a as => exact h.1

theorem Always.of_run {P : σ → Prop} {as : List α} {s u : σ} (h : T.Always P as s)
    (hrun : T.run as s = some u) : P u := by
  induction as generalizing s with
  | nil =>
      rw [← run_nil.mp hrun]
      exact h
  | cons a as ih =>
      obtain ⟨t, ht, hrest⟩ := run_cons.mp hrun
      exact ih (h.2 t ht) hrest

/-- When guarded steps keep an invariant under which `P` holds, and the others break `P`, it
holds throughout exactly the guarded runs. -/
theorem always_iff_guarded_of {inv P : σ → Prop} (hholds : ∀ s, inv s → P s)
    (hkeep : ∀ s a t, inv s → guard s a → T.step s a = some t → inv t)
    (hbreak : ∀ s a t, inv s → ¬ guard s a → T.step s a = some t → ¬ P t) {as : List α}
    {s u : σ} (hs : inv s) (hrun : T.run as s = some u) :
    T.Always P as s ↔ T.Guarded guard as s := by
  refine ⟨?_, fun h => (h.always hkeep hs).imp hholds⟩
  intro hall
  induction as generalizing s with
  | nil => trivial
  | cons a as ih =>
      obtain ⟨t, ht, hrest⟩ := run_cons.mp hrun
      have hguard : guard s a := by
        apply Classical.byContradiction
        intro hguard
        exact hbreak s a t hs hguard ht (hall.2 t ht).head
      refine ⟨hguard, ?_⟩
      intro t' ht'
      rw [ht, Option.some.injEq] at ht'
      subst ht'
      exact ih (hkeep s a t hs hguard ht) hrest (hall.2 t ht)

theorem always_iff_guarded {inv : σ → Prop}
    (hkeep : ∀ s a t, inv s → guard s a → T.step s a = some t → inv t)
    (hbreak : ∀ s a t, inv s → ¬ guard s a → T.step s a = some t → ¬ inv t) {as : List α}
    {s u : σ} (hs : inv s) (hrun : T.run as s = some u) :
    T.Always inv as s ↔ T.Guarded guard as s :=
  always_iff_guarded_of (fun _ h => h) hkeep hbreak hs hrun

theorem exists_run {inv : σ → Prop} (hstep : ∀ s a, inv s → ∃ t, T.step s a = some t ∧ inv t)
    (as : List α) {s : σ} (hs : inv s) : ∃ t, T.run as s = some t := by
  induction as generalizing s with
  | nil => exact ⟨s, rfl⟩
  | cons a as ih =>
      obtain ⟨t, ht, hinv⟩ := hstep s a hs
      obtain ⟨u, hu⟩ := ih hinv
      exact ⟨u, run_cons.mpr ⟨t, ht, hu⟩⟩

/-- When guarded steps are enabled and a total system follows each of them, guarded runs go
through and it follows them. -/
theorem Guarded.followed {τ : Type} {matched : σ → τ → Prop} {next : τ → α → τ}
    (hfollow : ∀ s a t, matched s t → guard s a →
      ∃ s', T.step s a = some s' ∧ matched s' (next t a)) {as : List α} {s : σ} {t : τ}
    (h : T.Guarded guard as s) (hs : matched s t) :
    ∃ s', T.run as s = some s' ∧ matched s' (as.foldl next t) := by
  induction as generalizing s t with
  | nil => exact ⟨s, rfl, hs⟩
  | cons a as ih =>
      obtain ⟨s', hstep, hs'⟩ := hfollow s a t hs h.1
      obtain ⟨u, hrun, hu⟩ := ih (h.2 s' hstep) hs'
      exact ⟨u, run_cons.mpr ⟨s', hstep, hrun⟩, hu⟩

theorem Guarded.of_append {as bs : List α} {s : σ} (h : T.Guarded guard (as ++ bs) s) :
    T.Guarded guard as s ∧ ∀ t, T.run as s = some t → T.Guarded guard bs t := by
  induction as generalizing s with
  | nil =>
      refine ⟨trivial, ?_⟩
      intro t ht
      rw [← run_nil.mp ht]
      exact h
  | cons a as ih =>
      refine ⟨⟨h.1, fun t ht => (ih (h.2 t ht)).1⟩, ?_⟩
      intro t ht
      obtain ⟨u, hu, hrest⟩ := run_cons.mp ht
      exact (ih (h.2 u hu)).2 t hrest

theorem Guarded.append {as bs : List α} {s : σ} (h : T.Guarded guard as s)
    (hrest : ∀ t, T.run as s = some t → T.Guarded guard bs t) : T.Guarded guard (as ++ bs) s := by
  induction as generalizing s with
  | nil => exact hrest s rfl
  | cons a as ih =>
      refine ⟨h.1, ?_⟩
      intro t ht
      apply ih (h.2 t ht)
      intro u hu
      exact hrest u (run_cons.mpr ⟨t, ht, hu⟩)

theorem Guarded.imp {guard' : σ → α → Prop} (himp : ∀ s a, guard s a → guard' s a) {as : List α}
    {s : σ} (h : T.Guarded guard as s) : T.Guarded guard' as s := by
  induction as generalizing s with
  | nil => trivial
  | cons a as ih => exact ⟨himp s a h.1, fun t ht => ih (h.2 t ht)⟩

theorem Reachable.of_guarded {as : List α} {s t : σ} (hs : T.Reachable guard s)
    (hguard : T.Guarded guard as s) (h : T.run as s = some t) : T.Reachable guard t := by
  induction as generalizing s with
  | nil =>
      rw [← run_nil.mp h]
      exact hs
  | cons a as ih =>
      obtain ⟨u, hu, hrest⟩ := run_cons.mp h
      exact ih (.step hs hguard.1 hu) (hguard.2 u hu) hrest

theorem guarded_of_forall {as : List α} (h : ∀ a ∈ as, ∀ s, guard s a) (s : σ) :
    T.Guarded guard as s := by
  induction as generalizing s with
  | nil => trivial
  | cons a as ih =>
      rw [List.forall_mem_cons] at h
      exact ⟨h.1 s, fun t _ => ih h.2 t⟩

/-- When guarded steps keep an invariant, and the others break something for good, a run is
guarded or broken. -/
theorem guarded_or_broken {inv broken : σ → Prop}
    (hkeep : ∀ s a t, inv s → guard s a → T.step s a = some t → inv t)
    (hbreak : ∀ s a t, inv s → ¬ guard s a → T.step s a = some t → broken t)
    (hstuck : ∀ s a t, broken s → T.step s a = some t → broken t) {as : List α} {s u : σ}
    (hs : inv s) (hrun : T.run as s = some u) : T.Guarded guard as s ∨ broken u := by
  induction as generalizing s with
  | nil => exact .inl trivial
  | cons a as ih =>
      obtain ⟨t, ht, hrest⟩ := run_cons.mp hrun
      by_cases hguard : guard s a
      · rcases ih (hkeep s a t hs hguard ht) hrest with hrun | hbroken
        · refine .inl ⟨hguard, ?_⟩
          intro t' ht'
          rw [ht, Option.some.injEq] at ht'
          rw [← ht']
          exact hrun
        · exact .inr hbroken
      · have hany : T.Guarded (fun _ _ => True) as t :=
          guarded_of_forall (fun _ _ _ => trivial) t
        have hstays := hany.always (fun s a t h _ => hstuck s a t h) (hbreak s a t hs hguard ht)
        exact .inr (hstays.of_run hrest)

theorem guarded_of_invariant {inv : σ → Prop} {as : List α} {s : σ} (hs : inv s)
    (hkeep : ∀ a ∈ as, ∀ s t, inv s → T.step s a = some t → inv t) :
    T.Guarded (fun s _ => inv s) as s := by
  induction as generalizing s with
  | nil => trivial
  | cons a as ih =>
      rw [List.forall_mem_cons] at hkeep
      exact ⟨hs, fun t ht => ih (hkeep.1 s t hs ht) hkeep.2⟩

theorem Guarded.and {guard₁ guard₂ : σ → α → Prop} {as : List α} {s : σ}
    (h₁ : T.Guarded guard₁ as s) (h₂ : T.Guarded guard₂ as s)
    (himp : ∀ s a, guard₁ s a → guard₂ s a → guard s a) : T.Guarded guard as s := by
  induction as generalizing s with
  | nil => trivial
  | cons a as ih => exact ⟨himp s a h₁.1 h₂.1, fun t ht => ih (h₁.2 t ht) (h₂.2 t ht)⟩

theorem Reachable.of_run {as : List α} {s t : σ} (hs : T.Reachable (fun _ _ => True) s)
    (h : T.run as s = some t) : T.Reachable (fun _ _ => True) t :=
  hs.of_guarded (guarded_of_forall (fun _ _ _ => trivial) s) h

section Logged

variable {ε : Type}

/-- The machine together with a record of what its steps did. -/
def logged (T : Transition σ α) (events : σ → α → List ε) : Transition (σ × List ε) α where
  init := (T.init, [])
  step := fun s a => (T.step s.1 a).map fun t => (t, s.2 ++ events s.1 a)

theorem logged_step {events : σ → α → List ε} {s u : σ × List ε} {a : α} :
    (T.logged events).step s a = some u ↔
      ∃ t, T.step s.1 a = some t ∧ u = (t, s.2 ++ events s.1 a) := by
  rw [logged, Option.map_eq_some_iff]
  constructor
  · rintro ⟨t, ht, rfl⟩
    exact ⟨t, ht, rfl⟩
  · rintro ⟨t, ht, rfl⟩
    exact ⟨t, ht, rfl⟩

theorem run_of_logged {events : σ → α → List ε} {as : List α} {s u : σ × List ε}
    (h : (T.logged events).run as s = some u) : T.run as s.1 = some u.1 := by
  induction as generalizing s with
  | nil => rw [run_nil.mp h, run]
  | cons a as ih =>
      obtain ⟨v, hv, hrest⟩ := run_cons.mp h
      obtain ⟨t, ht, rfl⟩ := logged_step.mp hv
      exact run_cons.mpr ⟨t, ht, ih hrest⟩

end Logged

end Transition

end MmsSvr.Lib
