import Mathlib.Logic.Relation

/-!
Functions on a state that can fail: what holds between the states before and after.
-/

namespace MmsSvr.Lib

variable {ε σ α β : Type}

theorem bind_eq_ok_iff {x : Except ε α} {f : α → Except ε β} {b : β} :
    x.bind f = .ok b ↔ ∃ a, x = .ok a ∧ f a = .ok b := by
  cases x with
  | error e => exact ⟨nofun, fun ⟨_, h, _⟩ => nomatch h⟩
  | ok a => exact ⟨fun h => ⟨a, rfl, h⟩, fun ⟨_, h, hf⟩ => Except.ok.inj h ▸ hf⟩

def each (f : σ → α → Except ε σ) : σ → List α → Except ε σ
  | s, [] => .ok s
  | s, a :: as => (f s a).bind fun s => each f s as

theorem each_rel {R : σ → σ → Prop} (hrefl : ∀ s, R s s)
    (htrans : ∀ {s t u}, R s t → R t u → R s u) {f : σ → α → Except ε σ} {as : List α} {s t : σ}
    (hf : ∀ a ∈ as, ∀ {s t}, f s a = .ok t → R s t) (h : each f s as = .ok t) : R s t := by
  induction as generalizing s with
  | nil => exact Except.ok.inj h ▸ hrefl s
  | cons a as ih =>
      rw [List.forall_mem_cons] at hf
      obtain ⟨u, hu, hrest⟩ := bind_eq_ok_iff.mp h
      exact htrans (hf.1 hu) (ih hf.2 hrest)

end MmsSvr.Lib
