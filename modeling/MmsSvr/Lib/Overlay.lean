import MmsSvr.Lib.Blocks

/-!
Blocks that go through one buffer, each copied over the front of what the one before it
has left there.
-/

namespace MmsSvr.Lib

variable {α : Type}

/-- The buffer after `b` has been copied to its front. -/
def overlay (buf b : List α) : List α := b ++ buf.drop b.length

def overlays : List α → List (List α) → List (List α)
  | _, [] => []
  | buf, b :: bs => overlay buf b :: overlays (overlay buf b) bs

/-- How much the last block of a message falls short of the full size. -/
def slack (size : Nat) (m : List α) : Nat := (size - m.length % size) % size

section Overlay

variable {size : Nat} {buf b : List α} {bs : List (List α)}

theorem overlay_padded (hbuf : buf.length = size) (hb : b.length ≤ size) :
    Padded size b (overlay buf b) := by
  refine ⟨List.prefix_append _ _, ?_⟩
  rw [overlay, List.length_append, List.length_drop]
  omega

theorem overlay_of_full (hb : buf.length ≤ b.length) : overlay buf b = b := by
  rw [overlay, List.drop_eq_nil_of_le hb, List.append_nil]

theorem overlays_padded (hbuf : buf.length = size) (hbs : ∀ b ∈ bs, b.length ≤ size) :
    List.Forall₂ (Padded size) bs (overlays buf bs) := by
  induction bs generalizing buf with
  | nil => exact .nil
  | cons b bs ih =>
      rw [List.forall_mem_cons] at hbs
      have hpad := overlay_padded hbuf hbs.1
      exact .cons hpad (ih hpad.2 hbs.2)

end Overlay

namespace Split

variable {size : Nat} {buf buf' m : List α} {bs : List (List α)}

theorem slack_append {b : List α} (hlen : b.length = size) :
    slack size (b ++ m) = slack size m := by
  rw [slack, slack, List.length_append, hlen, Nat.add_mod_left]

theorem flatten_overlays (h : Split size m bs) (hbuf : buf.length = size) :
    (overlays buf bs).flatten = m ++ ((buf ++ m).drop m.length).take (slack size m) := by
  induction h generalizing buf with
  | nil => simp [overlays, slack]
  | last b hne hle =>
      have hpos : 0 < b.length := List.length_pos_iff.mpr hne
      rw [overlays, overlays, List.flatten_singleton, overlay]
      congr 1
      by_cases hfull : b.length = size
      · rw [slack, hfull, Nat.mod_self, Nat.sub_zero, Nat.mod_self, List.take_zero,
          List.drop_eq_nil_of_le (Nat.le_of_eq hbuf)]
      · have hslack : slack size b = size - b.length := by
          rw [slack, Nat.mod_eq_of_lt (show b.length < size by omega), Nat.mod_eq_of_lt (by omega)]
        rw [hslack, List.drop_append_of_le_length (by omega), List.take_left']
        rw [List.length_drop, hbuf]
  | cons b m bs hlen hne h ih =>
      have hwhole : overlay buf b = b := overlay_of_full (by omega)
      have hold : (buf ++ (b ++ m)).drop (b ++ m).length = (b ++ m).drop m.length := by
        rw [List.length_append, hlen, ← List.drop_drop, List.drop_left' hbuf]
      rw [overlays, hwhole, List.flatten_cons, ih hlen, hold, slack_append hlen, List.append_assoc]

theorem flatten_overlays_of_le (h : Split size m bs) (hbuf : buf.length = size)
    (hm : size ≤ m.length) :
    (overlays buf bs).flatten = m ++ (m.drop (m.length - size)).take (slack size m) := by
  rw [flatten_overlays h hbuf, List.drop_append, List.drop_eq_nil_of_le (by omega),
    List.nil_append, hbuf]

theorem overlays_congr (h : Split size m bs) (hm : m = [] ∨ size ≤ m.length)
    (hbuf : buf.length = size) (hbuf' : buf'.length = size) :
    overlays buf bs = overlays buf' bs := by
  cases h with
  | nil => rfl
  | last b hne hle =>
      have hfull := hm.resolve_left hne
      have hwhole : overlay buf m = m := overlay_of_full (by omega)
      have hwhole' : overlay buf' m = m := overlay_of_full (by omega)
      simp only [overlays, hwhole, hwhole']
  | cons b m bs hlen hne h =>
      have hwhole : overlay buf b = b := overlay_of_full (by omega)
      have hwhole' : overlay buf' b = b := overlay_of_full (by omega)
      simp only [overlays, hwhole, hwhole']

/-- What the buffer held at first does not show in the blocks exactly when the message is
empty or fills at least one of them. -/
theorem overlays_determined_iff [Nontrivial α] (h : Split size m bs) :
    (∀ buf buf', buf.length = size → buf'.length = size → overlays buf bs = overlays buf' bs) ↔
      m = [] ∨ size ≤ m.length := by
  constructor
  · intro hdet
    cases h with
    | nil => exact .inl rfl
    | last b hne hle =>
        obtain ⟨x, y, hxy⟩ := exists_pair_ne α
        have hsame := hdet (List.replicate size x) (List.replicate size y)
          List.length_replicate List.length_replicate
        simp only [overlays, overlay, List.cons.injEq, List.append_cancel_left_eq,
          List.drop_replicate, List.replicate_inj] at hsame
        have hnone : size - m.length = 0 := hsame.1.2.resolve_right hxy
        exact .inr (by omega)
    | cons b m bs hlen hne h =>
        right
        rw [List.length_append]
        omega
  · rintro hm buf buf' hbuf hbuf'
    exact overlays_congr h hm hbuf hbuf'

end Split

end MmsSvr.Lib
