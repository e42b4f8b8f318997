import Mathlib.Data.List.Forall2

/-!
Messages cut into blocks of one size, where the last block may be shorter and has to
be filled up, and is cut back by the length of the message.
-/

namespace MmsSvr.Lib

variable {α : Type}

/-- `bs` are the consecutive blocks of a message: `size` elements each, except that the
last one has at least one. -/
inductive Split (size : Nat) : List α → List (List α) → Prop where
  | nil : Split size [] []
  | last (b : List α) (hne : b ≠ []) (hle : b.length ≤ size) : Split size b [b]
  | cons (b m : List α) (bs : List (List α)) (hlen : b.length = size) (hne : m ≠ [])
      (h : Split size m bs) : Split size (b ++ m) (b :: bs)

/-- `p` is the block `b`, filled up to the full size. -/
def Padded (size : Nat) (b p : List α) : Prop := b <+: p ∧ p.length = size

/-- The blocks put together, with `tail` elements of the last one unless `tail` is
zero. -/
def joinBlocks (tail : Nat) : List (List α) → List α
  | [] => []
  | p :: ps => if ps = [] ∧ tail ≠ 0 then p.take tail else p ++ joinBlocks tail ps

namespace Split

variable {size : Nat} {m : List α} {bs ps : List (List α)}

theorem eq_nil_iff (h : Split size m bs) : bs = [] ↔ m = [] := by
  cases h with
  | nil => simp
  | last b hne hle => simp [hne]
  | cons b m bs hlen hne h => simp [hne]

theorem length_le (h : Split size m bs) : ∀ b ∈ bs, b.length ≤ size := by
  induction h with
  | nil => simp
  | last b hne hle => simpa using hle
  | cons b m bs hlen hne h ih =>
      rw [List.forall_mem_cons]
      exact ⟨Nat.le_of_eq hlen, ih⟩

theorem flatten_eq (h : Split size m bs) : bs.flatten = m := by
  induction h with
  | nil => rfl
  | last b hne hle => simp
  | cons b m bs hlen hne h ih => rw [List.flatten_cons, ih]

theorem length_eq (h : Split size m bs) (hmod : m.length % size = 0) :
    ∀ b ∈ bs, b.length = size := by
  induction h with
  | nil => simp
  | last b hne hle =>
      have hpos : 0 < b.length := List.length_pos_iff.mpr hne
      have hfull : b.length = size := by
        apply Classical.byContradiction
        intro hlt
        rw [Nat.mod_eq_of_lt (by omega)] at hmod
        omega
      simpa using hfull
  | cons b m bs hlen hne h ih =>
      rw [List.length_append, hlen, Nat.add_mod_left] at hmod
      rw [List.forall_mem_cons]
      exact ⟨hlen, ih hmod⟩

theorem of_length_eq (hsize : 0 < size) (hbs : ∀ b ∈ bs, b.length = size) :
    Split size bs.flatten bs := by
  induction bs with
  | nil => exact .nil
  | cons b bs ih =>
      rw [List.forall_mem_cons] at hbs
      obtain ⟨hb, hbs⟩ := hbs
      have hrest := ih hbs
      rw [List.flatten_cons]
      by_cases hnil : bs = []
      · subst hnil
        rw [List.flatten_nil, List.append_nil]
        refine .last b ?_ (Nat.le_of_eq hb)
        rintro rfl
        simp only [List.length_nil] at hb
        omega
      · refine .cons b _ bs hb ?_ hrest
        exact fun hflat => hnil (hrest.eq_nil_iff.mpr hflat)

theorem join_padded (h : Split size m bs) (hps : List.Forall₂ (Padded size) bs ps) :
    joinBlocks (m.length % size) ps = m := by
  induction h generalizing ps with
  | nil =>
      cases hps
      rfl
  | last b hne hle =>
      rw [List.forall₂_cons_left_iff] at hps
      obtain ⟨p, ps, ⟨hpad, hlen⟩, hps, rfl⟩ := hps
      cases hps
      have htake : p.take b.length = b := (List.prefix_iff_eq_take.mp hpad).symm
      unfold joinBlocks
      split
      · rename_i htail
        have hlt : b.length ≠ size := by
          rintro rfl
          simp at htail
        rw [Nat.mod_eq_of_lt (by omega), htake]
      · rename_i htail
        have hpos : 0 < b.length := List.length_pos_iff.mpr hne
        have hfull : b.length = size := by
          apply Classical.byContradiction
          intro hlt
          rw [Nat.mod_eq_of_lt (by omega)] at htail
          exact htail ⟨rfl, by omega⟩
        rw [joinBlocks, List.append_nil, ← htake, hfull, ← hlen, List.take_length]
  | cons b m bs hlen hne h ih =>
      rw [List.forall₂_cons_left_iff] at hps
      obtain ⟨p, ps, ⟨hpad, hplen⟩, hps, rfl⟩ := hps
      have hp : b = p := hpad.eq_of_length (by rw [hlen, hplen])
      have hps' : ps ≠ [] := by
        rintro rfl
        cases hps
        exact hne (h.eq_nil_iff.mp rfl)
      rw [joinBlocks, if_neg (fun htail => hps' htail.1), List.length_append, hlen,
        Nat.add_mod_left, ih hps, hp]

end Split

end MmsSvr.Lib
