import Mathlib.Data.List.Basic

/-!
The words of a list: its longest stretches without a separator.
-/

namespace MmsSvr.Lib

section Words

variable {α β : Type} (sep : α → Bool)

/-- A word that has come to its end, if it has begun. -/
def closeWord (word : List α) : List (List α) := if word.isEmpty then [] else [word]

/-- The words of a list that goes on with the word that has begun. -/
def wordsFrom : List α → List α → List (List α)
  | word, [] => closeWord word
  | word, a :: l => if sep a then closeWord word ++ wordsFrom [] l else wordsFrom (word ++ [a]) l

def words (l : List α) : List (List α) := wordsFrom sep [] l

variable {sep} {word l : List α}

theorem wordsFrom_cons_sep {a : α} (h : sep a = true) :
    wordsFrom sep word (a :: l) = closeWord word ++ wordsFrom sep [] l := by
  rw [wordsFrom, if_pos h]

theorem wordsFrom_cons_of_not_sep {a : α} (h : sep a = false) :
    wordsFrom sep word (a :: l) = wordsFrom sep (word ++ [a]) l := by
  rw [wordsFrom, if_neg (by rw [h]; exact Bool.false_ne_true)]

theorem wordsFrom_append {l' : List α} (h : ∀ a ∈ l, sep a = false) :
    wordsFrom sep word (l ++ l') = wordsFrom sep (word ++ l) l' := by
  induction l generalizing word with
  | nil => rw [List.nil_append, List.append_nil]
  | cons a l ih =>
      rw [List.forall_mem_cons] at h
      rw [List.cons_append, wordsFrom_cons_of_not_sep h.1, ih h.2, List.append_assoc,
        List.singleton_append]

theorem flatten_closeWord (word : List α) : (closeWord word).flatten = word := by
  cases word with
  | nil => rfl
  | cons a word => exact List.append_nil _

theorem flatten_wordsFrom (sep : α → Bool) (word l : List α) :
    (wordsFrom sep word l).flatten = word ++ l.filter fun a => !sep a := by
  induction l generalizing word with
  | nil => rw [wordsFrom, flatten_closeWord, List.filter_nil, List.append_nil]
  | cons a l ih =>
      cases hsep : sep a with
      | true =>
          rw [wordsFrom_cons_sep hsep, List.flatten_append, flatten_closeWord, ih,
            List.nil_append, List.filter_cons_of_neg (by rw [hsep]; exact Bool.false_ne_true)]
      | false =>
          rw [wordsFrom_cons_of_not_sep hsep, ih, List.append_assoc, List.singleton_append,
            List.filter_cons_of_pos (by rw [hsep]; rfl)]

theorem flatten_words (sep : α → Bool) (l : List α) :
    (words sep l).flatten = l.filter fun a => !sep a :=
  flatten_wordsFrom sep [] l

theorem closeWord_flatMap (f : α → List β) (word : List α) :
    closeWord (word.flatMap f) =
      ((closeWord word).map (List.flatMap f)).filter fun w => !w.isEmpty := by
  cases word with
  | nil => rfl
  | cons a word =>
      have hclose : closeWord (a :: word) = [a :: word] := rfl
      rw [hclose, List.map_singleton, closeWord]
      cases (a :: word).flatMap f with
      | nil => rfl
      | cons b l => rfl

/-- When the separators of a list are those of what its elements stand for, so are the words, but
for those that stand for nothing. -/
theorem wordsFrom_flatMap {sep' : β → Bool} {f : α → List β}
    (hsep : ∀ a ∈ l, sep a = true → ∃ b, f a = [b] ∧ sep' b = true)
    (hword : ∀ a ∈ l, sep a = false → ∀ b ∈ f a, sep' b = false) :
    wordsFrom sep' (word.flatMap f) (l.flatMap f) =
      ((wordsFrom sep word l).map (List.flatMap f)).filter fun w => !w.isEmpty := by
  induction l generalizing word with
  | nil => exact closeWord_flatMap f word
  | cons a l ih =>
      rw [List.forall_mem_cons] at hsep hword
      rw [List.flatMap_cons]
      cases ha : sep a with
      | true =>
          obtain ⟨b, hb, hb'⟩ := hsep.1 ha
          have hrest : wordsFrom sep' (([] : List α).flatMap f) (l.flatMap f) =
              ((wordsFrom sep [] l).map (List.flatMap f)).filter fun w => !w.isEmpty :=
            ih hsep.2 hword.2
          rw [List.flatMap_nil] at hrest
          rw [hb, List.singleton_append, wordsFrom_cons_sep hb', wordsFrom_cons_sep ha,
            List.map_append, List.filter_append, hrest, closeWord_flatMap]
      | false =>
          rw [wordsFrom_append (hword.1 ha), wordsFrom_cons_of_not_sep ha, ← ih hsep.2 hword.2,
            List.flatMap_append, List.flatMap_singleton]

end Words

end MmsSvr.Lib
