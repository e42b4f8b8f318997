import Mathlib.Algebra.Group.Nat.Defs
import Mathlib.Data.List.Basic

/-!
Objects in memory: accesses that stay inside them, and sizes that are computed in machine
words.
-/

namespace MmsSvr.Lib

section Size

variable {bits a b : Nat}

/-- `a - b` in a word of `bits` bits. -/
def sizeSub (bits a b : Nat) : Nat := (a + 2 ^ bits - b) % 2 ^ bits

/-- A size that is stored in a word of `bits` bits. -/
def sizeWord (bits a : Nat) : Nat := a % 2 ^ bits

theorem sizeSub_eq (hle : b ≤ a) (ha : a < 2 ^ bits) : sizeSub bits a b = a - b := by
  have hsum : a + 2 ^ bits - b = a - b + 2 ^ bits := by omega
  rw [sizeSub, hsum, Nat.add_mod_right, Nat.mod_eq_of_lt (by omega)]

theorem sizeWord_eq (ha : a < 2 ^ bits) : sizeWord bits a = a := Nat.mod_eq_of_lt ha

/-- An integer that is stored in a signed word of `bits` bits. -/
def intWord (bits : Nat) (a : Int) : Int := a.bmod (2 ^ bits)

theorem intWord_eq (ha : 2 * a < 2 ^ bits) : intWord bits a = a := by
  have hpos : 0 < 2 ^ bits := Nat.two_pow_pos bits
  apply Int.bmod_eq_of_le
  · omega
  · omega

theorem intWord_eq_of_natAbs {a : Int} (ha : 2 * a.natAbs < 2 ^ bits) : intWord bits a = a := by
  apply Int.bmod_eq_of_le
  · omega
  · omega

end Size

section Block

variable {α : Type} {block block' data : List α} {i j n : Nat}

/-- The `n` elements from `i` on, if the object has them. -/
def load (block : List α) (i n : Nat) : Option (List α) :=
  if i + n ≤ block.length then some ((block.drop i).take n) else none

/-- The object after `data` has been copied to `i`, if it has the room. -/
def store (block : List α) (i : Nat) (data : List α) : Option (List α) :=
  if i + data.length ≤ block.length then
    some (block.take i ++ data ++ block.drop (i + data.length))
  else none

theorem load_eq (h : i + n ≤ block.length) : load block i n = some ((block.drop i).take n) :=
  if_pos h

theorem store_eq (h : i + data.length ≤ block.length) :
    store block i data = some (block.take i ++ data ++ block.drop (i + data.length)) := if_pos h

theorem store_eq_some_iff : store block i data = some block' ↔
    i + data.length ≤ block.length ∧
      block.take i ++ data ++ block.drop (i + data.length) = block' := by
  rw [store, Option.ite_none_right_eq_some, Option.some.injEq]

theorem length_store (h : store block i data = some block') : block'.length = block.length := by
  obtain ⟨hle, rfl⟩ := store_eq_some_iff.mp h
  simp only [List.length_append, List.length_take, List.length_drop]
  omega

theorem getElem?_store (h : store block i data = some block') (k : Nat) :
    block'[k]? = if k < i then block[k]?
      else if k < i + data.length then data[k - i]? else block[k]? := by
  obtain ⟨hle, rfl⟩ := store_eq_some_iff.mp h
  have hlen : (block.take i).length = i := by
    rw [List.length_take]
    omega
  rw [List.append_assoc]
  split
  · rename_i hk
    rw [List.getElem?_append_left (by omega), List.getElem?_take_of_lt hk]
  · rename_i hi
    rw [List.getElem?_append_right (by omega), hlen]
    split
    · rw [List.getElem?_append_left (by omega)]
    · rw [List.getElem?_append_right (by omega), List.getElem?_drop]
      congr 1
      omega

theorem load_store (h : store block i data = some block') :
    load block' i data.length = some data := by
  have hle := (store_eq_some_iff.mp h).1
  rw [load_eq (by rw [length_store h]; exact hle), Option.some.injEq]
  apply List.ext_getElem?
  intro k
  rw [List.getElem?_take, List.getElem?_drop, getElem?_store h]
  by_cases hk : k < data.length
  · rw [if_pos hk, if_neg (by omega), if_pos (by omega)]
    congr 1
    omega
  · rw [if_neg hk, List.getElem?_eq_none (by omega)]

theorem load_store_of_apart (h : store block i data = some block')
    (happart : j + n ≤ i ∨ i + data.length ≤ j) : load block' j n = load block j n := by
  rw [load, load, length_store h]
  split
  · rw [Option.some.injEq]
    apply List.ext_getElem?
    intro k
    rw [List.getElem?_take, List.getElem?_take, List.getElem?_drop, List.getElem?_drop,
      getElem?_store h]
    by_cases hk : k < n
    · rw [if_pos hk, if_pos hk]
      rcases happart with hbefore | hbehind
      · rw [if_pos (by omega)]
      · rw [if_neg (by omega), if_neg (by omega)]
    · rw [if_neg hk, if_neg hk]
  · rfl

theorem take_store (h : store block i data = some block') :
    block'.take (i + data.length) = block.take i ++ data := by
  obtain ⟨hle, rfl⟩ := store_eq_some_iff.mp h
  have hlen : (block.take i ++ data).length = i + data.length := by
    rw [List.length_append, List.length_take]
    omega
  rw [← hlen]
  exact List.take_left' rfl

/-- What `realloc` makes of an object; `fill` is what it finds in the new memory. -/
def realloc (fill : Nat → α) (block : List α) (size : Nat) : List α :=
  block.take size ++ (List.range (size - block.length)).map fun k => fill (block.length + k)

@[simp]
theorem length_realloc (fill : Nat → α) (block : List α) (size : Nat) :
    (realloc fill block size).length = size := by
  simp only [realloc, List.length_append, List.length_take, List.length_map, List.length_range]
  omega

theorem take_realloc (fill : Nat → α) {size : Nat} (h : n ≤ block.length) (hsize : n ≤ size) :
    (realloc fill block size).take n = block.take n := by
  rw [realloc, List.take_append_of_le_length (by rw [List.length_take]; omega), List.take_take,
    Nat.min_eq_left hsize]

theorem load_take {k : Nat} (h : load block i n = some data) (hk : k ≤ n) :
    load block i k = some (data.take k) := by
  rw [load, Option.ite_none_right_eq_some, Option.some.injEq] at h
  obtain ⟨hle, rfl⟩ := h
  rw [load_eq (by omega), List.take_take, Nat.min_eq_left hk]

end Block

section Word

/-- The object representation of an integer of `w` bytes. -/
def littleEndian : Nat → Nat → List UInt8
  | 0, _ => []
  | w + 1, n => UInt8.ofNat n :: littleEndian w (n / 256)

def ofLittleEndian : List UInt8 → Nat
  | [] => 0
  | c :: rest => c.toNat + 256 * ofLittleEndian rest

@[simp]
theorem length_littleEndian (w n : Nat) : (littleEndian w n).length = w := by
  induction w generalizing n with
  | zero => rfl
  | succ w ih => rw [littleEndian, List.length_cons, ih]

theorem ofLittleEndian_littleEndian {w n : Nat} (h : n < 2 ^ (8 * w)) :
    ofLittleEndian (littleEndian w n) = n := by
  induction w generalizing n with
  | zero =>
      rw [Nat.mul_zero, Nat.pow_zero] at h
      rw [littleEndian, ofLittleEndian]
      omega
  | succ w ih =>
      have hpow : 2 ^ (8 * (w + 1)) = 2 ^ (8 * w) * 256 := by
        rw [Nat.mul_add, Nat.pow_add]
      rw [littleEndian, ofLittleEndian, ih (by omega), UInt8.toNat_ofNat']
      omega

end Word

end MmsSvr.Lib
