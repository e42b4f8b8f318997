import MmsSvr.Bytes
import MmsSvr.Lib.Buckets
import MmsSvr.Lib.Memory

/-!
`dict.c`: the hash tables in which hiredis keeps the callbacks of subscriptions.
-/

namespace MmsSvr.Hiredis

open Lib

/-- `dict`, with an `unsigned long` of 64 bits; `size` is the length of the table. -/
structure Dict (α β : Type) where
  table : List (List (α × β))
  used : Nat
deriving DecidableEq, Repr

structure DictIterator (α β : Type) where
  index : Int
  /-- From `nextEntry` on, if `entry` is not NULL. -/
  nextEntry : Option (List (α × β))

def dictGenHashFunction (buf : Bytes) : UInt32 :=
  buf.foldl (fun hash c => (hash <<< 5) + hash + c.toUInt32) 5381

section Operations

variable {α β : Type} (hash : α → UInt32)

def dictCreate : Dict α β := ⟨[], 0⟩

def nextPowerLoop (size i : Nat) (hi : 0 < i) : Nat :=
  if size ≤ i then i else nextPowerLoop size (i * 2) (by omega)
termination_by size - i

/-- `_dictNextPower`; `LONG_MAX` is `2 ^ 63 - 1`. -/
def dictNextPower (size : Nat) : Nat :=
  if 2 ^ 63 - 1 ≤ size then 2 ^ 63 - 1 else nextPowerLoop size 4 (by decide)

def dictIndex (size : Nat) (key : α) : Nat := (hash key).toNat &&& (size - 1)

/-- The `while` of `dictExpand`, over one chain. -/
def moveChain (size : Nat) (s : List (List (α × β)) × Nat) (chain : List (α × β)) :
    List (List (α × β)) × Nat :=
  chain.foldl (fun s he => (s.1.modify (dictIndex hash size he.1) (he :: ·), sizeSub 64 s.2 1)) s

/-- `dictExpand`, and whether it returns `DICT_OK`; `none` if its assertion fails. -/
def dictExpand (ht : Dict α β) (size : Nat) : Option (Dict α β × Bool) :=
  let realsize := dictNextPower size
  if size < ht.used then some (ht, false)
  else
    let moved := ht.table.foldl
      (fun s chain => if 0 < s.2 then moveChain hash realsize s chain else s)
      (List.replicate realsize [], ht.used)
    if moved.2 = 0 then some (⟨moved.1, ht.used⟩, true) else none

def dictExpandIfNeeded (ht : Dict α β) : Option (Dict α β × Bool) :=
  if ht.table = [] then dictExpand hash ht 4
  else if ht.used = ht.table.length then dictExpand hash ht (ht.table.length * 2)
  else some (ht, true)

def chainOf (ht : Dict α β) (key : α) : List (α × β) :=
  ht.table.getD (dictIndex hash ht.table.length key) []

def dictGetIterator : DictIterator α β := ⟨-1, none⟩

/-- The `while` of `dictNext` from an `index` on, with the `size` that it is compared with. -/
def dictScan (ht : Dict α β) (size index : Int) : Option ((α × β) × DictIterator α β) :=
  if size ≤ index then none
  else
    match ht.table[index.toNat]? with
    | some (he :: chain) => some (he, ⟨index, some chain⟩)
    | _ => dictScan ht size (index + 1)
termination_by (size - index).toNat

/-- `dictNext`; the `size` is cast to an `int`. -/
def dictNext (ht : Dict α β) (iter : DictIterator α β) :
    Option ((α × β) × DictIterator α β) :=
  match iter.nextEntry with
  | some (he :: chain) => some (he, { iter with nextEntry := some chain })
  | _ => dictScan ht (intWord 32 ht.table.length) (iter.index + 1)

/-- What so many calls of `dictNext` give. -/
def dictWalk (ht : Dict α β) : Nat → DictIterator α β → List (α × β)
  | 0, _ => []
  | n + 1, iter =>
      match dictNext ht iter with
      | some (he, iter) => he :: dictWalk ht n iter
      | none => []

variable [DecidableEq α]

def dictCompareHashKeys (key : α) (he : α × β) : Bool := key = he.1

/-- `_dictKeyIndex`, which returns an `int`. -/
def dictKeyIndex (ht : Dict α β) (key : α) : Option (Dict α β × Int) :=
  (dictExpandIfNeeded hash ht).map fun (ht, ok) =>
    if !ok then (ht, -1)
    else if (chainOf hash ht key).any (dictCompareHashKeys key) then (ht, -1)
    else (ht, intWord 32 (dictIndex hash ht.table.length key))

/-- `dictAdd`, and whether it returns `DICT_OK`; `none` also for a write outside of the table. -/
def dictAdd (ht : Dict α β) (key : α) (val : β) : Option (Dict α β × Bool) :=
  (dictKeyIndex hash ht key).bind fun (ht, index) =>
    if index = -1 then some (ht, false)
    else if 0 ≤ index ∧ index.toNat < ht.table.length then
      some (⟨ht.table.modify index.toNat ((key, val) :: ·), ht.used + 1⟩, true)
    else none

/-- `dictFind`: the value of the entry that it finds. -/
def dictFind (ht : Dict α β) (key : α) : Option β :=
  if ht.table = [] then none
  else ((chainOf hash ht key).find? (dictCompareHashKeys key)).map Prod.snd

def setVal (key : α) (val : β) : List (α × β) → List (α × β)
  | [] => []
  | he :: chain => if dictCompareHashKeys key he then (he.1, val) :: chain else he :: setVal key val chain

/-- `dictReplace`, and whether the key has been added; `none` also if there is no entry to set. -/
def dictReplace (ht : Dict α β) (key : α) (val : β) : Option (Dict α β × Bool) :=
  (dictAdd hash ht key val).bind fun (ht, ok) =>
    if ok then some (ht, true)
    else
      match dictFind hash ht key with
      | none => none
      | some _ =>
          some ({ ht with
            table := ht.table.modify (dictIndex hash ht.table.length key) (setVal key val) }, false)

/-- `dictDelete`, and whether it returns `DICT_OK`. -/
def dictDelete (ht : Dict α β) (key : α) : Dict α β × Bool :=
  if ht.table = [] then (ht, false)
  else if (chainOf hash ht key).any (dictCompareHashKeys key) then
    (⟨ht.table.modify (dictIndex hash ht.table.length key) (List.eraseP (dictCompareHashKeys key)),
      sizeSub 64 ht.used 1⟩, true)
  else (ht, false)

end Operations

section Rehash

variable {α β : Type} {hash : α → UInt32} {size : Nat}

theorem nextPowerLoop_pow {j k : Nat} (hjk : j ≤ k) (hi : 0 < 2 ^ j) :
    nextPowerLoop (2 ^ k) (2 ^ j) hi = 2 ^ k := by
  obtain ⟨d, rfl⟩ := Nat.exists_eq_add_of_le hjk
  induction d generalizing j with
  | zero =>
      rw [nextPowerLoop]
      exact if_pos (Nat.le_refl _)
  | succ d ih =>
      have hlt : 2 ^ j < 2 ^ (j + (d + 1)) := Nat.pow_lt_pow_right (by decide) (by omega)
      have hstep := ih (j := j + 1) (by rw [Nat.pow_succ]; omega) (by omega)
      rw [nextPowerLoop, if_neg (by omega)]
      rw [show j + 1 + d = j + (d + 1) by omega] at hstep
      exact hstep

theorem dictNextPower_pow {k : Nat} (hlow : 2 ≤ k) (hhigh : k < 63) :
    dictNextPower (2 ^ k) = 2 ^ k := by
  have hle : 2 ^ k ≤ 2 ^ 62 := Nat.pow_le_pow_right (by decide) (by omega)
  rw [dictNextPower, if_neg (by omega)]
  exact nextPowerLoop_pow hlow (by decide)

def entrySlot (hash : α → UInt32) (size : Nat) (he : α × β) : Nat := dictIndex hash size he.1

theorem dictIndex_lt (hash : α → UInt32) (hsize : 0 < size) (key : α) :
    dictIndex hash size key < size := by
  have hle : (hash key).toNat &&& (size - 1) ≤ size - 1 := Nat.and_le_right
  rw [dictIndex]
  omega

theorem moveChain_eq (n : List (List (α × β))) (chain : List (α × β)) (used : Nat)
    (hused : chain.length + used < 2 ^ 64) :
    moveChain hash size (n, chain.length + used) chain =
      (spread (entrySlot hash size) n chain, used) := by
  induction chain generalizing n with
  | nil =>
      rw [List.length_nil, Nat.zero_add]
      rfl
  | cons he chain ih =>
      rw [List.length_cons] at hused ⊢
      have hsub : sizeSub 64 (chain.length + 1 + used) 1 = chain.length + used := by
        rw [sizeSub_eq (by omega) hused]
        omega
      rw [moveChain, List.foldl_cons]
      dsimp only
      rw [hsub]
      exact ih _ (by omega)

theorem moveChains_eq (n chains : List (List (α × β))) (hused : chains.flatten.length < 2 ^ 64) :
    chains.foldl (fun s chain => if 0 < s.2 then moveChain hash size s chain else s)
      (n, chains.flatten.length) = (spread (entrySlot hash size) n chains.flatten, 0) := by
  induction chains generalizing n with
  | nil => rfl
  | cons chain chains ih =>
      rw [List.flatten_cons, List.length_append] at hused ⊢
      have hmove : (if 0 < (n, chain.length + chains.flatten.length).2 then
            moveChain hash size (n, chain.length + chains.flatten.length) chain
          else (n, chain.length + chains.flatten.length)) =
          (spread (entrySlot hash size) n chain, chains.flatten.length) := by
        split
        · exact moveChain_eq n chain _ hused
        · rename_i hzero
          have hnil : chain = [] := List.eq_nil_of_length_eq_zero (by dsimp only at hzero; omega)
          subst hnil
          rw [List.length_nil, Nat.zero_add]
          rfl
      rw [List.foldl_cons, hmove, ih _ (by omega), spread, spread, spread, List.foldl_append]

end Rehash

section Represents

variable {α β : Type} {hash : α → UInt32} {ht : Dict α β} {m : α → Option β} {key : α} {val : β}

/-- The table holds a map, and finds its entries by their hash. -/
structure Represents (hash : α → UInt32) (ht : Dict α β) (m : α → Option β) : Prop where
  size : ht.table = [] ∨ ∃ k, 2 ≤ k ∧ k ≤ 30 ∧ ht.table.length = 2 ^ k
  bucketed : Bucketed (entrySlot hash ht.table.length) ht.table
  lists : Lists ht.table.flatten m
  used : ht.used = ht.table.flatten.length

theorem represents_create : Represents hash (dictCreate : Dict α β) fun _ => none where
  size := .inl rfl
  bucketed := bucketed_replicate 0
  lists := lists_nil
  used := rfl

theorem Represents.expand (h : Represents hash ht m) {k : Nat} (hlow : 2 ≤ k) (hhigh : k ≤ 30)
    (hused : ht.used ≤ 2 ^ k) :
    ∃ ht', dictExpand hash ht (2 ^ k) = some (ht', true) ∧ Represents hash ht' m ∧
      ht'.used = ht.used ∧ ht'.table.length = 2 ^ k := by
  have hle : 2 ^ k ≤ 2 ^ 30 := Nat.pow_le_pow_right (by decide) hhigh
  have hpos : 0 < 2 ^ k := Nat.two_pow_pos k
  have hlength : (spread (entrySlot hash (2 ^ k)) (List.replicate (2 ^ k) [])
      ht.table.flatten).length = 2 ^ k := by
    rw [length_spread, List.length_replicate]
  have hperm : (spread (entrySlot hash (2 ^ k)) (List.replicate (2 ^ k) [])
      ht.table.flatten).flatten.Perm ht.table.flatten :=
    perm_flatten_spread_replicate fun e _ => dictIndex_lt hash hpos e.1
  refine ⟨⟨spread (entrySlot hash (2 ^ k)) (List.replicate (2 ^ k) []) ht.table.flatten, ht.used⟩,
    ?_, ⟨.inr ⟨k, hlow, hhigh, hlength⟩, ?_, h.lists.perm hperm.symm, ?_⟩, rfl, hlength⟩
  · unfold dictExpand
    dsimp only
    rw [dictNextPower_pow hlow (by omega), if_neg (by omega), h.used,
      moveChains_eq _ _ (by rw [← h.used]; omega)]
    rfl
  · dsimp only
    rw [hlength]
    exact (bucketed_replicate _).spread _
  · dsimp only
    rw [h.used, hperm.length_eq]

theorem Represents.expandIfNeeded (h : Represents hash ht m) (hused : ht.used < 2 ^ 30) :
    ∃ ht', dictExpandIfNeeded hash ht = some (ht', true) ∧ Represents hash ht' m ∧
      ht'.used = ht.used ∧ ht'.table ≠ [] := by
  have hne : ∀ (ht' : Dict α β) k, ht'.table.length = 2 ^ k → ht'.table ≠ [] := by
    intro ht' k hlen hnil
    rw [hnil] at hlen
    exact absurd hlen.symm (Nat.two_pow_pos k).ne'
  rw [dictExpandIfNeeded]
  rcases h.size with hempty | ⟨k, hlow, hhigh, hlen⟩
  · have hzero : ht.used = 0 := by
      rw [h.used, hempty]
      rfl
    obtain ⟨ht', heq, hrep, hkeep, hlen⟩ := h.expand (k := 2) (by decide) (by decide) (by omega)
    rw [if_pos hempty]
    exact ⟨ht', heq, hrep, hkeep, hne ht' 2 hlen⟩
  · rw [if_neg (hne ht k hlen)]
    by_cases hfull : ht.used = ht.table.length
    · have hk : k < 30 := by
        rw [hfull, hlen] at hused
        exact (Nat.pow_lt_pow_iff_right (by decide)).mp hused
      obtain ⟨ht', heq, hrep, hkeep, hlen'⟩ := h.expand (k := k + 1) (by omega) (by omega)
        (by rw [hfull, hlen, Nat.pow_succ]; omega)
      rw [if_pos hfull, hlen, ← Nat.pow_succ]
      exact ⟨ht', heq, hrep, hkeep, hne ht' (k + 1) hlen'⟩
    · rw [if_neg hfull]
      exact ⟨ht, rfl, h, rfl, hne ht k hlen⟩

theorem Represents.mem_chain (h : Represents hash ht m) (hne : ht.table ≠ []) :
    (key, val) ∈ chainOf hash ht key ↔ m key = some val := by
  have hlt : dictIndex hash ht.table.length key < ht.table.length :=
    dictIndex_lt hash (List.length_pos_iff.mpr hne) key
  have hchain : ht.table[entrySlot hash ht.table.length (key, val)]? =
      some (chainOf hash ht key) := by
    rw [chainOf, List.getD_eq_getElem?_getD, entrySlot, List.getElem?_eq_getElem hlt]
    rfl
  rw [← h.lists.mem_iff, h.bucketed.mem_flatten_iff hchain]

theorem Represents.chain (hash : α → UInt32) (hne : ht.table ≠ []) (key : α) :
    ht.table[dictIndex hash ht.table.length key]? = some (chainOf hash ht key) := by
  have hlt : dictIndex hash ht.table.length key < ht.table.length :=
    dictIndex_lt hash (List.length_pos_iff.mpr hne) key
  rw [chainOf, List.getD_eq_getElem?_getD, List.getElem?_eq_getElem hlt]
  rfl

theorem Represents.modify (h : Represents hash ht m) (hne : ht.table ≠ []) (key : α)
    {f : List (α × β) → List (α × β)} {m' : α → Option β} {used : Nat}
    (hf : ∀ he ∈ f (chainOf hash ht key), he.1 = key ∨ he ∈ chainOf hash ht key)
    (hlists : Lists (ht.table.modify (dictIndex hash ht.table.length key) f).flatten m')
    (hused : used = (ht.table.modify (dictIndex hash ht.table.length key) f).flatten.length) :
    Represents hash ⟨ht.table.modify (dictIndex hash ht.table.length key) f, used⟩ m' := by
  have hlength : (ht.table.modify (dictIndex hash ht.table.length key) f).length =
      ht.table.length := List.length_modify _ _ _
  have hchain := Represents.chain hash hne key
  refine ⟨?_, ?_, hlists, hused⟩
  · right
    rw [hlength]
    exact h.size.resolve_left hne
  · rw [hlength]
    apply h.bucketed.modify
    intro c hc he hmem
    obtain rfl := Option.some.inj (hchain.symm.trans hc)
    rcases hf he hmem with rfl | hold
    · rfl
    · exact h.bucketed _ _ hchain he hold

variable [DecidableEq α]

theorem Represents.find (h : Represents hash ht m) (key : α) : dictFind hash ht key = m key := by
  rw [dictFind]
  by_cases hempty : ht.table = []
  · rw [if_pos hempty]
    cases hm : m key with
    | none => rfl
    | some v =>
        have hmem := (h.lists.mem_iff key v).mpr hm
        rw [hempty] at hmem
        exact absurd hmem List.not_mem_nil
  · rw [if_neg hempty]
    cases hfind : (chainOf hash ht key).find? (dictCompareHashKeys key) with
    | none =>
        cases hm : m key with
        | none => rfl
        | some v =>
            have hmiss := List.find?_eq_none.mp hfind _ ((h.mem_chain hempty).mpr hm)
            simp [dictCompareHashKeys] at hmiss
    | some he =>
        have hfound := List.find?_some hfind
        obtain rfl := of_decide_eq_true hfound
        exact ((h.mem_chain hempty).mp (List.mem_of_find?_eq_some hfind)).symm

theorem Represents.any (h : Represents hash ht m) (hne : ht.table ≠ []) (key : α) :
    (chainOf hash ht key).any (dictCompareHashKeys key) = (m key).isSome := by
  rw [← h.find key, dictFind, if_neg hne, Option.isSome_map, List.isSome_find?]

theorem Represents.keyIndex (h : Represents hash ht m) (hused : ht.used < 2 ^ 30) (key : α) :
    ∃ ht', dictKeyIndex hash ht key = some (ht', if (m key).isSome then (-1 : Int)
        else dictIndex hash ht'.table.length key) ∧
      Represents hash ht' m ∧ ht'.used = ht.used ∧ ht'.table ≠ [] := by
  obtain ⟨ht', hexpand, hrep, hkeep, hne⟩ := h.expandIfNeeded hused
  refine ⟨ht', ?_, hrep, hkeep, hne⟩
  have hpos := List.length_pos_iff.mpr hne
  have hlt := dictIndex_lt hash hpos key
  have hsize : ht'.table.length ≤ 2 ^ 30 := by
    rcases hrep.size with hempty | ⟨k, -, hk, hlen⟩
    · exact absurd hempty hne
    · rw [hlen]
      exact Nat.pow_le_pow_right (by decide) hk
  rw [dictKeyIndex, hexpand, Option.map_some]
  dsimp only
  rw [hrep.any hne, intWord_eq_of_natAbs (by omega)]
  cases (m key).isSome with
  | true => rfl
  | false => rfl

theorem Represents.add (h : Represents hash ht m) (hused : ht.used < 2 ^ 30) (key : α) (val : β) :
    ∃ ht', dictAdd hash ht key val = some (ht', (m key).isNone) ∧
      Represents hash ht' (if (m key).isNone then Function.update m key (some val) else m) ∧
      ht'.used ≤ ht.used + 1 ∧ ht'.table ≠ [] := by
  obtain ⟨ht', hindex, hrep, hkeep, hne⟩ := h.keyIndex hused key
  have hlt := dictIndex_lt hash (List.length_pos_iff.mpr hne) key
  cases hm : m key with
  | some v =>
      rw [hm] at hindex
      rw [dictAdd, hindex]
      exact ⟨ht', rfl, hrep, by omega, hne⟩
  | none =>
      rw [hm] at hindex
      change _ = some (ht', ((dictIndex hash ht'.table.length key : Nat) : Int)) at hindex
      rw [dictAdd, hindex, Option.bind_some]
      have hperm := perm_flatten_push (e := (key, val)) hlt
      refine ⟨⟨ht'.table.modify (dictIndex hash ht'.table.length key) ((key, val) :: ·),
        ht'.used + 1⟩, ?_, hrep.modify hne key ?_ ((hrep.lists.cons hm val).perm hperm.symm) ?_,
        Nat.le_of_eq (congrArg (· + 1) hkeep), ?_⟩
      · dsimp only
        rw [if_neg (by omega), Int.toNat_natCast, if_pos ⟨by omega, hlt⟩]
        rfl
      · intro he hmem
        rcases List.mem_cons.mp hmem with rfl | hold
        · exact .inl rfl
        · exact .inr hold
      · rw [hperm.length_eq, List.length_cons, hrep.used]
      · intro hnil
        exact hne (List.modify_eq_nil_iff.mp hnil)

theorem perm_setVal {c : List (α × β)} (hmem : (key, val) ∈ c) (v : β) :
    (setVal key v c).Perm ((key, v) :: c.eraseP (dictCompareHashKeys key)) := by
  induction c with
  | nil => exact absurd hmem List.not_mem_nil
  | cons he c ih =>
      by_cases hkey : dictCompareHashKeys key he = true
      · rw [setVal, if_pos hkey, List.eraseP_cons_of_pos hkey, ← of_decide_eq_true hkey]
      · have hrest : (key, val) ∈ c := by
          rcases List.mem_cons.mp hmem with rfl | hrest
          · exact absurd (decide_eq_true rfl) hkey
          · exact hrest
        rw [setVal, if_neg hkey, List.eraseP_cons_of_neg hkey]
        exact ((ih hrest).cons he).trans (.swap _ _ _)

theorem perm_eraseP {c : List (α × β)} (hmem : (key, val) ∈ c) :
    ∃ v, (key, v) ∈ c ∧ c.Perm ((key, v) :: c.eraseP (dictCompareHashKeys key)) := by
  obtain ⟨⟨k, v⟩, before, behind, -, hkey, hc, herase⟩ :=
    List.exists_of_eraseP (p := dictCompareHashKeys key) hmem (decide_eq_true rfl)
  obtain rfl : key = k := of_decide_eq_true hkey
  refine ⟨v, ?_, ?_⟩
  · rw [hc]
    exact List.mem_append_right _ List.mem_cons_self
  · rw [herase]
    nth_rewrite 1 [hc]
    exact List.perm_middle

theorem Represents.pop (h : Represents hash ht m) (hne : ht.table ≠ []) (hm : m key = some val) :
    ht.table.flatten.Perm ((key, val) :: (ht.table.modify (dictIndex hash ht.table.length key)
      (List.eraseP (dictCompareHashKeys key))).flatten) := by
  have hmem := (h.mem_chain hne).mpr hm
  obtain ⟨v, hv, hperm⟩ := perm_eraseP hmem
  rw [h.mem_chain hne, hm, Option.some.injEq] at hv
  subst hv
  exact perm_flatten_pop (Represents.chain hash hne key) hperm

theorem Represents.rest (h : Represents hash ht m) (hne : ht.table ≠ []) (hm : m key = some val) :
    Lists (ht.table.modify (dictIndex hash ht.table.length key)
      (List.eraseP (dictCompareHashKeys key))).flatten (Function.update m key none) :=
  (h.lists.perm (h.pop hne hm)).of_cons.2

theorem Represents.erase (h : Represents hash ht m) (hne : ht.table ≠ []) (hm : m key = some val)
    (hused : ht.used < 2 ^ 64) :
    Represents hash ⟨ht.table.modify (dictIndex hash ht.table.length key)
      (List.eraseP (dictCompareHashKeys key)), sizeSub 64 ht.used 1⟩ (Function.update m key none) ∧
    sizeSub 64 ht.used 1 ≤ ht.used := by
  have hperm := (h.pop hne hm).length_eq
  rw [← h.used, List.length_cons] at hperm
  have hsub : sizeSub 64 ht.used 1 = ht.used - 1 := sizeSub_eq (by omega) hused
  rw [hsub]
  constructor
  · apply h.modify hne key _ (h.rest hne hm)
    · omega
    · intro he hmem
      exact .inr (List.mem_of_mem_eraseP hmem)
  · omega

theorem Represents.delete (h : Represents hash ht m) (hused : ht.used < 2 ^ 64) (key : α) :
    Represents hash (dictDelete hash ht key).1 (Function.update m key none) ∧
      (dictDelete hash ht key).2 = (m key).isSome ∧ (dictDelete hash ht key).1.used ≤ ht.used := by
  have hkeep : m key = none → Function.update m key none = m := by
    intro hm
    rw [← hm, Function.update_eq_self]
  rw [dictDelete]
  by_cases hempty : ht.table = []
  · have hm : m key = none := by
      rw [← h.find key, dictFind, if_pos hempty]
    rw [if_pos hempty, hkeep hm, hm]
    exact ⟨h, rfl, Nat.le_refl _⟩
  · rw [if_neg hempty, h.any hempty]
    cases hm : m key with
    | none =>
        rw [hkeep hm]
        exact ⟨h, rfl, Nat.le_refl _⟩
    | some v =>
        obtain ⟨hrep, hle⟩ := h.erase hempty hm hused
        exact ⟨hrep, rfl, hle⟩

theorem Represents.set (h : Represents hash ht m) (hne : ht.table ≠ []) (hm : m key = some val)
    (v : β) : Represents hash { ht with
      table := ht.table.modify (dictIndex hash ht.table.length key) (setVal key v) }
        (Function.update m key (some v)) := by
  have hmem := (h.mem_chain hne).mpr hm
  have hperm : (ht.table.modify (dictIndex hash ht.table.length key) (setVal key v)).flatten.Perm
      ((key, v) :: (ht.table.modify (dictIndex hash ht.table.length key)
        (List.eraseP (dictCompareHashKeys key))).flatten) :=
    perm_flatten_modify (a := []) (b := [(key, v)]) (Represents.chain hash hne key)
      (perm_setVal hmem v)
  have hlists := (h.rest hne hm).cons (Function.update_self key none m) v
  rw [Function.update_idem] at hlists
  apply h.modify hne key _ (hlists.perm hperm.symm)
  · rw [h.used, (h.pop hne hm).length_eq, hperm.length_eq, List.length_cons, List.length_cons]
  · intro he hmem'
    rcases List.mem_cons.mp ((perm_setVal hmem v).mem_iff.mp hmem') with rfl | hrest
    · exact .inl rfl
    · exact .inr (List.mem_of_mem_eraseP hrest)

theorem Represents.replace (h : Represents hash ht m) (hused : ht.used < 2 ^ 30) (key : α)
    (val : β) : ∃ ht', dictReplace hash ht key val = some (ht', (m key).isNone) ∧
      Represents hash ht' (Function.update m key (some val)) ∧ ht'.used ≤ ht.used + 1 := by
  obtain ⟨ht', hadd, hrep, hle, hne⟩ := h.add hused key val
  rw [dictReplace, hadd, Option.bind_some]
  cases hm : m key with
  | none =>
      rw [hm] at hrep
      exact ⟨ht', rfl, hrep, hle⟩
  | some v =>
      rw [hm] at hrep
      change Represents hash ht' m at hrep
      have hfind := hrep.find key
      rw [hm] at hfind
      dsimp only [Option.isNone_some, Bool.false_eq_true, ↓reduceIte]
      rw [hfind]
      exact ⟨_, rfl, hrep.set hne hm val, hle⟩

end Represents

section Iteration

variable {α β : Type} {ht : Dict α β} {iter : DictIterator α β}

/-- What an iterator has still to visit. -/
def DictIterator.rest (ht : Dict α β) (iter : DictIterator α β) : List (α × β) :=
  iter.nextEntry.getD [] ++ (ht.table.drop (iter.index + 1).toNat).flatten

/-- What a call of `dictNext` gives of the entries that are left. -/
inductive Nexted (ht : Dict α β) (left : List (α × β)) :
    Option ((α × β) × DictIterator α β) → Prop
  | done (left_eq : left = []) : Nexted ht left none
  | entry (he : α × β) (iter : DictIterator α β) (left_eq : left = he :: iter.rest ht)
      (index : -1 ≤ iter.index) : Nexted ht left (some (he, iter))

theorem dictScan_nexted (ht : Dict α β) (i : Nat) :
    Nexted ht (ht.table.drop i).flatten (dictScan ht ht.table.length i) := by
  obtain ⟨n, hn⟩ : ∃ n, n = ht.table.length - i := ⟨_, rfl⟩
  induction n generalizing i with
  | zero =>
      rw [dictScan, if_pos (by omega)]
      apply Nexted.done
      rw [List.drop_eq_nil_of_le (by omega)]
      rfl
  | succ n ih =>
      have hlt : i < ht.table.length := by omega
      have hstep := ih (i + 1) (by omega)
      rw [dictScan, if_neg (by omega), Int.toNat_natCast, List.getElem?_eq_getElem hlt,
        List.drop_eq_getElem_cons hlt, List.flatten_cons]
      cases hchain : ht.table[i] with
      | nil => exact hstep
      | cons he chain =>
          apply Nexted.entry he ⟨i, some chain⟩
          · rfl
          · exact Int.le_trans (by decide) (Int.natCast_nonneg i)

theorem dictNext_nexted (hsize : ht.table.length < 2 ^ 31) (hindex : -1 ≤ iter.index) :
    Nexted ht (iter.rest ht) (dictNext ht iter) := by
  obtain ⟨index, nextEntry⟩ := iter
  dsimp only at hindex
  have hword : intWord 32 ht.table.length = ht.table.length := intWord_eq_of_natAbs (by omega)
  have hscan := dictScan_nexted ht (index + 1).toNat
  rw [Int.toNat_of_nonneg (by omega)] at hscan
  rw [dictNext, DictIterator.rest, hword]
  cases nextEntry with
  | none => exact hscan
  | some chain =>
      cases chain with
      | nil => exact hscan
      | cons he chain => exact .entry he ⟨index, some chain⟩ rfl hindex

theorem dictWalk_eq (hsize : ht.table.length < 2 ^ 31) (n : Nat) (hindex : -1 ≤ iter.index) :
    dictWalk ht n iter = (iter.rest ht).take n := by
  induction n generalizing iter with
  | zero => rfl
  | succ n ih =>
      have hnext := dictNext_nexted hsize hindex
      rw [dictWalk]
      generalize dictNext ht iter = x at hnext ⊢
      cases hnext with
      | done left_eq =>
          rw [left_eq]
          rfl
      | entry he iter left_eq index =>
          rw [left_eq]
          exact congrArg (he :: ·) (ih index)

theorem Represents.walk {hash : α → UInt32} {m : α → Option β} (h : Represents hash ht m)
    {n : Nat} (hn : ht.used ≤ n) : Lists (dictWalk ht n dictGetIterator) m := by
  have hsize : ht.table.length < 2 ^ 31 := by
    rcases h.size with hempty | ⟨k, -, hk, hlen⟩
    · rw [hempty, List.length_nil]
      decide
    · rw [hlen]
      exact Nat.lt_of_le_of_lt (Nat.pow_le_pow_right (by decide) hk) (by decide)
  have hrest : (dictGetIterator : DictIterator α β).rest ht = ht.table.flatten := rfl
  rw [dictWalk_eq hsize n (Int.le_refl _), hrest,
    List.take_of_length_le (by rw [← h.used]; exact hn)]
  exact h.lists

end Iteration

section Run

variable {α β : Type} [DecidableEq α]

inductive DictCall (α β : Type) where
  | add (key : α) (val : β)
  | replace (key : α) (val : β)
  | delete (key : α)
  | find (key : α)
deriving DecidableEq, Repr

inductive DictAnswer (β : Type) where
  /-- Whether something has been added or deleted. -/
  | changed (yes : Bool)
  | found (val : Option β)
deriving DecidableEq, Repr

/-- The call on the hash table. -/
def DictCall.run (hash : α → UInt32) (ht : Dict α β) :
    DictCall α β → Option (Dict α β × DictAnswer β)
  | .add key val => (dictAdd hash ht key val).map fun (ht, yes) => (ht, .changed yes)
  | .replace key val => (dictReplace hash ht key val).map fun (ht, yes) => (ht, .changed yes)
  | .delete key => some ((dictDelete hash ht key).1, .changed (dictDelete hash ht key).2)
  | .find key => some (ht, .found (dictFind hash ht key))

def DictCall.meaning (m : α → Option β) : DictCall α β → (α → Option β) × DictAnswer β
  | .add key val =>
      (if (m key).isNone then Function.update m key (some val) else m, .changed (m key).isNone)
  | .replace key val => (Function.update m key (some val), .changed (m key).isNone)
  | .delete key => (Function.update m key none, .changed (m key).isSome)
  | .find key => (m, .found (m key))

def DictCall.runAll (hash : α → UInt32) :
    Dict α β → List (DictCall α β) → Option (Dict α β × List (DictAnswer β))
  | ht, [] => some (ht, [])
  | ht, call :: calls =>
      (call.run hash ht).bind fun (ht, answer) =>
        (runAll hash ht calls).map fun (ht, answers) => (ht, answer :: answers)

def DictCall.meanings :
    (α → Option β) → List (DictCall α β) → (α → Option β) × List (DictAnswer β)
  | m, [] => (m, [])
  | m, call :: calls =>
      ((meanings (call.meaning m).1 calls).1,
        (call.meaning m).2 :: (meanings (call.meaning m).1 calls).2)

variable {hash : α → UInt32} {ht : Dict α β} {m : α → Option β}

theorem DictCall.run_represents (call : DictCall α β) (h : Represents hash ht m)
    (hused : ht.used < 2 ^ 30) :
    ∃ ht', call.run hash ht = some (ht', (call.meaning m).2) ∧
      Represents hash ht' (call.meaning m).1 ∧ ht'.used ≤ ht.used + 1 := by
  cases call with
  | add key val =>
      obtain ⟨ht', hadd, hrep, hle, -⟩ := h.add hused key val
      refine ⟨ht', ?_, hrep, hle⟩
      rw [DictCall.run, hadd]
      rfl
  | replace key val =>
      obtain ⟨ht', hreplace, hrep, hle⟩ := h.replace hused key val
      refine ⟨ht', ?_, hrep, hle⟩
      rw [DictCall.run, hreplace]
      rfl
  | delete key =>
      obtain ⟨hrep, hyes, hle⟩ := h.delete (by omega) key
      refine ⟨(dictDelete hash ht key).1, ?_, hrep, by omega⟩
      rw [DictCall.run, hyes]
      rfl
  | find key =>
      refine ⟨ht, ?_, h, Nat.le_succ _⟩
      rw [DictCall.run, h.find key]
      rfl

theorem DictCall.runAll_represents (calls : List (DictCall α β)) (h : Represents hash ht m)
    (hused : ht.used + calls.length ≤ 2 ^ 30) :
    ∃ ht', runAll hash ht calls = some (ht', (meanings m calls).2) ∧
      Represents hash ht' (meanings m calls).1 := by
  induction calls generalizing ht m with
  | nil => exact ⟨ht, rfl, h⟩
  | cons call calls ih =>
      rw [List.length_cons] at hused
      obtain ⟨ht₁, hrun, hrep, hle⟩ := call.run_represents h (by omega)
      obtain ⟨ht₂, hall, hrep₂⟩ := ih hrep (by omega)
      refine ⟨ht₂, ?_, hrep₂⟩
      rw [runAll, hrun, Option.bind_some]
      dsimp only
      rw [hall]
      rfl

/-- Whatever the hash is: a table is a map. Up to a billion calls in any order, with the growing that
they bring about, neither fail the assertion nor leave the table, each of them answers as on the map,
and in the end the iterator visits the entries of the map, each of them once. -/
theorem dict_is_map (hash : α → UInt32) (calls : List (DictCall α β))
    (hlen : calls.length ≤ 2 ^ 30) :
    ∃ ht, DictCall.runAll hash dictCreate calls =
        some (ht, (DictCall.meanings (fun _ => none) calls).2) ∧
      (∀ key, dictFind hash ht key = (DictCall.meanings (fun _ => none) calls).1 key) ∧
      ∀ n, ht.used ≤ n →
        Lists (dictWalk ht n dictGetIterator) (DictCall.meanings (fun _ => none) calls).1 := by
  obtain ⟨ht, hrun, hrep⟩ := DictCall.runAll_represents calls
    represents_create (by
      change 0 + calls.length ≤ 2 ^ 30
      omega)
  exact ⟨ht, hrun, hrep.find, fun n hn => hrep.walk hn⟩

theorem dict_is_map_four : ∃ ht, DictCall.runAll dictGenHashFunction dictCreate
    [.replace (lit "news") 1, .replace (lit "news") 2, .delete (lit "chat"), .find (lit "news")] =
      some (ht, [.changed true, .changed false, .changed false, .found (some 2)]) := by
  obtain ⟨ht, hrun, -⟩ := dict_is_map dictGenHashFunction
    [.replace (lit "news") 1, .replace (lit "news") 2, .delete (lit "chat"), .find (lit "news")]
    (by decide)
  have hmeanings : (DictCall.meanings (fun _ => none) [.replace (lit "news") 1,
      .replace (lit "news") 2, .delete (lit "chat"), .find (lit "news")]).2 =
        [.changed true, .changed false, .changed false, .found (some 2)] := by decide +kernel
  rw [hmeanings] at hrun
  exact ⟨ht, hrun⟩

end Run

end MmsSvr.Hiredis
