import Mathlib.Data.List.Nodup
import Mathlib.Data.List.Perm.Basic
import Mathlib.Logic.Function.Basic

/-!
Finite maps as lists of entries, and tables of chains: each element is in the chain that its slot
says, and as a multiset the chains of a table are what has been put into it and not been taken out.
-/

namespace MmsSvr.Lib

section Entries

variable {α β : Type*} {es es' : List (α × β)} {m : α → Option β} {k : α} {v : β}

/-- The entries are those of the map, each of them once. -/
structure Lists (es : List (α × β)) (m : α → Option β) : Prop where
  keys : (es.map Prod.fst).Nodup
  mem_iff : ∀ k v, (k, v) ∈ es ↔ m k = some v

theorem lists_nil : Lists (α := α) (β := β) [] fun _ => none :=
  ⟨List.nodup_nil, fun _ _ => ⟨nofun, nofun⟩⟩

theorem Lists.perm (h : Lists es m) (hperm : es.Perm es') : Lists es' m where
  keys := (hperm.map Prod.fst).nodup_iff.mp h.keys
  mem_iff := fun k v => hperm.mem_iff.symm.trans (h.mem_iff k v)

theorem Lists.not_mem (h : Lists es m) (hk : m k = none) : k ∉ es.map Prod.fst := by
  intro hmem
  obtain ⟨⟨k', v⟩, hentry, rfl⟩ := List.mem_map.mp hmem
  rw [h.mem_iff, hk] at hentry
  exact nomatch hentry

variable [DecidableEq α]

theorem Lists.cons (h : Lists es m) (hk : m k = none) (v : β) :
    Lists ((k, v) :: es) (Function.update m k (some v)) := by
  refine ⟨List.nodup_cons.mpr ⟨h.not_mem hk, h.keys⟩, ?_⟩
  intro k' v'
  rw [List.mem_cons, h.mem_iff, Prod.mk.injEq]
  by_cases heq : k' = k
  · subst heq
    simp [hk, eq_comm]
  · simp [heq]

theorem Lists.of_cons (h : Lists ((k, v) :: es) m) :
    m k = some v ∧ Lists es (Function.update m k none) := by
  obtain ⟨hfresh, hkeys⟩ := List.nodup_cons.mp h.keys
  refine ⟨(h.mem_iff k v).mp List.mem_cons_self, hkeys, ?_⟩
  intro k' v'
  by_cases heq : k' = k
  · subst heq
    rw [Function.update_self]
    constructor
    · intro hmem
      exact absurd (List.mem_map_of_mem hmem) hfresh
    · exact nofun
  · rw [Function.update_of_ne heq, ← h.mem_iff, List.mem_cons, Prod.mk.injEq]
    simp [heq]

end Entries

section Buckets

variable {ε : Type*} {slot slot' : ε → Nat} {t : List (List ε)} {c : List ε} {i : Nat} {e : ε}

/-- Every element is in the chain of its slot. -/
def Bucketed (slot : ε → Nat) (t : List (List ε)) : Prop :=
  ∀ i c, t[i]? = some c → ∀ e ∈ c, slot e = i

theorem bucketed_replicate (n : Nat) : Bucketed slot (List.replicate n []) := by
  intro i c hc e he
  rw [List.eq_of_mem_replicate (List.mem_of_getElem? hc)] at he
  exact absurd he List.not_mem_nil

theorem Bucketed.modify (h : Bucketed slot t) {f : List ε → List ε}
    (hf : ∀ c, t[i]? = some c → ∀ e ∈ f c, slot e = i) : Bucketed slot (t.modify i f) := by
  intro j c hc e he
  rw [List.getElem?_modify] at hc
  obtain ⟨chain, hchain, rfl⟩ := Option.map_eq_some_iff.mp hc
  by_cases hij : i = j
  · subst hij
    rw [if_pos rfl] at he
    exact hf chain hchain e he
  · rw [if_neg hij] at he
    exact h j chain hchain e he

theorem Bucketed.mem_flatten_iff (h : Bucketed slot t) (hc : t[slot e]? = some c) :
    e ∈ t.flatten ↔ e ∈ c := by
  constructor
  · intro he
    obtain ⟨chain, hchain, hmem⟩ := List.mem_flatten.mp he
    obtain ⟨i, hi⟩ := List.mem_iff_getElem?.mp hchain
    obtain rfl := h i chain hi e hmem
    obtain rfl := Option.some.inj (hi.symm.trans hc)
    exact hmem
  · intro he
    exact List.mem_flatten.mpr ⟨c, List.mem_of_getElem? hc, he⟩

theorem perm_flatten_modify {f g : List ε → List ε} {a b : List ε} (hc : t[i]? = some c)
    (h : (a ++ f c).Perm (b ++ g c)) :
    (a ++ (t.modify i f).flatten).Perm (b ++ (t.modify i g).flatten) := by
  induction t generalizing i with
  | nil => exact nomatch hc
  | cons chain t ih =>
      cases i with
      | zero =>
          obtain rfl := Option.some.inj hc
          rw [List.modify_zero_cons, List.modify_zero_cons, List.flatten_cons, List.flatten_cons,
            ← List.append_assoc, ← List.append_assoc]
          exact h.append_right _
      | succ i =>
          rw [List.modify_succ_cons, List.modify_succ_cons, List.flatten_cons, List.flatten_cons]
          refine (List.perm_append_comm_assoc a chain _).trans ?_
          refine ((ih hc).append_left chain).trans ?_
          exact List.perm_append_comm_assoc chain b _

theorem perm_flatten_push (hi : i < t.length) :
    (t.modify i (e :: ·)).flatten.Perm (e :: t.flatten) := by
  have hperm := perm_flatten_modify (f := (e :: ·)) (g := id) (a := []) (b := [e])
    (List.getElem?_eq_getElem hi) (.refl _)
  rw [List.modify_id] at hperm
  exact hperm

theorem perm_flatten_pop {f : List ε → List ε} (hc : t[i]? = some c) (h : c.Perm (e :: f c)) :
    t.flatten.Perm (e :: (t.modify i f).flatten) := by
  have hperm := perm_flatten_modify (f := id) (g := f) (a := []) (b := [e]) hc h
  rw [List.modify_id] at hperm
  exact hperm

/-- All of these, put in front of the chains of their slots. -/
def spread (slot : ε → Nat) (t : List (List ε)) (es : List ε) : List (List ε) :=
  es.foldl (fun t e => t.modify (slot e) (e :: ·)) t

theorem length_spread (es : List ε) : (spread slot t es).length = t.length := by
  induction es generalizing t with
  | nil => rfl
  | cons e es ih =>
      rw [spread, List.foldl_cons]
      exact (ih (t := t.modify (slot e) (e :: ·))).trans (List.length_modify _ _ _)

theorem Bucketed.spread (h : Bucketed slot t) (es : List ε) : Bucketed slot (spread slot t es) := by
  induction es generalizing t with
  | nil => exact h
  | cons e es ih =>
      refine ih (h.modify ?_)
      intro c hc x hx
      rcases List.mem_cons.mp hx with rfl | hx
      · rfl
      · exact h _ _ hc x hx

theorem perm_flatten_spread {es : List ε} (hes : ∀ e ∈ es, slot e < t.length) :
    (spread slot t es).flatten.Perm (es ++ t.flatten) := by
  induction es generalizing t with
  | nil => exact .refl _
  | cons e es ih =>
      rw [List.forall_mem_cons] at hes
      have hrest := ih (t := t.modify (slot e) (e :: ·))
        (fun e he => by rw [List.length_modify]; exact hes.2 e he)
      refine hrest.trans ?_
      refine ((perm_flatten_push hes.1).append_left es).trans ?_
      exact List.perm_middle

theorem perm_flatten_spread_replicate {es : List ε} {n : Nat} (hes : ∀ e ∈ es, slot e < n) :
    (spread slot (List.replicate n []) es).flatten.Perm es := by
  have hperm := perm_flatten_spread (t := List.replicate n [])
    (fun e he => by rw [List.length_replicate]; exact hes e he)
  rw [List.flatten_replicate_nil, List.append_nil] at hperm
  exact hperm

end Buckets

end MmsSvr.Lib
