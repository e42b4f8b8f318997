import Mathlib.Logic.Function.Basic

/-!
`event_hash.h`: the hash map interface shared by `hash_map_lock` and
`hash_map_unlock`.
-/

namespace MmsSvr

/-- A map from keys to values; a missing key reads as the default value `none`. -/
def StateMap (K V : Type) : Type := K → Option V

namespace StateMap

variable {K V : Type} [DecidableEq K]

def empty : StateMap K V := fun _ => none

def getState (m : StateMap K V) (k : K) : Option V := m k

def addState (m : StateMap K V) (k : K) (v : V) : StateMap K V :=
  fun l => if l = k then some v else m l

def delState (m : StateMap K V) (k : K) : StateMap K V :=
  fun l => if l = k then none else m l

omit [DecidableEq K] in
@[simp]
theorem getState_empty (k : K) : (empty : StateMap K V).getState k = none := rfl

theorem getState_addState (m : StateMap K V) (k l : K) (v : V) :
    (m.addState k v).getState l = if l = k then some v else m.getState l := rfl

theorem getState_delState (m : StateMap K V) (k l : K) :
    (m.delState k).getState l = if l = k then none else m.getState l := rfl

@[simp]
theorem getState_addState_self (m : StateMap K V) (k : K) (v : V) :
    (m.addState k v).getState k = some v := by
  rw [getState_addState, if_pos rfl]

@[simp]
theorem getState_addState_of_ne (m : StateMap K V) {k l : K} (v : V) (h : l ≠ k) :
    (m.addState k v).getState l = m.getState l := by
  rw [getState_addState, if_neg h]

@[simp]
theorem getState_delState_self (m : StateMap K V) (k : K) :
    (m.delState k).getState k = none := by
  rw [getState_delState, if_pos rfl]

@[simp]
theorem getState_delState_of_ne (m : StateMap K V) {k l : K} (h : l ≠ k) :
    (m.delState k).getState l = m.getState l := by
  rw [getState_delState, if_neg h]

end StateMap

end MmsSvr
