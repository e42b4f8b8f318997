import MmsSvr.Bytes
import MmsSvr.Lib.Memory
import MmsSvr.Lib.Transition

/-!
`memstuff`: memory that is handed out piece by piece and taken back all at once.
-/

namespace MmsSvr

open Lib

/-- `data`, of which `_size` bytes have been handed out. -/
structure MemData where
  size : Nat
  bufsize : Nat
  buf : Bytes
deriving DecidableEq, Repr

/-- An address in the `data` of this number. -/
structure MemPtr where
  data : Nat
  offset : Nat
deriving DecidableEq, Repr

structure MemRange where
  ptr : MemPtr
  length : Nat
deriving DecidableEq, Repr

namespace MemRange

def Apart (r r' : MemRange) : Prop :=
  r.ptr.data ≠ r'.ptr.data ∨ r.ptr.offset + r.length ≤ r'.ptr.offset ∨
    r'.ptr.offset + r'.length ≤ r.ptr.offset

end MemRange

structure MemStuff where
  data : List MemData
  /-- What `alloc` has returned since the last `clear`. -/
  ranges : List MemRange
deriving DecidableEq, Repr

/-- The template parameter, the size of a `size_t`, and what `malloc` finds in the memory of
each `data`. -/
structure MemConfig where
  SZ : Nat
  bits : Nat
  fresh : Nat → Nat → UInt8

namespace MemConfig

variable (cfg : MemConfig)

def appendbuf (k bz : Nat) : MemData :=
  let SZ := sizeWord cfg.bits cfg.SZ
  let sz := if bz < SZ then SZ else sizeWord cfg.bits (bz * 2)
  { size := 0, bufsize := sz, buf := (List.range sz).map (cfg.fresh k) }

/-- `buf->_size += bz`. -/
def use (d : MemData) (bz : Nat) : MemData := { d with size := sizeWord cfg.bits (d.size + bz) }

/-- `alloc`, from the `data` of number `k` on. -/
def allocFrom (bz : Nat) : List MemData → Nat → List MemData × MemPtr
  | [], k =>
      let buf := cfg.use (cfg.appendbuf k bz) bz
      ([buf], ⟨k, sizeSub cfg.bits buf.size bz⟩)
  | d :: rest, k =>
      if sizeSub cfg.bits d.bufsize d.size ≥ bz then
        let buf := cfg.use d bz
        (buf :: rest, ⟨k, sizeSub cfg.bits buf.size bz⟩)
      else
        let r := allocFrom bz rest (k + 1)
        (d :: r.1, r.2)

def alloc (m : MemStuff) (bz : Nat) : MemStuff × MemPtr :=
  let r := cfg.allocFrom bz m.data 0
  ({ data := r.1, ranges := m.ranges ++ [⟨r.2, bz⟩] }, r.2)

end MemConfig

namespace MemStuff

def init : MemStuff := { data := [], ranges := [] }

def clear (m : MemStuff) : MemStuff :=
  { data := m.data.map fun d => { d with size := 0 }, ranges := [] }

def load (m : MemStuff) (r : MemRange) : Option Bytes := do
  let d ← m.data[r.ptr.data]?
  Lib.load d.buf r.ptr.offset r.length

def store (m : MemStuff) (p : MemPtr) (bytes : Bytes) : Option MemStuff := do
  let d ← m.data[p.data]?
  let buf ← Lib.store d.buf p.offset bytes
  some { m with data := m.data.set p.data { d with buf := buf } }

end MemStuff

inductive MemCall where
  | alloc (bz : Nat)
  | clear
deriving DecidableEq, Repr

def memStuff (cfg : MemConfig) : Transition MemStuff MemCall where
  init := .init
  step := fun m call =>
    match call with
    | .alloc bz => some (cfg.alloc m bz).1
    | .clear => some m.clear

/-- `2 * bz` does not overflow. -/
def MemConfig.Fits (cfg : MemConfig) : MemCall → Prop
  | .alloc bz => bz * 2 < 2 ^ cfg.bits
  | .clear => True

instance (cfg : MemConfig) (call : MemCall) : Decidable (cfg.Fits call) := by
  cases call <;> unfold MemConfig.Fits <;> infer_instance

section Alloc

variable {cfg : MemConfig} {m m' : MemStuff} {bz k : Nat}

structure MemData.Valid (bits : Nat) (d : MemData) : Prop where
  size_le : d.size ≤ d.bufsize
  length_buf : d.buf.length = d.bufsize
  bufsize_lt : d.bufsize < 2 ^ bits

theorem appendbuf_valid (hfits : bz * 2 < 2 ^ cfg.bits) (k : Nat) :
    (cfg.appendbuf k bz).Valid cfg.bits ∧ (cfg.appendbuf k bz).size + bz ≤
      (cfg.appendbuf k bz).bufsize := by
  have hSZ : sizeWord cfg.bits cfg.SZ < 2 ^ cfg.bits := Nat.mod_lt _ (Nat.two_pow_pos _)
  refine ⟨⟨Nat.zero_le _, ?_, ?_⟩, ?_⟩
  · rw [MemConfig.appendbuf, List.length_map, List.length_range]
  · dsimp only [MemConfig.appendbuf]
    rw [sizeWord_eq hfits]
    split <;> omega
  · dsimp only [MemConfig.appendbuf]
    rw [sizeWord_eq hfits]
    split <;> omega

theorem use_eq {d : MemData} (hd : d.Valid cfg.bits) (hroom : d.size + bz ≤ d.bufsize) :
    cfg.use d bz = { d with size := d.size + bz } ∧
      sizeSub cfg.bits (cfg.use d bz).size bz = d.size := by
  have hlt := hd.bufsize_lt
  have huse : cfg.use d bz = { d with size := d.size + bz } := by
    rw [MemConfig.use, sizeWord_eq (by omega)]
  refine ⟨huse, ?_⟩
  rw [huse, sizeSub_eq (Nat.le_add_left ..) (by omega), Nat.add_sub_cancel]

/-- One `data`, old or new, had the room and has been used further. -/
structure MemAllocated (cfg : MemConfig) (bz k : Nat) (l l' : List MemData) (p : MemPtr)
    (before after : List MemData) (d : MemData) : Prop where
  result : l' = before ++ { d with size := d.size + bz } :: after
  ptr : p = ⟨k + before.length, d.size⟩
  valid : d.Valid cfg.bits
  room : d.size + bz ≤ d.bufsize
  source : l = before ++ d :: after ∨ l = before ∧ after = [] ∧ d.size = 0

theorem allocFrom_eq (hfits : bz * 2 < 2 ^ cfg.bits) {l : List MemData}
    (hl : ∀ d ∈ l, d.Valid cfg.bits) (k : Nat) : ∃ before after d,
      MemAllocated cfg bz k l (cfg.allocFrom bz l k).1 (cfg.allocFrom bz l k).2 before after d := by
  induction l generalizing k with
  | nil =>
      obtain ⟨hvalid, hroom⟩ := appendbuf_valid hfits k
      obtain ⟨huse, hptr⟩ := use_eq hvalid hroom
      refine ⟨[], [], cfg.appendbuf k bz, ?_, ?_, hvalid, hroom, .inr ⟨rfl, rfl, rfl⟩⟩
      · rw [MemConfig.allocFrom, huse]
        rfl
      · rw [MemConfig.allocFrom, hptr]
        rfl
  | cons d rest ih =>
      rw [List.forall_mem_cons] at hl
      obtain ⟨hvalid, hrest⟩ := hl
      have hsize := hvalid.size_le
      rw [MemConfig.allocFrom, sizeSub_eq hsize hvalid.bufsize_lt]
      split
      · have hroom : d.size + bz ≤ d.bufsize := by omega
        obtain ⟨huse, hptr⟩ := use_eq hvalid hroom
        refine ⟨[], rest, d, ?_, ?_, hvalid, hroom, .inl rfl⟩
        · rw [← huse]
          rfl
        · rw [← hptr]
          rfl
      · obtain ⟨before, after, d', h⟩ := ih hrest (k + 1)
        refine ⟨d :: before, after, d', ?_, ?_, h.valid, h.room, ?_⟩
        · rw [List.cons_append, ← h.result]
        · rw [h.ptr, List.length_cons]
          congr 1
          omega
        · rcases h.source with hsource | ⟨hsource, hafter, hzero⟩
          · exact .inl (congrArg (d :: ·) hsource)
          · exact .inr ⟨congrArg (d :: ·) hsource, hafter, hzero⟩

end Alloc

namespace MemStuff

variable {cfg : MemConfig} {m m' : MemStuff} {bz : Nat}

/-- Every `data` is in order, and what has been handed out of it lies in the part in use, no two
ranges in the same bytes. -/
structure Valid (cfg : MemConfig) (m : MemStuff) : Prop where
  data : ∀ d ∈ m.data, d.Valid cfg.bits
  inside : ∀ r ∈ m.ranges, ∃ d, m.data[r.ptr.data]? = some d ∧ r.ptr.offset + r.length ≤ d.size
  apart : m.ranges.Pairwise MemRange.Apart

theorem valid_init : init.Valid cfg :=
  ⟨List.forall_mem_nil _, List.forall_mem_nil _, .nil⟩

theorem valid_clear (h : m.Valid cfg) : m.clear.Valid cfg := by
  refine ⟨?_, List.forall_mem_nil _, .nil⟩
  intro d hd
  obtain ⟨d', hd', rfl⟩ := List.mem_map.mp hd
  exact ⟨Nat.zero_le _, (h.data d' hd').length_buf, (h.data d' hd').bufsize_lt⟩

theorem data_allocated {l l' before after : List MemData} {p : MemPtr} {d : MemData}
    (h : MemAllocated cfg bz 0 l l' p before after d) {i : Nat} {old : MemData}
    (hold : l[i]? = some old) : ∃ new, l'[i]? = some new ∧ new.buf = old.buf ∧
      old.size ≤ new.size ∧ (i = p.data → p.offset = old.size) := by
  have hi : i < before.length ∨ l = before ++ d :: after := by
    rcases h.source with hsource | ⟨hsource, -, -⟩
    · exact .inr hsource
    · rw [← hsource]
      exact .inl (List.getElem?_eq_some_iff.mp hold).1
  rw [h.result, h.ptr, Nat.zero_add]
  dsimp only
  rcases Nat.lt_trichotomy i before.length with hlt | heq | hgt
  · have hbefore : before[i]? = some old := by
      rcases h.source with hsource | ⟨hsource, -, -⟩
      · rwa [hsource, List.getElem?_append_left hlt] at hold
      · rwa [hsource] at hold
    refine ⟨old, ?_, rfl, le_rfl, fun heq => absurd heq (by omega)⟩
    rw [List.getElem?_append_left hlt, hbefore]
  · rcases hi with hi | hi
    · omega
    · rw [hi, heq, List.getElem?_append_right le_rfl, Nat.sub_self] at hold
      cases hold
      refine ⟨{ d with size := d.size + bz }, ?_, rfl, Nat.le_add_right .., fun _ => rfl⟩
      rw [heq, List.getElem?_append_right le_rfl, Nat.sub_self]
      rfl
  · rcases hi with hi | hi
    · omega
    · obtain ⟨j, rfl⟩ : ∃ j, i = before.length + (j + 1) := ⟨i - before.length - 1, by omega⟩
      rw [hi, List.getElem?_append_right (by omega), Nat.add_sub_cancel_left,
        List.getElem?_cons_succ] at hold
      refine ⟨old, ?_, rfl, le_rfl, fun heq => absurd heq (by omega)⟩
      rw [List.getElem?_append_right (by omega), Nat.add_sub_cancel_left,
        List.getElem?_cons_succ, hold]

theorem valid_alloc (h : m.Valid cfg) (hfits : bz * 2 < 2 ^ cfg.bits) :
    (cfg.alloc m bz).1.Valid cfg := by
  obtain ⟨before, after, d, hd⟩ := allocFrom_eq hfits h.data 0
  refine ⟨?_, ?_, ?_⟩
  · intro d' hd'
    have hmem : d' ∈ before ++ { d with size := d.size + bz } :: after := by
      rw [← hd.result]
      exact hd'
    have hold : d' ∈ before ∨ d' ∈ after → d' ∈ m.data := by
      rcases hd.source with hsource | ⟨hsource, hafter, -⟩
      · rw [hsource, List.mem_append, List.mem_cons]
        exact fun h => h.imp_right .inr
      · rw [hsource, hafter]
        exact fun h => h.resolve_right List.not_mem_nil
    rcases List.mem_append.mp hmem with hmem | hmem
    · exact h.data d' (hold (.inl hmem))
    · rcases List.mem_cons.mp hmem with rfl | hmem
      · exact ⟨hd.room, hd.valid.length_buf, hd.valid.bufsize_lt⟩
      · exact h.data d' (hold (.inr hmem))
  · intro r hr
    rcases List.mem_append.mp hr with hr | hr
    · obtain ⟨old, hold, hle⟩ := h.inside r hr
      obtain ⟨new, hnew, -, hsize, -⟩ := data_allocated hd hold
      exact ⟨new, hnew, hle.trans hsize⟩
    · rw [List.mem_singleton.mp hr]
      refine ⟨{ d with size := d.size + bz }, ?_, ?_⟩
      · dsimp only
        rw [hd.ptr, MemConfig.alloc, hd.result, Nat.zero_add,
          List.getElem?_append_right le_rfl, Nat.sub_self]
        rfl
      · dsimp only
        rw [hd.ptr]
  · refine List.pairwise_append.mpr ⟨h.apart, List.pairwise_singleton .., ?_⟩
    intro r hr r' hr'
    rw [List.mem_singleton.mp hr']
    obtain ⟨old, hold, hle⟩ := h.inside r hr
    obtain ⟨new, hnew, -, -, hptr⟩ := data_allocated hd hold
    by_cases heq : r.ptr.data = (cfg.allocFrom bz m.data 0).2.data
    · exact .inr (.inl (by rw [hptr heq]; exact hle))
    · exact .inl heq

theorem Valid.alloc_inside (h : m.Valid cfg) (hfits : bz * 2 < 2 ^ cfg.bits) :
    ∃ d, (cfg.alloc m bz).1.data[(cfg.alloc m bz).2.data]? = some d ∧
      (cfg.alloc m bz).2.offset + bz ≤ d.size ∧ d.size ≤ d.bufsize ∧
      d.buf.length = d.bufsize := by
  have hvalid := valid_alloc h hfits
  obtain ⟨d, hd, hle⟩ := hvalid.inside ⟨(cfg.alloc m bz).2, bz⟩
    (List.mem_append_right _ List.mem_cons_self)
  have hdata := hvalid.data d (List.mem_of_getElem? hd)
  exact ⟨d, hd, hle, hdata.size_le, hdata.length_buf⟩

theorem Valid.alloc_apart (h : m.Valid cfg) (hfits : bz * 2 < 2 ^ cfg.bits) :
    ∀ r ∈ m.ranges, r.Apart ⟨(cfg.alloc m bz).2, bz⟩ := by
  intro r hr
  exact (List.pairwise_append.mp (valid_alloc h hfits).apart).2.2 r hr _ List.mem_cons_self

theorem reachable_valid (h : (memStuff cfg).Reachable (fun _ call => cfg.Fits call) m) :
    m.Valid cfg := by
  refine h.invariant (Valid cfg) valid_init ?_
  intro m call m' hm hfits hstep
  cases call with
  | alloc bz =>
      cases hstep
      exact valid_alloc hm hfits
  | clear =>
      cases hstep
      exact valid_clear hm

variable {p : MemPtr} {r : MemRange} {bytes : Bytes}

theorem load_alloc (h : m.Valid cfg) (hfits : bz * 2 < 2 ^ cfg.bits)
    (hload : m.load r = some bytes) : (cfg.alloc m bz).1.load r = some bytes := by
  obtain ⟨before, after, d, hd⟩ := allocFrom_eq hfits h.data 0
  rw [load, Option.bind_eq_bind, Option.bind_eq_some_iff] at hload ⊢
  obtain ⟨old, hold, hbytes⟩ := hload
  obtain ⟨new, hnew, hbuf, -⟩ := data_allocated hd hold
  exact ⟨new, hnew, by rw [hbuf]; exact hbytes⟩

theorem store_eq_some_iff : m.store p bytes = some m' ↔
    ∃ d buf, m.data[p.data]? = some d ∧ Lib.store d.buf p.offset bytes = some buf ∧
      { m with data := m.data.set p.data { d with buf := buf } } = m' := by
  simp only [store, Option.bind_eq_bind, Option.bind_eq_some_iff, Option.some.injEq]
  constructor
  · rintro ⟨d, hd, buf, hbuf, hm'⟩
    exact ⟨d, buf, hd, hbuf, hm'⟩
  · rintro ⟨d, buf, hd, hbuf, hm'⟩
    exact ⟨d, hd, buf, hbuf, hm'⟩

theorem exists_store (h : m.Valid cfg) (hr : r ∈ m.ranges) (hlen : bytes.length = r.length) :
    ∃ m', m.store r.ptr bytes = some m' := by
  obtain ⟨d, hd, hle⟩ := h.inside r hr
  have hvalid := h.data d (List.mem_of_getElem? hd)
  have hsize := hvalid.size_le
  have hbuf := hvalid.length_buf
  exact ⟨_, store_eq_some_iff.mpr ⟨d, _, hd, Lib.store_eq (by omega), rfl⟩⟩

theorem valid_store (h : m.Valid cfg) (hstore : m.store p bytes = some m') : m'.Valid cfg := by
  obtain ⟨d, buf, hd, hbuf, rfl⟩ := store_eq_some_iff.mp hstore
  have hvalid := h.data d (List.mem_of_getElem? hd)
  refine ⟨?_, ?_, h.apart⟩
  · intro d' hd'
    rcases List.mem_or_eq_of_mem_set hd' with hd' | rfl
    · exact h.data d' hd'
    · exact ⟨hvalid.size_le, (length_store hbuf).trans hvalid.length_buf, hvalid.bufsize_lt⟩
  · intro r hr
    obtain ⟨old, hold, hle⟩ := h.inside r hr
    dsimp only
    rw [List.getElem?_set]
    split
    · rename_i heq
      rw [heq, hold] at hd
      cases hd
      have hlt := (List.getElem?_eq_some_iff.mp hold).1
      exact ⟨{ d with buf := buf }, by rw [heq, if_pos hlt], hle⟩
    · exact ⟨old, hold, hle⟩

theorem ranges_store (hstore : m.store p bytes = some m') : m'.ranges = m.ranges := by
  obtain ⟨d, buf, -, -, rfl⟩ := store_eq_some_iff.mp hstore
  rfl

theorem load_store (hstore : m.store p bytes = some m') :
    m'.load ⟨p, bytes.length⟩ = some bytes := by
  obtain ⟨d, buf, hd, hbuf, rfl⟩ := store_eq_some_iff.mp hstore
  have hlt := (List.getElem?_eq_some_iff.mp hd).1
  rw [load, List.getElem?_set_self hlt]
  exact Lib.load_store hbuf

theorem load_store_of_apart (hstore : m.store p bytes = some m')
    (hapart : r.Apart ⟨p, bytes.length⟩) : m'.load r = m.load r := by
  obtain ⟨d, buf, hd, hbuf, rfl⟩ := store_eq_some_iff.mp hstore
  rw [load, load]
  by_cases heq : p.data = r.ptr.data
  · have hlt := (List.getElem?_eq_some_iff.mp hd).1
    rw [← heq, List.getElem?_set_self hlt, hd]
    exact Lib.load_store_of_apart hbuf (hapart.resolve_left fun hne => hne heq.symm)
  · rw [List.getElem?_set_ne heq]

theorem load_take {n k : Nat} (h : m.load ⟨p, n⟩ = some bytes) (hk : k ≤ n) :
    m.load ⟨p, k⟩ = some (bytes.take k) := by
  rw [load, Option.bind_eq_bind, Option.bind_eq_some_iff] at h ⊢
  obtain ⟨d, hd, hbytes⟩ := h
  exact ⟨d, hd, Lib.load_take hbytes hk⟩

end MemStuff

end MmsSvr
