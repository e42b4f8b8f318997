import Mathlib.Logic.Function.Basic
import MmsSvr.Bytes
import MmsSvr.Lib.Memory
import MmsSvr.Lib.Transition

/-!
`fastbuffer`: a growing buffer, as the list of bytes that it stands for, and what is left of
it when there is no memory.
-/

namespace MmsSvr

open Lib

structure FastBuffer where
  fd : Int
  size : Nat
  bufsize : Nat
  /-- The memory that `_buf` points to, or NULL. -/
  buf : Option Bytes
deriving DecidableEq, Repr

/-- What `realloc` finds in new memory; `none` if it returns NULL. -/
abbrev Realloc := Option (Nat → UInt8)

structure Answer where
  count : Nat
  bytes : Bytes
deriving DecidableEq, Repr

namespace FastBuffer

variable (bits : Nat) (b : FastBuffer)

def new : FastBuffer := { fd := 0, size := 0, bufsize := 0, buf := none }

/-- Nothing can be accessed behind NULL. -/
def block : Bytes := b.buf.getD []

def contents : Bytes := b.block.take b.size

/-- The test of `append`. -/
def Grows (bz : Nat) : Prop := sizeSub bits b.bufsize b.size < bz

instance (bz : Nat) : Decidable (b.Grows bits bz) := inferInstanceAs (Decidable (_ < _))

def written (block : Bytes) (size : Nat) : FastBuffer :=
  { b with buf := b.buf.map fun _ => block, size := size }

def copyIn (data : Bytes) : Option (FastBuffer × Answer) := do
  let block ← store b.block b.size data
  some (b.written block (sizeWord bits (b.size + data.length)), ⟨data.length, []⟩)

def append (data : Bytes) (memory : Realloc) : Option (FastBuffer × Answer) :=
  if b.Grows bits data.length then
    let sz := sizeWord bits ((b.bufsize + data.length) * 2)
    match memory with
    | none => some ({ b with buf := none }, ⟨0, []⟩)
    | some fill => copyIn bits { b with buf := some (realloc fill b.block sz), bufsize := sz } data
  else b.copyIn bits data

def pushBack (s : UInt8) (memory : Realloc) : Option (FastBuffer × Answer) :=
  b.append bits [s] memory

/-- `read`, with a buffer of the caller's if `wanted`. -/
def read (wanted : Bool) (bz : Nat) : Option (FastBuffer × Answer) := do
  let dz := if bz > b.size then b.size else bz
  let out ← (if wanted then load b.block 0 dz else some [])
  let rest ← load b.block dz (sizeSub bits b.size dz)
  let block ← store b.block 0 rest
  some (b.written block (sizeSub bits b.size dz), ⟨dz, out⟩)

def clear : FastBuffer := { b with size := 0 }

/-- `fastbuffer(fastbuffer * ot)`. -/
def copy (memory : Realloc) : Option FastBuffer := do
  let data ← load b.block 0 b.size
  let (copied, _) ← new.append bits data memory
  some { copied with fd := b.fd }

end FastBuffer

/-- The buffers of a program, and what the calls have returned. -/
structure Buffers where
  objects : Nat → FastBuffer
  answers : List Answer

inductive BufferCall where
  | append (i : Nat) (data : Bytes) (memory : Realloc)
  | pushBack (i : Nat) (s : UInt8) (memory : Realloc)
  | read (i : Nat) (wanted : Bool) (bz : Nat)
  | clear (i : Nat)
  /-- A new buffer takes the name `i`. -/
  | create (i : Nat)
  /-- A copy of the buffer `j` does. -/
  | copy (i j : Nat) (memory : Realloc)

namespace Buffers

variable (bits : Nat) (s : Buffers)

def set (i : Nat) (b : FastBuffer) : Buffers :=
  { s with objects := Function.update s.objects i b }

def answered (i : Nat) (r : FastBuffer × Answer) : Buffers :=
  { objects := Function.update s.objects i r.1, answers := s.answers ++ [r.2] }

def step : BufferCall → Option Buffers
  | .append i data memory => ((s.objects i).append bits data memory).map (s.answered i)
  | .pushBack i c memory => ((s.objects i).pushBack bits c memory).map (s.answered i)
  | .read i wanted bz => ((s.objects i).read bits wanted bz).map (s.answered i)
  | .clear i => some (s.set i (s.objects i).clear)
  | .create i => some (s.set i FastBuffer.new)
  | .copy i j memory => ((s.objects j).copy bits memory).map (s.set i)

end Buffers

def buffers (bits : Nat) : Transition Buffers BufferCall where
  init := { objects := fun _ => FastBuffer.new, answers := [] }
  step := Buffers.step bits

section Abstract

structure ByteLists where
  objects : Nat → Bytes
  answers : List Answer

namespace ByteLists

def init : ByteLists := { objects := fun _ => [], answers := [] }

variable (t : ByteLists)

def set (i : Nat) (bytes : Bytes) : ByteLists :=
  { t with objects := Function.update t.objects i bytes }

def answered (i : Nat) (bytes : Bytes) (answer : Answer) : ByteLists :=
  { objects := Function.update t.objects i bytes, answers := t.answers ++ [answer] }

def next : BufferCall → ByteLists
  | .append i data _ => t.answered i (t.objects i ++ data) ⟨data.length, []⟩
  | .pushBack i c _ => t.answered i (t.objects i ++ [c]) ⟨1, []⟩
  | .read i wanted bz =>
      t.answered i ((t.objects i).drop bz)
        ⟨min bz (t.objects i).length, if wanted then (t.objects i).take bz else []⟩
  | .clear i => t.set i []
  | .create i => t.set i []
  | .copy i j _ => t.set i (t.objects j)

theorem set_objects (i : Nat) (bytes : Bytes) (k : Nat) :
    (t.set i bytes).objects k = if k = i then bytes else t.objects k := Function.update_apply ..

end ByteLists

end Abstract

namespace FastBuffer

variable {bits : Nat} {b : FastBuffer}

/-- `_buf` points to `_bufsize` bytes, of which `_size` are used. -/
structure Valid (bits : Nat) (b : FastBuffer) : Prop where
  size_le : b.size ≤ b.bufsize
  length_block : b.block.length = b.bufsize
  bufsize_lt : b.bufsize < 2 ^ bits

theorem valid_new : new.Valid bits := ⟨le_rfl, rfl, Nat.two_pow_pos bits⟩

theorem Valid.length_contents (h : b.Valid bits) : b.contents.length = b.size := by
  have hsize := h.size_le
  have hblock := h.length_block
  rw [contents, List.length_take]
  omega

theorem Valid.grows_iff (h : b.Valid bits) (bz : Nat) :
    b.Grows bits bz ↔ b.bufsize < b.size + bz := by
  have hsize := h.size_le
  rw [Grows, sizeSub_eq hsize h.bufsize_lt]
  omega

/-- `realloc` gives the memory that `append` asks for, and its size is no more than a `size_t`
can hold. -/
def Room (bits : Nat) (b : FastBuffer) (bz : Nat) (memory : Realloc) : Prop :=
  b.Grows bits bz → memory.isSome ∧ (b.bufsize + bz) * 2 < 2 ^ bits

instance (bz : Nat) (memory : Realloc) : Decidable (b.Room bits bz memory) :=
  inferInstanceAs (Decidable (_ → _))

theorem block_written {data block : Bytes} {i : Nat} (h : store b.block i data = some block)
    (size : Nat) : (b.written block size).block = block := by
  rw [FastBuffer.block, written]
  rw [FastBuffer.block] at h
  cases hbuf : b.buf with
  | none =>
      have hlen := length_store h
      rw [hbuf, Option.getD_none, List.length_nil, List.length_eq_zero_iff] at hlen
      rw [hlen]
      rfl
  | some old => rfl

theorem Valid.written {data block : Bytes} {i size : Nat} (h : b.Valid bits)
    (hstore : store b.block i data = some block) (hsize : size ≤ b.bufsize) :
    (b.written block size).Valid bits :=
  ⟨hsize, by rw [block_written hstore, length_store hstore]; exact h.length_block, h.bufsize_lt⟩

theorem contents_written {data block : Bytes} {i : Nat} (h : store b.block i data = some block) :
    (b.written block (i + data.length)).contents = b.block.take i ++ data := by
  rw [contents, block_written h]
  exact take_store h

theorem copyIn_eq {data : Bytes} (h : b.Valid bits) (hroom : b.size + data.length ≤ b.bufsize) :
    ∃ b', b.copyIn bits data = some (b', ⟨data.length, []⟩) ∧ b'.Valid bits ∧
      b'.contents = b.contents ++ data ∧ b'.fd = b.fd := by
  have hblock := h.length_block
  have hlt := h.bufsize_lt
  have hstore := store_eq (show b.size + data.length ≤ b.block.length by omega)
  refine ⟨_, ?_, h.written hstore hroom, contents_written hstore, rfl⟩
  rw [copyIn, hstore, sizeWord_eq (by omega)]
  rfl

theorem append_eq {data : Bytes} {memory : Realloc} (h : b.Valid bits)
    (hroom : b.Room bits data.length memory) :
    ∃ b', b.append bits data memory = some (b', ⟨data.length, []⟩) ∧ b'.Valid bits ∧
      b'.contents = b.contents ++ data ∧ b'.fd = b.fd := by
  have hsize := h.size_le
  have hblock := h.length_block
  rw [append]
  split
  · rename_i hgrows
    obtain ⟨hmemory, hfits⟩ := hroom hgrows
    obtain ⟨fill, rfl⟩ := Option.isSome_iff_exists.mp hmemory
    dsimp only
    rw [sizeWord_eq hfits]
    have hgrown : Valid bits { b with
        buf := some (realloc fill b.block ((b.bufsize + data.length) * 2))
        bufsize := (b.bufsize + data.length) * 2 } := by
      refine ⟨?_, length_realloc .., hfits⟩
      dsimp only
      omega
    have hroom : b.size + data.length ≤ (b.bufsize + data.length) * 2 := by omega
    obtain ⟨b', hb', hvalid, hcontents, hfd⟩ := copyIn_eq hgrown hroom
    refine ⟨b', hb', hvalid, ?_, hfd⟩
    rw [hcontents]
    have hkept : (realloc fill b.block ((b.bufsize + data.length) * 2)).take b.size =
        b.block.take b.size := take_realloc fill (by omega) (by omega)
    rw [contents, contents, ← hkept]
    rfl
  · rename_i hgrows
    rw [h.grows_iff] at hgrows
    exact copyIn_eq h (by omega)

theorem read_eq (h : b.Valid bits) (wanted : Bool) (bz : Nat) :
    ∃ b', b.read bits wanted bz = some (b', ⟨min bz b.contents.length,
        if wanted then b.contents.take bz else []⟩) ∧
      b'.Valid bits ∧ b'.contents = b.contents.drop bz := by
  have hsize := h.size_le
  have hblock := h.length_block
  have hlt := h.bufsize_lt
  obtain ⟨dz, hdz⟩ : ∃ dz, dz = min bz b.size := ⟨_, rfl⟩
  have hbranch : (if bz > b.size then b.size else bz) = dz := by
    rw [hdz]
    split <;> omega
  have hout : (if wanted then load b.block 0 dz else some []) =
      some (if wanted then b.contents.take bz else []) := by
    cases wanted with
    | false => rfl
    | true =>
        rw [if_pos rfl, if_pos rfl, load_eq (by omega), List.drop_zero, contents, List.take_take,
          hdz]
  obtain ⟨rest, hrest⟩ : ∃ rest, rest = (b.block.drop dz).take (b.size - dz) := ⟨_, rfl⟩
  have hload : load b.block dz (b.size - dz) = some rest := by
    rw [load_eq (by omega), hrest]
  have hlen : rest.length = b.size - dz := by
    rw [hrest, List.length_take, List.length_drop]
    omega
  obtain ⟨block, hstore⟩ : ∃ block, store b.block 0 rest = some block :=
    ⟨_, store_eq (by omega)⟩
  have hcontents : (b.written block rest.length).contents = rest := by
    have hcontents := contents_written hstore
    rwa [Nat.zero_add, List.take_zero, List.nil_append] at hcontents
  have hvalid : (b.written block rest.length).Valid bits := h.written hstore (by omega)
  refine ⟨_, ?_, hvalid, ?_⟩
  · rw [read, hbranch, hout, sizeSub_eq (by omega) (by omega), Option.bind_eq_bind,
      Option.bind_some, hload, Option.bind_some, hstore, Option.bind_some,
      hlen, h.length_contents, ← hdz]
  · rw [hcontents, hrest, ← List.drop_take, ← contents]
    rcases Nat.le_total bz b.size with hle | hle
    · rw [hdz, Nat.min_eq_left hle]
    · have hcontents := h.length_contents
      rw [List.drop_eq_nil_of_le (by omega), List.drop_eq_nil_of_le (by omega)]

theorem valid_clear (h : b.Valid bits) : b.clear.Valid bits :=
  ⟨Nat.zero_le _, h.length_block, h.bufsize_lt⟩

theorem copy_eq {memory : Realloc} (h : b.Valid bits) (hroom : new.Room bits b.size memory) :
    ∃ b', b.copy bits memory = some b' ∧ b'.Valid bits ∧ b'.contents = b.contents := by
  have hsize := h.size_le
  have hblock := h.length_block
  have hload : load b.block 0 b.size = some b.contents := by
    rw [load_eq (by omega), List.drop_zero, contents]
  rw [← h.length_contents] at hroom
  obtain ⟨b', hb', hvalid, hcontents, -⟩ := append_eq valid_new hroom
  refine ⟨{ b' with fd := b.fd }, ?_, ⟨hvalid.size_le, hvalid.length_block, hvalid.bufsize_lt⟩,
    hcontents⟩
  rw [copy, hload, Option.bind_eq_bind, Option.bind_some, hb']
  rfl

end FastBuffer

namespace Buffers

variable {bits : Nat} {s : Buffers}

/-- What the buffers hold, and what the calls have returned, is that of the lists. -/
structure Represents (bits : Nat) (s : Buffers) (t : ByteLists) : Prop where
  valid : ∀ i, (s.objects i).Valid bits
  contents : ∀ i, (s.objects i).contents = t.objects i
  answers : s.answers = t.answers

/-- `realloc` succeeds, and the sizes do not overflow. -/
def Roomy (bits : Nat) (s : Buffers) : BufferCall → Prop
  | .append i data memory => (s.objects i).Room bits data.length memory
  | .pushBack i _ memory => (s.objects i).Room bits 1 memory
  | .copy _ j memory => FastBuffer.new.Room bits (s.objects j).size memory
  | _ => True

instance (s : Buffers) (call : BufferCall) : Decidable (s.Roomy bits call) := by
  cases call <;> unfold Roomy <;> infer_instance

theorem set_objects (s : Buffers) (i : Nat) (b : FastBuffer) (k : Nat) :
    (s.set i b).objects k = if k = i then b else s.objects k := Function.update_apply ..

variable {t : ByteLists}

theorem Represents.set (h : s.Represents bits t) {b : FastBuffer} {bytes : Bytes} (i : Nat)
    (hvalid : b.Valid bits) (hcontents : b.contents = bytes) :
    (s.set i b).Represents bits (t.set i bytes) := by
  refine ⟨?_, ?_, h.answers⟩
  · intro k
    rw [set_objects]
    split
    · exact hvalid
    · exact h.valid k
  · intro k
    rw [set_objects, ByteLists.set_objects]
    split
    · exact hcontents
    · exact h.contents k

theorem Represents.answered (h : s.Represents bits t) {b : FastBuffer} {bytes : Bytes}
    {answer : Answer} (i : Nat) (hvalid : b.Valid bits) (hcontents : b.contents = bytes) :
    (s.answered i (b, answer)).Represents bits (t.answered i bytes answer) :=
  ⟨(h.set i hvalid hcontents).valid, (h.set i hvalid hcontents).contents, by
    rw [Buffers.answered, ByteLists.answered, h.answers]⟩

theorem step_represents (h : s.Represents bits t) {call : BufferCall} (hroom : s.Roomy bits call) :
    ∃ s', s.step bits call = some s' ∧ s'.Represents bits (t.next call) := by
  cases call with
  | append i data memory =>
      obtain ⟨b, hb, hvalid, hcontents, -⟩ := FastBuffer.append_eq (h.valid i) hroom
      refine ⟨_, by rw [step, hb]; rfl, h.answered i hvalid ?_⟩
      rw [hcontents, h.contents]
  | pushBack i c memory =>
      have hroom : (s.objects i).Room bits [c].length memory := hroom
      obtain ⟨b, hb, hvalid, hcontents, -⟩ := FastBuffer.append_eq (h.valid i) hroom
      refine ⟨_, by rw [step, FastBuffer.pushBack, hb]; rfl, h.answered i hvalid ?_⟩
      rw [hcontents, h.contents]
  | read i wanted bz =>
      obtain ⟨b, hb, hvalid, hcontents⟩ := FastBuffer.read_eq (h.valid i) wanted bz
      rw [h.contents] at hb hcontents
      exact ⟨_, by rw [step, hb]; rfl, h.answered i hvalid hcontents⟩
  | clear i => exact ⟨_, rfl, h.set i (FastBuffer.valid_clear (h.valid i)) List.take_zero⟩
  | create i => exact ⟨_, rfl, h.set i FastBuffer.valid_new rfl⟩
  | copy i j memory =>
      obtain ⟨b, hb, hvalid, hcontents⟩ := FastBuffer.copy_eq (h.valid j) hroom
      rw [h.contents] at hcontents
      exact ⟨_, by rw [step, hb]; rfl, h.set i hvalid hcontents⟩

theorem init_represents : (buffers bits).init.Represents bits ByteLists.init :=
  ⟨fun _ => FastBuffer.valid_new, fun _ => rfl, rfl⟩

/-- Calls for which there is memory never leave it, and do to the buffers what they do to the
lists. -/
theorem represents_of_roomy {calls : List BufferCall}
    (h : (buffers bits).Guarded (Roomy bits) calls (buffers bits).init) :
    (buffers bits).Always (fun s => ∀ i, (s.objects i).size ≤ (s.objects i).bufsize) calls
        (buffers bits).init ∧
      ∃ s, (buffers bits).run calls (buffers bits).init = some s ∧
        s.Represents bits (calls.foldl ByteLists.next ByteLists.init) := by
  have hstep : ∀ s a t, s.Represents bits t → s.Roomy bits a →
      ∃ s', (buffers bits).step s a = some s' ∧ s'.Represents bits (t.next a) :=
    fun _ _ _ hs hroom => step_represents hs hroom
  refine ⟨?_, h.followed hstep init_represents⟩
  have hkeep : ∀ s a s', (∃ t, s.Represents bits t) → s.Roomy bits a →
      (buffers bits).step s a = some s' → ∃ t, s'.Represents bits t := by
    rintro s a s' ⟨t, hs⟩ hroom hs'
    obtain ⟨u, hu, hrepresents⟩ := step_represents hs hroom
    have heq : s' = u := Option.some.inj (hs'.symm.trans hu)
    rw [heq]
    exact ⟨_, hrepresents⟩
  exact (h.always hkeep ⟨_, init_represents⟩).imp fun s ⟨_, hs⟩ i => (hs.valid i).size_le

def sampleCalls : List BufferCall :=
  [.append 0 (lit "abc") (some fun _ => 0), .read 0 true 2, .copy 1 0 (some fun _ => 0),
    .pushBack 1 100 none, .clear 0, .read 1 false 5]

theorem represents_sample :
    (buffers 32).Always (fun s => ∀ i, (s.objects i).size ≤ (s.objects i).bufsize) sampleCalls
        (buffers 32).init ∧
      ∃ s, (buffers 32).run sampleCalls (buffers 32).init = some s ∧
        s.Represents 32 (sampleCalls.foldl ByteLists.next ByteLists.init) :=
  represents_of_roomy (by decide)

end Buffers

section NoMemory

namespace FastBuffer

variable {bits : Nat} {b : FastBuffer}

/-- A buffer without memory has never had any. -/
def Unallocated (b : FastBuffer) : Prop := b.bufsize = 0 → b.buf = none ∧ b.size = 0

theorem unallocated_written (h : b.Unallocated) {block : Bytes} {size : Nat}
    (hsize : b.size = 0 → size = 0) : (b.written block size).Unallocated := by
  intro hbufsize
  obtain ⟨hbuf, hzero⟩ := h hbufsize
  refine ⟨?_, hsize hzero⟩
  rw [written, hbuf]
  rfl

theorem copyIn_eq_some {data : Bytes} {r : FastBuffer × Answer}
    (h : b.copyIn bits data = some r) : ∃ block, store b.block b.size data = some block ∧
      r = (b.written block (sizeWord bits (b.size + data.length)), ⟨data.length, []⟩) := by
  rw [copyIn, Option.bind_eq_bind, Option.bind_eq_some_iff] at h
  obtain ⟨block, hstore, hr⟩ := h
  exact ⟨block, hstore, (Option.some.inj hr).symm⟩

theorem append_unallocated (h : b.Unallocated) {data : Bytes} {memory : Realloc}
    {r : FastBuffer × Answer} (hr : b.append bits data memory = some r) : r.1.Unallocated := by
  rw [append] at hr
  split at hr
  · rename_i hgrows
    cases memory with
    | none =>
        cases hr
        exact fun hbufsize => ⟨rfl, (h hbufsize).2⟩
    | some fill =>
        -- a size that has become 0 leaves no room for the data
        obtain ⟨block, hstore, rfl⟩ := copyIn_eq_some hr
        intro hbufsize
        have hzero : sizeWord bits ((b.bufsize + data.length) * 2) = 0 := hbufsize
        have hle : b.size + data.length ≤
            (realloc fill b.block (sizeWord bits ((b.bufsize + data.length) * 2))).length :=
          (store_eq_some_iff.mp hstore).1
        rw [length_realloc, hzero] at hle
        rw [Grows] at hgrows
        omega
  · obtain ⟨block, hstore, rfl⟩ := copyIn_eq_some hr
    intro hbufsize
    have hle := (store_eq_some_iff.mp hstore).1
    obtain ⟨hbuf, hzero⟩ := h hbufsize
    rw [FastBuffer.block, hbuf, Option.getD_none, List.length_nil] at hle
    refine unallocated_written h ?_ hbufsize
    intro _
    rw [show b.size + data.length = 0 by omega]
    exact Nat.zero_mod _

theorem read_unallocated (h : b.Unallocated) {wanted : Bool} {bz : Nat} {r : FastBuffer × Answer}
    (hr : b.read bits wanted bz = some r) : r.1.Unallocated := by
  simp only [read, Option.bind_eq_bind, Option.bind_eq_some_iff] at hr
  obtain ⟨out, -, rest, -, block, -, hr⟩ := hr
  cases hr
  apply unallocated_written h
  intro hsize
  have hdz : (if bz > b.size then b.size else bz) = 0 := by
    rw [hsize]
    split <;> omega
  rw [hdz, hsize, sizeSub_eq le_rfl (Nat.two_pow_pos bits)]

theorem copy_unallocated {memory : Realloc} {b' : FastBuffer} (h : b.copy bits memory = some b') :
    b'.Unallocated := by
  simp only [copy, Option.bind_eq_bind, Option.bind_eq_some_iff] at h
  obtain ⟨data, -, r, hr, hb'⟩ := h
  cases hb'
  exact append_unallocated (b := new) (fun _ => ⟨rfl, rfl⟩) hr

end FastBuffer

namespace Buffers

variable {bits : Nat} {s t : Buffers}

theorem step_unallocated (h : ∀ i, (s.objects i).Unallocated) {call : BufferCall}
    (hstep : s.step bits call = some t) (i : Nat) : (t.objects i).Unallocated := by
  have hset : ∀ j b, b.Unallocated → ((s.set j b).objects i).Unallocated := by
    intro j b hb
    rw [set_objects]
    split
    · exact hb
    · exact h i
  cases call with
  | append j data memory =>
      obtain ⟨r, hr, rfl⟩ := Option.map_eq_some_iff.mp hstep
      exact hset j _ (FastBuffer.append_unallocated (h j) hr)
  | pushBack j c memory =>
      obtain ⟨r, hr, rfl⟩ := Option.map_eq_some_iff.mp hstep
      exact hset j _ (FastBuffer.append_unallocated (h j) hr)
  | read j wanted bz =>
      obtain ⟨r, hr, rfl⟩ := Option.map_eq_some_iff.mp hstep
      exact hset j _ (FastBuffer.read_unallocated (h j) hr)
  | clear j =>
      cases hstep
      exact hset j _ fun hbufsize => ⟨(h j hbufsize).1, rfl⟩
  | create j =>
      cases hstep
      exact hset j _ fun _ => ⟨rfl, rfl⟩
  | copy j k memory =>
      obtain ⟨b, hb, rfl⟩ := Option.map_eq_some_iff.mp hstep
      exact hset j _ (FastBuffer.copy_unallocated hb)

theorem reachable_unallocated (h : (buffers bits).Reachable (fun _ _ => True) s) (i : Nat) :
    (s.objects i).Unallocated := by
  refine h.invariant (fun s => ∀ i, (s.objects i).Unallocated) ?_ ?_ i
  · exact fun _ _ => ⟨rfl, rfl⟩
  · exact fun _ _ _ hs _ hstep => step_unallocated hs hstep

def forget (s : Buffers) : Buffers := { s with answers := [] }

/-- An `append` for which there is no memory returns 0 and leaves a buffer, with the memory that
it says it has, that holds what it held; and no later call shows it. -/
def CleanFailure (bits : Nat) (s : Buffers) (i : Nat) (data : Bytes) : Prop :=
  ∃ t, s.step bits (.append i data none) = some t ∧ t.answers = s.answers ++ [⟨0, []⟩] ∧
    (t.objects i).contents = (s.objects i).contents ∧ (t.objects i).size = (s.objects i).size ∧
    (t.objects i).size ≤ (t.objects i).bufsize ∧
    (t.objects i).block.length = (t.objects i).bufsize ∧
    ∀ calls, (buffers bits).run calls t.forget = (buffers bits).run calls s.forget

theorem append_none {i : Nat} {data : Bytes} (h : (s.objects i).Grows bits data.length) :
    s.step bits (.append i data none) =
      some (s.answered i ({ s.objects i with buf := none }, ⟨0, []⟩)) := by
  rw [step, FastBuffer.append, if_pos h]
  rfl

/-- The only buffer that this does not harm has never had memory. -/
theorem cleanFailure_iff (hs : (buffers bits).Reachable (fun _ _ => True) s) {i : Nat}
    {data : Bytes} (hgrows : (s.objects i).Grows bits data.length) :
    s.CleanFailure bits i data ↔ (s.objects i).bufsize = 0 := by
  rw [CleanFailure, append_none hgrows]
  have hobject : (s.answered i ({ s.objects i with buf := none }, ⟨0, []⟩)).objects i =
      { s.objects i with buf := none } := Function.update_self ..
  constructor
  · rintro ⟨t, ht, -, -, -, -, hblock, -⟩
    cases ht
    rw [hobject] at hblock
    exact hblock.symm
  · intro hbufsize
    obtain ⟨hbuf, hsize⟩ := reachable_unallocated hs i hbufsize
    have hsame : { s.objects i with buf := none } = s.objects i := by
      rw [← hbuf]
    refine ⟨_, rfl, rfl, ?_, ?_, ?_, ?_, ?_⟩
    · rw [hobject, hsame]
    · rw [hobject]
    · rw [hobject, hsize]
      exact Nat.zero_le _
    · rw [hobject, hbufsize]
      rfl
    · intro calls
      congr 1
      rw [answered, hsame, Function.update_eq_self]
      rfl

/-- A buffer that has memory, and one that has not had any. -/
theorem cleanFailure_sample : ∃ s,
    (buffers 64).run [.append 0 [1] (some fun _ => 0)] (buffers 64).init = some s ∧
      ¬ s.CleanFailure 64 0 [2, 3] ∧ s.CleanFailure 64 1 [2, 3] := by
  obtain ⟨s, hs⟩ : ∃ s, (buffers 64).run [.append 0 [1] (some fun _ => 0)] (buffers 64).init =
      some s := ⟨_, rfl⟩
  have hreach : (buffers 64).Reachable (fun _ _ => True) s := .of_run .init hs
  have hview : ((buffers 64).run [.append 0 [1] (some fun _ => 0)] (buffers 64).init).map
      (fun s => ((s.objects 0).bufsize, (s.objects 1).bufsize,
        decide ((s.objects 0).Grows 64 2), decide ((s.objects 1).Grows 64 2))) =
      some (2, 0, true, true) := by decide
  rw [hs] at hview
  simp only [Option.map_some, Option.some.injEq, Prod.mk.injEq, decide_eq_true_eq] at hview
  obtain ⟨hzero, hone, hgrows, hgrows'⟩ := hview
  refine ⟨s, hs, ?_, ?_⟩
  · rw [cleanFailure_iff hreach hgrows, hzero]
    decide
  · exact (cleanFailure_iff hreach hgrows').mpr hone

/-- After one byte there is no memory for two more; the next `read` copies from NULL. -/
theorem not_cleanFailure : ∃ s t,
    (buffers 64).run [.append 0 [1] (some fun _ => 0)] (buffers 64).init = some s ∧
      (s.objects 0).Grows 64 2 ∧ s.step 64 (.append 0 [2, 3] none) = some t ∧
      (buffers 64).run [.read 0 true 1] t.forget = none ∧
      ((buffers 64).run [.read 0 true 1] s.forget).isSome ∧ ¬ s.CleanFailure 64 0 [2, 3] := by
  refine ⟨_, _, rfl, by decide, append_none (by decide), rfl, rfl, ?_⟩
  rintro ⟨t, ht, -, -, -, -, -, hcalls⟩
  rw [append_none (by decide)] at ht
  cases ht
  cases hcalls [.read 0 true 1]

end Buffers

end NoMemory

end MmsSvr
