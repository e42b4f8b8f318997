import Mathlib.Data.List.Forall2
import MmsSvr.MemStuff

/-!
`YYLibMysql::StmtItem`: the values that are streamed into a prepared statement, the buffers
that they are bound to, and the rows that are executed.
-/

namespace MmsSvr

open Lib

/-- The `MYSQL_TYPE_*` that are used; the first is what `memset` leaves. -/
inductive FieldType where
  | decimal
  | tiny
  | short
  | long
  | float
  | double
  | longlong
  | string
deriving DecidableEq, Repr

/-- The size of the C type; a string has a length of its own. -/
def FieldType.size : FieldType → Nat
  | .tiny => 1
  | .short => 2
  | .long => 4
  | .float => 4
  | .double => 8
  | .longlong => 8
  | .decimal => 0
  | .string => 0

/-- The string behind a `const char *`, on a machine with words of `w` bytes. -/
structure CString (w : Nat) where
  bytes : Bytes
  nulFree : 0 ∉ bytes
  fits : (bytes.length + 1) * 2 < 2 ^ (8 * w)
deriving DecidableEq, Repr

/-- The arguments of the overloads of `operator<<`; a `float` or `double` is its bit pattern. -/
inductive StmtValue (w : Nat) where
  | cstr (s : CString w)
  | blob
  | schar (value : Int8)
  | short (value : Int16)
  | int (value : Int32)
  | longlong (value : Int64)
  | float (value : UInt32)
  | double (value : UInt64)
  | tm
deriving DecidableEq, Repr

structure MysqlBind where
  bufferType : FieldType
  buffer : Option MemPtr
  bufferLength : Nat
  isNull : Option MemPtr
  length : Option MemPtr
deriving DecidableEq, Repr

/-- A call of `mysql_stmt_execute`: what it found in the parameters, and what had been streamed
since the last `Execute()` or `Prepare`. -/
structure Execution (w : Nat) where
  valTotal : Nat
  params : List (Option (FieldType × Bytes))
  row : List (StmtValue w)
deriving DecidableEq, Repr

structure StmtItem (w : Nat) where
  bind : List MysqlBind
  valIndex : Nat
  valTotal : Nat
  stuff : MemStuff
  row : List (StmtValue w)
  executed : List (Execution w)
deriving DecidableEq, Repr

inductive StmtCall (w : Nat) where
  /-- `none` if `mysql_stmt_prepare` fails. -/
  | prepare (paramCount : Option Nat)
  | stream (value : StmtValue w)
  | execute
deriving DecidableEq, Repr

section Params

variable (w : Nat)

/-- What the client library reads through a binding. -/
def MysqlBind.value (m : MemStuff) (b : MysqlBind) : Option (FieldType × Bytes) := do
  let buffer ← b.buffer
  if b.bufferType = .string then
    let length ← m.load ⟨← b.length, w⟩
    let bytes ← m.load ⟨buffer, ofLittleEndian length⟩
    some (.string, bytes)
  else
    let bytes ← m.load ⟨buffer, b.bufferType.size⟩
    some (b.bufferType, bytes)

def MysqlBind.ranges (b : MysqlBind) : List MemRange :=
  (b.buffer.toList.map fun p =>
    ⟨p, if b.bufferType = .string then b.bufferLength else b.bufferType.size⟩) ++
  b.length.toList.map fun p => ⟨p, w⟩

variable {w}

/-- What a parameter is that has this value; there is none for a blob or a time. -/
def StmtValue.param : StmtValue w → Option (FieldType × Bytes)
  | .cstr s => some (.string, s.bytes)
  | .blob => none
  | .schar value => some (.tiny, littleEndian 1 value.toUInt8.toNat)
  | .short value => some (.short, littleEndian 2 value.toUInt16.toNat)
  | .int value => some (.long, littleEndian 4 value.toUInt32.toNat)
  | .longlong value => some (.longlong, littleEndian 8 value.toUInt64.toNat)
  | .float value => some (.float, littleEndian 4 value.toNat)
  | .double value => some (.double, littleEndian 8 value.toNat)
  | .tm => none

theorem littleEndian_inj {k a b : Nat} (ha : a < 2 ^ (8 * k)) (hb : b < 2 ^ (8 * k))
    (h : littleEndian k a = littleEndian k b) : a = b := by
  rw [← ofLittleEndian_littleEndian ha, h, ofLittleEndian_littleEndian hb]

theorem param_inj {v v' : StmtValue w} {x : FieldType × Bytes} (h : v.param = some x)
    (h' : v'.param = some x) : v = v' := by
  cases v <;> cases h <;> cases v' <;> simp only [StmtValue.param, Option.some.injEq,
    Prod.mk.injEq, reduceCtorEq, false_and, true_and] at h'
  case cstr.refl.cstr s s' =>
    rw [StmtValue.cstr.injEq, CString.mk.injEq]
    exact h'.symm
  case schar.refl.schar value value' =>
    have heq := littleEndian_inj (UInt8.toNat_lt _) (UInt8.toNat_lt _) h'
    exact congrArg _ (congrArg UInt8.toInt8 (UInt8.toNat_inj.mp heq)).symm
  case short.refl.short value value' =>
    have heq := littleEndian_inj (UInt16.toNat_lt _) (UInt16.toNat_lt _) h'
    exact congrArg _ (congrArg UInt16.toInt16 (UInt16.toNat_inj.mp heq)).symm
  case int.refl.int value value' =>
    have heq := littleEndian_inj (UInt32.toNat_lt _) (UInt32.toNat_lt _) h'
    exact congrArg _ (congrArg UInt32.toInt32 (UInt32.toNat_inj.mp heq)).symm
  case longlong.refl.longlong value value' =>
    have heq := littleEndian_inj (UInt64.toNat_lt _) (UInt64.toNat_lt _) h'
    exact congrArg _ (congrArg UInt64.toInt64 (UInt64.toNat_inj.mp heq)).symm
  case float.refl.float value value' =>
    have heq := littleEndian_inj (UInt32.toNat_lt _) (UInt32.toNat_lt _) h'
    rw [UInt32.toNat_inj.mp heq]
  case double.refl.double value value' =>
    have heq := littleEndian_inj (UInt64.toNat_lt _) (UInt64.toNat_lt _) h'
    rw [UInt64.toNat_inj.mp heq]

end Params

/-- `memstuff<256>`. -/
def stmtMem (w : Nat) (fresh : Nat → Nat → UInt8) : MemConfig :=
  { SZ := 256, bits := 8 * w, fresh := fresh }

namespace StmtItem

variable {w : Nat} (fresh : Nat → Nat → UInt8) (s : StmtItem w)

def init : StmtItem w :=
  { bind := [], valIndex := 0, valTotal := 0, stuff := .init, row := [], executed := [] }

def put (m : MemStuff) (bytes : Bytes) : Option (MemStuff × MemPtr) :=
  let r := (stmtMem w fresh).alloc m bytes.length
  (r.1.store r.2 bytes).map fun m => (m, r.2)

def Clear : StmtItem w :=
  { s with bind := [], valIndex := 0, valTotal := 0, stuff := s.stuff.clear }

def Prepare (paramCount : Option Nat) : StmtItem w :=
  match paramCount with
  | none => { s.Clear with row := [] }
  | some valTotal =>
      { s.Clear with
          valTotal := valTotal
          bind := List.replicate valTotal ⟨.decimal, none, 0, none, none⟩
          row := [] }

/-- `_bind[valIndex]` is filled in, and `valIndex++`. -/
def bound (b : MysqlBind) (stuff : MemStuff) : StmtItem w :=
  { s with bind := s.bind.set s.valIndex b, stuff := stuff, valIndex := s.valIndex + 1 }

def streamString (str : CString w) : Option (StmtItem w) :=
  if s.valIndex < s.valTotal then do
    let _ ← s.bind[s.valIndex]?
    let buffer ← put (w := w) fresh s.stuff (str.bytes ++ [0])
    let length ← put (w := w) fresh buffer.1 (littleEndian w str.bytes.length)
    some (s.bound ⟨.string, some buffer.2, str.bytes.length + 1, none, some length.2⟩ length.1)
  else some s

def streamNumber (type : FieldType) (bytes : Bytes) : Option (StmtItem w) :=
  if s.valIndex < s.valTotal then do
    let b ← s.bind[s.valIndex]?
    let buffer ← put (w := w) fresh s.stuff bytes
    some (s.bound ⟨type, some buffer.2, b.bufferLength, none, none⟩ buffer.1)
  else some s

def streamSchar (value : Int8) : Option (StmtItem w) :=
  s.streamNumber fresh .tiny (littleEndian 1 value.toUInt8.toNat)

def streamShort (value : Int16) : Option (StmtItem w) :=
  s.streamNumber fresh .short (littleEndian 2 value.toUInt16.toNat)

/-- The body is empty. -/
def streamBlob : Option (StmtItem w) := some s

def streamDouble (value : UInt64) : Option (StmtItem w) :=
  s.streamNumber fresh .double (littleEndian 8 value.toNat)

def streamFloat (value : UInt32) : Option (StmtItem w) :=
  s.streamNumber fresh .float (littleEndian 4 value.toNat)

def streamInt (value : Int32) : Option (StmtItem w) :=
  s.streamNumber fresh .long (littleEndian 4 value.toUInt32.toNat)

def streamLonglong (value : Int64) : Option (StmtItem w) :=
  s.streamNumber fresh .longlong (littleEndian 8 value.toUInt64.toNat)

/-- The body is empty. -/
def streamTm : Option (StmtItem w) := some s

def stream : StmtValue w → Option (StmtItem w)
  | .cstr str => s.streamString fresh str
  | .blob => s.streamBlob
  | .schar value => s.streamSchar fresh value
  | .short value => s.streamShort fresh value
  | .int value => s.streamInt fresh value
  | .longlong value => s.streamLonglong fresh value
  | .float value => s.streamFloat fresh value
  | .double value => s.streamDouble fresh value
  | .tm => s.streamTm

def execute : StmtItem w :=
  if s.valIndex = s.valTotal then
    { s with
        valIndex := 0
        stuff := s.stuff.clear
        executed := s.executed ++ [⟨s.valTotal, s.bind.map (MysqlBind.value w s.stuff), s.row⟩]
        row := [] }
  else { s with row := [] }

def step : StmtCall w → Option (StmtItem w)
  | .prepare paramCount => some (s.Prepare paramCount)
  | .stream value => (s.stream fresh value).map fun s => { s with row := s.row ++ [value] }
  | .execute => some s.execute

end StmtItem

def stmtItem (w : Nat) (fresh : Nat → Nat → UInt8) : Transition (StmtItem w) (StmtCall w) where
  init := .init
  step := StmtItem.step fresh

section Spec

variable {w : Nat} {fresh : Nat → Nat → UInt8} {m m' : MemStuff} {bytes : Bytes}

theorem put_eq (h : m.Valid (stmtMem w fresh)) (hfits : bytes.length * 2 < 2 ^ (8 * w)) :
    ∃ m' p, StmtItem.put (w := w) fresh m bytes = some (m', p) ∧ m'.Valid (stmtMem w fresh) ∧
      m'.ranges = m.ranges ++ [⟨p, bytes.length⟩] ∧ m'.load ⟨p, bytes.length⟩ = some bytes ∧
      ∀ r ∈ m.ranges, ∀ l, m.load r = some l → m'.load r = some l := by
  obtain ⟨r, hr⟩ : ∃ r, r = (stmtMem w fresh).alloc m bytes.length := ⟨_, rfl⟩
  have hvalid : ((stmtMem w fresh).alloc m bytes.length).1.Valid (stmtMem w fresh) :=
    MemStuff.valid_alloc h hfits
  have hranges : r.1.ranges = m.ranges ++ [⟨r.2, bytes.length⟩] := by
    rw [hr]
    rfl
  rw [← hr] at hvalid
  have hmem : ⟨r.2, bytes.length⟩ ∈ r.1.ranges := by
    rw [hranges]
    exact List.mem_append_right _ (List.mem_singleton_self _)
  obtain ⟨m', hm'⟩ := MemStuff.exists_store hvalid hmem rfl
  refine ⟨m', r.2, ?_, MemStuff.valid_store hvalid hm', ?_, MemStuff.load_store hm', ?_⟩
  · rw [StmtItem.put, ← hr, hm']
    rfl
  · rw [MemStuff.ranges_store hm', hranges]
  · intro r' hr' l hl
    have happart : r'.Apart ⟨r.2, bytes.length⟩ := by
      have hpairwise := hvalid.apart
      rw [hranges, List.pairwise_append] at hpairwise
      exact hpairwise.2.2 r' hr' _ (List.mem_singleton_self _)
    rw [MemStuff.load_store_of_apart hm' happart, hr]
    exact MemStuff.load_alloc h hfits hl

/-- A parameter is bound to memory that holds it. -/
inductive MysqlBind.Holds (w : Nat) (m : MemStuff) : MysqlBind → FieldType × Bytes → Prop
  | string {bytes : Bytes} {buffer length : MemPtr} (hfits : bytes.length < 2 ^ (8 * w))
      (hbuffer : m.load ⟨buffer, bytes.length + 1⟩ = some (bytes ++ [0]))
      (hlength : m.load ⟨length, w⟩ = some (littleEndian w bytes.length)) :
      Holds w m ⟨.string, some buffer, bytes.length + 1, none, some length⟩ (.string, bytes)
  | number {type : FieldType} {bytes : Bytes} {buffer : MemPtr} {k : Nat}
      (htype : type ≠ .string) (hbuffer : m.load ⟨buffer, type.size⟩ = some bytes) :
      Holds w m ⟨type, some buffer, k, none, none⟩ (type, bytes)

variable {b : MysqlBind} {x : FieldType × Bytes}

theorem value_of_holds (h : b.Holds w m x) : b.value w m = some x := by
  cases h with
  | string hfits hbuffer hlength =>
      have htake := MemStuff.load_take hbuffer (Nat.le_succ _)
      rw [List.take_left' rfl] at htake
      simp only [MysqlBind.value, Option.bind_eq_bind, Option.bind_some, if_true, hlength,
        ofLittleEndian_littleEndian hfits, htake]
  | number htype hbuffer =>
      simp only [MysqlBind.value, Option.bind_eq_bind, Option.bind_some, if_neg htype, hbuffer]

theorem MysqlBind.Holds.of_load (h : b.Holds w m x)
    (hload : ∀ r ∈ b.ranges w, ∀ l, m.load r = some l → m'.load r = some l) :
    b.Holds w m' x := by
  cases h with
  | string hfits hbuffer hlength =>
      exact .string hfits (hload _ (.head _) _ hbuffer) (hload _ (.tail _ (.head _)) _ hlength)
  | number htype hbuffer =>
      refine .number htype (hload _ ?_ _ hbuffer)
      rw [MysqlBind.ranges, if_neg htype]
      exact .head _

namespace StmtItem

variable {s : StmtItem w} {params : List (FieldType × Bytes)}

/-- The parameters up to `valIndex` have been bound to these values, each in memory of its
own. -/
structure Holds (fresh : Nat → Nat → UInt8) (s : StmtItem w)
    (params : List (FieldType × Bytes)) : Prop where
  valid : s.stuff.Valid (stmtMem w fresh)
  length_bind : s.bind.length = s.valTotal
  index_le : s.valIndex ≤ s.valTotal
  values : List.Forall₂ (MysqlBind.Holds w s.stuff) (s.bind.take s.valIndex) params
  ranges : s.stuff.ranges = (s.bind.take s.valIndex).flatMap (MysqlBind.ranges w)

theorem Holds.length_params (h : s.Holds fresh params) : params.length = s.valIndex := by
  have hbind := h.length_bind
  have hindex := h.index_le
  rw [← h.values.length_eq, List.length_take]
  omega

theorem Holds.bound (h : s.Holds fresh params) (hlt : s.valIndex < s.valTotal)
    {b : MysqlBind} {x : FieldType × Bytes} {stuff : MemStuff}
    (hvalid : stuff.Valid (stmtMem w fresh)) (hb : b.Holds w stuff x)
    (hranges : stuff.ranges = s.stuff.ranges ++ b.ranges w)
    (hload : ∀ r ∈ s.stuff.ranges, ∀ l, s.stuff.load r = some l → stuff.load r = some l) :
    (s.bound b stuff).Holds fresh (params ++ [x]) := by
  have hbind := h.length_bind
  have htake : (s.bind.set s.valIndex b).take (s.valIndex + 1) =
      s.bind.take s.valIndex ++ [b] := by
    rw [List.take_add_one, List.take_set_of_le le_rfl, List.getElem?_set_self (by omega)]
    rfl
  refine ⟨hvalid, ?_, hlt, ?_, ?_⟩
  · exact (List.length_set ..).trans hbind
  · rw [StmtItem.bound, htake]
    refine List.rel_append ?_ (.cons hb .nil)
    refine ((List.forall₂_and_left _ _).mpr ⟨fun b hb => hb, h.values⟩).imp ?_
    rintro b' x' ⟨hb', hx'⟩
    apply hx'.of_load
    intro r hr
    refine hload r ?_
    rw [h.ranges]
    exact List.mem_flatMap.mpr ⟨b', hb', hr⟩
  · rw [StmtItem.bound, htake, hranges, h.ranges, List.flatMap_append, List.flatMap_singleton]

theorem streamNumber_eq (h : s.Holds fresh params) {type : FieldType} {bytes : Bytes}
    (htype : type ≠ .string) (hsize : bytes.length = type.size)
    (hfits : bytes.length * 2 < 2 ^ (8 * w)) :
    ∃ s', s.streamNumber fresh type bytes = some s' ∧
      s'.Holds fresh (params ++ if s.valIndex < s.valTotal then [(type, bytes)] else []) ∧
      s'.valTotal = s.valTotal ∧ s'.row = s.row ∧ s'.executed = s.executed := by
  rw [streamNumber]
  split
  · rename_i hlt
    have hbind := h.length_bind
    obtain ⟨b, hold⟩ : ∃ b, s.bind[s.valIndex]? = some b :=
      ⟨_, List.getElem?_eq_getElem (by omega)⟩
    obtain ⟨stuff, buffer, hput, hvalid, hranges, hbuffer, hload⟩ := put_eq h.valid hfits
    rw [hold, hput, Option.bind_eq_bind, Option.bind_some, Option.bind_eq_bind, Option.bind_some]
    refine ⟨_, rfl, ?_, rfl, rfl, rfl⟩
    rw [hsize] at hbuffer hranges
    refine h.bound hlt hvalid (.number htype hbuffer) ?_ hload
    rw [hranges, MysqlBind.ranges, if_neg htype]
    rfl
  · rw [List.append_nil]
    exact ⟨s, rfl, h, rfl, rfl, rfl⟩

theorem streamString_eq (h : s.Holds fresh params) (str : CString w) :
    ∃ s', s.streamString fresh str = some s' ∧
      s'.Holds fresh (params ++ if s.valIndex < s.valTotal then [(.string, str.bytes)] else []) ∧
      s'.valTotal = s.valTotal ∧ s'.row = s.row ∧ s'.executed = s.executed := by
  rw [streamString]
  split
  · rename_i hlt
    have hbind := h.length_bind
    have hfits := str.fits
    obtain ⟨b, hold⟩ : ∃ b, s.bind[s.valIndex]? = some b :=
      ⟨_, List.getElem?_eq_getElem (by omega)⟩
    have hbytes : (str.bytes ++ [0]).length = str.bytes.length + 1 := List.length_append
    have hlen : (littleEndian w str.bytes.length).length = w := length_littleEndian ..
    have hword : (littleEndian w str.bytes.length).length * 2 < 2 ^ (8 * w) := by
      rw [hlen]
      exact lt_of_le_of_lt (by omega) Nat.lt_two_pow_self
    rw [← hbytes] at hfits
    obtain ⟨stuff, buffer, hput, hvalid, hranges, hbuffer, hload⟩ := put_eq h.valid hfits
    obtain ⟨stuff', length, hput', hvalid', hranges', hlength, hload'⟩ := put_eq hvalid hword
    rw [hbytes] at hbuffer hranges
    rw [hlen] at hlength hranges'
    rw [hold, hput, Option.bind_eq_bind, Option.bind_some, Option.bind_eq_bind, Option.bind_some,
      hput']
    refine ⟨_, rfl, ?_, rfl, rfl, rfl⟩
    have hkept : stuff'.load ⟨buffer, str.bytes.length + 1⟩ = some (str.bytes ++ [0]) := by
      refine hload' _ ?_ _ hbuffer
      rw [hranges]
      exact List.mem_append_right _ (List.mem_singleton_self _)
    refine h.bound hlt hvalid' (.string (by omega) hkept hlength) ?_ ?_
    · rw [hranges', hranges, List.append_assoc]
      rfl
    · intro r hr l hl
      refine hload' r ?_ l (hload r hr l hl)
      rw [hranges]
      exact List.mem_append_left _ hr
  · rw [List.append_nil]
    exact ⟨s, rfl, h, rfl, rfl, rfl⟩

theorem stream_eq (hw : 0 < w) (h : s.Holds fresh params) (value : StmtValue w) :
    ∃ s', s.stream fresh value = some s' ∧
      s'.Holds fresh (params ++ if s.valIndex < s.valTotal then value.param.toList else []) ∧
      s'.valTotal = s.valTotal ∧ s'.row = s.row ∧ s'.executed = s.executed := by
  have hnumber : ∀ type n, type ≠ .string → type.size ≤ 8 →
      ∃ s', s.streamNumber fresh type (littleEndian type.size n) = some s' ∧
        s'.Holds fresh (params ++
          if s.valIndex < s.valTotal then [(type, littleEndian type.size n)] else []) ∧
        s'.valTotal = s.valTotal ∧ s'.row = s.row ∧ s'.executed = s.executed := by
    intro type n htype hsize
    have hpow : 2 ^ 8 ≤ 2 ^ (8 * w) := Nat.pow_le_pow_right (by decide) (by omega)
    apply streamNumber_eq h htype (length_littleEndian ..)
    rw [length_littleEndian]
    omega
  have hnothing : ∃ s', some s = some s' ∧
      s'.Holds fresh (params ++ if s.valIndex < s.valTotal then [] else []) ∧
      s'.valTotal = s.valTotal ∧ s'.row = s.row ∧ s'.executed = s.executed := by
    rw [ite_self, List.append_nil]
    exact ⟨s, rfl, h, rfl, rfl, rfl⟩
  cases value with
  | cstr str => exact streamString_eq h str
  | blob => exact hnothing
  | schar value => exact hnumber .tiny _ (by decide) (by decide)
  | short value => exact hnumber .short _ (by decide) (by decide)
  | int value => exact hnumber .long _ (by decide) (by decide)
  | longlong value => exact hnumber .longlong _ (by decide) (by decide)
  | float value => exact hnumber .float _ (by decide) (by decide)
  | double value => exact hnumber .double _ (by decide) (by decide)
  | tm => exact hnothing

theorem Holds.clear (h : s.Holds fresh params) {t : StmtItem w} (hstuff : t.stuff = s.stuff.clear)
    (hindex : t.valIndex = 0) (hbind : t.bind.length = t.valTotal) : t.Holds fresh [] := by
  refine ⟨?_, hbind, ?_, ?_, ?_⟩
  · rw [hstuff]
    exact MemStuff.valid_clear h.valid
  · rw [hindex]
    exact Nat.zero_le _
  · rw [hindex]
    exact .nil
  · rw [hstuff, hindex]
    rfl

theorem Prepare_holds (h : s.Holds fresh params) (paramCount : Option Nat) :
    (s.Prepare paramCount).Holds fresh [] := by
  cases paramCount with
  | none => exact h.clear rfl rfl rfl
  | some valTotal => exact h.clear rfl rfl (List.length_replicate ..)

theorem execute_holds (h : s.Holds fresh params) :
    s.execute.Holds fresh (if s.valIndex = s.valTotal then [] else params) := by
  rw [execute]
  split
  · exact h.clear rfl rfl h.length_bind
  · exact ⟨h.valid, h.length_bind, h.index_le, h.values, h.ranges⟩

theorem step_stream {s' : StmtItem w} {value : StmtValue w} (h : s.stream fresh value = some s') :
    s.step fresh (.stream value) = some { s' with row := s'.row ++ [value] } := by
  rw [step, h]
  rfl

theorem Holds.with_row (h : s.Holds fresh params) (row : List (StmtValue w)) :
    Holds fresh { s with row := row } params :=
  ⟨h.valid, h.length_bind, h.index_le, h.values, h.ranges⟩

theorem step_holds (hw : 0 < w) (h : ∃ params, s.Holds fresh params) (call : StmtCall w) :
    ∃ t, s.step fresh call = some t ∧ ∃ params, t.Holds fresh params := by
  obtain ⟨params, h⟩ := h
  cases call with
  | prepare paramCount => exact ⟨_, rfl, [], Prepare_holds h paramCount⟩
  | stream value =>
      obtain ⟨s', hs', hholds, -⟩ := stream_eq hw h value
      exact ⟨_, step_stream hs', _, hholds.with_row _⟩
  | execute => exact ⟨_, rfl, _, execute_holds h⟩

theorem init_holds : Holds (w := w) fresh init [] :=
  ⟨MemStuff.valid_init, rfl, le_rfl, .nil, rfl⟩

theorem reachable_holds (hw : 0 < w) (h : (stmtItem w fresh).Reachable (fun _ _ => True) s) :
    ∃ params, s.Holds fresh params := by
  refine h.invariant (fun s => ∃ params, s.Holds fresh params) ⟨[], init_holds⟩ ?_
  intro s call t hs _ hstep
  obtain ⟨t', ht', hholds⟩ := step_holds hw hs call
  have heq : t = t' := Option.some.inj (hstep.symm.trans ht')
  rw [heq]
  exact hholds

theorem exists_run (hw : 0 < w) (calls : List (StmtCall w)) :
    ∃ s, (stmtItem w fresh).run calls init = some s := by
  have hstep : ∀ s call, (∃ params, s.Holds fresh params) →
      ∃ t, (stmtItem w fresh).step s call = some t ∧ ∃ params, t.Holds fresh params :=
    fun _ call hs => step_holds hw hs call
  exact Transition.exists_run hstep calls ⟨[], init_holds⟩

end StmtItem

/-- What `alloc` returns lies inside the memory of one `data`, apart from all that it has returned
since the last `clear`, and the buffers that are bound for one row do not overlap. -/
theorem ranges_apart :
    (∀ (cfg : MemConfig) (m : MemStuff),
      (memStuff cfg).Reachable (fun _ call => cfg.Fits call) m →
        (∀ d ∈ m.data, d.size ≤ d.bufsize) ∧
        (∀ r ∈ m.ranges, ∃ d, m.data[r.ptr.data]? = some d ∧
          r.ptr.offset + r.length ≤ d.bufsize ∧ d.buf.length = d.bufsize) ∧
        m.ranges.Pairwise MemRange.Apart ∧ m.clear.ranges = [] ∧
        ∀ bz, cfg.Fits (.alloc bz) →
          (cfg.alloc m bz).1.ranges = m.ranges ++ [⟨(cfg.alloc m bz).2, bz⟩] ∧
          (∃ d, (cfg.alloc m bz).1.data[(cfg.alloc m bz).2.data]? = some d ∧
            (cfg.alloc m bz).2.offset + bz ≤ d.size ∧ d.size ≤ d.bufsize ∧
            d.buf.length = d.bufsize) ∧
          ∀ r ∈ m.ranges, r.Apart ⟨(cfg.alloc m bz).2, bz⟩) ∧
    ∀ (w : Nat) (fresh : Nat → Nat → UInt8) (s : StmtItem w), 0 < w →
      (stmtItem w fresh).Reachable (fun _ _ => True) s →
        ((s.bind.take s.valIndex).flatMap (MysqlBind.ranges w)).Pairwise MemRange.Apart := by
  constructor
  · intro cfg m hm
    have hvalid := MemStuff.reachable_valid hm
    refine ⟨fun d hd => (hvalid.data d hd).size_le, ?_, hvalid.apart, rfl, ?_⟩
    · intro r hr
      obtain ⟨d, hd, hle⟩ := hvalid.inside r hr
      have hdata := hvalid.data d (List.mem_of_getElem? hd)
      exact ⟨d, hd, hle.trans hdata.size_le, hdata.length_buf⟩
    · intro bz hfits
      exact ⟨rfl, hvalid.alloc_inside hfits, hvalid.alloc_apart hfits⟩
  · intro w fresh s hw hs
    obtain ⟨params, hholds⟩ := StmtItem.reachable_holds hw hs
    rw [← hholds.ranges]
    exact hholds.valid.apart

theorem ranges_apart_sample :
    (∃ m, (memStuff ⟨256, 64, fun _ _ => 0⟩).run [.alloc 3, .alloc 300, .clear, .alloc 5] .init =
        some m ∧ m.ranges = [⟨⟨0, 0⟩, 5⟩] ∧
        (MemConfig.alloc ⟨256, 64, fun _ _ => 0⟩ m 300).2 = ⟨1, 0⟩ ∧
        MemRange.Apart ⟨⟨0, 0⟩, 5⟩ ⟨(MemConfig.alloc ⟨256, 64, fun _ _ => 0⟩ m 300).2, 300⟩) ∧
      ∃ s, (stmtItem 8 fun _ _ => 0).run [.prepare (some 2), .stream (.int 1)] .init = some s ∧
        ((s.bind.take s.valIndex).flatMap (MysqlBind.ranges 8)).Pairwise MemRange.Apart := by
  constructor
  · obtain ⟨m, hm⟩ : ∃ m, (memStuff ⟨256, 64, fun _ _ => 0⟩).run
        [.alloc 3, .alloc 300, .clear, .alloc 5] .init = some m := ⟨_, rfl⟩
    have hview : ((memStuff ⟨256, 64, fun _ _ => 0⟩).run
        [.alloc 3, .alloc 300, .clear, .alloc 5] .init).map (fun m =>
          (m.ranges, (MemConfig.alloc ⟨256, 64, fun _ _ => 0⟩ m 300).2)) =
        some ([⟨⟨0, 0⟩, 5⟩], ⟨1, 0⟩) := by decide +kernel
    rw [hm, Option.map_some, Option.some.injEq, Prod.mk.injEq] at hview
    obtain ⟨-, -, -, -, halloc⟩ := ranges_apart.1 ⟨256, 64, fun _ _ => 0⟩ m
      (.of_guarded .init (by decide) hm)
    obtain ⟨-, -, hapart⟩ := halloc 300 (by decide)
    exact ⟨m, hm, hview.1, hview.2, hapart ⟨⟨0, 0⟩, 5⟩ (by rw [hview.1]; exact List.mem_cons_self)⟩
  · obtain ⟨s, hs⟩ : ∃ s, (stmtItem 8 fun _ _ => 0).run [.prepare (some 2), .stream (.int 1)]
        .init = some s := StmtItem.exists_run (by decide) _
    exact ⟨s, hs, ranges_apart.2 8 (fun _ _ => 0) s (by decide) (.of_run .init hs)⟩

end Spec

section Rows

variable {w : Nat} {fresh : Nat → Nat → UInt8} {s t : StmtItem w}

/-- Every execution has used the first values of its row, parameter by parameter, and a row
starts with parameter 0. -/
def StmtItem.UsesOwnRow (s : StmtItem w) : Prop :=
  (∀ e ∈ s.executed, ∀ i < e.valTotal, ∃ v x,
    e.row[i]? = some v ∧ v.param = some x ∧ e.params[i]? = some (some x)) ∧
  (s.row = [] → s.valIndex = 0)

/-- A row that is executed starts with a value for every parameter, or has none at all. -/
def StmtItem.OwnRow (s : StmtItem w) : StmtCall w → Prop
  | .execute =>
      (s.valTotal ≤ s.row.length ∧ ∀ v ∈ s.row.take s.valTotal, v.param.isSome) ∨
        ∀ v ∈ s.row, v.param = none
  | _ => True

instance (s : StmtItem w) (call : StmtCall w) : Decidable (s.OwnRow call) := by
  cases call <;> unfold StmtItem.OwnRow <;> infer_instance

theorem getElem?_filterMap {α β : Type} {f : α → Option β} {n : Nat} {l : List α}
    (h : ∀ a ∈ l.take n, (f a).isSome) {i : Nat} (hi : i < n) :
    (l.filterMap f)[i]? = l[i]?.bind f := by
  induction l generalizing n i with
  | nil => rfl
  | cons a l ih =>
      obtain ⟨n, rfl⟩ : ∃ k, n = k + 1 := ⟨n - 1, by omega⟩
      rw [List.take_succ_cons, List.forall_mem_cons] at h
      obtain ⟨b, hb⟩ := Option.isSome_iff_exists.mp h.1
      rw [List.filterMap_cons_some hb]
      cases i with
      | zero => exact hb.symm
      | succ i =>
          rw [List.getElem?_cons_succ, List.getElem?_cons_succ]
          exact ih h.2 (by omega)

namespace StmtItem

/-- What is bound is the start of the row, without blobs and times. -/
structure RowInv (fresh : Nat → Nat → UInt8) (s : StmtItem w) : Prop where
  holds : s.Holds fresh ((s.row.filterMap StmtValue.param).take s.valTotal)
  uses : s.UsesOwnRow

theorem take_append_toList {α : Type} (l : List α) (o : Option α) (n : Nat) :
    (l ++ o.toList).take n = l.take n ++ if (l.take n).length < n then o.toList else [] := by
  rw [List.length_take]
  split
  · have hlen : o.toList.length ≤ 1 := by
      cases o with
      | none => exact Nat.zero_le _
      | some b => exact le_rfl
    rw [List.take_of_length_le (show l.length ≤ n by omega), List.take_of_length_le]
    rw [List.length_append]
    omega
  · rw [List.append_nil, List.take_append_of_le_length (by omega)]

theorem stream_rowInv (hw : 0 < w) (h : s.RowInv fresh) {value : StmtValue w}
    (hstep : s.step fresh (.stream value) = some t) : t.RowInv fresh := by
  obtain ⟨s', hs', hholds, htotal, hrow, hexecuted⟩ := stream_eq hw h.holds value
  rw [step_stream hs', Option.some.injEq] at hstep
  subst hstep
  refine ⟨?_, ?_, ?_⟩
  · have hone : [value].filterMap StmtValue.param = value.param.toList := by
      rw [List.filterMap_cons]
      cases value.param <;> rfl
    rw [← h.holds.length_params, ← take_append_toList, ← htotal] at hholds
    dsimp only
    rw [hrow, List.filterMap_append, hone]
    exact hholds.with_row _
  · dsimp only
    rw [hexecuted]
    exact h.uses.1
  · intro hnil
    exact absurd hnil (List.append_ne_nil_of_right_ne_nil _ (List.cons_ne_nil _ _))

theorem map_value {binds : List MysqlBind} {params : List (FieldType × Bytes)} {m : MemStuff}
    (h : List.Forall₂ (MysqlBind.Holds w m) binds params) :
    binds.map (MysqlBind.value w m) = params.map some := by
  induction h with
  | nil => rfl
  | cons hb _ ih => rw [List.map_cons, List.map_cons, value_of_holds hb, ih]

theorem params_eq (h : s.RowInv fresh) (hindex : s.valIndex = s.valTotal) :
    s.bind.map (MysqlBind.value w s.stuff) =
      ((s.row.filterMap StmtValue.param).take s.valTotal).map some := by
  have hvalues := h.holds.values
  rw [hindex, ← h.holds.length_bind, List.take_length, h.holds.length_bind] at hvalues
  exact map_value hvalues

theorem length_filterMap (htotal : s.valTotal ≤ s.row.length)
    (hsome : ∀ v ∈ s.row.take s.valTotal, v.param.isSome) :
    s.valTotal ≤ (s.row.filterMap StmtValue.param).length := by
  apply Nat.le_of_not_lt
  intro hlt
  obtain ⟨i, hi⟩ : ∃ i, i = (s.row.filterMap StmtValue.param).length := ⟨_, rfl⟩
  rw [← hi] at hlt
  obtain ⟨v, hv⟩ : ∃ v, s.row[i]? = some v := ⟨_, List.getElem?_eq_getElem (by omega)⟩
  have hmem : v ∈ s.row.take s.valTotal := by
    apply List.mem_of_getElem? (i := i)
    rw [List.getElem?_take_of_lt hlt, hv]
  have hfilter := getElem?_filterMap hsome hlt
  rw [hv, Option.bind_some, List.getElem?_eq_none (by omega)] at hfilter
  have hparam := hsome _ hmem
  rw [← hfilter] at hparam
  cases hparam

theorem execute_rowInv (h : s.RowInv fresh) (hrow : s.OwnRow .execute) :
    s.execute.RowInv fresh := by
  have hholds := execute_holds h.holds
  have hlength := h.holds.length_params
  rw [List.length_take] at hlength
  have hempty : ([] : List (StmtValue w)).filterMap StmtValue.param = [] := rfl
  rw [execute] at hholds ⊢
  split
  · rename_i hindex
    rw [if_pos hindex, if_pos hindex] at hholds
    refine ⟨?_, ?_, fun _ => rfl⟩
    · dsimp only
      rw [hempty, List.take_nil]
      exact hholds
    intro e he i hi
    rcases List.mem_append.mp he with he | he
    · exact h.uses.1 e he i hi
    · rw [List.mem_singleton.mp he] at hi ⊢
      dsimp only at hi ⊢
      rcases hrow with ⟨hle, hsome⟩ | hnone
      · obtain ⟨v, hv⟩ : ∃ v, s.row[i]? = some v := ⟨_, List.getElem?_eq_getElem (by omega)⟩
        have hmem : v ∈ s.row.take s.valTotal := by
          apply List.mem_of_getElem? (i := i)
          rw [List.getElem?_take_of_lt hi, hv]
        obtain ⟨x, hx⟩ := Option.isSome_iff_exists.mp (hsome _ hmem)
        refine ⟨_, x, hv, hx, ?_⟩
        rw [params_eq h hindex, List.getElem?_map, List.getElem?_take_of_lt hi,
          getElem?_filterMap hsome hi, hv, Option.bind_some, hx]
        rfl
      · rw [List.filterMap_eq_nil_iff.mpr hnone, List.length_nil] at hlength
        omega
  · rename_i hindex
    rw [if_neg hindex, if_neg hindex] at hholds
    rcases hrow with ⟨hle, hsome⟩ | hnone
    · have hle' := length_filterMap hle hsome
      omega
    · rw [List.filterMap_eq_nil_iff.mpr hnone, List.take_nil] at hholds
      refine ⟨?_, h.uses.1, fun _ => ?_⟩
      · dsimp only
        rw [hempty, List.take_nil]
        exact hholds
      · exact hholds.length_params.symm

theorem step_rowInv (hw : 0 < w) (h : s.RowInv fresh) {call : StmtCall w} (hrow : s.OwnRow call)
    (hstep : s.step fresh call = some t) : t.RowInv fresh := by
  cases call with
  | prepare paramCount =>
      cases hstep
      have hholds := Prepare_holds h.holds paramCount
      cases paramCount with
      | none => exact ⟨hholds, h.uses.1, fun _ => rfl⟩
      | some valTotal =>
          refine ⟨?_, h.uses.1, fun _ => rfl⟩
          have hempty : ((s.Prepare (some valTotal)).row.filterMap StmtValue.param).take
              (s.Prepare (some valTotal)).valTotal = [] := List.take_nil
          rw [hempty]
          exact hholds
  | stream value => exact stream_rowInv hw h hstep
  | execute =>
      cases hstep
      exact execute_rowInv h hrow

theorem execute_not_uses (h : s.RowInv fresh) (hrow : ¬ s.OwnRow .execute) :
    ¬ s.execute.UsesOwnRow := by
  have hlength := h.holds.length_params
  rw [List.length_take] at hlength
  intro huses
  apply hrow
  rw [execute] at huses
  split at huses
  · left
    have hall := huses.1 _ (List.mem_append_right _ (List.mem_singleton_self _))
    dsimp only at hall
    constructor
    · apply Nat.le_of_not_lt
      intro hlt
      obtain ⟨v, x, hv, -⟩ := hall _ hlt
      rw [List.getElem?_eq_none le_rfl] at hv
      cases hv
    · intro v hv
      obtain ⟨i, hi⟩ := List.getElem?_of_mem hv
      rw [List.getElem?_take, Option.ite_none_right_eq_some] at hi
      obtain ⟨v', x, hv', hx, -⟩ := hall i hi.1
      rw [hi.2, Option.some.injEq] at hv'
      rw [hv', hx]
      rfl
  · right
    rename_i hindex
    have hzero : s.valIndex = 0 := huses.2 rfl
    apply List.filterMap_eq_nil_iff.mp
    apply List.eq_nil_of_length_eq_zero
    omega

/-- Exactly the runs in which every row that is executed starts with a value for each parameter, or
has no value that can be bound, keep the rows apart. -/
theorem usesOwnRow_iff (hw : 0 < w) (calls : List (StmtCall w)) :
    (∃ s, (stmtItem w fresh).run calls (stmtItem w fresh).init = some s) ∧
      ((stmtItem w fresh).Always UsesOwnRow calls (stmtItem w fresh).init ↔
        (stmtItem w fresh).Guarded OwnRow calls (stmtItem w fresh).init) := by
  have hrun : ∃ u, (stmtItem w fresh).run calls (stmtItem w fresh).init = some u :=
    exists_run hw calls
  refine ⟨hrun, ?_⟩
  obtain ⟨u, hu⟩ := hrun
  have hkeep : ∀ s call t, s.RowInv fresh → s.OwnRow call →
      (stmtItem w fresh).step s call = some t → t.RowInv fresh :=
    fun s call t hs hrow hstep => step_rowInv hw hs hrow hstep
  have hbreak : ∀ s call t, s.RowInv fresh → ¬ s.OwnRow call →
      (stmtItem w fresh).step s call = some t → ¬ t.UsesOwnRow := by
    intro s call t hs hrow hstep
    cases call with
    | prepare paramCount => exact absurd trivial hrow
    | stream value => exact absurd trivial hrow
    | execute =>
        cases hstep
        exact execute_not_uses hs hrow
  have hinit : RowInv fresh (stmtItem w fresh).init :=
    ⟨init_holds, List.forall_mem_nil _, fun _ => rfl⟩
  exact Transition.always_iff_guarded_of (fun _ hs => hs.uses) hkeep hbreak hinit hu

/-- Two rows, of which the second has a value too many. -/
def sampleRows : List (StmtCall 8) :=
  [.prepare (some 2), .stream (.int 1), .stream (.cstr ⟨lit "a", by decide, by decide⟩), .execute,
    .stream (.int 2), .stream (.int 3), .stream (.int 4), .execute]

theorem usesOwnRow_sample :
    (stmtItem 8 fun _ _ => 0).Always UsesOwnRow sampleRows (stmtItem 8 fun _ _ => 0).init := by
  have hguarded : (stmtItem 8 fun _ _ => 0).Guarded OwnRow sampleRows
      (stmtItem 8 fun _ _ => 0).init := by decide +kernel
  exact (usesOwnRow_iff (by decide) sampleRows).2.mpr hguarded

/-- The value of a row that was too short becomes the first parameter of the next. -/
theorem not_usesOwnRow :
    ((stmtItem 8 fun _ _ => 0).run [.prepare (some 2), .stream (.int 1), .execute,
        .stream (.int 2), .stream (.int 3), .execute] .init).map StmtItem.executed =
      some [⟨2, [some (.long, [1, 0, 0, 0]), some (.long, [2, 0, 0, 0])], [.int 2, .int 3]⟩] ∧
    ¬ (stmtItem 8 fun _ _ => 0).Always UsesOwnRow [.prepare (some 2), .stream (.int 1), .execute,
        .stream (.int 2), .stream (.int 3), .execute] .init := by
  have hexecuted : ((stmtItem 8 fun _ _ => 0).run [.prepare (some 2), .stream (.int 1), .execute,
      .stream (.int 2), .stream (.int 3), .execute] .init).map StmtItem.executed =
      some [⟨2, [some (.long, [1, 0, 0, 0]), some (.long, [2, 0, 0, 0])], [.int 2, .int 3]⟩] := by
    decide +kernel
  refine ⟨hexecuted, ?_⟩
  intro hall
  obtain ⟨s, hs, hexecuted⟩ := Option.map_eq_some_iff.mp hexecuted
  obtain ⟨v, x, hv, hx, hparam⟩ := (hall.of_run hs).1 _ (by rw [hexecuted]; exact .head _) 0
    (by decide)
  cases hv
  cases hx
  revert hparam
  decide

end StmtItem

end Rows

end MmsSvr
