import MmsSvr.Bytes
import MmsSvr.Lib.Memory

/-!
The reply reader of hiredis: a buffer, a stack of nine read tasks, and the reply objects that it
allocates and links to each other.
-/

namespace MmsSvr.Hiredis

open Lib

/-- The types of a reply that have a byte of their own. -/
inductive ReplyType where
  | string | array | integer | status | error
deriving DecidableEq, Repr

/-- A `redisReply` in memory; what an array points to are positions in the heap. -/
inductive RedisObject where
  | string (str : Bytes)
  | array (element : List (Option Nat))
  | integer (integer : Int)
  | nil
  | status (str : Bytes)
  | error (str : Bytes)
deriving DecidableEq, Repr

/-- `type` is `none` for -1, and `parent` the place of the parent in the stack. -/
structure RedisReadTask where
  type : Option ReplyType
  elements : Int
  idx : Int
  obj : Option Nat
  parent : Option Nat
deriving DecidableEq, Repr

structure RedisReader where
  error : Option Bytes
  reply : Option Nat
  buf : Bytes
  pos : Nat
  rstack : List RedisReadTask
  ridx : Int
  /-- All that `createReplyObject` has allocated. -/
  heap : List RedisObject
  /-- What has been given to `freeObject`. -/
  freed : List Nat
deriving DecidableEq, Repr

/-- What ends the process, or leaves it undefined. -/
inductive ReaderAbort where
  | assertion
  | outOfMemory
  /-- An access outside its object. -/
  | outside
  /-- The `int` that an sds keeps its length in overflows. -/
  | tooLong
  /-- A loop that goes on. -/
  | hangs
deriving DecidableEq, Repr

/-- What hiredis is built for: the width of `size_t` and `unsigned long`, which is 32 on Win32, and
whether `calloc` finds memory for so many pointers. -/
structure Machine where
  bits : Nat
  bits_ge : 32 ≤ bits
  calloc : Nat → Bool

theorem Machine.two_pow_le (machine : Machine) : 2 ^ 32 ≤ 2 ^ machine.bits :=
  Nat.pow_le_pow_right (by decide) machine.bits_ge

section Lines

/-- The loops of `seekNewline`, with `n` for `_len - pos`. The byte behind the last one is the NUL
that ends an sds. -/
def seekFrom : Bytes → Nat → Option Nat
  | _, 0 => none
  | [], _ + 1 => none
  | c :: s, n + 1 =>
      if c = 13 ∧ s.head? = some 10 then some 0 else (seekFrom s n).map (· + 1)

/-- `seekNewline`, with the position in place of the pointer. -/
def seekNewline (machine : Machine) (s : Bytes) (len : Nat) : Option Nat :=
  seekFrom s (intWord 32 (sizeSub machine.bits len 1)).toNat

/-- The loop of `readLongLong`, which an overflow carries on in 64 bits. -/
def readDigits (mult : Int) : Int → Bytes → Int
  | _, [] => -1
  | v, c :: s =>
      if c = 13 then intWord 64 (mult * v)
      else if isDigit c then readDigits mult (intWord 64 (intWord 64 (v * 10) + (c.toNat - 48))) s
      else -1

def readLongLong : Bytes → Int
  | 45 :: s => readDigits (-1) 0 s
  | 43 :: s => readDigits 1 0 s
  | s => readDigits 1 0 s

/-- A byte as `%02x` prints it. -/
def hexByte (c : UInt8) : Bytes :=
  [c.toNat / 16, c.toNat % 16].map fun d => UInt8.ofNat d.digitChar.toNat

/-- `sdscatrepr` of one byte. The escapes of control characters are cut to their backslash. -/
def sdscatrepr (c : UInt8) : Bytes :=
  let text :=
    if c = 92 ∨ c = 34 then [92, c]
    else if c = 10 ∨ c = 13 ∨ c = 9 ∨ c = 7 ∨ c = 8 then [92]
    else if 32 ≤ c ∧ c < 127 then [c]
    else lit "\\x" ++ hexByte c
  [34] ++ text ++ [34]

def depthError : Bytes := lit "No support for nested multi bulk replies with depth > 7"

def typeError (c : UInt8) : Bytes :=
  lit "Protocol error, got " ++ sdscatrepr c ++ lit " as reply type byte"

/-- The `switch` over the byte that a reply begins with. -/
def replyType (c : UInt8) : Option ReplyType :=
  if c = 45 then some .error
  else if c = 43 then some .status
  else if c = 58 then some .integer
  else if c = 36 then some .string
  else if c = 42 then some .array
  else none

end Lines

section Objects

def linkParent (heap : List RedisObject) (parent : RedisReadTask) (idx : Int) (p : Nat) :
    Except ReaderAbort (List RedisObject) :=
  match parent.obj with
  | none => .error .outside
  | some q =>
      match heap[q]? with
      | none => .error .outside
      | some (.array element) =>
          if 0 ≤ idx ∧ idx.toNat < element.length then
            .ok (heap.set q (.array (element.set idx.toNat (some p))))
          else .error .outside
      | some _ => .error .assertion

/-- `createReplyObject`, and the link that all of the functions make. -/
def createObject (r : RedisReader) (task : RedisReadTask) (obj : RedisObject) :
    Except ReaderAbort (RedisReader × Nat) :=
  match task.parent with
  | none => .ok ({ r with heap := r.heap ++ [obj] }, r.heap.length)
  | some t =>
      match r.rstack[t]? with
      | none => .error .outside
      | some parent =>
          match linkParent (r.heap ++ [obj]) parent task.idx r.heap.length with
          | .error e => .error e
          | .ok heap => .ok ({ r with heap }, r.heap.length)

def createStringObject (r : RedisReader) (task : RedisReadTask) (str : Bytes) :
    Except ReaderAbort (RedisReader × Nat) :=
  match task.type with
  | some .error => createObject r task (.error str)
  | some .status => createObject r task (.status str)
  | some .string => createObject r task (.string str)
  | _ => .error .assertion

/-- There is no memory for a negative count. -/
def createArrayObject (machine : Machine) (r : RedisReader) (task : RedisReadTask)
    (elements : Int) : Except ReaderAbort (RedisReader × Nat) :=
  if 0 ≤ elements ∧ machine.calloc elements.toNat then
    createObject r task (.array (List.replicate elements.toNat none))
  else .error .outOfMemory

def createIntegerObject (r : RedisReader) (task : RedisReadTask) (value : Int) :
    Except ReaderAbort (RedisReader × Nat) :=
  createObject r task (.integer value)

def createNilObject (r : RedisReader) (task : RedisReadTask) :
    Except ReaderAbort (RedisReader × Nat) :=
  createObject r task .nil

end Objects

namespace RedisReader

/-- `redisReplyReaderCreate`. -/
def create : RedisReader where
  error := none
  reply := none
  buf := []
  pos := 0
  rstack := List.replicate 9 ⟨none, 0, 0, none, none⟩
  ridx := -1
  heap := []
  freed := []

def len (r : RedisReader) : Nat := r.buf.length

/-- `redisSetReplyReaderError`. -/
def setError (r : RedisReader) (err : Bytes) : RedisReader :=
  { r with freed := r.freed ++ r.reply.toList, buf := [], pos := 0, ridx := -1, error := some err }

/-- `readBytes`, with the position in place of the pointer. With `pos` behind the end, the size that
is left would be huge. -/
def readBytes (r : RedisReader) (bytes : Nat) : Option (Nat × RedisReader) :=
  if r.len < r.pos ∨ bytes ≤ r.len - r.pos then some (r.pos, { r with pos := r.pos + bytes }) else none

/-- `readLine`: what the pointer it returns points to, and `_len`. -/
def readLine (machine : Machine) (r : RedisReader) : Option (Bytes × Nat × RedisReader) :=
  match seekNewline machine (r.buf.drop r.pos) (sizeSub machine.bits r.len r.pos) with
  | none => none
  | some k => some (r.buf.drop r.pos, k, { r with pos := r.pos + (k + 2) })

/-- The loop of `moveToNextTask`, with `ridx` for the recursion. -/
def moveFrom : Nat → RedisReader → Except ReaderAbort RedisReader
  | 0, r => .ok { r with ridx := -1 }
  | i + 1, r =>
      match r.rstack[i + 1]?, r.rstack[i]? with
      | some cur, some prv =>
          if prv.type ≠ some .array then .error .assertion
          else if cur.idx = prv.elements - 1 then moveFrom i { r with ridx := i }
          else if cur.idx < prv.elements then
            .ok { r with
              rstack := r.rstack.set (i + 1)
                { cur with type := none, elements := -1, idx := cur.idx + 1 } }
          else .error .assertion
      | _, _ => .error .outside

def moveToNextTask (r : RedisReader) : Except ReaderAbort RedisReader :=
  if r.ridx < 0 then .ok r else moveFrom r.ridx.toNat r

def setRoot (r : RedisReader) (obj : Nat) : RedisReader :=
  if r.ridx = 0 then { r with reply := some obj } else r

/-- The end of an item whose object has been made: `0` is returned. -/
def finishItem : Except ReaderAbort (RedisReader × Nat) → Except ReaderAbort (RedisReader × Bool)
  | .error e => .error e
  | .ok (r, obj) =>
      match (r.setRoot obj).moveToNextTask with
      | .error e => .error e
      | .ok r => .ok (r, true)

/-- The functions for items return `true` for 0 and `false` for -1. -/
def processLineItem (machine : Machine) (r : RedisReader) (cur : RedisReadTask) :
    Except ReaderAbort (RedisReader × Bool) :=
  match r.readLine machine with
  | none => .ok (r, false)
  | some (p, len, r) =>
      if cur.type = some .integer then finishItem (createIntegerObject r cur (readLongLong p))
      else finishItem (createStringObject r cur (p.take len))

/-- `len` is a `long long`, and is cut to an `unsigned long` and a `size_t` where it is used. -/
def processBulkItem (machine : Machine) (r : RedisReader) (cur : RedisReadTask) :
    Except ReaderAbort (RedisReader × Bool) :=
  let p := r.buf.drop r.pos
  match seekNewline machine p (sizeSub machine.bits r.len r.pos) with
  | none => .ok (r, false)
  | some k =>
      let len := readLongLong p
      if len < 0 then
        match createNilObject r cur with
        | .error e => .error e
        | .ok (r, obj) => finishItem (.ok ({ r with pos := r.pos + (k + 2) }, obj))
      else
        let size := sizeWord machine.bits len.toNat
        let bytelen := sizeWord machine.bits (k + 2 + (size + 2))
        if sizeWord machine.bits (r.pos + bytelen) ≤ r.len then
          if k + 2 + size ≤ p.length then
            match createStringObject r cur ((p.drop (k + 2)).take size) with
            | .error e => .error e
            | .ok (r, obj) => finishItem (.ok ({ r with pos := r.pos + bytelen }, obj))
          else .error .outside
        else .ok (r, false)

def pushTask (r : RedisReader) (cur : RedisReadTask) (elements : Int) (obj : Nat) :
    Except ReaderAbort RedisReader :=
  if 0 ≤ r.ridx ∧ r.ridx.toNat + 1 < r.rstack.length then
    .ok { r with
      rstack := (r.rstack.set r.ridx.toNat { cur with elements := elements, obj := some obj }).set
        (r.ridx.toNat + 1) ⟨none, -1, 0, none, some r.ridx.toNat⟩
      ridx := r.ridx + 1 }
  else .error .outside

def processMultiBulkItem (machine : Machine) (r : RedisReader) (cur : RedisReadTask) :
    Except ReaderAbort (RedisReader × Bool) :=
  if r.ridx = 8 then .ok (r.setError depthError, false)
  else
    match r.readLine machine with
    | none => .ok (r, false)
    | some (p, _, r) =>
        let elements := readLongLong p
        if elements = -1 then finishItem (createNilObject r cur)
        else
          match createArrayObject machine r cur (intWord 32 elements) with
          | .error e => .error e
          | .ok (r, obj) =>
              if 0 < elements then
                match (r.setRoot obj).pushTask cur (intWord 32 elements) obj with
                | .error e => .error e
                | .ok r => .ok (r, true)
              else finishItem (.ok (r, obj))

/-- The `switch` over the type of a task. -/
def processTyped (machine : Machine) (r : RedisReader) (cur : RedisReadTask) (type : ReplyType) :
    Except ReaderAbort (RedisReader × Bool) :=
  match type with
  | .error => r.processLineItem machine cur
  | .status => r.processLineItem machine cur
  | .integer => r.processLineItem machine cur
  | .string => r.processBulkItem machine cur
  | .array => r.processMultiBulkItem machine cur

/-- What `processItem` does with the byte of the type, where it can be read. -/
def readType (machine : Machine) (r : RedisReader) (cur : RedisReadTask) :
    Option (Nat × RedisReader) → Except ReaderAbort (RedisReader × Bool)
  | none => .ok (r, false)
  | some (p, r) =>
      match r.buf[p]? with
      | none => .error .outside
      | some c =>
          match replyType c with
          | none => .ok (r.setError (typeError c), false)
          | some type =>
              processTyped machine
                { r with rstack := r.rstack.set r.ridx.toNat { cur with type := some type } }
                { cur with type := some type } type

def processTask (machine : Machine) (r : RedisReader) (cur : RedisReadTask) :
    Except ReaderAbort (RedisReader × Bool) :=
  match cur.type with
  | some type => processTyped machine r cur type
  | none => readType machine r cur (r.readBytes 1)

def processItem (machine : Machine) (r : RedisReader) : Except ReaderAbort (RedisReader × Bool) :=
  match r.rstack[r.ridx.toNat]? with
  | none => .error .outside
  | some cur => processTask machine r cur

/-- `redisReplyReaderFeed`. -/
def Feed (r : RedisReader) (piece : Bytes) : Except ReaderAbort RedisReader :=
  if r.len + piece.length < 2 ^ 31 then .ok { r with buf := r.buf ++ piece }
  else .error .tooLong

/-- The loop of `redisReplyReaderGetReply`. -/
def processItems (machine : Machine) : Nat → RedisReader → Except ReaderAbort RedisReader
  | 0, _ => .error .hangs
  | fuel + 1, r =>
      if 0 ≤ r.ridx then
        match r.processItem machine with
        | .error e => .error e
        | .ok (r, true) => processItems machine fuel r
        | .ok (r, false) => .ok r
      else .ok r

def startReply (r : RedisReader) : RedisReader :=
  if r.ridx = -1 then
    { r with rstack := r.rstack.set 0 ⟨none, -1, -1, none, none⟩, ridx := 0 }
  else r

/-- What has been read is cut off when it is 1k. -/
def discard (r : RedisReader) : RedisReader :=
  if 1024 ≤ r.pos then { r with buf := r.buf.drop r.pos, pos := 0 } else r

/-- `redisReplyReaderGetReply`: the reply, or `none` for NULL, and whether it returns `REDIS_OK`. -/
def GetReply (machine : Machine) (r : RedisReader) :
    Except ReaderAbort (RedisReader × Option Nat × Bool) :=
  if r.len = 0 then .ok (r, none, true)
  else
    match processItems machine (r.len + 1) r.startReply with
    | .error e => .error e
    | .ok r =>
        let r := r.discard
        if r.ridx = -1 then
          match r.error with
          | some _ => .ok ({ r with reply := none }, none, false)
          | none => .ok ({ r with reply := none }, r.reply, true)
        else .ok (r, none, true)

end RedisReader

end MmsSvr.Hiredis
