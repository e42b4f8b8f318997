import MmsSvr.Dict
import MmsSvr.Lib.Fallible
import MmsSvr.Lib.Transition
import MmsSvr.RedisCommand

/-!
`async.c`: a connection to redis on which commands are sent without waiting, and the callbacks that
are kept until their replies come.
-/

namespace MmsSvr.Hiredis

open Lib

/-- `redisCallback`; `fn` says which function it is, if it is not NULL. -/
structure Callback where
  fn : Option Nat
  privdata : Nat
deriving DecidableEq, Repr

inductive ContextError where
  | io
  | eof
  | protocol (text : Option Bytes)
deriving DecidableEq, Repr

/-- What ends the process, or leaves it undefined. -/
inductive AsyncAbort where
  | reader (why : ReaderAbort)
  /-- An access outside its object. -/
  | outside
  /-- The variable `cb` is used and has not been set. -/
  | uninitialised
  | outOfMemory
  /-- `assert(pos == totlen)`. -/
  | length
  /-- `assert(p != NULL)` of `__redisAsyncCommand`. -/
  | noArgument
  /-- `assert(p)` of `nextArgument`. -/
  | noLineEnd
  /-- `assert(__redisShiftCallback(&ac->replies,NULL) == REDIS_ERR)`. -/
  | pendingCallbacks
  /-- `assert(c->flags & REDIS_SUBSCRIBED)`. -/
  | notSubscribed
  /-- The assertions about messages to subscribers. -/
  | message
  | dict
  /-- The `int` that an sds keeps its length in overflows. -/
  | tooLong
  /-- A loop that goes on. -/
  | hangs
deriving DecidableEq, Repr

/-- The functions of the application that have been called. -/
inductive Ran where
  /-- A callback; NULL in place of a reply is `none`. -/
  | reply (cb : Callback) (reply : Option Reply)
  | connect
  /-- `onDisconnect`, and whether the status is `REDIS_OK`. -/
  | disconnect (ok : Bool)

/-- The calls that an application makes. -/
inductive ApiCall where
  /-- `redisAsyncCommandArgv`. -/
  | commandArgv (cb : Callback) (argv : List Bytes)
  /-- `redisAsyncCommand` and `redisvAsyncCommand`. -/
  | command (cb : Callback) (format : Bytes) (ap : VaList)
  | disconnect
  | free

/-- What the library runs in: what can be allocated, and what the callbacks do. -/
structure Host where
  malloc : Nat → Bool
  machine : Machine
  /-- The calls that a callback makes, by what has been called up to it. -/
  client : List Ran → List ApiCall

/-- `redisAsyncContext`, attached to libevent, with functions for connecting and disconnecting. -/
structure AsyncContext where
  connected : Bool
  disconnecting : Bool
  freeing : Bool
  inCallback : Bool
  subscribed : Bool
  err : Option ContextError
  obuf : Bytes
  reader : RedisReader
  replies : List Callback
  invalid : List Callback
  channels : Dict Bytes Callback
  patterns : Dict Bytes Callback
  /-- The events that are added. -/
  reading : Bool
  writing : Bool
  /-- What has been called, in order. -/
  ran : List Ran
  /-- The commands of the calls that return `REDIS_OK`, in order. -/
  accepted : List (Callback × Bytes)
  released : Bool

section Commands

/-- `tolower` in the C locale. -/
def tolower (c : UInt8) : UInt8 := if 65 ≤ c ∧ c ≤ 90 then c + 32 else c

/-- `strchr`, with the NUL behind the bytes. -/
def strchr (c : UInt8) : Bytes → Option Bytes
  | [] => none
  | b :: s => if b = c then some (b :: s) else if b = 0 then none else strchr c s

def isSpace (c : UInt8) : Bool := c = 32 ∨ 9 ≤ c ∧ c ≤ 13

/-- `strtol` in base 10. -/
def strtol (s : Bytes) : Int :=
  match s.dropWhile isSpace with
  | 45 :: s => max (-(digitsValue (s.takeWhile isDigit) : Int)) (-2 ^ 63)
  | 43 :: s => min (digitsValue (s.takeWhile isDigit)) (2 ^ 63 - 1)
  | s => min (digitsValue (s.takeWhile isDigit)) (2 ^ 63 - 1)

/-- `strncasecmp` with a text in lower case, up to its length. -/
def hasName (name s : Bytes) : Bool := (s.take name.length).map tolower = name

/-- `nextArgument`: from the argument on, its length, and what it returns. -/
def nextArgument (start : Bytes) : Except AsyncAbort (Option (Bytes × Nat × Bytes)) :=
  match if start.head? = some 36 then some start else strchr 36 start with
  | none => .ok none
  | some p =>
      let len := intWord 32 (strtol p.tail)
      match strchr 13 p with
      | none => .error .noLineEnd
      | some p =>
          if 0 ≤ len ∧ len.toNat + 4 ≤ p.length then
            .ok (some (p.drop 2, len.toNat, p.drop (len.toNat + 4)))
          else .error .outside

/-- What `__redisAsyncCommand` takes a command for. -/
inductive CommandKind where
  /-- With the channels or, if `pvariant` is set, patterns that follow. -/
  | subscribe (pvariant : Bool) (p : Bytes)
  | unsubscribe
  | other
deriving DecidableEq, Repr

def isPvariant (s : Bytes) : Bool := s.head?.map tolower = some 112

def behindP (s : Bytes) : Bytes := if isPvariant s then s.tail else s

def commandKind (cmd : Bytes) : Except AsyncAbort CommandKind :=
  (nextArgument cmd).bind fun
  | none => .error .noArgument
  | some (cstr, _, p) =>
      if p.head? = some 36 ∧ hasName (lit "subscribe\r\n") (behindP cstr) then
        .ok (.subscribe (isPvariant cstr) p)
      else if hasName (lit "unsubscribe\r\n") (behindP cstr) then .ok .unsubscribe
      else .ok .other

end Commands

namespace AsyncContext

variable (ac : AsyncContext)

/-- `redisAsyncConnect` without an error, `redisLibeventAttach`, and the functions set. -/
def connect : AsyncContext where
  connected := false
  disconnecting := false
  freeing := false
  inCallback := false
  subscribed := false
  err := none
  obuf := []
  reader := .create
  replies := []
  invalid := []
  channels := dictCreate
  patterns := dictCreate
  reading := false
  writing := true
  ran := []
  accepted := []
  released := false

def callbacks (pvariant : Bool) : Dict Bytes Callback :=
  if pvariant then ac.patterns else ac.channels

def setCallbacks (pvariant : Bool) (ht : Dict Bytes Callback) : AsyncContext :=
  { ac with
    channels := if pvariant then ac.channels else ht
    patterns := if pvariant then ht else ac.patterns }

/-- `dictReplace` for a channel or a pattern. -/
def register (pvariant : Bool) (sname : Bytes) (cb : Callback) : Except AsyncAbort AsyncContext :=
  match dictReplace dictGenHashFunction (ac.callbacks pvariant) sname cb with
  | none => .error .dict
  | some (ht, _) => .ok (ac.setCallbacks pvariant ht)

/-- The `while` of `__redisAsyncCommand`. -/
def subscribeFrom (pvariant : Bool) (cb : Callback) (ac : AsyncContext) (p : Bytes) :
    Except AsyncAbort AsyncContext :=
  (nextArgument p).bind fun
  | none => .ok ac
  | some (astr, alen, rest) =>
      (ac.register pvariant (astr.take alen) cb).bind fun ac =>
        if rest.length < p.length then subscribeFrom pvariant cb ac rest else .error .hangs
termination_by p.length

def append (cb : Callback) (cmd : Bytes) : Except AsyncAbort (AsyncContext × Bool) :=
  if ac.obuf.length + cmd.length < 2 ^ 31 then
    .ok ({ ac with
      obuf := ac.obuf ++ cmd
      writing := true
      accepted := ac.accepted ++ [(cb, cmd)] }, true)
  else .error .tooLong

/-- `__redisAsyncCommand`, and whether it returns `REDIS_OK`. -/
def command (cb : Callback) (cmd : Bytes) : Except AsyncAbort (AsyncContext × Bool) :=
  if ac.disconnecting || ac.freeing then .ok (ac, false)
  else
    (commandKind cmd).bind fun
    | .subscribe pvariant p =>
        (subscribeFrom pvariant cb { ac with subscribed := true } p).bind fun ac =>
          ac.append cb cmd
    | .unsubscribe => if ac.subscribed then ac.append cb cmd else .ok (ac, false)
    | .other =>
        if ac.subscribed then ({ ac with invalid := ac.invalid ++ [cb] }).append cb cmd
        else ({ ac with replies := ac.replies ++ [cb] }).append cb cmd

def formatted : Formatted → Except AsyncAbort Bytes
  | .ok cmd => .ok cmd
  | .outOfMemory => .error .outOfMemory
  | .outside => .error .outside
  | .assertion => .error .length

def redisAsyncCommandArgv (malloc : Nat → Bool) (cb : Callback) (argv : List Bytes) :
    Except AsyncAbort (AsyncContext × Bool) :=
  (formatted (redisFormatCommandArgv malloc argv)).bind fun cmd => ac.command cb cmd

def redisvAsyncCommand (malloc : Nat → Bool) (cb : Callback) (format : Bytes) (ap : VaList) :
    Except AsyncAbort (AsyncContext × Bool) :=
  match redisvFormatCommand malloc format ap with
  | none => .error .outside
  | some f => (formatted f).bind fun cmd => ac.command cb cmd

/-- A call in a callback, where closing sets only a flag. -/
def callInside (malloc : Nat → Bool) (ac : AsyncContext) :
    ApiCall → Except AsyncAbort AsyncContext
  | .commandArgv cb argv => (ac.redisAsyncCommandArgv malloc cb argv).bind fun (ac, _) => .ok ac
  | .command cb format ap => (ac.redisvAsyncCommand malloc cb format ap).bind fun (ac, _) => .ok ac
  | .disconnect => .ok { ac with disconnecting := true }
  | .free => .ok { ac with freeing := true }

/-- `__redisShiftCallback` of `replies`. -/
def shiftReplies (ac : AsyncContext) : Option (Callback × AsyncContext) :=
  match ac.replies with
  | [] => none
  | cb :: rest => some (cb, { ac with replies := rest })

/-- `__redisShiftCallback` of `invalid`. -/
def shiftInvalid (ac : AsyncContext) : Option (Callback × AsyncContext) :=
  match ac.invalid with
  | [] => none
  | cb :: rest => some (cb, { ac with invalid := rest })

variable (host : Host)

/-- `__redisRunCallback`; `host` says what the callback does. -/
def runCallback (cb : Callback) (reply : Option Reply) : Except AsyncAbort AsyncContext :=
  match cb.fn with
  | none => .ok ac
  | some _ =>
      (each (callInside host.malloc) { ac with inCallback := true, ran := ac.ran ++ [.reply cb reply] }
        (host.client (ac.ran ++ [.reply cb reply]))).bind fun ac => .ok { ac with inCallback := false }

/-- `while (__redisShiftCallback(list,&cb) == REDIS_OK)` of `__redisAsyncFree`. -/
def drain (shift : AsyncContext → Option (Callback × AsyncContext)) :
    Nat → AsyncContext → Except AsyncAbort AsyncContext
  | 0, ac => if (shift ac).isNone then .ok ac else .error .hangs
  | fuel + 1, ac =>
      match shift ac with
      | none => .ok ac
      | some (cb, ac) => (ac.runCallback host cb none).bind fun ac => drain shift fuel ac

/-- The callbacks of channels or patterns, as the iterator gives them. -/
def runEntries (ac : AsyncContext) (entries : List (Bytes × Callback)) :
    Except AsyncAbort AsyncContext :=
  each (fun ac he => ac.runCallback host he.2 none) ac entries

def entries (ht : Dict Bytes Callback) : List (Bytes × Callback) :=
  dictWalk ht ht.used dictGetIterator

/-- The end of `__redisAsyncFree`. -/
def release : AsyncContext :=
  { ac with
    channels := dictCreate
    patterns := dictCreate
    reading := false
    writing := false
    ran := ac.ran ++ (if ac.connected then [.disconnect (ac.freeing || ac.err.isNone)] else [])
    released := true }

/-- `__redisAsyncFree`. -/
def asyncFree : Except AsyncAbort AsyncContext :=
  (drain host shiftReplies ac.replies.length ac).bind fun ac =>
    (drain host shiftInvalid ac.invalid.length ac).bind fun ac =>
      (runEntries host ac (entries ac.channels)).bind fun ac =>
        (runEntries host ac (entries ac.patterns)).bind fun ac => .ok ac.release

/-- `__redisAsyncDisconnect`. -/
def asyncDisconnect : Except AsyncAbort AsyncContext :=
  match ac.err with
  | none => if ac.replies = [] then ac.asyncFree host else .error .pendingCallbacks
  | some _ => ({ ac with disconnecting := true }).asyncFree host

def redisAsyncFree : Except AsyncAbort AsyncContext :=
  let ac := { ac with freeing := true }
  if ac.inCallback then .ok ac else ac.asyncFree host

def redisAsyncDisconnect : Except AsyncAbort AsyncContext :=
  let ac := { ac with disconnecting := true }
  if ac.inCallback || !ac.replies.isEmpty then .ok ac else ac.asyncDisconnect host

/-- The last message about a channel or a pattern, with the elements behind its name. -/
def unsubscribed (pvariant : Bool) (sname : Bytes) (more : List Reply) :
    Except AsyncAbort AsyncContext :=
  let ac := ac.setCallbacks pvariant
    (dictDelete dictGenHashFunction (ac.callbacks pvariant) sname).1
  match more with
  | .integer v :: _ => .ok { ac with subscribed := ac.subscribed && v ≠ 0 }
  | _ :: _ => .error .message
  | [] => .error .outside

/-- `__redisGetSubscribeCallback`, with what is in `dstcb` before and after. -/
def getSubscribeCallback (reply : Reply) (dstcb : Option Callback) :
    Except AsyncAbort (AsyncContext × Option Callback) :=
  match reply with
  | .array (.string stype :: .string sname :: more) =>
      match dictFind dictGenHashFunction (ac.callbacks (isPvariant stype)) sname with
      | none => .ok (ac, dstcb)
      | some cb =>
          if (cstr (behindP stype)).map tolower = lit "unsubscribe" then
            (ac.unsubscribed (isPvariant stype) sname more).bind fun ac => .ok (ac, some cb)
          else .ok (ac, some cb)
  | .array _ => .error .message
  | _ =>
      match ac.shiftInvalid with
      | none => .ok (ac, dstcb)
      | some (cb, ac) => .ok (ac, some cb)

/-- The callback for a reply: what is in `cb` of `redisProcessCallbacks` before and after. -/
def takeCallback (reply : Reply) (cb : Option Callback) :
    Except AsyncAbort (AsyncContext × Option Callback) :=
  match ac.shiftReplies with
  | some (next, ac) => .ok (ac, some next)
  | none => if ac.subscribed then ac.getSubscribeCallback reply cb else .error .notSubscribed

/-- `redisGetReply`, and whether it returns `REDIS_OK`. -/
def getReply (machine : Machine) : Except AsyncAbort (AsyncContext × Option Reply × Bool) :=
  match ac.reader.GetReply machine with
  | .error why => .error (.reader why)
  | .ok (r, some p, _) =>
      match readObject r.heap 9 p with
      | none => .error .outside
      | some reply => .ok ({ ac with reader := r }, some reply, true)
  | .ok (r, none, true) => .ok ({ ac with reader := r }, none, true)
  | .ok (r, none, false) =>
      .ok ({ ac with reader := r, err := some (.protocol r.error) }, none, false)

/-- The loop of `redisProcessCallbacks`, with what is in `cb`. -/
def processFrom : Nat → AsyncContext → Option Callback → Except AsyncAbort AsyncContext
  | 0, _, _ => .error .hangs
  | fuel + 1, ac, cb =>
      (ac.getReply host.machine).bind fun
      | (ac, none, true) =>
          if ac.disconnecting && ac.obuf.isEmpty then ac.asyncDisconnect host else .ok ac
      | (ac, none, false) => ac.asyncDisconnect host
      | (ac, some reply, _) =>
          (ac.takeCallback reply cb).bind fun
          | (_, none) => .error .uninitialised
          | (ac, some cb) =>
              (ac.runCallback host cb (some reply)).bind fun ac =>
                if cb.fn.isSome && ac.freeing then ac.asyncFree host
                else processFrom fuel ac (some cb)

/-- `redisProcessCallbacks`. -/
def processCallbacks : Except AsyncAbort AsyncContext :=
  processFrom host (ac.reader.len + 2) ac none

end AsyncContext

/-- What `read` returns: the bytes, `EAGAIN`, 0, or another error. -/
inductive AsyncRead where
  | data (bytes : Bytes)
  | again
  | eof
  | failed
deriving DecidableEq, Repr

/-- What `write` returns: how many bytes it has taken, `EAGAIN`, or another error. -/
inductive AsyncWrite where
  | took (n : Nat)
  | again
  | failed
deriving DecidableEq, Repr

namespace AsyncContext

variable (host : Host) (ac : AsyncContext)

/-- `redisAsyncHandleRead`. -/
def handleRead : AsyncRead → Except AsyncAbort AsyncContext
  | .data bytes =>
      match ac.reader.Feed bytes with
      | .error why => .error (.reader why)
      | .ok r => ({ ac with reader := r, reading := true }).processCallbacks host
  | .again => ({ ac with reading := true }).processCallbacks host
  | .eof => ({ ac with err := some .eof }).asyncDisconnect host
  | .failed => ({ ac with err := some .io }).asyncDisconnect host

def written : AsyncContext :=
  { ac with
    writing := !ac.obuf.isEmpty
    reading := true
    connected := true
    ran := ac.ran ++ (if ac.connected then [] else [.connect]) }

/-- `redisAsyncHandleWrite`; with nothing to write, `write` is not called. -/
def handleWrite : AsyncWrite → Except AsyncAbort AsyncContext
  | .took n => .ok ({ ac with obuf := ac.obuf.drop n }).written
  | .again => .ok ac.written
  | .failed =>
      if ac.obuf.isEmpty then .ok ac.written
      else ({ ac with err := some .io }).asyncDisconnect host

/-- A call outside of the callbacks for replies. -/
def call : ApiCall → Except AsyncAbort AsyncContext
  | .commandArgv cb argv =>
      (ac.redisAsyncCommandArgv host.malloc cb argv).bind fun (ac, _) => .ok ac
  | .command cb format ap =>
      (ac.redisvAsyncCommand host.malloc cb format ap).bind fun (ac, _) => .ok ac
  | .disconnect => ac.redisAsyncDisconnect host
  | .free => ac.redisAsyncFree host

end AsyncContext

/-- What happens to a connection, one at a time: calls of the application, and events. -/
inductive AsyncEvent where
  | call (call : ApiCall)
  | read (r : AsyncRead)
  | write (w : AsyncWrite)

/-- A connection, how it has failed, and the bytes that have gone out and come in. -/
structure AsyncRun where
  ac : AsyncContext
  aborted : Option AsyncAbort
  sent : Bytes
  received : Bytes

namespace AsyncRun

variable (host : Host)

def init : AsyncRun := ⟨.connect, none, [], []⟩

def outcome (ac : AsyncContext) : AsyncEvent → Except AsyncAbort AsyncContext
  | .call c => ac.call host c
  | .read r => ac.handleRead host r
  | .write w => ac.handleWrite host w

def came : AsyncEvent → Bytes
  | .read (.data bytes) => bytes
  | _ => []

def went (obuf : Bytes) : AsyncEvent → Bytes
  | .write (.took n) => obuf.take n
  | _ => []

/-- libevent calls for events that have been added. -/
def Enabled (ac : AsyncContext) : AsyncEvent → Prop
  | .call _ => True
  | .read _ => ac.reading = true
  | .write _ => ac.writing = true

instance (ac : AsyncContext) (e : AsyncEvent) : Decidable (Enabled ac e) := by
  cases e <;> unfold Enabled <;> infer_instance

def step (s : AsyncRun) (e : AsyncEvent) : Option AsyncRun :=
  if s.aborted.isNone ∧ s.ac.released = false ∧ Enabled s.ac e then
    some
      { ac := match outcome host s.ac e with
          | .ok ac => ac
          | .error _ => s.ac
        aborted := match outcome host s.ac e with
          | .ok _ => none
          | .error why => some why
        sent := s.sent ++ went s.ac.obuf e
        received := s.received ++ came e }
  else none

end AsyncRun

/-- A connection in the hands of an application. -/
def redisAsync (host : Host) : Transition AsyncRun AsyncEvent where
  init := .init
  step := AsyncRun.step host

end MmsSvr.Hiredis
