import MmsSvr.Lib.Memory
import MmsSvr.ReadLoop

/-!
`yylibevent.cpp`: the callbacks of the loop thread, with the pointers they keep.

An `fd_state` and its two events are objects with addresses, which `malloc` may hand out
again once they are free.  Whoever goes through an address finds the object there or
ends in a fault.
-/

namespace MmsSvr

open Lib

abbrev Addr := Nat

abbrev EventAddr := Nat

/-- `fd_state`, and the number of the accept it was made for. -/
structure FdObject where
  /-- Whether `libevent` is set. -/
  libevent : Bool
  writebuffer : Bytes
  readEvent : EventAddr
  writeEvent : EventAddr
  listenPort : UInt32
  conn : Nat
deriving DecidableEq, Repr

/-- `writebuffer.size()`, once it has become an `int`. -/
def FdObject.sz (st : FdObject) : Int := intWord 32 st.writebuffer.length

/-- The callbacks that get an `fd_state`. -/
inductive Callback where
  | doRead
  | doWrite
deriving DecidableEq, Repr

/-- An `event`: the arguments of `event_new`, and whether it has been added. -/
structure EventObject where
  fd : Fd
  callback : Callback
  arg : Addr
  added : Bool
deriving DecidableEq, Repr

/-- What becomes of connections.  `fd_close` and `closesocket` get a descriptor; the number
is that of the connection whose socket has the descriptor at this time. -/
inductive ConnEvent where
  | accepted (fd : Fd) (conn : Nat)
  | fdClose (fd : Fd) (conn : Option Nat)
  | closeSocket (fd : Fd) (conn : Option Nat)
  | freed (conn : Nat)
deriving DecidableEq, Repr

inductive MemFault where
  | useAfterFree
  | doubleFree
deriving DecidableEq, Repr

/-- `YYLibEvent`, the memory it has allocated, and what libevent and the kernel know. -/
structure YYLibEvent where
  /-- `hash_map_unlock<int, fd_state*>`, its base class. -/
  fdMap : StateMap Fd Addr
  heap : Addr → Option FdObject
  events : EventAddr → Option EventObject
  /-- The events whose callbacks are due in this pass of the loop. -/
  active : List EventAddr
  /-- The open sockets that `accept` has returned. -/
  sockets : Fd → Option Nat
  /-- The arguments of `data_receive`. -/
  received : List (Fd × Bytes × UInt32)
  accepts : Nat
  log : List ConnEvent

namespace YYLibEvent

def init : YYLibEvent :=
  { fdMap := .empty, heap := fun _ => none, events := fun _ => none, active := [],
    sockets := fun _ => none, received := [], accepts := 0, log := [] }

variable (s : YYLibEvent)

section Memory

def deref (a : Addr) : Except MemFault FdObject :=
  match s.heap a with
  | none => .error .useAfterFree
  | some st => .ok st

def setState (a : Addr) (st : FdObject) : YYLibEvent :=
  { s with heap := Function.update s.heap a (some st) }

def deleteState (a : Addr) : Except MemFault YYLibEvent :=
  match s.heap a with
  | none => .error .doubleFree
  | some st =>
      .ok { s with heap := Function.update s.heap a none, log := s.log ++ [.freed st.conn] }

def eventNew (h : EventAddr) (e : EventObject) : YYLibEvent :=
  { s with events := Function.update s.events h (some e) }

def eventAdd (h : EventAddr) : Except MemFault YYLibEvent :=
  match s.events h with
  | none => .error .useAfterFree
  | some e => .ok { s with events := Function.update s.events h (some { e with added := true }) }

/-- `event_del`: a callback that is due is cancelled. -/
def eventDel (h : EventAddr) : Except MemFault YYLibEvent :=
  match s.events h with
  | none => .error .useAfterFree
  | some e =>
      .ok { s with
        events := Function.update s.events h (some { e with added := false })
        active := s.active.filter (· ≠ h) }

def eventFree (h : EventAddr) : Except MemFault YYLibEvent :=
  match s.events h with
  | none => .error .doubleFree
  | some _ =>
      .ok { s with
        events := Function.update s.events h none
        active := s.active.filter (· ≠ h) }

def closeSocket (fd : Fd) : YYLibEvent :=
  { s with
    sockets := Function.update s.sockets fd none
    log := s.log ++ [.closeSocket fd (s.sockets fd)] }

/-- `ILibEvent::fd_close`, which does not come back to `YYLibEvent`. -/
def callFdClose (fd : Fd) : YYLibEvent :=
  { s with log := s.log ++ [.fdClose fd (s.sockets fd)] }

end Memory

/-- `alloc_fd_state`, when `malloc` and `event_new` return these addresses. -/
def allocFdState (fd : Fd) (port : UInt32) (a : Addr) (readEvent writeEvent : EventAddr) :
    YYLibEvent :=
  let s := s.setState a ⟨true, [], readEvent, writeEvent, port, s.accepts⟩
  let s := s.eventNew readEvent ⟨fd, .doRead, a, false⟩
  let s := s.eventNew writeEvent ⟨fd, .doWrite, a, false⟩
  { s with fdMap := s.fdMap.addState fd a }

def freeFdState (fd : Fd) (a : Addr) : Except MemFault YYLibEvent := do
  let state ← s.deref a
  let s := s.callFdClose fd
  let s := { s with fdMap := s.fdMap.delState fd }
  let s ← s.eventFree state.readEvent
  let s ← s.eventFree state.writeEvent
  let s := s.closeSocket fd
  s.deleteState a

/-- The loop of `do_read`; every turn looks at `write_event`. -/
def readTurns (fd : Fd) (a : Addr) (readbuffer : Option Bytes) :
    List Chunk → RecvStop → Except MemFault YYLibEvent
  | chunk :: chunks, stop => do
      let _ ← s.deref a
      readTurns fd a (some (readbuffer.getD [] ++ chunk.1)) chunks stop
  | [], .again => do
      let state ← s.deref a
      match readbuffer with
      | none => .ok s
      | some data => .ok { s with received := s.received ++ [(fd, data, state.listenPort)] }
  | [], _ => do
      let _ ← s.deref a
      s.freeFdState fd a

def doRead (fd : Fd) (a : Addr) (call : ReadCall) : Except MemFault YYLibEvent := do
  let state ← s.deref a
  if state.libevent then s.readTurns fd a none call.chunks call.stop else .ok s

def doWrite (fd : Fd) (a : Addr) (result : SendResult) : Except MemFault YYLibEvent := do
  let state ← s.deref a
  let sz := state.sz
  if state.libevent = false then .ok s
  else if sz ≤ 0 then s.eventDel state.writeEvent
  else
    match result with
    | .again => .ok s
    | .failed => s.freeFdState fd a
    | .sent 0 => s.freeFdState fd a
    | .sent n =>
        if n = sz then (s.setState a { state with writebuffer := [] }).eventDel state.writeEvent
        else .ok (s.setState a { state with writebuffer := state.writebuffer.drop sz.toNat })

/-- `do_accept`, after `accept` has returned a descriptor. -/
def doAccept (fd : Fd) (port : UInt32) (a : Addr) (readEvent writeEvent : EventAddr) :
    Except MemFault YYLibEvent := do
  let s := s.allocFdState fd port a readEvent writeEvent
  let state ← s.deref a
  s.eventAdd state.readEvent

/-- `queue_receive`, with the item it has popped. -/
def queueReceive (item : QueueItem) : Except MemFault YYLibEvent :=
  match s.fdMap.getState item.fd with
  | none => .ok s
  | some a => do
      let state ← s.deref a
      if item.buf = [] then
        if state.libevent then s.freeFdState item.fd a else .ok s
      else
        (s.setState a { state with writebuffer := state.writebuffer ++ item.buf }).eventAdd
          state.writeEvent

def acceptSocket (fd : Fd) : YYLibEvent :=
  { s with
    sockets := Function.update s.sockets fd (some s.accepts)
    log := s.log ++ [.accepted fd s.accepts] }

/-- The callback of an event that is due, with the results of its system calls. -/
def runCallback (h : EventAddr) (call : ReadCall) (result : SendResult) :
    Except MemFault YYLibEvent :=
  match s.events h with
  | none => .error .useAfterFree
  | some e =>
      let s := { s with active := s.active.filter (· ≠ h) }
      match e.callback with
      | .doRead => s.doRead e.fd e.arg call
      | .doWrite => s.doWrite e.fd e.arg result

end YYLibEvent

inductive LoopAction where
  /-- `do_accept`, with the addresses that its allocations return; without a descriptor
  when `accept` fails. -/
  | accept (fd : Option Fd) (port : UInt32) (a : Addr) (readEvent writeEvent : EventAddr)
  /-- libevent finds a descriptor ready. -/
  | ready (h : EventAddr)
  | callback (h : EventAddr) (call : ReadCall) (result : SendResult)
  | queue (item : QueueItem)
deriving DecidableEq, Repr

namespace YYLibEvent

/-- A step of the loop thread; the value `none` is a step that cannot be taken.  `accept`
returns no descriptor that is still open, and memory that is in use is not allocated. -/
def act (s : YYLibEvent) : LoopAction → Option (Except MemFault YYLibEvent)
  | .accept none _ _ _ _ => some (.ok s)
  | .accept (some fd) port a readEvent writeEvent =>
      if s.sockets fd = none ∧ s.heap a = none ∧ s.events readEvent = none ∧
          s.events writeEvent = none ∧ readEvent ≠ writeEvent then
        some (((s.acceptSocket fd).doAccept fd port a readEvent writeEvent).map fun s =>
          { s with accepts := s.accepts + 1 })
      else none
  | .ready h =>
      match s.events h with
      | none => none
      | some e =>
          if e.added ∧ h ∉ s.active then some (.ok { s with active := s.active ++ [h] }) else none
  | .callback h call result =>
      if h ∈ s.active then some (s.runCallback h call result) else none
  | .queue item => some (s.queueReceive item)

def step (s : YYLibEvent) (a : LoopAction) : Option YYLibEvent :=
  (s.act a).bind Except.toOption

end YYLibEvent

/-- The loop thread, from before its first connection. -/
def loopThread : Transition YYLibEvent LoopAction where
  init := YYLibEvent.init
  step := YYLibEvent.step

end MmsSvr
