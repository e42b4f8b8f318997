import MmsSvr.Server

/-!
`yylibevent.cpp`: what the event loop keeps for an accepted connection.
-/

namespace MmsSvr

/-- `fd_state`, with three fields that the source has no need for: which accept made
the connection, and the bytes that have gone into the buffer and into the socket. -/
structure FdState where
  listenPort : UInt32
  writebuffer : Bytes
  /-- Whether `write_event` has been added. -/
  writeAdded : Bool
  conn : Nat
  appended : Bytes
  accepted : Bytes
deriving DecidableEq, Repr

/-- What `send` returns: it would have to wait, it fails, or it takes `n` bytes. -/
inductive SendResult where
  | again
  | failed
  | sent (n : Nat)
deriving DecidableEq, Repr

namespace FdState

/-- `alloc_fd_state`. -/
def alloc (listenPort : UInt32) (conn : Nat) : FdState :=
  { listenPort := listenPort, writebuffer := [], writeAdded := false, conn := conn,
    appended := [], accepted := [] }

def append (st : FdState) (buf : Bytes) : FdState :=
  { st with
    writebuffer := st.writebuffer ++ buf
    writeAdded := true
    appended := st.appended ++ buf }

/-- `do_write`, on a buffer whose size fits an `int`; the value `none` is a connection that
is freed.  When `send` takes a part of the buffer, all of it is read away. -/
def doWrite (st : FdState) (result : SendResult) : Option FdState :=
  let sz := st.writebuffer.length
  if sz = 0 then some { st with writeAdded := false }
  else
    match result with
    | .again => some st
    | .failed => none
    | .sent 0 => none
    | .sent n =>
        let st := { st with accepted := st.accepted ++ st.writebuffer.take n }
        if n = sz then some { st with writebuffer := [], writeAdded := false }
        else some { st with writebuffer := st.writebuffer.drop sz }

theorem doWrite_sent {st : FdState} {n : Nat} (hn : 0 < n) :
    st.doWrite (.sent n) =
      if st.writebuffer.length = 0 then some { st with writeAdded := false }
      else if n = st.writebuffer.length then
        some { st with
          accepted := st.accepted ++ st.writebuffer.take n
          writebuffer := []
          writeAdded := false }
      else
        some { st with
          accepted := st.accepted ++ st.writebuffer.take n
          writebuffer := st.writebuffer.drop st.writebuffer.length } := by
  cases n with
  | zero => omega
  | succ n => rfl

theorem doWrite_same {st st' : FdState} {result : SendResult} (h : st.doWrite result = some st') :
    st'.listenPort = st.listenPort ∧ st'.conn = st.conn ∧ st'.appended = st.appended := by
  simp only [doWrite] at h
  split at h
  · rw [Option.some.injEq] at h
    rw [← h]
    exact ⟨rfl, rfl, rfl⟩
  · split at h
    · rw [Option.some.injEq] at h
      rw [h]
      exact ⟨rfl, rfl, rfl⟩
    · simp at h
    · simp at h
    · split at h <;>
        · rw [Option.some.injEq] at h
          rw [← h]
          exact ⟨rfl, rfl, rfl⟩

/-- A result that `send` can return for this buffer. -/
def CanSend (st : FdState) : SendResult → Prop
  | .sent n => n ≤ st.writebuffer.length
  | _ => True

instance (st : FdState) (result : SendResult) : Decidable (st.CanSend result) :=
  match result with
  | .again => inferInstanceAs (Decidable True)
  | .failed => inferInstanceAs (Decidable True)
  | .sent n => inferInstanceAs (Decidable (n ≤ st.writebuffer.length))

end FdState

end MmsSvr
