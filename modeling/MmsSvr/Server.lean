import MmsSvr.Protocol
import MmsSvr.StateMap

/-!
The state of `MmsServer`: the sessions, the two indexes over them, and what the
server has handed to the event loop.

Sessions are shared pointers in the source.  Here they live in a heap and both
indexes hold their addresses, so that two lookups can be asked whether they give
the same session.
-/

namespace MmsSvr

open YYSSL

abbrev Fd := Nat

/-- The address of an `Item_data`: the number of the login that created it. -/
abbrev Ptr := Nat

structure ItemData where
  fd : Fd
  readbuffer : Option Bytes
  yyID : UInt32
  uid : UInt32
  account : Bytes
  pwd : Bytes
  loginTime : UInt32
  channelID : UInt32
  subChannelID : UInt32
  url : Bytes
  shellClientFd : Fd
  aes : YYAES
  token : Bytes
  rsaStr : Bytes
  rsa : YYRSA
deriving DecidableEq, Repr

namespace ItemData

def init : ItemData :=
  { fd := 0, readbuffer := none, yyID := 0, uid := 0, account := [], pwd := [],
    loginTime := 0, channelID := 0, subChannelID := 0, url := [], shellClientFd := 0,
    aes := YYAES.init, token := [], rsaStr := [], rsa := YYRSA.init }

def isConnectShellClient (s : ItemData) : Bool := s.shellClientFd != 0

end ItemData

/-- A buffer pushed to the event loop: bytes to send on `fd`, or, when it is empty,
the request to close `fd`. -/
structure QueueItem where
  fd : Fd
  buf : Bytes
deriving DecidableEq, Repr

/-- A shell client started for a session, with its command line. -/
structure Launch where
  yyID : UInt32
  paramt : Bytes
deriving DecidableEq, Repr

structure Server where
  /-- `hash_map_lock<int, Item_data_ptr>`, the base class of `MmsServer`. -/
  fdIndex : StateMap Fd Ptr
  /-- `_userData`. -/
  userData : StateMap UInt32 Ptr
  heap : Ptr → ItemData
  /-- Everything given to `data_send` and `closefd`, oldest first. -/
  sent : List QueueItem
  launched : List Launch
  /-- How many logins have consulted the clock, the random source and MySQL. -/
  logins : Nat

/-- The MySQL object of a worker: whether `_sql` is there, and the `mms_whitelist_uid`
column of the table.  Only a failed `mysql_init` leaves `_sql` NULL; it stays set when
`Connect` fails and when the connection is lost. -/
structure Mysql where
  sql : Bool
  whitelist : List UInt32
deriving DecidableEq, Repr

/-- What a login reads from outside: `GetTickCount()`, `GenAESKey()` and MySQL.  No worker
passes a null pointer for its MySQL object. -/
structure Reading where
  tick : UInt32
  aesKey : Bytes
  mysql : Option Mysql
deriving DecidableEq, Repr

/-- The environment of the server, with the readings of successive logins. -/
structure ServerEnv extends Env where
  port : UInt32
  mangport : UInt32
  readings : Nat → Reading

/-- A server whose workers have their MySQL objects, and an empty whitelist. -/
instance : Inhabited ServerEnv where
  default :=
    { toEnv := default, port := 6789, mangport := 6790,
      readings := fun _ => ⟨0, List.replicate 32 0, some ⟨true, []⟩⟩ }

/-- One access of a handler to what the threads share.  A handler is the list of
its accesses in the order of the source. -/
inductive Effect where
  /-- Assignments to fields of the session at `p`. -/
  | assign (p : Ptr) (f : ItemData → ItemData)
  | addState (fd : Fd) (p : Ptr)
  | delState (fd : Fd)
  | userAdd (yyID : UInt32) (p : Ptr)
  | userDel (yyID : UInt32)
  /-- `data_send`. -/
  | dataSend (item : QueueItem)
  | execute (l : Launch)

namespace Server

def init : Server :=
  { fdIndex := .empty, userData := .empty, heap := fun _ => ItemData.init,
    sent := [], launched := [], logins := 0 }

def apply (srv : Server) : Effect → Server
  | .assign p f => { srv with heap := Function.update srv.heap p (f (srv.heap p)) }
  | .addState fd p => { srv with fdIndex := srv.fdIndex.addState fd p }
  | .delState fd => { srv with fdIndex := srv.fdIndex.delState fd }
  | .userAdd yyID p => { srv with userData := srv.userData.addState yyID p }
  | .userDel yyID => { srv with userData := srv.userData.delState yyID }
  | .dataSend item => { srv with sent := srv.sent ++ [item] }
  | .execute l => { srv with launched := srv.launched ++ [l] }

/-- A handler that is not interrupted. -/
def perform (srv : Server) (effects : List Effect) : Server := effects.foldl apply srv

@[simp]
theorem perform_nil (srv : Server) : srv.perform [] = srv := rfl

@[simp]
theorem perform_cons (srv : Server) (e : Effect) (es : List Effect) :
    srv.perform (e :: es) = (srv.apply e).perform es := rfl

@[simp]
theorem perform_append (srv : Server) (es fs : List Effect) :
    srv.perform (es ++ fs) = (srv.perform es).perform fs := by
  rw [perform, List.foldl_append]
  rfl

end Server

/-- `closefd`: an empty buffer. -/
def closefd (fd : Fd) : List Effect := [.dataSend ⟨fd, []⟩]

def sendCmd (ssl : OpenSSL) (fd : Fd) (cmd : YYJ) : List Effect :=
  match YYmmsJson.formatCmd ssl cmd with
  | none => []
  | some str => if str = [] then [] else [.dataSend ⟨fd, str⟩]

/-- Effects that only hand buffers to the event loop. -/
def IsOutput (es : List Effect) : Prop := ∀ e ∈ es, ∃ item, e = .dataSend item

theorem closefd_isOutput (fd : Fd) : IsOutput (closefd fd) := by
  simp [IsOutput, closefd]

theorem sendCmd_isOutput {ssl : OpenSSL} (fd : Fd) (cmd : YYJ) : IsOutput (sendCmd ssl fd cmd) := by
  unfold sendCmd IsOutput
  split
  · simp
  · split <;> simp

namespace Server

theorem perform_of_isOutput (srv : Server) {es : List Effect} (h : IsOutput es) :
    ∃ items, srv.perform es = { srv with sent := srv.sent ++ items } := by
  induction es generalizing srv with
  | nil => exact ⟨[], by simp⟩
  | cons e es ih =>
      obtain ⟨item, rfl⟩ := h e (by simp)
      have hes : IsOutput es := fun e' he' => h e' (by simp [he'])
      obtain ⟨items, hitems⟩ := ih (srv.apply (.dataSend item)) hes
      refine ⟨item :: items, ?_⟩
      rw [perform_cons, hitems]
      simp [apply]

section Fields

variable (srv : Server) {ssl : OpenSSL} (fd : Fd) (cmd : YYJ)

@[simp]
theorem perform_closefd :
    srv.perform (closefd fd) = { srv with sent := srv.sent ++ [⟨fd, []⟩] } := rfl

@[simp]
theorem perform_sendCmd_fdIndex : (srv.perform (sendCmd ssl fd cmd)).fdIndex = srv.fdIndex := by
  obtain ⟨items, h⟩ := srv.perform_of_isOutput (sendCmd_isOutput fd cmd)
  rw [h]

@[simp]
theorem perform_sendCmd_userData : (srv.perform (sendCmd ssl fd cmd)).userData = srv.userData := by
  obtain ⟨items, h⟩ := srv.perform_of_isOutput (sendCmd_isOutput fd cmd)
  rw [h]

@[simp]
theorem perform_sendCmd_heap : (srv.perform (sendCmd ssl fd cmd)).heap = srv.heap := by
  obtain ⟨items, h⟩ := srv.perform_of_isOutput (sendCmd_isOutput fd cmd)
  rw [h]

@[simp]
theorem perform_sendCmd_logins : (srv.perform (sendCmd ssl fd cmd)).logins = srv.logins := by
  obtain ⟨items, h⟩ := srv.perform_of_isOutput (sendCmd_isOutput fd cmd)
  rw [h]

end Fields

end Server

end MmsSvr
