import MmsSvr.Bytes

/-!
`YYRedis`: the connection to redis, and the callbacks of hiredis that set and clear it.
-/

namespace MmsSvr

structure YYRedis where
  /-- `_c` is not NULL. -/
  c : Bool
  /-- `_base` is not NULL. -/
  base : Bool
  connecting : Bool
  delayConnectTime : UInt32
  delayDisconnect : UInt32
deriving DecidableEq, Repr

structure ConnectCall where
  /-- `_c->c.flags & (REDIS_DISCONNECTING | REDIS_FREEING)`. -/
  closing : Bool
  /-- What `GetTickCount` returns for the test of the delay, and for the stamp. -/
  tested : UInt32
  stamped : UInt32
  /-- `redisAsyncConnect` returns a context without an error. -/
  started : Bool
deriving DecidableEq, Repr

namespace YYRedis

def new : YYRedis :=
  { c := false, base := false, connecting := false, delayConnectTime := 0, delayDisconnect := 0 }

variable (redis : YYRedis) (call : ConnectCall)

def Init (delayConnectTime : UInt32) : YYRedis :=
  { redis with base := true, delayConnectTime := delayConnectTime }

/-- The first test of `Connect`. -/
def Busy : Prop := redis.connecting ∨ redis.c ∧ call.closing

def TooEarly : Prop :=
  redis.delayDisconnect ≠ 0 ∧ call.tested - redis.delayDisconnect < redis.delayConnectTime

instance : Decidable (redis.Busy call) := inferInstanceAs (Decidable (_ ∨ _))

instance : Decidable (redis.TooEarly call) := inferInstanceAs (Decidable (_ ∧ _))

def Attempts : Prop := ¬ redis.Busy call ∧ ¬ redis.TooEarly call

instance : Decidable (redis.Attempts call) := inferInstanceAs (Decidable (_ ∧ _))

def Connect : YYRedis × Bool :=
  if redis.Busy call then (redis, true)
  else if redis.TooEarly call then (redis, false)
  else
    let redis := { redis with delayDisconnect := call.stamped }
    if call.started then ({ redis with connecting := true }, true) else (redis, false)

/-- `connectCallback`; `ok` if the status is `REDIS_OK`. -/
def connectCallback (ok : Bool) : YYRedis :=
  if ok then { redis with c := true, connecting := false } else { redis with connecting := false }

def disconnectCallback (tick : UInt32) : YYRedis :=
  { redis with c := false, delayDisconnect := tick }

def Close : YYRedis := { redis with base := false }

variable {redis call}

theorem Connect_of_attempts (h : redis.Attempts call) : (redis.Connect call).1 =
    { redis with
        delayDisconnect := call.stamped
        connecting := call.started || redis.connecting } := by
  obtain ⟨hbusy, hearly⟩ := h
  rw [Connect, if_neg hbusy, if_neg hearly]
  cases call.started <;> rfl

theorem Connect_of_not_attempts (h : ¬ redis.Attempts call) : (redis.Connect call).1 = redis := by
  rw [Connect]
  split
  · rfl
  · rename_i hbusy
    split
    · rfl
    · rename_i hearly
      exact absurd ⟨hbusy, hearly⟩ h

end YYRedis

end MmsSvr
