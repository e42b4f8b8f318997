import MmsSvr.Lib.Mailbox
import MmsSvr.Lib.Transition
import MmsSvr.YYRedis

/-!
`AsyncSendCommand` and `queue_receive`: commands for redis that other threads queue, and the
wake-ups that the event loop takes them out for.
-/

namespace MmsSvr

open Lib

/-- `QueueItem` of `yyredis.h`. -/
structure RedisItem where
  format : Bytes
  privdata : Nat
deriving DecidableEq, Repr

def RedisItem.new : RedisItem := ⟨[], 0⟩

/-- How far a thread is in `AsyncSendCommand`. -/
inductive RedisSender where
  | idle
  /-- `_c` was not NULL. -/
  | checked
  /-- The command is in the queue, and `flag_send` is next. -/
  | pushed
deriving DecidableEq, Repr

structure RedisQueue where
  redis : YYRedis
  queue : List RedisItem
  senders : List RedisSender
  /-- The wake-ups that `flag_send` has sent and the event loop has not taken. -/
  wakeups : Nat
  /-- The commands of the calls that return `REDIS_OK`, in the order of the queue. -/
  accepted : List RedisItem
  /-- What each wake-up has handed to `redisvAsyncCommand`. -/
  woken : List (Option RedisItem)
deriving DecidableEq, Repr

inductive RedisAction where
  /-- `AsyncSendCommand` up to the test of `_c`. -/
  | check (i : Nat) (call : ConnectCall)
  /-- On with this text, up to the end of `push`. -/
  | push (i : Nat) (token : RedisItem)
  | flagSend (i : Nat)
  /-- `queue_receive` for `REDIS_EVENT_FLAG`; `ok` if `redisvAsyncCommand` returns `REDIS_OK`. -/
  | queueReceive (ok : Bool) (call : ConnectCall)
  | connect (call : ConnectCall)
  | connectCallback (ok : Bool)
  | disconnectCallback (tick : UInt32)
  | close
deriving DecidableEq, Repr

namespace RedisQueue

def init (threads : Nat) (delayConnectTime : UInt32) : RedisQueue :=
  { redis := YYRedis.new.Init delayConnectTime, queue := [],
    senders := List.replicate threads .idle, wakeups := 0, accepted := [], woken := [] }

variable (s : RedisQueue)

/-- `Connect`, if there is a `_base`.  No overload takes the `_base` that `AsyncSendCommand`
passes; it is read as a call without it. -/
def reconnect (call : ConnectCall) : RedisQueue :=
  if s.redis.base then { s with redis := (s.redis.Connect call).1 } else s

def queueReceive (ok : Bool) (call : ConnectCall) : RedisQueue :=
  if s.redis.c && s.redis.base then
    let token := s.queue.headD .new
    let s := { s with queue := s.queue.tail, woken := s.woken ++ [some token] }
    if ok then s else s.reconnect call
  else ({ s with woken := s.woken ++ [none] } : RedisQueue).reconnect call

def step : RedisAction → Option RedisQueue
  | .check i call =>
      if s.senders[i]? = some .idle then
        some (if s.redis.c then { s with senders := s.senders.set i .checked }
          else s.reconnect call)
      else none
  | .push i token =>
      if s.senders[i]? = some .checked then
        -- an empty text is `REDIS_ERR_EOF`
        some (if token.format = [] then { s with senders := s.senders.set i .idle }
          else { s with
            queue := s.queue ++ [token]
            accepted := s.accepted ++ [token]
            senders := s.senders.set i .pushed })
      else none
  | .flagSend i =>
      if s.senders[i]? = some .pushed then
        some { s with wakeups := s.wakeups + 1, senders := s.senders.set i .idle }
      else none
  | .queueReceive ok call =>
      if 0 < s.wakeups then some (({ s with wakeups := s.wakeups - 1 } : RedisQueue).queueReceive
        ok call)
      else none
  | .connect call => some { s with redis := (s.redis.Connect call).1 }
  | .connectCallback ok => some { s with redis := s.redis.connectCallback ok }
  | .disconnectCallback tick => some { s with redis := s.redis.disconnectCallback tick }
  | .close => some { s with redis := s.redis.Close }

end RedisQueue

def redisQueue (threads : Nat) (delayConnectTime : UInt32) :
    Transition RedisQueue RedisAction where
  init := .init threads delayConnectTime
  step := RedisQueue.step

namespace RedisQueue

variable {s t : RedisQueue}

/-- Every wake-up has issued the command that is its turn, and none is left without one. -/
structure Paired (s : RedisQueue) : Prop where
  drained : s.wakeups = 0 → .pushed ∉ s.senders → s.queue = []
  inOrder : s.woken = (s.accepted.take s.woken.length).map some

/-- A wake-up finds redis connected. -/
def Delivers (s : RedisQueue) : RedisAction → Prop
  | .queueReceive _ _ => s.redis.c ∧ s.redis.base
  | _ => True

instance (s : RedisQueue) (action : RedisAction) : Decidable (s.Delivers action) := by
  cases action <;> unfold Delivers <;> infer_instance

structure Mirrors (s : RedisQueue) (m : Mailbox RedisItem) : Prop where
  queue : m.queue = s.queue
  wakeups : m.wakeups = s.wakeups
  owed : m.owed = s.senders.count .pushed
  taken : m.taken = 0
  entered : m.entered = s.accepted
  left : m.left.map some = s.woken

variable {m : Mailbox RedisItem}

theorem Mirrors.paired (h : s.Mirrors m) : s.Paired := by
  have hbalanced := m.balanced
  constructor
  · intro hwakeups hpushed
    rw [h.queue, h.wakeups, h.owed, h.taken, hwakeups, List.count_eq_zero_of_not_mem hpushed]
      at hbalanced
    exact List.eq_nil_of_length_eq_zero hbalanced
  · rw [← h.left, ← h.entered, ← m.ordered, List.length_map, List.take_left' rfl]

theorem Mirrors.reconnected (h : s.Mirrors m) (redis : YYRedis) :
    Mirrors { s with redis := redis } m :=
  ⟨h.queue, h.wakeups, h.owed, h.taken, h.entered, h.left⟩

theorem Mirrors.reconnect (h : s.Mirrors m) (call : ConnectCall) :
    (s.reconnect call).Mirrors m := by
  rw [RedisQueue.reconnect]
  split
  · exact h.reconnected _
  · exact h

theorem count_set_sender {i : Nat} {old new : RedisSender} (h : s.senders[i]? = some old) :
    (s.senders.set i new).count .pushed = s.senders.count .pushed -
      (if old = .pushed then 1 else 0) + if new = .pushed then 1 else 0 := by
  obtain ⟨hi, hold⟩ := List.getElem?_eq_some_iff.mp h
  rw [List.count_set hi, hold]
  cases old <;> cases new <;> rfl

theorem mirrors_check {i : Nat} (h : s.Mirrors m) (hi : s.senders[i]? = some .idle) :
    Mirrors { s with senders := s.senders.set i .checked } m := by
  refine ⟨h.queue, h.wakeups, ?_, h.taken, h.entered, h.left⟩
  rw [count_set_sender hi]
  exact h.owed

theorem mirrors_push {i : Nat} (h : s.Mirrors m) (hi : s.senders[i]? = some .checked)
    (token : RedisItem) :
    Mirrors { s with
      queue := s.queue ++ [token]
      accepted := s.accepted ++ [token]
      senders := s.senders.set i .pushed } (m.put token) := by
  refine ⟨?_, h.wakeups, ?_, h.taken, ?_, h.left⟩
  · rw [Mailbox.put_queue, h.queue]
  · rw [count_set_sender hi, Mailbox.put_owed, h.owed]
    rfl
  · rw [Mailbox.put_entered, h.entered]

theorem mirrors_flagSend {i : Nat} (h : s.Mirrors m) (hi : s.senders[i]? = some .pushed) :
    ∃ m', Mirrors { s with wakeups := s.wakeups + 1, senders := s.senders.set i .idle } m' := by
  have howed : 0 < m.owed := by
    rw [h.owed, List.count_pos_iff]
    exact List.mem_of_getElem? hi
  refine ⟨m.send howed, h.queue, ?_, ?_, h.taken, h.entered, h.left⟩
  · rw [Mailbox.send_wakeups, h.wakeups]
  · rw [count_set_sender hi, Mailbox.send_owed, h.owed]
    rfl

theorem mirrors_queueReceive (h : s.Mirrors m) (hwakeups : 0 < s.wakeups)
    (hc : s.redis.c ∧ s.redis.base) (ok : Bool) (call : ConnectCall) :
    ∃ m', (({ s with wakeups := s.wakeups - 1 } : RedisQueue).queueReceive ok call).Mirrors m' := by
  rw [← h.wakeups] at hwakeups
  have htaken : 0 < (m.take hwakeups).taken := Nat.succ_pos _
  obtain ⟨token, rest, hqueue⟩ := (m.take hwakeups).exists_of_taken htaken
  have hqueue' : s.queue = token :: rest := by
    rw [← h.queue, ← hqueue, Mailbox.take_queue]
  have hgot : Mirrors { s with
      wakeups := s.wakeups - 1, queue := s.queue.tail
      woken := s.woken ++ [some (s.queue.headD .new)] } ((m.take hwakeups).get hqueue htaken) := by
    refine ⟨?_, ?_, h.owed, ?_, h.entered, ?_⟩
    · rw [Mailbox.get_queue, hqueue']
      rfl
    · rw [Mailbox.get_wakeups, Mailbox.take_wakeups, h.wakeups]
    · rw [Mailbox.get_taken, Mailbox.take_taken, h.taken]
    · rw [Mailbox.get_left, Mailbox.take_left, List.map_append, h.left, hqueue']
      rfl
  rw [queueReceive, if_pos (by rw [hc.1, hc.2]; rfl)]
  refine ⟨(m.take hwakeups).get hqueue htaken, ?_⟩
  cases ok with
  | true => exact hgot
  | false => exact hgot.reconnect call

theorem step_mirrors {action : RedisAction} (h : ∃ m, s.Mirrors m) (hdelivers : s.Delivers action)
    (hstep : s.step action = some t) : ∃ m, t.Mirrors m := by
  obtain ⟨m, h⟩ := h
  cases action with
  | check i call =>
      rw [step, Option.ite_none_right_eq_some, Option.some.injEq] at hstep
      obtain ⟨hi, rfl⟩ := hstep
      refine ⟨m, ?_⟩
      split
      · exact mirrors_check h hi
      · exact h.reconnect call
  | push i token =>
      rw [step, Option.ite_none_right_eq_some, Option.some.injEq] at hstep
      obtain ⟨hi, rfl⟩ := hstep
      split
      · refine ⟨m, h.queue, h.wakeups, ?_, h.taken, h.entered, h.left⟩
        rw [count_set_sender hi]
        exact h.owed
      · exact ⟨_, mirrors_push h hi token⟩
  | flagSend i =>
      rw [step, Option.ite_none_right_eq_some, Option.some.injEq] at hstep
      obtain ⟨hi, rfl⟩ := hstep
      exact mirrors_flagSend h hi
  | queueReceive ok call =>
      rw [step, Option.ite_none_right_eq_some, Option.some.injEq] at hstep
      obtain ⟨hwakeups, rfl⟩ := hstep
      exact mirrors_queueReceive h hwakeups hdelivers ok call
  | connect call =>
      cases hstep
      exact ⟨m, h.reconnected _⟩
  | connectCallback ok =>
      cases hstep
      exact ⟨m, h.reconnected _⟩
  | disconnectCallback tick =>
      cases hstep
      exact ⟨m, h.reconnected _⟩
  | close =>
      cases hstep
      exact ⟨m, h.reconnected _⟩

theorem reconnect_woken (s : RedisQueue) (call : ConnectCall) :
    (s.reconnect call).woken = s.woken := by
  rw [reconnect]
  split <;> rfl

theorem not_paired_of_lost {ok : Bool} {call : ConnectCall} (hc : ¬ (s.redis.c ∧ s.redis.base)) :
    ¬ (s.queueReceive ok call).Paired := by
  intro hpaired
  have hbranch : (s.redis.c && s.redis.base) = false := by
    rw [← Bool.not_eq_true, Bool.and_eq_true]
    exact hc
  have hinOrder := hpaired.inOrder
  rw [queueReceive, hbranch, if_neg Bool.false_ne_true, reconnect_woken] at hinOrder
  have hmem : none ∈ s.woken ++ [none] := List.mem_append_right _ (List.mem_singleton_self _)
  dsimp only at hinOrder
  rw [hinOrder] at hmem
  obtain ⟨token, -, htoken⟩ := List.mem_map.mp hmem
  cases htoken

theorem init_mirrors (threads : Nat) (delayConnectTime : UInt32) :
    (init threads delayConnectTime).Mirrors Mailbox.empty := by
  refine ⟨rfl, rfl, ?_, rfl, rfl, rfl⟩
  rw [init, List.count_replicate]
  rfl

/-- Commands and wake-ups stay paired in exactly the runs in which every wake-up finds redis
connected. -/
theorem paired_iff (threads : Nat) (delayConnectTime : UInt32) {actions : List RedisAction}
    {s : RedisQueue} (hrun : (redisQueue threads delayConnectTime).run actions
      (redisQueue threads delayConnectTime).init = some s) :
    (redisQueue threads delayConnectTime).Always Paired actions
        (redisQueue threads delayConnectTime).init ↔
      (redisQueue threads delayConnectTime).Guarded Delivers actions
        (redisQueue threads delayConnectTime).init := by
  have hholds : ∀ s : RedisQueue, (∃ m, s.Mirrors m) → s.Paired := fun _ ⟨_, hm⟩ => hm.paired
  have hbreak : ∀ (s : RedisQueue) action t, (∃ m, s.Mirrors m) → ¬ s.Delivers action →
      s.step action = some t → ¬ t.Paired := by
    intro s action t _ hlost hstep
    cases action with
    | queueReceive ok call =>
        rw [step, Option.ite_none_right_eq_some, Option.some.injEq] at hstep
        obtain ⟨-, rfl⟩ := hstep
        exact not_paired_of_lost hlost
    | check i call => exact absurd trivial hlost
    | push i token => exact absurd trivial hlost
    | flagSend i => exact absurd trivial hlost
    | connect call => exact absurd trivial hlost
    | connectCallback ok => exact absurd trivial hlost
    | disconnectCallback tick => exact absurd trivial hlost
    | close => exact absurd trivial hlost
  exact Transition.always_iff_guarded_of hholds
    (fun s action t hs hdelivers hstep => step_mirrors hs hdelivers hstep) hbreak
    ⟨_, init_mirrors threads delayConnectTime⟩ hrun

/-- What a call of `Connect` finds at this tick, when redis is there. -/
def connectAt (tick : UInt32) : ConnectCall := ⟨false, tick, tick, true⟩

def lrange : RedisItem := ⟨lit "LRANGE MMS 0 -1", 0⟩

def lpush : RedisItem := ⟨lit "LPUSH MMS 1", 0⟩

/-- Two threads whose commands and wake-ups overlap. -/
def sampleRun : List RedisAction :=
  [.connect (connectAt 1), .connectCallback true, .check 0 (connectAt 2), .check 1 (connectAt 2),
    .push 1 lpush, .push 0 lrange, .flagSend 0, .queueReceive true (connectAt 3),
    .check 0 (connectAt 4), .push 0 lpush, .flagSend 1, .flagSend 0,
    .queueReceive true (connectAt 5), .queueReceive true (connectAt 6)]

theorem paired_sample :
    ∃ s, (redisQueue 2 10000).run sampleRun (redisQueue 2 10000).init = some s ∧
      s.woken = [some lpush, some lrange, some lpush] ∧
      (redisQueue 2 10000).Always Paired sampleRun (redisQueue 2 10000).init := by
  have hview : ((redisQueue 2 10000).run sampleRun (redisQueue 2 10000).init).map woken =
      some [some lpush, some lrange, some lpush] := by decide +kernel
  have hguarded : (redisQueue 2 10000).Guarded Delivers sampleRun (redisQueue 2 10000).init := by
    decide +kernel
  obtain ⟨s, hrun, hwoken⟩ := Option.map_eq_some_iff.mp hview
  exact ⟨s, hrun, hwoken, (paired_iff 2 10000 hrun).mpr hguarded⟩

/-- The connection is lost between push and wake-up. -/
def lostRun : List RedisAction :=
  [.connect (connectAt 1), .connectCallback true, .check 0 (connectAt 2), .push 0 lrange,
    .disconnectCallback 3, .flagSend 0, .queueReceive true (connectAt 20000),
    .connectCallback true, .check 0 (connectAt 20001), .push 0 lpush, .flagSend 0,
    .queueReceive true (connectAt 20002)]

/-- The second wake-up issues the first command, and the second command stays behind. -/
theorem not_paired :
    ((redisQueue 1 10000).run lostRun (redisQueue 1 10000).init).map
        (fun s => (s.wakeups, s.queue, s.woken)) = some (0, [lpush], [none, some lrange]) ∧
      ¬ (redisQueue 1 10000).Always Paired lostRun (redisQueue 1 10000).init := by
  refine ⟨by decide +kernel, ?_⟩
  intro hall
  have hdrained := (hall.of_run rfl).drained rfl (by decide)
  cases hdrained

end RedisQueue

end MmsSvr
