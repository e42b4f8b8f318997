import MmsSvr.System
import MmsSvr.Lib.Mailbox

/-!
`data_send`, `msg_send` and `do_queue_read`: how the event loop learns of the buffers that
other threads have queued.

A thread that has pushed a buffer writes the flag, as an integer, to a socket of which the
event loop reads one byte at a time.
-/

namespace MmsSvr

open Lib

inductive EventFlag where
  /-- `WRITE_EVENT_FLAG`. -/
  | write
  /-- `REDIS_EVENT_FLAG`. -/
  | redis
deriving DecidableEq, Repr

def EventFlag.char : EventFlag → UInt8
  | .write => 1
  | .redis => 2

/-- The bytes of a flag that has become an `int`. -/
def EventFlag.bytes (bigEndian : Bool) (flag : EventFlag) : Bytes :=
  if bigEndian then [0, 0, 0, flag.char] else [flag.char, 0, 0, 0]

/-- A thread outside `msg_send`, or inside with these bytes left to be written. -/
inductive Sender where
  | idle
  | sending (rest : Bytes)
deriving DecidableEq, Repr

/-- The objects that `AddQueueEvent` has been called for. -/
inductive QueueEvent where
  | libevent
  | redis
deriving DecidableEq, Repr

def queueback : List (UInt8 × QueueEvent) :=
  [(EventFlag.write.char, .libevent), (EventFlag.redis.char, .redis)]

structure MsgQueue where
  /-- The queue of `WRITE_EVENT_FLAG` in `_bufqueue_map`. -/
  bufqueue : List QueueItem
  socket : Bytes
  threads : List Sender
  /-- The byte that `do_queue_read` has received, while it runs. -/
  flag : Option UInt8
  pushed : List QueueItem
  dispatched : List QueueItem
deriving DecidableEq, Repr

inductive MsgAction where
  /-- `data_send`, up to `msg_send`; `closefd` sends a buffer without bytes. -/
  | dataSend (i : Nat) (item : QueueItem)
  /-- `flag_send`, for redis. -/
  | flagSend (i : Nat)
  /-- The next byte of a thread gets into the socket. -/
  | write (i : Nat)
  /-- `recv` in `do_queue_read`. -/
  | read
  /-- The rest of `do_queue_read`. -/
  | receive
deriving DecidableEq, Repr

namespace MsgQueue

def init (threads : Nat) : MsgQueue :=
  { bufqueue := [], socket := [], threads := List.replicate threads .idle, flag := none,
    pushed := [], dispatched := [] }

/-- `queue_receive`: the first buffer is taken out of the queue. -/
def queueReceive (s : MsgQueue) (flag : UInt8) : MsgQueue :=
  if flag ≠ EventFlag.write.char then s
  else
    match s.bufqueue with
    | [] => s
    | item :: rest => { s with bufqueue := rest, dispatched := s.dispatched ++ [item] }

/-- The loop over `_queueback`, for a byte that is positive as a `char`. -/
def receive (s : MsgQueue) (flag : UInt8) : MsgQueue :=
  if 0 < flag ∧ flag < 128 then
    match queueback.lookup flag with
    | some .libevent => s.queueReceive flag
    | _ => s
  else s

def step (bigEndian : Bool) (s : MsgQueue) : MsgAction → Option MsgQueue
  | .dataSend i item =>
      if s.threads[i]? = some .idle then
        some { s with
          bufqueue := s.bufqueue ++ [item]
          pushed := s.pushed ++ [item]
          threads := s.threads.set i (.sending (EventFlag.write.bytes bigEndian)) }
      else none
  | .flagSend i =>
      if s.threads[i]? = some .idle then
        some { s with threads := s.threads.set i (.sending (EventFlag.redis.bytes bigEndian)) }
      else none
  | .write i =>
      match s.threads[i]? with
      | some (.sending (b :: rest)) =>
          some { s with
            socket := s.socket ++ [b]
            threads := s.threads.set i (if rest = [] then .idle else .sending rest) }
      | _ => none
  | .read =>
      match s.flag, s.socket with
      | none, b :: rest => some { s with socket := rest, flag := some b }
      | _, _ => none
  | .receive =>
      match s.flag with
      | some flag => some { s.receive flag with flag := none }
      | none => none

/-- The steps, each with what enables it. -/
inductive Stepped (bigEndian : Bool) (s : MsgQueue) : MsgAction → MsgQueue → Prop where
  | dataSend (i : Nat) (item : QueueItem) (hidle : s.threads[i]? = some .idle) :
      Stepped bigEndian s (.dataSend i item) { s with
        bufqueue := s.bufqueue ++ [item]
        pushed := s.pushed ++ [item]
        threads := s.threads.set i (.sending (EventFlag.write.bytes bigEndian)) }
  | flagSend (i : Nat) (hidle : s.threads[i]? = some .idle) :
      Stepped bigEndian s (.flagSend i)
        { s with threads := s.threads.set i (.sending (EventFlag.redis.bytes bigEndian)) }
  | write (i : Nat) (b : UInt8) (rest : Bytes)
      (hsending : s.threads[i]? = some (.sending (b :: rest))) :
      Stepped bigEndian s (.write i) { s with
        socket := s.socket ++ [b]
        threads := s.threads.set i (if rest = [] then .idle else .sending rest) }
  | read (b : UInt8) (rest : Bytes) (hflag : s.flag = none) (hsocket : s.socket = b :: rest) :
      Stepped bigEndian s .read { s with socket := rest, flag := some b }
  | receive (flag : UInt8) (hflag : s.flag = some flag) :
      Stepped bigEndian s .receive { s.receive flag with flag := none }

theorem step_cases {bigEndian : Bool} {s t : MsgQueue} {a : MsgAction}
    (h : step bigEndian s a = some t) : Stepped bigEndian s a t := by
  cases a with
  | dataSend i item =>
      simp only [step, Option.ite_none_right_eq_some, Option.some.injEq] at h
      obtain ⟨hidle, rfl⟩ := h
      exact .dataSend i item hidle
  | flagSend i =>
      simp only [step, Option.ite_none_right_eq_some, Option.some.injEq] at h
      obtain ⟨hidle, rfl⟩ := h
      exact .flagSend i hidle
  | write i =>
      simp only [step] at h
      split at h
      · rename_i b rest hsending
        rw [Option.some.injEq] at h
        subst h
        exact .write i b rest hsending
      · simp at h
  | read =>
      simp only [step] at h
      split at h
      · rename_i b rest hflag hsocket
        rw [Option.some.injEq] at h
        subst h
        exact .read b rest hflag hsocket
      · simp at h
  | receive =>
      simp only [step] at h
      split at h
      · rename_i flag hflag
        rw [Option.some.injEq] at h
        subst h
        exact .receive flag hflag
      · simp at h

end MsgQueue

def msgQueue (bigEndian : Bool) (threads : Nat) : Transition MsgQueue MsgAction where
  init := MsgQueue.init threads
  step := MsgQueue.step bigEndian

section Match

/-- The byte of `WRITE_EVENT_FLAG` that is not zero has not been written. -/
def Sender.owes : Sender → Bool
  | .idle => false
  | .sending rest => rest.contains EventFlag.write.char

/-- The wake-ups are as many as the buffers. -/
structure WakeUpsMatch (bigEndian : Bool) (s : MsgQueue) : Prop where
  matched : s.flag = none →
    s.socket.count EventFlag.write.char + s.threads.countP Sender.owes = s.bufqueue.length
  dispatches : s.flag = some EventFlag.write.char → ∃ item rest, s.bufqueue = item :: rest ∧
    MsgQueue.step bigEndian s .receive =
      some { s with flag := none, bufqueue := rest, dispatched := s.dispatched ++ [item] }
  unstranded : s.flag = none → s.bufqueue ≠ [] →
    EventFlag.write.char ∈ s.socket ∨ ∃ sender ∈ s.threads, sender.owes = true
  order : ∀ fd, s.dispatched.filter (fun item => item.fd == fd) ++
    s.bufqueue.filter (fun item => item.fd == fd) = s.pushed.filter fun item => item.fd == fd

/-- What `m` is to the queue. -/
structure Matches (s : MsgQueue) (m : Mailbox QueueItem) : Prop where
  queue : m.queue = s.bufqueue
  wakeups : m.wakeups = s.socket.count EventFlag.write.char
  owed : m.owed = s.threads.countP Sender.owes
  taken : m.taken = if s.flag = some EventFlag.write.char then 1 else 0
  entered : m.entered = s.pushed
  left : m.left = s.dispatched

structure QueueHeld (s : MsgQueue) : Prop where
  once : ∀ rest, .sending rest ∈ s.threads → rest.count EventFlag.write.char ≤ 1
  shown : ∃ m, Matches s m

variable {bigEndian : Bool} {s t : MsgQueue}

theorem count_bytes (bigEndian : Bool) (flag : EventFlag) :
    (flag.bytes bigEndian).count EventFlag.write.char = if flag = .write then 1 else 0 := by
  cases bigEndian <;> cases flag <;> rfl

theorem threads_send {i : Nat} (h : s.threads[i]? = some .idle) (flag : EventFlag) :
    (s.threads.set i (.sending (flag.bytes bigEndian))).countP Sender.owes =
      s.threads.countP Sender.owes + if flag = .write then 1 else 0 := by
  obtain ⟨hi, hidle⟩ := List.getElem?_eq_some_iff.mp h
  rw [List.countP_set hi, hidle]
  cases bigEndian <;> cases flag <;> rfl

theorem once_set {i : Nat} {sender : Sender}
    (h : ∀ rest, .sending rest ∈ s.threads → rest.count EventFlag.write.char ≤ 1)
    (hsender : ∀ rest, sender = .sending rest → rest.count EventFlag.write.char ≤ 1) :
    ∀ rest, .sending rest ∈ s.threads.set i sender → rest.count EventFlag.write.char ≤ 1 := by
  intro rest hmem
  rcases List.mem_or_eq_of_mem_set hmem with hold | hnew
  · exact h rest hold
  · exact hsender rest hnew.symm

theorem queueHeld_send {i : Nat} {item : QueueItem} (h : QueueHeld s)
    (hidle : s.threads[i]? = some .idle) :
    QueueHeld { s with
      bufqueue := s.bufqueue ++ [item]
      pushed := s.pushed ++ [item]
      threads := s.threads.set i (.sending (EventFlag.write.bytes bigEndian)) } := by
  obtain ⟨m, hm⟩ := h.shown
  refine ⟨once_set h.once ?_, m.put item, ?_, hm.wakeups, ?_, hm.taken, ?_, hm.left⟩
  · rintro rest hrest
    rw [Sender.sending.injEq] at hrest
    rw [← hrest, count_bytes]
    decide
  · simp [hm.queue]
  · rw [threads_send hidle, if_pos rfl, ← hm.owed, Mailbox.put_owed]
  · simp [hm.entered]

theorem queueHeld_flagSend {i : Nat} (h : QueueHeld s) (hidle : s.threads[i]? = some .idle) :
    QueueHeld { s with
      threads := s.threads.set i (.sending (EventFlag.redis.bytes bigEndian)) } := by
  obtain ⟨m, hm⟩ := h.shown
  refine ⟨once_set h.once ?_, m, hm.queue, hm.wakeups, ?_, hm.taken, hm.entered, hm.left⟩
  · rintro rest hrest
    rw [Sender.sending.injEq] at hrest
    rw [← hrest, count_bytes]
    decide
  · rw [threads_send hidle, if_neg (by decide), ← hm.owed, Nat.add_zero]

theorem queueHeld_write {i : Nat} {b : UInt8} {rest : Bytes} (h : QueueHeld s)
    (hi : s.threads[i]? = some (.sending (b :: rest))) :
    QueueHeld { s with
      socket := s.socket ++ [b]
      threads := s.threads.set i (if rest = [] then .idle else .sending rest) } := by
  obtain ⟨m, hm⟩ := h.shown
  obtain ⟨hlt, hget⟩ := List.getElem?_eq_some_iff.mp hi
  have hmem : .sending (b :: rest) ∈ s.threads := by
    rw [← hget]
    exact List.getElem_mem hlt
  have hcount := h.once _ hmem
  rw [List.count_cons] at hcount
  have hsocket : (s.socket ++ [b]).count EventFlag.write.char =
      m.wakeups + if b = EventFlag.write.char then 1 else 0 := by
    rw [List.count_append, List.count_singleton, hm.wakeups]
    simp
  have howes : (if rest = [] then Sender.idle else .sending rest).owes =
      rest.contains EventFlag.write.char := by
    split
    · rename_i hnil
      rw [hnil]
      rfl
    · rfl
  have hthreads := List.countP_set (p := Sender.owes)
    (a := if rest = [] then Sender.idle else .sending rest) hlt
  rw [hget, howes, ← hm.owed] at hthreads
  have honce : ∀ rest', (if rest = [] then Sender.idle else .sending rest) = .sending rest' →
      rest'.count EventFlag.write.char ≤ 1 := by
    intro rest' hrest
    split at hrest
    · simp at hrest
    · rw [Sender.sending.injEq] at hrest
      rw [← hrest]
      omega
  refine ⟨once_set h.once honce, ?_⟩
  by_cases hb : b = EventFlag.write.char
  · -- the thread paid what it owed
    have hrest : rest.contains EventFlag.write.char = false := by
      subst hb
      simp only [BEq.rfl, if_true] at hcount
      have hzero : rest.count EventFlag.write.char = 0 := by omega
      simpa using List.count_eq_zero.mp hzero
    have howed : 0 < m.owed := by
      rw [hm.owed, List.countP_pos_iff]
      exact ⟨_, hmem, by simp [Sender.owes, hb]⟩
    refine ⟨m.send howed, hm.queue, ?_, ?_, hm.taken, hm.entered, hm.left⟩
    · rw [hsocket, if_pos hb, Mailbox.send_wakeups]
    · rw [hthreads, hrest, Mailbox.send_owed]
      simp [Sender.owes, hb]
  · refine ⟨m, hm.queue, ?_, ?_, hm.taken, hm.entered, hm.left⟩
    · rw [hsocket, if_neg hb, Nat.add_zero]
    · have hsame : Sender.owes (.sending (b :: rest)) = rest.contains EventFlag.write.char := by
        simp [Sender.owes, Ne.symm hb]
      have hle := List.boole_getElem_le_countP (p := Sender.owes) hlt
      rw [hget, hsame, ← hm.owed] at hle
      rw [hthreads, hsame]
      omega

theorem queueHeld_read {b : UInt8} {rest : Bytes} (h : QueueHeld s) (hflag : s.flag = none)
    (hsocket : s.socket = b :: rest) : QueueHeld { s with socket := rest, flag := some b } := by
  obtain ⟨m, hm⟩ := h.shown
  refine ⟨h.once, ?_⟩
  have hwakeups := hm.wakeups
  rw [hsocket, List.count_cons] at hwakeups
  have htaken : m.taken = 0 := by rw [hm.taken, hflag]; rfl
  by_cases hb : b = EventFlag.write.char
  · rw [if_pos (by simp [hb])] at hwakeups
    refine ⟨m.take (by omega), hm.queue, ?_, hm.owed, ?_, hm.entered, hm.left⟩
    · change m.wakeups - 1 = rest.count EventFlag.write.char
      omega
    · simp [htaken, hb]
  · rw [if_neg (by simpa using hb), Nat.add_zero] at hwakeups
    refine ⟨m, hm.queue, hwakeups, hm.owed, ?_, hm.entered, hm.left⟩
    simp [htaken, hb]

/-- Only the byte of `WRITE_EVENT_FLAG` gets a buffer out of the queue. -/
theorem receive_eq (s : MsgQueue) (flag : UInt8) :
    s.receive flag = if flag = EventFlag.write.char then s.queueReceive flag else s := by
  by_cases hwrite : flag = EventFlag.write.char
  · rw [if_pos hwrite, hwrite]
    rfl
  · rw [if_neg hwrite, MsgQueue.receive]
    split
    · split
      · rw [MsgQueue.queueReceive, if_pos hwrite]
      · rfl
    · rfl

theorem step_receive {item : QueueItem} {rest : List QueueItem}
    (hflag : s.flag = some EventFlag.write.char) (hqueue : s.bufqueue = item :: rest) :
    MsgQueue.step bigEndian s .receive =
      some { s with flag := none, bufqueue := rest, dispatched := s.dispatched ++ [item] } := by
  simp [MsgQueue.step, hflag, receive_eq, MsgQueue.queueReceive, hqueue]

theorem queueHeld_receive {flag : UInt8} (h : QueueHeld s) (hflag : s.flag = some flag) :
    QueueHeld { s.receive flag with flag := none } := by
  obtain ⟨m, hm⟩ := h.shown
  rw [receive_eq]
  by_cases hwrite : flag = EventFlag.write.char
  · subst hwrite
    have htaken : m.taken = 1 := by rw [hm.taken, if_pos hflag]
    obtain ⟨item, rest, hqueue⟩ := m.exists_of_taken (by omega)
    have hbufqueue : s.bufqueue = item :: rest := hm.queue ▸ hqueue
    rw [if_pos rfl, MsgQueue.queueReceive, if_neg (by simp), hbufqueue]
    refine ⟨h.once, m.get hqueue (by omega), rfl, hm.wakeups, hm.owed, ?_, hm.entered, ?_⟩
    · simp [htaken]
    · simp [hm.left]
  · have hother : ¬ s.flag = some EventFlag.write.char := by
      rw [hflag, Option.some.injEq]
      exact hwrite
    rw [if_neg hwrite]
    refine ⟨h.once, m, hm.queue, hm.wakeups, hm.owed, ?_, hm.entered, hm.left⟩
    rw [hm.taken, if_neg hother]
    rfl

theorem queueHeld_step {a : MsgAction} (h : QueueHeld s)
    (hstep : MsgQueue.step bigEndian s a = some t) : QueueHeld t := by
  cases MsgQueue.step_cases hstep with
  | dataSend i item hidle => exact queueHeld_send h hidle
  | flagSend i hidle => exact queueHeld_flagSend h hidle
  | write i b rest hsending => exact queueHeld_write h hsending
  | read b rest hflag hsocket => exact queueHeld_read h hflag hsocket
  | receive flag hflag => exact queueHeld_receive h hflag

theorem QueueHeld.wakeUpsMatch (h : QueueHeld s) : WakeUpsMatch bigEndian s := by
  obtain ⟨m, hm⟩ := h.shown
  have hmatched : s.flag = none →
      s.socket.count EventFlag.write.char + s.threads.countP Sender.owes = s.bufqueue.length := by
    intro hflag
    have hbalanced := m.balanced
    rw [hm.queue, hm.wakeups, hm.owed, hm.taken, hflag] at hbalanced
    exact hbalanced.symm
  refine ⟨hmatched, ?_, ?_, ?_⟩
  · intro hflag
    obtain ⟨item, rest, hqueue⟩ := m.exists_of_taken (by rw [hm.taken, if_pos hflag]; decide)
    rw [hm.queue] at hqueue
    exact ⟨item, rest, hqueue, step_receive hflag hqueue⟩
  · intro hflag hqueue
    have hpos : 0 < s.bufqueue.length := List.length_pos_of_ne_nil hqueue
    have hcount := hmatched hflag
    by_cases hsocket : EventFlag.write.char ∈ s.socket
    · exact Or.inl hsocket
    · rw [List.count_eq_zero_of_not_mem hsocket, Nat.zero_add] at hcount
      exact Or.inr (List.countP_pos_iff.mp (by rw [hcount]; exact hpos))
  · intro fd
    have hfilter := m.filter_entered fun item => item.fd == fd
    rwa [hm.left, hm.queue, hm.entered] at hfilter

/-- Whatever the byte order, and however the bytes of the threads mix, each wake-up stands
for one buffer, and the buffers are dispatched in the order in which they were pushed. -/
theorem wakeups_match (bigEndian : Bool) (threads : Nat) (s : MsgQueue)
    (h : (msgQueue bigEndian threads).Reachable (fun _ _ => True) s) :
    WakeUpsMatch bigEndian s ∧ s.dispatched ++ s.bufqueue = s.pushed := by
  have hinv : QueueHeld s := by
    refine h.invariant QueueHeld ?_ fun s a t hs _ hstep => queueHeld_step hs hstep
    refine ⟨?_, .empty, rfl, rfl, ?_, rfl, rfl, rfl⟩
    · intro rest hmem
      simp [msgQueue, MsgQueue.init] at hmem
    · simp [msgQueue, MsgQueue.init, Mailbox.empty, List.countP_replicate, Sender.owes]
  obtain ⟨m, hm⟩ := hinv.shown
  refine ⟨hinv.wakeUpsMatch, ?_⟩
  rw [← hm.left, ← hm.queue, m.ordered, hm.entered]

/-- Two threads send buffers while a third sends for redis, and their bytes mix. -/
def mixedBytes : List MsgAction :=
  [.dataSend 0 ⟨5, [1]⟩, .flagSend 2, .write 0, .write 2, .dataSend 1 ⟨5, []⟩, .write 0, .write 1,
    .read, .receive, .write 2, .write 1, .read, .receive, .read]

theorem wakeups_match_sample :
    ∃ s, (msgQueue false 3).run mixedBytes (MsgQueue.init 3) = some s ∧
      s.dispatched = [⟨5, [1]⟩] ∧ s.bufqueue = [⟨5, []⟩] ∧ WakeUpsMatch false s := by
  have hrun : ((msgQueue false 3).run mixedBytes (MsgQueue.init 3)).map (fun s =>
      (s.dispatched, s.bufqueue)) = some ([⟨5, [1]⟩], [⟨5, []⟩]) := by decide +kernel
  obtain ⟨s, hs, hview⟩ := Option.map_eq_some_iff.mp hrun
  rw [Prod.mk.injEq] at hview
  exact ⟨s, hs, hview.1, hview.2, (wakeups_match false 3 s (.of_run .init hs)).1⟩

end Match

section Refines

variable {bigEndian : Bool} {s t : MsgQueue} {a : MsgAction}

theorem bufqueue_step (hstep : MsgQueue.step bigEndian s a = some t) :
    t.bufqueue = s.bufqueue ∨ (∃ i item, a = .dataSend i item ∧ t.bufqueue = s.bufqueue ++ [item]) ∨
      ∃ item, a = .receive ∧ s.bufqueue = item :: t.bufqueue := by
  cases MsgQueue.step_cases hstep with
  | dataSend i item hidle => exact Or.inr (Or.inl ⟨i, item, rfl, rfl⟩)
  | flagSend i hidle => exact Or.inl rfl
  | write i b rest hsending => exact Or.inl rfl
  | read b rest hflag hsocket => exact Or.inl rfl
  | receive flag hflag =>
      rw [receive_eq]
      split
      · rename_i hwrite
        rw [MsgQueue.queueReceive, if_neg (not_not.mpr hwrite)]
        split
        · exact Or.inl rfl
        · rename_i item rest hqueue
          exact Or.inr (Or.inr ⟨item, rfl, hqueue⟩)
      · exact Or.inl rfl

/-- The steps of the threads do to the queue what `System` does to it: nothing, the
`dataSend` of a worker, or a `dispatch`. -/
theorem bufqueue_refines {sys : System} (hqueue : s.bufqueue = sys.bufqueue.map Posted.item)
    (hstep : MsgQueue.step bigEndian s a = some t) :
    t.bufqueue = sys.bufqueue.map Posted.item ∨
      (∃ i item, a = .dataSend i item ∧
        ∀ job, t.bufqueue = (sys.access job (.dataSend item)).bufqueue.map Posted.item) ∨
      ∃ posted rest, a = .receive ∧ sys.bufqueue = posted :: rest ∧
        t.bufqueue = rest.map Posted.item := by
  rcases bufqueue_step hstep with hsame | ⟨i, item, ha, hpush⟩ | ⟨item, ha, hpop⟩
  · exact Or.inl (hsame.trans hqueue)
  · refine Or.inr (Or.inl ⟨i, item, ha, ?_⟩)
    intro job
    simp [System.access, hpush, hqueue]
  · rw [hqueue, List.map_eq_cons_iff] at hpop
    obtain ⟨posted, rest, hsys, -, hrest⟩ := hpop
    exact Or.inr (Or.inr ⟨posted, rest, ha, hsys, hrest.symm⟩)

end Refines

end MmsSvr
