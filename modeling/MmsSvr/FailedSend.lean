import MmsSvr.WakeUps

/-!
`msg_send` when `send` fails: what becomes of the descriptor, and of the buffers whose wake-ups go
through it afterwards.
-/

namespace MmsSvr

open Lib
open Lib.Transition

structure SendOutcome where
  /-- What `send` would return for these bytes on the socket. -/
  result : Int
  /-- The byte of the flag has been written. -/
  woken : Bool
  /-- What `msg_send` returns. -/
  returned : Bool
deriving DecidableEq, Repr

/-- A call of `data_send`, from `push` on. -/
structure SendCall where
  thread : Nat
  outcome : Option SendOutcome
deriving DecidableEq, Repr

structure MsgSend where
  queue : MsgQueue
  fd : Int
  /-- The calls of `data_send`, in the order of their buffers. -/
  calls : List SendCall
deriving DecidableEq, Repr

inductive SendAction where
  /-- `data_send`, up to `msg_send`. -/
  | dataSend (i : Nat) (item : QueueItem)
  /-- `flag_send`, for redis. -/
  | flagSend (i : Nat)
  /-- `msg_send`, where `send` would return `result` on the socket. -/
  | send (i : Nat) (result : Int)
  | read
  | receive
deriving DecidableEq, Repr

namespace MsgSend

variable (bigEndian : Bool) (sv : Nat) (s : MsgSend)

def init (threads : Nat) : MsgSend := { queue := .init threads, fd := sv, calls := [] }

def sz (result : Int) : Int := if s.fd = sv then result else -1

/-- The socket and the descriptor behind `msg_send`, and what it returns. -/
def msgSend (bytes : Bytes) (result : Int) : MsgSend × Bool :=
  let sz := s.sz sv result
  let s := { s with queue.socket := s.queue.socket ++ bytes.take sz.toNat }
  if sz = 4 then (s, true)
  else if sz ≤ 0 then ({ s with fd := -1 }, true)
  else (s, true)

end MsgSend

/-- The call that this thread is in has come to its end. -/
def SendCall.close (i : Nat) (outcome : SendOutcome) (call : SendCall) : SendCall :=
  if call.thread = i ∧ call.outcome = none then { call with outcome := some outcome } else call

namespace MsgSend

variable (bigEndian : Bool) (sv : Nat) (s : MsgSend)

def sent (i : Nat) (bytes : Bytes) (result : Int) : MsgSend :=
  let r := s.msgSend sv bytes result
  { r.1 with
      queue.threads := s.queue.threads.set i .idle
      calls := s.calls.map (SendCall.close i
        ⟨result, (bytes.take (s.sz sv result).toNat).contains EventFlag.write.char, r.2⟩) }

def step : SendAction → Option MsgSend
  | .dataSend i item => (MsgQueue.step bigEndian s.queue (.dataSend i item)).map fun queue =>
      { s with queue := queue, calls := s.calls ++ [⟨i, none⟩] }
  | .flagSend i => (MsgQueue.step bigEndian s.queue (.flagSend i)).map fun queue =>
      { s with queue := queue }
  | .send i result =>
      match s.queue.threads[i]? with
      | some (.sending bytes) => if result ≤ 4 then some (s.sent sv i bytes result) else none
      | _ => none
  | .read => (MsgQueue.step bigEndian s.queue .read).map fun queue => { s with queue := queue }
  | .receive => (MsgQueue.step bigEndian s.queue .receive).map fun queue =>
      { s with queue := queue }

end MsgSend

def msgSends (bigEndian : Bool) (sv threads : Nat) : Transition MsgSend SendAction where
  init := .init sv threads
  step := MsgSend.step bigEndian sv

namespace MsgSend

def Quiet (s : MsgSend) : Prop :=
  s.queue.flag = none ∧ EventFlag.write.char ∉ s.queue.socket ∧
    ∀ thread ∈ s.queue.threads, thread = .idle

/-- Where `send` would succeed, the wake-up is written; where it would not, the buffer has been
dispatched by the time that nothing is on its way, or `msg_send` has returned false. -/
def Survives (s : MsgSend) : Prop :=
  ∀ k call outcome, s.calls[k]? = some call → call.outcome = some outcome →
    (0 < outcome.result → outcome.woken = true) ∧
    (outcome.result ≤ 0 → s.Quiet → k < s.queue.dispatched.length ∨ outcome.returned = false)

/-- `send` succeeds, and takes the byte of the flag if that is `WRITE_EVENT_FLAG`. -/
def Takes (s : MsgSend) : SendAction → Prop
  | .send i result => ∀ bytes, s.queue.threads[i]? = some (.sending bytes) →
      0 < result ∧ (EventFlag.write.char ∈ bytes →
        EventFlag.write.char ∈ bytes.take result.toNat)
  | _ => True

instance (s : MsgSend) (a : SendAction) : Decidable (s.Takes a) :=
  match a with
  | .send i result =>
      match h : s.queue.threads[i]? with
      | some (.sending bytes) => decidable_of_iff (0 < result ∧ (EventFlag.write.char ∈ bytes →
          EventFlag.write.char ∈ bytes.take result.toNat)) (by simp [Takes, h])
      | some .idle | none => isTrue (by simp [Takes, h])
  | .dataSend .. | .flagSend .. | .read | .receive => isTrue trivial

variable {bigEndian : Bool} {sv : Nat} {s t : MsgSend}

inductive Stepped (bigEndian : Bool) (sv : Nat) (s : MsgSend) : SendAction → MsgSend → Prop where
  | dataSend (i : Nat) (item : QueueItem) (hidle : s.queue.threads[i]? = some .idle) :
      Stepped bigEndian sv s (.dataSend i item) { s with
        queue.bufqueue := s.queue.bufqueue ++ [item]
        queue.pushed := s.queue.pushed ++ [item]
        queue.threads := s.queue.threads.set i (.sending (EventFlag.write.bytes bigEndian))
        calls := s.calls ++ [⟨i, none⟩] }
  | flagSend (i : Nat) (hidle : s.queue.threads[i]? = some .idle) :
      Stepped bigEndian sv s (.flagSend i) { s with
        queue.threads := s.queue.threads.set i (.sending (EventFlag.redis.bytes bigEndian)) }
  | send (i : Nat) (result : Int) (bytes : Bytes)
      (hsending : s.queue.threads[i]? = some (.sending bytes)) (hle : result ≤ 4) :
      Stepped bigEndian sv s (.send i result) (s.sent sv i bytes result)
  /-- The event loop leaves the threads as they are. -/
  | loop (action : SendAction) (queue : MsgQueue) (haction : action = .read ∨ action = .receive)
      (hthreads : queue.threads = s.queue.threads) :
      Stepped bigEndian sv s action { s with queue := queue }

theorem threads_receive (queue : MsgQueue) (flag : UInt8) :
    (queue.receive flag).threads = queue.threads := by
  rw [receive_eq]
  split
  · rw [MsgQueue.queueReceive]
    split
    · rfl
    · split <;> rfl
  · rfl

theorem step_cases {action : SendAction} (h : s.step bigEndian sv action = some t) :
    Stepped bigEndian sv s action t := by
  cases action with
  | dataSend i item =>
      obtain ⟨queue, hqueue, rfl⟩ := Option.map_eq_some_iff.mp h
      cases MsgQueue.step_cases hqueue with
      | dataSend i item hidle => exact .dataSend i item hidle
  | flagSend i =>
      obtain ⟨queue, hqueue, rfl⟩ := Option.map_eq_some_iff.mp h
      cases MsgQueue.step_cases hqueue with
      | flagSend i hidle => exact .flagSend i hidle
  | send i result =>
      rw [step] at h
      split at h
      · rename_i bytes hsending
        rw [Option.ite_none_right_eq_some, Option.some.injEq] at h
        obtain ⟨hle, rfl⟩ := h
        exact .send i result bytes hsending hle
      · cases h
  | read =>
      obtain ⟨queue, hqueue, rfl⟩ := Option.map_eq_some_iff.mp h
      refine .loop .read queue (.inl rfl) ?_
      cases MsgQueue.step_cases hqueue with
      | read b rest hflag hsocket => rfl
  | receive =>
      obtain ⟨queue, hqueue, rfl⟩ := Option.map_eq_some_iff.mp h
      refine .loop .receive queue (.inr rfl) ?_
      cases MsgQueue.step_cases hqueue with
      | receive flag hflag => exact threads_receive s.queue flag

/-- The threads that are to write a wake-up are those in a call that has not come to its end. -/
structure CallsOpen (bigEndian : Bool) (threads : Nat) (s : MsgSend) : Prop where
  count : s.queue.threads.length = threads
  flag : ∀ (i : Nat) bytes, s.queue.threads[i]? = some (.sending bytes) →
    ∃ flag : EventFlag, bytes = flag.bytes bigEndian
  opened : ∀ (i : Nat) bytes, s.queue.threads[i]? = some (.sending bytes) →
    EventFlag.write.char ∈ bytes → ∃ call ∈ s.calls, call.thread = i ∧ call.outcome = none
  sending : ∀ call ∈ s.calls, call.outcome = none →
    ∃ bytes, s.queue.threads[call.thread]? = some (.sending bytes) ∧ EventFlag.write.char ∈ bytes

/-- Every `send` so far has succeeded. -/
structure Kept (sv : Nat) (s : MsgSend) : Prop where
  fd : s.fd = sv
  woken : ∀ call ∈ s.calls, ∀ outcome, call.outcome = some outcome →
    0 < outcome.result ∧ outcome.woken = true

/-- A wake-up that should have been written has not been. -/
def Lost (s : MsgSend) : Prop :=
  ∃ call ∈ s.calls, ∃ outcome, call.outcome = some outcome ∧ 0 < outcome.result ∧
    outcome.woken = false

/-- A wake-up is lost, or every one will be. -/
def Broken (s : MsgSend) : Prop := s.fd = -1 ∨ Lost s

theorem length_bytes (bigEndian : Bool) (flag : EventFlag) :
    (flag.bytes bigEndian).length = 4 := by
  cases bigEndian <;> rfl

theorem char_bytes (bigEndian : Bool) (flag : EventFlag) :
    EventFlag.write.char ∈ flag.bytes bigEndian ↔ flag = .write := by
  cases bigEndian <;> cases flag <;> decide

theorem set_some {threads : List Sender} {i j : Nat} {sender sender' : Sender}
    (h : (threads.set i sender)[j]? = some sender') :
    (j = i ∧ sender' = sender) ∨ (j ≠ i ∧ threads[j]? = some sender') := by
  rw [List.getElem?_set] at h
  split at h
  · rename_i hij
    split at h
    · exact .inl ⟨hij.symm, (Option.some.inj h).symm⟩
    · cases h
  · rename_i hij
    exact .inr ⟨Ne.symm hij, h⟩

theorem close_some {i : Nat} {outcome outcome' : SendOutcome} {call : SendCall}
    (h : (call.close i outcome).outcome = some outcome') :
    call.outcome = some outcome' ∨
      (call.thread = i ∧ call.outcome = none ∧ outcome' = outcome) := by
  rw [SendCall.close] at h
  split at h
  · rename_i hopen
    exact .inr ⟨hopen.1, hopen.2, (Option.some.inj h).symm⟩
  · exact .inl h

theorem close_none {i : Nat} {outcome : SendOutcome} {call : SendCall}
    (h : (call.close i outcome).outcome = none) : call.outcome = none ∧ call.thread ≠ i := by
  rw [SendCall.close] at h
  split at h
  · cases h
  · rename_i hopen
    exact ⟨h, fun hthread => hopen ⟨hthread, h⟩⟩

@[simp]
theorem close_thread {i : Nat} {outcome : SendOutcome} {call : SendCall} :
    (call.close i outcome).thread = call.thread := by
  rw [SendCall.close]
  split <;> rfl

theorem close_of_some {i : Nat} {outcome outcome' : SendOutcome} {call : SendCall}
    (h : call.outcome = some outcome') : call.close i outcome = call := by
  rw [SendCall.close, if_neg]
  rw [h]
  rintro ⟨-, hnone⟩
  cases hnone

theorem sent_fd {i : Nat} {bytes : Bytes} {result : Int} :
    (s.sent sv i bytes result).fd = if s.sz sv result ≤ 0 then -1 else s.fd := by
  rw [sent, msgSend]
  split
  · rename_i hsz
    rw [hsz]
    rfl
  · split <;> rfl

theorem idle_of_none {threads : Nat} {i : Nat} (h : CallsOpen bigEndian threads s)
    (hidle : s.queue.threads[i]? = some .idle) {call : SendCall} (hcall : call ∈ s.calls)
    (hopen : call.outcome = none) : call.thread ≠ i := by
  rintro rfl
  obtain ⟨bytes, hsending, -⟩ := h.sending call hcall hopen
  rw [hidle] at hsending
  cases hsending

theorem opened_set {threads i : Nat} {sender : Sender} (h : CallsOpen bigEndian threads s)
    (hi : i < s.queue.threads.length) (hthreads : t.queue.threads = s.queue.threads.set i sender)
    (hflag : ∀ bytes, sender = .sending bytes → ∃ flag : EventFlag, bytes = flag.bytes bigEndian)
    (hopened : ∀ bytes, sender = .sending bytes → EventFlag.write.char ∈ bytes →
      ∃ call ∈ t.calls, call.thread = i ∧ call.outcome = none)
    (hothers : ∀ call ∈ s.calls, call.outcome = none → call.thread ≠ i → call ∈ t.calls)
    (hsending : ∀ call ∈ t.calls, call.outcome = none →
      (call ∈ s.calls ∧ call.thread ≠ i) ∨ (call.thread = i ∧ ∃ bytes, sender = .sending bytes ∧
        EventFlag.write.char ∈ bytes)) : CallsOpen bigEndian threads t := by
  constructor
  · rw [hthreads, List.length_set]
    exact h.count
  · intro j bytes hj
    rw [hthreads] at hj
    rcases set_some hj with ⟨-, hbytes⟩ | ⟨-, hj⟩
    · exact hflag bytes hbytes.symm
    · exact h.flag j bytes hj
  · intro j bytes hj hmem
    rw [hthreads] at hj
    rcases set_some hj with ⟨rfl, hbytes⟩ | ⟨hne, hj⟩
    · exact hopened bytes hbytes.symm hmem
    · obtain ⟨call, hcall, rfl, hnone⟩ := h.opened j bytes hj hmem
      exact ⟨call, hothers call hcall hnone hne, rfl, hnone⟩
  · intro call hcall hnone
    rw [hthreads]
    rcases hsending call hcall hnone with ⟨hold, hne⟩ | ⟨rfl, bytes, rfl, hmem⟩
    · obtain ⟨bytes, hbytes, hmem⟩ := h.sending call hold hnone
      refine ⟨bytes, ?_, hmem⟩
      rw [List.getElem?_set_ne (Ne.symm hne)]
      exact hbytes
    · exact ⟨bytes, List.getElem?_set_self hi, hmem⟩

theorem opened_step {threads : Nat} {action : SendAction} (h : CallsOpen bigEndian threads s)
    (hstep : s.step bigEndian sv action = some t) : CallsOpen bigEndian threads t := by
  cases step_cases hstep with
  | dataSend i item hidle =>
      refine opened_set h (List.getElem?_eq_some_iff.mp hidle).1 rfl ?_ ?_ ?_ ?_
      · rintro bytes hbytes
        exact ⟨.write, (Sender.sending.inj hbytes).symm⟩
      · intro bytes _ _
        exact ⟨⟨i, none⟩, List.mem_concat_self, rfl, rfl⟩
      · intro call hcall _ _
        exact List.mem_append_left _ hcall
      · intro call hcall hnone
        rcases List.mem_append.mp hcall with hcall | hcall
        · exact .inl ⟨hcall, idle_of_none h hidle hcall hnone⟩
        · rw [List.mem_singleton.mp hcall]
          exact .inr ⟨rfl, _, rfl, (char_bytes bigEndian .write).mpr rfl⟩
  | flagSend i hidle =>
      refine opened_set h (List.getElem?_eq_some_iff.mp hidle).1 rfl ?_ ?_ ?_ ?_
      · rintro bytes hbytes
        exact ⟨.redis, (Sender.sending.inj hbytes).symm⟩
      · intro bytes hbytes hmem
        rw [← Sender.sending.inj hbytes, char_bytes] at hmem
        cases hmem
      · intro call hcall _ _
        exact hcall
      · intro call hcall hnone
        exact .inl ⟨hcall, idle_of_none h hidle hcall hnone⟩
  | send i result bytes hsending hle =>
      refine opened_set h (List.getElem?_eq_some_iff.mp hsending).1 rfl ?_ ?_ ?_ ?_
      · intro bytes' hidle
        cases hidle
      · intro bytes' hidle
        cases hidle
      · intro call hcall _ hne
        refine List.mem_map.mpr ⟨call, hcall, ?_⟩
        rw [SendCall.close, if_neg]
        rintro ⟨hi, -⟩
        exact hne hi
      · intro call' hcall' hnone
        obtain ⟨call, hcall, rfl⟩ := List.mem_map.mp hcall'
        obtain ⟨hopen, hne⟩ := close_none hnone
        rw [SendCall.close, if_neg (fun hi => hne hi.1)]
        exact .inl ⟨hcall, hne⟩
  | loop action queue haction hthreads =>
      obtain ⟨hcount, hflag, hopened, hsending⟩ := h
      rw [← hthreads] at hcount hflag hopened hsending
      exact ⟨hcount, hflag, hopened, hsending⟩

theorem kept_step {threads : Nat} {action : SendAction} (h : Kept sv s)
    (hopened : CallsOpen bigEndian threads s) (hguard : Takes s action)
    (hstep : s.step bigEndian sv action = some t) : Kept sv t := by
  cases step_cases hstep with
  | dataSend i item hidle =>
      refine ⟨h.fd, ?_⟩
      intro call hcall outcome houtcome
      rcases List.mem_append.mp hcall with hcall | hcall
      · exact h.woken call hcall outcome houtcome
      · rw [List.mem_singleton.mp hcall] at houtcome
        cases houtcome
  | flagSend i hidle => exact ⟨h.fd, h.woken⟩
  | loop action queue haction hthreads => exact ⟨h.fd, h.woken⟩
  | send i result bytes hsending hle =>
      obtain ⟨hpos, htakes⟩ := hguard bytes hsending
      have hsz : s.sz sv result = result := if_pos h.fd
      constructor
      · rw [sent_fd, hsz, if_neg (by omega)]
        exact h.fd
      · intro call' hcall' outcome houtcome
        obtain ⟨call, hcall, rfl⟩ := List.mem_map.mp hcall'
        rcases close_some houtcome with hold | ⟨rfl, hnone, rfl⟩
        · exact h.woken call hcall outcome hold
        · refine ⟨hpos, ?_⟩
          obtain ⟨bytes', hsending', hmem⟩ := hopened.sending call hcall hnone
          rw [hsending, Option.some.injEq, Sender.sending.injEq] at hsending'
          rw [hsz, List.contains_iff_mem]
          exact htakes (hsending' ▸ hmem)

theorem broken_step {action : SendAction} (h : Broken s)
    (hstep : s.step bigEndian sv action = some t) : Broken t := by
  rcases h with hfd | ⟨call, hcall, outcome, houtcome, hlost⟩
  · refine .inl ?_
    cases step_cases hstep with
    | dataSend i item hidle => exact hfd
    | flagSend i hidle => exact hfd
    | loop action queue haction hthreads => exact hfd
    | send i result bytes hsending hle =>
        rw [sent_fd, hfd]
        split <;> rfl
  · refine .inr ⟨call, ?_, outcome, houtcome, hlost⟩
    cases step_cases hstep with
    | dataSend i item hidle => exact List.mem_append_left _ hcall
    | flagSend i hidle => exact hcall
    | loop action queue haction hthreads => exact hcall
    | send i result bytes hsending hle =>
        exact List.mem_map.mpr ⟨call, hcall, close_of_some houtcome⟩

theorem lost_of_sent {i : Nat} {bytes : Bytes} {result : Int} {call : SendCall}
    (hcall : call ∈ s.calls) (hthread : call.thread = i) (hnone : call.outcome = none)
    (hpos : 0 < result)
    (hleft : EventFlag.write.char ∉ bytes.take (s.sz sv result).toNat) :
    Lost (s.sent sv i bytes result) := by
  refine ⟨_, List.mem_map.mpr ⟨call, hcall, rfl⟩, ?_⟩
  rw [SendCall.close, if_pos ⟨hthread, hnone⟩]
  refine ⟨_, rfl, hpos, ?_⟩
  rw [← Bool.not_eq_true, List.contains_iff_mem]
  exact hleft

theorem broken_of_not_takes {threads : Nat} {action : SendAction} (h : Kept sv s)
    (hopened : CallsOpen bigEndian threads s) (hguard : ¬ Takes s action)
    (hstep : s.step bigEndian sv action = some t) : Broken t := by
  cases step_cases hstep with
  | dataSend i item hidle => exact absurd trivial hguard
  | flagSend i hidle => exact absurd trivial hguard
  | loop action queue haction hthreads =>
      rcases haction with rfl | rfl
      · exact absurd trivial hguard
      · exact absurd trivial hguard
  | send i result bytes hsending hle =>
      have hsz : s.sz sv result = result := if_pos h.fd
      by_cases hpos : 0 < result
      · have hlost : EventFlag.write.char ∈ bytes ∧
            EventFlag.write.char ∉ bytes.take result.toNat := by
          rw [← Classical.not_imp]
          intro himp
          apply hguard
          intro bytes' hsending'
          rw [hsending, Option.some.injEq, Sender.sending.injEq] at hsending'
          rw [← hsending']
          exact ⟨hpos, himp⟩
        obtain ⟨call, hcall, hthread, hnone⟩ := hopened.opened i bytes hsending hlost.1
        refine .inr (lost_of_sent hcall hthread hnone hpos ?_)
        rw [hsz]
        exact hlost.2
      · refine .inl ?_
        rw [sent_fd, hsz, if_pos (by omega)]

theorem Kept.survives (h : Kept sv s) : Survives s := by
  intro k call outcome hcall houtcome
  obtain ⟨hpos, hwoken⟩ := h.woken call (List.mem_of_getElem? hcall) outcome houtcome
  exact ⟨fun _ => hwoken, fun hle => by omega⟩

theorem takes_four {threads : Nat} (h : CallsOpen bigEndian threads s) (i : Nat) :
    Takes s (.send i 4) := by
  intro bytes hsending
  obtain ⟨flag, rfl⟩ := h.flag i bytes hsending
  refine ⟨by decide, ?_⟩
  intro hmem
  rw [List.take_of_length_le]
  · exact hmem
  · rw [length_bytes]
    decide

theorem not_survives_of_lost (h : Lost s) : ¬ Survives s := by
  obtain ⟨call, hcall, outcome, houtcome, hpos, hlost⟩ := h
  intro h
  obtain ⟨k, hk⟩ := List.mem_iff_getElem?.mp hcall
  have hwoken := (h k call outcome hk houtcome).1 hpos
  rw [hlost] at hwoken
  cases hwoken

/-- A run goes on from here in which every `send` would succeed, and which does not survive. -/
def Dooms (bigEndian : Bool) (sv threads : Nat) (s : MsgSend) : Prop :=
  ∃ bs t, (msgSends bigEndian sv threads).Guarded Takes bs s ∧
    (msgSends bigEndian sv threads).run bs s = some t ∧ ¬ Survives t

theorem dooms_cons {threads : Nat} {action : SendAction} (hguard : Takes s action)
    (hstep : s.step bigEndian sv action = some t) (h : Dooms bigEndian sv threads t) :
    Dooms bigEndian sv threads s := by
  obtain ⟨bs, u, hbs, hrun, hnot⟩ := h
  refine ⟨action :: bs, u, ⟨hguard, ?_⟩, run_cons.mpr ⟨t, hstep, hrun⟩, hnot⟩
  intro t' ht'
  rw [← Option.some.inj (hstep.symm.trans ht')]
  exact hbs

theorem dooms_of_lost {threads : Nat} (h : Lost s) : Dooms bigEndian sv threads s :=
  ⟨[], s, trivial, rfl, not_survives_of_lost h⟩

theorem step_send {i : Nat} {bytes : Bytes}
    (hsending : s.queue.threads[i]? = some (.sending bytes)) :
    s.step bigEndian sv (.send i 4) = some (s.sent sv i bytes 4) := by
  rw [step, hsending]
  rfl

theorem dooms_of_call {threads : Nat} {call : SendCall} (h : CallsOpen bigEndian threads s)
    (hfd : s.fd = -1) (hcall : call ∈ s.calls) (hnone : call.outcome = none) :
    Dooms bigEndian sv threads s := by
  obtain ⟨bytes, hsending, -⟩ := h.sending call hcall hnone
  apply dooms_cons (takes_four h call.thread) (step_send hsending)
  apply dooms_of_lost
  apply lost_of_sent hcall rfl hnone (by decide)
  have hsz : s.sz sv 4 = -1 := by
    rw [sz, if_neg]
    rw [hfd]
    omega
  rw [hsz]
  exact List.not_mem_nil

theorem dooms_of_idle {threads : Nat} (h : CallsOpen bigEndian threads s) (hfd : s.fd = -1)
    (hidle : s.queue.threads[0]? = some .idle) : Dooms bigEndian sv threads s := by
  let item : QueueItem := ⟨0, []⟩
  obtain ⟨t, ht⟩ : ∃ t, s.step bigEndian sv (.dataSend 0 item) = some t := by
    rw [step, MsgQueue.step, if_pos hidle]
    exact ⟨_, rfl⟩
  have hguard : Takes s (.dataSend 0 item) := trivial
  apply dooms_cons hguard ht
  have hopened := opened_step h ht
  cases step_cases ht with
  | dataSend i item hidle => exact dooms_of_call hopened hfd List.mem_concat_self rfl
  | loop action queue haction => rcases haction with haction | haction <;> cases haction

theorem dooms_of_broken {threads : Nat} (h : CallsOpen bigEndian threads s) (hpos : 0 < threads)
    (hbroken : Broken s) : Dooms bigEndian sv threads s := by
  rcases hbroken with hfd | hlost
  · obtain ⟨sender, hsender⟩ : ∃ sender, s.queue.threads[0]? = some sender :=
      ⟨_, List.getElem?_eq_getElem (by rw [h.count]; exact hpos)⟩
    cases sender with
    | idle => exact dooms_of_idle h hfd hsender
    | sending bytes =>
        have hstep : s.step bigEndian sv (.send 0 4) = some (s.sent sv 0 bytes 4) :=
          step_send hsender
        apply dooms_cons (takes_four h 0) hstep
        apply dooms_of_idle (opened_step h hstep)
        · rw [sent_fd, hfd]
          split <;> rfl
        · exact List.getElem?_set_self (List.getElem?_eq_some_iff.mp hsender).1
  · exact dooms_of_lost hlost

theorem opened_init (threads : Nat) :
    CallsOpen bigEndian threads (msgSends bigEndian sv threads).init := by
  have hidle : ∀ (i : Nat) bytes,
      (List.replicate threads Sender.idle)[i]? ≠ some (.sending bytes) := by
    intro i bytes h
    cases List.eq_of_mem_replicate (List.mem_of_getElem? h)
  constructor
  · exact List.length_replicate
  · intro i bytes h
    exact absurd h (hidle i bytes)
  · intro i bytes h
    exact absurd h (hidle i bytes)
  · intro call hcall
    cases hcall

theorem kept_init (threads : Nat) : Kept sv (msgSends bigEndian sv threads).init := by
  refine ⟨rfl, ?_⟩
  intro call hcall
  cases hcall

end MsgSend

open MsgSend

/-- The wake-ups survive, and go on to survive as long as every `send` succeeds, exactly in the
runs in which every `send` has succeeded. -/
theorem survives_iff (bigEndian : Bool) (sv threads : Nat) (hpos : 0 < threads)
    (as : List SendAction) (s : MsgSend)
    (hrun : (msgSends bigEndian sv threads).run as (.init sv threads) = some s) :
    (∀ bs t, (msgSends bigEndian sv threads).Guarded Takes bs s →
      (msgSends bigEndian sv threads).run bs s = some t →
        (msgSends bigEndian sv threads).Always Survives (as ++ bs) (.init sv threads)) ↔
      (msgSends bigEndian sv threads).Guarded Takes as (.init sv threads) := by
  let T := msgSends bigEndian sv threads
  have hkeep : ∀ s a t, Kept sv s ∧ CallsOpen bigEndian threads s → Takes s a →
      T.step s a = some t → Kept sv t ∧ CallsOpen bigEndian threads t := by
    rintro s a t ⟨hkept, hopened⟩ hguard hstep
    exact ⟨kept_step hkept hopened hguard hstep, opened_step hopened hstep⟩
  have hinit : Kept sv T.init ∧ CallsOpen bigEndian threads T.init :=
    ⟨kept_init threads, opened_init threads⟩
  constructor
  · intro hall
    let broken : MsgSend → Prop := fun s => Broken s ∧ CallsOpen bigEndian threads s
    have hcases : T.Guarded Takes as T.init ∨ broken s := by
      refine guarded_or_broken hkeep ?_ ?_ hinit hrun
      · rintro s a t ⟨hkept, hopened⟩ hguard hstep
        exact ⟨broken_of_not_takes hkept hopened hguard hstep, opened_step hopened hstep⟩
      · rintro s a t ⟨hbroken, hopened⟩ hstep
        exact ⟨broken_step hbroken hstep, opened_step hopened hstep⟩
    rcases hcases with hguarded | ⟨hbroken, hopened⟩
    · exact hguarded
    · obtain ⟨bs, t, hbs, ht, hnot⟩ := dooms_of_broken hopened hpos hbroken
      have hrun' : T.run (as ++ bs) T.init = some t := by
        rw [run_append]
        exact Option.bind_eq_some_iff.mpr ⟨s, hrun, ht⟩
      exact absurd ((hall bs t hbs ht).of_run hrun') hnot
  · intro h bs t hbs ht
    have hguarded : T.Guarded Takes (as ++ bs) T.init := by
      apply h.append
      intro s' hs'
      rw [← Option.some.inj (hrun.symm.trans hs')]
      exact hbs
    exact (hguarded.always hkeep hinit).imp fun _ hinv => hinv.1.survives

/-- Two threads send buffers, one of them also the flag for redis; `send` takes half of the first
flag. -/
def sentByTwo : List SendAction :=
  [.dataSend 0 ⟨5, [1]⟩, .flagSend 1, .send 1 4, .send 0 2, .read, .receive, .dataSend 1 ⟨6, [2]⟩,
    .read, .receive, .send 1 4]

theorem survives_sample :
    ∃ s, (msgSends false 7 2).run sentByTwo (.init 7 2) = some s ∧
      s.calls = [⟨0, some ⟨2, true, true⟩⟩, ⟨1, some ⟨4, true, true⟩⟩] ∧
      ∀ bs t, (msgSends false 7 2).Guarded Takes bs s → (msgSends false 7 2).run bs s = some t →
        (msgSends false 7 2).Always Survives (sentByTwo ++ bs) (.init 7 2) := by
  have hview : ((msgSends false 7 2).run sentByTwo (.init 7 2)).map MsgSend.calls =
      some [⟨0, some ⟨2, true, true⟩⟩, ⟨1, some ⟨4, true, true⟩⟩] := by decide
  have hguarded : (msgSends false 7 2).Guarded Takes sentByTwo (.init 7 2) := by decide
  obtain ⟨s, hrun, hcalls⟩ := Option.map_eq_some_iff.mp hview
  exact ⟨s, hrun, hcalls, (survives_iff false 7 2 (by decide) sentByTwo s hrun).mpr hguarded⟩

/-- `send` is interrupted once, and would succeed in the next call. -/
def interrupted : List SendAction :=
  [.dataSend 0 ⟨5, [1]⟩, .send 0 (-1), .dataSend 0 ⟨5, [2]⟩, .send 0 4]

theorem not_survives :
    ¬ ∀ (as : List SendAction) s, (msgSends false 7 1).run as (.init 7 1) = some s →
      Survives s := by
  intro h
  have hview : ((msgSends false 7 1).run interrupted (.init 7 1)).map MsgSend.calls =
      some [⟨0, some ⟨-1, false, true⟩⟩, ⟨0, some ⟨4, false, true⟩⟩] := by decide
  obtain ⟨s, hrun, hcalls⟩ := Option.map_eq_some_iff.mp hview
  have hcall : s.calls[1]? = some ⟨0, some ⟨4, false, true⟩⟩ := by rw [hcalls]; rfl
  have hwoken := (h interrupted s hrun 1 _ _ hcall rfl).1 (by decide)
  cases hwoken

end MmsSvr
