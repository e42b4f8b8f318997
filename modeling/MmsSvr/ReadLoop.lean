import MmsSvr.System

/-!
`do_read`: the bytes that `recv` returns, and the buffers that `data_receive` gets.
-/

namespace MmsSvr

open YYmmsJson

/-- What a call of `recv` with the buffer of `do_read` returns when it returns bytes. -/
abbrev Chunk := { bytes : Bytes // bytes ≠ [] ∧ bytes.length ≤ 1024 }

/-- The other results of `recv`. -/
inductive RecvStop where
  /-- `EAGAIN`, `EWOULDBLOCK` or `EINTR`. -/
  | again
  /-- The peer has shut its end down. -/
  | shutdown
  | failed
deriving DecidableEq, Repr

/-- The results of `recv` in one call of `do_read`. -/
structure ReadCall where
  chunks : List Chunk
  stop : RecvStop
deriving DecidableEq, Repr

/-- What `do_read` passes to `data_receive`, and whether it calls `free_fd_state`. -/
structure ReadReturn where
  received : Option Bytes
  freed : Bool
deriving DecidableEq, Repr

/-- The loop of `do_read`.  A buffer that has not been passed on is deleted. -/
def recvLoop (readbuffer : Option Bytes) : List Chunk → RecvStop → ReadReturn
  | chunk :: chunks, stop => recvLoop (some (readbuffer.getD [] ++ chunk.1)) chunks stop
  | [], .again => ⟨readbuffer, false⟩
  | [], .shutdown => ⟨none, true⟩
  | [], .failed => ⟨none, true⟩

def doRead (call : ReadCall) : ReadReturn := recvLoop none call.chunks call.stop

/-- The calls of `do_read` for a connection; there is none after it has been freed. -/
structure ReadCalls where
  calls : List ReadCall
  live : ∀ call ∈ calls.dropLast, (doRead call).freed = false

def ReadCall.bytes (call : ReadCall) : Bytes := call.chunks.flatMap Subtype.val

namespace ReadCalls

def arrived (c : ReadCalls) : Bytes := c.calls.flatMap ReadCall.bytes

def delivered (c : ReadCalls) : List Bytes := c.calls.filterMap fun call => (doRead call).received

end ReadCalls

section Delivery

variable {call : ReadCall} {calls : List ReadCall}

theorem recvLoop_eq (readbuffer : Option Bytes) (chunks : List Chunk) (stop : RecvStop) :
    recvLoop readbuffer chunks stop =
      if stop = .again then
        ⟨if chunks = [] then readbuffer
          else some (readbuffer.getD [] ++ chunks.flatMap Subtype.val), false⟩
      else ⟨none, true⟩ := by
  induction chunks generalizing readbuffer with
  | nil => cases stop <;> rfl
  | cons chunk chunks ih =>
      rw [recvLoop, ih]
      split
      · by_cases hnil : chunks = []
        · simp [hnil]
        · simp [hnil]
      · rfl

theorem bytes_eq_nil_iff : call.bytes = [] ↔ call.chunks = [] := by
  rw [ReadCall.bytes, List.flatMap_eq_nil_iff]
  constructor
  · intro h
    cases hchunks : call.chunks with
    | nil => rfl
    | cons chunk chunks => exact absurd (h chunk (by simp [hchunks])) chunk.2.1
  · intro h
    simp [h]

theorem doRead_received (call : ReadCall) : (doRead call).received.getD [] =
    if call.stop = .again then call.bytes else [] := by
  rw [doRead, recvLoop_eq]
  by_cases hstop : call.stop = .again
  · by_cases hchunks : call.chunks = []
    · simp [hstop, hchunks, bytes_eq_nil_iff.mpr hchunks]
    · simp [hstop, hchunks, ReadCall.bytes]
  · simp [hstop]

theorem flatten_received (calls : List ReadCall) :
    (calls.filterMap fun call => (doRead call).received).flatten =
      calls.flatMap fun call => (doRead call).received.getD [] := by
  induction calls with
  | nil => rfl
  | cons call calls ih =>
      cases hreceived : (doRead call).received with
      | none => simp [hreceived, ih]
      | some data => simp [hreceived, ih]

theorem received_length_le (calls : List ReadCall) :
    (calls.flatMap fun call => (doRead call).received.getD []).length ≤
      (calls.flatMap ReadCall.bytes).length := by
  induction calls with
  | nil => simp
  | cons call calls ih =>
      have hcall : ((doRead call).received.getD []).length ≤ call.bytes.length := by
        rw [doRead_received]
        split <;> simp
      rw [List.flatMap_cons, List.flatMap_cons, List.length_append, List.length_append]
      exact Nat.add_le_add hcall ih

theorem received_eq_iff (calls : List ReadCall) :
    (calls.flatMap fun call => (doRead call).received.getD []) = calls.flatMap ReadCall.bytes ↔
      ∀ call ∈ calls, call.stop = .again ∨ call.chunks = [] := by
  induction calls with
  | nil => simp
  | cons call calls ih =>
      rw [List.forall_mem_cons, ← ih, List.flatMap_cons, List.flatMap_cons, doRead_received]
      by_cases hstop : call.stop = .again
      · rw [if_pos hstop, List.append_cancel_left_eq]
        simp [hstop]
      · rw [if_neg hstop, List.nil_append]
        constructor
        · intro heq
          have hle := received_length_le calls
          rw [heq, List.length_append] at hle
          have hnil : call.bytes = [] := List.length_eq_zero_iff.mp (by omega)
          rw [hnil, List.nil_append] at heq
          exact ⟨Or.inr (bytes_eq_nil_iff.mp hnil), heq⟩
        · rintro ⟨hor, heq⟩
          rcases hor with hagain | hchunks
          · exact absurd hagain hstop
          · rw [bytes_eq_nil_iff.mpr hchunks, List.nil_append]
            exact heq

/-- Everything that `recv` has returned is delivered exactly when the call that frees the
connection has read nothing. -/
theorem input_delivered_iff (c : ReadCalls) :
    c.delivered.flatten = c.arrived ↔
      ∀ call ∈ c.calls, call.stop = .again ∨ call.chunks = [] := by
  rw [ReadCalls.delivered, ReadCalls.arrived, flatten_received]
  exact received_eq_iff c.calls

/-- A client sends LOGOUT and closes at once, so that `recv` returns the frame and then the
end of the stream. -/
theorem input_dropped_at_shutdown :
    ∃ c : ReadCalls, c.arrived = frame (.logout ⟨1⟩) ∧ c.delivered = [] ∧
      c.delivered.flatten ≠ c.arrived := by
  refine ⟨⟨[⟨[⟨frame (.logout ⟨1⟩), by decide +kernel⟩], .shutdown⟩], by simp⟩, ?_, ?_, ?_⟩
  · simp [ReadCalls.arrived, ReadCall.bytes]
  · rfl
  · decide +kernel

end Delivery

section Refines

variable {env : ServerEnv} {threadnum : Nat} {s : System} {fd : Fd} {st : FdState}
  {call : ReadCall}

theorem eq_bytes_of_received {data : Bytes} (hdata : (doRead call).received = some data) :
    data = call.bytes ∧ data ≠ [] := by
  have hreceived := doRead_received call
  rw [hdata, Option.getD_some] at hreceived
  have hstop : call.stop = .again := by
    by_contra hstop
    simp [doRead, recvLoop_eq, hstop] at hdata
  have hchunks : call.chunks ≠ [] := by
    intro hchunks
    simp [doRead, recvLoop_eq, hstop, hchunks] at hdata
  rw [if_pos hstop] at hreceived
  refine ⟨hreceived, ?_⟩
  rw [hreceived]
  exact mt bytes_eq_nil_iff.mp hchunks

/-- A call of `do_read` is a step of `System`: `receive`, with all the bytes of the call. -/
theorem doRead_receive {data : Bytes} (hst : s.fdStates.getState fd = some st)
    (hdata : (doRead call).received = some data) :
    ∃ t, System.step env threadnum s (.receive fd data) = some t ∧
      t.jobs (fd % threadnum) =
        s.jobs (fd % threadnum) ++ [⟨fd, call.bytes, st.listenPort, st.conn⟩] := by
  obtain ⟨hreceived, hne⟩ := eq_bytes_of_received hdata
  refine ⟨s.dataReceive threadnum ⟨fd, data, st.listenPort, st.conn⟩, ?_, ?_⟩
  · simp only [System.step, hst, if_neg hne]
  · simp [System.dataReceive, hreceived]

theorem doRead_freed (hst : s.fdStates.getState fd = some st)
    (hfreed : (doRead call).freed = true) :
    (doRead call).received = none ∧
      System.step env threadnum s (.shutdown fd) = some (s.freeFdState env threadnum fd st) := by
  refine ⟨?_, by simp only [System.step, hst]⟩
  rw [doRead, recvLoop_eq] at hfreed ⊢
  split at hfreed
  · simp at hfreed
  · rename_i hstop
    rw [if_neg hstop]

end Refines

end MmsSvr
