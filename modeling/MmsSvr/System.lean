import MmsSvr.CmdProc
import MmsSvr.Event
import MmsSvr.Lib.Transition

/-!
`yymms_svr.cpp`: the thread of the event loop and the worker threads.

A step is one callback of the event loop, or one access of a worker to what it shares
with the other threads.  Workers get their jobs from the event loop alone, and hand
buffers back through its queue.
-/

namespace MmsSvr

open Lib

/-- `BossInfo`, and the connection whose bytes it holds. -/
structure Job where
  fd : Fd
  buf : Bytes
  port : UInt32
  conn : Nat
deriving DecidableEq, Repr

/-- A buffer in the queue of the event loop, with the descriptor and the connection
whose bytes were being handled when it was pushed. -/
structure Posted where
  item : QueueItem
  fd : Fd
  conn : Nat
deriving DecidableEq, Repr

/-- A worker inside `_process_data`: the local variables, and what is left to do of
the turn it is in. -/
structure Busy where
  job : Job
  locals : Locals
  todo : List Effect

structure System where
  srv : Server
  /-- The `hash_map_unlock<int, fd_state*>` of the event loop. -/
  fdStates : StateMap Fd FdState
  /-- `_bufqueue_map`. -/
  bufqueue : List Posted
  /-- The job queues of `Bossmultiworker`. -/
  jobs : Nat → List Job
  workers : Nat → Option Busy
  accepts : Nat
  /-- The connection whose LOGIN created the session registered for a descriptor. -/
  registrant : Fd → Nat

inductive Action where
  /-- `do_accept`. -/
  | accept (fd : Fd) (port : UInt32)
  /-- `do_read`, when it has read `data` and would have to wait for more. -/
  | receive (fd : Fd) (data : Bytes)
  /-- `do_read`, when the peer has gone. -/
  | shutdown (fd : Fd)
  | write (fd : Fd) (result : SendResult)
  /-- `queue_receive`. -/
  | dispatch
  | start (w : Nat)
  | turn (w : Nat)
  | effect (w : Nat)
  | finish (w : Nat)
deriving DecidableEq, Repr

namespace System

def init : System :=
  { srv := Server.init, fdStates := .empty, bufqueue := [], jobs := fun _ => [],
    workers := fun _ => none, accepts := 0, registrant := fun _ => 0 }

variable (env : ServerEnv) (threadnum : Nat)

def dataReceive (s : System) (job : Job) : System :=
  let threadid := job.fd % threadnum
  { s with jobs := Function.update s.jobs threadid (s.jobs threadid ++ [job]) }

/-- `free_fd_state`, beginning with the callback `fd_close`. -/
def freeFdState (s : System) (fd : Fd) (st : FdState) : System :=
  let s :=
    match fdClose env.ssl s.srv fd with
    | none => s
    | some buf => s.dataReceive threadnum ⟨fd, buf, env.port, st.conn⟩
  { s with fdStates := s.fdStates.delState fd }

def putState (s : System) (fd : Fd) (st : FdState) : System :=
  { s with fdStates := s.fdStates.addState fd st }

def queueReceive (s : System) (item : QueueItem) : System :=
  match s.fdStates.getState item.fd with
  | none => s
  | some st =>
      if item.buf = [] then s.freeFdState env threadnum item.fd st
      else s.putState item.fd (st.append item.buf)

/-- A worker takes a job: the part of `JsonProcess` or `ProcessMmsExecData` before the
loop. -/
def startJob (s : System) (w : Nat) (job : Job) : System :=
  if job.fd = 0 then s
  else if job.port = env.mangport then
    { s with workers := Function.update s.workers w (some ⟨job, ⟨none, job.buf⟩, []⟩) }
  else
    let start := jsonBegin s.srv job.fd job.buf
    { s with
      srv := start.1
      workers := Function.update s.workers w (some ⟨job, start.2, []⟩) }

/-- A turn of the loop the worker is in; the value `none` is a fault. -/
def workTurn (srv : Server) (job : Job) (l : Locals) : Option Turn :=
  if job.port = env.mangport then
    match mmsExecTurn env job.fd srv l.buf with
    | .ok (effects, rest) => some ⟨srv, effects, { l with buf := rest }⟩
    | .error _ => none
  else
    match jsonTurn env job.fd srv l with
    | some (.ok turn) => some turn
    | _ => none

/-- One access of a worker that handles `job`. -/
def access (s : System) (job : Job) (e : Effect) : System :=
  let s := { s with srv := s.srv.apply e }
  match e with
  | .dataSend item => { s with bufqueue := s.bufqueue ++ [⟨item, job.fd, job.conn⟩] }
  | .addState fd _ => { s with registrant := Function.update s.registrant fd job.conn }
  | _ => s

def setWorker (s : System) (w : Nat) (b : Option Busy) : System :=
  { s with workers := Function.update s.workers w b }

def step (s : System) : Action → Option System
  | .accept fd port =>
      -- the two ports that `init` binds
      if fd ≠ 0 ∧ s.fdStates.getState fd = none ∧ (port = env.port ∨ port = env.mangport) then
        some { s.putState fd (.alloc port s.accepts) with accepts := s.accepts + 1 }
      else none
  | .receive fd data =>
      match s.fdStates.getState fd with
      | none => none
      | some st =>
          if data = [] then none
          else some (s.dataReceive threadnum ⟨fd, data, st.listenPort, st.conn⟩)
  | .shutdown fd =>
      match s.fdStates.getState fd with
      | none => none
      | some st => some (s.freeFdState env threadnum fd st)
  | .write fd result =>
      match s.fdStates.getState fd with
      | none => none
      | some st =>
          if st.writeAdded ∧ st.CanSend result then
            match st.doWrite result with
            | none => some (s.freeFdState env threadnum fd st)
            | some st => some (s.putState fd st)
          else none
  | .dispatch =>
      match s.bufqueue with
      | [] => none
      | posted :: rest => some ({ s with bufqueue := rest }.queueReceive env threadnum posted.item)
  | .start w =>
      match s.workers w, s.jobs w with
      | none, job :: rest =>
          some ({ s with jobs := Function.update s.jobs w rest }.startJob env w job)
      | _, _ => none
  | .turn w =>
      match s.workers w with
      | some ⟨job, l, []⟩ =>
          if l.buf = [] then none
          else
            (workTurn env s.srv job l).map fun turn =>
              { s with srv := turn.srv }.setWorker w (some ⟨job, turn.locals, turn.effects⟩)
      | _ => none
  | .effect w =>
      match s.workers w with
      | some ⟨job, l, e :: todo⟩ => some ((s.access job e).setWorker w (some ⟨job, l, todo⟩))
      | _ => none
  | .finish w =>
      match s.workers w with
      | some ⟨_, l, []⟩ => if l.buf = [] then some (s.setWorker w none) else none
      | _ => none

section Fields

variable (s : System) (fd : Fd) (st : FdState) (job : Job) (e : Effect) (w : Nat)

@[simp]
theorem freeFdState_fdStates :
    (s.freeFdState env threadnum fd st).fdStates = s.fdStates.delState fd := by
  unfold freeFdState
  split <;> rfl

@[simp]
theorem freeFdState_bufqueue : (s.freeFdState env threadnum fd st).bufqueue = s.bufqueue := by
  unfold freeFdState
  split <;> rfl

@[simp]
theorem freeFdState_workers : (s.freeFdState env threadnum fd st).workers = s.workers := by
  unfold freeFdState
  split <;> rfl

@[simp]
theorem startJob_fdStates : (s.startJob env w job).fdStates = s.fdStates := by
  unfold startJob
  split_ifs <;> rfl

@[simp]
theorem startJob_bufqueue : (s.startJob env w job).bufqueue = s.bufqueue := by
  unfold startJob
  split_ifs <;> rfl

@[simp]
theorem startJob_jobs : (s.startJob env w job).jobs = s.jobs := by
  unfold startJob
  split_ifs <;> rfl

@[simp]
theorem setWorker_fdStates (b : Option Busy) : (s.setWorker w b).fdStates = s.fdStates := rfl

@[simp]
theorem setWorker_bufqueue (b : Option Busy) : (s.setWorker w b).bufqueue = s.bufqueue := rfl

@[simp]
theorem setWorker_jobs (b : Option Busy) : (s.setWorker w b).jobs = s.jobs := rfl

@[simp]
theorem access_fdStates : (s.access job e).fdStates = s.fdStates := by
  cases e <;> rfl

@[simp]
theorem access_jobs : (s.access job e).jobs = s.jobs := by
  cases e <;> rfl

@[simp]
theorem access_workers : (s.access job e).workers = s.workers := by
  cases e <;> rfl

theorem mem_jobs_dataReceive {job' : Job} (h : job' ∈ (s.dataReceive threadnum job).jobs w) :
    job' ∈ s.jobs w ∨ job' = job := by
  by_cases hw : w = job.fd % threadnum
  · subst hw
    simpa [dataReceive] using h
  · simp only [dataReceive, Function.update_of_ne hw] at h
    exact Or.inl h

theorem mem_jobs_freeFdState {job' : Job} (h : job' ∈ (s.freeFdState env threadnum fd st).jobs w) :
    job' ∈ s.jobs w ∨
      ∃ buf, fdClose env.ssl s.srv fd = some buf ∧ job' = ⟨fd, buf, env.port, st.conn⟩ := by
  unfold freeFdState at h
  split at h
  · exact Or.inl h
  · rename_i buf hbuf
    rcases mem_jobs_dataReceive threadnum s _ w h with h | h
    · exact Or.inl h
    · exact Or.inr ⟨buf, hbuf, h⟩

end Fields

/-- The steps, each with what enables it. -/
inductive Stepped (s : System) : Action → System → Prop where
  | accept (fd : Fd) (port : UInt32) (hfd : fd ≠ 0) (hfree : s.fdStates.getState fd = none)
      (hport : port = env.port ∨ port = env.mangport) :
      Stepped s (.accept fd port)
        { s.putState fd (.alloc port s.accepts) with accepts := s.accepts + 1 }
  | receive (fd : Fd) (data : Bytes) (st : FdState) (hst : s.fdStates.getState fd = some st)
      (hdata : data ≠ []) :
      Stepped s (.receive fd data) (s.dataReceive threadnum ⟨fd, data, st.listenPort, st.conn⟩)
  | shutdown (fd : Fd) (st : FdState) (hst : s.fdStates.getState fd = some st) :
      Stepped s (.shutdown fd) (s.freeFdState env threadnum fd st)
  | written (fd : Fd) (result : SendResult) (st st' : FdState)
      (hst : s.fdStates.getState fd = some st) (hsend : st.CanSend result)
      (hwrite : st.doWrite result = some st') :
      Stepped s (.write fd result) (s.putState fd st')
  | broken (fd : Fd) (result : SendResult) (st : FdState)
      (hst : s.fdStates.getState fd = some st) (hwrite : st.doWrite result = none) :
      Stepped s (.write fd result) (s.freeFdState env threadnum fd st)
  | dispatch (posted : Posted) (rest : List Posted) (hqueue : s.bufqueue = posted :: rest) :
      Stepped s .dispatch ({ s with bufqueue := rest }.queueReceive env threadnum posted.item)
  | start (w : Nat) (job : Job) (rest : List Job) (hidle : s.workers w = none)
      (hjobs : s.jobs w = job :: rest) :
      Stepped s (.start w) ({ s with jobs := Function.update s.jobs w rest }.startJob env w job)
  | turn (w : Nat) (job : Job) (l : Locals) (turn : Turn) (hbusy : s.workers w = some ⟨job, l, []⟩)
      (hbuf : l.buf ≠ []) (hturn : workTurn env s.srv job l = some turn) :
      Stepped s (.turn w)
        ({ s with srv := turn.srv }.setWorker w (some ⟨job, turn.locals, turn.effects⟩))
  | effect (w : Nat) (job : Job) (l : Locals) (e : Effect) (todo : List Effect)
      (hbusy : s.workers w = some ⟨job, l, e :: todo⟩) :
      Stepped s (.effect w) ((s.access job e).setWorker w (some ⟨job, l, todo⟩))
  | finish (w : Nat) (job : Job) (l : Locals) (hbusy : s.workers w = some ⟨job, l, []⟩)
      (hbuf : l.buf = []) : Stepped s (.finish w) (s.setWorker w none)

variable {env threadnum} {s t : System} {a : Action}

theorem step_cases (h : step env threadnum s a = some t) : Stepped env threadnum s a t := by
  cases a with
  | accept fd port =>
      simp only [step, Option.ite_none_right_eq_some, Option.some.injEq] at h
      obtain ⟨⟨hfd, hfree, hport⟩, rfl⟩ := h
      exact .accept fd port hfd hfree hport
  | receive fd data =>
      simp only [step] at h
      split at h
      · simp at h
      · rename_i st hst
        simp only [Option.ite_none_left_eq_some, Option.some.injEq] at h
        obtain ⟨hdata, rfl⟩ := h
        exact .receive fd data st hst hdata
  | shutdown fd =>
      simp only [step] at h
      split at h
      · simp at h
      · rename_i st hst
        rw [Option.some.injEq] at h
        subst h
        exact .shutdown fd st hst
  | write fd result =>
      simp only [step] at h
      split at h
      · simp at h
      · rename_i st hst
        split at h
        · rename_i hsend
          split at h
          · rename_i hwrite
            rw [Option.some.injEq] at h
            subst h
            exact .broken fd result st hst hwrite
          · rename_i st' hwrite
            rw [Option.some.injEq] at h
            subst h
            exact .written fd result st st' hst hsend.2 hwrite
        · simp at h
  | dispatch =>
      simp only [step] at h
      split at h
      · simp at h
      · rename_i posted rest hqueue
        rw [Option.some.injEq] at h
        subst h
        exact .dispatch posted rest hqueue
  | start w =>
      simp only [step] at h
      split at h
      · rename_i job rest hidle hjobs
        rw [Option.some.injEq] at h
        subst h
        exact .start w job rest hidle hjobs
      · simp at h
  | turn w =>
      simp only [step] at h
      split at h
      · rename_i job l hbusy
        simp only [Option.ite_none_left_eq_some, Option.map_eq_some_iff] at h
        obtain ⟨hbuf, turn, hturn, rfl⟩ := h
        exact .turn w job l turn hbusy hbuf hturn
      · simp at h
  | effect w =>
      simp only [step] at h
      split at h
      · rename_i job l e todo hbusy
        rw [Option.some.injEq] at h
        subst h
        exact .effect w job l e todo hbusy
      · simp at h
  | finish w =>
      simp only [step] at h
      split at h
      · rename_i job l hbusy
        simp only [Option.ite_none_right_eq_some, Option.some.injEq] at h
        obtain ⟨hbuf, rfl⟩ := h
        exact .finish w job l hbusy hbuf
      · simp at h

end System

def mmsServer (env : ServerEnv) (threadnum : Nat) : Transition System Action where
  init := System.init
  step := System.step env threadnum

end MmsSvr
