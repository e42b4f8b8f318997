import MmsSvr.System
import MmsSvr.Lib.Mailbox

/-!
`Bossmultiworker`, `data_receive` and `work_thread`: how the jobs get from the event loop
to the workers.

A job is pushed before its worker is woken, and popped after it has been, so a step of
`System` that hands a job over is several steps here.
-/

namespace MmsSvr

open Lib

structure BossInfo where
  buf : Option Bytes
  fd : Fd
  port : UInt32
deriving DecidableEq, Repr

instance : Inhabited BossInfo := ⟨⟨none, 0, 0⟩⟩

/-- Where a worker is in the loop of `work_thread`. -/
inductive WorkPhase where
  /-- In `sem_wait`. -/
  | waiting
  /-- After `sem_wait`. -/
  | woken
  /-- After `_exitflag` has been read. -/
  | popping
  | processing (info : BossInfo)
  | exited
deriving DecidableEq, Repr

/-- `thread_data`, with the queue of the worker. -/
structure ThreadData where
  queue : List BossInfo
  sem : Nat
  exitflag : Bool
  phase : WorkPhase
deriving DecidableEq, Repr

/-- Where the thread of the event loop is in `data_receive` or in `run`. -/
inductive Boss where
  | looping
  /-- Between `PushJob` and `sem_post`. -/
  | posting (threadid : Nat)
  /-- After the event loop, before the flag of the worker `i` is set. -/
  | stopping (i : Nat)
  /-- Between the flag of the worker `i` and its `sem_post`. -/
  | flagged (i : Nat)
deriving DecidableEq, Repr

/-- The workers, and the jobs that have been received and handled, in this order. -/
structure Pool where
  boss : Boss
  workers : Nat → ThreadData
  received : List BossInfo
  handled : List (Nat × BossInfo)

inductive PoolAction where
  /-- `data_receive`, up to `PushJob`. -/
  | receive (info : BossInfo)
  | post
  /-- The event loop returns. -/
  | stop
  | flag
  | wait (w : Nat)
  | check (w : Nat)
  | pop (w : Nat)
  /-- `_process_data` returns. -/
  | done (w : Nat)
deriving DecidableEq, Repr

namespace Pool

def init : Pool :=
  { boss := .looping, workers := fun _ => ⟨[], 0, false, .waiting⟩, received := [], handled := [] }

variable (works : Nat)

def setThread (s : Pool) (w : Nat) (data : ThreadData) : Pool :=
  { s with workers := Function.update s.workers w data }

def pushJob (s : Pool) (id : Nat) (t : BossInfo) : Pool :=
  if id < works then
    s.setThread id { s.workers id with queue := (s.workers id).queue ++ [t] }
  else s

def semPost (s : Pool) (id : Nat) : Pool :=
  if id < works then s.setThread id { s.workers id with sem := (s.workers id).sem + 1 } else s

def popJob : List BossInfo → BossInfo × List BossInfo
  | [] => (default, [])
  | t :: queue => (t, queue)

/-- From `PopJob` to the call of `_process_data`. -/
def takeJob (s : Pool) (w : Nat) : Pool :=
  let data := s.workers w
  let (info, queue) := popJob data.queue
  if info.fd = 0 ∨ info.buf = none then
    s.setThread w { data with queue := queue, phase := .waiting }
  else
    { s.setThread w { data with queue := queue, phase := .processing info } with
      handled := s.handled ++ [(w, info)] }

def step (s : Pool) : PoolAction → Option Pool
  | .receive info =>
      match s.boss, info.buf with
      | .looping, none => some s
      | .looping, some _ =>
          let threadid := info.fd % works
          some { s.pushJob works threadid info with
            boss := .posting threadid, received := s.received ++ [info] }
      | _, _ => none
  | .post =>
      match s.boss with
      | .posting threadid => some { s.semPost works threadid with boss := .looping }
      | .flagged i => some { s.semPost works i with boss := .stopping (i + 1) }
      | _ => none
  | .stop =>
      match s.boss with
      | .looping => some { s with boss := .stopping 0 }
      | _ => none
  | .flag =>
      match s.boss with
      | .stopping i =>
          if i < works then
            some { s.setThread i { s.workers i with exitflag := true } with boss := .flagged i }
          else none
      | _ => none
  | .wait w =>
      let data := s.workers w
      if w < works ∧ data.phase = .waiting ∧ 0 < data.sem then
        some (s.setThread w { data with sem := data.sem - 1, phase := .woken })
      else none
  | .check w =>
      let data := s.workers w
      if w < works ∧ data.phase = .woken then
        some (s.setThread w { data with phase := if data.exitflag then .exited else .popping })
      else none
  | .pop w => if w < works ∧ (s.workers w).phase = .popping then some (s.takeJob w) else none
  | .done w =>
      match (s.workers w).phase with
      | .processing _ => some (s.setThread w { s.workers w with phase := .waiting })
      | _ => none

/-- The steps, each with what enables it. -/
inductive Stepped (s : Pool) : PoolAction → Pool → Prop where
  | refused (info : BossInfo) (hbuf : info.buf = none) : Stepped s (.receive info) s
  | receive (info : BossInfo) (hboss : s.boss = .looping) (buf : Bytes)
      (hbuf : info.buf = some buf) :
      Stepped s (.receive info) { s.pushJob works (info.fd % works) info with
        boss := .posting (info.fd % works), received := s.received ++ [info] }
  | post (threadid : Nat) (hboss : s.boss = .posting threadid) :
      Stepped s .post { s.semPost works threadid with boss := .looping }
  | postExit (i : Nat) (hboss : s.boss = .flagged i) :
      Stepped s .post { s.semPost works i with boss := .stopping (i + 1) }
  | stop (hboss : s.boss = .looping) : Stepped s .stop { s with boss := .stopping 0 }
  | flag (i : Nat) (hboss : s.boss = .stopping i) :
      Stepped s .flag
        { s.setThread i { s.workers i with exitflag := true } with boss := .flagged i }
  | wait (w : Nat) (hphase : (s.workers w).phase = .waiting) (hsem : 0 < (s.workers w).sem) :
      Stepped s (.wait w)
        (s.setThread w { s.workers w with sem := (s.workers w).sem - 1, phase := .woken })
  | check (w : Nat) (hphase : (s.workers w).phase = .woken) :
      Stepped s (.check w) (s.setThread w { s.workers w with
        phase := if (s.workers w).exitflag then .exited else .popping })
  | pop (w : Nat) (hw : w < works) (hphase : (s.workers w).phase = .popping) :
      Stepped s (.pop w) (s.takeJob w)
  | done (w : Nat) (info : BossInfo) (hphase : (s.workers w).phase = .processing info) :
      Stepped s (.done w) (s.setThread w { s.workers w with phase := .waiting })

theorem step_cases {works : Nat} {s t : Pool} {a : PoolAction} (h : step works s a = some t) :
    Stepped works s a t := by
  cases a with
  | receive info =>
      simp only [step] at h
      split at h
      · rename_i hbuf
        rw [Option.some.injEq] at h
        subst h
        exact .refused info hbuf
      · rename_i hboss hbuf
        rw [Option.some.injEq] at h
        subst h
        exact .receive info hboss _ hbuf
      · simp at h
  | post =>
      simp only [step] at h
      split at h
      · rename_i threadid hboss
        rw [Option.some.injEq] at h
        subst h
        exact .post threadid hboss
      · rename_i i hboss
        rw [Option.some.injEq] at h
        subst h
        exact .postExit i hboss
      · simp at h
  | stop =>
      simp only [step] at h
      split at h
      · rename_i hboss
        rw [Option.some.injEq] at h
        subst h
        exact .stop hboss
      · simp at h
  | flag =>
      simp only [step] at h
      split at h
      · rename_i i hboss
        simp only [Option.ite_none_right_eq_some, Option.some.injEq] at h
        obtain ⟨-, rfl⟩ := h
        exact .flag i hboss
      · simp at h
  | wait w =>
      simp only [step, Option.ite_none_right_eq_some, Option.some.injEq] at h
      obtain ⟨⟨-, hphase, hsem⟩, rfl⟩ := h
      exact .wait w hphase hsem
  | check w =>
      simp only [step, Option.ite_none_right_eq_some, Option.some.injEq] at h
      obtain ⟨⟨-, hphase⟩, rfl⟩ := h
      exact .check w hphase
  | pop w =>
      simp only [step, Option.ite_none_right_eq_some, Option.some.injEq] at h
      obtain ⟨⟨hw, hphase⟩, rfl⟩ := h
      exact .pop w hw hphase
  | done w =>
      simp only [step] at h
      split at h
      · rename_i info hphase
        rw [Option.some.injEq] at h
        subst h
        exact .done w info hphase
      · simp at h

end Pool

def jobPool (works : Nat) : Transition Pool PoolAction where
  init := Pool.init
  step := Pool.step works

section Order

/-- The wake-up that a worker has taken, and has not taken a job for. -/
def WorkPhase.taken : WorkPhase → Nat
  | .woken => 1
  | .popping => 1
  | _ => 0

def Boss.owes (boss : Boss) (w : Nat) : Nat := if boss = .posting w then 1 else 0

variable (works : Nat)

/-- What holds of the jobs until a worker is told to exit. -/
structure JobsInOrder (s : Pool) : Prop where
  owner : ∀ h ∈ s.handled, h.1 = h.2.fd % works
  order : ∀ fd, (s.handled.map Prod.snd).filter (fun info => info.fd == fd) ++
      (s.workers (fd % works)).queue.filter (fun info => info.fd == fd) =
    s.received.filter fun info => info.fd == fd
  wakeups : ∀ w, w < works → (s.workers w).queue.length =
    (s.workers w).sem + s.boss.owes w + (s.workers w).phase.taken
  found : ∀ w, w < works → 0 < (s.workers w).phase.taken → (s.workers w).queue ≠ []
  unstranded : ∀ w, w < works → (s.workers w).queue ≠ [] →
    0 < (s.workers w).sem ∨ s.boss = .posting w ∨ 0 < (s.workers w).phase.taken

/-- `fd > 0`, and a buffer. -/
def PoolAction.Proper : PoolAction → Prop
  | .receive info => info.fd ≠ 0 ∧ info.buf ≠ none
  | _ => True

/-- What `m` is to the worker `w`. -/
structure Shows (s : Pool) (w : Nat) (m : Mailbox BossInfo) : Prop where
  queue : m.queue = (s.workers w).queue
  wakeups : m.wakeups = (s.workers w).sem
  owed : m.owed = s.boss.owes w
  taken : m.taken = (s.workers w).phase.taken
  entered : m.entered = s.received.filter fun info => info.fd % works == w
  left : m.left = (s.handled.filter fun h => h.1 == w).map Prod.snd

structure PoolHeld (s : Pool) : Prop where
  owed : ∀ w, s.boss = .posting w → w < works
  flagged : ∀ i, s.boss = .flagged i → (s.workers i).exitflag = true
  proper : ∀ info ∈ s.received, info.fd ≠ 0 ∧ info.buf ≠ none
  workers : ∀ h ∈ s.handled, h.1 < works
  shown : ∀ w, w < works → (s.workers w).exitflag = false → ∃ m, Shows works s w m

variable {works} {s t : Pool} {w : Nat} {m : Mailbox BossInfo}

theorem Shows.congr (h : Shows works s w m) (hdata : t.workers w = s.workers w)
    (hboss : t.boss.owes w = s.boss.owes w)
    (hreceived : (t.received.filter fun info => info.fd % works == w) =
      s.received.filter fun info => info.fd % works == w)
    (hhandled : (t.handled.filter fun h => h.1 == w) = s.handled.filter fun h => h.1 == w) :
    Shows works t w m := by
  refine ⟨?_, ?_, ?_, ?_, ?_, ?_⟩
  · rw [hdata, h.queue]
  · rw [hdata, h.wakeups]
  · rw [hboss, h.owed]
  · rw [hdata, h.taken]
  · rw [hreceived, h.entered]
  · rw [hhandled, h.left]

theorem shown_update {v : Nat} {data : ThreadData} (h : PoolHeld works s)
    (hworkers : t.workers = Function.update s.workers v data)
    (hflag : data.exitflag = false → (s.workers v).exitflag = false)
    (hboss : ∀ w, w ≠ v → t.boss.owes w = s.boss.owes w)
    (hreceived : ∀ w, w ≠ v → (t.received.filter fun info => info.fd % works == w) =
      s.received.filter fun info => info.fd % works == w)
    (hhandled : ∀ w, w ≠ v → (t.handled.filter fun h => h.1 == w) =
      s.handled.filter fun h => h.1 == w)
    (hown : v < works → data.exitflag = false → ∀ m, Shows works s v m →
      ∃ m', Shows works t v m') :
    ∀ w, w < works → (t.workers w).exitflag = false → ∃ m, Shows works t w m := by
  intro w hw hexit
  by_cases hv : w = v
  · subst hv
    rw [hworkers, Function.update_self] at hexit
    obtain ⟨m, hm⟩ := h.shown w hw (hflag hexit)
    exact hown hw hexit m hm
  · have hdata : t.workers w = s.workers w := by rw [hworkers, Function.update_of_ne hv]
    rw [hdata] at hexit
    obtain ⟨m, hm⟩ := h.shown w hw hexit
    exact ⟨m, hm.congr hdata (hboss w hv) (hreceived w hv) (hhandled w hv)⟩

theorem poolHeld_receive {info : BossInfo} (hworks : 0 < works) (h : PoolHeld works s)
    (hinfo : info.fd ≠ 0 ∧ info.buf ≠ none) (hboss : s.boss = .looping) :
    PoolHeld works { s.pushJob works (info.fd % works) info with
      boss := .posting (info.fd % works), received := s.received ++ [info] } := by
  have hlt : info.fd % works < works := Nat.mod_lt _ hworks
  have hpush : s.pushJob works (info.fd % works) info = s.setThread (info.fd % works)
      { s.workers (info.fd % works) with
        queue := (s.workers (info.fd % works)).queue ++ [info] } := if_pos hlt
  rw [hpush]
  refine ⟨by simpa using hlt, by simp, ?_, h.workers, ?_⟩
  · intro info' hmem
    rcases List.mem_append.mp hmem with hold | hnew
    · exact h.proper info' hold
    · rw [List.mem_singleton.mp hnew]
      exact hinfo
  · refine shown_update h rfl id ?_ ?_ (fun w hw => rfl) ?_
    · intro w hw
      simp [Boss.owes, hboss, hw.symm]
    · intro w hw
      simp [hw.symm]
    · intro hv hexit m hm
      refine ⟨m.put info, ?_, ?_, ?_, ?_, ?_, ?_⟩
      · simp [Mailbox.put, Pool.setThread, hm.queue]
      · simp [Mailbox.put, Pool.setThread, hm.wakeups]
      · simp [Mailbox.put, hm.owed, Boss.owes, hboss]
      · simp [Mailbox.put, Pool.setThread, hm.taken]
      · simp [Mailbox.put, hm.entered]
      · exact hm.left

theorem poolHeld_post {threadid : Nat} (h : PoolHeld works s)
    (hboss : s.boss = .posting threadid) (hworks : threadid < works) :
    PoolHeld works { s.semPost works threadid with boss := .looping } := by
  have hpost : s.semPost works threadid = s.setThread threadid
      { s.workers threadid with sem := (s.workers threadid).sem + 1 } := if_pos hworks
  rw [hpost]
  refine ⟨by simp, by simp, h.proper, h.workers, ?_⟩
  refine shown_update h rfl id ?_ (fun w hw => rfl) (fun w hw => rfl) ?_
  · intro w hw
    simp [Boss.owes, hboss, hw.symm]
  · intro hv hexit m hm
    have howed : m.owed = 1 := by simp [hm.owed, Boss.owes, hboss]
    refine ⟨m.send (by omega), ?_, ?_, ?_, ?_, ?_, ?_⟩
    · simp [Mailbox.send, Pool.setThread, hm.queue]
    · simp [Mailbox.send, Pool.setThread, hm.wakeups]
    · simp [Mailbox.send, howed, Boss.owes]
    · simp [Mailbox.send, Pool.setThread, hm.taken]
    · exact hm.entered
    · exact hm.left

theorem poolHeld_postExit {i : Nat} (h : PoolHeld works s) (hboss : s.boss = .flagged i) :
    PoolHeld works { s.semPost works i with boss := .stopping (i + 1) } := by
  have hquiet : ∀ w, Boss.owes (.stopping (i + 1)) w = s.boss.owes w := by
    intro w
    simp [Boss.owes, hboss]
  unfold Pool.semPost
  split
  · refine ⟨by simp, by simp, h.proper, h.workers, ?_⟩
    refine shown_update h rfl id (fun w _ => hquiet w) (fun w hw => rfl) (fun w hw => rfl) ?_
    intro hv hexit m hm
    exact absurd (h.flagged i hboss) (by simpa using hexit)
  · refine ⟨by simp, by simp, h.proper, h.workers, ?_⟩
    intro w hw hexit
    obtain ⟨m, hm⟩ := h.shown w hw hexit
    exact ⟨m, hm.congr rfl (hquiet w) rfl rfl⟩

theorem poolHeld_flag {i : Nat} (h : PoolHeld works s) (hboss : s.boss = .stopping i) :
    PoolHeld works { s.setThread i { s.workers i with exitflag := true } with
      boss := .flagged i } := by
  refine ⟨by simp, ?_, h.proper, h.workers, ?_⟩
  · intro j hj
    simp only [Boss.flagged.injEq] at hj
    subst hj
    simp [Pool.setThread]
  · refine shown_update h rfl (by simp) ?_ (fun w hw => rfl) (fun w hw => rfl) (by simp)
    intro w hw
    simp [Boss.owes, hboss]

theorem poolHeld_setThread {v : Nat} {data : ThreadData} (h : PoolHeld works s)
    (hflag : data.exitflag = (s.workers v).exitflag)
    (hown : v < works → data.exitflag = false → ∀ m, Shows works s v m →
      ∃ m', Shows works (s.setThread v data) v m') : PoolHeld works (s.setThread v data) := by
  refine ⟨h.owed, ?_, h.proper, h.workers, ?_⟩
  · intro i hi
    by_cases hv : i = v
    · subst hv
      simpa [Pool.setThread, hflag] using h.flagged i hi
    · simpa [Pool.setThread, Function.update_of_ne hv] using h.flagged i hi
  · exact shown_update h rfl (by rw [hflag]; exact id) (fun w hw => rfl) (fun w hw => rfl)
      (fun w hw => rfl) hown

theorem poolHeld_wait (h : PoolHeld works s) (hphase : (s.workers w).phase = .waiting)
    (hsem : 0 < (s.workers w).sem) :
    PoolHeld works (s.setThread w { s.workers w with
      sem := (s.workers w).sem - 1, phase := .woken }) := by
  refine poolHeld_setThread h rfl ?_
  intro hw hexit m hm
  refine ⟨m.take (by rw [hm.wakeups]; exact hsem), ?_, ?_, ?_, ?_, ?_, ?_⟩
  · simp [Mailbox.take, Pool.setThread, hm.queue]
  · simp [Mailbox.take, Pool.setThread, hm.wakeups]
  · exact hm.owed
  · simp [Mailbox.take, Pool.setThread, hm.taken, hphase, WorkPhase.taken]
  · exact hm.entered
  · exact hm.left

theorem poolHeld_phase {phase : WorkPhase} (h : PoolHeld works s)
    (hphase : (s.workers w).exitflag = false → phase.taken = (s.workers w).phase.taken) :
    PoolHeld works (s.setThread w { s.workers w with phase := phase }) := by
  refine poolHeld_setThread h rfl ?_
  intro hw hexit m hm
  refine ⟨m, ?_, ?_, hm.owed, ?_, hm.entered, hm.left⟩
  · simp [Pool.setThread, hm.queue]
  · simp [Pool.setThread, hm.wakeups]
  · simp only [Pool.setThread, Function.update_self]
    rw [hphase hexit, hm.taken]

theorem Shows.popJob (h : PoolHeld works s) (hm : Shows works s w m)
    (htaken : 0 < (s.workers w).phase.taken) :
    ∃ info rest, (s.workers w).queue = info :: rest ∧ info.fd ≠ 0 ∧ info.buf ≠ none := by
  obtain ⟨info, rest, hqueue⟩ := m.exists_of_taken (by rw [hm.taken]; exact htaken)
  have hmem : info ∈ m.entered := by
    rw [← m.ordered, hqueue]
    simp
  rw [hm.entered] at hmem
  exact ⟨info, rest, by rw [← hm.queue, hqueue], h.proper info (List.mem_filter.mp hmem).1⟩

theorem poolHeld_takeJob (h : PoolHeld works s) (hw : w < works)
    (hphase : (s.workers w).phase = .popping) : PoolHeld works (s.takeJob w) := by
  have htaken : (s.workers w).phase.taken = 1 := by rw [hphase]; rfl
  unfold Pool.takeJob
  simp only
  split
  · rename_i hnone
    refine poolHeld_setThread h rfl ?_
    intro _ hexit m hm
    obtain ⟨info, rest, hqueue, hfd, hbuf⟩ := hm.popJob h (by omega)
    rw [hqueue] at hnone
    exact absurd hnone (not_or.mpr ⟨hfd, hbuf⟩)
  · refine ⟨h.owed, ?_, h.proper, ?_, ?_⟩
    · intro i hi
      by_cases hv : i = w
      · subst hv
        simpa [Pool.setThread] using h.flagged i hi
      · simpa [Pool.setThread, Function.update_of_ne hv] using h.flagged i hi
    · intro handled hmem
      rcases List.mem_append.mp hmem with hold | hnew
      · exact h.workers handled hold
      · rw [List.mem_singleton.mp hnew]
        exact hw
    · refine shown_update h rfl id (fun v hv => rfl) (fun v hv => rfl) ?_ ?_
      · intro v hv
        simp [hv.symm]
      · intro _ hexit m hm
        obtain ⟨info, rest, hqueue, -⟩ := hm.popJob h (by omega)
        refine ⟨m.get (hm.queue.trans hqueue) (by rw [hm.taken]; omega), ?_, ?_, ?_, ?_, ?_, ?_⟩
        · simp [Mailbox.get, Pool.setThread, Pool.popJob, hqueue]
        · simp [Mailbox.get, Pool.setThread, hm.wakeups]
        · exact hm.owed
        · simp [Mailbox.get, Pool.setThread, hm.taken, hphase, WorkPhase.taken]
        · exact hm.entered
        · simp [Mailbox.get, hm.left, hqueue, Pool.popJob]

theorem poolHeld_step {a : PoolAction} (hworks : 0 < works) (h : PoolHeld works s)
    (ha : a.Proper) (hstep : Pool.step works s a = some t) : PoolHeld works t := by
  cases Pool.step_cases hstep with
  | refused info hbuf => exact h
  | receive info hboss buf hbuf => exact poolHeld_receive hworks h ha hboss
  | post threadid hboss => exact poolHeld_post h hboss (h.owed threadid hboss)
  | postExit i hboss => exact poolHeld_postExit h hboss
  | stop hboss =>
      refine ⟨by simp, by simp, h.proper, h.workers, ?_⟩
      intro w hw hexit
      obtain ⟨m, hm⟩ := h.shown w hw hexit
      exact ⟨m, hm.congr rfl (by simp [Boss.owes, hboss]) rfl rfl⟩
  | flag i hboss => exact poolHeld_flag h hboss
  | wait w hphase hsem => exact poolHeld_wait h hphase hsem
  | check w hphase =>
      refine poolHeld_phase h ?_
      intro hexit
      rw [hexit, hphase]
      rfl
  | pop w hw hphase => exact poolHeld_takeJob h hw hphase
  | done w info hphase =>
      refine poolHeld_phase h ?_
      intro hexit
      rw [hphase]
      rfl

theorem PoolHeld.jobsInOrder (h : PoolHeld works s)
    (hexit : ∀ w, w < works → (s.workers w).exitflag = false) (hworks : 0 < works) :
    JobsInOrder works s := by
  have howner : ∀ h ∈ s.handled, h.1 = h.2.fd % works := by
    rintro ⟨w, info⟩ hmem
    obtain ⟨m, hm⟩ := h.shown w (h.workers _ hmem) (hexit w (h.workers _ hmem))
    have hleft : info ∈ m.left := by
      rw [hm.left]
      exact List.mem_map.mpr ⟨(w, info), by simp [hmem], rfl⟩
    have hentered : info ∈ m.entered := by
      rw [← m.ordered]
      exact List.mem_append_left _ hleft
    rw [hm.entered] at hentered
    simp only [List.mem_filter, beq_iff_eq] at hentered
    exact hentered.2.symm
  refine ⟨howner, ?_, ?_, ?_, ?_⟩
  · intro fd
    have hlt : fd % works < works := Nat.mod_lt _ hworks
    obtain ⟨m, hm⟩ := h.shown (fd % works) hlt (hexit _ hlt)
    have hfilter := m.filter_entered fun info => info.fd == fd
    have hreceived : (s.received.filter fun info => info.fd % works == fd % works).filter
        (fun info => info.fd == fd) = s.received.filter fun info => info.fd == fd := by
      rw [List.filter_filter]
      refine List.filter_congr fun info _ => ?_
      by_cases hfd : info.fd = fd
      · simp [hfd]
      · simp [hfd]
    -- the jobs of this descriptor are all handled by its worker
    have hhandled : ((s.handled.filter fun h => h.1 == fd % works).map Prod.snd).filter
        (fun info => info.fd == fd) =
          (s.handled.map Prod.snd).filter fun info => info.fd == fd := by
      rw [List.filter_map, List.filter_map, List.filter_filter]
      congr 1
      refine List.filter_congr fun h hmem => ?_
      by_cases hfd : h.2.fd = fd
      · simp [hfd, howner h hmem]
      · simp [hfd]
    rwa [hm.left, hm.queue, hm.entered, hreceived, hhandled] at hfilter
  · intro w hw
    obtain ⟨m, hm⟩ := h.shown w hw (hexit w hw)
    have hbalanced := m.balanced
    rwa [hm.queue, hm.wakeups, hm.owed, hm.taken] at hbalanced
  · intro w hw htaken
    obtain ⟨m, hm⟩ := h.shown w hw (hexit w hw)
    obtain ⟨info, rest, hqueue, -⟩ := hm.popJob h htaken
    simp [hqueue]
  · intro w hw hqueue
    obtain ⟨m, hm⟩ := h.shown w hw (hexit w hw)
    have hbalanced := m.balanced
    have hpos : 0 < (s.workers w).queue.length := List.length_pos_of_ne_nil hqueue
    rw [hm.queue, hm.wakeups, hm.owed, hm.taken] at hbalanced
    by_cases hboss : s.boss = .posting w
    · exact Or.inr (Or.inl hboss)
    · rw [Boss.owes, if_neg hboss] at hbalanced
      omega

/-- Every job is handled by the worker of its descriptor, in the order of arrival, and the
wake-ups are as many as the jobs that wait. -/
theorem jobs_in_order (works : Nat) (hworks : 1 ≤ works) (s : Pool)
    (h : (jobPool works).Reachable (fun _ a => a.Proper) s)
    (hexit : ∀ w, w < works → (s.workers w).exitflag = false) : JobsInOrder works s := by
  have hinv : PoolHeld works s := by
    refine h.invariant (PoolHeld works) ?_ fun s a t hs ha hstep =>
      poolHeld_step hworks hs ha hstep
    refine ⟨?_, ?_, ?_, ?_, ?_⟩
    · intro w hw
      simp [jobPool, Pool.init] at hw
    · intro i hi
      simp [jobPool, Pool.init] at hi
    · intro info hmem
      simp [jobPool, Pool.init] at hmem
    · intro handled hmem
      simp [jobPool, Pool.init] at hmem
    · intro w hw _
      exact ⟨.empty, rfl, rfl, rfl, rfl, rfl, rfl⟩
  exact hinv.jobsInOrder hexit hworks

instance : DecidablePred PoolAction.Proper
  | .receive info => inferInstanceAs (Decidable (info.fd ≠ 0 ∧ info.buf ≠ none))
  | .post => isTrue trivial
  | .stop => isTrue trivial
  | .flag => isTrue trivial
  | .wait _ => isTrue trivial
  | .check _ => isTrue trivial
  | .pop _ => isTrue trivial
  | .done _ => isTrue trivial

/-- Two jobs for one descriptor; the second comes while the worker handles the first. -/
def twoJobs : List PoolAction :=
  [.receive ⟨some [1], 5, 6789⟩, .post, .wait 1, .check 1, .receive ⟨some [2], 5, 6789⟩, .pop 1,
    .done 1, .post, .wait 1, .check 1, .pop 1]

theorem jobs_in_order_sample :
    ∃ s, (jobPool 2).run twoJobs Pool.init = some s ∧
      s.handled = [(1, ⟨some [1], 5, 6789⟩), (1, ⟨some [2], 5, 6789⟩)] ∧ JobsInOrder 2 s := by
  have hrun : ((jobPool 2).run twoJobs Pool.init).map (fun s =>
      (s.handled, (s.workers 0).exitflag, (s.workers 1).exitflag)) =
      some ([(1, ⟨some [1], 5, 6789⟩), (1, ⟨some [2], 5, 6789⟩)], false, false) := by
    decide +kernel
  obtain ⟨s, hs, hview⟩ := Option.map_eq_some_iff.mp hrun
  simp only [Prod.mk.injEq] at hview
  have hexit : ∀ w, w < 2 → (s.workers w).exitflag = false := by
    intro w hw
    rcases Nat.lt_succ_iff_lt_or_eq.mp hw with hw | rfl
    · rw [Nat.lt_one_iff.mp hw]
      exact hview.2.1
    · exact hview.2.2
  have hguard : (jobPool 2).Guarded (fun _ a => a.Proper) twoJobs Pool.init := by decide +kernel
  exact ⟨s, hs, hview.1, jobs_in_order 2 (by decide) s (.of_guarded .init hguard hs) hexit⟩

end Order

section Refines

def Job.info (job : Job) : BossInfo := ⟨some job.buf, job.fd, job.port⟩

def Queues (s : Pool) (jobs : Nat → List Job) : Prop :=
  ∀ w, (s.workers w).queue = (jobs w).map Job.info

variable {works : Nat} {s t : Pool} {jobs : Nat → List Job} {w : Nat}

theorem Queues.setThread (h : Queues s jobs) {data : ThreadData}
    (hqueue : data.queue = (s.workers w).queue) : Queues (s.setThread w data) jobs := by
  intro v
  by_cases hv : v = w
  · subst hv
    simpa [Pool.setThread, hqueue] using h v
  · simpa [Pool.setThread, Function.update_of_ne hv] using h v

theorem Queues.update (h : Queues s jobs) {data : ThreadData} {queue : List Job}
    (hqueue : data.queue = queue.map Job.info) :
    Queues (s.setThread w data) (Function.update jobs w queue) := by
  intro v
  by_cases hv : v = w
  · subst hv
    simpa [Pool.setThread] using hqueue
  · simpa [Pool.setThread, Function.update_of_ne hv] using h v

/-- The steps of the threads do to the queues what `System` does to them: nothing, the
`dataReceive` of a job, or the start of the first job that waits. -/
theorem queues_step {sys : System} {a : PoolAction} (hworks : 0 < works) (h : PoolHeld works s)
    (hexit : ∀ w, w < works → (s.workers w).exitflag = false) (hjobs : Queues s sys.jobs)
    (hstep : Pool.step works s a = some t) :
    Queues t sys.jobs ∨
      (∃ job, a = .receive job.info ∧ Queues t (sys.dataReceive works job).jobs) ∨
      ∃ w job rest, a = .pop w ∧ sys.jobs w = job :: rest ∧
        (t.workers w).phase = .processing job.info ∧
        Queues t (Function.update sys.jobs w rest) := by
  have hpost : ∀ i, Queues (s.semPost works i) sys.jobs := by
    intro i
    unfold Pool.semPost
    split
    · exact hjobs.setThread rfl
    · exact hjobs
  cases Pool.step_cases hstep with
  | refused info hbuf => exact Or.inl hjobs
  | receive info hboss buf hbuf =>
      right; left
      refine ⟨⟨info.fd, buf, info.port, 0⟩, by rw [Job.info, ← hbuf], ?_⟩
      have hlt : info.fd % works < works := Nat.mod_lt _ hworks
      have hqueue : (s.workers (info.fd % works)).queue ++ [info] =
          (sys.jobs (info.fd % works) ++ [(⟨info.fd, buf, info.port, 0⟩ : Job)]).map Job.info := by
        rw [hjobs, List.map_append, List.map_singleton, Job.info, ← hbuf]
      have hqueues : Queues (s.pushJob works (info.fd % works) info)
          (sys.dataReceive works ⟨info.fd, buf, info.port, 0⟩).jobs := by
        rw [Pool.pushJob, if_pos hlt]
        exact hjobs.update hqueue
      exact hqueues
  | post threadid hboss => exact Or.inl (hpost threadid)
  | postExit i hboss => exact Or.inl (hpost i)
  | stop hboss => exact Or.inl hjobs
  | flag i hboss => exact Or.inl (hjobs.setThread rfl)
  | wait w hphase hsem => exact Or.inl (hjobs.setThread rfl)
  | check w hphase => exact Or.inl (hjobs.setThread rfl)
  | pop w hw hphase =>
      obtain ⟨m, hm⟩ := h.shown w hw (hexit w hw)
      obtain ⟨info, rest, hqueue, hfd, hbuf⟩ := hm.popJob h (by rw [hphase]; decide)
      right; right
      have hmap := hjobs w
      rw [hqueue] at hmap
      cases hsys : sys.jobs w with
      | nil => simp [hsys] at hmap
      | cons job jobs =>
          rw [hsys, List.map_cons, List.cons.injEq] at hmap
          have htake : s.takeJob w = { s.setThread w { s.workers w with
              queue := rest, phase := .processing info } with
                handled := s.handled ++ [(w, info)] } := by
            simp [Pool.takeJob, hqueue, Pool.popJob, hfd, hbuf]
          refine ⟨w, job, jobs, rfl, hsys, ?_, ?_⟩
          · rw [htake, hmap.1]
            simp [Pool.setThread]
          · rw [htake]
            exact hjobs.update hmap.2
  | done w info hphase => exact Or.inl (hjobs.setThread rfl)

end Refines

end MmsSvr
