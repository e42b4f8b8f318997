import MmsSvr.Batching
import MmsSvr.CrossTalk

/-!
Sessions and the connections that created them, when descriptors are reused.

The jobs for one descriptor are handled by one worker, in order.  They form a time
line, along which it is followed which connection may own the session registered for
the descriptor.
-/

namespace MmsSvr

open YYmmsJson
open Lib

section Jobs

def opensWithLogin (env : Env) (buf : Bytes) : Bool :=
  match parseCmd env buf with
  | .success _ (.login _) => true
  | _ => false

/-- The buffer is one LOGOUT, as `fd_close` queues it. -/
def isLogoutBuf (env : Env) (buf : Bytes) : Bool :=
  match parseCmd env buf with
  | .success offset (.logout _) => offset = buf.length
  | _ => false

/-- Which connection may own the session of a descriptor after a job, when `owner` may
own it before. -/
def ownerAfter (env : Env) (owner : Option Nat) (job : Job) : Option Nat :=
  if isLogoutBuf env job.buf then none
  else if owner = none ∧ opensWithLogin env job.buf = false then none
  else some job.conn

def FindsOwn (env : Env) : Option Nat → List Job → Prop
  | _, [] => True
  | owner, job :: jobs =>
      (∀ conn, owner = some conn → conn = job.conn) ∧ FindsOwn env (ownerAfter env owner job) jobs

/-- The jobs for a descriptor, and the connection that is open under it in the end. -/
structure TimeLine (env : Env) (owner : Option Nat) (jobs : List Job) (live : Option Nat) :
    Prop where
  own : FindsOwn env owner jobs
  last : ∀ conn, jobs.foldl (ownerAfter env) owner = some conn → live = some conn

variable {env : Env} {owner owner' live : Option Nat} {job : Job} {jobs : List Job}

/-- Less may be owned: nothing at all, or what was. -/
def OwnsLess (owner' owner : Option Nat) : Prop := owner' = none ∨ owner' = owner

theorem ownerAfter_mono (h : OwnsLess owner' owner) (job : Job) :
    OwnsLess (ownerAfter env owner' job) (ownerAfter env owner job) := by
  rcases h with rfl | rfl
  · unfold ownerAfter OwnsLess
    split_ifs <;> simp_all
  · exact Or.inr rfl

theorem findsOwn_mono (h : OwnsLess owner' owner) (hown : FindsOwn env owner jobs) :
    FindsOwn env owner' jobs := by
  induction jobs generalizing owner owner' with
  | nil => trivial
  | cons job jobs ih =>
      refine ⟨?_, ih (ownerAfter_mono h job) hown.2⟩
      rintro conn rfl
      rcases h with h | h
      · simp at h
      · exact hown.1 conn h.symm

theorem foldl_ownerAfter_mono (env : Env) (jobs : List Job) (h : OwnsLess owner' owner) :
    OwnsLess (jobs.foldl (ownerAfter env) owner') (jobs.foldl (ownerAfter env) owner) := by
  induction jobs generalizing owner owner' with
  | nil => exact h
  | cons job jobs ih => exact ih (ownerAfter_mono h job)

theorem TimeLine.mono (h : TimeLine env owner jobs live) (hless : OwnsLess owner' owner) :
    TimeLine env owner' jobs live := by
  refine ⟨findsOwn_mono hless h.own, ?_⟩
  intro conn hconn
  rcases foldl_ownerAfter_mono env jobs hless with hnone | hsame
  · simp [hnone] at hconn
  · exact h.last conn (by rw [← hsame, hconn])

theorem findsOwn_snoc (h : FindsOwn env owner jobs)
    (hlast : ∀ conn, jobs.foldl (ownerAfter env) owner = some conn → conn = job.conn) :
    FindsOwn env owner (jobs ++ [job]) := by
  induction jobs generalizing owner with
  | nil => exact ⟨hlast, trivial⟩
  | cons job' jobs ih => exact ⟨h.1, ih h.2 hlast⟩

theorem ownerAfter_conn {conn : Nat} (h : ownerAfter env owner job = some conn) :
    conn = job.conn := by
  unfold ownerAfter at h
  split_ifs at h
  simpa using h.symm

theorem TimeLine.receive {conn : Nat} (h : TimeLine env owner jobs (some conn))
    (hjob : job.conn = conn) : TimeLine env owner (jobs ++ [job]) (some conn) := by
  have hlast : ∀ conn', jobs.foldl (ownerAfter env) owner = some conn' → conn' = job.conn := by
    intro conn' hconn'
    rw [hjob]
    simpa using (h.last conn' hconn').symm
  refine ⟨findsOwn_snoc h.own hlast, ?_⟩
  intro conn' hconn'
  rw [List.foldl_append, List.foldl_cons, List.foldl_nil] at hconn'
  rw [ownerAfter_conn hconn', hjob]

theorem TimeLine.logout {conn : Nat} (h : TimeLine env owner jobs (some conn))
    (hjob : job.conn = conn) (hbuf : isLogoutBuf env job.buf = true) :
    TimeLine env owner (jobs ++ [job]) none := by
  refine ⟨(h.receive hjob).own, ?_⟩
  intro conn' hconn'
  rw [List.foldl_append, List.foldl_cons, List.foldl_nil, ownerAfter, if_pos hbuf] at hconn'
  simp at hconn'

theorem TimeLine.silent (h : TimeLine env none jobs live)
    (hjobs : ∀ job ∈ jobs, opensWithLogin env job.buf = false) : TimeLine env none jobs none := by
  refine ⟨h.own, ?_⟩
  have hnone : jobs.foldl (ownerAfter env) none = none := by
    clear h
    induction jobs with
    | nil => rfl
    | cons job jobs ih =>
        rw [List.forall_mem_cons] at hjobs
        have hafter : ownerAfter env none job = none := by
          unfold ownerAfter
          split_ifs <;> simp_all
        rw [List.foldl_cons, hafter]
        exact ih hjobs.2
  intro conn hconn
  simp [hnone] at hconn

theorem TimeLine.accept (h : TimeLine env owner jobs none) : TimeLine env owner jobs live := by
  refine ⟨h.own, ?_⟩
  intro conn hconn
  simpa using h.last conn hconn

theorem TimeLine.start (h : TimeLine env owner (job :: jobs) live) :
    (∀ conn, owner = some conn → conn = job.conn) ∧
      TimeLine env (ownerAfter env owner job) jobs live :=
  ⟨h.own.1, h.own.2, h.last⟩

end Jobs

section Busy

def isAddState (fd : Fd) : Effect → Bool
  | .addState fd' _ => fd' = fd
  | _ => false

def isDelState (fd : Fd) : Effect → Bool
  | .delState fd' => fd' = fd
  | _ => false

/-- The worker is about to register a session, or will be when it comes to the LOGIN at
the head of its buffer. -/
def mayRegister (env : Env) (b : Busy) : Bool :=
  b.todo.any (isAddState b.job.fd) || (b.locals.state.isNone && opensWithLogin env b.locals.buf)

/-- The worker will have logged the session out when it is done. -/
def leaving (env : Env) (b : Busy) : Bool :=
  b.todo.any (isDelState b.job.fd) || isLogoutBuf env b.locals.buf

/-- Which connection may own the session of the descriptor when the worker is done;
`index` is what is registered now. -/
def busyOwner (env : Env) (index : Option Ptr) (b : Busy) : Option Nat :=
  if leaving env b then none
  else if index = none ∧ mayRegister env b = false then none
  else some b.job.conn

/-- An effect of a job for `fd` that changes the index by descriptor only at `fd`. -/
def IndexesOnly (fd : Fd) : Effect → Prop
  | .addState fd' _ => fd' = fd
  | .delState fd' => fd' = fd
  | _ => True

/-- An effect that does not change the index by descriptor. -/
def KeepsIndex : Effect → Prop
  | .addState _ _ => False
  | .delState _ => False
  | _ => True

theorem Quiet.keepsIndex {e : Effect} (h : Quiet e) : KeepsIndex e := by
  cases h <;> trivial

theorem KeepsIndex.spec {e : Effect} (h : KeepsIndex e) (fd : Fd) :
    IndexesOnly fd e ∧ isAddState fd e = false ∧ isDelState fd e = false := by
  cases e with
  | addState fd' p => exact absurd h id
  | delState fd' => exact absurd h id
  | _ => exact ⟨trivial, rfl, rfl⟩

/-- What a turn leaves to be done, by what happens to the session of `fd`. -/
inductive TurnKind (env : Env) (fd : Fd) (l : Locals) (turn : Turn) : Prop where
  | stuck (hlocals : turn.locals = l) (heffects : turn.effects = [])
  | keeps (hstate : turn.locals.state ≠ none ∨ turn.locals.buf = [])
      (hlogout : isLogoutBuf env l.buf = false) (heffects : ∀ e ∈ turn.effects, KeepsIndex e)
  | register (hstate : l.state = none) (hopens : opensWithLogin env l.buf = true)
      (hlogout : isLogoutBuf env l.buf = false)
      (heffects : ∀ e ∈ turn.effects, IndexesOnly fd e ∧ isDelState fd e = false)
  | logout (hstate : turn.locals.state ≠ none) (hdel : turn.effects.any (isDelState fd) = true)
      (heffects : ∀ e ∈ turn.effects, IndexesOnly fd e ∧ isAddState fd e = false)

theorem isLogoutBuf_eq_false {env : Env} {buf : Bytes} (h : ∀ offset c,
    parseCmd env buf ≠ .success offset (.logout c)) : isLogoutBuf env buf = false := by
  unfold isLogoutBuf
  split
  · rename_i offset c hparse
    exact absurd hparse (h offset c)
  · rfl

variable {env : ServerEnv} {fd : Fd} {srv : Server} {l : Locals} {turn : Turn}

theorem turnKind_login {offset : Nat} {login : YYJsonLogin}
    (hparse : parseCmd env.toEnv l.buf = .success offset (.login login)) :
    TurnKind env.toEnv fd l ⟨{ srv with logins := srv.logins + 1 },
      (handleLogin env srv fd l.state login).2,
      ⟨some (handleLogin env srv fd l.state login).1, l.buf.drop offset⟩⟩ := by
  have hlogout : isLogoutBuf env.toEnv l.buf = false :=
    isLogoutBuf_eq_false fun offset c hc => by simp [hparse] at hc
  cases hstate : l.state with
  | none =>
      refine .register hstate (by simp [opensWithLogin, hparse]) hlogout ?_
      intro e he
      simp only [handleLogin, List.mem_append, List.mem_cons, List.not_mem_nil, or_false] at he
      rcases he with (rfl | rfl | rfl | rfl) | he
      · exact ⟨trivial, rfl⟩
      · exact ⟨rfl, rfl⟩
      · exact ⟨trivial, rfl⟩
      · exact ⟨trivial, rfl⟩
      · have hquiet := (loginCmd_quiet env _ fd _ _ e he).keepsIndex.spec fd
        exact ⟨hquiet.1, hquiet.2.2⟩
  | some p =>
      refine .keeps (Or.inl (by simp)) hlogout ?_
      intro e he
      simp only [handleLogin, List.mem_cons] at he
      rcases he with rfl | he
      · trivial
      · exact (loginCmd_quiet env _ fd _ _ e he).keepsIndex

theorem turnKind (h : jsonTurn env fd srv l = some (.ok turn)) :
    TurnKind env.toEnv fd l turn := by
  cases jsonTurn_cases h with
  | rejected err hparse =>
      refine .keeps (Or.inr rfl) ?_ ?_
      · exact isLogoutBuf_eq_false fun offset c hc => by simp [hparse] at hc
      · exact fun e he => (quiet_of_isOutput (closefd_isOutput fd) e he).keepsIndex
  | login offset login hparse => exact turnKind_login hparse
  | ignored offset jobj hparse hlogin hstate => exact .stuck rfl rfl
  | unopened offset jobj p hparse hlogin hstate hnext =>
      refine .keeps (Or.inl (by simp)) ?_ (by simp)
      refine isLogoutBuf_eq_false fun offset' c hc => ?_
      rw [hparse, ParseResult.success.injEq] at hc
      rw [hc.2] at hnext
      simp [nextRun] at hnext
  | command offset jobj p cmd effects hparse hlogin hstate hnext hdispatch =>
      rcases dispatch_cases hdispatch with ⟨hcmd, hquiet⟩ | ⟨c, outputs, rfl, houtputs, rfl⟩
      · refine .keeps (Or.inl (by simp)) ?_ fun e he => (hquiet e he).keepsIndex
        refine isLogoutBuf_eq_false fun offset' c hc => ?_
        rw [hparse, ParseResult.success.injEq] at hc
        rw [hc.2] at hnext
        simp only [nextRun, Option.some.injEq, Except.ok.injEq] at hnext
        exact hcmd c hnext.symm
      · refine .logout (by simp) (by simp [isDelState]) ?_
        intro e he
        simp only [List.mem_append, List.mem_cons, List.not_mem_nil, or_false] at he
        rcases he with he | rfl | rfl
        · have hquiet := (quiet_of_isOutput houtputs e he).keepsIndex.spec fd
          exact ⟨hquiet.1, hquiet.2.1⟩
        · exact ⟨trivial, rfl⟩
        · exact ⟨rfl, rfl⟩

theorem ownsLess_busyOwner {env : Env} {index index' : Option Ptr} {b b' : Busy}
    (hconn : b'.job.conn = b.job.conn)
    (h : leaving env b' = false → index' ≠ none ∨ mayRegister env b' = true →
      leaving env b = false ∧ (index ≠ none ∨ mayRegister env b = true)) :
    OwnsLess (busyOwner env index' b') (busyOwner env index b) := by
  unfold OwnsLess busyOwner
  split_ifs with hleave hnone hleave' hnone' <;> simp_all

theorem opensWithLogin_nil (env : Env) : opensWithLogin env [] = false := rfl

theorem isLogoutBuf_nil (env : Env) : isLogoutBuf env [] = false := rfl

theorem busyOwner_turn {env : Env} {fd : Fd} {l : Locals} {turn : Turn} {job : Job}
    (index : Option Ptr) (hfd : job.fd = fd) (h : TurnKind env fd l turn) :
    OwnsLess (busyOwner env index ⟨job, turn.locals, turn.effects⟩)
      (busyOwner env index ⟨job, l, []⟩) := by
  subst hfd
  cases h with
  | stuck hlocals heffects =>
      rw [hlocals, heffects]
      exact Or.inr rfl
  | keeps hstate hlogout heffects =>
      refine ownsLess_busyOwner rfl ?_
      intro _ hmay
      have hadd : turn.effects.any (isAddState job.fd) = false :=
        List.any_eq_false.mpr fun e he => by simp [((heffects e he).spec job.fd).2.1]
      refine ⟨by simp [leaving, hlogout], ?_⟩
      rcases hmay with hindex | hmay
      · exact Or.inl hindex
      · simp only [mayRegister, hadd, Bool.false_or, Bool.and_eq_true] at hmay
        rcases hstate with hstate | hbuf
        · simp [Option.isNone_iff_eq_none, hstate] at hmay
        · simp [hbuf, opensWithLogin_nil] at hmay
  | register hstate hopens hlogout heffects =>
      refine ownsLess_busyOwner rfl fun _ _ => ⟨by simp [leaving, hlogout], Or.inr ?_⟩
      simp [mayRegister, hstate, hopens]
  | logout hstate hdel heffects =>
      left
      rw [busyOwner, if_pos]
      simp [leaving, hdel]

/-- What is known of a worker in the middle of a job. -/
structure Sound (env : ServerEnv) (b : Busy) : Prop where
  effects : ∀ e ∈ b.todo, IndexesOnly b.job.fd e ∧ FillsNothing e
  manage : b.job.port = env.mangport → ∀ e ∈ b.todo, KeepsIndex e
  leaves : b.todo.any (isDelState b.job.fd) = true →
    b.locals.state ≠ none ∧ b.todo.any (isAddState b.job.fd) = false

theorem any_isDelState_eq_false {es : List Effect} {fd : Fd}
    (h : ∀ e ∈ es, isDelState fd e = false) : es.any (isDelState fd) = false :=
  List.any_eq_false.mpr fun e he => by simp [h e he]

theorem sound_turn {job : Job} (h : System.workTurn env srv job l = some turn) :
    Sound env ⟨job, turn.locals, turn.effects⟩ := by
  unfold System.workTurn at h
  split at h
  · split at h
    · rename_i effects rest hturn
      rw [Option.some.injEq] at h
      subst h
      have hquiet := mmsExecTurn_quiet hturn
      refine ⟨?_, fun _ e he => (hquiet e he).keepsIndex, ?_⟩
      · exact fun e he => ⟨((hquiet e he).keepsIndex.spec _).1, (hquiet e he).fillsNothing⟩
      · intro hdel
        rw [any_isDelState_eq_false fun e he => ((hquiet e he).keepsIndex.spec _).2.2] at hdel
        simp at hdel
    · simp at h
  · rename_i hport
    split at h
    · rename_i turn' hturn
      rw [Option.some.injEq] at h
      subst h
      have hfills := jsonTurn_fillsNothing hturn
      refine ⟨?_, fun hmanage => absurd hmanage hport, ?_⟩
      · intro e he
        refine ⟨?_, hfills e he⟩
        cases turnKind hturn with
        | stuck hlocals heffects => simp [heffects] at he
        | keeps hstate hlogout heffects => exact ((heffects e he).spec _).1
        | register hstate hopens hlogout heffects => exact (heffects e he).1
        | logout hstate hdel heffects => exact (heffects e he).1
      · intro hdel
        cases turnKind hturn with
        | stuck hlocals heffects => simp [heffects] at hdel
        | keeps hstate hlogout heffects =>
            rw [any_isDelState_eq_false fun e he => ((heffects e he).spec _).2.2] at hdel
            simp at hdel
        | register hstate hopens hlogout heffects =>
            rw [any_isDelState_eq_false fun e he => (heffects e he).2] at hdel
            simp at hdel
        | logout hstate hdel heffects =>
            exact ⟨hstate, List.any_eq_false.mpr fun e he => by simp [(heffects e he).2]⟩
    · simp at h

theorem Sound.tail {job : Job} {e : Effect} {todo : List Effect}
    (h : Sound env ⟨job, l, e :: todo⟩) : Sound env ⟨job, l, todo⟩ := by
  refine ⟨fun e' he' => h.effects e' (List.mem_cons_of_mem _ he'),
    fun hport e' he' => h.manage hport e' (List.mem_cons_of_mem _ he'), ?_⟩
  intro hdel
  obtain ⟨hstate, hadd⟩ := h.leaves (by
    simp only at hdel
    simp [hdel])
  simp only [List.any_cons, Bool.or_eq_false_iff] at hadd
  exact ⟨hstate, hadd.2⟩

theorem busyOwner_effect {job : Job} {e : Effect} {todo : List Effect}
    (h : Sound env ⟨job, l, e :: todo⟩) :
    OwnsLess
      (busyOwner env.toEnv ((srv.apply e).fdIndex.getState job.fd) ⟨job, l, todo⟩)
      (busyOwner env.toEnv (srv.fdIndex.getState job.fd) ⟨job, l, e :: todo⟩) := by
  have honly := (h.effects e (by simp)).1
  cases e with
  | addState fd' p =>
      obtain rfl : fd' = job.fd := honly
      refine ownsLess_busyOwner rfl ?_
      intro hleave _
      refine ⟨by simpa [leaving, isDelState] using hleave, Or.inr ?_⟩
      simp [mayRegister, isAddState]
  | delState fd' =>
      obtain rfl : fd' = job.fd := honly
      obtain ⟨hstate, hadd⟩ := h.leaves (by simp [isDelState])
      simp only [List.any_cons, Bool.or_eq_false_iff] at hadd
      left
      unfold busyOwner
      split
      · rfl
      · rw [if_pos]
        refine ⟨StateMap.getState_delState_self _ _, ?_⟩
        simp only [mayRegister, hadd.2, Bool.false_or, Bool.and_eq_false_iff]
        exact Or.inl (by simpa [Option.isSome_iff_ne_none] using hstate)
  | _ =>
      exact Or.inr (by
        simp [busyOwner, leaving, mayRegister, isDelState, isAddState, Server.apply])

end Busy

section Descriptors

variable (env : ServerEnv) (threadnum : Nat) (s : System) (fd : Fd)

def runningOn : Option Busy :=
  (s.workers (fd % threadnum)).filter fun b => b.job.fd = fd ∧ b.job.port ≠ env.mangport

/-- Which connection may own the session of `fd` when the next job for it begins. -/
def ownerOf : Option Nat :=
  match runningOn env threadnum s fd with
  | none => (s.srv.fdIndex.getState fd).map fun _ => s.registrant fd
  | some b => busyOwner env.toEnv (s.srv.fdIndex.getState fd) b

def queued : List Job :=
  (s.jobs (fd % threadnum)).filter fun job => job.fd = fd ∧ job.port ≠ env.mangport

def liveOn : Option Nat := (s.fdStates.getState fd).map FdState.conn

/-- When `fd` is closed now: a session is registered and gets its LOGOUT, or no LOGIN
is waiting or being handled. -/
def Settled : Prop :=
  s.srv.fdIndex.getState fd ≠ none ∨
    ((∀ job ∈ queued env threadnum s fd, opensWithLogin env.toEnv job.buf = false) ∧
      ∀ b ∈ runningOn env threadnum s fd, mayRegister env.toEnv b = false)

instance : Decidable (Settled env threadnum s fd) :=
  inferInstanceAs (Decidable (_ ≠ _ ∨ (∀ _ ∈ _, _) ∧ ∀ _ ∈ _, _))

def closing (s : System) : Action → Option Fd
  | .shutdown fd => some fd
  | .write fd result => (s.fdStates.getState fd).bind fun st =>
      if st.doWrite result = none then some fd else none
  | .dispatch => s.bufqueue.head?.bind fun m =>
      if m.item.buf = [] then some m.item.fd else none
  | _ => none

/-- No descriptor is closed between the arrival of a LOGIN and its registration. -/
def ClosesSettled (s : System) (a : Action) : Prop :=
  ∀ fd ∈ closing s a, Settled env threadnum s fd

instance (s : System) (a : Action) : Decidable (ClosesSettled env threadnum s a) :=
  inferInstanceAs (Decidable (∀ fd ∈ closing s a, _))

structure SessionsOwned : Prop where
  opened : ∀ fd st, s.fdStates.getState fd = some st → fd ≠ 0
  placed : ∀ w, ∀ job ∈ s.jobs w, job.fd % threadnum = w ∧ job.fd ≠ 0
  workers : ∀ w b, s.workers w = some b → b.job.fd % threadnum = w ∧ Sound env b
  empty : NoLeftovers s.srv
  own : ∀ fd, ∀ b ∈ runningOn env threadnum s fd, s.srv.fdIndex.getState fd ≠ none →
    s.registrant fd = b.job.conn
  line : ∀ fd, TimeLine env.toEnv (ownerOf env threadnum s fd) (queued env threadnum s fd)
    (liveOn s fd)

end Descriptors

section Steps

variable {env : ServerEnv} {threadnum : Nat} {s t : System} {fd : Fd}

theorem ownerOf_congr (hsrv : t.srv.fdIndex.getState fd = s.srv.fdIndex.getState fd)
    (hregistrant : t.registrant fd = s.registrant fd)
    (hrunning : runningOn env threadnum t fd = runningOn env threadnum s fd) :
    ownerOf env threadnum t fd = ownerOf env threadnum s fd := by
  unfold ownerOf
  rw [hsrv, hregistrant, hrunning]

theorem queued_dataReceive (s : System) (job : Job) (fd : Fd) :
    queued env threadnum (s.dataReceive threadnum job) fd =
      queued env threadnum s fd ++
        if job.fd = fd ∧ job.port ≠ env.mangport then [job] else [] := by
  unfold queued System.dataReceive
  by_cases hw : fd % threadnum = job.fd % threadnum
  · simp only [hw, Function.update_self, List.filter_append, List.filter_singleton]
    by_cases hjob : job.fd = fd ∧ job.port ≠ env.mangport
    · simp [hjob]
    · simp [hjob]
  · have hne : job.fd ≠ fd := fun heq => hw (by rw [heq])
    simp [Function.update_of_ne hw, hne]

theorem placed_dataReceive {job : Job}
    (h : ∀ w, ∀ job ∈ s.jobs w, job.fd % threadnum = w ∧ job.fd ≠ 0) (hjob : job.fd ≠ 0) :
    ∀ w, ∀ job' ∈ (s.dataReceive threadnum job).jobs w,
      job'.fd % threadnum = w ∧ job'.fd ≠ 0 := by
  intro w job' hjob'
  by_cases hw : w = job.fd % threadnum
  · subst hw
    simp only [System.dataReceive, Function.update_self, List.mem_append,
      List.mem_singleton] at hjob'
    rcases hjob' with hjob' | rfl
    · exact h _ job' hjob'
    · exact ⟨rfl, hjob⟩
  · simp only [System.dataReceive, Function.update_of_ne hw] at hjob'
    exact h w job' hjob'

theorem liveOn_addState {st : FdState} (fd' : Fd) :
    liveOn (s.putState fd st) fd' = if fd' = fd then some st.conn else liveOn s fd' := by
  unfold liveOn System.putState
  rw [StateMap.getState_addState]
  split <;> rfl

theorem opened_putState {st : FdState} (h : ∀ fd st, s.fdStates.getState fd = some st → fd ≠ 0)
    (hfd : fd ≠ 0) : ∀ fd' st', (s.putState fd st).fdStates.getState fd' = some st' → fd' ≠ 0 := by
  intro fd' st' hst'
  by_cases heq : fd' = fd
  · rw [heq]
    exact hfd
  · rw [System.putState, StateMap.getState_addState_of_ne _ _ heq] at hst'
    exact h fd' st' hst'

theorem owned_accept {port : UInt32} (h : SessionsOwned env threadnum s) (hfd : fd ≠ 0)
    (hfree : s.fdStates.getState fd = none) :
    SessionsOwned env threadnum
      { s.putState fd (.alloc port s.accepts) with accepts := s.accepts + 1 } := by
  refine ⟨opened_putState h.opened hfd, h.placed, h.workers, h.empty, h.own, ?_⟩
  intro fd'
  have hline := h.line fd'
  have hlive : liveOn { s.putState fd (.alloc port s.accepts) with accepts := s.accepts + 1 } fd' =
      if fd' = fd then some s.accepts else liveOn s fd' := liveOn_addState fd'
  rw [hlive]
  split
  · rename_i heq
    rw [heq] at hline
    have hnone : liveOn s fd = none := by simp [liveOn, hfree]
    rw [hnone] at hline
    rw [heq]
    exact hline.accept
  · exact hline

theorem owned_putState {st st' : FdState} (h : SessionsOwned env threadnum s)
    (hst : s.fdStates.getState fd = some st) (hconn : st'.conn = st.conn) :
    SessionsOwned env threadnum (s.putState fd st') := by
  refine ⟨opened_putState h.opened (h.opened fd st hst), h.placed, h.workers, h.empty, h.own, ?_⟩
  intro fd'
  have hline := h.line fd'
  rw [liveOn_addState]
  split
  · rename_i heq
    rw [heq] at hline ⊢
    have hlive : liveOn s fd = some st'.conn := by simp [liveOn, hst, hconn]
    rw [hlive] at hline
    exact hline
  · exact hline

theorem owned_receive {data : Bytes} {st : FdState} (h : SessionsOwned env threadnum s)
    (hst : s.fdStates.getState fd = some st) :
    SessionsOwned env threadnum
      (s.dataReceive threadnum ⟨fd, data, st.listenPort, st.conn⟩) := by
  refine ⟨h.opened, placed_dataReceive h.placed (h.opened fd st hst), h.workers, h.empty, h.own, ?_⟩
  intro fd'
  have hline := h.line fd'
  rw [queued_dataReceive]
  split
  · rename_i hjob
    obtain ⟨rfl, -⟩ := hjob
    have hlive : liveOn s fd = some st.conn := by simp [liveOn, hst]
    change TimeLine _ (ownerOf env threadnum s fd) _ (liveOn s fd)
    rw [hlive] at hline ⊢
    exact hline.receive rfl
  · rw [List.append_nil]
    exact hline

theorem fdClose_eq_none_iff {ssl : OpenSSL} {srv : Server} {fd : Fd} :
    fdClose ssl srv fd = none ↔ srv.fdIndex.getState fd = none := by
  unfold fdClose
  split
  · rename_i hnone
    simp [hnone]
  · rename_i p hp
    simp [hp, formatCmd_eq]

theorem isLogoutBuf_fdClose (env : Env) {ssl : OpenSSL} {srv : Server} {fd : Fd} {buf : Bytes}
    (h : fdClose ssl srv fd = some buf) : isLogoutBuf env buf = true := by
  unfold fdClose at h
  split at h
  · simp at h
  · simp [isLogoutBuf, parseCmd_logout env h]

theorem ownerOf_eq_none (hindex : s.srv.fdIndex.getState fd = none)
    (hrunning : ∀ b ∈ runningOn env threadnum s fd, mayRegister env.toEnv b = false) :
    ownerOf env threadnum s fd = none := by
  unfold ownerOf
  split
  · simp [hindex]
  · rename_i b hb
    simp [busyOwner, hindex, hrunning b hb]

theorem owned_free {st : FdState} (hports : env.port ≠ env.mangport)
    (h : SessionsOwned env threadnum s) (hst : s.fdStates.getState fd = some st)
    (hsettled : Settled env threadnum s fd) :
    SessionsOwned env threadnum (s.freeFdState env threadnum fd st) := by
  have hfd := h.opened fd st hst
  have hopened : ∀ fd' st', (s.freeFdState env threadnum fd st).fdStates.getState fd' = some st' →
      fd' ≠ 0 := by
    intro fd' st' hst'
    rw [System.freeFdState_fdStates, StateMap.getState_delState] at hst'
    split at hst'
    · simp at hst'
    · exact h.opened fd' st' hst'
  have hlive : ∀ fd', liveOn (s.freeFdState env threadnum fd st) fd' =
      if fd' = fd then none else liveOn s fd' := by
    intro fd'
    unfold liveOn
    rw [System.freeFdState_fdStates, StateMap.getState_delState]
    split <;> rfl
  have hconn : liveOn s fd = some st.conn := by simp [liveOn, hst]
  cases hclose : fdClose env.ssl s.srv fd with
  | none =>
      have hfree : s.freeFdState env threadnum fd st =
          { s with fdStates := s.fdStates.delState fd } := by
        simp only [System.freeFdState, hclose]
      have hindex := fdClose_eq_none_iff.mp hclose
      rw [hfree] at hopened hlive ⊢
      refine ⟨hopened, h.placed, h.workers, h.empty, h.own, ?_⟩
      intro fd'
      have hline := h.line fd'
      rw [hlive]
      split
      · rename_i heq
        subst heq
        rcases hsettled with hregistered | ⟨hqueued, hrunning⟩
        · exact absurd hindex hregistered
        · have howner := ownerOf_eq_none hindex hrunning
          change TimeLine _ (ownerOf env threadnum s fd') (queued env threadnum s fd') none
          rw [howner] at hline ⊢
          exact hline.silent hqueued
      · exact hline
  | some buf =>
      have hfree : s.freeFdState env threadnum fd st =
          { s.dataReceive threadnum ⟨fd, buf, env.port, st.conn⟩ with
            fdStates := s.fdStates.delState fd } := by
        simp only [System.freeFdState, hclose]
        rfl
      rw [hfree] at hopened hlive ⊢
      refine ⟨hopened, placed_dataReceive h.placed hfd, h.workers, h.empty, h.own, ?_⟩
      intro fd'
      have hline := h.line fd'
      have hqueued : queued env threadnum { s.dataReceive threadnum ⟨fd, buf, env.port, st.conn⟩ with
          fdStates := s.fdStates.delState fd } fd' = queued env threadnum s fd' ++
            if fd = fd' ∧ env.port ≠ env.mangport then [⟨fd, buf, env.port, st.conn⟩] else [] :=
        queued_dataReceive s _ fd'
      rw [hlive, hqueued]
      by_cases heq : fd' = fd
      · subst heq
        rw [if_pos rfl, if_pos ⟨rfl, hports⟩]
        rw [hconn] at hline
        exact hline.logout rfl (isLogoutBuf_fdClose env.toEnv hclose)
      · rw [if_neg heq, if_neg (fun hand => heq hand.1.symm), List.append_nil]
        exact hline

theorem runningOn_eq_some {b : Busy} :
    runningOn env threadnum s fd = some b ↔
      s.workers (fd % threadnum) = some b ∧ b.job.fd = fd ∧ b.job.port ≠ env.mangport := by
  simp [runningOn, Option.filter_eq_some_iff]

theorem runningOn_eq_none_of_idle (h : s.workers (fd % threadnum) = none) :
    runningOn env threadnum s fd = none := by
  simp [runningOn, h]

theorem runningOn_setWorker (w : Nat) (b : Option Busy) (fd : Fd) :
    runningOn env threadnum (s.setWorker w b) fd =
      if fd % threadnum = w then b.filter fun b => b.job.fd = fd ∧ b.job.port ≠ env.mangport
      else runningOn env threadnum s fd := by
  unfold runningOn System.setWorker
  split
  · rename_i hw
    simp [hw]
  · rename_i hw
    simp [Function.update_of_ne hw]

theorem jsonBegin_of_noLeftovers {srv : Server} (h : NoLeftovers srv) (fd : Fd)
    (readbuffer : Bytes) :
    (jsonBegin srv fd readbuffer).1.fdIndex = srv.fdIndex ∧
      (jsonBegin srv fd readbuffer).2 = ⟨srv.fdIndex.getState fd, readbuffer⟩ := by
  unfold jsonBegin
  split
  · rename_i hnone
    exact ⟨rfl, by rw [hnone]⟩
  · rename_i p hp
    exact ⟨rfl, by rw [hp, h p, List.nil_append]⟩

theorem busyOwner_start (env : Env) (index : Option Ptr) (registrant : Nat) (job : Job) :
    busyOwner env index ⟨job, ⟨index, job.buf⟩, []⟩ =
      ownerAfter env (index.map fun _ => registrant) job := by
  cases index with
  | none => simp [busyOwner, ownerAfter, leaving, mayRegister]
  | some p => simp [busyOwner, ownerAfter, leaving, mayRegister]

theorem sound_start (env : ServerEnv) (job : Job) (l : Locals) : Sound env ⟨job, l, []⟩ :=
  ⟨by simp, by simp, by simp⟩

theorem runningOn_update {w : Nat} {job : Job} {l : Locals} {todo : List Effect}
    (hw : job.fd % threadnum = w) (hbefore : ∀ b, s.workers w = some b → b.job = job) (fd : Fd) :
    runningOn env threadnum (s.setWorker w (some ⟨job, l, todo⟩)) fd =
      if fd = job.fd ∧ job.port ≠ env.mangport then some ⟨job, l, todo⟩
      else runningOn env threadnum s fd := by
  rw [runningOn_setWorker]
  by_cases hjob : fd = job.fd ∧ job.port ≠ env.mangport
  · have hfd : fd % threadnum = w := by rw [hjob.1, hw]
    rw [if_pos hfd, if_pos hjob]
    simp [hjob.1, hjob.2]
  · rw [if_neg hjob]
    have hjob' : ¬ (job.fd = fd ∧ job.port ≠ env.mangport) := fun hand => hjob ⟨hand.1.symm, hand.2⟩
    split
    · rename_i hfd
      have hnone : runningOn env threadnum s fd = none := by
        rw [Option.eq_none_iff_forall_ne_some]
        intro b hb
        obtain ⟨hb, hbjob⟩ := runningOn_eq_some.mp hb
        rw [hbefore b (by rw [← hfd]; exact hb)] at hbjob
        exact hjob' hbjob
      rw [hnone]
      simpa using hjob'
    · rfl

theorem queued_start {w : Nat} {job : Job} {rest : List Job} (hw : job.fd % threadnum = w)
    (hjobs : s.jobs w = job :: rest) (fd : Fd) :
    queued env threadnum s fd =
      (if fd = job.fd ∧ job.port ≠ env.mangport then [job] else []) ++
        queued env threadnum { s with jobs := Function.update s.jobs w rest } fd := by
  unfold queued
  by_cases hfd : fd % threadnum = w
  · simp only [hfd, hjobs, Function.update_self, List.filter_cons]
    by_cases hjob : job.fd = fd ∧ job.port ≠ env.mangport
    · simp [hjob]
    · have hjob' : ¬ (fd = job.fd ∧ job.port ≠ env.mangport) :=
        fun hand => hjob ⟨hand.1.symm, hand.2⟩
      simp [hjob, hjob']
  · have hjob : ¬ (fd = job.fd ∧ job.port ≠ env.mangport) :=
      fun hand => hfd (by rw [hand.1]; exact hw)
    simp only [if_neg hjob, Function.update_of_ne hfd, List.nil_append]

theorem startJob_eq (env : ServerEnv) {job : Job} (w : Nat) (hempty : NoLeftovers s.srv)
    (hfd : job.fd ≠ 0) :
    ∃ srv l, s.startJob env w job = { s with srv := srv }.setWorker w (some ⟨job, l, []⟩) ∧
      srv.fdIndex = s.srv.fdIndex ∧ NoLeftovers srv ∧
      (job.port ≠ env.mangport → l = ⟨s.srv.fdIndex.getState job.fd, job.buf⟩) := by
  unfold System.startJob
  rw [if_neg hfd]
  by_cases hport : job.port = env.mangport
  · rw [if_pos hport]
    exact ⟨s.srv, _, rfl, rfl, hempty, fun hne => absurd hport hne⟩
  · rw [if_neg hport]
    obtain ⟨hbegin, hl⟩ := jsonBegin_of_noLeftovers hempty job.fd job.buf
    exact ⟨_, _, rfl, hbegin, jsonBegin_noLeftovers hempty _ _, fun _ => hl⟩

theorem workers_setWorker {w : Nat} {b : Busy}
    (h : ∀ w b, s.workers w = some b → b.job.fd % threadnum = w ∧ Sound env b)
    (hb : b.job.fd % threadnum = w ∧ Sound env b) :
    ∀ w' b', (s.setWorker w (some b)).workers w' = some b' →
      b'.job.fd % threadnum = w' ∧ Sound env b' := by
  intro w' b' hb'
  by_cases hw : w' = w
  · subst hw
    simp only [System.setWorker, Function.update_self, Option.some.injEq] at hb'
    rw [← hb']
    exact hb
  · simp only [System.setWorker, Function.update_of_ne hw] at hb'
    exact h w' b' hb'

theorem owned_start {w : Nat} {job : Job} {rest : List Job} (h : SessionsOwned env threadnum s)
    (hidle : s.workers w = none) (hjobs : s.jobs w = job :: rest) :
    SessionsOwned env threadnum
      ({ s with jobs := Function.update s.jobs w rest }.startJob env w job) := by
  obtain ⟨hw, hfd⟩ := h.placed w job (by simp [hjobs])
  obtain ⟨srv, l, hstart, hindex, hempty, hlocals⟩ :=
    startJob_eq (s := { s with jobs := Function.update s.jobs w rest }) env w h.empty hfd
  rw [hstart]
  have hrunning : ∀ fd, runningOn env threadnum ({ s with
      srv := srv
      jobs := Function.update s.jobs w rest }.setWorker w (some ⟨job, l, []⟩)) fd =
      if fd = job.fd ∧ job.port ≠ env.mangport then some ⟨job, l, []⟩
      else runningOn env threadnum s fd :=
    runningOn_update hw fun b hb => by simp [hidle] at hb
  have howner : runningOn env threadnum s job.fd = none :=
    runningOn_eq_none_of_idle (by rw [hw]; exact hidle)
  have hstarted := h.line job.fd
  rw [queued_start hw hjobs] at hstarted
  refine ⟨h.opened, ?_, workers_setWorker h.workers ⟨hw, sound_start env job l⟩, hempty, ?_, ?_⟩
  · intro w' job' hjob'
    by_cases hw' : w' = w
    · subst hw'
      simp only [System.setWorker, Function.update_self] at hjob'
      exact h.placed w' job' (by rw [hjobs]; exact List.mem_cons_of_mem _ hjob')
    · simp only [System.setWorker, Function.update_of_ne hw'] at hjob'
      exact h.placed w' job' hjob'
  · intro fd b hb hregistered
    change srv.fdIndex.getState fd ≠ none at hregistered
    rw [hindex] at hregistered
    rw [Option.mem_def, hrunning] at hb
    split at hb
    · rename_i hjob
      rw [Option.some.injEq] at hb
      subst hb
      obtain ⟨rfl, hport⟩ := hjob
      rw [if_pos ⟨rfl, hport⟩] at hstarted
      refine hstarted.start.1 (s.registrant job.fd) ?_
      obtain ⟨p, hp⟩ := Option.ne_none_iff_exists'.mp hregistered
      simp only [ownerOf, howner]
      simp [hp]
    · exact h.own fd b hb hregistered
  · intro fd
    change TimeLine env.toEnv _ (queued env threadnum { s with
      jobs := Function.update s.jobs w rest } fd) (liveOn s fd)
    by_cases hjob : fd = job.fd ∧ job.port ≠ env.mangport
    · obtain ⟨rfl, hport⟩ := hjob
      rw [if_pos ⟨rfl, hport⟩] at hstarted
      have hbegin := hstarted.start.2
      have howner' : ownerOf env threadnum s job.fd =
          (s.srv.fdIndex.getState job.fd).map fun _ => s.registrant job.fd := by
        simp only [ownerOf, howner]
      rw [howner', ← busyOwner_start] at hbegin
      rw [ownerOf, hrunning, if_pos ⟨rfl, hport⟩, hlocals hport]
      change TimeLine env.toEnv (busyOwner env.toEnv (srv.fdIndex.getState job.fd) _) _ _
      rw [hindex]
      exact hbegin
    · have hline := h.line fd
      rw [queued_start hw hjobs, if_neg hjob, List.nil_append] at hline
      have hsame : srv.fdIndex.getState fd = s.srv.fdIndex.getState fd := by rw [hindex]
      have howns : ownerOf env threadnum ({ s with
          srv := srv
          jobs := Function.update s.jobs w rest }.setWorker w (some ⟨job, l, []⟩)) fd =
          ownerOf env threadnum s fd :=
        ownerOf_congr hsame rfl (by rw [hrunning, if_neg hjob])
      rw [howns]
      exact hline

theorem owned_work {w : Nat} {job : Job} {l l' : Locals} {todo todo' : List Effect} {srv : Server}
    {registrant : Fd → Nat} {bufqueue : List Posted} (h : SessionsOwned env threadnum s)
    (hbusy : s.workers w = some ⟨job, l, todo⟩) (hempty : NoLeftovers srv)
    (hsound : Sound env ⟨job, l', todo'⟩)
    (hother : ∀ fd, fd ≠ job.fd ∨ job.port = env.mangport →
      srv.fdIndex.getState fd = s.srv.fdIndex.getState fd ∧ registrant fd = s.registrant fd)
    (hown : job.port ≠ env.mangport → srv.fdIndex.getState job.fd ≠ none →
      s.srv.fdIndex.getState job.fd ≠ none ∧ registrant job.fd = s.registrant job.fd ∨
        registrant job.fd = job.conn)
    (hless : job.port ≠ env.mangport →
      OwnsLess (busyOwner env.toEnv (srv.fdIndex.getState job.fd) ⟨job, l', todo'⟩)
        (busyOwner env.toEnv (s.srv.fdIndex.getState job.fd) ⟨job, l, todo⟩)) :
    SessionsOwned env threadnum
      ({ s with srv := srv, registrant := registrant, bufqueue := bufqueue }.setWorker w
        (some ⟨job, l', todo'⟩)) := by
  obtain ⟨hw, -⟩ := h.workers w _ hbusy
  have hrunning : ∀ fd, runningOn env threadnum ({ s with
      srv := srv
      registrant := registrant
      bufqueue := bufqueue }.setWorker w (some ⟨job, l', todo'⟩)) fd =
      if fd = job.fd ∧ job.port ≠ env.mangport then some ⟨job, l', todo'⟩
      else runningOn env threadnum s fd := by
    refine runningOn_update hw fun b hb => ?_
    change s.workers w = some b at hb
    rw [hbusy, Option.some.injEq] at hb
    rw [← hb]
  have hbefore : job.port ≠ env.mangport →
      runningOn env threadnum s job.fd = some ⟨job, l, todo⟩ := by
    intro hport
    exact runningOn_eq_some.mpr ⟨by rw [hw]; exact hbusy, rfl, hport⟩
  have helsewhere : ∀ fd, ¬ (fd = job.fd ∧ job.port ≠ env.mangport) →
      srv.fdIndex.getState fd = s.srv.fdIndex.getState fd ∧ registrant fd = s.registrant fd := by
    intro fd hjob
    rw [not_and_or, not_not] at hjob
    exact hother fd hjob
  refine ⟨h.opened, h.placed, workers_setWorker h.workers ⟨hw, hsound⟩, hempty, ?_, ?_⟩
  · intro fd b hb hregistered
    change srv.fdIndex.getState fd ≠ none at hregistered
    change registrant fd = b.job.conn
    rw [Option.mem_def, hrunning] at hb
    split at hb
    · rename_i hjob
      rw [Option.some.injEq] at hb
      subst hb
      obtain ⟨rfl, hport⟩ := hjob
      rcases hown hport hregistered with ⟨hregistered', hsame⟩ | hconn
      · rw [hsame]
        exact h.own job.fd ⟨job, l, todo⟩ (hbefore hport) hregistered'
      · exact hconn
    · rename_i hjob
      obtain ⟨hindex, hsame⟩ := helsewhere fd hjob
      rw [hindex] at hregistered
      rw [hsame]
      exact h.own fd b hb hregistered
  · intro fd
    have hline := h.line fd
    by_cases hjob : fd = job.fd ∧ job.port ≠ env.mangport
    · obtain ⟨rfl, hport⟩ := hjob
      refine hline.mono ?_
      unfold ownerOf
      rw [hrunning, if_pos ⟨rfl, hport⟩, hbefore hport]
      exact hless hport
    · obtain ⟨hindex, hsame⟩ := helsewhere fd hjob
      rw [ownerOf_congr hindex hsame (by rw [hrunning, if_neg hjob])]
      exact hline

theorem workTurn_srv {srv : Server} {job : Job} {l : Locals} {turn : Turn}
    (h : System.workTurn env srv job l = some turn) :
    turn.srv.fdIndex = srv.fdIndex ∧ turn.srv.heap = srv.heap := by
  unfold System.workTurn at h
  split at h
  · split at h
    · rw [Option.some.injEq] at h
      rw [← h]
      exact ⟨rfl, rfl⟩
    · simp at h
  · split at h
    · rename_i turn' hturn
      rw [Option.some.injEq] at h
      rw [← h]
      cases jsonTurn_cases hturn <;> exact ⟨rfl, rfl⟩
    · simp at h

theorem turnKind_of_workTurn {srv : Server} {job : Job} {l : Locals} {turn : Turn}
    (hport : job.port ≠ env.mangport) (h : System.workTurn env srv job l = some turn) :
    TurnKind env.toEnv job.fd l turn := by
  unfold System.workTurn at h
  rw [if_neg hport] at h
  split at h
  · rename_i turn' hturn
    rw [Option.some.injEq] at h
    rw [← h]
    exact turnKind hturn
  · simp at h

theorem owned_turn {w : Nat} {job : Job} {l : Locals} {turn : Turn}
    (h : SessionsOwned env threadnum s) (hbusy : s.workers w = some ⟨job, l, []⟩)
    (hturn : System.workTurn env s.srv job l = some turn) :
    SessionsOwned env threadnum
      ({ s with srv := turn.srv }.setWorker w (some ⟨job, turn.locals, turn.effects⟩)) := by
  obtain ⟨hindex, hheap⟩ := workTurn_srv hturn
  have hempty : NoLeftovers turn.srv := by
    intro p
    rw [hheap]
    exact h.empty p
  refine owned_work h hbusy hempty (sound_turn hturn) ?_ ?_ ?_
  · intro fd _
    exact ⟨by rw [hindex], rfl⟩
  · intro _ hregistered
    rw [hindex] at hregistered
    exact Or.inl ⟨hregistered, rfl⟩
  · intro hport
    rw [hindex]
    exact busyOwner_turn _ rfl (turnKind_of_workTurn hport hturn)

theorem access_eq (s : System) (job : Job) (e : Effect) :
    ∃ registrant bufqueue, s.access job e =
      { s with srv := s.srv.apply e, registrant := registrant, bufqueue := bufqueue } ∧
      (∀ fd, isAddState fd e = false → registrant fd = s.registrant fd) ∧
      ∀ fd, isAddState fd e = true → registrant fd = job.conn := by
  cases e with
  | addState fd p =>
      refine ⟨_, _, rfl, ?_, ?_⟩
      · intro fd' hfd'
        have hne : fd' ≠ fd := fun heq => by simp [isAddState, heq] at hfd'
        exact Function.update_of_ne hne _ _
      · intro fd' hfd'
        obtain rfl : fd = fd' := by simpa [isAddState] using hfd'
        exact Function.update_self _ _ _
  | _ => exact ⟨_, _, rfl, fun _ _ => rfl, fun _ hadd => by simp [isAddState] at hadd⟩

theorem getState_apply_of_ne {e : Effect} {fd' : Fd} (srv : Server) (h : IndexesOnly fd' e)
    (hfd : fd ≠ fd' ∨ KeepsIndex e) :
    (srv.apply e).fdIndex.getState fd = srv.fdIndex.getState fd ∧ isAddState fd e = false := by
  cases e with
  | addState fd'' p =>
      obtain rfl : fd'' = fd' := h
      have hne : fd ≠ fd'' := hfd.resolve_right id
      exact ⟨StateMap.getState_addState_of_ne _ _ hne, by simp [isAddState, hne.symm]⟩
  | delState fd'' =>
      obtain rfl : fd'' = fd' := h
      exact ⟨StateMap.getState_delState_of_ne _ (hfd.resolve_right id), rfl⟩
  | _ => exact ⟨rfl, rfl⟩

theorem owned_effect {w : Nat} {job : Job} {l : Locals} {e : Effect} {todo : List Effect}
    (h : SessionsOwned env threadnum s) (hbusy : s.workers w = some ⟨job, l, e :: todo⟩) :
    SessionsOwned env threadnum ((s.access job e).setWorker w (some ⟨job, l, todo⟩)) := by
  obtain ⟨-, hsound⟩ := h.workers w _ hbusy
  obtain ⟨honly, hfills⟩ := hsound.effects e (by simp)
  obtain ⟨registrant, bufqueue, haccess, hkeep, hadd⟩ := access_eq s job e
  rw [haccess]
  refine owned_work h hbusy (hfills.apply h.empty) hsound.tail ?_ ?_ ?_
  · intro fd hfd
    have hfd' : fd ≠ job.fd ∨ KeepsIndex e :=
      hfd.imp_right fun hport => hsound.manage hport e (by simp)
    obtain ⟨hindex, hnot⟩ := getState_apply_of_ne s.srv honly hfd'
    exact ⟨hindex, hkeep fd hnot⟩
  · intro _ hregistered
    cases hcase : isAddState job.fd e with
    | true => exact Or.inr (hadd job.fd hcase)
    | false =>
        left
        refine ⟨?_, hkeep job.fd hcase⟩
        cases e with
        | addState fd p =>
            obtain rfl : fd = job.fd := honly
            simp [isAddState] at hcase
        | delState fd =>
            obtain rfl : fd = job.fd := honly
            exact absurd (StateMap.getState_delState_self _ _) hregistered
        | _ => exact hregistered
  · intro _
    exact busyOwner_effect hsound

theorem busyOwner_finish {env : Env} {index : Option Ptr} {job : Job} {l : Locals}
    {registrant : Nat} (hbuf : l.buf = []) (hown : index ≠ none → registrant = job.conn) :
    busyOwner env index ⟨job, l, []⟩ = index.map fun _ => registrant := by
  cases index with
  | none => simp [busyOwner, leaving, mayRegister, hbuf, isLogoutBuf_nil, opensWithLogin_nil]
  | some p => simp [busyOwner, leaving, hbuf, isLogoutBuf_nil, hown (by simp)]

theorem owned_finish {w : Nat} {job : Job} {l : Locals} (h : SessionsOwned env threadnum s)
    (hbusy : s.workers w = some ⟨job, l, []⟩) (hbuf : l.buf = []) :
    SessionsOwned env threadnum (s.setWorker w none) := by
  refine ⟨h.opened, h.placed, ?_, h.empty, ?_, ?_⟩
  · intro w' b hb
    by_cases hw : w' = w
    · subst hw
      simp [System.setWorker] at hb
    · simp only [System.setWorker, Function.update_of_ne hw] at hb
      exact h.workers w' b hb
  · intro fd b hb hregistered
    rw [Option.mem_def, runningOn_setWorker] at hb
    split at hb
    · simp at hb
    · exact h.own fd b hb hregistered
  · intro fd
    have hline := h.line fd
    have howns : ownerOf env threadnum (s.setWorker w none) fd = ownerOf env threadnum s fd := by
      unfold ownerOf
      rw [runningOn_setWorker]
      by_cases hfd : fd % threadnum = w
      · rw [if_pos hfd]
        cases hrunning : runningOn env threadnum s fd with
        | none => rfl
        | some b =>
            obtain ⟨hb, hbfd, -⟩ := runningOn_eq_some.mp hrunning
            rw [hfd, hbusy, Option.some.injEq] at hb
            subst hb
            exact (busyOwner_finish hbuf fun hregistered => h.own fd _ hrunning hregistered).symm
      · rw [if_neg hfd]
        rfl
    rw [howns]
    exact hline

theorem owned_queueReceive {item : QueueItem} (hports : env.port ≠ env.mangport)
    (h : SessionsOwned env threadnum s)
    (hsettled : item.buf = [] → Settled env threadnum s item.fd) :
    SessionsOwned env threadnum (s.queueReceive env threadnum item) := by
  unfold System.queueReceive
  split
  · exact h
  · rename_i st hst
    split
    · rename_i hbuf
      exact owned_free hports h hst (hsettled hbuf)
    · exact owned_putState h hst rfl

theorem owned_step {a : Action} (hports : env.port ≠ env.mangport)
    (h : SessionsOwned env threadnum s) (hguard : ClosesSettled env threadnum s a)
    (hstep : System.step env threadnum s a = some t) : SessionsOwned env threadnum t := by
  cases System.step_cases hstep with
  | accept fd port hfd hfree hport => exact owned_accept h hfd hfree
  | receive fd data st hst hdata => exact owned_receive h hst
  | shutdown fd st hst => exact owned_free hports h hst (hguard fd rfl)
  | written fd result st st' hst hsend hwrite =>
      exact owned_putState h hst (FdState.doWrite_same hwrite).2.1
  | broken fd result st hst hwrite =>
      exact owned_free hports h hst (hguard fd (by simp [closing, hst, hwrite]))
  | dispatch m rest hqueue =>
      have hrest : SessionsOwned env threadnum { s with bufqueue := rest } :=
        ⟨h.opened, h.placed, h.workers, h.empty, h.own, h.line⟩
      refine owned_queueReceive hports hrest ?_
      intro hbuf
      exact hguard m.item.fd (by simp [closing, hqueue, hbuf])
  | start w job rest hidle hjobs => exact owned_start h hidle hjobs
  | turn w job l turn hbusy hbuf hturn => exact owned_turn h hbusy hturn
  | effect w job l e todo hbusy => exact owned_effect h hbusy
  | finish w job l hbusy hbuf => exact owned_finish h hbusy hbuf

theorem reachable_owned (hports : env.port ≠ env.mangport)
    (h : (mmsServer env threadnum).Reachable (ClosesSettled env threadnum) s) :
    SessionsOwned env threadnum s := by
  refine h.invariant (SessionsOwned env threadnum) ?_ ?_
  · refine ⟨?_, ?_, ?_, ?_, ?_, ?_⟩
    · intro fd st hst
      simp [mmsServer, System.init] at hst
    · intro w job hjob
      simp [mmsServer, System.init] at hjob
    · intro w b hb
      simp [mmsServer, System.init] at hb
    · intro p
      rfl
    · intro fd b hb
      simp [runningOn, mmsServer, System.init] at hb
    · intro fd
      exact ⟨trivial, fun conn hconn => by cases hconn⟩
  · intro s a t hs hguard hstep
    exact owned_step hports hs hguard hstep

/-- What a worker finds registered when it takes up a buffer for `JsonProcess`. -/
theorem registrant_of_reachable (hports : env.port ≠ env.mangport)
    (h : (mmsServer env threadnum).Reachable (ClosesSettled env threadnum) s) {w : Nat}
    {job : Job} {rest : List Job} (hidle : s.workers w = none) (hjobs : s.jobs w = job :: rest)
    (hport : job.port ≠ env.mangport) (hregistered : s.srv.fdIndex.getState job.fd ≠ none) :
    s.registrant job.fd = job.conn := by
  have howned := reachable_owned hports h
  obtain ⟨hw, -⟩ := howned.placed w job (by simp [hjobs])
  have hline := howned.line job.fd
  rw [queued_start hw hjobs, if_pos ⟨rfl, hport⟩] at hline
  refine hline.start.1 _ ?_
  obtain ⟨p, hp⟩ := Option.ne_none_iff_exists'.mp hregistered
  rw [ownerOf, runningOn_eq_none_of_idle (by rw [hw]; exact hidle)]
  simp [hp]

end Steps

end MmsSvr
