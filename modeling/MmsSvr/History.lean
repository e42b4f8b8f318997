import MmsSvr.Handlers
import MmsSvr.IndexAgreement
import MmsSvr.System

/-!
What is done for the sessions, in the order in which the workers do it.
-/

namespace MmsSvr

open YYmmsJson
open Lib

/-- A command that has been read for the session at `p`. -/
inductive Event where
  /-- `accepted` is the answer of `CheckWhiteList`. -/
  | login (p : Ptr) (yyID : UInt32) (accepted : Bool)
  | login1 (p : Ptr) (enveloped : Bool)
  /-- `launched` tells `ShellExec` from `openURL`. -/
  | openUrl (p : Ptr) (launched : Bool)
  /-- MMS_EXIT goes to the descriptor `shell`, unless it is zero. -/
  | logout (p : Ptr) (shell : Fd)
  /-- A shell client has reported for `yyID`, over the connection `conn`, and `p` is the
  session that was found. -/
  | svrInit (fd : Fd) (conn : Nat) (yyID : UInt32) (p : Option Ptr)
deriving DecidableEq, Repr

def isEnvelope : YYJ → Bool
  | .compAES _ => true
  | _ => false

def commandEvent (jobj : YYJ) (p : Ptr) (state : ItemData) : YYJ → Option Event
  | .login1 _ => some (.login1 p (isEnvelope jobj))
  | .openUrl _ => some (.openUrl p (!state.isConnectShellClient))
  | .logout _ => some (.logout p state.shellClientFd)
  | _ => none

/-- What a turn of `JsonProcess` is about to do. -/
def jsonEvent (env : ServerEnv) (fd : Fd) (srv : Server) (l : Locals) : Option Event :=
  match parseCmd env.toEnv l.buf with
  | .success _ (.login login) =>
      let uid := l.state.elim ItemData.init.uid fun p => (srv.heap p).uid
      some (.login (handleLogin env srv fd l.state login).1 login.yyID
        (checkWhiteList uid (env.readings srv.logins).mysql))
  | .success _ jobj =>
      match l.state with
      | none => none
      | some p =>
          match nextRun env.toEnv (srv.heap p).aes (l.buf.length + 1) jobj with
          | some (.ok (some cmd)) => commandEvent jobj p (srv.heap p) cmd
          | _ => none
  | _ => none

/-- What a turn of `ProcessMmsExecData` is about to do. -/
def mmsExecEvent (env : ServerEnv) (job : Job) (srv : Server) (buf : Bytes) : Option Event :=
  match parseCmd env.toEnv buf with
  | .success _ (.svrInit c) =>
      some (.svrInit job.fd job.conn c.yyID (srv.userData.getState c.yyID))
  | _ => none

def workEvent (env : ServerEnv) (job : Job) (srv : Server) (l : Locals) : Option Event :=
  if job.port = env.mangport then mmsExecEvent env job srv l.buf
  else jsonEvent env job.fd srv l

def stepEvents (env : ServerEnv) (s : System) : Action → List Event
  | .turn w =>
      match s.workers w with
      | some ⟨job, l, []⟩ => (workEvent env job s.srv l).toList
      | _ => []
  | _ => []

def mmsHistory (env : ServerEnv) (threadnum : Nat) : Transition (System × List Event) Action :=
  (mmsServer env threadnum).logged (stepEvents env)

@[simp]
theorem mmsHistory_init (env : ServerEnv) (threadnum : Nat) :
    (mmsHistory env threadnum).init = (System.init, []) := rfl

/-- The turns of a worker that handles `job`, with what the history records of them. -/
inductive Worked (env : ServerEnv) (job : Job) (srv : Server) (l : Locals) :
    Turn → Option Event → Prop where
  /-- Nothing is done for a session; a buffer that is not understood may be given up. -/
  | idle (effects : List Effect) (buf : Bytes)
      (heffects : ∀ e ∈ effects, e = .dataSend ⟨job.fd, []⟩) :
      Worked env job srv l ⟨srv, effects, { l with buf := buf }⟩ none
  | register (hport : job.port ≠ env.mangport) (offset : Nat) (login : YYJsonLogin)
      (hparse : parseCmd env.toEnv l.buf = .success offset (.login login))
      (hstate : l.state = none) :
      Worked env job srv l
        ⟨{ srv with logins := srv.logins + 1 }, (handleLogin env srv job.fd none login).2,
          ⟨some srv.logins, l.buf.drop offset⟩⟩
        (some (.login srv.logins login.yyID (env.readings srv.logins).accepts))
  | relogin (hport : job.port ≠ env.mangport) (offset : Nat) (login : YYJsonLogin) (p : Ptr)
      (hparse : parseCmd env.toEnv l.buf = .success offset (.login login))
      (hstate : l.state = some p) :
      Worked env job srv l
        ⟨{ srv with logins := srv.logins + 1 }, (handleLogin env srv job.fd (some p) login).2,
          ⟨some p, l.buf.drop offset⟩⟩
        (some (.login p login.yyID (env.readings srv.logins).accepts))
  | command (hport : job.port ≠ env.mangport) (offset : Nat) (jobj : YYJ) (p : Ptr) (cmd : YYJ)
      (effects : List Effect) (hparse : parseCmd env.toEnv l.buf = .success offset jobj)
      (hstate : l.state = some p)
      (hnext : nextRun env.toEnv (srv.heap p).aes (l.buf.length + 1) jobj =
        some (.ok (some cmd)))
      (hdispatch : dispatch env job.fd p (srv.heap p) cmd = .ok effects) :
      Worked env job srv l ⟨srv, effects, ⟨some p, l.buf.drop offset⟩⟩
        (commandEvent jobj p (srv.heap p) cmd)
  | report (hport : job.port = env.mangport) (offset : Nat) (c : YYJsonSvrInit)
      (hparse : parseCmd env.toEnv l.buf = .success offset (.svrInit c)) :
      Worked env job srv l
        ⟨srv, svrInit env.ssl srv job.fd c.yyID, { l with buf := l.buf.drop offset }⟩
        (some (.svrInit job.fd job.conn c.yyID (srv.userData.getState c.yyID)))

variable {env : ServerEnv} {job : Job} {srv : Server} {l : Locals} {turn : Turn}

theorem jsonEvent_command {fd : Fd} {offset : Nat} {jobj : YYJ}
    (hparse : parseCmd env.toEnv l.buf = .success offset jobj) (hlogin : NotLogin jobj) :
    jsonEvent env fd srv l =
      match l.state with
      | none => none
      | some p =>
          match nextRun env.toEnv (srv.heap p).aes (l.buf.length + 1) jobj with
          | some (.ok (some cmd)) => commandEvent jobj p (srv.heap p) cmd
          | _ => none := by
  rw [jsonEvent, hparse]
  cases jobj with
  | login login => exact absurd rfl (hlogin login)
  | _ => rfl

theorem worked_json (hport : job.port ≠ env.mangport)
    (h : jsonTurn env job.fd srv l = some (.ok turn)) :
    Worked env job srv l turn (jsonEvent env job.fd srv l) := by
  cases jsonTurn_cases h with
  | rejected err hparse =>
      have hevent : jsonEvent env job.fd srv l = none := by rw [jsonEvent, hparse]
      rw [hevent]
      exact .idle _ _ (by simp [closefd])
  | login offset login hparse =>
      have hevent : jsonEvent env job.fd srv l =
          some (.login (handleLogin env srv job.fd l.state login).1 login.yyID
            (env.readings srv.logins).accepts) := by
        rw [jsonEvent, hparse]
        simp only [checkWhiteList_eq]
      rw [hevent]
      cases hstate : l.state with
      | none => exact .register hport offset login hparse hstate
      | some p => exact .relogin hport offset login p hparse hstate
  | ignored offset jobj hparse hlogin hstate =>
      rw [jsonEvent_command hparse hlogin, hstate]
      exact .idle [] l.buf (by simp)
  | unopened offset jobj p hparse hlogin hstate hnext =>
      rw [jsonEvent_command hparse hlogin, hstate]
      simp only [hnext]
      have hidle : Worked env job srv l ⟨srv, [], { l with buf := l.buf.drop offset }⟩ none :=
        .idle [] _ (by simp)
      rwa [hstate] at hidle
  | command offset jobj p cmd effects hparse hlogin hstate hnext hdispatch =>
      rw [jsonEvent_command hparse hlogin, hstate]
      simp only [hnext]
      exact .command hport offset jobj p cmd effects hparse hstate hnext hdispatch

theorem worked_mmsExec {effects : List Effect} {rest : Bytes} (hport : job.port = env.mangport)
    (h : mmsExecTurn env job.fd srv l.buf = .ok (effects, rest)) :
    Worked env job srv l ⟨srv, effects, { l with buf := rest }⟩
      (mmsExecEvent env job srv l.buf) := by
  unfold mmsExecTurn at h
  unfold mmsExecEvent
  split at h
  · simp at h
  · rename_i err hparse
    simp only [Except.ok.injEq, Prod.mk.injEq] at h
    rw [hparse, ← h.1, ← h.2]
    exact .idle [] [] (by simp)
  · rename_i offset c hparse
    simp only [Except.ok.injEq, Prod.mk.injEq] at h
    rw [hparse, ← h.1, ← h.2]
    exact .report hport offset c hparse
  · rename_i offset jobj hnot hparse
    simp only [Except.ok.injEq, Prod.mk.injEq] at h
    rw [hparse, ← h.1, ← h.2]
    cases jobj with
    | svrInit c => exact absurd rfl (hnot c)
    | _ => exact .idle [] _ (by simp)

theorem worked (h : System.workTurn env srv job l = some turn) :
    Worked env job srv l turn (workEvent env job srv l) := by
  unfold System.workTurn at h
  unfold workEvent
  split at h
  · rename_i hport
    rw [if_pos hport]
    split at h
    · rename_i effects rest hturn
      rw [Option.some.injEq] at h
      rw [← h]
      exact worked_mmsExec hport hturn
    · simp at h
  · rename_i hport
    rw [if_neg hport]
    split at h
    · rename_i turn' hturn
      rw [Option.some.injEq] at h
      rw [← h]
      exact worked_json hport hturn
    · simp at h

/-- The effects of a turn of which the history records `event`. -/
inductive Made (env : ServerEnv) (job : Job) (srv : Server) : Option Event → Effect → Prop where
  | output (event : Option Event) (item : QueueItem) : Made env job srv event (.dataSend item)
  | launch (event : Option Event) (launch : Launch) : Made env job srv event (.execute launch)
  | create (hport : job.port ≠ env.mangport) (yyID : UInt32) (accepted : Bool) :
      Made env job srv (some (.login srv.logins yyID accepted))
        (.assign srv.logins fun _ => newSession job.fd)
  | addState (hport : job.port ≠ env.mangport) (yyID : UInt32) (accepted : Bool) :
      Made env job srv (some (.login srv.logins yyID accepted)) (.addState job.fd srv.logins)
  | userAdd (hport : job.port ≠ env.mangport) (yyID : UInt32) (accepted : Bool) :
      Made env job srv (some (.login srv.logins yyID accepted)) (.userAdd yyID srv.logins)
  | fields (hport : job.port ≠ env.mangport) (p : Ptr) (r : Reading) (login : YYJsonLogin)
      (accepted : Bool) :
      Made env job srv (some (.login p login.yyID accepted)) (.assign p (loginFields env r login))
  | key (hport : job.port ≠ env.mangport) (p : Ptr) (yyID : UInt32) (accepted : Bool)
      (aesKey : Bytes) :
      Made env job srv (some (.login p yyID accepted))
        (.assign p fun s => { s with aes := YYSSL.YYAES.aesSetKey aesKey })
  | account (hport : job.port ≠ env.mangport) (p : Ptr) (enveloped : Bool) (c : YYJsonLogin1) :
      Made env job srv (some (.login1 p enveloped))
        (.assign p fun s => { s with uid := c.uid, account := c.user, pwd := c.pwd })
  | place (hport : job.port ≠ env.mangport) (p : Ptr) (launched : Bool) (c : YYJsonOpenUrl) :
      Made env job srv (some (.openUrl p launched))
        (.assign p fun s =>
          { s with channelID := c.channelID, subChannelID := c.subChannelID, url := c.url })
  | userDel (hport : job.port ≠ env.mangport) (p : Ptr) (shell : Fd) (yyID : UInt32) :
      Made env job srv (some (.logout p shell)) (.userDel yyID)
  | delState (hport : job.port ≠ env.mangport) (p : Ptr) (shell : Fd) :
      Made env job srv (some (.logout p shell)) (.delState job.fd)
  | link (hport : job.port = env.mangport) (p : Ptr) (yyID : UInt32) :
      Made env job srv (some (.svrInit job.fd job.conn yyID (some p)))
        (.assign p fun s => { s with shellClientFd := job.fd })

theorem made_of_isOutput {event : Option Event} {es : List Effect} (h : IsOutput es) :
    ∀ e ∈ es, Made env job srv event e := by
  intro e he
  obtain ⟨item, rfl⟩ := h e he
  exact .output event item

theorem made_loginCmd (hport : job.port ≠ env.mangport) (r : Reading) (p : Ptr)
    (state : ItemData) (yyID : UInt32) (accepted : Bool) : ∀ e ∈ loginCmd env r job.fd p state,
      Made env job srv (some (.login p yyID accepted)) e := by
  unfold loginCmd
  split
  · rw [List.forall_mem_cons]
    refine ⟨.key hport p yyID accepted r.aesKey, ?_⟩
    split
    · simp
    · exact made_of_isOutput (sendCmd_isOutput job.fd _)
  · intro e he
    rcases List.mem_append.mp he with hsend | hclose
    · exact made_of_isOutput (sendCmd_isOutput job.fd _) e hsend
    · exact made_of_isOutput (closefd_isOutput job.fd) e hclose

theorem made_dispatch {jobj cmd : YYJ} {p : Ptr} {effects : List Effect}
    (hport : job.port ≠ env.mangport)
    (h : dispatch env job.fd p (srv.heap p) cmd = .ok effects) :
    ∀ e ∈ effects, Made env job srv (commandEvent jobj p (srv.heap p) cmd) e := by
  cases cmd with
  | compRSA c => simp [dispatch] at h
  | login1 c =>
      simp only [dispatch, Except.ok.injEq] at h
      rw [← h, List.forall_mem_cons]
      exact ⟨.account hport p _ c, made_of_isOutput (sendCmd_isOutput job.fd _)⟩
  | logout c =>
      simp only [dispatch, Except.ok.injEq] at h
      subst h
      intro e he
      simp only [List.mem_append, List.mem_cons, List.not_mem_nil, or_false] at he
      rcases he with (hsend | hexit) | rfl | rfl
      · exact made_of_isOutput (sendCmd_isOutput job.fd _) e hsend
      · exact made_of_isOutput (shellExit_isOutput _) e hexit
      · exact .userDel hport p _ _
      · exact .delState hport p _
  | openUrl c =>
      simp only [dispatch, Except.ok.injEq] at h
      subst h
      unfold handleOpenUrl
      dsimp only
      rw [List.cons_append, List.forall_mem_cons]
      refine ⟨.place hport p _ c, ?_⟩
      intro e he
      rcases List.mem_append.mp he with heffect | hsend
      · split at heffect
        · exact made_of_isOutput (openURL_isOutput env.ssl _ _) e heffect
        · unfold shellExec at heffect
          split at heffect
          · simp at heffect
          · rw [List.mem_singleton] at heffect
            rw [heffect]
            exact .launch _ _
      · exact made_of_isOutput (sendCmd_isOutput job.fd _) e hsend
  | _ =>
      simp only [dispatch, Except.ok.injEq] at h
      subst h
      simp

theorem Worked.made {event : Option Event} (h : Worked env job srv l turn event) :
    ∀ e ∈ turn.effects, Made env job srv event e := by
  cases h with
  | idle effects buf heffects =>
      exact made_of_isOutput fun e he => ⟨_, heffects e he⟩
  | register hport offset login hparse hstate =>
      intro e he
      simp only [handleLogin, List.mem_append, List.mem_cons, List.not_mem_nil, or_false] at he
      rcases he with (rfl | rfl | rfl | rfl) | he
      · exact .create hport _ _
      · exact .addState hport _ _
      · exact .userAdd hport _ _
      · exact .fields hport _ _ login _
      · exact made_loginCmd hport _ _ _ _ _ e he
  | relogin hport offset login p hparse hstate =>
      intro e he
      simp only [handleLogin, List.mem_cons] at he
      rcases he with rfl | he
      · exact .fields hport p _ login _
      · exact made_loginCmd hport _ _ _ _ _ e he
  | command hport offset jobj p cmd effects hparse hstate hnext hdispatch =>
      exact made_dispatch hport hdispatch
  | report hport offset c hparse =>
      unfold svrInit
      split
      · simp
      · rename_i p hp
        rw [List.forall_mem_cons, hp]
        exact ⟨.link hport p c.yyID, made_of_isOutput (openURL_isOutput env.ssl _ _)⟩

/-- The session at every address is the same but for its buffer. -/
structure SameButBuffers (srv srv' : Server) : Prop where
  fdIndex : srv'.fdIndex = srv.fdIndex
  userData : srv'.userData = srv.userData
  logins : srv'.logins = srv.logins
  heap : ∀ p, ∃ buf, srv'.heap p = { srv.heap p with readbuffer := buf }

theorem sameButBuffers_jsonBegin (srv : Server) (fd : Fd) (readbuffer : Bytes) :
    SameButBuffers srv (jsonBegin srv fd readbuffer).1 ∧
      (jsonBegin srv fd readbuffer).2.state = srv.fdIndex.getState fd := by
  unfold jsonBegin
  split
  · rename_i hnone
    exact ⟨⟨rfl, rfl, rfl, fun p => ⟨_, rfl⟩⟩, hnone.symm⟩
  · rename_i p hp
    refine ⟨⟨rfl, rfl, rfl, ?_⟩, hp.symm⟩
    intro q
    by_cases hq : q = p
    · subst hq
      exact ⟨some [], by simp [Server.apply]⟩
    · exact ⟨(srv.heap q).readbuffer, by simp [Server.apply, Function.update_of_ne hq]⟩

theorem forall_workers_update {workers : Nat → Option Busy} {w : Nat} {b' : Option Busy}
    {holds : Busy → Prop} (h : ∀ w b, workers w = some b → holds b)
    (hb' : ∀ b, b' = some b → holds b) :
    ∀ w' b, Function.update workers w b' w' = some b → holds b := by
  intro w' b hb
  by_cases hw : w' = w
  · subst hw
    rw [Function.update_self] at hb
    exact hb' b hb
  · rw [Function.update_of_ne hw] at hb
    exact h w' b hb

theorem forall_workers_set {workers : Nat → Option Busy} {w : Nat} {b₀ : Busy}
    {holds : Busy → Prop} (h : ∀ w b, workers w = some b → holds b) (hb₀ : holds b₀) :
    ∀ w' b, Function.update workers w (some b₀) w' = some b → holds b := by
  refine forall_workers_update h ?_
  intro b hb
  rw [Option.some.injEq] at hb
  rw [← hb]
  exact hb₀

/-- What a step does to the sessions and to the workers. -/
inductive Progress (env : ServerEnv) (s t : System) (a : Action) : List Event → Prop where
  | loop (hsrv : t.srv = s.srv) (hworkers : t.workers = s.workers) : Progress env s t a []
  | start (w : Nat) (job : Job) (l : Locals) (hsame : SameButBuffers s.srv t.srv)
      (hstate : l.state = none ∨ l.state = s.srv.fdIndex.getState job.fd)
      (hfd : job.fd ≠ 0) (hjob : job ∈ s.jobs w) (hidle : s.workers w = none)
      (hworkers : t.workers = Function.update s.workers w (some ⟨job, l, []⟩)) :
      Progress env s t a []
  | turn (w : Nat) (job : Job) (l : Locals) (turn : Turn) (event : Option Event)
      (haction : a = .turn w) (hbusy : s.workers w = some ⟨job, l, []⟩)
      (hworked : Worked env job s.srv l turn event) (hsrv : t.srv = turn.srv)
      (hworkers : t.workers =
        Function.update s.workers w (some ⟨job, turn.locals, turn.effects⟩)) :
      Progress env s t a event.toList
  | effect (w : Nat) (job : Job) (l : Locals) (e : Effect) (todo : List Effect)
      (hbusy : s.workers w = some ⟨job, l, e :: todo⟩) (hsrv : t.srv = s.srv.apply e)
      (hworkers : t.workers = Function.update s.workers w (some ⟨job, l, todo⟩)) :
      Progress env s t a []
  | finish (w : Nat) (job : Job) (l : Locals) (hbusy : s.workers w = some ⟨job, l, []⟩)
      (hsrv : t.srv = s.srv) (hworkers : t.workers = Function.update s.workers w none) :
      Progress env s t a []

theorem System.freeFdState_srv (env : ServerEnv) (threadnum : Nat) (s : System) (fd : Fd)
    (st : FdState) : (s.freeFdState env threadnum fd st).srv = s.srv := by
  unfold System.freeFdState
  split <;> rfl

theorem System.queueReceive_srv (env : ServerEnv) (threadnum : Nat) (s : System)
    (item : QueueItem) :
    (s.queueReceive env threadnum item).srv = s.srv ∧
      (s.queueReceive env threadnum item).workers = s.workers := by
  unfold System.queueReceive
  split
  · exact ⟨rfl, rfl⟩
  · split
    · exact ⟨freeFdState_srv env threadnum s _ _, System.freeFdState_workers env threadnum s _ _⟩
    · exact ⟨rfl, rfl⟩

theorem progress {threadnum : Nat} {s t : System} {a : Action}
    (h : System.step env threadnum s a = some t) : Progress env s t a (stepEvents env s a) := by
  cases System.step_cases h with
  | accept fd port hfd hfree hport => exact .loop rfl rfl
  | receive fd data st hst hdata => exact .loop rfl rfl
  | shutdown fd st hst =>
      exact .loop (System.freeFdState_srv _ _ _ _ _) (System.freeFdState_workers _ _ _ _ _)
  | written fd result st st' hst hsend hwrite => exact .loop rfl rfl
  | broken fd result st hst hwrite =>
      exact .loop (System.freeFdState_srv _ _ _ _ _) (System.freeFdState_workers _ _ _ _ _)
  | dispatch m rest hqueue =>
      obtain ⟨hsrv, hworkers⟩ :=
        System.queueReceive_srv env threadnum { s with bufqueue := rest } m.item
      exact .loop hsrv hworkers
  | start w job rest hidle hjobs =>
      have hjob : job ∈ s.jobs w := by simp [hjobs]
      unfold System.startJob
      split
      · exact .loop rfl rfl
      · rename_i hfd
        split
        · exact .start w job _ ⟨rfl, rfl, rfl, fun p => ⟨_, rfl⟩⟩ (Or.inl rfl) hfd hjob hidle rfl
        · obtain ⟨hsame, hstate⟩ := sameButBuffers_jsonBegin s.srv job.fd job.buf
          exact .start w job _ hsame (Or.inr hstate) hfd hjob hidle rfl
  | turn w job l turn hbusy hbuf hturn =>
      have hevents : stepEvents env s (.turn w) = (workEvent env job s.srv l).toList := by
        simp only [stepEvents, hbusy]
      rw [hevents]
      exact .turn w job l turn _ rfl hbusy (worked hturn) rfl rfl
  | effect w job l e todo hbusy =>
      refine .effect w job l e todo hbusy ?_ ?_
      · cases e <;> rfl
      · rw [System.setWorker, System.access_workers]
  | finish w job l hbusy hbuf => exact .finish w job l hbusy rfl rfl

end MmsSvr
