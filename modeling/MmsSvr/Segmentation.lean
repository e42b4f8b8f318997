import MmsSvr.BufferCut

/-!
A frame that arrives in two pieces.
-/

namespace MmsSvr

open YYmmsJson YYSSL
open Lib

/-- What has been handed to the event loop since `srv`. -/
def newItems (srv t : Server) : List QueueItem := t.sent.drop srv.sent.length

/-- Two ways to go on from `srv`: the sessions, the readings taken, the frames to send
and the connections to close are the same. -/
structure SameReaction (srv t u : Server) : Prop where
  fdIndex : u.fdIndex = t.fdIndex
  userData : u.userData = t.userData
  heap : u.heap = t.heap
  logins : u.logins = t.logins
  frames : (newItems srv u).filter (fun i => i.buf ≠ []) =
    (newItems srv t).filter fun i => i.buf ≠ []
  closed : ∀ fd, ⟨fd, []⟩ ∈ newItems srv u ↔ ⟨fd, []⟩ ∈ newItems srv t

/-- Receiving `p` and then `q` comes to the same as receiving them at once. -/
def SplitUnseen (env : ServerEnv) (srv : Server) (call : Bytes → Call) (p q : Bytes) : Prop :=
  ∃ t u, (callSystem env).run [call (p ++ q)] srv = some t ∧
    (callSystem env).run [call p, call q] srv = some u ∧ SameReaction srv t u

/-- A command for which the switch after `NextRun` has no case. -/
def unhandled : YYJ → Bool
  | .compRSA _ | .login1 _ | .logout _ | .openUrl _ => false
  | _ => true

/-- A command that a session with this key takes without any reaction. -/
def silent (env : Env) (key : YYAES) (c : YYJ) : Bool :=
  match c with
  | .login _ => false
  | _ =>
      match nextRun env key (envelopeBound c + 1) c with
      | some (.ok none) => true
      | some (.ok (some cmd)) => unhandled cmd
      | _ => false

/-- The sessions that a management connection is told about. -/
def targets (srv : Server) (cs : List YYJ) : List Ptr :=
  cs.filterMap fun c =>
    match c with
    | .svrInit c => srv.userData.getState c.yyID
    | _ => none

def relayFrame (srv : Server) (p : Ptr) : Bytes := frame (.mmsOpenUrl (relayed (srv.heap p)))

variable {env : ServerEnv} {fd : Fd} {srv t u : Server} {p : Ptr} {c : YYJ} {cs : List YYJ}

theorem newItems_of_append {items : List QueueItem} (h : t.sent = srv.sent ++ items) :
    newItems srv t = items := by
  rw [newItems, h, List.drop_left]

section Commands

theorem dispatch_unhandled {cmd : YYJ} {state : ItemData} (h : unhandled cmd = true) :
    dispatch env fd p state cmd = .ok [] := by
  cases cmd with
  | compRSA c => simp [unhandled] at h
  | login1 c => simp [unhandled] at h
  | logout c => simp [unhandled] at h
  | openUrl c => simp [unhandled] at h
  | _ => rfl

theorem dispatch_outputs {cmd : YYJ} {state : ItemData} {effects : List Effect}
    (h : dispatch env fd p state cmd = .ok effects) :
    (∀ i ∈ outputs effects, i.buf ≠ []) ∧ (outputs effects = [] → unhandled cmd = true) := by
  cases cmd with
  | compRSA c => simp [dispatch] at h
  | login1 c =>
      simp only [dispatch, Except.ok.injEq] at h
      subst h
      simp [outputs, sendCmd_eq, frame_ne_nil]
  | logout c =>
      simp only [dispatch, Except.ok.injEq] at h
      subst h
      unfold shellExit
      split <;> simp [outputs, sendCmd_eq, frame_ne_nil]
  | openUrl c =>
      simp only [dispatch, Except.ok.injEq] at h
      subst h
      unfold handleOpenUrl openURL shellExec
      dsimp only
      split_ifs <;> simp [outputs, sendCmd_eq, frame_ne_nil]
  | _ =>
      simp only [dispatch, Except.ok.injEq] at h
      subst h
      simp [outputs, unhandled]

theorem Handled.sent {state : Option Ptr} (h : Handled env fd srv state c t p) :
    ∃ items, t.sent = srv.sent ++ items := by
  cases h with
  | login _ _ => exact ⟨_, perform_sent _ _⟩
  | unopened _ _ _ _ _ => exact ⟨[], by simp⟩
  | command _ _ _ _ _ _ _ _ => exact ⟨_, perform_sent _ _⟩

theorem silent_of_next {env : Env} {key : YYAES} {fuel : Nat} {r : Option YYJ}
    (hlogin : NotLogin c) (h : nextRun env key fuel c = some (.ok r)) :
    silent env key c = r.all unhandled := by
  obtain ⟨r', hr'⟩ := Option.ne_none_iff_exists'.mp
    (nextRun_ne_none env key (Nat.lt_succ_self (envelopeBound c)))
  have heq := nextRun_unique h hr'
  subst heq
  unfold silent
  cases c with
  | login login => exact absurd rfl (hlogin login)
  | _ =>
      simp only [hr']
      cases r <;> rfl

theorem exists_next_of_silent {env : Env} {key : YYAES} (h : silent env key c = true) :
    NotLogin c ∧ ∃ r, nextRun env key (envelopeBound c + 1) c = some (.ok r) ∧
      r.all unhandled = true := by
  have hlogin : NotLogin c := by
    rintro login rfl
    simp [silent] at h
  refine ⟨hlogin, ?_⟩
  obtain ⟨r, hr⟩ := Option.ne_none_iff_exists'.mp
    (nextRun_ne_none env key (Nat.lt_succ_self (envelopeBound c)))
  cases r with
  | error f =>
      unfold silent at h
      cases c with
      | login login => exact absurd rfl (hlogin login)
      | _ => simp [hr] at h
  | ok r =>
      rw [silent_of_next hlogin hr] at h
      exact ⟨r, hr, h⟩

theorem handled_of_silent (h : silent env.toEnv (srv.heap p).aes c = true) :
    Handled env fd srv (some p) c srv p := by
  obtain ⟨hlogin, r, hnext, hr⟩ := exists_next_of_silent h
  cases r with
  | none => exact .unopened p c _ hlogin hnext
  | some cmd => exact .command p c _ cmd [] hlogin hnext (dispatch_unhandled hr)

theorem Handled.answered (h : Handled env fd srv (some p) c t p) (hlogin : NotLogin c) :
    t.logins = srv.logins ∧ (t.heap p).aes = (srv.heap p).aes ∧
      ∃ items, t.sent = srv.sent ++ items ∧ (∀ i ∈ items, i.buf ≠ []) ∧
        (items = [] → silent env.toEnv (srv.heap p).aes c = true ∧ t = srv) := by
  cases h with
  | login _ login => exact absurd rfl (hlogin login)
  | unopened p jobj fuel hlogin hnext =>
      refine ⟨rfl, rfl, [], by simp, by simp, fun _ => ⟨?_, rfl⟩⟩
      rw [silent_of_next hlogin hnext]
      rfl
  | command p jobj fuel cmd effects hlogin hnext hdispatch =>
      obtain ⟨hbuf, hsilent⟩ := dispatch_outputs hdispatch
      refine ⟨perform_logins srv effects, perform_aes srv (dispatch_keepsKey hdispatch) p,
        outputs effects, perform_sent srv effects, hbuf, ?_⟩
      intro hnil
      have hcmd := hsilent hnil
      rw [dispatch_unhandled hcmd, Except.ok.injEq] at hdispatch
      refine ⟨?_, by rw [← hdispatch]; rfl⟩
      rw [silent_of_next hlogin hnext]
      exact hcmd

def rejectLogin (env : ServerEnv) (fd : Fd) (p : Ptr) (login : YYJsonLogin) (srv : Server) :
    Server :=
  { srv with
    logins := srv.logins + 1
    heap := Function.update srv.heap p
      (loginFields env (env.readings srv.logins) login (srv.heap p))
    sent := srv.sent ++ [⟨fd, frame (.loginRes ⟨false, []⟩)⟩, ⟨fd, []⟩] }

theorem perform_handleLogin_rejected {login : YYJsonLogin}
    (h : (env.readings srv.logins).accepts = false) :
    Server.perform { srv with logins := srv.logins + 1 }
      (handleLogin env srv fd (some p) login).2 = rejectLogin env fd p login srv := by
  simp only [handleLogin, loginCmd, checkWhiteList_eq, h, Bool.false_eq_true, if_false,
    sendCmd_eq]
  simp [rejectLogin, Server.apply, closefd]

theorem Handled.login_eq {login : YYJsonLogin}
    (h : Handled env fd srv (some p) (.login login) t p) :
    t = Server.perform { srv with logins := srv.logins + 1 }
      (handleLogin env srv fd (some p) login).2 := by
  cases h with
  | login _ _ => rfl
  | unopened _ _ _ hnot => exact absurd rfl (hnot login)
  | command _ _ _ _ _ hnot => exact absurd rfl (hnot login)

theorem outputs_handleLogin_accepted {login : YYJsonLogin}
    (h : (env.readings srv.logins).accepts = true) :
    ∀ i ∈ outputs (handleLogin env srv fd (some p) login).2, i.buf ≠ [] := by
  simp only [handleLogin, loginCmd, checkWhiteList_eq, h, if_true]
  split <;> simp [outputs, sendCmd_eq, frame_ne_nil]

theorem Handled.closes (h : Handled env fd srv (some p) c t p) {x : Fd}
    (hclosed : ⟨x, []⟩ ∈ newItems srv t) :
    ∃ login, c = .login login ∧ (env.readings srv.logins).accepts = false := by
  by_cases hlogin : NotLogin c
  · obtain ⟨-, -, items, hsent, hbuf, -⟩ := h.answered hlogin
    rw [newItems_of_append hsent] at hclosed
    exact absurd rfl (hbuf _ hclosed)
  · simp only [NotLogin, ne_eq, not_forall, not_not] at hlogin
    obtain ⟨login, rfl⟩ := hlogin
    refine ⟨login, rfl, ?_⟩
    by_contra haccepts
    rw [Bool.not_eq_false] at haccepts
    have hitems : newItems srv t = outputs (handleLogin env srv fd (some p) login).2 := by
      apply newItems_of_append
      rw [h.login_eq, perform_sent]
    rw [hitems] at hclosed
    exact absurd rfl (outputs_handleLogin_accepted haccepts _ hclosed)

end Commands

section Sessions

theorem SessionRun.answered (h : SessionRun env fd p srv cs t) (hlogin : ∀ c ∈ cs, NotLogin c) :
    t.logins = srv.logins ∧ (t.heap p).aes = (srv.heap p).aes ∧
      ∃ items, t.sent = srv.sent ++ items ∧ (∀ i ∈ items, i.buf ≠ []) ∧
        (items = [] → (∀ c ∈ cs, silent env.toEnv (srv.heap p).aes c = true) ∧ t = srv) := by
  induction h with
  | nil srv => exact ⟨rfl, rfl, [], by simp, by simp, fun _ => ⟨by simp, rfl⟩⟩
  | cons hc _ ih =>
      rw [List.forall_mem_cons] at hlogin
      obtain ⟨hlogins, haes, items, hsent, hbuf, hsilent⟩ := hc.answered hlogin.1
      obtain ⟨hlogins', haes', items', hsent', hbuf', hsilent'⟩ := ih hlogin.2
      refine ⟨hlogins'.trans hlogins, haes'.trans haes, items ++ items', ?_, ?_, ?_⟩
      · rw [hsent', hsent, List.append_assoc]
      · intro i hi
        rcases List.mem_append.mp hi with hi | hi
        · exact hbuf i hi
        · exact hbuf' i hi
      · intro hnil
        obtain ⟨hnil, hnil'⟩ := List.append_eq_nil_iff.mp hnil
        obtain ⟨hc, rfl⟩ := hsilent hnil
        obtain ⟨hcs, rfl⟩ := hsilent' hnil'
        exact ⟨List.forall_mem_cons.mpr ⟨hc, hcs⟩, rfl⟩

theorem SessionRun.sent (h : SessionRun env fd p srv cs t) :
    ∃ items, t.sent = srv.sent ++ items := by
  induction h with
  | nil srv => exact ⟨[], by simp⟩
  | cons hc _ ih =>
      obtain ⟨items, hitems⟩ := ih
      obtain ⟨items', hitems'⟩ := hc.sent
      exact ⟨items' ++ items, by rw [hitems, hitems', List.append_assoc]⟩

theorem sessionRun_of_silent
    (h : ∀ c ∈ cs, silent env.toEnv (srv.heap p).aes c = true) :
    SessionRun env fd p srv cs srv := by
  induction cs with
  | nil => exact .nil srv
  | cons c cs ih =>
      rw [List.forall_mem_cons] at h
      exact .cons (handled_of_silent h.1) (ih h.2)

theorem SessionRun.logins (h : SessionRun env fd p srv cs t) :
    srv.logins ≤ t.logins ∧ (t.logins = srv.logins → ∀ c ∈ cs, NotLogin c) ∧
      (t.logins = srv.logins + 1 → ∃ pre login post, cs = pre ++ .login login :: post ∧
        (∀ c ∈ pre, NotLogin c) ∧ ∀ c ∈ post, NotLogin c) := by
  induction h with
  | nil srv => exact ⟨Nat.le_refl _, by simp, fun h => absurd h (by omega)⟩
  | @cons srv t u c cs hc _ ih =>
      obtain ⟨hle, hnone, hone⟩ := ih
      by_cases hlogin : NotLogin c
      · obtain ⟨hlogins, -⟩ := hc.answered hlogin
        rw [hlogins] at hle hnone hone
        refine ⟨hle, fun h => List.forall_mem_cons.mpr ⟨hlogin, hnone h⟩, ?_⟩
        intro h
        obtain ⟨pre, login, post, rfl, hpre, hpost⟩ := hone h
        exact ⟨c :: pre, login, post, rfl, List.forall_mem_cons.mpr ⟨hlogin, hpre⟩, hpost⟩
      · simp only [NotLogin, ne_eq, not_forall, not_not] at hlogin
        obtain ⟨login, rfl⟩ := hlogin
        have hlogins : t.logins = srv.logins + 1 := by
          rw [hc.login_eq, perform_logins]
        refine ⟨by omega, fun h => absurd h (by omega), ?_⟩
        intro h
        exact ⟨[], login, cs, rfl, by simp, hnone (by omega)⟩

theorem loginFields_injective {r : Reading} {state : ItemData} {login login' : YYJsonLogin}
    (h : loginFields env r login state = loginFields env r login' state) : login = login' := by
  have hyyID := congrArg ItemData.yyID h
  have htoken := congrArg ItemData.token h
  have hrsakey := congrArg ItemData.rsaStr h
  cases login
  cases login'
  simp_all [loginFields]

/-- The rest of the frame is itself a buffer in which the same LOGIN is found, and
nothing else that the session reacts to. -/
def RepeatsLogin (env : ServerEnv) (srv : Server) (p : Ptr) (login : YYJsonLogin)
    (back : Bytes) : Prop :=
  ∃ cs r, Cut env.toEnv back cs r ∧
    cs.filter (fun c => !silent env.toEnv (srv.heap p).aes c) = [.login login]

theorem SessionRun.one_login (h : SessionRun env fd p srv cs t)
    (hrejects : (env.readings srv.logins).accepts = false) (hone : t.logins = srv.logins + 1) :
    ∃ pre login post before after, cs = pre ++ .login login :: post ∧
      t.sent = srv.sent ++ before ++ [⟨fd, frame (.loginRes ⟨false, []⟩)⟩, ⟨fd, []⟩] ++ after ∧
      (∀ i ∈ before ++ after, i.buf ≠ []) ∧
      (before ++ after = [] → t = rejectLogin env fd p login srv ∧
        ∀ c ∈ pre ++ post, silent env.toEnv (srv.heap p).aes c = true) := by
  obtain ⟨pre, login, post, rfl, hpre, hpost⟩ := h.logins.2.2 hone
  obtain ⟨s, hrunPre, hrest⟩ := sessionRun_append.mp h
  cases hrest with
  | @cons _ s' _ _ _ hlogin hrunPost =>
      obtain ⟨hlogins, haes, before, hsent, hbuf, hnil⟩ := hrunPre.answered hpre
      obtain ⟨-, -, after, hsent', hbuf', hnil'⟩ := hrunPost.answered hpost
      have hs' : s' = rejectLogin env fd p login s := by
        rw [hlogin.login_eq, perform_handleLogin_rejected]
        rw [hlogins]
        exact hrejects
      refine ⟨pre, login, post, before, after, rfl, ?_, ?_, ?_⟩
      · rw [hsent', hs']
        simp [rejectLogin, hsent]
      · intro i hi
        rcases List.mem_append.mp hi with hi | hi
        · exact hbuf i hi
        · exact hbuf' i hi
      · intro hall
        obtain ⟨hbefore, hafter⟩ := List.append_eq_nil_iff.mp hall
        obtain ⟨hsilent, rfl⟩ := hnil hbefore
        obtain ⟨hsilent', rfl⟩ := hnil' hafter
        refine ⟨hs', ?_⟩
        -- a rejected LOGIN keeps the key
        have hkey : (t.heap p).aes = (s.heap p).aes := by
          simp [hs', rejectLogin, loginFields]
        rw [hkey] at hsilent'
        intro c hc
        rcases List.mem_append.mp hc with hc | hc
        · exact hsilent c hc
        · exact hsilent' c hc

theorem closeIf_sent (fd : Fd) (r : Bool) (srv : Server) :
    ∃ items, (∀ i ∈ items, i = ⟨fd, []⟩) ∧
      closeIf fd r srv = { srv with sent := srv.sent ++ items } := by
  unfold closeIf
  split
  · exact ⟨[⟨fd, []⟩], by simp, rfl⟩
  · exact ⟨[], by simp, by simp⟩

/-- After the first piece has closed the connection, the second one makes up for the
rejected LOGIN only if it repeats it. -/
theorem repeatsLogin_of_reaction {login : YYJsonLogin} {back : Bytes} {r : Bool}
    (hrejects : (env.readings srv.logins).accepts = false) (hcut : Cut env.toEnv back cs r)
    (hrun : SessionRun env fd p (srv.perform (closefd fd)) cs u)
    (hsame : SameReaction srv (rejectLogin env fd p login srv) (closeIf fd r u)) :
    RepeatsLogin env srv p login back := by
  obtain ⟨closing, hclosing, hclose⟩ := closeIf_sent fd r u
  rw [hclose] at hsame
  obtain ⟨pre, login', post, before, after, rfl, hsent, hbuf, hnil⟩ :=
    hrun.one_login hrejects hsame.logins
  have hitems : newItems srv { u with sent := u.sent ++ closing } = [⟨fd, []⟩] ++ before ++
      [⟨fd, frame (.loginRes ⟨false, []⟩)⟩, ⟨fd, []⟩] ++ after ++ closing := by
    apply newItems_of_append
    simp [hsent]
  have hanswers : before ++ after = [] := by
    have hframes := hsame.frames
    rw [hitems, newItems_of_append rfl] at hframes
    have hkeep : (before ++ after).filter (fun i => i.buf ≠ []) = before ++ after :=
      List.filter_eq_self.mpr (by simpa using hbuf)
    have hdrop : closing.filter (fun i => i.buf ≠ []) = [] :=
      List.filter_eq_nil_iff.mpr fun i hi => by simp [hclosing i hi]
    have hlength := congrArg List.length hframes
    rw [List.filter_append] at hkeep
    have hkeepLength := congrArg List.length hkeep
    simp only [List.length_append] at hkeepLength
    simp only [List.filter_append, List.length_append, hdrop, List.length_nil] at hlength
    apply List.eq_nil_of_length_eq_zero
    rw [List.length_append]
    simp [frame_ne_nil] at hlength hkeepLength
    omega
  obtain ⟨hu, hsilent⟩ := hnil hanswers
  have heq : login' = login := by
    have hfields := congrFun hsame.heap p
    simp only [hu, rejectLogin, Function.update_self] at hfields
    exact loginFields_injective hfields
  subst heq
  refine ⟨_, r, hcut, ?_⟩
  have hkeep : ∀ ds : List YYJ, (∀ c ∈ ds, c ∈ pre ++ post) →
      ds.filter (fun c => !silent env.toEnv (srv.heap p).aes c) = [] := by
    intro ds hds
    rw [List.filter_eq_nil_iff]
    intro c hc
    have hc' : silent env.toEnv (srv.heap p).aes c = true := hsilent c (hds c hc)
    simp [hc']
  rw [List.filter_append, List.filter_cons_of_pos (by simp [silent]),
    hkeep pre (by simp +contextual), hkeep post (by simp +contextual)]
  rfl

theorem reaction_of_repeatsLogin {login : YYJsonLogin} {back : Bytes}
    (hrejects : (env.readings srv.logins).accepts = false)
    (h : RepeatsLogin env srv p login back) :
    ∃ cs r, Cut env.toEnv back cs r ∧
      ∃ u, SessionRun env fd p (srv.perform (closefd fd)) cs u ∧
        SameReaction srv (rejectLogin env fd p login srv) (closeIf fd r u) := by
  obtain ⟨cs, r, hcut, hfilter⟩ := h
  obtain ⟨pre, post, rfl, hpre, -, hpost⟩ := List.filter_eq_cons_iff.mp hfilter
  refine ⟨_, r, hcut, rejectLogin env fd p login (srv.perform (closefd fd)), ?_, ?_⟩
  · refine sessionRun_append.mpr ⟨srv.perform (closefd fd), ?_, ?_⟩
    · refine sessionRun_of_silent fun c hc => ?_
      simpa using hpre c hc
    · have hlogin : Handled env fd (srv.perform (closefd fd)) (some p) (.login login) _ _ :=
        .login (some p) login
      have hrejects' : (env.readings (srv.perform (closefd fd)).logins).accepts = false := hrejects
      rw [perform_handleLogin_rejected hrejects'] at hlogin
      refine .cons hlogin (sessionRun_of_silent fun c hc => ?_)
      have hsilent := List.filter_eq_nil_iff.mp hpost c hc
      simpa [rejectLogin, loginFields] using hsilent
  · obtain ⟨closing, hclosing, hclose⟩ :=
      closeIf_sent fd r (rejectLogin env fd p login (srv.perform (closefd fd)))
    have hdrop : closing.filter (fun i => i.buf ≠ []) = [] :=
      List.filter_eq_nil_iff.mpr fun i hi => by simp [hclosing i hi]
    rw [hclose]
    have hitems : newItems srv _ =
        [⟨fd, []⟩, ⟨fd, frame (.loginRes ⟨false, []⟩)⟩, ⟨fd, []⟩] ++ closing :=
      newItems_of_append (t := { rejectLogin env fd p login (srv.perform (closefd fd)) with
        sent := (rejectLogin env fd p login (srv.perform (closefd fd))).sent ++ closing })
        (by simp [rejectLogin])
    refine ⟨rfl, rfl, rfl, rfl, ?_, ?_⟩
    · rw [hitems, newItems_of_append rfl]
      simp only [List.filter_append, hdrop]
      simp
    · intro x
      rw [hitems, newItems_of_append rfl]
      have hnotin : (⟨x, []⟩ : QueueItem) ∈ closing → x = fd := fun hx => by
        simpa using congrArg QueueItem.fd (hclosing _ hx)
      simp only [List.mem_append, List.mem_cons, List.not_mem_nil, or_false]
      constructor
      · rintro ((h | h | h) | h)
        · exact Or.inr h
        · exact Or.inl h
        · exact Or.inr h
        · exact Or.inr (by rw [hnotin h])
      · rintro (h | h)
        · exact Or.inl (Or.inr (Or.inl h))
        · exact Or.inl (Or.inl h)

variable {front back : Bytes} {jobj : YYJ}

theorem session_split_iff (hfd : fd ≠ 0) (hready : Ready srv fd)
    (hp : srv.fdIndex.getState fd = some p) (hback : back ≠ [])
    (hparse : parseCmd env.toEnv (front ++ back) = .success (front ++ back).length jobj) :
    SplitUnseen env srv (.json fd) front back ↔
      ∃ login, jobj = .login login ∧ (env.readings srv.logins).accepts = false ∧
        RepeatsLogin env srv p login back := by
  -- the first piece only makes the server close the connection
  have hfront : jsonProcess env srv fd front = some (.ok (srv.perform (closefd fd))) :=
    (jsonProcess_eq_cut hfd hready hp front).mpr
      ⟨[], true, srv, .rejected (parseCmd_of_split hback hparse), .nil srv, rfl⟩
  have hready' : Ready (srv.perform (closefd fd)) fd := hready
  simp only [SplitUnseen, Transition.run_cons, Transition.run_nil, step_json]
  constructor
  · rintro ⟨t, u, ⟨_, hwhole, rfl⟩, ⟨s, hs, _, hsplit, rfl⟩, hsame⟩
    rw [hfront, Option.some.injEq, Except.ok.injEq] at hs
    subst hs
    obtain ⟨q, hq⟩ := (jsonProcess_frame_iff hfd hready hparse).mp hwhole
    rw [hp] at hq
    obtain rfl := hq.ptr_eq
    obtain ⟨cs, r, v, hcut, hrun, rfl⟩ := (jsonProcess_eq_cut hfd hready' hp back).mp hsplit
    have hclosed : (⟨fd, []⟩ : QueueItem) ∈ newItems srv (closeIf fd r v) := by
      obtain ⟨items, hitems⟩ := hrun.sent
      obtain ⟨closing, -, hclose⟩ := closeIf_sent fd r v
      have hnew : newItems srv (closeIf fd r v) = [⟨fd, []⟩] ++ items ++ closing := by
        apply newItems_of_append
        simp [hclose, hitems]
      rw [hnew]
      simp
    obtain ⟨login, rfl, hrejects⟩ := hq.closes ((hsame.closed fd).mp hclosed)
    rw [hq.login_eq, perform_handleLogin_rejected hrejects] at hsame
    exact ⟨login, rfl, hrejects, repeatsLogin_of_reaction hrejects hcut hrun hsame⟩
  · rintro ⟨login, rfl, hrejects, hrepeats⟩
    obtain ⟨cs, r, hcut, u, hrun, hsame⟩ := reaction_of_repeatsLogin hrejects hrepeats
    have hlogin : Handled env fd srv (srv.fdIndex.getState fd) (.login login) _ _ :=
      .login _ login
    rw [hp, perform_handleLogin_rejected hrejects] at hlogin
    refine ⟨_, closeIf fd r u, ⟨_, ?_, rfl⟩, ⟨_, hfront, _, ?_, rfl⟩, hsame⟩
    · rw [jsonProcess_frame_iff hfd hready hparse, hp]
      exact ⟨_, hlogin⟩
    · exact (jsonProcess_eq_cut hfd hready' hp back).mpr ⟨cs, r, u, hcut, hrun, rfl⟩

end Sessions

section Management

/-- The sessions of `cs` and of `ds` are relayed in the same frames, and the same of
them get a new shell client. -/
def SameRelays (srv : Server) (fd : Fd) (cs ds : List YYJ) : Prop :=
  (targets srv ds).map (relayFrame srv) = (targets srv cs).map (relayFrame srv) ∧
    ∀ p, (srv.heap p).shellClientFd ≠ fd → (p ∈ targets srv ds ↔ p ∈ targets srv cs)

theorem targets_congr (h : t.userData = srv.userData) (cs : List YYJ) :
    targets t cs = targets srv cs := by
  unfold targets
  rw [h]

def relay (fd : Fd) (srv : Server) (p : Ptr) : Server :=
  { srv with
    heap := Function.update srv.heap p { srv.heap p with shellClientFd := fd }
    sent := srv.sent ++ [⟨fd, relayFrame srv p⟩] }

theorem relayFrame_relay (q : Ptr) : relayFrame (relay fd srv p) q = relayFrame srv q := by
  unfold relayFrame
  by_cases hq : q = p
  · subst hq
    simp [relay, relayed]
  · simp [relay, Function.update_of_ne hq]

theorem foldl_manageCommand {ssl : OpenSSL} (cs : List YYJ) :
    cs.foldl (manageCommand ssl fd) srv = (targets srv cs).foldl (relay fd) srv := by
  induction cs generalizing srv with
  | nil => rfl
  | cons c cs ih =>
      rw [List.foldl_cons, ih]
      cases c with
      | svrInit c =>
          cases hstate : srv.userData.getState c.yyID with
          | none =>
              have hsrv : manageCommand ssl fd srv (.svrInit c) = srv := by
                simp [manageCommand, svrInit, hstate]
              rw [hsrv]
              simp [targets, hstate]
          | some p =>
              have hsrv : manageCommand ssl fd srv (.svrInit c) = relay fd srv p := by
                simp [manageCommand, svrInit, hstate, openURL, sendCmd_eq, Server.apply, relay,
                  relayFrame, relayed]
              have htargets : targets (relay fd srv p) cs = targets srv cs := targets_congr rfl cs
              rw [hsrv, htargets]
              simp [targets, hstate]
      | _ => rfl

theorem foldl_relay (ps : List Ptr) :
    ps.foldl (relay fd) srv =
      { srv with
        heap := fun p => if p ∈ ps then { srv.heap p with shellClientFd := fd } else srv.heap p
        sent := srv.sent ++ ps.map fun p => ⟨fd, relayFrame srv p⟩ } := by
  induction ps generalizing srv with
  | nil => simp
  | cons p ps ih =>
      rw [List.foldl_cons, ih]
      have hheap : ∀ q, (relay fd srv p).heap q =
          if q = p then { srv.heap p with shellClientFd := fd } else srv.heap q := by
        intro q
        simp [relay, Function.update_apply]
      have hheap' : (fun q => if q ∈ ps then { (relay fd srv p).heap q with shellClientFd := fd }
          else (relay fd srv p).heap q) =
          fun q => if q ∈ p :: ps then { srv.heap q with shellClientFd := fd } else srv.heap q := by
        funext q
        rw [hheap q]
        by_cases hq : q = p
        · simp [hq]
        · simp [hq]
      rw [hheap']
      simp only [relayFrame_relay]
      simp [relay]

theorem relays_filter (srv : Server) (ps : List Ptr) :
    (ps.map fun p => (⟨fd, relayFrame srv p⟩ : QueueItem)).filter (fun i => i.buf ≠ []) =
      ps.map fun p => ⟨fd, relayFrame srv p⟩ := by
  rw [List.filter_eq_self]
  simp [relayFrame, frame_ne_nil]

theorem sameReaction_relays_iff (ps qs : List Ptr) :
    SameReaction srv (ps.foldl (relay fd) srv) (qs.foldl (relay fd) srv) ↔
      qs.map (relayFrame srv) = ps.map (relayFrame srv) ∧
        ∀ p, (srv.heap p).shellClientFd ≠ fd → (p ∈ qs ↔ p ∈ ps) := by
  have hitems : ∀ rs : List Ptr, newItems srv (rs.foldl (relay fd) srv) =
      rs.map fun p => ⟨fd, relayFrame srv p⟩ := by
    intro rs
    apply newItems_of_append
    rw [foldl_relay]
  constructor
  · intro h
    refine ⟨?_, ?_⟩
    · have hframes := h.frames
      rw [hitems, hitems, relays_filter, relays_filter] at hframes
      have hbufs := congrArg (List.map QueueItem.buf) hframes
      simpa [Function.comp_def] using hbufs
    · intro p hne
      have hheap := congrFun h.heap p
      rw [foldl_relay, foldl_relay] at hheap
      have hfd := congrArg ItemData.shellClientFd hheap
      by_cases hq : p ∈ qs
      · by_cases hp : p ∈ ps
        · simp [hp, hq]
        · simp only [hq, hp, if_true, if_false] at hfd
          exact absurd hfd.symm hne
      · by_cases hp : p ∈ ps
        · simp only [hq, hp, if_true, if_false] at hfd
          exact absurd hfd hne
        · simp [hp, hq]
  · rintro ⟨hrelays, hmem⟩
    have hbufs := congrArg (List.map fun b => (⟨fd, b⟩ : QueueItem)) hrelays
    simp only [List.map_map, Function.comp_def] at hbufs
    refine ⟨?_, ?_, ?_, ?_, ?_, ?_⟩
    · rw [foldl_relay, foldl_relay]
    · rw [foldl_relay, foldl_relay]
    · rw [foldl_relay, foldl_relay]
      funext p
      by_cases hfd : (srv.heap p).shellClientFd = fd
      · have hself : { srv.heap p with shellClientFd := fd } = srv.heap p := by
          rw [← hfd]
        simp [hself]
      · simp only [hmem p hfd]
    · rw [foldl_relay, foldl_relay]
    · rw [hitems, hitems, relays_filter, relays_filter, hbufs]
    · intro x
      rw [hitems, hitems, hbufs]

theorem management_split_iff {front back : Bytes} {jobj : YYJ} (hback : back ≠ [])
    (hparse : parseCmd env.toEnv (front ++ back) = .success (front ++ back).length jobj) :
    SplitUnseen env srv (.manage fd) front back ↔
      ∃ cs r, Cut env.toEnv back cs r ∧ SameRelays srv fd [jobj] cs := by
  have hwhole : processMmsExecData env srv fd (front ++ back) =
      some (.ok ((targets srv [jobj]).foldl (relay fd) srv)) := by
    rw [processMmsExecData_eq_cut]
    exact ⟨[jobj], false, .last hparse (by simp), (foldl_manageCommand _).symm⟩
  -- the first piece is dropped
  have hfront : processMmsExecData env srv fd front = some (.ok srv) :=
    processMmsExecData_eq_cut.mpr ⟨[], true, .rejected (parseCmd_of_split hback hparse), rfl⟩
  simp only [SplitUnseen, Transition.run_cons, Transition.run_nil, step_manage]
  constructor
  · rintro ⟨t, u, ⟨_, ht, rfl⟩, ⟨s, hs, _, hu, rfl⟩, hsame⟩
    rw [hwhole, Option.some.injEq, Except.ok.injEq] at ht
    rw [hfront, Option.some.injEq, Except.ok.injEq] at hs
    subst ht hs
    obtain ⟨cs, r, hcut, rfl⟩ := processMmsExecData_eq_cut.mp hu
    rw [foldl_manageCommand] at hsame
    exact ⟨cs, r, hcut, (sameReaction_relays_iff _ _).mp hsame⟩
  · rintro ⟨cs, r, hcut, hrelays⟩
    refine ⟨_, _, ⟨_, hwhole, rfl⟩, ⟨_, hfront, _, ?_, rfl⟩,
      (sameReaction_relays_iff _ _).mpr hrelays⟩
    exact processMmsExecData_eq_cut.mpr ⟨cs, r, hcut, (foldl_manageCommand cs).symm⟩

end Management

section Segmentation

theorem sent_drain (srv : Server) (fd : Fd) : (drain srv fd).sent = srv.sent := by
  unfold drain jsonBegin
  split <;> rfl

theorem SameReaction.of_sent {srv' : Server} (h : srv'.sent = srv.sent)
    (hsame : SameReaction srv t u) : SameReaction srv' t u := by
  have hitems : ∀ v, newItems srv' v = newItems srv v := fun v => by rw [newItems, newItems, h]
  refine ⟨hsame.fdIndex, hsame.userData, hsame.heap, hsame.logins, ?_, ?_⟩
  · rw [hitems, hitems]
    exact hsame.frames
  · intro x
    rw [hitems, hitems]
    exact hsame.closed x

theorem splitUnseen_drain (hfd : fd ≠ 0) (hdrained : Drained srv fd) {front back : Bytes} :
    SplitUnseen env srv (.json fd) front back ↔
      SplitUnseen env (drain srv fd) (.json fd) front back := by
  simp only [SplitUnseen, Transition.run_cons, Transition.run_nil, step_json,
    jsonProcess_of_drained hfd hdrained]
  constructor
  · rintro ⟨t, u, ht, hu, hsame⟩
    exact ⟨t, u, ht, hu, hsame.of_sent (sent_drain srv fd)⟩
  · rintro ⟨t, u, ht, hu, hsame⟩
    exact ⟨t, u, ht, hu, hsame.of_sent (sent_drain srv fd).symm⟩

/-- A frame received in two pieces.  On a session this is the same as receiving it at
once only for a LOGIN that is rejected and that the second piece happens to repeat; on
a management connection, only when the second piece alone relays the same sessions. -/
theorem segmentation_unseen_iff (env : ServerEnv) (srv : Server) (fd : Fd) (front back : Bytes)
    (jobj : YYJ) (hfd : fd ≠ 0) (hback : back ≠ [])
    (hparse : parseCmd env.toEnv (front ++ back) = .success (front ++ back).length jobj) :
    (∀ p, srv.fdIndex.getState fd = some p → Drained srv fd →
      (SplitUnseen env srv (.json fd) front back ↔
        ∃ login, jobj = .login login ∧ (env.readings srv.logins).accepts = false ∧
          RepeatsLogin env srv p login back)) ∧
      (SplitUnseen env srv (.manage fd) front back ↔
        ∃ cs r, Cut env.toEnv back cs r ∧ SameRelays srv fd [jobj] cs) := by
  refine ⟨?_, management_split_iff hback hparse⟩
  intro p hp hdrained
  obtain ⟨hindex, hlogins, hkey, hready⟩ := drain_cases srv fd
  have hp' : (drain srv fd).fdIndex.getState fd = some p := by rw [hindex, hp]
  rw [sessionKey_of_some hp', sessionKey_of_some hp] at hkey
  rw [splitUnseen_drain hfd hdrained, session_split_iff hfd hready hp' hback hparse]
  simp only [RepeatsLogin, hlogins, hkey]

/-- A worker whose `mysql_init` has failed. -/
def refusing : ServerEnv :=
  { (default : ServerEnv) with readings := fun _ => ⟨0, List.replicate 32 0, some ⟨false, []⟩⟩ }

/-- A frame of the command up to the end of its object; the length field also counts the
whole frame of the command that is sent behind it. -/
def announced (jobj : YYJ) : Bytes :=
  preChar :: wordBytes (2 * (frame jobj).length) ++ (frame jobj).drop 3

/-- What json-c leaves behind the object is a frame of its own when it comes alone: a rejected
LOGIN on a session, and an SVR_INIT for that session, are then repeated. -/
theorem segmentation_unseen_repeated :
    ∃ srv, (callSystem refusing).run [.json 5 (frame (.login ⟨1, [], []⟩))] Server.init = some srv ∧
      srv.fdIndex.getState 5 = some 0 ∧ srv.userData.getState 1 = some 0 ∧
      SplitUnseen refusing srv (.json 5) (announced (.login ⟨1, [], []⟩))
        (frame (.login ⟨1, [], []⟩)) ∧
      SplitUnseen refusing srv (.manage 7) (announced (.svrInit ⟨1, true⟩))
        (frame (.svrInit ⟨1, true⟩)) := by
  have hrun : ((callSystem refusing).run [.json 5 (frame (.login ⟨1, [], []⟩))]
      Server.init).map (fun srv => (srv.fdIndex.getState 5, srv.userData.getState 1,
        (srv.heap 0).readbuffer)) = some (some 0, some 0, some []) := by decide +kernel
  obtain ⟨srv, hsrv, hstate⟩ := Option.map_eq_some_iff.mp hrun
  simp only [Prod.mk.injEq] at hstate
  obtain ⟨hindex, huser, hbuffer⟩ := hstate
  have hdrained : Drained srv 5 := by
    intro p hp
    rw [hindex, Option.some.injEq] at hp
    rw [← hp, hbuffer]
    rfl
  have hlogin : parseCmd refusing.toEnv (frame (.login ⟨1, [], []⟩)) =
      .success (frame (.login ⟨1, [], []⟩)).length (.login ⟨1, [], []⟩) := by decide +kernel
  have hinit : parseCmd refusing.toEnv (frame (.svrInit ⟨1, true⟩)) =
      .success (frame (.svrInit ⟨1, true⟩)).length (.svrInit ⟨1, true⟩) := by decide +kernel
  refine ⟨srv, hsrv, hindex, huser, ?_, ?_⟩
  · refine ((segmentation_unseen_iff refusing srv 5 _ _ (.login ⟨1, [], []⟩) (by decide)
      (by decide +kernel) (by decide +kernel)).1 0 hindex hdrained).mpr ⟨_, rfl, rfl, ?_⟩
    exact ⟨_, false, .last hlogin (List.drop_length ..), rfl⟩
  · refine (segmentation_unseen_iff refusing srv 7 _ _ (.svrInit ⟨1, true⟩) (by decide)
      (by decide +kernel) (by decide +kernel)).2.mpr ?_
    exact ⟨_, false, .last hinit (List.drop_length ..), rfl, fun _ _ => Iff.rfl⟩

/-- A LOGOUT cut behind its length field: the connection is closed and the session
stays. -/
theorem segmentation_seen_logout :
    ∃ srv, (callSystem default).run [.json 5 (frame (.login ⟨1, [], []⟩))] Server.init = some srv ∧
      srv.fdIndex.getState 5 = some 0 ∧
      parseCmd default ((frame (.logout ⟨1⟩)).take 3 ++ (frame (.logout ⟨1⟩)).drop 3) =
        .success 32 (.logout ⟨1⟩) ∧
      ¬ SplitUnseen default srv (.json 5)
        ((frame (.logout ⟨1⟩)).take 3) ((frame (.logout ⟨1⟩)).drop 3) := by
  have hrun : ((callSystem default).run [.json 5 (frame (.login ⟨1, [], []⟩))] Server.init).map
      (fun srv => (srv.fdIndex.getState 5, (srv.heap 0).readbuffer)) =
      some (some 0, some []) := by decide +kernel
  obtain ⟨srv, hsrv, hstate⟩ := Option.map_eq_some_iff.mp hrun
  rw [Prod.mk.injEq] at hstate
  have hready : Ready srv 5 := by
    intro p hp
    rw [hstate.1, Option.some.injEq] at hp
    rw [← hp]
    exact hstate.2
  have hparse : parseCmd default ((frame (.logout ⟨1⟩)).take 3 ++ (frame (.logout ⟨1⟩)).drop 3) =
      .success 32 (.logout ⟨1⟩) := by decide +kernel
  refine ⟨srv, hsrv, hstate.1, hparse, ?_⟩
  rw [session_split_iff (by decide) hready hstate.1 (by decide +kernel) hparse]
  rintro ⟨login, hlogin, -⟩
  simp at hlogin

end Segmentation

end MmsSvr
