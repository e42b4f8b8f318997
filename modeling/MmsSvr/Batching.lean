import MmsSvr.IndexAgreement

/-!
Several frames in one buffer against one call of `JsonProcess` for each.
-/

namespace MmsSvr

open YYmmsJson YYSSL
open Lib

/-- A buffer that holds one accepted frame and nothing else. -/
def IsFrame (env : Env) (f : Bytes) : Prop := ∃ jobj, parseCmd env f = .success f.length jobj

/-- No bytes are left over from earlier calls. -/
def Drained (srv : Server) (fd : Fd) : Prop :=
  ∀ p, srv.fdIndex.getState fd = some p → (srv.heap p).readbuffer.getD [] = []

/-- What the clients can see of the server, and what it will go on with. -/
structure SameOutcome (srv srv' : Server) : Prop where
  fdIndex : srv'.fdIndex = srv.fdIndex
  userData : srv'.userData = srv.userData
  heap : srv'.heap = srv.heap
  sent : srv'.sent = srv.sent

/-- The AES key of the session of `fd`, or of the session a LOGIN would create. -/
def sessionKey (srv : Server) (fd : Fd) : YYAES :=
  match srv.fdIndex.getState fd with
  | none => YYAES.init
  | some p => (srv.heap p).aes

/-- The frame is a LOGOUT for a session with this key, possibly in envelopes. -/
def isLogout (env : Env) (key : YYAES) (f : Bytes) : Bool :=
  match parseCmd env f with
  | .success _ jobj =>
      match nextRun env key (f.length + 1) jobj with
      | some (.ok (some (.logout _))) => true
      | _ => false
  | _ => false

/-- The number of logins and the key of the session after the frame. -/
def keyAfter (env : ServerEnv) (n : Nat) (key : YYAES) (f : Bytes) : Nat × YYAES :=
  match parseCmd env.toEnv f with
  | .success _ (.login _) =>
      let r := env.readings n
      (n + 1, if r.accepts then YYAES.aesSetKey r.aesKey else key)
  | _ => (n, key)

/-- A LOGOUT stands among the frames and is not the last of them. -/
def logoutInside (env : ServerEnv) (n : Nat) (key : YYAES) : List Bytes → Bool
  | [] => false
  | [_] => false
  | f :: g :: fs =>
      isLogout env.toEnv key f ||
        logoutInside env (keyAfter env n key f).1 (keyAfter env n key f).2 (g :: fs)

variable {env : ServerEnv} {fd : Fd} {srv srv' : Server}

section Frames

variable {f : Bytes} {jobj : YYJ} {key : YYAES} {n : Nat}

theorem IsFrame.ne_nil {env : Env} (h : IsFrame env f) : f ≠ [] := by
  obtain ⟨jobj, hparse⟩ := h
  have hle := parseCmd_offset_le hparse
  intro hnil
  rw [hnil] at hle
  simp at hle

theorem isLogout_eq_true_iff {env : Env} (hparse : parseCmd env f = .success f.length jobj) :
    isLogout env key f = true ↔
      ∃ c, nextRun env key (f.length + 1) jobj = some (.ok (some (.logout c))) := by
  unfold isLogout
  rw [hparse]
  dsimp only
  split
  · rename_i c hnext
    simp [hnext]
  · rename_i hnext
    simpa using hnext

theorem isLogout_login {env : Env} {login : YYJsonLogin}
    (hparse : parseCmd env f = .success f.length (.login login)) : isLogout env key f = false := by
  rw [← Bool.not_eq_true, isLogout_eq_true_iff hparse]
  simp [nextRun]

theorem keyAfter_login {login : YYJsonLogin}
    (hparse : parseCmd env.toEnv f = .success f.length (.login login)) :
    keyAfter env n key f = (n + 1, if (env.readings n).accepts then
      YYAES.aesSetKey (env.readings n).aesKey else key) := by
  rw [keyAfter, hparse]

theorem keyAfter_notLogin (hparse : parseCmd env.toEnv f = .success f.length jobj)
    (hlogin : NotLogin jobj) : keyAfter env n key f = (n, key) := by
  rw [keyAfter, hparse]
  cases jobj with
  | login login => exact absurd rfl (hlogin login)
  | _ => rfl

theorem logoutInside_of_isPrefix {fs gs : List Bytes} (h : fs <+: gs)
    (hgs : logoutInside env n key gs = false) : logoutInside env n key fs = false := by
  induction gs generalizing fs n key with
  | nil =>
      rw [List.prefix_nil.mp h]
      rfl
  | cons g gs ih =>
      cases fs with
      | nil => rfl
      | cons f fs =>
          obtain ⟨rfl, hfs⟩ := List.cons_prefix_cons.mp h
          cases fs with
          | nil => rfl
          | cons f' fs =>
              cases gs with
              | nil => simp at hfs
              | cons g' gs =>
                  simp only [logoutInside, Bool.or_eq_false_iff] at hgs ⊢
                  exact ⟨hgs.1, ih hfs hgs.2⟩

end Frames

section Sessions

/-- The session of `fd`, if any, waits with an empty buffer. -/
def Ready (srv : Server) (fd : Fd) : Prop :=
  ∀ p, srv.fdIndex.getState fd = some p → (srv.heap p).readbuffer = some []

theorem jsonBegin_of_ready (h : Ready srv fd) (readbuffer : Bytes) :
    jsonBegin srv fd readbuffer = (srv, ⟨srv.fdIndex.getState fd, readbuffer⟩) := by
  unfold jsonBegin
  split
  · rename_i hnone
    rw [hnone]
  · rename_i p hp
    have hself : { srv.heap p with readbuffer := some [] } = srv.heap p := by
      rw [← h p hp]
    rw [hp, h p hp]
    simp [Server.apply, hself]

/-- The server when the loop of a call for `fd` is entered. -/
def drain (srv : Server) (fd : Fd) : Server := (jsonBegin srv fd []).1

theorem drain_cases (srv : Server) (fd : Fd) :
    (drain srv fd).fdIndex = srv.fdIndex ∧ (drain srv fd).logins = srv.logins ∧
      sessionKey (drain srv fd) fd = sessionKey srv fd ∧ Ready (drain srv fd) fd := by
  unfold drain jsonBegin
  split
  · rename_i hnone
    exact ⟨rfl, rfl, rfl, fun p hp => by simp [hnone] at hp⟩
  · rename_i p hp
    refine ⟨rfl, rfl, ?_, ?_⟩
    · unfold sessionKey
      simp [Server.apply, hp]
    · intro q hq
      change srv.fdIndex.getState fd = some q at hq
      rw [hp, Option.some.injEq] at hq
      simp [Server.apply, hq]

theorem jsonBegin_of_drained (h : Drained srv fd) (readbuffer : Bytes) :
    jsonBegin srv fd readbuffer = jsonBegin (drain srv fd) fd readbuffer := by
  rw [jsonBegin_of_ready (drain_cases srv fd).2.2.2, (drain_cases srv fd).1]
  unfold drain jsonBegin
  split
  · rename_i hnone
    simp [hnone]
  · rename_i p hp
    simp [h p hp, hp]

theorem jsonProcess_of_drained (hfd : fd ≠ 0) (h : Drained srv fd) (readbuffer : Bytes) :
    jsonProcess env srv fd readbuffer = jsonProcess env (drain srv fd) fd readbuffer := by
  unfold jsonProcess
  rw [if_neg hfd, if_neg hfd, jsonBegin_of_drained h]

theorem sessionKey_of_some {p : Ptr} (h : srv.fdIndex.getState fd = some p) :
    sessionKey srv fd = (srv.heap p).aes := by
  rw [sessionKey, h]

end Sessions

section Handled

variable {f : Bytes} {jobj : YYJ} {p : Ptr}

theorem perform_handleLogin_aes (env : ServerEnv) (fd : Fd) (srv t : Server) (state : Option Ptr)
    (login : YYJsonLogin) :
    ((t.perform (handleLogin env srv fd state login).2).heap
      (handleLogin env srv fd state login).1).aes =
        if (env.readings srv.logins).accepts then YYAES.aesSetKey (env.readings srv.logins).aesKey
        else (state.map fun p => (t.heap p).aes).getD YYAES.init := by
  cases state with
  | none =>
      simp only [handleLogin]
      rw [Server.perform_append, perform_loginCmd_aes]
      simp [Server.apply, loginFields, newSession, ItemData.init]
  | some p =>
      simp only [handleLogin]
      rw [Server.perform_cons, perform_loginCmd_aes]
      simp [Server.apply, loginFields]

theorem Handled.stays (h : Handled env fd srv (srv.fdIndex.getState fd) jobj srv' p)
    (hready : Ready srv fd) (hparse : parseCmd env.toEnv f = .success f.length jobj)
    (hlogout : isLogout env.toEnv (sessionKey srv fd) f = false) :
    srv'.fdIndex.getState fd = some p ∧ Ready srv' fd ∧
      (srv'.logins, sessionKey srv' fd) = keyAfter env srv.logins (sessionKey srv fd) f := by
  suffices hsuff : srv'.fdIndex.getState fd = some p ∧ (srv'.heap p).readbuffer = some [] ∧
      (srv'.logins, (srv'.heap p).aes) = keyAfter env srv.logins (sessionKey srv fd) f by
    obtain ⟨hindex, hbuffer, hkey⟩ := hsuff
    refine ⟨hindex, ?_, ?_⟩
    · intro q hq
      rw [hindex, Option.some.injEq] at hq
      rw [← hq]
      exact hbuffer
    · rw [sessionKey_of_some hindex]
      exact hkey
  generalize hstate : srv.fdIndex.getState fd = state at h
  cases h with
  | login state login =>
      have haes := perform_handleLogin_aes env fd srv { srv with logins := srv.logins + 1 }
        state login
      rw [keyAfter_login hparse]
      cases state with
      | none =>
          obtain ⟨hfd, -, hlogins, ⟨-, -, hbuffer⟩, -⟩ := perform_handleLogin_none env fd srv
            { srv with logins := srv.logins + 1 } login
          refine ⟨?_, hbuffer, ?_⟩
          · rw [hfd]
            exact StateMap.getState_addState_self _ _ _
          · rw [hlogins, haes, sessionKey, hstate]
            rfl
      | some p =>
          obtain ⟨hfd, -, hlogins, -, hkeep, -⟩ := perform_handleLogin_some env fd p srv
            { srv with logins := srv.logins + 1 } login
          refine ⟨?_, ?_, ?_⟩
          · rw [hfd]
            exact hstate
          · exact (hkeep p).2.trans (hready p hstate)
          · rw [hlogins, haes, sessionKey_of_some hstate]
            rfl
  | unopened p jobj fuel hlogin hnext =>
      rw [keyAfter_notLogin hparse hlogin, sessionKey_of_some hstate]
      exact ⟨hstate, hready p hstate, rfl⟩
  | command p jobj fuel cmd effects hlogin hnext hdispatch =>
      rw [keyAfter_notLogin hparse hlogin, sessionKey_of_some hstate]
      rcases dispatch_cases hdispatch with ⟨-, hquiet⟩ | ⟨c, outputs, rfl, -, -⟩
      · have hsame := perform_of_quiet srv hquiet
        rw [hsame.fdIndex, hsame.readbuffer, hsame.logins,
          perform_aes srv (dispatch_keepsKey hdispatch)]
        exact ⟨hstate, hready p hstate, rfl⟩
      · rw [sessionKey_of_some hstate, ← Bool.not_eq_true, isLogout_eq_true_iff hparse] at hlogout
        exact absurd ⟨c, nextRun_of_frame hparse hnext⟩ hlogout

theorem Handled.leaves (h : Handled env fd srv (srv.fdIndex.getState fd) jobj srv' p)
    (hparse : parseCmd env.toEnv f = .success f.length jobj)
    (hlogout : isLogout env.toEnv (sessionKey srv fd) f = true) :
    srv'.fdIndex.getState fd = none := by
  generalize hstate : srv.fdIndex.getState fd = state at h
  cases h with
  | login state login => simp [isLogout_login hparse] at hlogout
  | unopened p jobj fuel hlogin hnext =>
      rw [sessionKey_of_some hstate, isLogout_eq_true_iff hparse] at hlogout
      obtain ⟨c, hc⟩ := hlogout
      have heq := nextRun_unique hnext hc
      simp at heq
  | command p jobj fuel cmd effects hlogin hnext hdispatch =>
      rw [sessionKey_of_some hstate, isLogout_eq_true_iff hparse] at hlogout
      obtain ⟨c, hc⟩ := hlogout
      have heq := nextRun_unique hnext hc
      simp only [Except.ok.injEq, Option.some.injEq] at heq
      rcases dispatch_cases hdispatch with ⟨hcmd, -⟩ | ⟨c', outputs, -, houtputs, rfl⟩
      · exact absurd heq (hcmd c)
      · rw [(perform_logout srv houtputs (srv.heap p).yyID fd).1]
        exact StateMap.getState_delState_self _ _

theorem Handled.registers (h : Handled env fd srv none jobj srv' p) :
    (∃ login, jobj = .login login) ∧ srv'.fdIndex.getState fd = some p := by
  cases h with
  | login _ login =>
      refine ⟨⟨login, rfl⟩, ?_⟩
      rw [(perform_handleLogin_none env fd srv { srv with logins := srv.logins + 1 } login).1]
      exact StateMap.getState_addState_self _ _ _

end Handled

section Calls

variable {f : Bytes} {fs : List Bytes} {jobj : YYJ}

/-- One call for each frame. -/
def frameCalls (fd : Fd) (fs : List Bytes) : List (Fd × Bytes) := fs.map fun f => (fd, f)

theorem jsonCalls_cons {readbuffer : Bytes} {calls : List (Fd × Bytes)} :
    jsonCalls env srv ((fd, readbuffer) :: calls) = some srv' ↔
      ∃ t, jsonProcess env srv fd readbuffer = some (.ok t) ∧ jsonCalls env t calls = some srv' := by
  rw [jsonCalls]
  constructor
  · intro h
    split at h
    · rename_i t ht
      exact ⟨t, ht, h⟩
    · simp at h
  · rintro ⟨t, ht, h⟩
    rw [ht]
    exact h

theorem jsonProcess_frame_iff (hfd : fd ≠ 0) (hready : Ready srv fd)
    (hparse : parseCmd env.toEnv f = .success f.length jobj) :
    jsonProcess env srv fd f = some (.ok srv') ↔
      ∃ p, Handled env fd srv (srv.fdIndex.getState fd) jobj srv' p := by
  rw [jsonProcess_eq_some_iff env srv srv' hfd, jsonBegin_of_ready hready]
  constructor
  · rintro ⟨l, hyields⟩
    cases DoWhile.yields_ok_iff.mp hyields with
    | last hbody hlast =>
        rcases handled_of_body hparse hbody with ⟨-, -, heq⟩ | ⟨p, hp, -⟩
        · rw [heq] at hlast
          simp [jsonLoop, IsFrame.ne_nil ⟨jobj, hparse⟩] at hlast
        · exact ⟨p, hp⟩
    | turn hturn hrest =>
        rcases handled_of_body hparse hturn.1 with ⟨-, -, rfl⟩ | ⟨p, -, ht⟩
        · obtain ⟨fuel, hrun⟩ := hyields
          exact absurd ⟨fuel, _, hrun⟩ (DoWhile.not_ends_of_stuck hturn)
        · have hagain := hturn.2
          simp [jsonLoop, ht] at hagain
  · rintro ⟨p, hp⟩
    refine ⟨⟨some p, f.drop f.length⟩, ?_⟩
    exact DoWhile.yields_of_last (body_of_handled hparse hp) (by simp [jsonLoop])

theorem turn_frame {state : Option Ptr} {p : Ptr} {rest : Bytes} (hrest : rest ≠ [])
    (hparse : parseCmd env.toEnv f = .success f.length jobj)
    (h : Handled env fd srv state jobj srv' p) :
    (jsonLoop env fd).Turn (srv, ⟨state, f ++ rest⟩) (srv', ⟨some p, rest⟩) := by
  constructor
  · rw [body_of_handled (parseCmd_append hparse rest) h, List.drop_left]
  · simp [jsonLoop, hrest]

theorem flatten_ne_nil {env : Env} (hf : IsFrame env f) : (f :: fs).flatten ≠ [] := by
  simp [hf.ne_nil]

theorem yields_of_frameCalls (hfd : fd ≠ 0) (hframes : ∀ g ∈ f :: fs, IsFrame env.toEnv g)
    (hready : Ready srv fd)
    (hlogout : logoutInside env srv.logins (sessionKey srv fd) (f :: fs) = false)
    (h : jsonCalls env srv (frameCalls fd (f :: fs)) = some srv') :
    ∃ l, (jsonLoop env fd).Yields (srv, ⟨srv.fdIndex.getState fd, (f :: fs).flatten⟩)
      (.ok (srv', l)) := by
  induction fs generalizing f srv with
  | nil =>
      obtain ⟨t, ht, hnil⟩ := jsonCalls_cons.mp h
      simp only [List.map_nil, jsonCalls, Option.some.injEq] at hnil
      subst hnil
      rw [jsonProcess_eq_some_iff env srv t hfd, jsonBegin_of_ready hready] at ht
      simpa using ht
  | cons g fs ih =>
      obtain ⟨t, ht, hrest⟩ := jsonCalls_cons.mp h
      rw [List.forall_mem_cons] at hframes
      obtain ⟨⟨jobj, hparse⟩, hframes⟩ := hframes
      obtain ⟨p, hp⟩ := (jsonProcess_frame_iff hfd hready hparse).mp ht
      simp only [logoutInside, Bool.or_eq_false_iff] at hlogout
      obtain ⟨hindex, hready', hkey⟩ := hp.stays hready hparse hlogout.1
      rw [← hkey] at hlogout
      obtain ⟨l, hl⟩ := ih hframes hready' hlogout.2 hrest
      refine ⟨l, ?_⟩
      rw [hindex] at hl
      rw [List.flatten_cons]
      have hne : (g :: fs).flatten ≠ [] := flatten_ne_nil (hframes g (by simp))
      exact (DoWhile.yields_iff_of_turn (turn_frame hne hparse hp)).mpr hl

/-- After a LOGOUT the next frame must be a LOGIN.  Its own call registers a session;
in one buffer it finds the session that has been logged out. -/
theorem unregistered_of_logoutInside (hfd : fd ≠ 0)
    (hframes : ∀ g ∈ f :: fs, IsFrame env.toEnv g) (hready : Ready srv fd)
    (hlogout : logoutInside env srv.logins (sessionKey srv fd) (f :: fs) = true)
    (h : jsonCalls env srv (frameCalls fd (f :: fs)) = some srv') :
    ∃ gs, gs ≠ [] ∧ gs <+: f :: fs ∧ ∃ srv₁ srv₂ l,
      jsonCalls env srv (frameCalls fd gs) = some srv₁ ∧ srv₁.fdIndex.getState fd ≠ none ∧
      (jsonLoop env fd).Yields (srv, ⟨srv.fdIndex.getState fd, gs.flatten⟩) (.ok (srv₂, l)) ∧
      srv₂.fdIndex.getState fd = none := by
  induction fs generalizing f srv with
  | nil => simp [logoutInside] at hlogout
  | cons g fs ih =>
      obtain ⟨t, ht, hrest⟩ := jsonCalls_cons.mp h
      rw [List.forall_mem_cons] at hframes
      obtain ⟨⟨jobj, hparse⟩, hframes⟩ := hframes
      obtain ⟨p, hp⟩ := (jsonProcess_frame_iff hfd hready hparse).mp ht
      have hg : IsFrame env.toEnv g := hframes g (by simp)
      cases hleave : isLogout env.toEnv (sessionKey srv fd) f with
      | true =>
          have hnone := hp.leaves hparse hleave
          have hready' : Ready t fd := fun q hq => by simp [hnone] at hq
          obtain ⟨u, hu, -⟩ := jsonCalls_cons.mp hrest
          obtain ⟨jobj', hparse'⟩ := hg
          obtain ⟨q, hq⟩ := (jsonProcess_frame_iff hfd hready' hparse').mp hu
          rw [hnone] at hq
          obtain ⟨⟨login, rfl⟩, hindex⟩ := hq.registers
          have hturn := turn_frame (IsFrame.ne_nil ⟨_, hparse'⟩) hparse hp
          -- the same LOGIN with the session that is no longer registered
          have hstale : Handled env fd t (some p) (.login login) _ _ := .login (some p) login
          have hyields : (jsonLoop env fd).Yields (srv, ⟨srv.fdIndex.getState fd, f ++ g⟩) _ :=
            (DoWhile.yields_iff_of_turn hturn).mpr
              (DoWhile.yields_of_last (body_of_handled hparse' hstale) (by simp [jsonLoop]))
          refine ⟨[f, g], by simp, by simp, u, _, _, ?_, ?_, by simpa using hyields, ?_⟩
          · exact jsonCalls_cons.mpr ⟨t, ht, jsonCalls_cons.mpr ⟨u, hu, rfl⟩⟩
          · rw [hindex]
            simp
          · rw [(perform_handleLogin_some env fd p t { t with logins := t.logins + 1 } login).1]
            exact hnone
      | false =>
          simp only [logoutInside, hleave, Bool.false_or] at hlogout
          obtain ⟨hindex, hready', hkey⟩ := hp.stays hready hparse hleave
          rw [← hkey] at hlogout
          obtain ⟨gs, hne, hcut, srv₁, srv₂, l, hcalls, hsome, hyields, hnone⟩ :=
            ih hframes hready' hlogout hrest
          refine ⟨f :: gs, by simp, by simpa using hcut, srv₁, srv₂, l, ?_, hsome, ?_, hnone⟩
          · exact jsonCalls_cons.mpr ⟨t, ht, hcalls⟩
          · obtain ⟨g', gs, rfl⟩ := List.exists_cons_of_ne_nil hne
            have hg' : IsFrame env.toEnv g' := hframes g' (hcut.subset (by simp))
            rw [hindex] at hyields
            rw [List.flatten_cons]
            exact (DoWhile.yields_iff_of_turn
              (turn_frame (flatten_ne_nil hg') hparse hp)).mpr hyields

end Calls

section Batching

theorem jsonProcess_noLeftovers {readbuffer : Bytes} (hsrv : NoLeftovers srv)
    (h : jsonProcess env srv fd readbuffer = some (.ok srv')) : NoLeftovers srv' := by
  by_cases hfd : fd = 0
  · rw [jsonProcess, if_pos hfd, Option.some.injEq, Except.ok.injEq] at h
    rw [← h]
    exact hsrv
  · rw [jsonProcess_eq_some_iff env srv srv' hfd] at h
    obtain ⟨l, fuel, hrun⟩ := h
    refine DoWhile.run_ok (fun s => NoLeftovers s.1) hrun
      (jsonBegin_noLeftovers hsrv fd readbuffer) ?_
    rintro u v - hu hbody
    obtain ⟨turn, hturn, rfl⟩ := jsonLoop_body_ok.mp hbody
    refine perform_noLeftovers (jsonTurn_fillsNothing hturn) ?_
    cases jsonTurn_cases hturn <;> exact hu

theorem reachable_noLeftovers {guard : Server → Call → Prop}
    (h : (callSystem env).Reachable guard srv) : NoLeftovers srv := by
  refine h.invariant NoLeftovers (fun p => rfl) ?_
  rintro s call t hs - hstep
  cases call with
  | json fd readbuffer => exact jsonProcess_noLeftovers hs (step_json.mp hstep)
  | manage fd readbuffer =>
      intro p
      rw [(processMmsExecData_sameSessions (step_manage.mp hstep)).readbuffer]
      exact hs p

theorem jsonCalls_of_drained (hfd : fd ≠ 0) (h : Drained srv fd) {fs : List Bytes}
    (hne : fs ≠ []) :
    jsonCalls env srv (frameCalls fd fs) = jsonCalls env (drain srv fd) (frameCalls fd fs) := by
  obtain ⟨f, fs, rfl⟩ := List.exists_cons_of_ne_nil hne
  simp only [frameCalls, List.map_cons, jsonCalls]
  rw [jsonProcess_of_drained hfd h]

/-- One buffer and one call for each frame come to the same, for the frames and for
every beginning of them, exactly when no LOGOUT stands before the last frame. -/
theorem batching_unobservable_iff (env : ServerEnv) (srv srv' : Server) (fd : Fd)
    (frames : List Bytes) (hfd : fd ≠ 0) (hdrained : Drained srv fd)
    (hframes : ∀ f ∈ frames, IsFrame env.toEnv f)
    (hcalls : jsonCalls env srv (frameCalls fd frames) = some srv') :
    (∀ fs srv₁, fs ≠ [] → fs <+: frames → jsonCalls env srv (frameCalls fd fs) = some srv₁ →
      ∃ srv₂, jsonProcess env srv fd fs.flatten = some (.ok srv₂) ∧ SameOutcome srv₁ srv₂) ↔
      logoutInside env srv.logins (sessionKey srv fd) frames = false := by
  obtain ⟨hindex, hlogins, hkey, hready⟩ := drain_cases srv fd
  constructor
  · intro hsame
    by_contra hlogout
    rw [Bool.not_eq_false] at hlogout
    have hne : frames ≠ [] := fun hnil => by simp [hnil, logoutInside] at hlogout
    obtain ⟨f, fs, rfl⟩ := List.exists_cons_of_ne_nil hne
    rw [jsonCalls_of_drained hfd hdrained hne] at hcalls
    rw [← hlogins, ← hkey] at hlogout
    obtain ⟨gs, hgs, hcut, srv₁, srv₂, l, h₁, hsome, hyields, hnone⟩ :=
      unregistered_of_logoutInside hfd hframes hready hlogout hcalls
    rw [← jsonCalls_of_drained hfd hdrained hgs] at h₁
    obtain ⟨srv₃, h₃, houtcome⟩ := hsame gs srv₁ hgs hcut h₁
    rw [jsonProcess_of_drained hfd hdrained, jsonProcess_eq_some_iff env _ _ hfd,
      jsonBegin_of_ready hready] at h₃
    obtain ⟨l', hl'⟩ := h₃
    have heq := hyields.unique hl'
    simp only [Except.ok.injEq, Prod.mk.injEq] at heq
    rw [← houtcome.fdIndex, ← heq.1] at hsome
    exact hsome hnone
  · intro hlogout fs srv₁ hne hcut h₁
    obtain ⟨f, fs, rfl⟩ := List.exists_cons_of_ne_nil hne
    have hinside := logoutInside_of_isPrefix hcut hlogout
    rw [← hlogins, ← hkey] at hinside
    rw [jsonCalls_of_drained hfd hdrained hne] at h₁
    have hyields := yields_of_frameCalls hfd (fun g hg => hframes g (hcut.subset hg)) hready
      hinside h₁
    refine ⟨srv₁, ?_, rfl, rfl, rfl, rfl⟩
    rw [jsonProcess_of_drained hfd hdrained, jsonProcess_eq_some_iff env _ _ hfd,
      jsonBegin_of_ready hready]
    exact hyields

theorem batching_login_logout :
    ∃ srv₁ srv₂,
      jsonCalls default Server.init (frameCalls 5 [frame (.login ⟨1, [], []⟩), frame (.logout ⟨1⟩)])
        = some srv₁ ∧
      jsonProcess default Server.init 5 [frame (.login ⟨1, [], []⟩), frame (.logout ⟨1⟩)].flatten
        = some (.ok srv₂) ∧ SameOutcome srv₁ srv₂ := by
  have hframes : ∀ f ∈ [frame (.login ⟨1, [], []⟩), frame (.logout ⟨1⟩)],
      IsFrame (default : ServerEnv).toEnv f := by
    intro f hf
    rcases List.mem_pair.mp hf with rfl | rfl
    · exact ⟨.login ⟨1, [], []⟩, by decide +kernel⟩
    · exact ⟨.logout ⟨1⟩, by decide +kernel⟩
  have hcalls : (jsonCalls default Server.init
      (frameCalls 5 [frame (.login ⟨1, [], []⟩), frame (.logout ⟨1⟩)])).isSome := by
    decide +kernel
  obtain ⟨srv₁, h₁⟩ := Option.isSome_iff_exists.mp hcalls
  obtain ⟨srv₂, h₂, hsame⟩ := (batching_unobservable_iff default Server.init srv₁ 5 _ (by decide)
    (fun p hp => nomatch hp) hframes h₁).mpr (by decide +kernel) _ srv₁ (by simp)
    (List.prefix_refl _) h₁
  exact ⟨srv₁, srv₂, h₁, h₂, hsame⟩

/-- LOGIN, LOGOUT, LOGIN: in one buffer the second LOGIN registers nothing. -/
theorem batching_login_after_logout :
    let frames := [frame (.login ⟨1, [], []⟩), frame (.logout ⟨1⟩), frame (.login ⟨1, [], []⟩)]
    (∀ f ∈ frames, IsFrame (default : ServerEnv).toEnv f) ∧
      ∃ srv₁ srv₂, jsonCalls default Server.init (frameCalls 5 frames) = some srv₁ ∧
        jsonProcess default Server.init 5 frames.flatten = some (.ok srv₂) ∧
        srv₁.fdIndex.getState 5 = some 1 ∧ srv₂.fdIndex.getState 5 = none ∧
        ¬ SameOutcome srv₁ srv₂ := by
  intro frames
  refine ⟨?_, ?_⟩
  · intro f hf
    simp only [frames, List.mem_cons, List.not_mem_nil, or_false] at hf
    rcases hf with rfl | rfl | rfl
    · exact ⟨.login ⟨1, [], []⟩, by decide +kernel⟩
    · exact ⟨.logout ⟨1⟩, by decide +kernel⟩
    · exact ⟨.login ⟨1, [], []⟩, by decide +kernel⟩
  · have h₁ : (jsonCalls default Server.init (frameCalls 5 frames)).map
        (fun srv => srv.fdIndex.getState 5) = some (some 1) := by decide +kernel
    have h₂ : (jsonProcess default Server.init 5 frames.flatten).map
        (Except.map fun srv => srv.fdIndex.getState 5) = some (.ok none) := by decide +kernel
    obtain ⟨srv₁, hsrv₁, hindex₁⟩ := Option.map_eq_some_iff.mp h₁
    obtain ⟨r, hr, hmap⟩ := Option.map_eq_some_iff.mp h₂
    obtain ⟨srv₂, rfl, hindex₂⟩ := map_eq_ok_iff.mp hmap
    refine ⟨srv₁, srv₂, hsrv₁, hr, hindex₁, hindex₂, ?_⟩
    intro hsame
    rw [hsame.fdIndex, hindex₁] at hindex₂
    simp at hindex₂

end Batching

end MmsSvr
