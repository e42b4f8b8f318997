import MmsSvr.Handlers
import MmsSvr.Termination
import MmsSvr.Lib.Transition

/-!
The index by descriptor and the index by `yyID` name the same sessions, in every run
whose logins and logouts keep the two apart from other users' entries.
-/

namespace MmsSvr

open YYmmsJson
open Lib

structure Agree (srv : Server) : Prop where
  byFd : ∀ fd p, srv.fdIndex.getState fd = some p →
    (srv.heap p).fd = fd ∧ srv.userData.getState (srv.heap p).yyID = some p
  byUser : ∀ yyID p, srv.userData.getState yyID = some p →
    (srv.heap p).yyID = yyID ∧ srv.fdIndex.getState (srv.heap p).fd = some p

def Allocated (srv : Server) : Prop :=
  ∀ fd p, srv.fdIndex.getState fd = some p → p < srv.logins

/-- Between the turns of a call for `fd`, the local session is the registered one or
one that has been logged out. -/
structure Consistent (fd : Fd) (s : Server × Locals) : Prop where
  agree : Agree s.1
  allocated : Allocated s.1
  absent : s.2.state = none → s.1.fdIndex.getState fd = none
  present : ∀ p, s.2.state = some p → (s.1.heap p).fd = fd ∧ p < s.1.logins ∧
    (s.1.fdIndex.getState fd = some p ∨ s.1.fdIndex.getState fd = none)

/-- The turns that keep the indexes in agreement.  A LOGIN must not take over a
registered `yyID`, nor change the `yyID` of a registered session; a second LOGOUT of
the same session must not meet a `yyID` registered for another. -/
structure KeepsApart (env : ServerEnv) (fd : Fd) (s : Server × Locals) : Prop where
  newLogin : ∀ offset login, parseCmd env.toEnv s.2.buf = .success offset (.login login) →
    s.2.state = none → s.1.userData.getState login.yyID = none
  relogin : ∀ offset login p, parseCmd env.toEnv s.2.buf = .success offset (.login login) →
    s.2.state = some p → s.1.fdIndex.getState fd = some p → login.yyID = (s.1.heap p).yyID
  logout : ∀ offset jobj p c, parseCmd env.toEnv s.2.buf = .success offset jobj →
    s.2.state = some p →
    nextRun env.toEnv (s.1.heap p).aes (s.2.buf.length + 1) jobj = some (.ok (some (.logout c))) →
    s.1.fdIndex.getState fd = none → s.1.userData.getState (s.1.heap p).yyID = none

def keepsApart (env : ServerEnv) (fd : Fd) (s : Server × Locals) : Bool :=
  match parseCmd env.toEnv s.2.buf, s.2.state with
  | .success _ (.login login), none => s.1.userData.getState login.yyID == none
  | .success _ (.login login), some p =>
      s.1.fdIndex.getState fd != some p || login.yyID == (s.1.heap p).yyID
  | .success _ jobj, some p =>
      match nextRun env.toEnv (s.1.heap p).aes (s.2.buf.length + 1) jobj with
      | some (.ok (some (.logout _))) =>
          s.1.fdIndex.getState fd != none || s.1.userData.getState (s.1.heap p).yyID == none
      | _ => true
  | _, _ => true

theorem nextRun_login_ne {env : Env} {aes : YYSSL.YYAES} {fuel : Nat} {login : YYJsonLogin}
    {c : YYJsonYyID} : nextRun env aes (fuel + 1) (.login login) ≠ some (.ok (some (.logout c))) := by
  simp [nextRun]

theorem KeepsApart.of_check {env : ServerEnv} {fd : Fd} {s : Server × Locals}
    (h : keepsApart env fd s = true) : KeepsApart env fd s := by
  unfold keepsApart at h
  constructor
  · intro offset login hparse hstate
    simpa [hparse, hstate] using h
  · intro offset login p hparse hstate hindex
    simpa [hparse, hstate, hindex] using h
  · intro offset jobj p c hparse hstate hrun hindex
    rw [hparse, hstate] at h
    cases jobj with
    | login login => exact absurd hrun nextRun_login_ne
    | _ => simpa [hrun, hindex] using h

section Agreement

variable {srv srv' : Server}

theorem SameSessions.agree (h : SameSessions srv srv') (hagree : Agree srv) : Agree srv' := by
  constructor
  · intro fd p hp
    rw [h.fdIndex] at hp
    rw [h.fd, h.userData, h.yyID]
    exact hagree.byFd fd p hp
  · intro yyID p hp
    rw [h.userData] at hp
    rw [h.yyID, h.fdIndex, h.fd]
    exact hagree.byUser yyID p hp

theorem SameSessions.consistent (h : SameSessions srv srv') {fd : Fd} {l l' : Locals}
    (hs : Consistent fd (srv, l)) (hl : l'.state = l.state) : Consistent fd (srv', l') := by
  refine ⟨h.agree hs.agree, ?_, ?_, ?_⟩
  · intro fd' p hp
    rw [h.fdIndex] at hp
    rw [h.logins]
    exact hs.allocated fd' p hp
  · intro hnone
    rw [h.fdIndex]
    exact hs.absent (by rw [← hl]; exact hnone)
  · intro p hp
    rw [h.fd, h.logins, h.fdIndex]
    exact hs.present p (by rw [← hl]; exact hp)

theorem Agree.unregistered (hagree : Agree srv) {p : Ptr}
    (hp : srv.fdIndex.getState (srv.heap p).fd = none) :
    (∀ fd, srv.fdIndex.getState fd ≠ some p) ∧ ∀ yyID, srv.userData.getState yyID ≠ some p := by
  constructor
  · intro fd h
    have hfd := (hagree.byFd fd p h).1
    rw [hfd, h] at hp
    exact nomatch hp
  · intro yyID h
    have hindex := (hagree.byUser yyID p h).2
    rw [hindex] at hp
    exact nomatch hp

theorem Agree.register (hagree : Agree srv) {fd : Fd} {yyID : UInt32} {p : Ptr}
    (hfd : srv'.fdIndex = srv.fdIndex.addState fd p)
    (huser : srv'.userData = srv.userData.addState yyID p)
    (hkeys : (srv'.heap p).fd = fd ∧ (srv'.heap p).yyID = yyID)
    (hother : ∀ fd' q, srv.fdIndex.getState fd' = some q →
      (srv'.heap q).fd = (srv.heap q).fd ∧ (srv'.heap q).yyID = (srv.heap q).yyID)
    (habsent : srv.fdIndex.getState fd = none) (hfresh : srv.userData.getState yyID = none) :
    Agree srv' := by
  constructor
  · intro fd' q hq
    rw [hfd, StateMap.getState_addState] at hq
    rw [huser, StateMap.getState_addState]
    split at hq
    · rename_i heq
      obtain rfl := Option.some.inj hq
      exact ⟨hkeys.1.trans heq.symm, if_pos hkeys.2⟩
    · obtain ⟨hqfd, hqyyID⟩ := hother fd' q hq
      obtain ⟨hfd', hquser⟩ := hagree.byFd fd' q hq
      rw [hqfd, hqyyID]
      refine ⟨hfd', ?_⟩
      rw [if_neg ?_]
      · exact hquser
      · intro heq
        rw [heq, hfresh] at hquser
        exact nomatch hquser
  · intro yyID' q hq
    rw [huser, StateMap.getState_addState] at hq
    rw [hfd, StateMap.getState_addState]
    split at hq
    · rename_i heq
      obtain rfl := Option.some.inj hq
      exact ⟨hkeys.2.trans heq.symm, if_pos hkeys.1⟩
    · obtain ⟨hyyID', hindex⟩ := hagree.byUser yyID' q hq
      obtain ⟨hqfd, hqyyID⟩ := hother _ q hindex
      rw [hqfd, hqyyID]
      refine ⟨hyyID', ?_⟩
      rw [if_neg ?_]
      · exact hindex
      · intro heq
        rw [heq, habsent] at hindex
        exact nomatch hindex

theorem Agree.unregister (hagree : Agree srv) {fd : Fd} {yyID : UInt32}
    (hfd : srv'.fdIndex = srv.fdIndex.delState fd)
    (huser : srv'.userData = srv.userData.delState yyID) (hheap : srv'.heap = srv.heap)
    (hsame : srv.fdIndex.getState fd = srv.userData.getState yyID) : Agree srv' := by
  constructor
  · intro fd' q hq
    rw [hfd, StateMap.getState_delState] at hq
    split at hq
    · exact nomatch hq
    · rename_i hne
      obtain ⟨hqfd, hquser⟩ := hagree.byFd fd' q hq
      rw [hheap, huser, StateMap.getState_delState, if_neg]
      · exact ⟨hqfd, hquser⟩
      · intro heq
        rw [heq, ← hsame] at hquser
        exact hne (hqfd.symm.trans (hagree.byFd fd q hquser).1)
  · intro yyID' q hq
    rw [huser, StateMap.getState_delState] at hq
    split at hq
    · exact nomatch hq
    · rename_i hne
      obtain ⟨hqyyID, hqindex⟩ := hagree.byUser yyID' q hq
      rw [hheap, hfd, StateMap.getState_delState, if_neg]
      · exact ⟨hqyyID, hqindex⟩
      · intro heq
        rw [heq, hsame] at hqindex
        exact hne (hqyyID.symm.trans (hagree.byUser yyID q hqindex).1)

end Agreement

section Turns

variable {env : ServerEnv} {fd : Fd} {srv : Server} {l : Locals}

theorem consistent_login_none {login : YYJsonLogin} (hs : Consistent fd (srv, l))
    (hstate : l.state = none) (hfresh : srv.userData.getState login.yyID = none) (buf : Bytes) :
    Consistent fd
      (Server.perform { srv with logins := srv.logins + 1 }
        (handleLogin env srv fd none login).2, ⟨some srv.logins, buf⟩) := by
  obtain ⟨hfd, huser, hlogins, ⟨hpfd, hpyyID, -⟩, hother⟩ := perform_handleLogin_none env fd srv
    { srv with logins := srv.logins + 1 } login
  generalize Server.perform _ _ = srv' at hfd huser hlogins hpfd hpyyID hother
  -- the registered sessions are older than the new one
  have hold : ∀ fd' q, srv.fdIndex.getState fd' = some q →
      (srv'.heap q).fd = (srv.heap q).fd ∧ (srv'.heap q).yyID = (srv.heap q).yyID := by
    intro fd' q hq
    obtain ⟨hqfd, hqyyID, -⟩ := hother q (Nat.ne_of_lt (hs.allocated fd' q hq))
    exact ⟨hqfd, hqyyID⟩
  refine ⟨?_, ?_, ?_, ?_⟩
  · exact hs.agree.register hfd huser ⟨hpfd, hpyyID⟩ hold (hs.absent hstate) hfresh
  · intro fd' q hq
    rw [hfd, StateMap.getState_addState] at hq
    rw [hlogins]
    split at hq
    · obtain rfl := Option.some.inj hq
      exact Nat.lt_succ_self _
    · exact Nat.lt_succ_of_lt (hs.allocated fd' q hq)
  · intro h
    exact nomatch h
  · intro p hp
    obtain rfl := Option.some.inj hp
    rw [hfd, hlogins]
    exact ⟨hpfd, Nat.lt_succ_self _, Or.inl (StateMap.getState_addState_self _ _ _)⟩

theorem consistent_login_some {login : YYJsonLogin} {p : Ptr} (hs : Consistent fd (srv, l))
    (hstate : l.state = some p)
    (hsame : srv.fdIndex.getState fd = some p → login.yyID = (srv.heap p).yyID) (buf : Bytes) :
    Consistent fd
      (Server.perform { srv with logins := srv.logins + 1 }
        (handleLogin env srv fd (some p) login).2, ⟨some p, buf⟩) := by
  obtain ⟨hfd, huser, hlogins, hpyyID, hkeep, hother⟩ := perform_handleLogin_some env fd p srv
    { srv with logins := srv.logins + 1 } login
  generalize Server.perform _ _ = srv' at hfd huser hlogins hpyyID hkeep hother
  obtain ⟨hpfd, hplt, hindex⟩ := hs.present p hstate
  -- a session whose yyID changes is not registered
  have hyyID : ∀ q, (∃ fd', srv.fdIndex.getState fd' = some q) →
      (srv'.heap q).yyID = (srv.heap q).yyID := by
    rintro q ⟨fd', hq⟩
    by_cases hqp : q = p
    · subst hqp
      rcases hindex with hreg | hnone
      · rw [hpyyID, hsame hreg]
      · exact absurd hq ((hs.agree.unregistered (by rw [hpfd]; exact hnone)).1 fd')
    · exact hother q hqp
  refine ⟨⟨?_, ?_⟩, ?_, ?_, ?_⟩
  · intro fd' q hq
    rw [hfd] at hq
    rw [huser, (hkeep q).1, hyyID q ⟨fd', hq⟩]
    exact hs.agree.byFd fd' q hq
  · intro yyID q hq
    rw [huser] at hq
    have hq' := hs.agree.byUser yyID q hq
    rw [hfd, (hkeep q).1, hyyID q ⟨_, hq'.2⟩]
    exact hq'
  · intro fd' q hq
    rw [hfd] at hq
    rw [hlogins]
    exact Nat.lt_succ_of_lt (hs.allocated fd' q hq)
  · intro h
    exact nomatch h
  · intro q hq
    obtain rfl := Option.some.inj hq
    rw [hfd, hlogins, (hkeep _).1]
    exact ⟨hpfd, Nat.lt_succ_of_lt hplt, hindex⟩

theorem consistent_logout {p : Ptr} {outputs : List Effect} (hs : Consistent fd (srv, l))
    (hstate : l.state = some p) (houtputs : IsOutput outputs)
    (hfree : srv.fdIndex.getState fd = none →
      srv.userData.getState (srv.heap p).yyID = none) (buf : Bytes) :
    Consistent fd
      (srv.perform (outputs ++ [.userDel (srv.heap p).yyID, .delState fd]), ⟨some p, buf⟩) := by
  obtain ⟨hfd, huser, hlogins, hheap⟩ :=
    perform_logout srv houtputs (srv.heap p).yyID fd
  generalize Server.perform _ _ = srv' at hfd huser hlogins hheap
  obtain ⟨hpfd, hplt, hindex⟩ := hs.present p hstate
  have hsame : srv.fdIndex.getState fd = srv.userData.getState (srv.heap p).yyID := by
    rcases hindex with hreg | hnone
    · rw [hreg, (hs.agree.byFd fd p hreg).2]
    · rw [hnone, hfree hnone]
  refine ⟨hs.agree.unregister hfd huser hheap hsame, ?_, ?_, ?_⟩
  · intro fd' q hq
    rw [hfd, StateMap.getState_delState] at hq
    rw [hlogins]
    split at hq
    · exact nomatch hq
    · exact hs.allocated fd' q hq
  · intro h
    exact nomatch h
  · intro q hq
    obtain rfl := Option.some.inj hq
    rw [hheap, hlogins, hfd]
    exact ⟨hpfd, hplt, Or.inr (StateMap.getState_delState_self _ _)⟩

theorem consistent_turn {s t : Server × Locals} (hs : Consistent fd s)
    (hgood : KeepsApart env fd s) (h : (jsonLoop env fd).body s = some (.ok t)) :
    Consistent fd t := by
  obtain ⟨turn, hturn, rfl⟩ := jsonLoop_body_ok.mp h
  obtain ⟨srv, l⟩ := s
  cases jsonTurn_cases hturn with
  | rejected err hparse =>
      exact (perform_of_quiet srv (quiet_of_isOutput (closefd_isOutput fd))).consistent hs rfl
  | login offset login hparse =>
      cases hstate : l.state with
      | none => exact consistent_login_none hs hstate (hgood.newLogin offset login hparse hstate) _
      | some p =>
          exact consistent_login_some hs hstate (hgood.relogin offset login p hparse hstate) _
  | ignored offset jobj hparse hlogin hstate => exact hs
  | unopened offset jobj p hparse hlogin hstate hnext =>
      exact (SameSessions.rfl' srv).consistent hs hstate.symm
  | command offset jobj p cmd effects hparse hlogin hstate hnext hdispatch =>
      rcases dispatch_cases hdispatch with ⟨-, hquiet⟩ | ⟨c, outputs, rfl, houtputs, rfl⟩
      · exact (perform_of_quiet srv hquiet).consistent hs hstate.symm
      · exact consistent_logout hs hstate houtputs
          (hgood.logout offset jobj p c hparse hstate hnext) _

theorem consistent_jsonBegin (hagree : Agree srv) (halloc : Allocated srv) (fd : Fd)
    (readbuffer : Bytes) : Consistent fd (jsonBegin srv fd readbuffer) := by
  unfold jsonBegin
  split
  · rename_i hnone
    exact ⟨hagree, halloc, fun _ => hnone, fun p hp => nomatch hp⟩
  · rename_i p hp
    have hidentity : ∀ q, ((srv.apply (.assign p fun s => { s with readbuffer := some [] })).heap
        q).fd = (srv.heap q).fd ∧ ((srv.apply (.assign p fun s =>
          { s with readbuffer := some [] })).heap q).yyID = (srv.heap q).yyID := by
      intro q
      by_cases hq : q = p
      · simp [hq, Server.apply]
      · simp [Server.apply, Function.update_of_ne hq]
    refine ⟨⟨?_, ?_⟩, halloc, fun h => absurd h (by simp), ?_⟩
    · intro fd' q hq
      rw [(hidentity q).1, (hidentity q).2]
      exact hagree.byFd fd' q hq
    · intro yyID q hq
      rw [(hidentity q).1, (hidentity q).2]
      exact hagree.byUser yyID q hq
    · intro q hq
      obtain rfl := Option.some.inj hq
      rw [(hidentity _).1]
      exact ⟨(hagree.byFd fd _ hp).1, halloc fd _ hp, Or.inl hp⟩

end Turns

section Calls

inductive Call where
  | json (fd : Fd) (readbuffer : Bytes)
  | manage (fd : Fd) (readbuffer : Bytes)

/-- The server under a sequence of calls; a call that does not return is no step. -/
def callSystem (env : ServerEnv) : Transition Server Call where
  init := Server.init
  step := fun srv call =>
    match call with
    | .json fd readbuffer => (jsonProcess env srv fd readbuffer).bind Except.toOption
    | .manage fd readbuffer => (processMmsExecData env srv fd readbuffer).bind Except.toOption

theorem bind_toOption {ε α : Type} {r : Option (Except ε α)} {a : α} :
    r.bind Except.toOption = some a ↔ r = some (.ok a) := by
  constructor
  · intro h
    obtain ⟨x, rfl, hx⟩ := Option.bind_eq_some_iff.mp h
    cases x with
    | error e => simp [Except.toOption] at hx
    | ok b =>
        simp only [Except.toOption, Option.some.injEq] at hx
        rw [hx]
  · rintro rfl
    rfl

theorem step_json {env : ServerEnv} {srv srv' : Server} {fd : Fd} {readbuffer : Bytes} :
    (callSystem env).step srv (.json fd readbuffer) = some srv' ↔
      jsonProcess env srv fd readbuffer = some (.ok srv') := bind_toOption

theorem step_manage {env : ServerEnv} {srv srv' : Server} {fd : Fd} {readbuffer : Bytes} :
    (callSystem env).step srv (.manage fd readbuffer) = some srv' ↔
      processMmsExecData env srv fd readbuffer = some (.ok srv') := bind_toOption

/-- Every turn of the call keeps users apart. -/
def CallKeepsApart (env : ServerEnv) (srv : Server) : Call → Prop
  | .json fd readbuffer => ∀ s, (jsonLoop env fd).Visits (jsonBegin srv fd readbuffer) s →
      KeepsApart env fd s
  | .manage _ _ => True

/-- The same, of a call whose loop takes at most `fuel` turns. -/
def CallChecked (env : ServerEnv) (fuel : Nat) (srv : Server) : Call → Prop
  | .json fd readbuffer => (jsonLoop env fd).Checked (fun s => keepsApart env fd s = true) fuel
      (jsonBegin srv fd readbuffer)
  | .manage _ _ => True

instance (env : ServerEnv) (fuel : Nat) (srv : Server) (call : Call) :
    Decidable (CallChecked env fuel srv call) :=
  match call with
  | .json _ _ => inferInstanceAs (Decidable (DoWhile.Checked ..))
  | .manage _ _ => isTrue trivial

theorem CallChecked.keepsApart {env : ServerEnv} {fuel : Nat} {srv : Server} {call : Call}
    (h : CallChecked env fuel srv call) : CallKeepsApart env srv call := by
  cases call with
  | json fd readbuffer => exact fun s hvisit => .of_check (h.visits hvisit)
  | manage fd readbuffer => trivial

theorem svrInit_quiet {ssl : OpenSSL} (srv : Server) (fd : Fd) (yyID : UInt32) :
    ∀ e ∈ svrInit ssl srv fd yyID, Quiet e := by
  unfold svrInit
  split
  · simp
  · rw [List.forall_mem_cons]
    exact ⟨.assign _ _ fun s => ⟨rfl, rfl, rfl⟩, quiet_of_isOutput (openURL_isOutput ssl _ _)⟩

theorem mmsExecTurn_quiet {env : ServerEnv} {fd : Fd} {srv : Server} {buf rest : Bytes}
    {effects : List Effect} (h : mmsExecTurn env fd srv buf = .ok (effects, rest)) :
    ∀ e ∈ effects, Quiet e := by
  unfold mmsExecTurn at h
  split at h
  · simp at h
  · simp only [Except.ok.injEq, Prod.mk.injEq] at h
    simp [← h.1]
  · simp only [Except.ok.injEq, Prod.mk.injEq] at h
    rw [← h.1]
    exact svrInit_quiet srv fd _
  · simp only [Except.ok.injEq, Prod.mk.injEq] at h
    simp [← h.1]

theorem processMmsExecData_sameSessions {env : ServerEnv} {srv srv' : Server} {fd : Fd}
    {readbuffer : Bytes} (h : processMmsExecData env srv fd readbuffer = some (.ok srv')) :
    SameSessions srv srv' := by
  obtain ⟨r, hr, hmap⟩ := Option.map_eq_some_iff.mp h
  obtain ⟨s, rfl, rfl⟩ := map_eq_ok_iff.mp hmap
  refine DoWhile.run_ok (fun s => SameSessions srv s.1) hr (.rfl' srv) ?_
  rintro ⟨u, buf⟩ ⟨v, rest⟩ - hu hbody
  simp only [mmsExecLoop, Option.some.injEq] at hbody
  obtain ⟨turn, hturn, hnext⟩ := map_eq_ok_iff.mp hbody
  rw [Prod.mk.injEq] at hnext
  rw [← hnext.1]
  exact hu.trans (perform_of_quiet u (mmsExecTurn_quiet hturn))

theorem jsonProcess_consistent {env : ServerEnv} {srv srv' : Server} {fd : Fd}
    {readbuffer : Bytes} (hagree : Agree srv) (halloc : Allocated srv)
    (hgood : CallKeepsApart env srv (.json fd readbuffer))
    (h : jsonProcess env srv fd readbuffer = some (.ok srv')) :
    Agree srv' ∧ Allocated srv' := by
  unfold jsonProcess at h
  split at h
  · simp only [Option.some.injEq, Except.ok.injEq] at h
    rw [← h]
    exact ⟨hagree, halloc⟩
  · obtain ⟨r, hr, hmap⟩ := Option.map_eq_some_iff.mp h
    obtain ⟨s, rfl, rfl⟩ := map_eq_ok_iff.mp hmap
    have hs : Consistent fd s :=
      DoWhile.run_ok (Consistent fd) hr (consistent_jsonBegin hagree halloc fd readbuffer)
        fun u v hvisit hu hbody => consistent_turn hu (hgood u hvisit) hbody
    exact ⟨hs.agree, hs.allocated⟩

/-- In every run whose turns keep users apart, the two indexes agree. -/
theorem indexes_agree (env : ServerEnv) (srv : Server)
    (h : (callSystem env).Reachable (CallKeepsApart env) srv) : Agree srv := by
  have hinv : Agree srv ∧ Allocated srv := by
    refine h.invariant (fun srv => Agree srv ∧ Allocated srv) ?_ ?_
    · refine ⟨⟨?_, ?_⟩, ?_⟩
      all_goals
        intro key p hp
        simp [callSystem, Server.init] at hp
    · rintro srv call srv' ⟨hagree, halloc⟩ hgood hstep
      cases call with
      | json fd readbuffer =>
          exact jsonProcess_consistent hagree halloc hgood (step_json.mp hstep)
      | manage fd readbuffer =>
          have hsame := processMmsExecData_sameSessions (step_manage.mp hstep)
          refine ⟨hsame.agree hagree, ?_⟩
          intro fd' p hp
          rw [hsame.fdIndex] at hp
          rw [hsame.logins]
          exact halloc fd' p hp
  exact hinv.1

/-- Two connections log in, one of them twice; the other logs out and its descriptor goes to a
third user.  The first is closed, for which `fd_close` sends its LOGOUT, and comes back. -/
def keptApart : List Call :=
  [.json 5 (frame (.login ⟨1, [], []⟩)), .json 6 (frame (.login ⟨2, [], []⟩)),
    .json 5 (frame (.login ⟨1, [], []⟩)), .json 6 (frame (.logout ⟨2⟩)),
    .json 6 (frame (.login ⟨3, [], []⟩)), .manage 7 (frame (.svrInit ⟨3, true⟩)),
    .json 5 (frame (.logout ⟨1⟩)), .json 5 (frame (.login ⟨1, [], []⟩))]

theorem indexes_agree_after_login :
    ∃ srv, (callSystem default).run keptApart Server.init = some srv ∧
      srv.fdIndex.getState 5 = some 4 ∧ srv.fdIndex.getState 6 = some 3 ∧
      srv.userData.getState 2 = none ∧ Agree srv := by
  have hrun : ((callSystem default).run keptApart Server.init).map (fun srv =>
      (srv.fdIndex.getState 5, srv.fdIndex.getState 6, srv.userData.getState 2)) =
      some (some 4, some 3, none) := by decide +kernel
  have hchecked : (callSystem default).Guarded (CallChecked default 1) keptApart Server.init := by
    decide +kernel
  obtain ⟨srv, hsrv, hstate⟩ := Option.map_eq_some_iff.mp hrun
  simp only [Prod.mk.injEq] at hstate
  obtain ⟨hfive, hsix, htwo⟩ := hstate
  have hguard := hchecked.imp fun _ _ => CallChecked.keepsApart
  exact ⟨srv, hsrv, hfive, hsix, htwo,
    indexes_agree default srv (.of_guarded .init hguard hsrv)⟩

/-- A client that logs in as user 1 and then as user 2 is known as user 2 and
registered as user 1. -/
theorem indexes_disagree_after_relogin :
    ∃ srv, (callSystem default).Reachable (fun _ _ => True) srv ∧
      (callSystem default).run [.json 5 (frame (.login ⟨1, [], []⟩)),
        .json 5 (frame (.login ⟨2, [], []⟩))] Server.init = some srv ∧ ¬ Agree srv := by
  have hrun : ((callSystem default).run [.json 5 (frame (.login ⟨1, [], []⟩)),
      .json 5 (frame (.login ⟨2, [], []⟩))] Server.init).map
        (fun srv => (srv.fdIndex.getState 5, (srv.heap 0).yyID, srv.userData.getState 2)) =
      some (some 0, 2, none) := by decide +kernel
  obtain ⟨srv, hsrv, hstate⟩ := Option.map_eq_some_iff.mp hrun
  simp only [Prod.mk.injEq] at hstate
  obtain ⟨hindex, hyyID, huser⟩ := hstate
  refine ⟨srv, .of_run .init hsrv, hsrv, ?_⟩
  intro hagree
  have hregistered := (hagree.byFd 5 0 hindex).2
  rw [hyyID, huser] at hregistered
  exact nomatch hregistered

end Calls

end MmsSvr
