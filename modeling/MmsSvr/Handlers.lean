import MmsSvr.JsonTurn

/-!
What the handlers of `JsonProcess` do to the sessions and their indexes.
-/

namespace MmsSvr

open YYmmsJson YYSSL

/-- An assignment that leaves alone what identifies a session, and its buffer. -/
def KeepsIdentity (f : ItemData → ItemData) : Prop :=
  ∀ s, (f s).fd = s.fd ∧ (f s).yyID = s.yyID ∧ (f s).readbuffer = s.readbuffer

/-- Effects that change neither index. -/
inductive Quiet : Effect → Prop where
  | dataSend (item : QueueItem) : Quiet (.dataSend item)
  | execute (launch : Launch) : Quiet (.execute launch)
  | assign (p : Ptr) (f : ItemData → ItemData) (h : KeepsIdentity f) : Quiet (.assign p f)

theorem quiet_of_isOutput {es : List Effect} (h : IsOutput es) : ∀ e ∈ es, Quiet e := by
  intro e he
  obtain ⟨item, rfl⟩ := h e he
  exact .dataSend item

theorem sendCmd_quiet {ssl : OpenSSL} (fd : Fd) (cmd : YYJ) : ∀ e ∈ sendCmd ssl fd cmd, Quiet e :=
  quiet_of_isOutput (sendCmd_isOutput fd cmd)

/-- The indexes are the same, and so is the identity of every session. -/
structure SameSessions (srv srv' : Server) : Prop where
  fdIndex : srv'.fdIndex = srv.fdIndex
  userData : srv'.userData = srv.userData
  logins : srv'.logins = srv.logins
  fd : ∀ p, (srv'.heap p).fd = (srv.heap p).fd
  yyID : ∀ p, (srv'.heap p).yyID = (srv.heap p).yyID
  readbuffer : ∀ p, (srv'.heap p).readbuffer = (srv.heap p).readbuffer

namespace SameSessions

theorem rfl' (srv : Server) : SameSessions srv srv :=
  ⟨rfl, rfl, rfl, fun _ => rfl, fun _ => rfl, fun _ => rfl⟩

theorem trans {s t u : Server} (h : SameSessions s t) (k : SameSessions t u) :
    SameSessions s u where
  fdIndex := k.fdIndex.trans h.fdIndex
  userData := k.userData.trans h.userData
  logins := k.logins.trans h.logins
  fd := fun p => (k.fd p).trans (h.fd p)
  yyID := fun p => (k.yyID p).trans (h.yyID p)
  readbuffer := fun p => (k.readbuffer p).trans (h.readbuffer p)

end SameSessions

theorem apply_of_quiet (srv : Server) {e : Effect} (h : Quiet e) :
    SameSessions srv (srv.apply e) := by
  cases h with
  | dataSend item => exact ⟨rfl, rfl, rfl, fun _ => rfl, fun _ => rfl, fun _ => rfl⟩
  | execute launch => exact ⟨rfl, rfl, rfl, fun _ => rfl, fun _ => rfl, fun _ => rfl⟩
  | assign p f hf =>
      have hheap : ∀ q, (srv.apply (.assign p f)).heap q = if q = p then f (srv.heap p)
          else srv.heap q := by
        intro q
        simp [Server.apply, Function.update_apply]
      refine ⟨rfl, rfl, rfl, ?_, ?_, ?_⟩
      all_goals
        intro q
        rw [hheap q]
        split
        · rename_i hq
          simp [hq, hf (srv.heap p)]
        · rfl

theorem perform_of_quiet (srv : Server) {es : List Effect} (h : ∀ e ∈ es, Quiet e) :
    SameSessions srv (srv.perform es) := by
  induction es generalizing srv with
  | nil => exact .rfl' srv
  | cons e es ih =>
      rw [List.forall_mem_cons] at h
      rw [Server.perform_cons]
      exact (apply_of_quiet srv h.1).trans (ih _ h.2)

def KeepsKey : Effect → Prop
  | .assign _ f => ∀ s, (f s).aes = s.aes
  | _ => True

theorem keepsKey_of_isOutput {es : List Effect} (h : IsOutput es) : ∀ e ∈ es, KeepsKey e := by
  intro e he
  obtain ⟨item, rfl⟩ := h e he
  trivial

theorem perform_aes (srv : Server) {es : List Effect} (h : ∀ e ∈ es, KeepsKey e) (p : Ptr) :
    ((srv.perform es).heap p).aes = (srv.heap p).aes := by
  induction es generalizing srv with
  | nil => rfl
  | cons e es ih =>
      rw [List.forall_mem_cons] at h
      rw [Server.perform_cons, ih _ h.2]
      cases e with
      | assign q f =>
          by_cases hq : p = q
          · subst hq
            simpa [Server.apply] using h.1 (srv.heap p)
          · simp [Server.apply, Function.update_of_ne hq]
      | _ => rfl

section Outputs

def outputs (es : List Effect) : List QueueItem :=
  es.filterMap fun e =>
    match e with
    | .dataSend item => some item
    | _ => none

@[simp]
theorem outputs_append (es fs : List Effect) : outputs (es ++ fs) = outputs es ++ outputs fs :=
  List.filterMap_append

theorem perform_sent (srv : Server) (es : List Effect) :
    (srv.perform es).sent = srv.sent ++ outputs es := by
  induction es generalizing srv with
  | nil => simp [outputs]
  | cons e es ih =>
      rw [Server.perform_cons, ih]
      cases e <;> simp [Server.apply, outputs]

theorem perform_logins (srv : Server) (es : List Effect) :
    (srv.perform es).logins = srv.logins := by
  induction es generalizing srv with
  | nil => rfl
  | cons e es ih =>
      rw [Server.perform_cons, ih]
      cases e <;> rfl

theorem frame_ne_nil (cmd : YYJ) : frame cmd ≠ [] := by
  simp [frame, formatCmd_eq]

theorem sendCmd_eq {ssl : OpenSSL} (fd : Fd) (cmd : YYJ) :
    sendCmd ssl fd cmd = [.dataSend ⟨fd, frame cmd⟩] := by
  rw [sendCmd, frame, formatCmd_eq, formatCmd_eq]
  simp

@[simp]
theorem outputs_sendCmd {ssl : OpenSSL} (fd : Fd) (cmd : YYJ) :
    outputs (sendCmd ssl fd cmd) = [⟨fd, frame cmd⟩] := by
  simp [sendCmd_eq, outputs]

end Outputs

section Login

variable (env : ServerEnv) (r : Reading) (fd : Fd) (p : Ptr) (state : ItemData)

theorem loginCmd_quiet : ∀ e ∈ loginCmd env r fd p state, Quiet e := by
  unfold loginCmd
  split
  · rw [List.forall_mem_cons]
    refine ⟨.assign p _ fun s => ⟨rfl, rfl, rfl⟩, ?_⟩
    split
    · simp
    · exact sendCmd_quiet fd _
  · intro e he
    rcases List.mem_append.mp he with hsend | hclose
    · exact sendCmd_quiet fd _ e hsend
    · exact quiet_of_isOutput (closefd_isOutput fd) e hclose

theorem perform_handleLogin_none (srv t : Server) (login : YYJsonLogin) :
    let t' := t.perform (handleLogin env srv fd none login).2
    t'.fdIndex = t.fdIndex.addState fd srv.logins ∧
      t'.userData = t.userData.addState login.yyID srv.logins ∧
      t'.logins = t.logins ∧
      ((t'.heap srv.logins).fd = fd ∧ (t'.heap srv.logins).yyID = login.yyID ∧
        (t'.heap srv.logins).readbuffer = some []) ∧
      ∀ q, q ≠ srv.logins → (t'.heap q).fd = (t.heap q).fd ∧
        (t'.heap q).yyID = (t.heap q).yyID ∧
        (t'.heap q).readbuffer = (t.heap q).readbuffer := by
  intro t'
  have hquiet := perform_of_quiet
    (t.perform [.assign srv.logins (fun _ => newSession fd), .addState fd srv.logins,
      .userAdd login.yyID srv.logins,
      .assign srv.logins (loginFields env (env.readings srv.logins) login)])
    (loginCmd_quiet env (env.readings srv.logins) fd srv.logins
      (loginFields env (env.readings srv.logins) login (newSession fd)))
  have ht' : t' = Server.perform (Server.perform t _) _ := Server.perform_append t _ _
  rw [← ht'] at hquiet
  refine ⟨hquiet.fdIndex, hquiet.userData, hquiet.logins, ⟨?_, ?_, ?_⟩, ?_⟩
  · rw [hquiet.fd]
    simp [Server.apply, loginFields, newSession]
  · rw [hquiet.yyID]
    simp [Server.apply, loginFields]
  · rw [hquiet.readbuffer]
    simp [Server.apply, loginFields, newSession]
  · intro q hq
    rw [hquiet.fd, hquiet.yyID, hquiet.readbuffer]
    simp [Server.apply, Function.update_of_ne hq]

theorem perform_handleLogin_some (srv t : Server) (login : YYJsonLogin) :
    let t' := t.perform (handleLogin env srv fd (some p) login).2
    t'.fdIndex = t.fdIndex ∧ t'.userData = t.userData ∧ t'.logins = t.logins ∧
      (t'.heap p).yyID = login.yyID ∧
      (∀ q, (t'.heap q).fd = (t.heap q).fd ∧
        (t'.heap q).readbuffer = (t.heap q).readbuffer) ∧
      ∀ q, q ≠ p → (t'.heap q).yyID = (t.heap q).yyID := by
  intro t'
  have hquiet := perform_of_quiet
    (t.apply (.assign p (loginFields env (env.readings srv.logins) login)))
    (loginCmd_quiet env (env.readings srv.logins) fd p
      (loginFields env (env.readings srv.logins) login (srv.heap p)))
  refine ⟨hquiet.fdIndex, hquiet.userData, hquiet.logins, ?_, ?_, ?_⟩
  · refine (hquiet.yyID p).trans ?_
    simp [Server.apply, loginFields]
  · intro q
    refine ⟨(hquiet.fd q).trans ?_, (hquiet.readbuffer q).trans ?_⟩
    all_goals
      by_cases hq : q = p
      · simp [hq, Server.apply, loginFields]
      · simp [Server.apply, Function.update_of_ne hq]
  · intro q hq
    refine (hquiet.yyID q).trans ?_
    simp [Server.apply, Function.update_of_ne hq]

/-- Whether a login is accepted; the whitelist itself is not consulted. -/
def Reading.accepts (r : Reading) : Bool := r.mysql.any Mysql.sql

theorem checkWhiteList_eq (uid : UInt32) : checkWhiteList uid r.mysql = r.accepts := by
  unfold checkWhiteList Reading.accepts
  split
  · rename_i h
    rw [h]
    rfl
  · rename_i m h
    rw [h]
    cases hsql : m.sql <;> simp [hsql]

theorem perform_loginCmd_aes (t : Server) :
    ((t.perform (loginCmd env r fd p state)).heap p).aes =
      if r.accepts then YYAES.aesSetKey r.aesKey else (t.heap p).aes := by
  unfold loginCmd
  rw [checkWhiteList_eq]
  split
  · rw [Server.perform_cons]
    refine (perform_aes _ ?_ p).trans (by simp [Server.apply])
    split
    · simp
    · exact keepsKey_of_isOutput (sendCmd_isOutput fd _)
  · refine perform_aes t ?_ p
    intro e he
    rcases List.mem_append.mp he with hsend | hclose
    · exact keepsKey_of_isOutput (sendCmd_isOutput fd _) e hsend
    · exact keepsKey_of_isOutput (closefd_isOutput fd) e hclose

end Login

section Dispatch

variable {env : ServerEnv} {fd : Fd} {p : Ptr} {state : ItemData}

theorem handleOpenUrl_quiet (cmd : YYJsonOpenUrl) :
    ∀ e ∈ handleOpenUrl env fd p state cmd, Quiet e := by
  unfold handleOpenUrl
  dsimp only
  rw [List.cons_append, List.forall_mem_cons]
  refine ⟨.assign p _ fun s => ⟨rfl, rfl, rfl⟩, ?_⟩
  intro e he
  rcases List.mem_append.mp he with heffect | hsend
  · split at heffect
    · exact quiet_of_isOutput (openURL_isOutput env.ssl _ _) e heffect
    · unfold shellExec at heffect
      split at heffect
      · simp at heffect
      · rw [List.mem_singleton] at heffect
        rw [heffect]
        exact .execute _
  · exact sendCmd_quiet fd _ e hsend

theorem dispatch_keepsKey {cmd : YYJ} {effects : List Effect}
    (h : dispatch env fd p state cmd = .ok effects) : ∀ e ∈ effects, KeepsKey e := by
  cases cmd with
  | compRSA c => simp [dispatch] at h
  | login1 c =>
      simp only [dispatch, Except.ok.injEq] at h
      subst h
      rw [List.forall_mem_cons]
      exact ⟨fun s => rfl, keepsKey_of_isOutput (sendCmd_isOutput fd _)⟩
  | logout c =>
      simp only [dispatch, Except.ok.injEq] at h
      subst h
      intro e he
      simp only [List.mem_append, List.mem_cons, List.not_mem_nil, or_false] at he
      rcases he with (hsend | hexit) | rfl | rfl
      · exact keepsKey_of_isOutput (sendCmd_isOutput fd _) e hsend
      · exact keepsKey_of_isOutput (shellExit_isOutput state) e hexit
      · trivial
      · trivial
  | openUrl c =>
      simp only [dispatch, Except.ok.injEq] at h
      subst h
      unfold handleOpenUrl
      dsimp only
      rw [List.cons_append, List.forall_mem_cons]
      refine ⟨fun s => rfl, ?_⟩
      intro e he
      rcases List.mem_append.mp he with heffect | hsend
      · split at heffect
        · exact keepsKey_of_isOutput (openURL_isOutput env.ssl _ _) e heffect
        · unfold shellExec at heffect
          split at heffect
          · simp at heffect
          · rw [List.mem_singleton] at heffect
            rw [heffect]
            trivial
      · exact keepsKey_of_isOutput (sendCmd_isOutput fd _) e hsend
  | _ =>
      simp only [dispatch, Except.ok.injEq] at h
      subst h
      simp

theorem dispatch_cases {cmd : YYJ} {effects : List Effect}
    (h : dispatch env fd p state cmd = .ok effects) :
    ((∀ c, cmd ≠ .logout c) ∧ ∀ e ∈ effects, Quiet e) ∨
      ∃ c outputs, cmd = .logout c ∧ IsOutput outputs ∧
        effects = outputs ++ [.userDel state.yyID, .delState fd] := by
  cases cmd with
  | compRSA c => simp [dispatch] at h
  | login1 c =>
      left
      simp only [dispatch, Except.ok.injEq] at h
      subst h
      refine ⟨by simp, ?_⟩
      rw [List.forall_mem_cons]
      exact ⟨.assign p _ fun s => ⟨rfl, rfl, rfl⟩, sendCmd_quiet fd _⟩
  | logout c =>
      right
      simp only [dispatch, Except.ok.injEq] at h
      refine ⟨c, _, rfl, ?_, h.symm⟩
      intro e he
      rcases List.mem_append.mp he with hsend | hexit
      · exact sendCmd_isOutput fd _ e hsend
      · exact shellExit_isOutput state e hexit
  | openUrl c =>
      left
      simp only [dispatch, Except.ok.injEq] at h
      subst h
      exact ⟨by simp, handleOpenUrl_quiet c⟩
  | _ =>
      left
      simp only [dispatch, Except.ok.injEq] at h
      subst h
      simp

theorem perform_logout (srv : Server) {outputs : List Effect} (h : IsOutput outputs)
    (yyID : UInt32) (fd : Fd) :
    let srv' := srv.perform (outputs ++ [.userDel yyID, .delState fd])
    srv'.fdIndex = srv.fdIndex.delState fd ∧ srv'.userData = srv.userData.delState yyID ∧
      srv'.logins = srv.logins ∧ srv'.heap = srv.heap := by
  intro srv'
  obtain ⟨items, hitems⟩ := srv.perform_of_isOutput h
  have hsrv' : srv' = (srv.perform outputs).perform [.userDel yyID, .delState fd] :=
    Server.perform_append srv _ _
  rw [hsrv', hitems]
  exact ⟨rfl, rfl, rfl, rfl⟩

end Dispatch

section Buffers

def NoLeftovers (srv : Server) : Prop := ∀ p, (srv.heap p).readbuffer.getD [] = []

def FillsNothing : Effect → Prop
  | .assign _ f => ∀ s, (f s).readbuffer = s.readbuffer ∨ (f s).readbuffer = some []
  | _ => True

theorem Quiet.fillsNothing {e : Effect} (h : Quiet e) : FillsNothing e := by
  cases h with
  | dataSend item => trivial
  | execute launch => trivial
  | assign p f hf => exact fun s => Or.inl (hf s).2.2

theorem FillsNothing.apply {e : Effect} (h : FillsNothing e) {srv : Server}
    (hsrv : NoLeftovers srv) : NoLeftovers (srv.apply e) := by
  cases e with
  | assign p f =>
      intro q
      by_cases hq : q = p
      · subst hq
        rcases h (srv.heap q) with hsame | hempty
        · simpa [Server.apply, hsame] using hsrv q
        · simp [Server.apply, hempty]
      · simpa [Server.apply, Function.update_of_ne hq] using hsrv q
  | _ => exact hsrv

theorem perform_noLeftovers {es : List Effect} (h : ∀ e ∈ es, FillsNothing e) {srv : Server}
    (hsrv : NoLeftovers srv) : NoLeftovers (srv.perform es) := by
  induction es generalizing srv with
  | nil => exact hsrv
  | cons e es ih =>
      rw [List.forall_mem_cons] at h
      exact ih h.2 (h.1.apply hsrv)

theorem handleLogin_fillsNothing (env : ServerEnv) (srv : Server) (fd : Fd) (state : Option Ptr)
    (login : YYJsonLogin) : ∀ e ∈ (handleLogin env srv fd state login).2, FillsNothing e := by
  intro e he
  cases state with
  | none =>
      simp only [handleLogin, List.mem_append, List.mem_cons, List.not_mem_nil, or_false] at he
      rcases he with (rfl | rfl | rfl | rfl) | he
      · exact fun s => Or.inr rfl
      · trivial
      · trivial
      · exact fun s => Or.inl rfl
      · exact (loginCmd_quiet env _ fd _ _ e he).fillsNothing
  | some p =>
      simp only [handleLogin, List.mem_cons] at he
      rcases he with rfl | he
      · exact fun s => Or.inl rfl
      · exact (loginCmd_quiet env _ fd _ _ e he).fillsNothing

theorem jsonTurn_fillsNothing {env : ServerEnv} {fd : Fd} {srv : Server} {l : Locals}
    {turn : Turn} (h : jsonTurn env fd srv l = some (.ok turn)) :
    ∀ e ∈ turn.effects, FillsNothing e := by
  cases jsonTurn_cases h with
  | rejected err hparse =>
      exact fun e he => (quiet_of_isOutput (closefd_isOutput fd) e he).fillsNothing
  | login offset login hparse => exact handleLogin_fillsNothing env srv fd l.state login
  | ignored offset jobj hparse hlogin hstate => simp
  | unopened offset jobj p hparse hlogin hstate hnext => simp
  | command offset jobj p cmd effects hparse hlogin hstate hnext hdispatch =>
      rcases dispatch_cases hdispatch with ⟨-, hquiet⟩ | ⟨c, outputs, rfl, houtputs, rfl⟩
      · exact fun e he => (hquiet e he).fillsNothing
      · intro e he
        simp only [List.mem_append, List.mem_cons, List.not_mem_nil, or_false] at he
        rcases he with he | rfl | rfl
        · exact (quiet_of_isOutput houtputs e he).fillsNothing
        · trivial
        · trivial

theorem jsonBegin_noLeftovers {srv : Server} (hsrv : NoLeftovers srv) (fd : Fd)
    (readbuffer : Bytes) : NoLeftovers (jsonBegin srv fd readbuffer).1 := by
  unfold jsonBegin
  split
  · exact hsrv
  · rename_i p hp
    have hempty : FillsNothing (.assign p fun s => { s with readbuffer := some [] }) :=
      fun s => Or.inr rfl
    exact hempty.apply hsrv

end Buffers

end MmsSvr
