import MmsSvr.LoginCheck

/-!
Under which key a LOGIN is answered, and when it is not answered at all.
-/

namespace MmsSvr

open YYmmsJson YYSSL

section Answers

variable (env : ServerEnv) (srv : Server) (fd : Fd) (state : Option Ptr) (login : YYJsonLogin)

def Refused : Prop :=
  checkWhiteList (checkedSession env srv fd state login).uid (env.readings srv.logins).mysql = false

/-- The LOGIN is answered by exactly one frame: the plain refusal, or the AES key in an
envelope under the key of the LOGIN itself.  An empty item is no frame but the request to
close `fd`. -/
def AnsweredUnderOwnKey (sent : List QueueItem) : Prop :=
  ∃ answer, sent.filter (fun item => item.buf ≠ []) = [⟨fd, frame answer⟩] ∧
    (Refused env srv fd state login → answer = .loginRes ⟨false, []⟩) ∧
    (¬ Refused env srv fd state login → ∃ key comp, ownKey env.ssl login = some key ∧
      YYJsonComp.formatRSA env.ssl ⟨some key, none⟩ 0
        (.loginRes ⟨true, (env.readings srv.logins).aesKey⟩) = some comp ∧
      answer = .compRSA comp)

variable {env srv fd state login}

theorem refused_iff :
    Refused env srv fd state login ↔ (env.readings srv.logins).accepts = false := by
  rw [Refused, checkWhiteList_eq]

theorem checkedSession_rsa {key : RSA} (h : ownKey env.ssl login = some key) :
    (checkedSession env srv fd state login).rsa.publicKey = some key := by
  simp only [ownKey] at h
  simp only [checkedSession, loginFields, YYRSA.setRSAKey, h, Option.some_or]

theorem keyAnswer_eq {key : RSA} (h : ownKey env.ssl login = some key) :
    keyAnswer env srv fd state login = YYJsonComp.formatRSA env.ssl ⟨some key, none⟩ 0
      (.loginRes ⟨true, (env.readings srv.logins).aesKey⟩) :=
  formatRSA_congr (checkedSession_rsa h)

theorem answered_refused (h : Refused env srv fd state login) :
    AnsweredUnderOwnKey env srv fd state login
      (outputs (handleLogin env srv fd state login).2) := by
  refine ⟨.loginRes ⟨false, []⟩, ?_, fun _ => rfl, fun haccepts => absurd h haccepts⟩
  rw [outputs_handleLogin, refused_iff.mp h]
  simp [frame_ne_nil]

theorem answered_accepted_iff (h : ¬ Refused env srv fd state login) :
    AnsweredUnderOwnKey env srv fd state login (outputs (handleLogin env srv fd state login).2) ↔
      ∃ key, ownKey env.ssl login = some key ∧
        Encrypts env.ssl key (frame (.loginRes ⟨true, (env.readings srv.logins).aesKey⟩)) := by
  have haccepts : (env.readings srv.logins).accepts = true := by
    rwa [refused_iff, Bool.not_eq_false] at h
  constructor
  · rintro ⟨answer, -, -, hown⟩
    obtain ⟨key, comp, hkey, hcomp, -⟩ := hown h
    refine ⟨key, hkey, ?_⟩
    obtain ⟨key', hkey', hencrypts⟩ := formatRSA_isSome_iff.mp (by rw [hcomp]; rfl)
    rw [Option.some.injEq] at hkey'
    rw [hkey']
    exact hencrypts
  · rintro ⟨key, hkey, hencrypts⟩
    have hsome : (YYJsonComp.formatRSA env.ssl ⟨some key, none⟩ 0
        (.loginRes ⟨true, (env.readings srv.logins).aesKey⟩)).isSome :=
      formatRSA_isSome_iff.mpr ⟨key, rfl, hencrypts⟩
    obtain ⟨comp, hcomp⟩ := Option.isSome_iff_exists.mp hsome
    refine ⟨.compRSA comp, ?_, fun hrefused => absurd hrefused h,
      fun _ => ⟨key, comp, hkey, hcomp, rfl⟩⟩
    rw [outputs_handleLogin, haccepts, keyAnswer_eq hkey, hcomp]
    simp [frame_ne_nil]

theorem answeredUnderOwnKey_iff :
    AnsweredUnderOwnKey env srv fd state login (outputs (handleLogin env srv fd state login).2) ↔
      Refused env srv fd state login ∨ ∃ key, ownKey env.ssl login = some key ∧
        Encrypts env.ssl key (frame (.loginRes ⟨true, (env.readings srv.logins).aesKey⟩)) := by
  by_cases hrefused : Refused env srv fd state login
  · exact iff_of_true (answered_refused hrefused) (Or.inl hrefused)
  · rw [answered_accepted_iff hrefused]
    simp only [hrefused, false_or]

/-- The LOGIN is handled and answered once, under its own key. -/
def Answered (log : Logger) (env : ServerEnv) (srv : Server) (fd : Fd) (l : Locals)
    (login : YYJsonLogin) : Prop :=
  ∃ turn sent, loggedTurn log env fd srv l = some (.ok turn) ∧
    (turn.srv.perform turn.effects).sent = srv.sent ++ sent ∧
    AnsweredUnderOwnKey env srv fd l.state login sent

theorem answered_iff {log : Logger} {l : Locals} {offset : Nat}
    (hparse : parseCmd env.toEnv l.buf = .success offset (.login login)) :
    Answered log env srv fd l login ↔
      log.info env.platform (handledLine env srv fd l.state login) = true ∧
        AnsweredUnderOwnKey env srv fd l.state login
          (outputs (handleLogin env srv fd l.state login).2) := by
  constructor
  · rintro ⟨turn, sent, hturn, hsent, hown⟩
    obtain ⟨hinfo, rfl⟩ := (loggedTurn_login_iff hparse).mp hturn
    have hall : sent = outputs (handleLogin env srv fd l.state login).2 :=
      List.append_cancel_left (hsent.symm.trans (perform_sent _ _))
    rw [hall] at hown
    exact ⟨hinfo, hown⟩
  · rintro ⟨hinfo, hown⟩
    exact ⟨_, _, (loggedTurn_login_iff hparse).mpr ⟨hinfo, rfl⟩, perform_sent _ _, hown⟩

/-- A LOGIN is answered once and under its own key exactly when its line can be logged, and
it is refused or brings a key that can be read and that encrypts the answer. -/
theorem login_answered_iff (log : Logger) (env : ServerEnv) (srv : Server) (fd : Fd) (l : Locals)
    (offset : Nat) (login : YYJsonLogin)
    (hparse : parseCmd env.toEnv l.buf = .success offset (.login login)) :
    Answered log env srv fd l login ↔
      log.info env.platform (handledLine env srv fd l.state login) = true ∧
        (Refused env srv fd l.state login ∨ ∃ key, ownKey env.ssl login = some key ∧
          Encrypts env.ssl key (frame (.loginRes ⟨true, (env.readings srv.logins).aesKey⟩))) := by
  rw [answered_iff hparse, answeredUnderOwnKey_iff]

end Answers

section Sample

/-- The server after user 1 has logged in on descriptor 5 with a key, and has named itself
`user` in a LOGIN1. -/
def namedServer (user : Bytes) : Server :=
  (Server.perform { Server.init with logins := 1 }
    (handleLogin derEnv Server.init 5 none ⟨1, [], sampleDER⟩).2).perform
      (.assign 0 (fun s => { s with uid := 1, account := user, pwd := [] }) ::
        sendCmd derEnv.ssl 5 (.login1Res ⟨true⟩))

theorem login_answered_sample :
    Answered plainLog derEnv (namedServer (lit "bob")) 5
      ⟨some 0, frame (.login ⟨1, [], sampleDER⟩)⟩ ⟨1, [], sampleDER⟩ :=
  (login_answered_iff plainLog derEnv (namedServer (lit "bob")) 5
    ⟨some 0, frame (.login ⟨1, [], sampleDER⟩)⟩ _ _ (parseCmd_login_sample _ (by simp))).mpr
    ⟨by decide +kernel, Or.inr ⟨sampleRSA, ownKey_sample, by decide +kernel⟩⟩

/-- A LOGIN without a key is accepted and gets no answer; one with a key that cannot be
read gets its answer under the key of the LOGIN before it; after a user has named itself
`%n`, the server does not come to an answer. -/
theorem login_not_answered :
    (∃ turn, loggedTurn plainLog derEnv 5 Server.init ⟨none, frame (.login ⟨1, [], []⟩)⟩ =
        some (.ok turn) ∧ outputs turn.effects = [] ∧
      ¬ Answered plainLog derEnv Server.init 5 ⟨none, frame (.login ⟨1, [], []⟩)⟩ ⟨1, [], []⟩) ∧
    (∃ turn comp, loggedTurn plainLog derEnv 5 (namedServer (lit "bob"))
        ⟨some 0, frame (.login ⟨1, [], [2]⟩)⟩ = some (.ok turn) ∧
      YYJsonComp.formatRSA derEnv.ssl ⟨some sampleRSA, none⟩ 0
        (.loginRes ⟨true, (derEnv.readings 1).aesKey⟩) = some comp ∧
      outputs turn.effects = [⟨5, frame (.compRSA comp)⟩] ∧
      ¬ Answered plainLog derEnv (namedServer (lit "bob")) 5
        ⟨some 0, frame (.login ⟨1, [], [2]⟩)⟩ ⟨1, [], [2]⟩) ∧
    loggedTurn plainLog derEnv 5 (namedServer (lit "%n"))
        ⟨some 0, frame (.login ⟨1, [], sampleDER⟩)⟩ = some (.error .logging) ∧
      ¬ Answered plainLog derEnv (namedServer (lit "%n")) 5
        ⟨some 0, frame (.login ⟨1, [], sampleDER⟩)⟩ ⟨1, [], sampleDER⟩ := by
  have hparse : ∀ state rsakey, rsakey = [] ∨ rsakey = [2] ∨ rsakey = sampleDER →
      parseCmd derEnv.toEnv (Locals.mk state (frame (.login ⟨1, [], rsakey⟩))).buf =
        .success (frame (.login ⟨1, [], rsakey⟩)).length (.login ⟨1, [], rsakey⟩) :=
    fun state rsakey h => parseCmd_login_sample rsakey h
  have hnoKey : ∀ srv fd l login, ownKey derEnv.ssl login = none →
      (derEnv.readings srv.logins).accepts = true →
      ¬ (Refused derEnv srv fd l login ∨ ∃ key, ownKey derEnv.ssl login = some key ∧
        Encrypts derEnv.ssl key
          (frame (.loginRes ⟨true, (derEnv.readings srv.logins).aesKey⟩))) := by
    rintro srv fd l login hnone haccepts (hrefused | ⟨key, hkey, -⟩)
    · rw [refused_iff, haccepts] at hrefused
      simp at hrefused
    · simp [hnone] at hkey
  have hlogged : plainLog.info derEnv.platform (handledLine derEnv (namedServer (lit "%n")) 5
      (some 0) ⟨1, [], sampleDER⟩) = false := by decide +kernel
  refine ⟨⟨_, (loggedTurn_login_iff (hparse _ _ (by simp))).mpr ⟨by decide +kernel, rfl⟩,
    by decide +kernel, ?_⟩, ?_, ?_, ?_⟩
  · rw [answered_iff (hparse _ _ (by simp)), answeredUnderOwnKey_iff]
    exact fun h => hnoKey _ _ _ _ (by decide) (by decide) h.2
  · have hcomp : (YYJsonComp.formatRSA derEnv.ssl ⟨some sampleRSA, none⟩ 0
        (.loginRes ⟨true, (derEnv.readings 1).aesKey⟩)).isSome := by decide +kernel
    obtain ⟨comp, hcomp⟩ := Option.isSome_iff_exists.mp hcomp
    have hkept : keyAnswer derEnv (namedServer (lit "bob")) 5 (some 0) ⟨1, [], [2]⟩ =
        some comp := by
      rw [← hcomp]
      exact formatRSA_congr (by decide +kernel)
    refine ⟨_, comp, (loggedTurn_login_iff (hparse _ _ (by simp))).mpr
      ⟨by decide +kernel, rfl⟩, hcomp, ?_, ?_⟩
    · rw [outputs_handleLogin, hkept]
      rfl
    · rw [answered_iff (hparse _ _ (by simp)), answeredUnderOwnKey_iff]
      exact fun h => hnoKey _ _ _ _ (by decide) (by decide +kernel) h.2
  · rw [loggedTurn, turnLine_login (hparse _ _ (by simp)), Option.all_some, hlogged]
    rfl
  · rw [answered_iff (hparse _ _ (by simp)), hlogged]
    simp

end Sample

end MmsSvr
