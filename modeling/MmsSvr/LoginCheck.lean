import MmsSvr.Handlers
import MmsSvr.Envelope
import MmsSvr.Logger

/-!
What the answer of `CheckWhiteList` decides: who gets a key, and what a refused LOGIN
leaves behind.
-/

namespace MmsSvr

open YYmmsJson YYSSL

section Encrypts

variable {ssl : OpenSSL} {rsa : YYRSA} {version : Int32} {jobj : YYJ}

def Encrypts (ssl : OpenSSL) (key : RSA) (m : Bytes) : Prop :=
  ∀ b ∈ blocks YYRSA.kBytes m, (ssl.rsaPublicEncrypt key (YYRSA.zeroPad b)).isSome

instance (ssl : OpenSSL) (key : RSA) (m : Bytes) : Decidable (Encrypts ssl key m) :=
  inferInstanceAs (Decidable (∀ b ∈ blocks YYRSA.kBytes m, _))

theorem mapM_isSome_iff {α β : Type} {f : α → Option β} {as : List α} :
    (as.mapM f).isSome ↔ ∀ a ∈ as, (f a).isSome := by
  induction as with
  | nil => simp
  | cons a as ih =>
      rw [List.forall_mem_cons, ← ih, List.mapM_cons]
      cases f a with
      | none => simp
      | some b => cases as.mapM f <;> simp

theorem formatRSA_isSome_iff :
    (YYJsonComp.formatRSA ssl rsa version jobj).isSome ↔
      ∃ key, rsa.publicKey = some key ∧ Encrypts ssl key (frame jobj) := by
  have hencrypt : (YYJsonComp.formatRSA ssl rsa version jobj).isSome =
      (rsa.rsaPublicEncrypt ssl (frame jobj)).isSome := by
    simp only [YYJsonComp.formatRSA, formatCmd_eq_frame, base64encode_eq, Option.bind_eq_bind,
      Option.bind_some]
    cases rsa.rsaPublicEncrypt ssl (frame jobj) <;> rfl
  rw [hencrypt, YYRSA.rsaPublicEncrypt]
  cases rsa.publicKey with
  | none => simp
  | some key =>
      simp only [Option.isSome_map, mapM_isSome_iff, Option.some.injEq, exists_eq_left']
      rfl

theorem formatRSA_congr {rsa' : YYRSA} (h : rsa.publicKey = rsa'.publicKey) :
    YYJsonComp.formatRSA ssl rsa version jobj = YYJsonComp.formatRSA ssl rsa' version jobj := by
  simp only [YYJsonComp.formatRSA, YYRSA.rsaPublicEncrypt, h]

end Encrypts

section Whitelist

variable (env : ServerEnv) (srv : Server) (fd : Fd) (state : Option Ptr) (login : YYJsonLogin)

def ownKey (ssl : OpenSSL) (login : YYJsonLogin) : Option RSA :=
  if login.rsakey = [] then none else ssl.d2iRSAPublicKey login.rsakey

/-- The key under which an accepted LOGIN is answered: its own, or the one that the session
has from an earlier LOGIN. -/
def answerKey : Option RSA :=
  (ownKey env.ssl login).or (state.bind fun p => (srv.heap p).rsa.publicKey)

/-- The envelope with the AES key of an accepted LOGIN, if the public key of the session
can encrypt it. -/
def keyAnswer : Option YYJsonComp :=
  YYJsonComp.formatRSA env.ssl (checkedSession env srv fd state login).rsa 0
    (.loginRes ⟨true, (env.readings srv.logins).aesKey⟩)

theorem checkedSession_publicKey :
    (checkedSession env srv fd state login).rsa.publicKey = answerKey env srv state login := by
  cases state <;> rfl

theorem keyAnswer_isSome_iff :
    (keyAnswer env srv fd state login).isSome = true ↔
      ∃ key, answerKey env srv state login = some key ∧
        Encrypts env.ssl key (frame (.loginRes ⟨true, (env.readings srv.logins).aesKey⟩)) := by
  rw [keyAnswer, formatRSA_isSome_iff, checkedSession_publicKey]

theorem frame_compRSA_ne_loginRes (comp : YYJsonComp) (c : YYJsonLoginRes) :
    frame (.compRSA comp) ≠ frame (.loginRes c) := by
  intro h
  simp only [frame, formatCmd_eq, Option.getD_some] at h
  have hhead : ∀ m n, (preChar :: wordBytes m).length = (preChar :: wordBytes n).length := by
    intro m n
    rfl
  have htext : jsonText (.compRSA comp) = jsonText (.loginRes c) :=
    (List.append_inj h (hhead _ _)).2
  simp only [jsonText, cmdText, List.append_assoc] at htext
  -- the texts differ in the number after `"cmd":`
  have hlen : (YYJson.toCmdInt "cmd" 1000).length = (YYJson.toCmdInt "cmd" 1012).length := by
    decide +kernel
  have hnumber : YYJson.toCmdInt "cmd" 1000 = YYJson.toCmdInt "cmd" 1012 :=
    (List.append_inj (List.append_inj htext rfl).2 hlen).1
  revert hnumber
  decide +kernel

theorem outputs_loginCmd (r : Reading) (p : Ptr) (state : ItemData) :
    outputs (loginCmd env r fd p state) =
      if r.accepts then
        (YYJsonComp.formatRSA env.ssl state.rsa 0 (.loginRes ⟨true, r.aesKey⟩)).elim []
          fun comp => [⟨fd, frame (.compRSA comp)⟩]
      else [⟨fd, frame (.loginRes ⟨false, []⟩)⟩, ⟨fd, []⟩] := by
  unfold loginCmd
  rw [checkWhiteList_eq]
  split
  · cases YYJsonComp.formatRSA env.ssl state.rsa 0 (.loginRes ⟨true, r.aesKey⟩) with
    | none => rfl
    | some comp => exact outputs_sendCmd fd _
  · rw [outputs_append, outputs_sendCmd]
    rfl

theorem outputs_handleLogin :
    outputs (handleLogin env srv fd state login).2 =
      if (env.readings srv.logins).accepts then
        (keyAnswer env srv fd state login).elim [] fun comp => [⟨fd, frame (.compRSA comp)⟩]
      else [⟨fd, frame (.loginRes ⟨false, []⟩)⟩, ⟨fd, []⟩] := by
  cases state with
  | none => exact outputs_loginCmd env fd _ srv.logins (checkedSession env srv fd none login)
  | some p => exact outputs_loginCmd env fd _ p (checkedSession env srv fd (some p) login)

def HandsOutKey (log : Logger) (env : ServerEnv) (srv : Server) (fd : Fd) (l : Locals)
    (login : YYJsonLogin) : Prop :=
  ∃ turn comp, loggedTurn log env fd srv l = some (.ok turn) ∧
    keyAnswer env srv fd l.state login = some comp ∧
    ⟨fd, frame (.compRSA comp)⟩ ∈ outputs turn.effects

/-- The server over another table `mms_whitelist`, given by its `mms_whitelist_uid`. -/
def ServerEnv.withWhitelist (whitelist : List UInt32) : ServerEnv :=
  { env with
    readings := fun n =>
      { env.readings n with
        mysql := (env.readings n).mysql.map fun m => { m with whitelist := whitelist } } }

variable {log : Logger} {env srv fd login} {l : Locals} {offset : Nat}

theorem handsOutKey_iff (hparse : parseCmd env.toEnv l.buf = .success offset (.login login)) :
    HandsOutKey log env srv fd l login ↔
      log.info env.platform (handledLine env srv fd l.state login) = true ∧
        (env.readings srv.logins).accepts = true ∧
        (keyAnswer env srv fd l.state login).isSome = true := by
  constructor
  · rintro ⟨turn, comp, hturn, hcomp, hmem⟩
    obtain ⟨hinfo, rfl⟩ := (loggedTurn_login_iff hparse).mp hturn
    rw [outputs_handleLogin] at hmem
    refine ⟨hinfo, ?_, by rw [hcomp]; rfl⟩
    cases haccepts : (env.readings srv.logins).accepts with
    | true => rfl
    | false =>
        rw [haccepts] at hmem
        simp [frame_compRSA_ne_loginRes, frame_ne_nil] at hmem
  · rintro ⟨hinfo, haccepts, hsome⟩
    obtain ⟨comp, hcomp⟩ := Option.isSome_iff_exists.mp hsome
    refine ⟨_, comp, (loggedTurn_login_iff hparse).mpr ⟨hinfo, rfl⟩, hcomp, ?_⟩
    rw [outputs_handleLogin, haccepts, hcomp]
    exact List.mem_singleton_self _

theorem accepts_withWhitelist (whitelist : List UInt32) (n : Nat) :
    ((env.withWhitelist whitelist).readings n).accepts = (env.readings n).accepts := by
  simp only [Reading.accepts, ServerEnv.withWhitelist, Option.any_map]

theorem handledLine_withWhitelist (whitelist : List UInt32) :
    handledLine (env.withWhitelist whitelist) srv fd l.state login =
      handledLine env srv fd l.state login := by
  simp only [handledLine, checkWhiteList_eq, accepts_withWhitelist]
  rfl

theorem handsOutKey_withWhitelist (whitelist : List UInt32)
    (hparse : parseCmd env.toEnv l.buf = .success offset (.login login)) :
    HandsOutKey log (env.withWhitelist whitelist) srv fd l login ↔
      HandsOutKey log env srv fd l login := by
  have hparse' : parseCmd (env.withWhitelist whitelist).toEnv l.buf =
      .success offset (.login login) := hparse
  rw [handsOutKey_iff hparse', handsOutKey_iff hparse, accepts_withWhitelist,
    handledLine_withWhitelist]
  rfl

/-- Whatever is in the table, only listed users are handed a key: this holds exactly where
nobody is handed one. -/
theorem whitelist_sound_iff (log : Logger) (env : ServerEnv) (srv : Server) (fd : Fd)
    (l : Locals) (offset : Nat) (login : YYJsonLogin)
    (hparse : parseCmd env.toEnv l.buf = .success offset (.login login)) :
    (∀ whitelist, HandsOutKey log (env.withWhitelist whitelist) srv fd l login →
        login.yyID ∈ whitelist) ↔
      (env.readings srv.logins).accepts = false ∨
        log.info env.platform (handledLine env srv fd l.state login) = false ∨
        ¬ ∃ key, answerKey env srv l.state login = some key ∧
          Encrypts env.ssl key (frame (.loginRes ⟨true, (env.readings srv.logins).aesKey⟩)) := by
  have hnobody : (∀ whitelist, HandsOutKey log (env.withWhitelist whitelist) srv fd l login →
      login.yyID ∈ whitelist) ↔ ¬ HandsOutKey log env srv fd l login := by
    constructor
    · intro h hkey
      exact absurd (h [] ((handsOutKey_withWhitelist [] hparse).mpr hkey)) List.not_mem_nil
    · intro h whitelist hkey
      exact absurd ((handsOutKey_withWhitelist whitelist hparse).mp hkey) h
  rw [hnobody, handsOutKey_iff hparse, keyAnswer_isSome_iff]
  simp only [not_and_or, Bool.not_eq_true]
  exact or_left_comm

end Whitelist

section Sample

/-- `sampleRSA` as `i2d_RSAPublicKey` writes it. -/
def sampleDER : Bytes :=
  [0x30, 0x81, 0x87, 0x02, 0x81, 0x81, 0] ++ List.replicate 128 255 ++ [0x02, 0x01, 0x01]

def derEnv : ServerEnv :=
  { (default : ServerEnv) with
    ssl := { sampleSSL with
      d2iRSAPublicKey := fun text => if text = sampleDER then some sampleRSA else none } }

theorem parseCmd_login_sample (rsakey : Bytes)
    (h : rsakey = [] ∨ rsakey = [2] ∨ rsakey = sampleDER) :
    parseCmd derEnv.toEnv (frame (.login ⟨1, [], rsakey⟩)) =
      .success (frame (.login ⟨1, [], rsakey⟩)).length (.login ⟨1, [], rsakey⟩) := by
  rcases h with rfl | rfl | rfl <;> decide +kernel

theorem ownKey_sample : ownKey derEnv.ssl ⟨1, [], sampleDER⟩ = some sampleRSA := by
  have hne : sampleDER ≠ [] := by simp [sampleDER]
  rw [ownKey, if_neg hne]
  change (if sampleDER = sampleDER then some sampleRSA else none) = some sampleRSA
  exact if_pos rfl

def plainLog : Logger :=
  { threadId := 1
    syslog := fun format => decide (37 ∉ format)
    syslog_plain := fun _ => decide_eq_true
    handle := true
    tick := 0 }

/-- `mysql_init` has failed for every worker. -/
def noSqlEnv : ServerEnv :=
  { derEnv with readings := fun _ => ⟨0, List.replicate 32 0, some ⟨false, []⟩⟩ }

theorem whitelist_sound_refused :
    (∀ whitelist, HandsOutKey plainLog (noSqlEnv.withWhitelist whitelist) Server.init 5
        ⟨none, frame (.login ⟨1, [], sampleDER⟩)⟩ ⟨1, [], sampleDER⟩ → 1 ∈ whitelist) ∧
      ¬ HandsOutKey plainLog (noSqlEnv.withWhitelist []) Server.init 5
        ⟨none, frame (.login ⟨1, [], sampleDER⟩)⟩ ⟨1, [], sampleDER⟩ := by
  have hsound := (whitelist_sound_iff plainLog noSqlEnv Server.init 5
    ⟨none, frame (.login ⟨1, [], sampleDER⟩)⟩ _ ⟨1, [], sampleDER⟩
    (parseCmd_login_sample _ (by simp))).mpr (Or.inl rfl)
  exact ⟨hsound, fun h => absurd (hsound [] h) List.not_mem_nil⟩

/-- With an empty whitelist, user 1 logs in and is given a key. -/
theorem whitelist_unsound :
    HandsOutKey plainLog (derEnv.withWhitelist []) Server.init 5
      ⟨none, frame (.login ⟨1, [], sampleDER⟩)⟩ ⟨1, [], sampleDER⟩ := by
  have hparse : parseCmd (derEnv.withWhitelist []).toEnv
      (Locals.mk none (frame (.login ⟨1, [], sampleDER⟩))).buf =
      .success (frame (.login ⟨1, [], sampleDER⟩)).length (.login ⟨1, [], sampleDER⟩) :=
    parseCmd_login_sample _ (by simp)
  refine (handsOutKey_iff hparse).mpr ⟨?_, rfl, ?_⟩
  · exact info_handledLine (by simp)
  · refine (keyAnswer_isSome_iff _ _ _ _ _).mpr ⟨sampleRSA, ?_, by decide +kernel⟩
    have hown : ownKey (derEnv.withWhitelist []).ssl ⟨1, [], sampleDER⟩ = some sampleRSA :=
      ownKey_sample
    rw [answerKey, hown]
    rfl

end Sample

section Refused

/-- Both indexes are as they were, and of every session what a LOGIN can set. -/
structure Untouched (srv srv' : Server) : Prop where
  fdIndex : srv'.fdIndex = srv.fdIndex
  userData : srv'.userData = srv.userData
  yyID : ∀ p, (srv'.heap p).yyID = (srv.heap p).yyID
  token : ∀ p, (srv'.heap p).token = (srv.heap p).token
  rsa : ∀ p, (srv'.heap p).rsa = (srv.heap p).rsa
  aes : ∀ p, (srv'.heap p).aes = (srv.heap p).aes
  loginTime : ∀ p, (srv'.heap p).loginTime = (srv.heap p).loginTime

/-- The LOGIN repeats what the session holds: the user, the token, a key that reads as
the same one, and all this in the tick of the last LOGIN. -/
structure Repeats (env : ServerEnv) (r : Reading) (login : YYJsonLogin) (state : ItemData) :
    Prop where
  yyID : login.yyID = state.yyID
  token : login.token = state.token
  rsa : state.rsa.setRSAKey env.ssl login.rsakey [] = state.rsa
  loginTime : r.tick = state.loginTime

variable {env : ServerEnv} {srv : Server} {fd : Fd} {login : YYJsonLogin}

theorem login_registers (hindex : srv.fdIndex.getState fd = none) :
    ¬ Untouched srv (Server.perform { srv with logins := srv.logins + 1 }
      (handleLogin env srv fd none login).2) := by
  intro h
  have hregistered := (perform_handleLogin_none env fd srv
    { srv with logins := srv.logins + 1 } login).1
  have hindex' := congrArg (fun m => m.getState fd) (hregistered.symm.trans h.fdIndex)
  simp [hindex] at hindex'

theorem refused_eq (fd : Fd) (login : YYJsonLogin) {p : Ptr}
    (hrefused : (env.readings srv.logins).accepts = false) :
    ∃ items, Server.perform { srv with logins := srv.logins + 1 }
      (handleLogin env srv fd (some p) login).2 =
      { srv with
        logins := srv.logins + 1
        heap := Function.update srv.heap p
          (loginFields env (env.readings srv.logins) login (srv.heap p))
        sent := srv.sent ++ items } := by
  have houtput : IsOutput (loginCmd env (env.readings srv.logins) fd p
      (loginFields env (env.readings srv.logins) login (srv.heap p))) := by
    intro e he
    rw [loginCmd, checkWhiteList_eq, hrefused, if_neg (by simp)] at he
    rcases List.mem_append.mp he with hsend | hclose
    · exact sendCmd_isOutput fd _ e hsend
    · exact closefd_isOutput fd e hclose
  obtain ⟨items, hitems⟩ := Server.perform_of_isOutput
    (Server.apply { srv with logins := srv.logins + 1 }
      (.assign p (loginFields env (env.readings srv.logins) login))) houtput
  exact ⟨items, hitems⟩

theorem refused_untouched_iff {p : Ptr} (hrefused : (env.readings srv.logins).accepts = false) :
    Untouched srv (Server.perform { srv with logins := srv.logins + 1 }
      (handleLogin env srv fd (some p) login).2) ↔
      Repeats env (env.readings srv.logins) login (srv.heap p) := by
  obtain ⟨items, hitems⟩ := refused_eq fd login hrefused
  rw [hitems]
  constructor
  · intro h
    refine ⟨?_, ?_, ?_, ?_⟩
    · simpa [loginFields] using h.yyID p
    · simpa [loginFields] using h.token p
    · simpa [loginFields] using h.rsa p
    · simpa [loginFields] using h.loginTime p
  · intro h
    have hsame : ∀ q, ∃ rsaStr, Function.update srv.heap p
        (loginFields env (env.readings srv.logins) login (srv.heap p)) q =
          { srv.heap q with rsaStr := rsaStr } := by
      intro q
      by_cases hq : q = p
      · subst hq
        refine ⟨login.rsakey, ?_⟩
        rw [Function.update_self, loginFields, h.yyID, h.token, h.rsa, h.loginTime]
      · exact ⟨(srv.heap q).rsaStr, by rw [Function.update_of_ne hq]⟩
    refine ⟨rfl, rfl, ?_, ?_, ?_, ?_, ?_⟩
    all_goals
      intro q
      obtain ⟨rsaStr, hq⟩ := hsame q
      simp only [hq]

/-- A LOGIN that `CheckWhiteList` refuses leaves everything as it was exactly when it
repeats what its session holds. -/
theorem refused_login_untouched_iff (env : ServerEnv) (srv : Server) (fd : Fd) (l : Locals)
    (offset : Nat) (login : YYJsonLogin) (turn : Turn)
    (hparse : parseCmd env.toEnv l.buf = .success offset (.login login))
    (hindex : l.state = none → srv.fdIndex.getState fd = none)
    (hrefused : checkWhiteList (checkedSession env srv fd l.state login).uid
      (env.readings srv.logins).mysql = false)
    (hturn : jsonTurn env fd srv l = some (.ok turn)) :
    Untouched srv (turn.srv.perform turn.effects) ↔
      ∃ p, l.state = some p ∧ Repeats env (env.readings srv.logins) login (srv.heap p) := by
  rw [checkWhiteList_eq] at hrefused
  rw [jsonTurn_login hparse, Option.some.injEq, Except.ok.injEq] at hturn
  rw [← hturn]
  cases hstate : l.state with
  | none =>
      refine iff_of_false (login_registers (hindex hstate)) ?_
      rintro ⟨p, hp, -⟩
      simp at hp
  | some p =>
      rw [refused_untouched_iff hrefused]
      constructor
      · intro h
        exact ⟨p, rfl, h⟩
      · rintro ⟨q, hq, h⟩
        rw [Option.some.injEq] at hq
        rw [hq]
        exact h

/-- Of two workers the one for descriptor 5, which takes up the first LOGIN, has its `_sql`;
the one for descriptor 6 has not. -/
def outageEnv : ServerEnv :=
  { (default : ServerEnv) with
    readings := fun n => ⟨0, List.replicate 32 0, some ⟨n = 0, []⟩⟩ }

def userOneOnFive : Server :=
  Server.perform { Server.init with logins := 1 }
    (handleLogin outageEnv Server.init 5 none ⟨1, [], []⟩).2

/-- The server after a first LOGIN as user 1 on descriptor 6 has been refused. -/
def refusedOnSix : Server :=
  Server.perform { userOneOnFive with logins := 2 }
    (handleLogin outageEnv userOneOnFive 6 none ⟨1, [], []⟩).2

/-- The LOGIN that follows it in the same buffer changes nothing. -/
theorem refused_login_untouched_repeated :
    ∃ turn, jsonTurn outageEnv 6 refusedOnSix ⟨some 1, frame (.login ⟨1, [], []⟩)⟩ =
        some (.ok turn) ∧
      Untouched refusedOnSix (turn.srv.perform turn.effects) := by
  have hparse : parseCmd outageEnv.toEnv (frame (.login ⟨1, [], []⟩)) =
      .success (frame (.login ⟨1, [], []⟩)).length (.login ⟨1, [], []⟩) := by decide +kernel
  refine ⟨_, jsonTurn_login hparse, ?_⟩
  refine (refused_login_untouched_iff outageEnv refusedOnSix 6
    ⟨some 1, frame (.login ⟨1, [], []⟩)⟩ _ ⟨1, [], []⟩ _ hparse (by simp) (by decide +kernel)
    (jsonTurn_login hparse)).mpr ⟨1, rfl, ?_⟩
  exact ⟨by decide +kernel, by decide +kernel, by decide +kernel, by decide +kernel⟩

/-- While user 1 is logged in on descriptor 5, a LOGIN as user 1 on descriptor 6 is
refused, and takes over the entry of user 1. -/
theorem refused_login_redirects :
    ∃ turn, jsonTurn outageEnv 6 userOneOnFive ⟨none, frame (.login ⟨1, [], []⟩)⟩ =
        some (.ok turn) ∧
      checkWhiteList (checkedSession outageEnv userOneOnFive 6 none ⟨1, [], []⟩).uid
        (outageEnv.readings userOneOnFive.logins).mysql = false ∧
      userOneOnFive.userData.getState 1 = some 0 ∧
      (turn.srv.perform turn.effects).userData.getState 1 = some 1 ∧
      ¬ Untouched userOneOnFive (turn.srv.perform turn.effects) := by
  have hparse : parseCmd outageEnv.toEnv (frame (.login ⟨1, [], []⟩)) =
      .success (frame (.login ⟨1, [], []⟩)).length (.login ⟨1, [], []⟩) := by decide +kernel
  refine ⟨_, jsonTurn_login hparse, by decide +kernel, by decide +kernel, by decide +kernel, ?_⟩
  intro h
  have huser := congrArg (fun m => m.getState 1) h.userData
  revert huser
  decide +kernel

end Refused

end MmsSvr
