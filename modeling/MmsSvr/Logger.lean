import MmsSvr.CmdProc

/-!
`logger.h` and `winlogger.h`: the lines that `JsonProcess` logs, and whether the call that
logs them returns.
-/

namespace MmsSvr

open YYmmsJson YYJson

/-- What `LOG::Info` rests on.  On Linux the finished line is once more the format of
`syslog`, with NULL for its arguments, and `syslog format` says whether that call returns. -/
structure Logger where
  /-- `syscall(SYS_gettid)`. -/
  threadId : Nat
  syslog : Bytes → Bool
  syslog_plain : ∀ format, 37 ∉ format → syslog format = true
  /-- Whether `openlog` has got its handle, which only Win32 has. -/
  handle : Bool
  /-- `GetTickCount()` where a LOGOUT is logged. -/
  tick : UInt32

namespace Logger

/-- `LOG::Info` of a text: whether it returns.  A line that is too long for the buffer is cut
on Linux; on Win32 `vsnprintf_s` ends the process. -/
def info (log : Logger) (platform : Platform) (text : Bytes) : Bool :=
  match platform with
  | .linux =>
      log.syslog ((lit "Logger::Log[" ++ decimal log.threadId ++ lit "] " ++ text).take 1023)
  | .win32 => !log.handle || decide ((lit "Logger::Log[100]" ++ text).length < 1024)

theorem not_mem_decimal {c : UInt8} (hc : isDigit c = false) (n : Nat) : c ∉ decimal n := by
  intro hmem
  simp [decimal_isDigit n c hmem] at hc

theorem info_of_plain (log : Logger) {text : Bytes} (h : 37 ∉ text) :
    log.info .linux text = true := by
  refine log.syslog_plain _ fun hmem => ?_
  have hline := List.mem_of_mem_take hmem
  simp only [List.mem_append] at hline
  rcases hline with ((hfront | hid) | hback) | htext
  · exact absurd hfront (by decide)
  · exact not_mem_decimal (by decide) _ hid
  · exact absurd hback (by decide)
  · exact h htext

end Logger

section Lines

variable (fd : Fd) (state : ItemData)

/-- The line that `LoginCmd` logs. -/
def loginLine (loginOK : Bool) : Bytes :=
  lit (if loginOK then "YY_JSON_LOGIN logined fd=" else
    "YY_JSON_LOGIN logined whileList failed fd=") ++ decimal fd ++
    lit ", uid=" ++ tosUnsigned state.uid ++ lit ", account:" ++ cstr state.account ++
    lit ", logintime=" ++ tosUnsigned state.loginTime

/-- The line of the `YY_JSON_LOGOUT` case. -/
def logoutLine (tick : UInt32) : Bytes :=
  lit "YY_JSON_LOGIN logout fd=" ++ decimal fd ++
    lit ", uid=" ++ tosUnsigned state.uid ++ lit ", account:" ++ cstr state.account ++
    lit ", logintime=" ++ tosUnsigned state.loginTime ++
    lit ", logouttime=" ++ tosUnsigned tick

/-- The line about a command without a session. -/
def notLoginLine : Bytes := lit "YY_JSON_LOGIN not login fd=" ++ decimal fd

theorem loginLine_plain (loginOK : Bool) (h : 37 ∉ state.account) :
    37 ∉ loginLine fd state loginOK := by
  have hdecimal : ∀ n, 37 ∉ decimal n := Logger.not_mem_decimal (by decide)
  have haccount : 37 ∉ cstr state.account := fun hmem => h ((cstr_sublist _).mem hmem)
  have hstart : 37 ∉ lit (if loginOK then "YY_JSON_LOGIN logined fd=" else
      "YY_JSON_LOGIN logined whileList failed fd=") := by
    cases loginOK <;> decide
  simp only [loginLine, tosUnsigned, List.mem_append, hstart, hdecimal, haccount, or_false,
    false_or]
  decide

end Lines

section Turns

variable (log : Logger) (env : ServerEnv) (fd : Fd) (srv : Server) (l : Locals)

/-- The session that a LOGIN is checked for, with the fields of the LOGIN. -/
def checkedSession (env : ServerEnv) (srv : Server) (fd : Fd) (state : Option Ptr)
    (login : YYJsonLogin) : ItemData :=
  loginFields env (env.readings srv.logins) login (state.elim (newSession fd) srv.heap)

/-- The line of the `YY_JSON_LOGIN` branch, which `LoginCmd` logs before it answers. -/
def handledLine (env : ServerEnv) (srv : Server) (fd : Fd) (state : Option Ptr)
    (login : YYJsonLogin) : Bytes :=
  let session := checkedSession env srv fd state login
  loginLine fd session (checkWhiteList session.uid (env.readings srv.logins).mysql)

/-- What a turn logs before it sends anything. -/
def turnLine : Option Bytes :=
  match parseCmd env.toEnv l.buf with
  | .success _ (.login login) => some (handledLine env srv fd l.state login)
  | .success _ jobj =>
      match l.state with
      | none => some (notLoginLine fd)
      | some p =>
          match nextRun env.toEnv (srv.heap p).aes (l.buf.length + 1) jobj with
          | some (.ok (some (.logout _))) => some (logoutLine fd (srv.heap p) log.tick)
          | _ => none
  | _ => none

/-- A turn of `JsonProcess` together with its call of the logger. -/
def loggedTurn : Option (Except Fault Turn) :=
  if (turnLine log env fd srv l).all (log.info env.platform) then jsonTurn env fd srv l
  else some (.error .logging)

variable {log env fd srv l}

theorem loggedTurn_of_info (h : ∀ text ∈ turnLine log env fd srv l,
    log.info env.platform text = true) : loggedTurn log env fd srv l = jsonTurn env fd srv l :=
  if_pos (Option.all_eq_true_iff_get _ _ |>.mpr fun hsome => h _ (Option.get_mem hsome))

theorem turnLine_login {offset : Nat} {login : YYJsonLogin}
    (hparse : parseCmd env.toEnv l.buf = .success offset (.login login)) :
    turnLine log env fd srv l = some (handledLine env srv fd l.state login) := by
  rw [turnLine, hparse]

theorem jsonTurn_login {offset : Nat} {login : YYJsonLogin}
    (hparse : parseCmd env.toEnv l.buf = .success offset (.login login)) :
    jsonTurn env fd srv l = some (.ok ⟨{ srv with logins := srv.logins + 1 },
      (handleLogin env srv fd l.state login).2,
      ⟨some (handleLogin env srv fd l.state login).1, l.buf.drop offset⟩⟩) := by
  rw [jsonTurn, hparse]

theorem loggedTurn_login_iff {offset : Nat} {login : YYJsonLogin} {turn : Turn}
    (hparse : parseCmd env.toEnv l.buf = .success offset (.login login)) :
    loggedTurn log env fd srv l = some (.ok turn) ↔
      log.info env.platform (handledLine env srv fd l.state login) = true ∧
        turn = ⟨{ srv with logins := srv.logins + 1 }, (handleLogin env srv fd l.state login).2,
          ⟨some (handleLogin env srv fd l.state login).1, l.buf.drop offset⟩⟩ := by
  rw [loggedTurn, turnLine_login hparse, jsonTurn_login hparse]
  simp only [Option.all_some]
  split
  · rename_i hinfo
    simp [hinfo, eq_comm]
  · rename_i hinfo
    simp [hinfo]

theorem info_handledLine {state : Option Ptr} {login : YYJsonLogin}
    (h : ∀ p ∈ state, 37 ∉ (srv.heap p).account) :
    log.info .linux (handledLine env srv fd state login) = true := by
  refine log.info_of_plain (loginLine_plain _ _ _ ?_)
  cases state with
  | none => simp [checkedSession, loginFields, newSession, ItemData.init]
  | some p => exact h p rfl

end Turns

end MmsSvr
