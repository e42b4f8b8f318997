import MmsSvr.MmsExec

/-!
`cmdproc.cpp`: the loop of `JsonProcess` over a received buffer, and the synthetic
logout of `fd_close`.
-/

namespace MmsSvr

open YYmmsJson YYSSL
open Lib

/-- `CheckWhiteList`: the rows that carry `uid` are fetched, but not looked at. -/
def checkWhiteList (uid : UInt32) (mysql : Option Mysql) : Bool :=
  match mysql with
  | none => false
  | some m =>
      if m.sql = false then false
      else
        let _row := m.whitelist.count uid
        true

/-- `LoginCmd`, for the session `state` at `p`. -/
def loginCmd (env : ServerEnv) (r : Reading) (fd : Fd) (p : Ptr) (state : ItemData) :
    List Effect :=
  if checkWhiteList state.uid r.mysql then
    .assign p (fun s => { s with aes := YYAES.aesSetKey r.aesKey }) ::
      match YYJsonComp.formatRSA env.ssl state.rsa 0 (.loginRes ⟨true, r.aesKey⟩) with
      | none => []
      | some comp => sendCmd env.ssl fd (.compRSA comp)
  else sendCmd env.ssl fd (.loginRes ⟨false, []⟩) ++ closefd fd

/-- A session as it is registered.  Its buffer is the one the loop is reading. -/
def newSession (fd : Fd) : ItemData := { ItemData.init with fd := fd, readbuffer := some [] }

/-- The fields every LOGIN overwrites. -/
def loginFields (env : ServerEnv) (r : Reading) (login : YYJsonLogin) (state : ItemData) :
    ItemData :=
  { state with
    yyID := login.yyID
    token := login.token
    rsaStr := login.rsakey
    rsa := state.rsa.setRSAKey env.ssl login.rsakey []
    loginTime := r.tick }

/-- The `YY_JSON_LOGIN` branch: the session it works on, and its effects. -/
def handleLogin (env : ServerEnv) (srv : Server) (fd : Fd) (state : Option Ptr)
    (login : YYJsonLogin) : Ptr × List Effect :=
  let r := env.readings srv.logins
  let fields := loginFields env r login
  match state with
  | some p => (p, .assign p fields :: loginCmd env r fd p (fields (srv.heap p)))
  | none =>
      let p := srv.logins
      (p, [.assign p (fun _ => newSession fd), .addState fd p, .userAdd login.yyID p,
        .assign p fields] ++ loginCmd env r fd p (fields (newSession fd)))

/-- The `NextRun` label: envelopes are opened until a plain command appears.  The
value `ok none` is an envelope that does not open. -/
def nextRun (env : Env) (aes : YYAES) : Nat → YYJ → Option (Except Fault (Option YYJ))
  | 0, _ => none
  | fuel + 1, .compAES c =>
      match c.unFormatAES env aes with
      | .error f => some (.error f)
      | .ok none => some (.ok none)
      | .ok (some realobj) => nextRun env aes fuel realobj
  | _ + 1, jobj => some (.ok (some jobj))

/-- The `YY_JSON_OPENURL` case. -/
def handleOpenUrl (env : ServerEnv) (fd : Fd) (p : Ptr) (state : ItemData)
    (cmd : YYJsonOpenUrl) : List Effect :=
  let fields := fun s : ItemData =>
    { s with channelID := cmd.channelID, subChannelID := cmd.subChannelID, url := cmd.url }
  let state := fields state
  let (effects, bSucc) :=
    if state.isConnectShellClient then (openURL env.ssl state.shellClientFd state, true)
    else shellExec env state
  .assign p fields :: effects ++ sendCmd env.ssl fd (.openUrlRes ⟨bSucc, []⟩)

/-- The switch after `NextRun`, for the session `state` at `p`. -/
def dispatch (env : ServerEnv) (fd : Fd) (p : Ptr) (state : ItemData) :
    YYJ → Except Fault (List Effect)
  | .compRSA _ => .error .assertFailed
  | .login1 cmd =>
      .ok (.assign p (fun s => { s with uid := cmd.uid, account := cmd.user, pwd := cmd.pwd }) ::
        sendCmd env.ssl fd (.login1Res ⟨true⟩))
  | .logout _ =>
      .ok (sendCmd env.ssl fd (.logoutRes ⟨state.yyID⟩) ++ shellExit env.ssl state ++
        [.userDel state.yyID, .delState fd])
  | .openUrl cmd => .ok (handleOpenUrl env fd p state cmd)
  | _ => .ok []

/-- The local variables of `JsonProcess`.  The unread bytes are in `buf` while the
loop runs; the `readbuffer` of a session holds them between calls. -/
structure Locals where
  state : Option Ptr
  buf : Bytes
deriving DecidableEq, Repr

/-- One turn of the loop: the server after it has taken its readings, what it does
to the shared state, and the local variables at the end. -/
structure Turn where
  srv : Server
  effects : List Effect
  locals : Locals

/-- The part of a turn that handles an accepted command other than LOGIN. -/
def commandTurn (env : ServerEnv) (fd : Fd) (srv : Server) (l : Locals) (offset : Nat)
    (jobj : YYJ) : Option (Except Fault Turn) :=
  match l.state with
  | none => some (.ok ⟨srv, [], l⟩)
  | some p =>
      let state := srv.heap p
      let rest := { l with buf := l.buf.drop offset }
      match nextRun env.toEnv state.aes (l.buf.length + 1) jobj with
      | none => none
      | some (.error f) => some (.error f)
      | some (.ok none) => some (.ok ⟨srv, [], rest⟩)
      | some (.ok (some cmd)) =>
          some ((dispatch env fd p state cmd).map fun effects => ⟨srv, effects, rest⟩)

def jsonTurn (env : ServerEnv) (fd : Fd) (srv : Server) (l : Locals) :
    Option (Except Fault Turn) :=
  match parseCmd env.toEnv l.buf with
  | .fault f => some (.error f)
  | .error _ => some (.ok ⟨srv, closefd fd, { l with buf := [] }⟩)
  | .success offset (.login login) =>
      let (p, effects) := handleLogin env srv fd l.state login
      some (.ok ⟨{ srv with logins := srv.logins + 1 }, effects, ⟨some p, l.buf.drop offset⟩⟩)
  | .success offset jobj => commandTurn env fd srv l offset jobj

/-- The part of `JsonProcess` before the loop: the session takes the received bytes. -/
def jsonBegin (srv : Server) (fd : Fd) (readbuffer : Bytes) : Server × Locals :=
  match srv.fdIndex.getState fd with
  | none => (srv, ⟨none, readbuffer⟩)
  | some p =>
      (srv.apply (.assign p fun s => { s with readbuffer := some [] }),
        ⟨some p, (srv.heap p).readbuffer.getD [] ++ readbuffer⟩)

/-- The loop of `JsonProcess`. -/
def jsonLoop (env : ServerEnv) (fd : Fd) : DoWhile (Server × Locals) Fault where
  body := fun (srv, l) =>
    (jsonTurn env fd srv l).map fun r =>
      r.map fun turn => (turn.srv.perform turn.effects, turn.locals)
  again := fun (_, l) => l.buf ≠ []

/-- `JsonProcess`; the value `none` is a call that never returns. -/
def jsonProcess (env : ServerEnv) (srv : Server) (fd : Fd) (readbuffer : Bytes) :
    Option (Except Fault Server) :=
  if fd = 0 then some (.ok srv)
  else
    let start := jsonBegin srv fd readbuffer
    ((jsonLoop env fd).run (start.2.buf.length + 1) start).map (Except.map Prod.fst)

/-- Calls of `JsonProcess` one after another, as long as they return. -/
def jsonCalls (env : ServerEnv) (srv : Server) : List (Fd × Bytes) → Option Server
  | [] => some srv
  | (fd, readbuffer) :: calls =>
      match jsonProcess env srv fd readbuffer with
      | some (.ok srv') => jsonCalls env srv' calls
      | _ => none

/-- `fd_close`: the buffer it queues on behalf of the closed connection. -/
def fdClose (ssl : OpenSSL) (srv : Server) (fd : Fd) : Option Bytes :=
  match srv.fdIndex.getState fd with
  | none => none
  | some p => formatCmd ssl (.logout ⟨(srv.heap p).yyID⟩)

end MmsSvr
