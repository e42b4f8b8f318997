import MmsSvr.Server
import MmsSvr.Lib.DoWhile

/-!
`mmsexecmag.cpp`: the shell client of a session, and the management connection
over which it reports.
-/

namespace MmsSvr

open YYmmsJson
open Lib

/-- `ShellExec`: nothing is started for a session that has a shell client.  What goes on is the
Windows build, with `ShellExecuteA`; on Linux `execl` without a `fork` replaces the server by the
shell client, unless it fails. -/
def shellExec (env : ServerEnv) (state : ItemData) : List Effect × Bool :=
  if state.shellClientFd ≠ 0 then ([], false)
  else
    let paramt := YYJson.tosUnsigned state.yyID ++ lit "&127.0.0.1&" ++
      YYJson.tosUnsigned env.mangport
    ([.execute ⟨state.yyID, paramt⟩], true)

/-- The command in which `openURL` relays a session. -/
def relayed (state : ItemData) : YYJsonMMSOpenUrl :=
  { uid := state.uid, yyID := state.yyID, user := state.account, tick := state.pwd,
    channelID := state.channelID, subChannelID := state.subChannelID, url := state.url }

/-- `openURL`: relays the session to the shell client on `fd`. -/
def openURL (ssl : OpenSSL) (fd : Fd) (state : ItemData) : List Effect :=
  sendCmd ssl fd (.mmsOpenUrl (relayed state))

def shellExit (ssl : OpenSSL) (state : ItemData) : List Effect :=
  if state.shellClientFd = 0 then []
  else sendCmd ssl state.shellClientFd (.mmsExit ⟨state.yyID⟩)

/-- The `YY_JSON_SVR_INIT` case: the session the shell client was started for
learns its descriptor and is relayed to it. -/
def svrInit (ssl : OpenSSL) (srv : Server) (fd : Fd) (yyID : UInt32) : List Effect :=
  match srv.userData.getState yyID with
  | none => []
  | some p =>
      let state := { srv.heap p with shellClientFd := fd }
      .assign p (fun s => { s with shellClientFd := fd }) :: openURL ssl fd state

/-- One turn of the loop in `ProcessMmsExecData`: its effects, and what is left of
the buffer. -/
def mmsExecTurn (env : ServerEnv) (fd : Fd) (srv : Server) (buf : Bytes) :
    Except Fault (List Effect × Bytes) :=
  match parseCmd env.toEnv buf with
  | .fault f => .error f
  | .error _ => .ok ([], [])
  | .success offset (.svrInit c) => .ok (svrInit env.ssl srv fd c.yyID, buf.drop offset)
  | .success offset _ => .ok ([], buf.drop offset)

def mmsExecLoop (env : ServerEnv) (fd : Fd) : DoWhile (Server × Bytes) Fault where
  body := fun (srv, buf) =>
    some ((mmsExecTurn env fd srv buf).map fun (effects, rest) => (srv.perform effects, rest))
  again := fun (_, buf) => buf ≠ []

/-- `ProcessMmsExecData`: every turn shortens the buffer, so its length bounds the
turns. -/
def processMmsExecData (env : ServerEnv) (srv : Server) (fd : Fd) (readbuffer : Bytes) :
    Option (Except Fault Server) :=
  ((mmsExecLoop env fd).run (readbuffer.length + 1) (srv, readbuffer)).map
    (Except.map Prod.fst)

theorem openURL_isOutput (ssl : OpenSSL) (fd : Fd) (state : ItemData) :
    IsOutput (openURL ssl fd state) :=
  sendCmd_isOutput fd _

theorem shellExit_isOutput {ssl : OpenSSL} (state : ItemData) : IsOutput (shellExit ssl state) := by
  unfold shellExit
  split
  · simp [IsOutput]
  · exact sendCmd_isOutput _ _

end MmsSvr
