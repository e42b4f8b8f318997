import MmsSvr.JsonC.Tokener
import MmsSvr.Ssl

/-!
`yyjson.h` and `jsonprotocol.h`: the command classes, their two `Serialize`
methods, and the framing functions `FormatCmd` and `ParseCmd`.
-/

namespace MmsSvr

open JsonC YYSSL

namespace YYJson

def tosInt (i : Int) : Bytes := if i < 0 then 45 :: decimal i.natAbs else decimal i.natAbs

def tosUnsigned (i : UInt32) : Bytes := decimal i.toNat

def tosBool (b : Bool) : Bytes := if b then lit "true" else lit "false"

/-- The raw bytes of `val` between quotes: nothing is escaped. -/
def toCmdString (cmd : String) (val : Bytes) : Bytes :=
  lit "\"" ++ lit cmd ++ lit "\":\"" ++ val ++ lit "\""

def toCmdInt (cmd : String) (i : Int) : Bytes := lit "\"" ++ lit cmd ++ lit "\":" ++ tosInt i

def toCmdUnsigned (cmd : String) (i : UInt32) : Bytes :=
  lit "\"" ++ lit cmd ++ lit "\":" ++ tosUnsigned i

def toCmdBool (cmd : String) (b : Bool) : Bytes :=
  lit "\"" ++ lit cmd ++ lit "\":" ++ tosBool b

end YYJson

open YYJson

structure YYJsonLogin where
  yyID : UInt32
  token : Bytes
  rsakey : Bytes
deriving DecidableEq, Repr

structure YYJsonLoginRes where
  bTokenSucc : Bool
  aeskey : Bytes
deriving DecidableEq, Repr

structure YYJsonLogin1 where
  uid : UInt32
  user : Bytes
  pwd : Bytes
deriving DecidableEq, Repr

structure YYJsonLogin1Res where
  bSucc : Bool
deriving DecidableEq, Repr

/-- The classes whose only field is `yyID`: `YYJson_Logout`, `YYJson_Logout_res`,
`YYJson_MMS_StopPlay`, `YYJson_MMS_StopPlay_res` and `YYJson_MMS_Exit`. -/
structure YYJsonYyID where
  yyID : UInt32
deriving DecidableEq, Repr

structure YYJsonOpenUrl where
  channelID : UInt32
  subChannelID : UInt32
  url : Bytes
deriving DecidableEq, Repr

structure YYJsonOpenUrlRes where
  bSucc : Bool
  url : Bytes
deriving DecidableEq, Repr

structure YYJsonMMSOpenUrl where
  uid : UInt32
  yyID : UInt32
  channelID : UInt32
  subChannelID : UInt32
  url : Bytes
  user : Bytes
  tick : Bytes
deriving DecidableEq, Repr

structure YYJsonSvrInit where
  yyID : UInt32
  bSucc : Bool
deriving DecidableEq, Repr

/-- The envelopes `YYJson_Comp_RSA` and `YYJson_Comp_AES`. -/
structure YYJsonComp where
  version : Int32
  serString : Bytes
deriving DecidableEq, Repr

/-- A command object: one constructor for each class `LookforMap` knows. -/
inductive YYJ where
  | compRSA (c : YYJsonComp)
  | compAES (c : YYJsonComp)
  | login (c : YYJsonLogin)
  | loginRes (c : YYJsonLoginRes)
  | login1 (c : YYJsonLogin1)
  | login1Res (c : YYJsonLogin1Res)
  | logout (c : YYJsonYyID)
  | logoutRes (c : YYJsonYyID)
  | openUrl (c : YYJsonOpenUrl)
  | openUrlRes (c : YYJsonOpenUrlRes)
  | mmsOpenUrl (c : YYJsonMMSOpenUrl)
  | mmsStopPlay (c : YYJsonYyID)
  | mmsStopPlayRes (c : YYJsonYyID)
  | mmsExit (c : YYJsonYyID)
  | svrInit (c : YYJsonSvrInit)
deriving DecidableEq, Repr

namespace YYJ

/-- `_id`: the `YY_JSON_*` constants. -/
def id : YYJ → Int
  | .compRSA _ => 1000
  | .compAES _ => 1001
  | .login _ => 1011
  | .loginRes _ => 1012
  | .login1 _ => 1013
  | .login1Res _ => 1014
  | .logout _ => 1015
  | .logoutRes _ => 1016
  | .openUrl _ => 1020
  | .openUrlRes _ => 1021
  | .mmsOpenUrl _ => 2000
  | .mmsStopPlay _ => 2002
  | .mmsStopPlayRes _ => 2003
  | .mmsExit _ => 2004
  | .svrInit _ => 3000

/-- `Serialize(std::string & cmd)`. -/
def serialize (ssl : OpenSSL) : YYJ → Option Bytes
  | .compRSA c | .compAES c =>
      some (lit "\x7b" ++ toCmdInt "version" c.version.toInt ++ lit "," ++
        toCmdString "cmd" c.serString ++ lit "\x7d")
  | .login c => do
      let rsaStr ← base64encode ssl c.rsakey
      some (lit "\x7b" ++ toCmdUnsigned "yyID" c.yyID ++ lit "," ++
        toCmdString "token" c.token ++ lit "," ++ toCmdString "rsa" rsaStr ++ lit "\x7d")
  | .loginRes c => do
      let aesStr ← base64encode ssl c.aeskey
      some (lit "\x7b" ++ toCmdBool "bSucc" c.bTokenSucc ++ lit "," ++
        toCmdString "key" aesStr ++ lit "\x7d")
  | .login1 c =>
      some (lit "\x7b" ++ toCmdString "user" c.user ++ lit "," ++ toCmdUnsigned "uid" c.uid ++
        lit "," ++ toCmdString "pwd" c.pwd ++ lit "\x7d")
  | .login1Res c => some (lit "\x7b" ++ toCmdBool "bSucc" c.bSucc ++ lit "\x7d")
  | .logout c | .logoutRes c | .mmsStopPlay c | .mmsStopPlayRes c | .mmsExit c =>
      some (lit "\x7b" ++ toCmdUnsigned "yyID" c.yyID ++ lit "\x7d")
  | .openUrl c =>
      some (lit "\x7b" ++ toCmdString "url" c.url ++ lit "," ++
        toCmdUnsigned "channelID" c.channelID ++ lit "," ++
        toCmdUnsigned "subChannelID" c.subChannelID ++ lit "\x7d")
  | .openUrlRes c =>
      some (lit "\x7b" ++ toCmdBool "bSucc" c.bSucc ++ lit "," ++ toCmdString "url" c.url ++
        lit "\x7d")
  | .mmsOpenUrl c =>
      some (lit "\x7b" ++ toCmdUnsigned "uid" c.uid ++ lit "," ++
        toCmdUnsigned "yyID" c.yyID ++ lit "," ++ toCmdString "user" c.user ++ lit "," ++
        toCmdString "tick" c.tick ++ lit "," ++ toCmdUnsigned "channelID" c.channelID ++
        lit "," ++ toCmdUnsigned "subChannelID" c.subChannelID ++ lit "," ++
        toCmdString "url" c.url ++ lit "\x7d")
  | .svrInit c =>
      some (lit "\x7b" ++ toCmdBool "bSucc" c.bSucc ++ lit "," ++
        toCmdUnsigned "yyID" c.yyID ++ lit "\x7d")

end YYJ

/-- `WORD` is `short` on Linux and `unsigned short` on Windows. -/
inductive Platform where
  | linux
  | win32
deriving DecidableEq, Repr, Inhabited

/-- What the allocator left in the fields no constructor sets. -/
structure Uninit where
  logoutYyID : UInt32
  channelID : UInt32
  subChannelID : UInt32
deriving DecidableEq, Repr, Inhabited

/-- Everything outside the repository that decoding depends on.  Each call of `ParseCmd`
allocates anew; a run over one `Env` finds the same bytes there every time. -/
structure Env where
  platform : Platform
  ssl : OpenSSL
  uninit : Uninit
  /-- The numerals that `sscanf("%lf")` finds out of range. -/
  strtod : Bytes → Bool
deriving Inhabited

/-- `#define is_key(a, t)`. -/
def isKey (key : Bytes) (val : Json) (a : String) (t : JsonType) : Bool :=
  key == lit a && val.type == t

/-- An `int` stored into an `unsigned int` field. -/
def getUnsigned (val : Json) : UInt32 := UInt32.ofInt (objectGetInt val)

namespace YYJsonYyID

def serializeEntry (c : YYJsonYyID) (key : Bytes) (val : Json) : YYJsonYyID :=
  if isKey key val "yyID" .int then { c with yyID := getUnsigned val } else c

end YYJsonYyID

namespace YYJsonComp

def serializeEntry (c : YYJsonComp) (key : Bytes) (val : Json) : YYJsonComp :=
  if isKey key val "version" .int then { c with version := Int32.ofInt (objectGetInt val) }
  else if isKey key val "cmd" .string then { c with serString := objectGetString val }
  else c

end YYJsonComp

namespace YYJsonLogin

def serializeEntry (ssl : OpenSSL) (c : YYJsonLogin) (key : Bytes) (val : Json) :
    Option YYJsonLogin :=
  if isKey key val "yyID" .int then some { c with yyID := getUnsigned val }
  else if isKey key val "token" .string then some { c with token := objectGetString val }
  else if isKey key val "rsa" .string then
    (base64decode ssl (objectGetString val)).map fun rsakey => { c with rsakey := rsakey }
  else some c

end YYJsonLogin

namespace YYJsonLoginRes

def serializeEntry (ssl : OpenSSL) (c : YYJsonLoginRes) (key : Bytes) (val : Json) :
    Option YYJsonLoginRes :=
  if isKey key val "bSucc" .boolean then some { c with bTokenSucc := objectGetBoolean val }
  else if isKey key val "key" .string then
    (base64decode ssl (objectGetString val)).map fun aeskey => { c with aeskey := aeskey }
  else some c

end YYJsonLoginRes

namespace YYJsonLogin1

def serializeEntry (c : YYJsonLogin1) (key : Bytes) (val : Json) : YYJsonLogin1 :=
  if isKey key val "uid" .int then { c with uid := getUnsigned val }
  else if isKey key val "user" .string then { c with user := objectGetString val }
  else if isKey key val "pwd" .string then { c with pwd := objectGetString val }
  else c

end YYJsonLogin1

namespace YYJsonLogin1Res

def serializeEntry (c : YYJsonLogin1Res) (key : Bytes) (val : Json) : YYJsonLogin1Res :=
  if isKey key val "bSucc" .boolean then { c with bSucc := objectGetBoolean val } else c

end YYJsonLogin1Res

namespace YYJsonOpenUrl

def serializeEntry (c : YYJsonOpenUrl) (key : Bytes) (val : Json) : YYJsonOpenUrl :=
  if isKey key val "channelID" .int then { c with channelID := getUnsigned val }
  else if isKey key val "subChannelID" .int then { c with subChannelID := getUnsigned val }
  else if isKey key val "url" .string then { c with url := objectGetString val }
  else c

end YYJsonOpenUrl

namespace YYJsonOpenUrlRes

def serializeEntry (c : YYJsonOpenUrlRes) (key : Bytes) (val : Json) : YYJsonOpenUrlRes :=
  if isKey key val "bSucc" .boolean then { c with bSucc := objectGetBoolean val }
  else if isKey key val "url" .string then { c with url := objectGetString val }
  else c

end YYJsonOpenUrlRes

namespace YYJsonMMSOpenUrl

def serializeEntry (c : YYJsonMMSOpenUrl) (key : Bytes) (val : Json) : YYJsonMMSOpenUrl :=
  if isKey key val "uid" .int then { c with uid := getUnsigned val }
  else if isKey key val "yyID" .int then { c with yyID := getUnsigned val }
  else if isKey key val "channelID" .int then { c with channelID := getUnsigned val }
  else if isKey key val "subChannelID" .int then { c with subChannelID := getUnsigned val }
  else if isKey key val "url" .string then { c with url := objectGetString val }
  else if isKey key val "user" .string then { c with user := objectGetString val }
  else if isKey key val "tick" .string then { c with tick := objectGetString val }
  else c

end YYJsonMMSOpenUrl

namespace YYJsonSvrInit

def serializeEntry (c : YYJsonSvrInit) (key : Bytes) (val : Json) : YYJsonSvrInit :=
  if isKey key val "bSucc" .boolean then { c with bSucc := objectGetBoolean val }
  else if isKey key val "yyID" .int then { c with yyID := getUnsigned val }
  else c

end YYJsonSvrInit

namespace YYJ

/-- The loop body of `Serialize(json_object * obj)`; `none` is `return false`. -/
def serializeEntry (ssl : OpenSSL) (c : YYJ) (key : Bytes) (val : Json) : Option YYJ :=
  match c with
  | .compRSA c => some (.compRSA (c.serializeEntry key val))
  | .compAES c => some (.compAES (c.serializeEntry key val))
  | .login c => (c.serializeEntry ssl key val).map .login
  | .loginRes c => (c.serializeEntry ssl key val).map .loginRes
  | .login1 c => some (.login1 (c.serializeEntry key val))
  | .login1Res c => some (.login1Res (c.serializeEntry key val))
  | .logout c => some (.logout (c.serializeEntry key val))
  | .logoutRes c => some (.logoutRes (c.serializeEntry key val))
  | .openUrl c => some (.openUrl (c.serializeEntry key val))
  | .openUrlRes c => some (.openUrlRes (c.serializeEntry key val))
  | .mmsOpenUrl c => some (.mmsOpenUrl (c.serializeEntry key val))
  | .mmsStopPlay c => some (.mmsStopPlay (c.serializeEntry key val))
  | .mmsStopPlayRes c => some (.mmsStopPlayRes (c.serializeEntry key val))
  | .mmsExit c => some (.mmsExit (c.serializeEntry key val))
  | .svrInit c => some (.svrInit (c.serializeEntry key val))

def serializeEntries (ssl : OpenSSL) (c : YYJ) (entries : Entries) : Option YYJ :=
  entries.foldlM (fun c e => c.serializeEntry ssl e.1 e.2) c

/-- `Serialize(json_object * obj)`: `json_object_object_foreach` dereferences the
table of `obj`, which only an object has. -/
def serializeObject (ssl : OpenSSL) (c : YYJ) (obj : Json) : Except Fault (Option YYJ) :=
  match obj with
  | .object entries => .ok (c.serializeEntries ssl entries)
  | _ => .error .nullDereference

end YYJ

/-- `LookforMap`: a newly constructed object of the class of `id`. -/
def lookforMap (uninit : Uninit) (id : Int) : Option YYJ :=
  if id = 1000 then some (.compRSA ⟨0, []⟩)
  else if id = 1001 then some (.compAES ⟨0, []⟩)
  else if id = 1011 then some (.login ⟨0, [], []⟩)
  else if id = 1012 then some (.loginRes ⟨false, []⟩)
  else if id = 1013 then some (.login1 ⟨0, [], []⟩)
  else if id = 1014 then some (.login1Res ⟨false⟩)
  else if id = 1015 then some (.logout ⟨uninit.logoutYyID⟩)
  else if id = 1016 then some (.logoutRes ⟨uninit.logoutYyID⟩)
  else if id = 1020 then some (.openUrl ⟨uninit.channelID, uninit.subChannelID, []⟩)
  else if id = 1021 then some (.openUrlRes ⟨false, []⟩)
  else if id = 2000 then some (.mmsOpenUrl ⟨0, 0, 0, 0, [], [], []⟩)
  else if id = 2002 then some (.mmsStopPlay ⟨0⟩)
  else if id = 2003 then some (.mmsStopPlayRes ⟨0⟩)
  else if id = 2004 then some (.mmsExit ⟨0⟩)
  else if id = 3000 then some (.svrInit ⟨0, false⟩)
  else none

inductive YYMMSJSONError where
  | bufsize
  | esc
  | json
  | unknowed
deriving DecidableEq, Repr

/-- How a call of `ParseCmd` ends: with `YYMMSJSON_ERROR_SUCCESS`, the bytes to
skip and the command; with another error code; or not at all. -/
inductive ParseResult where
  | success (offset : Nat) (jcmd : YYJ)
  | error (err : YYMMSJSONError)
  | fault (f : Fault)
deriving DecidableEq, Repr

namespace YYmmsJson

/-- `'\27'` in octal. -/
def preChar : UInt8 := 23

/-- The two bytes of a `WORD` in memory. -/
def wordBytes (n : Nat) : Bytes := [UInt8.ofNat n, UInt8.ofNat (n / 256)]

/-- `*(WORD*)buf`. -/
def readWord (platform : Platform) (lo hi : UInt8) : Int :=
  let u := lo.toNat + 256 * hi.toNat
  match platform with
  | .linux => if u < 2 ^ 15 then u else u - 2 ^ 16
  | .win32 => u

/-- The part of `ParseCmd` after json-c has parsed the text of a frame of `jsize` bytes. -/
def decodeRoot (env : Env) (jsize : Nat) (parsed : Except TokenerError Json) : ParseResult :=
  match parsed with
  | .error _ => .error .json
  | .ok root =>
      let cmd := objectGet root (lit "cmd")
      let obj := objectGet root (lit "obj")
      -- the result of a lookup in NULL is never set
      if root.type = .null then .fault .wildPointer
      else if cmd.type = .null ∨ obj.type = .null ∨ cmd.type ≠ .int then .error .json
      else
        match lookforMap env.uninit (objectGetInt cmd) with
        | none => .error .unknowed
        | some jobj =>
            match jobj.serializeObject env.ssl obj with
            | .error f => .fault f
            | .ok none => .error .unknowed
            | .ok (some jcmd) => .success jsize jcmd

/-- The part of `ParseCmd` after the JSON text `js` of a frame of `jsize` bytes has
been cut out. -/
def parseBody (env : Env) (jsize : Nat) (js : Bytes) : ParseResult :=
  decodeRoot env jsize (Tokener.parse js)

/-- `ParseCmd` in a thread whose `errno` is not ERANGE, on a text without numbers that make
it so.  A length field below three makes `js.append(buf, jsize - 3)` throw. -/
def parseCmd (env : Env) (cmd : Bytes) : ParseResult :=
  match cmd with
  | esc :: lo :: hi :: buf =>
      if esc ≠ preChar then .error .esc
      else
        let jsize := readWord env.platform lo hi
        if (cmd.length : Int) < jsize then .error .bufsize
        else if jsize < 3 then .fault .lengthError
        else parseBody env jsize.toNat (buf.take (jsize.toNat - 3))
  | _ => .error .bufsize

def cmdText (obj : YYJ) (str : Bytes) : Bytes :=
  lit "\x7b" ++ toCmdInt "cmd" obj.id ++ lit ",\"obj\":" ++ str ++ lit "\x7d"

def formatCmd (ssl : OpenSSL) (obj : YYJ) : Option Bytes :=
  (obj.serialize ssl).map fun str =>
    preChar :: wordBytes ((cmdText obj str).length + 3) ++ cmdText obj str

/-- The bytes `FormatCmd` leaves in its empty output string, with any OpenSSL. -/
def frame (obj : YYJ) : Bytes := (formatCmd default obj).getD []

end YYmmsJson

namespace YYJsonComp

open YYmmsJson

/-- `YYJson_Comp_RSA::Format`. -/
def formatRSA (ssl : OpenSSL) (rsa : YYRSA) (version : Int32) (jobj : YYJ) :
    Option YYJsonComp := do
  let compstr ← formatCmd ssl jobj
  let encryStr ← rsa.rsaPublicEncrypt ssl compstr
  let serString ← base64encode ssl encryStr
  some ⟨version, serString⟩

/-- `YYJson_Comp_AES::Format`, given what the block buffer of `AESEncrypt` holds. -/
def formatAES (ssl : OpenSSL) (aes : YYAES) (stale : Bytes) (version : Int32) (jobj : YYJ) :
    Option YYJsonComp := do
  let compstr ← formatCmd ssl jobj
  let encryStr ← aes.aesEncrypt ssl stale compstr
  let serString ← base64encode ssl encryStr
  some ⟨version, serString⟩

/-- `YYJson_Comp_AES::UnFormat`. -/
def unFormatAES (env : Env) (aes : YYAES) (c : YYJsonComp) : Except Fault (Option YYJ) :=
  if c.serString = [] then .ok none
  else
    match base64decode env.ssl c.serString with
    | none => .ok none
    | some out =>
        match aes.aesDecrypt env.ssl out with
        | .error f => .error f
        | .ok none => .ok none
        | .ok (some decryStr) =>
            match parseCmd env decryStr with
            | .success _ jobj => .ok (some jobj)
            | .error _ => .ok none
            | .fault f => .error f

end YYJsonComp

end MmsSvr
