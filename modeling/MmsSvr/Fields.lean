import MmsSvr.Protocol
import MmsSvr.JsonC.Scan

/-!
A command as a list of named fields.

Every `Serialize(std::string &)` prints its fields as the members of one JSON
object, in a fixed order and under fixed names; the classes differ only in the
list.
-/

namespace MmsSvr

open JsonC JsonC.Tokener YYJson YYSSL

/-- A field as `toCmd` prints it: a string with nothing escaped, a string behind
base64, a number or a truth value. -/
inductive FieldValue where
  | text (s : Bytes)
  | coded (b : Bytes)
  | number (i : Int)
  | bool (b : Bool)
deriving DecidableEq, Repr

namespace FieldValue

def print : FieldValue → Bytes
  | .text s => dquote :: s ++ [dquote]
  | .coded b => dquote :: Base64.encode b ++ [dquote]
  | .number i => tosInt i
  | .bool b => tosBool b

/-- The JSON value the text is meant to denote. -/
def value : FieldValue → Json
  | .text s => .string s
  | .coded b => .string (Base64.encode b)
  | .number i => .int i
  | .bool b => .boolean b

def InRange : FieldValue → Prop
  | .number i => i.natAbs < 2 ^ 63
  | _ => True

/-- The bytes that reach the JSON text unescaped. -/
def texts : FieldValue → List Bytes
  | .text s => [s]
  | _ => []

end FieldValue

def fieldMember (f : String × FieldValue) : Member := ⟨lit f.1, f.2.print, f.2.value⟩

namespace YYJ

/-- The fields of a command in the order in which they are printed. -/
def fields : YYJ → List (String × FieldValue)
  | .compRSA c | .compAES c =>
      [("version", .number c.version.toInt), ("cmd", .text c.serString)]
  | .login c => [("yyID", .number c.yyID.toNat), ("token", .text c.token),
      ("rsa", .coded c.rsakey)]
  | .loginRes c => [("bSucc", .bool c.bTokenSucc), ("key", .coded c.aeskey)]
  | .login1 c => [("user", .text c.user), ("uid", .number c.uid.toNat), ("pwd", .text c.pwd)]
  | .login1Res c => [("bSucc", .bool c.bSucc)]
  | .logout c | .logoutRes c | .mmsStopPlay c | .mmsStopPlayRes c | .mmsExit c =>
      [("yyID", .number c.yyID.toNat)]
  | .openUrl c => [("url", .text c.url), ("channelID", .number c.channelID.toNat),
      ("subChannelID", .number c.subChannelID.toNat)]
  | .openUrlRes c => [("bSucc", .bool c.bSucc), ("url", .text c.url)]
  | .mmsOpenUrl c => [("uid", .number c.uid.toNat), ("yyID", .number c.yyID.toNat),
      ("user", .text c.user), ("tick", .text c.tick),
      ("channelID", .number c.channelID.toNat),
      ("subChannelID", .number c.subChannelID.toNat), ("url", .text c.url)]
  | .svrInit c => [("bSucc", .bool c.bSucc), ("yyID", .number c.yyID.toNat)]

/-- The string fields that are printed as they are. -/
def texts (c : YYJ) : List Bytes := c.fields.flatMap fun f => f.2.texts

def members (c : YYJ) : List Member := c.fields.map fieldMember

end YYJ

theorem tosUnsigned_eq (v : UInt32) : tosUnsigned v = tosInt v.toNat := by
  rw [tosUnsigned, tosInt, if_neg (by omega), Int.natAbs_natCast]

section Punctuation

/-! The literals of `Serialize` and `toCmd`. -/

theorem lit_brace : lit "\x7b" = [123] := rfl

theorem lit_close : lit "\x7d" = [125] := rfl

theorem lit_comma : lit "," = [44] := rfl

theorem lit_quote : lit "\"" = [dquote] := rfl

theorem lit_colon : lit "\":" = [dquote, 58] := rfl

theorem lit_colonQuote : lit "\":\"" = [dquote, 58, dquote] := rfl

end Punctuation

theorem serialize_eq (ssl : OpenSSL) (c : YYJ) :
    c.serialize ssl = some (printObject c.members) := by
  cases c <;>
    simp [YYJ.serialize, YYJ.members, YYJ.fields, fieldMember, FieldValue.print, printObject,
      printMembers, Member.print, toCmdString, toCmdInt, toCmdUnsigned, toCmdBool,
      tosUnsigned_eq, base64encode_eq, lit_brace, lit_close, lit_comma, lit_quote, lit_colon,
      lit_colonQuote]

end MmsSvr
