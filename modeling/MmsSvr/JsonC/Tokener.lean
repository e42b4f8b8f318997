import MmsSvr.Bytes

/-!
The json-c tokener as a byte-at-a-time machine.

A state carries exactly the part of `struct json_tokener` that is alive in it:
the print buffer inside strings and numbers, the saved state while white space
and comments are skipped, and the object under construction.  `goto redo_char`
is a direct call of the handler the saved state names.
-/

namespace MmsSvr.JsonC

inductive JsonType where
  | null | boolean | double | int | object | array | string
deriving DecidableEq, Repr

/-- A `json_object`; `null` is the null pointer.  Objects list their members in
insertion order, as the linked hash table iterates them. -/
inductive Json where
  | null
  | boolean (b : Bool)
  | double (text : Bytes)
  | int (i : Int)
  | string (s : Bytes)
  | array (elems : List Json)
  | object (entries : List (Bytes × Json))
deriving Repr, Inhabited

abbrev Entries := List (Bytes × Json)

/-- `json_object_get_type`. -/
def Json.type : Json → JsonType
  | .null => .null
  | .boolean _ => .boolean
  | .double _ => .double
  | .int _ => .int
  | .string _ => .string
  | .array _ => .array
  | .object _ => .object

/-- `json_object_object_add`: an entry of the same key is deleted first. -/
def objectAdd (entries : Entries) (key : Bytes) (val : Json) : Entries :=
  entries.filter (fun e => e.1 ≠ key) ++ [(key, val)]

/-- `json_object_object_get`; a value that is not an object has no members. -/
def objectGet (obj : Json) (key : Bytes) : Json :=
  match obj with
  | .object entries => ((entries.find? fun e => e.1 = key).map Prod.snd).getD .null
  | _ => .null

/-- `json_object_get_int` clips the stored 64-bit integer to the range of
`int32_t`. -/
def objectGetInt : Json → Int
  | .int i => max (-2 ^ 31) (min i (2 ^ 31 - 1))
  | .boolean b => if b then 1 else 0
  | _ => 0

/-- `json_object_get_string` of a value of type string. -/
def objectGetString : Json → Bytes
  | .string s => s
  | _ => []

/-- `json_object_get_boolean` of a value of type boolean. -/
def objectGetBoolean : Json → Bool
  | .boolean b => b
  | _ => false

inductive TokenerError where
  | depth | parseEof | parseUnexpected | parseNull | parseBoolean | parseNumber
  | parseArray | parseObjectKeyName | parseObjectKeySep | parseObjectValueSep
  | parseString | parseComment
deriving DecidableEq, Repr

/-- An enclosing container whose next member is being read. -/
inductive Level where
  | array (elems : List Json)
  | object (entries : Entries) (key : Bytes)

/-- `saved_state`, with the `current` object it continues. -/
inductive Saved where
  | start
  | finish (current : Json)
  | array (elems : List Json)
  | arraySep (elems : List Json)
  | objectFieldStart (entries : Entries)
  | objectFieldEnd (entries : Entries) (key : Bytes)
  | objectValue (entries : Entries) (key : Bytes)
  | objectSep (entries : Entries)

/-- The state a string or an escape in it returns to: a value or a member name. -/
inductive Target where
  | string
  | objectField (entries : Entries)

inductive State where
  | eatws (saved : Saved)
  | commentStart (saved : Saved)
  | comment (saved : Saved)
  | commentEol (saved : Saved)
  | commentEnd (saved : Saved)
  | literal (value : Json) (err : TokenerError) (rest : Bytes)
  | number (pb : Bytes)
  | string (target : Target) (quote : UInt8) (pb : Bytes)
  | stringEscape (target : Target) (quote : UInt8) (pb : Bytes)
  | escapeUnicode (target : Target) (quote : UInt8) (pb : Bytes)
      (hi : Option Nat) (ucs : Nat) (pos : Nat)
  | hiSurrogate (target : Target) (quote : UInt8) (pb : Bytes) (hi : Nat)
  | hiSurrogateEscape (target : Target) (quote : UInt8) (pb : Bytes) (hi : Nat)
  | out (result : Except TokenerError Json)

structure Tokener where
  stack : List Level
  state : State

abbrev dquote : UInt8 := 34
abbrev squote : UInt8 := 39
abbrev backslash : UInt8 := 92

def isSpace (c : UInt8) : Bool := c == 32 || (decide (9 ≤ c) && decide (c ≤ 13))

/-- `json_number_chars`. -/
def isNumberChar (c : UInt8) : Bool :=
  isDigit c || c == 46 || c == 43 || c == 45 || c == 101 || c == 69

def isDoubleChar (c : UInt8) : Bool := c == 46 || c == 101 || c == 69

def toLower (c : UInt8) : UInt8 := if 65 ≤ c ∧ c ≤ 90 then c + 32 else c

/-- The value of a hexadecimal digit, when `c` is one of `json_hex_chars`. -/
def hexDigit (c : UInt8) : Option Nat :=
  if isDigit c then some (c.toNat - 48)
  else if 97 ≤ c ∧ c ≤ 102 then some (c.toNat - 87)
  else if 65 ≤ c ∧ c ≤ 70 then some (c.toNat - 55)
  else none

/-- The zeros that `json_parse_int64` skips: it keeps one digit. -/
def skipZeros : Bytes → Bytes
  | [] => []
  | [c] => [c]
  | c :: d :: b => if c = 48 then skipZeros (d :: b) else c :: d :: b

/-- Whether the digits at the head of `text`, and nothing else, are those of `num64`. -/
def reprints (neg : Bool) (num64 : Int) (text : Bytes) : Bool :=
  let cmp := decimal num64.natAbs
  neg == decide (num64 < 0) && cmp.isPrefixOf text && !(text.drop cmp.length).head?.any isDigit

/-- The second half of `json_parse_int64`: `sscanf` has read `value`, up to saturation, from
a text that is `text` without its sign and its leading zeros. -/
def recheck (erange neg : Bool) (value : Int) (text : Bytes) : Int × Bool :=
  let num64 := max (-2 ^ 63) (min value (2 ^ 63 - 1))
  let erange := erange || num64 != value || !reprints neg num64 text
  (if erange then if neg then -2 ^ 63 else 2 ^ 63 - 1 else num64, erange)

/-- `json_parse_int64` in a thread whose `errno` is ERANGE or something else, and whether
it is ERANGE afterwards: nothing ever resets it.  `sscanf("%lld")` reads the longest prefix
that is a numeral. -/
def parseInt64In (erange : Bool) (pb : Bytes) : Option (Int × Bool) :=
  let minus := pb.head? == some 45
  let body := if minus then pb.tail else pb
  let digits := body.takeWhile isDigit
  let text := skipZeros body
  if digits = [] then none
  else
    let value : Int := if minus then -digitsValue digits else digitsValue digits
    some (recheck erange (minus && text != [48]) value text)

/-- `json_parse_int64` in a thread whose `errno` is not ERANGE. -/
def parseInt64 (pb : Bytes) : Option Int := (parseInt64In false pb).map Prod.fst

/-- `sscanf("%lf")` needs a digit in the mantissa. -/
def hasMantissa (pb : Bytes) : Bool :=
  let b := if pb.head? = some 45 then pb.tail else pb
  match b with
  | c :: d :: _ => isDigit c || (c == 46 && isDigit d)
  | [c] => isDigit c
  | [] => false

def parseNumber (pb : Bytes) : Option Json :=
  if pb.any isDoubleChar then
    if hasMantissa pb then some (.double pb) else none
  else (parseInt64 pb).map .int

def utf8ReplacementChar : Bytes := [0xEF, 0xBF, 0xBD]

def isHighSurrogate (uc : Nat) : Bool := (uc &&& 0xFC00) == 0xD800

def isLowSurrogate (uc : Nat) : Bool := (uc &&& 0xFC00) == 0xDC00

def decodeSurrogatePair (hi lo : Nat) : Nat :=
  ((hi &&& 0x3FF) <<< 10) + (lo &&& 0x3FF) + 0x10000

namespace Tokener

def init : Tokener := ⟨[], .eatws .start⟩

def fail (stack : List Level) (err : TokenerError) : Tokener := ⟨stack, .out (.error err)⟩

def maxDepth : Nat := 31

/-- `json_tokener_state_start` on a byte that is neither space nor a comment. -/
def start (stack : List Level) (c : UInt8) : Tokener :=
  if c = 123 then ⟨stack, .eatws (.objectFieldStart [])⟩
  else if c = 91 then ⟨stack, .eatws (.array [])⟩
  else if c = 78 ∨ c = 110 then ⟨stack, .literal .null .parseNull (lit "ull")⟩
  else if c = dquote ∨ c = squote then ⟨stack, .string .string c []⟩
  else if c = 84 ∨ c = 116 then ⟨stack, .literal (.boolean true) .parseBoolean (lit "rue")⟩
  else if c = 70 ∨ c = 102 then ⟨stack, .literal (.boolean false) .parseBoolean (lit "alse")⟩
  else if isDigit c ∨ c = 45 then ⟨stack, .number [c]⟩
  else fail stack .parseUnexpected

def objectSep (stack : List Level) (entries : Entries) (c : UInt8) : Tokener :=
  if c = 125 then ⟨stack, .eatws (.finish (.object entries))⟩
  else if c = 44 then ⟨stack, .eatws (.objectFieldStart entries)⟩
  else fail stack .parseObjectValueSep

def arraySep (stack : List Level) (elems : List Json) (c : UInt8) : Tokener :=
  if c = 93 then ⟨stack, .eatws (.finish (.array elems))⟩
  else if c = 44 then ⟨stack, .eatws (.array elems)⟩
  else fail stack .parseArray

/-- `json_tokener_state_finish`: the outermost value ends the parse, an inner
one is added to its container. -/
def finish (stack : List Level) (current : Json) (c : UInt8) : Tokener :=
  match stack with
  | [] => ⟨[], .out (.ok current)⟩
  | .array elems :: rest => arraySep rest (elems ++ [current]) c
  | .object entries key :: rest => objectSep rest (objectAdd entries key current) c

/-- The handler the saved state names. -/
def resume (stack : List Level) (saved : Saved) (c : UInt8) : Tokener :=
  match saved with
  | .start => start stack c
  | .finish current => finish stack current c
  | .array elems =>
      if c = 93 then ⟨stack, .eatws (.finish (.array elems))⟩
      else if maxDepth ≤ stack.length then fail stack .depth
      else start (.array elems :: stack) c
  | .arraySep elems => arraySep stack elems c
  | .objectFieldStart entries =>
      if c = 125 then ⟨stack, .eatws (.finish (.object entries))⟩
      else if c = dquote ∨ c = squote then ⟨stack, .string (.objectField entries) c []⟩
      else fail stack .parseObjectKeyName
  | .objectFieldEnd entries key =>
      if c = 58 then ⟨stack, .eatws (.objectValue entries key)⟩
      else fail stack .parseObjectKeySep
  | .objectValue entries key =>
      if maxDepth ≤ stack.length then fail stack .depth
      else start (.object entries key :: stack) c
  | .objectSep entries => objectSep stack entries c

def eatws (stack : List Level) (saved : Saved) (c : UInt8) : Tokener :=
  if isSpace c then ⟨stack, .eatws saved⟩
  else if c = 47 then ⟨stack, .commentStart saved⟩
  else resume stack saved c

/-- The end of a string: `strdup` keeps the bytes before the first NUL. -/
def closeString (stack : List Level) (target : Target) (pb : Bytes) : Tokener :=
  match target with
  | .string => ⟨stack, .eatws (.finish (.string (cstr pb)))⟩
  | .objectField entries => ⟨stack, .eatws (.objectFieldEnd entries (cstr pb))⟩

def stringChar (stack : List Level) (target : Target) (quote : UInt8) (pb : Bytes)
    (c : UInt8) : Tokener :=
  if c = quote then closeString stack target pb
  else if c = backslash then ⟨stack, .stringEscape target quote pb⟩
  else ⟨stack, .string target quote (pb ++ [c])⟩

def simpleEscape (c : UInt8) : Option UInt8 :=
  if c = dquote ∨ c = backslash ∨ c = 47 then some c
  else if c = 98 then some 8
  else if c = 110 then some 10
  else if c = 114 then some 13
  else if c = 116 then some 9
  else none

def escapeChar (stack : List Level) (target : Target) (quote : UInt8) (pb : Bytes)
    (c : UInt8) : Tokener :=
  match simpleEscape c with
  | some b => ⟨stack, .string target quote (pb ++ [b])⟩
  | none =>
      if c = 117 then ⟨stack, .escapeUnicode target quote pb none 0 0⟩
      else fail stack .parseString

def utf8 (ucs : Nat) : Bytes :=
  if ucs < 0x80 then [UInt8.ofNat ucs]
  else if ucs < 0x800 then
    [UInt8.ofNat (0xc0 ||| (ucs >>> 6)), UInt8.ofNat (0x80 ||| (ucs &&& 0x3f))]
  else if isLowSurrogate ucs then utf8ReplacementChar
  else if ucs < 0x10000 then
    [UInt8.ofNat (0xe0 ||| (ucs >>> 12)), UInt8.ofNat (0x80 ||| ((ucs >>> 6) &&& 0x3f)),
      UInt8.ofNat (0x80 ||| (ucs &&& 0x3f))]
  else if ucs < 0x110000 then
    [UInt8.ofNat (0xf0 ||| ((ucs >>> 18) &&& 0x07)),
      UInt8.ofNat (0x80 ||| ((ucs >>> 12) &&& 0x3f)),
      UInt8.ofNat (0x80 ||| ((ucs >>> 6) &&& 0x3f)), UInt8.ofNat (0x80 ||| (ucs &&& 0x3f))]
  else utf8ReplacementChar

/-- A code point is complete: write it, or wait for the second half of a pair. -/
def codePoint (stack : List Level) (target : Target) (quote : UInt8) (pb : Bytes)
    (ucs : Nat) : Tokener :=
  if 0x800 ≤ ucs ∧ isHighSurrogate ucs then ⟨stack, .hiSurrogate target quote pb ucs⟩
  else ⟨stack, .string target quote (pb ++ utf8 ucs)⟩

/-- The fourth hexadecimal digit has been read. -/
def unicodeDone (stack : List Level) (target : Target) (quote : UInt8) (pb : Bytes)
    (hi : Option Nat) (ucs : Nat) : Tokener :=
  match hi with
  | none => codePoint stack target quote pb ucs
  | some hi =>
      if isLowSurrogate ucs then
        codePoint stack target quote pb (decodeSurrogatePair hi ucs)
      else codePoint stack target quote (pb ++ utf8ReplacementChar) ucs

def unicodeChar (stack : List Level) (target : Target) (quote : UInt8) (pb : Bytes)
    (hi : Option Nat) (ucs pos : Nat) (c : UInt8) : Tokener :=
  match hexDigit c with
  | none => fail stack .parseString
  | some d =>
      if pos = 3 then unicodeDone stack target quote pb hi (16 * ucs + d)
      else ⟨stack, .escapeUnicode target quote pb hi (16 * ucs + d) (pos + 1)⟩

/-- One turn of the loop in `json_tokener_parse_ex` on a byte other than NUL. -/
def step (t : Tokener) (c : UInt8) : Tokener :=
  match t.state with
  | .eatws saved => eatws t.stack saved c
  | .commentStart saved =>
      if c = 42 then ⟨t.stack, .comment saved⟩
      else if c = 47 then ⟨t.stack, .commentEol saved⟩
      else fail t.stack .parseComment
  | .comment saved => if c = 42 then ⟨t.stack, .commentEnd saved⟩ else t
  | .commentEol saved => if c = 10 then ⟨t.stack, .eatws saved⟩ else t
  | .commentEnd saved =>
      if c = 47 then ⟨t.stack, .eatws saved⟩ else ⟨t.stack, .comment saved⟩
  | .literal value _ [] => eatws t.stack (.finish value) c
  | .literal value err (r :: rest) =>
      if toLower c = r then ⟨t.stack, .literal value err rest⟩ else fail t.stack err
  | .number pb =>
      if isNumberChar c then ⟨t.stack, .number (pb ++ [c])⟩
      else
        match parseNumber pb with
        | some v => eatws t.stack (.finish v) c
        | none => fail t.stack .parseNumber
  | .string target quote pb => stringChar t.stack target quote pb c
  | .stringEscape target quote pb => escapeChar t.stack target quote pb c
  | .escapeUnicode target quote pb hi ucs pos =>
      unicodeChar t.stack target quote pb hi ucs pos c
  -- json-c looks two bytes ahead for the second half of a surrogate pair
  | .hiSurrogate target quote pb hi =>
      if c = backslash then ⟨t.stack, .hiSurrogateEscape target quote pb hi⟩
      else stringChar t.stack target quote (pb ++ utf8ReplacementChar) c
  | .hiSurrogateEscape target quote pb hi =>
      if c = 117 then ⟨t.stack, .escapeUnicode target quote pb (some hi) 0 0⟩
      else escapeChar t.stack target quote (pb ++ utf8ReplacementChar) c
  | .out _ => t

def eofFinish (stack : List Level) (current : Json) : Except TokenerError Json :=
  match stack with
  | [] => .ok current
  | _ :: _ => .error .parseEof

/-- What the terminating NUL does in each state.  An unterminated comment after
a complete value is accepted, whatever is still open around that value. -/
def eof (t : Tokener) : Except TokenerError Json :=
  match t.state with
  | .eatws (.finish current) => eofFinish t.stack current
  | .comment (.finish current) => .ok current
  | .commentEol (.finish current) => .ok current
  | .commentEnd (.finish current) => .ok current
  | .literal value _ [] => eofFinish t.stack value
  | .number pb =>
      match parseNumber pb with
      | some v => eofFinish t.stack v
      | none => .error .parseEof
  | .out result => result
  | _ => .error .parseEof

/-- `json_tokener_parse_ex(tok, js, -1)` on a freshly reset tokener. -/
def parse (js : Bytes) : Except TokenerError Json :=
  eof ((cstr js).foldl step init)

end Tokener

end MmsSvr.JsonC
