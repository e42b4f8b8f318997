import MmsSvr.Base64
import MmsSvr.Lib.Memory

/-!
`yyssl.h`: base64, RSA and AES wrappers around OpenSSL.

OpenSSL itself is a parameter.  Its base64 encoder is fixed by its documented
output format; of the decoder the laws say only that it inverts the encoder.  The sizes
that the base64 wrappers keep in an `int` are natural numbers here: no text is so long that
they do not fit.
-/

namespace MmsSvr

open Lib

/-- The ways a C++ call can end without returning to its caller. -/
inductive Fault where
  | lengthError
  | nullDereference
  | outOfBounds
  | assertFailed
  /-- A pointer that was never set is dereferenced. -/
  | wildPointer
  /-- `LOG::Info` does not return. -/
  | logging
deriving DecidableEq, Repr

/-- An OpenSSL key: modulus, public and private exponent. -/
structure RSA where
  n : Nat
  e : Nat
  d : Nat
deriving DecidableEq, Repr

/-- The OpenSSL functions the server uses.  An AES key that was never set is the
zero-filled key schedule, here `none`. -/
structure OpenSSL where
  evpEncode : Bytes → Bytes
  evpDecode : Bytes → Bytes
  evpEncode_eq : ∀ b, evpEncode b = Base64.encode b
  evpDecode_encode : ∀ b, evpDecode (evpEncode b) = b
  d2iRSAPublicKey : Bytes → Option RSA
  d2iRSAPrivateKey : Bytes → Option RSA
  rsaPublicEncrypt : RSA → Bytes → Option Bytes
  rsaPrivateDecrypt : RSA → Bytes → Option Bytes
  aesEncrypt : Option Bytes → Bytes → Bytes
  aesDecrypt : Option Bytes → Bytes → Bytes
  aesEncrypt_length : ∀ key block, (aesEncrypt key block).length = 16
  aesDecrypt_length : ∀ key block, (aesDecrypt key block).length = 16

/-- The laws can be met: here no key is readable and every block comes out as zeros. -/
instance : Inhabited OpenSSL where
  default :=
    { evpEncode := Base64.encode
      evpDecode := Base64.decode
      evpEncode_eq := fun _ => rfl
      evpDecode_encode := Base64.decode_encode
      d2iRSAPublicKey := fun _ => none
      d2iRSAPrivateKey := fun _ => none
      rsaPublicEncrypt := fun _ _ => none
      rsaPrivateDecrypt := fun _ _ => none
      aesEncrypt := fun _ _ => List.replicate 16 0
      aesDecrypt := fun _ _ => List.replicate 16 0
      aesEncrypt_length := by simp
      aesDecrypt_length := by simp }

namespace YYSSL

/-- Consecutive blocks of `size` bytes, the last one possibly shorter. -/
def blocksAux (size : Nat) : Nat → Bytes → List Bytes
  | 0, _ => []
  | fuel + 1, b => if b = [] then [] else b.take size :: blocksAux size fuel (b.drop size)

def blocks (size : Nat) (b : Bytes) : List Bytes := blocksAux size b.length b

/-- A byte read through a plain `char`. -/
def signedChar (c : UInt8) : Int := if c.toNat < 128 then c.toNat else c.toNat - 256

/-- `std::string::append(buf, n)` with an `int` count, from a buffer of known size. -/
def appendPrefix (buf : Bytes) (n : Int) : Except Fault Bytes :=
  if n < 0 then .error .lengthError
  else if (buf.length : Int) < n then .error .outOfBounds
  else .ok (buf.take n.toNat)

/-- `YYBase64::base64encode`; it always returns true. -/
def base64encode (ssl : OpenSSL) (inbuf : Bytes) : Option Bytes :=
  let base64Len := (inbuf.length + 2) / 3 * 4 + 1
  let pemLen := base64Len + base64Len / 64
  some ((ssl.evpEncode inbuf).take pemLen)

/-- `YYBase64::base64decode`; it always returns true. -/
def base64decode (ssl : OpenSSL) (inbuf : Bytes) : Option Bytes :=
  let orgLen := (inbuf.length + 2) / 4 * 3 + 1
  some ((ssl.evpDecode inbuf).take orgLen)

structure YYRSA where
  publicKey : Option RSA
  privateKey : Option RSA
deriving DecidableEq, Repr

namespace YYRSA

abbrev kBytes : Nat := 128

def init : YYRSA := ⟨none, none⟩

/-- `SetRSAKey(std::string &, std::string &)`: an empty or unreadable key leaves
the key that was set before. -/
def setRSAKey (ssl : OpenSSL) (rsa : YYRSA) (publickey privatekey : Bytes) : YYRSA :=
  let pubkey := if publickey = [] then none else ssl.d2iRSAPublicKey publickey
  let prikey := if privatekey = [] then none else ssl.d2iRSAPrivateKey privatekey
  { publicKey := pubkey.or rsa.publicKey, privateKey := prikey.or rsa.privateKey }

def zeroPad (b : Bytes) : Bytes := b ++ List.replicate (kBytes - b.length) 0

def rsaPublicEncrypt (ssl : OpenSSL) (rsa : YYRSA) (inbuf : Bytes) : Option Bytes :=
  match rsa.publicKey with
  | none => none
  | some key =>
      ((blocks kBytes inbuf).mapM fun b => ssl.rsaPublicEncrypt key (zeroPad b)).map fun out =>
        UInt8.ofNat (inbuf.length % kBytes) :: out.flatten

/-- The loop of `RSAPrivateDecrypt` over the blocks after the length byte.  OpenSSL writes
into an array of `kBytes`, however long the modulus is. -/
def decryptBlocks (ssl : OpenSSL) (key : RSA) (offsetLen : Int) :
    List Bytes → Except Fault (Option Bytes)
  | [] => .ok (some [])
  | b :: rest =>
      match ssl.rsaPrivateDecrypt key b with
      | none => .ok none
      | some plain =>
          if kBytes < plain.length then .error .outOfBounds
          else if rest = [] ∧ offsetLen ≠ 0 then (appendPrefix plain offsetLen).map some
          else (decryptBlocks ssl key offsetLen rest).map (Option.map (plain ++ ·))

/-- `int inbufsize = inbuf.size()`. -/
def inbufsize (inbuf : Bytes) : Int := intWord 32 inbuf.length

/-- `RSAPrivateDecrypt`: a remainder of a negative size is not positive. -/
def rsaPrivateDecrypt (ssl : OpenSSL) (rsa : YYRSA) (inbuf : Bytes) :
    Except Fault (Option Bytes) :=
  match rsa.privateKey, inbuf with
  | none, _ => .ok none
  | some _, [] => .ok none
  | some key, tail :: body =>
      if (inbufsize inbuf).tmod kBytes ≠ 1 then .ok none
      else
        decryptBlocks ssl key (signedChar tail)
          (blocks kBytes (body.take ((inbufsize inbuf).toNat - 1)))

theorem tmod_eq_one_iff {n : Int} : n.tmod kBytes = 1 ↔ 0 < n ∧ n % 128 = 1 := by
  change n.tmod 128 = 1 ↔ _
  rw [Int.tmod_eq_emod]
  split_ifs with h
  · omega
  · rw [not_or] at h
    omega

end YYRSA

/-- `YYAES`: the key its two schedules were expanded from. -/
structure YYAES where
  key : Option Bytes
deriving DecidableEq, Repr

namespace YYAES

abbrev blockSize : Nat := 16

def init : YYAES := ⟨none⟩

def aesSetKey (aesKey : Bytes) : YYAES := ⟨some aesKey⟩

/-- The loop of `AESEncrypt`.  All blocks go through one local buffer, and the last
block overwrites only as many bytes of it as are left. -/
def encryptBlocks (ssl : OpenSSL) (aes : YYAES) (stale : Bytes) : List Bytes → Bytes
  | [] => []
  | b :: rest =>
      let block := b ++ stale.drop b.length
      ssl.aesEncrypt aes.key block ++ encryptBlocks ssl aes block rest

/-- `AESEncrypt`, given what its uninitialised block buffer happens to hold. -/
def aesEncrypt (ssl : OpenSSL) (aes : YYAES) (stale inbuf : Bytes) : Option Bytes :=
  some (UInt8.ofNat (inbuf.length % blockSize) ::
    encryptBlocks ssl aes stale (blocks blockSize inbuf))

def decryptBlocks (ssl : OpenSSL) (aes : YYAES) (offsetLen : Int) :
    List Bytes → Except Fault Bytes
  | [] => .ok []
  | b :: rest =>
      let plain := ssl.aesDecrypt aes.key b
      if rest = [] ∧ offsetLen ≠ 0 then appendPrefix plain offsetLen
      else (decryptBlocks ssl aes offsetLen rest).map (plain ++ ·)

/-- `AESDecrypt`: the leading byte says how much of the last block counts. -/
def aesDecrypt (ssl : OpenSSL) (aes : YYAES) (inbuf : Bytes) :
    Except Fault (Option Bytes) :=
  match inbuf with
  | [] => .ok none
  | tail :: body =>
      if inbuf.length % blockSize ≠ 1 then .ok none
      else (decryptBlocks ssl aes (signedChar tail) (blocks blockSize body)).map some

end YYAES

theorem base64encode_eq (ssl : OpenSSL) (b : Bytes) :
    base64encode ssl b = some (Base64.encode b) := by
  have hlen := Base64.length_encode b
  rw [base64encode, ssl.evpEncode_eq, List.take_of_length_le]
  omega

theorem base64decode_encode (ssl : OpenSSL) (b : Bytes) :
    base64decode ssl (Base64.encode b) = some b := by
  have hlen := Base64.length_encode b
  rw [← ssl.evpEncode_eq] at hlen ⊢
  rw [base64decode, ssl.evpDecode_encode, List.take_of_length_le]
  omega

theorem base64decode_length {ssl : OpenSSL} {text out : Bytes}
    (h : base64decode ssl text = some out) : out.length ≤ text.length + 3 := by
  rw [base64decode, Option.some.injEq] at h
  rw [← h, List.length_take]
  omega

theorem length_blocksAux (size fuel : Nat) (b : Bytes) :
    size * (blocksAux size fuel b).length ≤ b.length + size - 1 := by
  induction fuel generalizing b with
  | zero => simp [blocksAux]
  | succ fuel ih =>
      rw [blocksAux]
      split
      · simp
      · rename_i hne
        have hpos : 0 < b.length := List.length_pos_iff.mpr hne
        have hrest := ih (b.drop size)
        rw [List.length_drop] at hrest
        rw [List.length_cons, Nat.mul_add_one]
        by_cases hle : size ≤ b.length
        · omega
        · have hnil : b.drop size = [] := List.drop_eq_nil_of_le (by omega)
          have hzero : (blocksAux size fuel (b.drop size)).length = 0 := by
            rw [hnil]
            cases fuel <;> simp [blocksAux]
          rw [hzero]
          omega

theorem decryptBlocks_length {ssl : OpenSSL} {aes : YYAES} {offsetLen : Int}
    (bs : List Bytes) {out : Bytes} (h : YYAES.decryptBlocks ssl aes offsetLen bs = .ok out) :
    out.length ≤ 16 * bs.length := by
  induction bs generalizing out with
  | nil =>
      simp only [YYAES.decryptBlocks, Except.ok.injEq] at h
      simp [← h]
  | cons b rest ih =>
      have hplain := ssl.aesDecrypt_length aes.key b
      simp only [YYAES.decryptBlocks] at h
      split at h
      · simp only [appendPrefix] at h
        split_ifs at h
        simp only [Except.ok.injEq] at h
        rw [← h, List.length_take, List.length_cons]
        omega
      · cases hrest : YYAES.decryptBlocks ssl aes offsetLen rest with
        | error f => simp [hrest, Except.map] at h
        | ok plain =>
            have hle := ih hrest
            simp only [hrest, Except.map, Except.ok.injEq] at h
            rw [← h, List.length_append, List.length_cons]
            omega

theorem aesDecrypt_length {ssl : OpenSSL} {aes : YYAES} {inbuf out : Bytes}
    (h : YYAES.aesDecrypt ssl aes inbuf = .ok (some out)) : out.length < inbuf.length := by
  cases inbuf with
  | nil => exact nomatch h
  | cons tail body =>
      rw [YYAES.aesDecrypt] at h
      split_ifs at h with hmod
      · exact nomatch h
      · cases hblocks : YYAES.decryptBlocks ssl aes (signedChar tail) (blocks 16 body) with
        | error f => simp [hblocks, Except.map] at h
        | ok plain =>
            have hle := decryptBlocks_length _ hblocks
            have hcount := length_blocksAux 16 body.length body
            simp only [hblocks, Except.map, Except.ok.injEq, Option.some.injEq] at h
            subst h
            simp only [blocks, YYAES.blockSize, List.length_cons, ne_eq, not_not] at hle hmod ⊢
            omega

end YYSSL

end MmsSvr
