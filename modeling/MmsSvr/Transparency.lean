import MmsSvr.Base64Bounds
import MmsSvr.Envelope
import MmsSvr.ThreadErrno

/-!
An envelope is opened by one call of `ParseCmd`, and the frame in it can be read by
another: whether the two agree.
-/

namespace MmsSvr

open YYSSL YYmmsJson
open Lib

def ParseResult.command : ParseResult → Except Fault (Option YYJ)
  | .success _ jobj => .ok (some jobj)
  | .error _ => .ok none
  | .fault f => .error f

namespace YYJsonComp

/-- `YYJson_Comp_RSA::UnFormat` in a thread whose `errno` is ERANGE or not, and whether it
is afterwards. -/
def unFormatRSAIn (env : Env) (erange : Bool) (rsa : YYRSA) (c : YYJsonComp) :
    Except Fault (Option YYJ) × Bool :=
  if c.serString = [] then (.ok none, erange)
  else
    match base64decode env.ssl c.serString with
    | none => (.ok none, erange)
    | some out =>
        match rsa.rsaPrivateDecrypt env.ssl out with
        | .error f => (.error f, erange)
        | .ok none => (.ok none, erange)
        | .ok (some decryStr) =>
            let parsed := parseCmdIn env erange decryStr
            (parsed.1.command, parsed.2)

/-- `YYJson_Comp_AES::UnFormat` in such a thread. -/
def unFormatAESIn (env : Env) (erange : Bool) (aes : YYAES) (c : YYJsonComp) :
    Except Fault (Option YYJ) × Bool :=
  if c.serString = [] then (.ok none, erange)
  else
    match base64decode env.ssl c.serString with
    | none => (.ok none, erange)
    | some out =>
        match aes.aesDecrypt env.ssl out with
        | .error f => (.error f, erange)
        | .ok none => (.ok none, erange)
        | .ok (some decryStr) =>
            let parsed := parseCmdIn env erange decryStr
            (parsed.1.command, parsed.2)

end YYJsonComp

/-- A thread opens the envelope and then calls `ParseCmd` on the frame: `UnFormat` yields
what `ParseCmd` accepts, and nothing else.  The two calls allocate their commands in
different memory. -/
def Agrees (env : Env) (unFormat : Env → Except Fault (Option YYJ) × Bool) (cmd : Bytes) : Prop :=
  ∀ u u' jcmd, (unFormat { env with uninit := u }).1 = .ok (some jcmd) ↔
    ∃ offset, (parseCmdIn { env with uninit := u' } (unFormat { env with uninit := u }).2 cmd).1 =
      .success offset jcmd

/-- The length byte and the blocks that `n` bytes become. -/
def cipherSize (size n : Nat) : Nat := (n + size - 1) / size * size + 1

/-- `base64encode` can compute the size of the envelope in an `int`. -/
def EnvelopeFits (size : Nat) (jobj : YYJ) : Prop :=
  YYBase64.pemSize (cipherSize size (frame jobj).length) < 2 ^ 31

instance (size : Nat) (jobj : YYJ) : Decidable (EnvelopeFits size jobj) :=
  inferInstanceAs (Decidable (_ < _))

section Agrees

variable {env : Env} {erange : Bool} {version : Int32} {jobj : YYJ} {c : YYJsonComp}

theorem command_eq_iff {r : ParseResult} {jcmd : YYJ} :
    r.command = .ok (some jcmd) ↔ ∃ offset, r = .success offset jcmd := by
  cases r with
  | success offset jobj => simp [ParseResult.command]
  | error err => simp [ParseResult.command]
  | fault f => simp [ParseResult.command]

theorem agrees_iff {unFormat : Env → Except Fault (Option YYJ) × Bool} {cmd : Bytes}
    (hopen : ∀ u, unFormat { env with uninit := u } =
      ((parseCmdIn { env with uninit := u } erange cmd).1.command,
        (parseCmdIn { env with uninit := u } erange cmd).2)) :
    Agrees env unFormat cmd ↔ erange = true ∨ Reproducible env cmd := by
  rw [← parsesAgain_iff]
  unfold Agrees ParsesAgain
  simp only [hopen, command_eq_iff]
  constructor
  · intro h u u' offset jcmd hfirst
    obtain ⟨offset', hagain⟩ := (h u u' jcmd).mp ⟨offset, hfirst⟩
    have hfield : some (offset : Int) = some (offset' : Int) :=
      (frame_of_success hfirst).1.symm.trans (frame_of_success hagain).1
    rw [hagain, Int.natCast_inj.mp (Option.some.inj hfield)]
  · intro h u u' jcmd
    constructor
    · rintro ⟨offset, hfirst⟩
      exact ⟨offset, h u u' offset jcmd hfirst⟩
    · rintro ⟨offset, hagain⟩
      obtain ⟨offset', jcmd', hfirst⟩ := success_of_again hagain
      have hsame := h u u' offset' jcmd' hfirst
      rw [hagain, ParseResult.success.injEq] at hsame
      exact ⟨offset', by rw [hfirst, hsame.2]⟩

theorem unFormatAESIn_formatAES {aes : YYAES} (haes : InvertsAES env.ssl aes) {stale : Bytes}
    (hstale : stale.length = 16)
    (h : YYJsonComp.formatAES env.ssl aes stale version jobj = some c) :
    c.unFormatAESIn env erange aes =
      ((parseCmdIn env erange (frame jobj)).1.command,
        (parseCmdIn env erange (frame jobj)).2) := by
  obtain ⟨cipher, hcipher, hplain⟩ := aesDecrypt_aesEncrypt haes hstale (frame jobj)
  have hne : cipher ≠ [] := by
    rintro rfl
    simp [YYAES.aesEncrypt] at hcipher
  simp only [YYJsonComp.formatAES, formatCmd_eq_frame, Option.bind_eq_bind, Option.bind_some,
    hcipher, base64encode_eq, Option.some.injEq] at h
  rw [← h]
  simp only [YYJsonComp.unFormatAESIn, encode_ne_nil hne, if_false, base64decode_encode, hplain]

theorem length_frame_of_fits (h : EnvelopeFits 128 jobj) :
    (frame jobj).length + 128 ≤ 2 ^ 31 := by
  simp only [EnvelopeFits, YYBase64.pemSize, cipherSize] at h
  omega

theorem unFormatRSAIn_formatRSA {sender receiver : YYRSA}
    (hrsa : MatchingRSA env.ssl sender receiver) (hfits : EnvelopeFits 128 jobj)
    (h : YYJsonComp.formatRSA env.ssl sender version jobj = some c) :
    c.unFormatRSAIn env erange receiver =
      ((parseCmdIn env erange (frame jobj)).1.command,
        (parseCmdIn env erange (frame jobj)).2) := by
  simp only [YYJsonComp.formatRSA, formatCmd_eq_frame, Option.bind_eq_bind, Option.bind_some,
    base64encode_eq, Option.bind_eq_some_iff, Option.some.injEq] at h
  obtain ⟨cipher, hcipher, rfl⟩ := h
  have hplain := rsaPrivateDecrypt_rsaPublicEncrypt_of_le hrsa hcipher (length_frame_of_fits hfits)
  have hne : cipher ≠ [] := by
    rintro rfl
    cases hpriv : receiver.privateKey with
    | none => exact hrsa.hasKey hpriv
    | some priv =>
        unfold YYRSA.rsaPrivateDecrypt at hplain
        simp [hpriv] at hplain
  simp only [YYJsonComp.unFormatRSAIn, encode_ne_nil hne, if_false, base64decode_encode, hplain]

/-- AES gives back every message, RSA every message whose ciphertext an `int` can count; and
an envelope is opened as `ParseCmd` reads the frame in it, whenever two calls of `ParseCmd`
agree about that frame. -/
theorem envelopes_transparent_iff (env : Env) (aes : YYAES) (haes : InvertsAES env.ssl aes)
    (stale : Bytes) (hstale : stale.length = 16) (sender receiver : YYRSA)
    (hrsa : MatchingRSA env.ssl sender receiver) :
    (∀ m, ∃ c, aes.aesEncrypt env.ssl stale m = some c ∧
      aes.aesDecrypt env.ssl c = .ok (some m)) ∧
    (∀ m c, sender.rsaPublicEncrypt env.ssl m = some c →
      (receiver.rsaPrivateDecrypt env.ssl c = .ok (some m) ↔ m.length + 128 ≤ 2 ^ 31)) ∧
    (∀ erange version jobj c, EnvelopeFits 16 jobj →
      YYJsonComp.formatAES env.ssl aes stale version jobj = some c →
      (Agrees env (c.unFormatAESIn · erange aes) (frame jobj) ↔
        erange = true ∨ Reproducible env (frame jobj))) ∧
    ∀ erange version jobj c, EnvelopeFits 128 jobj →
      YYJsonComp.formatRSA env.ssl sender version jobj = some c →
      (Agrees env (c.unFormatRSAIn · erange receiver) (frame jobj) ↔
        erange = true ∨ Reproducible env (frame jobj)) := by
  refine ⟨?_, ?_, ?_, ?_⟩
  · exact fun m => aesDecrypt_aesEncrypt haes hstale m
  · exact fun m c h => rsaPrivateDecrypt_rsaPublicEncrypt_iff hrsa h
  · intro erange version jobj c _ h
    exact agrees_iff fun u => unFormatAESIn_formatAES haes hstale h
  · intro erange version jobj c hfits h
    exact agrees_iff fun u => unFormatRSAIn_formatRSA hrsa hfits h

end Agrees

section Sample

def sampleEnvelopeEnv : Env := { (default : Env) with ssl := sampleSSL }

/-- A LOGOUT goes through both envelopes. -/
theorem envelopes_transparent_sample :
    ∃ c c', YYJsonComp.formatAES sampleSSL (.aesSetKey sampleKey) (List.replicate 16 0) 0
        (.logout ⟨77⟩) = some c ∧
      Agrees sampleEnvelopeEnv (c.unFormatAESIn · false (.aesSetKey sampleKey))
        (frame (.logout ⟨77⟩)) ∧
      YYJsonComp.formatRSA sampleSSL ⟨some sampleRSA, none⟩ 0 (.logout ⟨77⟩) = some c' ∧
      Agrees sampleEnvelopeEnv (c'.unFormatRSAIn · false ⟨none, some sampleRSA⟩)
        (frame (.logout ⟨77⟩)) := by
  obtain ⟨-, -, haes, hrsa⟩ := envelopes_transparent_iff sampleEnvelopeEnv (.aesSetKey sampleKey)
    invertsAES_sample (List.replicate 16 0) rfl ⟨some sampleRSA, none⟩ ⟨none, some sampleRSA⟩
    matchingRSA_sample
  have hset : Reproducible sampleEnvelopeEnv (frame (.logout ⟨77⟩)) := by decide +kernel
  have hformat : (YYJsonComp.formatAES sampleSSL (.aesSetKey sampleKey) (List.replicate 16 0) 0
      (.logout ⟨77⟩)).isSome = true := by decide +kernel
  have hformat' : (YYJsonComp.formatRSA sampleSSL ⟨some sampleRSA, none⟩ 0
      (.logout ⟨77⟩)).isSome = true := by decide +kernel
  obtain ⟨c, hc⟩ := Option.isSome_iff_exists.mp hformat
  obtain ⟨c', hc'⟩ := Option.isSome_iff_exists.mp hformat'
  exact ⟨c, c', hc, (haes false 0 _ c (by decide +kernel) hc).mpr (Or.inr hset), hc',
    (hrsa false 0 _ c' (by decide +kernel) hc').mpr (Or.inr hset)⟩

theorem mapM_isSome {α β : Type} {f : α → Option β} {as : List α}
    (h : ∀ a ∈ as, (f a).isSome = true) : ∃ bs, as.mapM f = some bs := by
  induction as with
  | nil => exact ⟨[], rfl⟩
  | cons a as ih =>
      rw [List.forall_mem_cons] at h
      obtain ⟨b, hb⟩ := Option.isSome_iff_exists.mp h.1
      obtain ⟨bs, hbs⟩ := ih h.2
      exact ⟨b :: bs, by simp [hb, hbs]⟩

theorem unitExponent_zeros {b : Bytes} (h : ∀ c ∈ b, c = 0) :
    unitExponent sampleRSA b = some b := by
  have hvalue : b.foldl (fun v c => 256 * v + c.toNat) 0 = 0 := by
    induction b with
    | nil => rfl
    | cons c b ih =>
        rw [List.forall_mem_cons] at h
        rw [List.foldl_cons, h.1]
        exact ih h.2
  unfold unitExponent
  dsimp only
  rw [hvalue, if_pos ⟨rfl, rfl, by decide +kernel⟩]

theorem rsaPublicEncrypt_zeros (n : Nat) :
    ∃ c, (⟨some sampleRSA, none⟩ : YYRSA).rsaPublicEncrypt sampleSSL (List.replicate n 0) =
      some c := by
  have hsplit := split_blocks (show 0 < 128 by omega) (List.replicate n (0 : UInt8))
  have hzero : ∀ b ∈ blocks 128 (List.replicate n (0 : UInt8)),
      (sampleSSL.rsaPublicEncrypt sampleRSA (YYRSA.zeroPad b)).isSome = true := by
    intro b hb
    have hpad : ∀ c ∈ YYRSA.zeroPad b, c = 0 := by
      intro c hc
      rw [YYRSA.zeroPad, List.mem_append] at hc
      rcases hc with hc | hc
      · have hmem : c ∈ (blocks 128 (List.replicate n (0 : UInt8))).flatten :=
          List.mem_flatten.mpr ⟨b, hb, hc⟩
        rw [hsplit.flatten_eq] at hmem
        exact List.eq_of_mem_replicate hmem
      · exact List.eq_of_mem_replicate hc
    have hunit : sampleSSL.rsaPublicEncrypt = unitExponent := rfl
    rw [hunit, unitExponent_zeros hpad]
    rfl
  obtain ⟨cs, hcs⟩ := mapM_isSome hzero
  refine ⟨UInt8.ofNat ((List.replicate n (0 : UInt8)).length % 128) :: cs.flatten, ?_⟩
  simp only [YYRSA.rsaPublicEncrypt, hcs, Option.map_some]

/-- A url that ends the object it is in, and one that brings its own members. -/
def quotingUrl : Bytes := lit "\"\x7d\x7d"

def numberUrl : Bytes := lit "\",\"x\":99999999999999999999,\"y\":\""

/-- Two GiB of zeros do not come back from RSA.  In an AES envelope the fields behind a url
with a quotation mark are lost, and a number out of range is seen by the second call. -/
theorem envelopes_not_transparent :
    (∃ c, (⟨some sampleRSA, none⟩ : YYRSA).rsaPublicEncrypt sampleSSL (List.replicate (2 ^ 31) 0) =
        some c ∧
      (⟨none, some sampleRSA⟩ : YYRSA).rsaPrivateDecrypt sampleSSL c ≠
        .ok (some (List.replicate (2 ^ 31) 0))) ∧
    ∀ url ∈ [quotingUrl, numberUrl], ∃ c, YYJsonComp.formatAES sampleSSL (.aesSetKey sampleKey)
        (List.replicate 16 0) 0 (.openUrl ⟨1, 2, url⟩) = some c ∧
      ¬ Agrees sampleEnvelopeEnv (c.unFormatAESIn · false (.aesSetKey sampleKey))
        (frame (.openUrl ⟨1, 2, url⟩)) := by
  constructor
  · obtain ⟨c, hc⟩ := rsaPublicEncrypt_zeros (2 ^ 31)
    refine ⟨c, hc, ?_⟩
    rw [Ne, rsaPrivateDecrypt_rsaPublicEncrypt_iff matchingRSA_sample hc, List.length_replicate]
    omega
  · intro url hurl
    have hnot : ∀ url ∈ [quotingUrl, numberUrl], ¬ (false = true ∨
        Reproducible sampleEnvelopeEnv (frame (.openUrl ⟨1, 2, url⟩))) := by decide +kernel
    have hformat : ∀ url ∈ [quotingUrl, numberUrl], (YYJsonComp.formatAES sampleSSL
        (.aesSetKey sampleKey) (List.replicate 16 0) 0 (.openUrl ⟨1, 2, url⟩)).isSome = true := by
      decide +kernel
    obtain ⟨c, hc⟩ := Option.isSome_iff_exists.mp (hformat url hurl)
    refine ⟨c, hc, ?_⟩
    have haes : InvertsAES sampleEnvelopeEnv.ssl (.aesSetKey sampleKey) := invertsAES_sample
    have hformatted : YYJsonComp.formatAES sampleEnvelopeEnv.ssl (.aesSetKey sampleKey)
        (List.replicate 16 0) 0 (.openUrl ⟨1, 2, url⟩) = some c := hc
    intro hagrees
    refine hnot url hurl ((agrees_iff ?_).mp hagrees)
    intro u
    exact unFormatAESIn_formatAES haes List.length_replicate hformatted

end Sample

end MmsSvr
