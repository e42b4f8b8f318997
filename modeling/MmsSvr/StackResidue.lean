import MmsSvr.Envelope

/-!
The block buffer of `AESEncrypt` is a local array that is never cleared.  A message
shorter than a block is encrypted together with what the stack held there; no frame is
that short.
-/

namespace MmsSvr

open YYSSL YYmmsJson
open Lib

namespace YYSSL.YYAES

/-- The loop of `AESEncrypt` from `offset` on, where `from` holds `buf`: what `AES_encrypt`
is given in each call. -/
def encryptCalls (inbuf : Bytes) (offset : Nat) (buf : Bytes) : List Bytes :=
  if offset < inbuf.length then
    -- `inbuf.copy(from, AES_BLOCK_SIZE, offset)` copies no more than is left
    let block := overlay buf ((inbuf.drop offset).take blockSize)
    block :: encryptCalls inbuf (offset + blockSize) block
  else []
termination_by inbuf.length - offset
decreasing_by
  have hblock : blockSize = 16 := rfl
  omega

end YYSSL.YYAES

section Calls

variable {stale : Bytes}

theorem encryptCalls_of_lt {inbuf : Bytes} {offset : Nat} (h : offset < inbuf.length)
    (buf : Bytes) :
    YYAES.encryptCalls inbuf offset buf =
      overlay buf ((inbuf.drop offset).take 16) ::
        YYAES.encryptCalls inbuf (offset + 16) (overlay buf ((inbuf.drop offset).take 16)) := by
  rw [YYAES.encryptCalls, if_pos h]

theorem encryptCalls_of_le {inbuf : Bytes} {offset : Nat} (h : inbuf.length ≤ offset)
    (buf : Bytes) : YYAES.encryptCalls inbuf offset buf = [] := by
  rw [YYAES.encryptCalls, if_neg (by omega)]

/-- At the loop head `from` holds what the blocks before `offset` have left in it. -/
theorem encryptCalls_of_split {inbuf m : Bytes} {bs : List Bytes} (h : Split 16 m bs)
    {offset : Nat} (hm : inbuf.drop offset = m) (buf : Bytes) :
    YYAES.encryptCalls inbuf offset buf = overlays buf bs := by
  have hlen : inbuf.length - offset = m.length := by rw [← hm, List.length_drop]
  induction h generalizing offset buf with
  | nil =>
      rw [List.length_nil] at hlen
      exact encryptCalls_of_le (by omega) buf
  | last b hne hle =>
      have hpos : 0 < b.length := List.length_pos_iff.mpr hne
      rw [encryptCalls_of_lt (by omega), hm, List.take_of_length_le hle,
        encryptCalls_of_le (by omega)]
      rfl
  | cons b m bs hb hne h ih =>
      have hpos : 0 < m.length := List.length_pos_iff.mpr hne
      have hrest : inbuf.drop (offset + 16) = m := by
        rw [← List.drop_drop, hm, List.drop_left' hb]
      rw [List.length_append] at hlen
      rw [encryptCalls_of_lt (by omega), hm, List.take_left' hb, ih hrest _ (by omega)]
      rfl

theorem encryptCalls_eq (inbuf stale : Bytes) :
    YYAES.encryptCalls inbuf 0 stale = overlays stale (blocks 16 inbuf) :=
  encryptCalls_of_split (split_blocks (by omega) inbuf) (List.drop_zero ..) stale

theorem aesEncrypt_eq (ssl : OpenSSL) (aes : YYAES) (stale inbuf : Bytes) :
    aes.aesEncrypt ssl stale inbuf = some (UInt8.ofNat (inbuf.length % 16) ::
      ((YYAES.encryptCalls inbuf 0 stale).map (ssl.aesEncrypt aes.key)).flatten) := by
  rw [encryptCalls_eq, ← encryptBlocks_eq]
  rfl

/-- The stack shows in what is encrypted exactly when there is something to encrypt and
it is shorter than a block. -/
theorem encryptCalls_determined_iff (inbuf : Bytes) :
    (∀ stale stale', stale.length = 16 → stale'.length = 16 →
      YYAES.encryptCalls inbuf 0 stale = YYAES.encryptCalls inbuf 0 stale') ↔
      inbuf = [] ∨ 16 ≤ inbuf.length := by
  have : Nontrivial UInt8 := ⟨0, 1, by decide⟩
  simp only [encryptCalls_eq]
  exact (split_blocks (by omega) inbuf).overlays_determined_iff

/-- A message whose last block is completed by the bytes one block before. -/
def selfPadded (inbuf : Bytes) : Bytes :=
  inbuf ++ (inbuf.drop (inbuf.length - 16)).take (slack 16 inbuf)

theorem encryptCalls_eq_selfPadded {inbuf : Bytes} (hlen : 16 ≤ inbuf.length)
    (hstale : stale.length = 16) :
    YYAES.encryptCalls inbuf 0 stale = blocks 16 (selfPadded inbuf) := by
  have hsplit := split_blocks (show 0 < 16 by omega) inbuf
  have hwhole := length_of_padded (overlays_padded hstale hsplit.length_le)
  have hflat := hsplit.flatten_overlays_of_le hstale hlen
  rw [encryptCalls_eq, selfPadded, ← hflat]
  exact (blocks_of_split (by omega) (Split.of_length_eq (by omega) hwhole)).symm

end Calls

section Format

variable {jobj : YYJ} {f : Bytes}

theorem block_le_length_frame (hf : formatCmd ssl jobj = some f) : 16 ≤ f.length := by
  have hlits : (lit "\x7b").length = 1 ∧ (lit "\"").length = 1 ∧ (lit "cmd").length = 3 ∧
      (lit "\":").length = 2 ∧ (lit ",\"obj\":").length = 7 ∧ (lit "\x7d").length = 1 := by
    decide +kernel
  rw [length_frame hf]
  simp only [jsonText, cmdText, YYJson.toCmdInt, List.length_append]
  omega

theorem formatAES_eq (ssl : OpenSSL) (aes : YYAES) (stale : Bytes) (version : Int32)
    (hf : formatCmd ssl jobj = some f) :
    YYJsonComp.formatAES ssl aes stale version jobj = some ⟨version,
      Base64.encode (UInt8.ofNat (f.length % 16) ::
        ((YYAES.encryptCalls f 0 stale).map (ssl.aesEncrypt aes.key)).flatten)⟩ := by
  simp only [YYJsonComp.formatAES, hf, aesEncrypt_eq, Option.bind_eq_bind, Option.bind_some]
  rw [base64encode_eq]
  rfl

/-- An AES envelope holds nothing but its frame: `YYJson_Comp_AES::Format` gives the same
envelope whatever the block buffer held, and every block that it encrypts is cut from the
frame, the padding included. -/
theorem formatAES_no_residue (ssl : OpenSSL) (aes : YYAES) (version : Int32) (jobj : YYJ)
    (f : Bytes) (hf : formatCmd ssl jobj = some f) (stale stale' : Bytes)
    (hstale : stale.length = 16) (hstale' : stale'.length = 16) :
    (∃ c, YYJsonComp.formatAES ssl aes stale version jobj = some c ∧
      YYJsonComp.formatAES ssl aes stale' version jobj = some c ∧
      c.serString = Base64.encode (UInt8.ofNat (f.length % 16) ::
        ((YYAES.encryptCalls f 0 stale).map (ssl.aesEncrypt aes.key)).flatten)) ∧
    YYAES.encryptCalls f 0 stale = blocks 16 (selfPadded f) ∧
    YYAES.encryptCalls f 0 stale' = blocks 16 (selfPadded f) := by
  have hlen := block_le_length_frame hf
  have hcalls := encryptCalls_eq_selfPadded hlen hstale
  have hcalls' := encryptCalls_eq_selfPadded hlen hstale'
  have hformat := formatAES_eq ssl aes stale version hf
  have hformat' := formatAES_eq ssl aes stale' version hf
  rw [hcalls', ← hcalls] at hformat'
  exact ⟨⟨_, hformat, hformat', rfl⟩, hcalls, hcalls'⟩

/-- A LOGOUT whose last block has only one byte of the frame, under two fillings of the
stack. -/
theorem formatAES_no_residue_logout :
    (frame (.logout ⟨77⟩)).length % 16 = 1 ∧
    ∃ c, YYJsonComp.formatAES sampleSSL (.aesSetKey sampleKey) (List.replicate 16 0) 0
        (.logout ⟨77⟩) = some c ∧
      YYJsonComp.formatAES sampleSSL (.aesSetKey sampleKey) (List.replicate 16 255) 0
        (.logout ⟨77⟩) = some c := by
  obtain ⟨⟨c, hc, hc', -⟩, -⟩ := formatAES_no_residue sampleSSL (.aesSetKey sampleKey) 0
    (.logout ⟨77⟩) (frame (.logout ⟨77⟩)) (formatCmd_eq_frame _ _) (List.replicate 16 0)
    (List.replicate 16 255) rfl rfl
  exact ⟨by decide +kernel, c, hc, hc'⟩

end Format

end MmsSvr
