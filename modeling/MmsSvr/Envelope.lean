import MmsSvr.Framing
import MmsSvr.Lib.Overlay

/-!
The envelopes `YYJson_Comp_RSA` and `YYJson_Comp_AES` are transparent: what is put into
one is what comes out.
-/

namespace MmsSvr

open YYSSL YYmmsJson
open Lib

section Blocks

variable {size : Nat}

theorem split_blocksAux (hsize : 0 < size) (fuel : Nat) (b : Bytes) (h : b.length ≤ fuel) :
    Split size b (blocksAux size fuel b) := by
  induction fuel generalizing b with
  | zero =>
      rw [List.length_eq_zero_iff.mp (Nat.le_zero.mp h)]
      exact .nil
  | succ fuel ih =>
      rw [blocksAux]
      split
      · rename_i hnil
        rw [hnil]
        exact .nil
      · rename_i hne
        have hpos : 0 < b.length := List.length_pos_iff.mpr hne
        have hrest := ih (b.drop size) (by rw [List.length_drop]; omega)
        by_cases hle : b.length ≤ size
        · have hnil : b.drop size = [] := List.drop_eq_nil_of_le hle
          rw [hrest.eq_nil_iff.mpr hnil, List.take_of_length_le hle]
          exact .last b hne hle
        · have hsplit : Split size (b.take size ++ b.drop size)
              (b.take size :: blocksAux size fuel (b.drop size)) := by
            refine .cons _ _ _ ?_ ?_ hrest
            · rw [List.length_take]
              omega
            · rw [Ne, List.drop_eq_nil_iff]
              exact hle
          rwa [List.take_append_drop] at hsplit

theorem split_blocks (hsize : 0 < size) (b : Bytes) : Split size b (blocks size b) :=
  split_blocksAux hsize b.length b (Nat.le_refl _)

theorem blocksAux_of_split (hsize : 0 < size) {b : Bytes} {bs : List Bytes} (h : Split size b bs)
    (fuel : Nat) (hfuel : b.length ≤ fuel) : blocksAux size fuel b = bs := by
  induction h generalizing fuel with
  | nil => cases fuel <;> rfl
  | last b hne hle =>
      have hpos : 0 < b.length := List.length_pos_iff.mpr hne
      obtain ⟨fuel, rfl⟩ := Nat.exists_eq_add_of_le' (Nat.lt_of_lt_of_le hpos hfuel)
      rw [blocksAux, if_neg hne, List.take_of_length_le hle, List.drop_eq_nil_of_le hle]
      cases fuel <;> rfl
  | cons b m bs hlen hne h ih =>
      rw [List.length_append] at hfuel
      obtain ⟨fuel, rfl⟩ := Nat.exists_eq_add_of_le' (show 1 ≤ fuel by omega)
      rw [blocksAux, if_neg (by simp [hne]), ← hlen, List.take_left, List.drop_left, hlen,
        ih fuel (by omega)]

theorem blocks_of_split (hsize : 0 < size) {b : Bytes} {bs : List Bytes} (h : Split size b bs) :
    blocks size b = bs :=
  blocksAux_of_split hsize h b.length (Nat.le_refl _)

theorem signedChar_ofNat {n : Nat} (h : n < 128) : signedChar (UInt8.ofNat n) = n := by
  have hn : (UInt8.ofNat n).toNat = n := by
    rw [UInt8.toNat_ofNat']
    exact Nat.mod_eq_of_lt (by omega)
  rw [signedChar, hn, if_pos h]

theorem appendPrefix_ofNat {p : Bytes} {n : Nat} (h : n ≤ p.length) :
    appendPrefix p n = .ok (p.take n) := by
  rw [appendPrefix, if_neg (by omega), if_neg (by omega), Int.toNat_natCast]

theorem length_body {size : Nat} (hsize : 1 < size) {cs : List Bytes}
    (h : ∀ c ∈ cs, c.length = size)
    {c : UInt8} : (c :: cs.flatten).length % size = 1 := by
  rw [List.length_cons, List.length_flatten, List.map_congr_left h, List.map_const',
    List.sum_replicate_nat, Nat.mul_add_mod_self_right, Nat.mod_eq_of_lt hsize]

theorem length_of_padded {bs ps : List Bytes} (h : List.Forall₂ (Padded size) bs ps) :
    ∀ p ∈ ps, p.length = size := by
  induction h with
  | nil => simp
  | cons hp h ih =>
      rw [List.forall_mem_cons]
      exact ⟨hp.2, ih⟩

end Blocks

section AES

variable {ssl : OpenSSL} {aes : YYAES}

/-- `AES_decrypt` inverts `AES_encrypt` on blocks, under the key of the session. -/
def InvertsAES (ssl : OpenSSL) (aes : YYAES) : Prop :=
  ∀ block, block.length = 16 → ssl.aesDecrypt aes.key (ssl.aesEncrypt aes.key block) = block

theorem encryptBlocks_eq (ssl : OpenSSL) (aes : YYAES) (stale : Bytes) (bs : List Bytes) :
    YYAES.encryptBlocks ssl aes stale bs =
      ((overlays stale bs).map (ssl.aesEncrypt aes.key)).flatten := by
  induction bs generalizing stale with
  | nil => rfl
  | cons b bs ih =>
      rw [overlays, List.map_cons, List.flatten_cons, ← ih]
      rfl

theorem aesDecryptBlocks_eq {tail : Nat} (htail : tail ≤ 16) (cs : List Bytes) :
    YYAES.decryptBlocks ssl aes tail cs =
      .ok (joinBlocks tail (cs.map (ssl.aesDecrypt aes.key))) := by
  induction cs with
  | nil => rfl
  | cons c cs ih =>
      have hlen := ssl.aesDecrypt_length aes.key c
      rw [YYAES.decryptBlocks, List.map_cons, joinBlocks]
      simp only [List.map_eq_nil_iff, ne_eq, Int.natCast_eq_zero]
      split
      · exact appendPrefix_ofNat (by omega)
      · rw [ih]
        rfl

theorem aesDecrypt_aesEncrypt (haes : InvertsAES ssl aes) {stale : Bytes}
    (hstale : stale.length = 16) (m : Bytes) :
    ∃ c, aes.aesEncrypt ssl stale m = some c ∧ aes.aesDecrypt ssl c = .ok (some m) := by
  have hsplit := split_blocks (show 0 < 16 by omega) m
  have hps := overlays_padded hstale hsplit.length_le
  have henc := encryptBlocks_eq ssl aes stale (blocks 16 m)
  generalize overlays stale (blocks 16 m) = ps at hps henc
  have hlen : ∀ c ∈ ps.map (ssl.aesEncrypt aes.key), c.length = 16 := by
    simp [ssl.aesEncrypt_length]
  have hplain : (ps.map (ssl.aesEncrypt aes.key)).map (ssl.aesDecrypt aes.key) = ps := by
    rw [List.map_map]
    refine (List.map_congr_left ?_).trans (List.map_id ps)
    intro p hp
    exact haes p (length_of_padded hps p hp)
  have htail : m.length % YYAES.blockSize < 16 := Nat.mod_lt _ (by decide)
  refine ⟨_, rfl, ?_⟩
  rw [YYAES.aesDecrypt, henc, if_neg (by rw [length_body (by omega) hlen]; simp),
    signedChar_ofNat (by omega), blocks_of_split (by omega) (Split.of_length_eq (by omega) hlen),
    aesDecryptBlocks_eq (by omega), hplain, hsplit.join_padded hps]
  rfl

end AES

section RSA

variable {ssl : OpenSSL}

/-- The two ends of a key pair.  On what `RSA_public_encrypt` gives for a block,
`RSA_private_decrypt` gives the block back. -/
structure MatchingRSA (ssl : OpenSSL) (sender receiver : YYRSA) : Prop where
  hasKey : receiver.privateKey ≠ none
  inverts : ∀ pub priv block c, sender.publicKey = some pub → receiver.privateKey = some priv →
    block.length = 128 → ssl.rsaPublicEncrypt pub block = some c →
    c.length = 128 ∧ ssl.rsaPrivateDecrypt priv c = some block

theorem mapM_forall₂ {α β : Type} {f : α → Option β} {as : List α} {bs : List β}
    (h : as.mapM f = some bs) : List.Forall₂ (fun a b => f a = some b) as bs := by
  induction as generalizing bs with
  | nil =>
      rw [List.mapM_nil] at h
      cases h
      exact .nil
  | cons a as ih =>
      simp only [List.mapM_cons, Option.pure_def, Option.bind_eq_bind,
        Option.bind_eq_some_iff, Option.some.injEq] at h
      obtain ⟨b, hb, bs, hbs, rfl⟩ := h
      exact .cons hb (ih hbs)

theorem zeroPad_padded {b : Bytes} (h : b.length ≤ 128) : Padded 128 b (YYRSA.zeroPad b) := by
  refine ⟨List.prefix_append _ _, ?_⟩
  rw [YYRSA.zeroPad, List.length_append, List.length_replicate, YYRSA.kBytes]
  omega

theorem rsaDecryptBlocks_eq {key : RSA} {tail : Nat} (htail : tail ≤ 128) {cs ps : List Bytes}
    (h : List.Forall₂ (fun c p => ssl.rsaPrivateDecrypt key c = some p) cs ps)
    (hps : ∀ p ∈ ps, p.length = 128) :
    YYRSA.decryptBlocks ssl key tail cs = .ok (some (joinBlocks tail ps)) := by
  induction h with
  | nil => rfl
  | cons hc h ih =>
      rename_i c p cs ps
      rw [List.forall_mem_cons] at hps
      have hnil : cs = [] ↔ ps = [] := by
        rw [← List.length_eq_zero_iff, ← List.length_eq_zero_iff, h.length_eq]
      have hroom : ¬ YYRSA.kBytes < p.length := by simp [hps.1]
      rw [YYRSA.decryptBlocks, hc, joinBlocks]
      simp only [if_neg hroom, hnil, ne_eq, Int.natCast_eq_zero]
      split
      · rw [appendPrefix_ofNat (by omega)]
        rfl
      · rw [ih hps.2]
        rfl

theorem cipher_blocks {sender receiver : YYRSA} (hrsa : MatchingRSA ssl sender receiver)
    {pub priv : RSA} (hpub : sender.publicKey = some pub) (hpriv : receiver.privateKey = some priv)
    {bs cs : List Bytes} (hbs : ∀ b ∈ bs, b.length ≤ 128)
    (h : List.Forall₂ (fun b c => ssl.rsaPublicEncrypt pub (YYRSA.zeroPad b) = some c) bs cs) :
    (∀ c ∈ cs, c.length = 128) ∧
      List.Forall₂ (fun c p => ssl.rsaPrivateDecrypt priv c = some p) cs
        (bs.map YYRSA.zeroPad) := by
  induction h with
  | nil => exact ⟨by simp, .nil⟩
  | cons hc h ih =>
      rw [List.forall_mem_cons] at hbs
      obtain ⟨hlen, hplain⟩ := ih hbs.2
      obtain ⟨hclen, hcplain⟩ :=
        hrsa.inverts pub priv _ _ hpub hpriv (zeroPad_padded hbs.1).2 hc
      rw [List.forall_mem_cons]
      exact ⟨⟨hclen, hlen⟩, .cons hcplain hplain⟩

theorem inbufsize_cipher {cs : List Bytes} (hcs : ∀ c ∈ cs, c.length = 128) (tail : UInt8)
    (hfits : 128 * cs.length + 1 < 2 ^ 31) :
    YYRSA.inbufsize (tail :: cs.flatten) = 128 * cs.length + 1 := by
  have hlen : (tail :: cs.flatten).length = 128 * cs.length + 1 := by
    rw [List.length_cons, List.length_flatten, List.map_congr_left hcs, List.map_const',
      List.sum_replicate_nat, Nat.mul_comm]
  rw [YYRSA.inbufsize, hlen, intWord_eq (by omega)]
  push_cast
  rfl

theorem appendPrefix_length {buf out : Bytes} {n : Int} (h : appendPrefix buf n = .ok out) :
    out.length ≤ buf.length := by
  unfold appendPrefix at h
  split_ifs at h
  rw [← Except.ok.inj h, List.length_take]
  omega

theorem rsaDecryptBlocks_length {key : RSA} {offsetLen : Int} {bs : List Bytes} {out : Bytes}
    (h : YYRSA.decryptBlocks ssl key offsetLen bs = .ok (some out)) :
    out.length ≤ 128 * bs.length := by
  induction bs generalizing out with
  | nil =>
      simp only [YYRSA.decryptBlocks, Except.ok.injEq, Option.some.injEq] at h
      simp [← h]
  | cons b rest ih =>
      rw [YYRSA.decryptBlocks] at h
      split at h
      · simp at h
      · rename_i plain _
        rw [YYRSA.kBytes] at h
        split_ifs at h with hroom
        · cases htail : appendPrefix plain offsetLen with
          | error f => simp [htail, Except.map] at h
          | ok bytes =>
              have hle := appendPrefix_length htail
              simp only [htail, Except.map, Except.ok.injEq, Option.some.injEq] at h
              rw [← h, List.length_cons]
              omega
        · cases hrest : YYRSA.decryptBlocks ssl key offsetLen rest with
          | error f => simp [hrest, Except.map] at h
          | ok r =>
              cases r with
              | none => simp [hrest, Except.map] at h
              | some more =>
                  have hle := ih hrest
                  simp only [hrest, Except.map, Option.map_some, Except.ok.injEq,
                    Option.some.injEq] at h
                  rw [← h, List.length_append, List.length_cons]
                  omega

theorem rsaPrivateDecrypt_length {rsa : YYRSA} {inbuf out : Bytes}
    (h : rsa.rsaPrivateDecrypt ssl inbuf = .ok (some out)) : out.length + 128 ≤ 2 ^ 31 := by
  have hword : YYRSA.inbufsize inbuf < 2 ^ 31 := by
    rw [YYRSA.inbufsize, intWord, Int.bmod]
    omega
  unfold YYRSA.rsaPrivateDecrypt at h
  split at h
  · simp at h
  · simp at h
  · rename_i key tail body _
    generalize YYRSA.inbufsize (tail :: body) = inbufsize at h hword
    split at h
    · simp at h
    · rename_i hmod
      obtain ⟨hpositive, hone⟩ := YYRSA.tmod_eq_one_iff.mp (not_not.mp hmod)
      have hle := rsaDecryptBlocks_length h
      have hcount := length_blocksAux 128 (body.take (inbufsize.toNat - 1)).length
        (body.take (inbufsize.toNat - 1))
      rw [blocks, YYRSA.kBytes] at hle
      have htaken := List.length_take_le (inbufsize.toNat - 1) body
      omega

theorem rsaPrivateDecrypt_rsaPublicEncrypt_of_le {sender receiver : YYRSA}
    (hrsa : MatchingRSA ssl sender receiver) {m c : Bytes}
    (h : sender.rsaPublicEncrypt ssl m = some c) (hfits : m.length + 128 ≤ 2 ^ 31) :
    receiver.rsaPrivateDecrypt ssl c = .ok (some m) := by
  obtain ⟨priv, hpriv⟩ := Option.ne_none_iff_exists'.mp hrsa.hasKey
  cases hpub : sender.publicKey with
  | none => simp [YYRSA.rsaPublicEncrypt, hpub] at h
  | some pub =>
      simp only [YYRSA.rsaPublicEncrypt, hpub, Option.map_eq_some_iff] at h
      obtain ⟨cs, hcs, rfl⟩ := h
      have hsplit := split_blocks (show 0 < 128 by omega) m
      have hblocks := mapM_forall₂ hcs
      obtain ⟨hlen, hplain⟩ := cipher_blocks hrsa hpub hpriv hsplit.length_le hblocks
      have hpadded : List.Forall₂ (Padded 128) (blocks 128 m)
          ((blocks 128 m).map YYRSA.zeroPad) := by
        rw [List.forall₂_map_right_iff, List.forall₂_same]
        exact fun b hb => zeroPad_padded (hsplit.length_le b hb)
      have htail : m.length % YYRSA.kBytes < 128 := Nat.mod_lt _ (by decide)
      have hcount : 128 * cs.length + 1 < 2 ^ 31 := by
        have hle := length_blocksAux 128 m.length m
        rw [← hblocks.length_eq, blocks, YYRSA.kBytes]
        omega
      have hsize := inbufsize_cipher hlen (UInt8.ofNat (m.length % YYRSA.kBytes)) hcount
      have hall : cs.flatten.length = 128 * cs.length := by
        rw [List.length_flatten, List.map_congr_left hlen, List.map_const',
          List.sum_replicate_nat, Nat.mul_comm]
      unfold YYRSA.rsaPrivateDecrypt
      simp only [hpriv]
      rw [if_neg (not_not.mpr (YYRSA.tmod_eq_one_iff.mpr (by omega))), hsize,
        List.take_of_length_le (by omega), signedChar_ofNat htail,
        blocks_of_split (by decide) (Split.of_length_eq (by decide) hlen),
        rsaDecryptBlocks_eq (by omega) hplain (length_of_padded hpadded),
        hsplit.join_padded hpadded]

theorem rsaPrivateDecrypt_rsaPublicEncrypt_iff {sender receiver : YYRSA}
    (hrsa : MatchingRSA ssl sender receiver) {m c : Bytes}
    (h : sender.rsaPublicEncrypt ssl m = some c) :
    receiver.rsaPrivateDecrypt ssl c = .ok (some m) ↔ m.length + 128 ≤ 2 ^ 31 :=
  ⟨rsaPrivateDecrypt_length, rsaPrivateDecrypt_rsaPublicEncrypt_of_le hrsa h⟩

end RSA

section Envelopes

theorem encode_ne_nil {b : Bytes} (h : b ≠ []) : Base64.encode b ≠ [] := by
  intro hnil
  have hback := Base64.decode_encode b
  rw [hnil] at hback
  exact h hback.symm

theorem formatCmd_eq_frame (ssl : OpenSSL) (jobj : YYJ) :
    formatCmd ssl jobj = some (frame jobj) := by
  rw [frame, formatCmd_eq, formatCmd_eq]
  rfl

end Envelopes

section Sample

/-- A 128-bit AES key, a block, and the block under the key. -/
def sampleKey : Bytes := (List.range 16).map UInt8.ofNat

def samplePlain : Bytes := (List.range 16).map fun i => UInt8.ofNat (17 * i)

def sampleCipher : Bytes :=
  [0x69, 0xc4, 0xe0, 0xd8, 0x6a, 0x7b, 0x04, 0x30, 0xd8, 0xcd, 0xb7, 0x80, 0x70, 0xb4, 0xc5, 0x5a]

/-- A permutation of the blocks that does to `samplePlain` what AES does. -/
def swapSample (block : Bytes) : Bytes :=
  let block := (block ++ List.replicate 16 0).take 16
  if block = samplePlain then sampleCipher
  else if block = sampleCipher then samplePlain
  else block

/-- RSA without padding under the exponent 1: blocks that are below the modulus stay as
they are, the others are refused. -/
def unitExponent (key : RSA) (block : Bytes) : Option Bytes :=
  let value := block.foldl (fun v c => 256 * v + c.toNat) 0
  if key.e = 1 ∧ key.d = 1 ∧ value < key.n then some block else none

theorem length_swapSample (block : Bytes) : (swapSample block).length = 16 := by
  unfold swapSample
  dsimp only
  split
  · rfl
  · split
    · rfl
    · simp

def sampleSSL : OpenSSL :=
  { (default : OpenSSL) with
    rsaPublicEncrypt := unitExponent
    rsaPrivateDecrypt := unitExponent
    aesEncrypt := fun _ => swapSample
    aesDecrypt := fun _ => swapSample
    aesEncrypt_length := fun _ => length_swapSample
    aesDecrypt_length := fun _ => length_swapSample }

theorem invertsAES_sample : InvertsAES sampleSSL (.aesSetKey sampleKey) := by
  intro block hlen
  have hne : samplePlain ≠ sampleCipher := by decide
  have hfit : ∀ b : Bytes, b.length = 16 → (b ++ List.replicate 16 0).take 16 = b := by
    intro b hb
    rw [← hb, List.take_left]
  change swapSample (swapSample block) = block
  unfold swapSample
  dsimp only
  rw [hfit block hlen]
  split
  · rename_i hplain
    rw [hfit _ rfl, if_neg hne.symm, if_pos rfl, hplain]
  · rename_i hplain
    split
    · rename_i hcipher
      rw [hfit _ rfl, if_pos rfl, hcipher]
    · rename_i hcipher
      rw [hfit _ hlen, if_neg hplain, if_neg hcipher]

def sampleRSA : RSA := ⟨2 ^ 1024 - 1, 1, 1⟩

theorem matchingRSA_sample :
    MatchingRSA sampleSSL ⟨some sampleRSA, none⟩ ⟨none, some sampleRSA⟩ := by
  refine ⟨by simp, ?_⟩
  rintro pub priv block c hpub hpriv hlen hc
  rw [Option.some.injEq] at hpub hpriv
  subst hpub hpriv
  have hblock : block = c := by
    simp only [sampleSSL, unitExponent, Option.ite_none_right_eq_some, Option.some.injEq] at hc
    exact hc.2
  subst hblock
  exact ⟨hlen, hc⟩

end Sample

end MmsSvr
