import MmsSvr.Envelope

/-!
How many bytes `AESDecrypt` and `RSAPrivateDecrypt` append for a block, whatever the peer
has sent.
-/

namespace MmsSvr

open YYSSL
open Lib

def rsaSize (key : RSA) : Nat := if key.n = 0 then 0 else (key.n.log2 + 8) / 8

/-- `RSA_private_decrypt` without padding: it takes no more bytes than the modulus has, and
gives as many as the modulus has. -/
structure RawDecrypt (ssl : OpenSSL) : Prop where
  le : ∀ key b plain, ssl.rsaPrivateDecrypt key b = some plain → b.length ≤ rsaSize key
  length : ∀ key b plain, ssl.rsaPrivateDecrypt key b = some plain → plain.length = rsaSize key

/-- The input is refused, or each of its blocks has added at most a whole block to the
output. -/
def TakesDecrypted (size : Nat) (inbuf : Bytes) (r : Except Fault (Option Bytes)) : Prop :=
  r = .ok none ∨
    ∃ pieces, r = .ok (some pieces.flatten) ∧
      List.Forall₂ (fun piece _ => piece.length ≤ size) pieces (blocks size inbuf.tail) ∧
      pieces.flatten.length + 1 ≤ inbuf.length

def TailWithin (n : Nat) (inbuf : Bytes) : Prop := ∀ tail ∈ inbuf.head?, tail.toNat ≤ n

section Common

variable {size : Nat} {body : Bytes} {pieces : List Bytes}

theorem blocks_length_eq (hsize : 0 < size) (hmod : body.length % size = 0) :
    ∀ b ∈ blocks size body, b.length = size :=
  (split_blocks hsize body).length_eq hmod

theorem blocks_eq_nil_iff (hsize : 0 < size) : blocks size body = [] ↔ body = [] :=
  (split_blocks hsize body).eq_nil_iff

theorem length_pieces_le (hsize : 0 < size) (hmod : body.length % size = 0)
    (h : List.Forall₂ (fun piece _ => piece.length ≤ size) pieces (blocks size body)) :
    pieces.flatten.length ≤ body.length := by
  have hlen := blocks_length_eq hsize hmod
  rw [← (split_blocks hsize body).flatten_eq]
  generalize blocks size body = bs at h hlen ⊢
  induction h with
  | nil => simp
  | cons hpiece h ih =>
      rw [List.forall_mem_cons] at hlen
      rw [List.flatten_cons, List.flatten_cons, List.length_append, List.length_append, hlen.1]
      exact Nat.add_le_add hpiece (ih hlen.2)

theorem takesDecrypted_of_pieces (hsize : 0 < size) {tail : UInt8} {r : Except Fault (Option Bytes)}
    (hmod : body.length % size = 0)
    (h : ∃ pieces, r = .ok (some pieces.flatten) ∧
      List.Forall₂ (fun piece _ => piece.length ≤ size) pieces (blocks size body)) :
    TakesDecrypted size (tail :: body) r := by
  obtain ⟨pieces, hr, hpieces⟩ := h
  refine Or.inr ⟨pieces, hr, hpieces, ?_⟩
  have hle := length_pieces_le hsize hmod hpieces
  rw [List.length_cons]
  omega

theorem not_takesDecrypted_fault {inbuf : Bytes} {f : Fault} :
    ¬ TakesDecrypted size inbuf (.error f) := by
  rintro (h | ⟨pieces, h, -⟩)
  · simp at h
  · simp at h

theorem signedChar_nonneg_iff (c : UInt8) : 0 ≤ signedChar c ↔ c.toNat ≤ 127 := by
  have hlt := c.toNat_lt
  rw [signedChar]
  split <;> omega

theorem signedChar_within_iff (c : UInt8) :
    0 ≤ signedChar c ∧ signedChar c ≤ 16 ↔ c.toNat ≤ 16 := by
  have hlt := c.toNat_lt
  rw [signedChar]
  split <;> omega

theorem signedChar_le (c : UInt8) : signedChar c ≤ 128 := by
  have hlt := c.toNat_lt
  rw [signedChar]
  split <;> omega

theorem appendPrefix_ok {buf : Bytes} {n : Int} (hmin : 0 ≤ n) (hmax : n ≤ buf.length) :
    appendPrefix buf n = .ok (buf.take n.toNat) := by
  rw [appendPrefix, if_neg (by omega), if_neg (by omega)]

theorem appendPrefix_fault (buf : Bytes) {n : Int} (h : n < 0 ∨ (buf.length : Int) < n) :
    ∃ f, appendPrefix buf n = .error f := by
  unfold appendPrefix
  split
  · exact ⟨_, rfl⟩
  · rw [if_pos (by omega)]
    exact ⟨_, rfl⟩

end Common

section AES

variable (ssl : OpenSSL) (aes : YYAES) {offsetLen : Int}

theorem aesDecryptBlocks_pieces (hmin : 0 ≤ offsetLen) (hmax : offsetLen ≤ 16) (bs : List Bytes) :
    ∃ pieces, YYAES.decryptBlocks ssl aes offsetLen bs = .ok pieces.flatten ∧
      List.Forall₂ (fun (piece : Bytes) _ => piece.length ≤ 16) pieces bs := by
  induction bs with
  | nil => exact ⟨[], rfl, .nil⟩
  | cons b rest ih =>
      have hplain := ssl.aesDecrypt_length aes.key b
      rw [YYAES.decryptBlocks]
      split
      · rename_i hlast
        rw [hlast.1, appendPrefix_ok hmin (by omega)]
        refine ⟨[(ssl.aesDecrypt aes.key b).take offsetLen.toNat], by simp, .cons ?_ .nil⟩
        rw [List.length_take]
        omega
      · obtain ⟨pieces, hpieces, hall⟩ := ih
        rw [hpieces]
        exact ⟨ssl.aesDecrypt aes.key b :: pieces, rfl, .cons (Nat.le_of_eq hplain) hall⟩

theorem aesDecryptBlocks_fault (h : offsetLen < 0 ∨ 16 < offsetLen) {bs : List Bytes}
    (hbs : bs ≠ []) : ∃ f, YYAES.decryptBlocks ssl aes offsetLen bs = .error f := by
  induction bs with
  | nil => exact absurd rfl hbs
  | cons b rest ih =>
      have hplain := ssl.aesDecrypt_length aes.key b
      have hne : offsetLen ≠ 0 := by omega
      rw [YYAES.decryptBlocks]
      split
      · exact appendPrefix_fault _ (by omega)
      · rename_i hrest
        obtain ⟨f, hf⟩ := ih fun hnil => hrest ⟨hnil, hne⟩
        rw [hf]
        exact ⟨f, rfl⟩

/-- The inputs on which `AESDecrypt` keeps to its buffer: it refuses them for their length,
there is no block to decrypt, or the leading byte is at most 16. -/
def AESWithin (inbuf : Bytes) : Prop :=
  inbuf.length % 16 ≠ 1 ∨ inbuf.length = 1 ∨ TailWithin 16 inbuf

theorem aesDecrypt_within {inbuf : Bytes} (h : AESWithin inbuf) :
    TakesDecrypted 16 inbuf (aes.aesDecrypt ssl inbuf) := by
  cases inbuf with
  | nil => exact Or.inl rfl
  | cons tail body =>
      rw [YYAES.aesDecrypt]
      split
      · exact Or.inl rfl
      · rename_i hmod
        rw [List.length_cons, YYAES.blockSize, not_not] at hmod
        apply takesDecrypted_of_pieces (by decide) (by omega)
        rcases h with hmod' | hlen | htail
        · rw [List.length_cons] at hmod'
          exact absurd hmod hmod'
        · have hnil : body = [] := by simpa using hlen
          subst hnil
          exact ⟨[], rfl, .nil⟩
        · obtain ⟨hmin, hmax⟩ := (signedChar_within_iff tail).mpr (htail tail rfl)
          obtain ⟨pieces, hpieces, hall⟩ :=
            aesDecryptBlocks_pieces ssl aes hmin hmax (blocks 16 body)
          rw [hpieces]
          exact ⟨pieces, rfl, hall⟩

theorem aesDecrypt_fault {inbuf : Bytes} (h : ¬ AESWithin inbuf) :
    ∃ f, aes.aesDecrypt ssl inbuf = .error f := by
  simp only [AESWithin, not_or, not_not] at h
  obtain ⟨hmod, hlen, htail⟩ := h
  cases inbuf with
  | nil => simp at hmod
  | cons tail body =>
      have hbody : blocks 16 body ≠ [] := by
        rw [ne_eq, blocks_eq_nil_iff (by decide)]
        rintro rfl
        exact hlen rfl
      have hoff : ¬ (0 ≤ signedChar tail ∧ signedChar tail ≤ 16) := by
        rw [signedChar_within_iff]
        simpa [TailWithin] using htail
      have houtside : signedChar tail < 0 ∨ 16 < signedChar tail := by omega
      obtain ⟨f, hf⟩ := aesDecryptBlocks_fault ssl aes houtside hbody
      refine ⟨f, ?_⟩
      rw [YYAES.aesDecrypt, if_neg (by simpa using hmod), hf]
      rfl

theorem aesDecrypt_bounded_iff (inbuf : Bytes) :
    TakesDecrypted 16 inbuf (aes.aesDecrypt ssl inbuf) ↔ AESWithin inbuf := by
  constructor
  · intro h
    by_contra hcontra
    obtain ⟨f, hf⟩ := aesDecrypt_fault ssl aes hcontra
    rw [hf] at h
    exact not_takesDecrypted_fault h
  · exact aesDecrypt_within ssl aes

theorem aesDecrypt_fault_iff (inbuf : Bytes) :
    (∃ f, aes.aesDecrypt ssl inbuf = .error f) ↔ ¬ AESWithin inbuf := by
  constructor
  · rintro ⟨f, hf⟩
    rw [← aesDecrypt_bounded_iff ssl aes, hf]
    exact not_takesDecrypted_fault
  · exact aesDecrypt_fault ssl aes

end AES

section RSA

variable {ssl : OpenSSL} {key : RSA} {offsetLen : Int} {bs : List Bytes}

def Refuses (ssl : OpenSSL) (key : RSA) (b : Bytes) : Prop := ssl.rsaPrivateDecrypt key b = none

theorem rsaDecryptBlocks_refuses {b : Bytes} {rest : List Bytes}
    (hb : ssl.rsaPrivateDecrypt key b = none) :
    YYRSA.decryptBlocks ssl key offsetLen (b :: rest) = .ok none := by
  rw [YYRSA.decryptBlocks, hb]

theorem rsaDecryptBlocks_cons {b plain : Bytes} {rest : List Bytes}
    (hb : ssl.rsaPrivateDecrypt key b = some plain) (hplain : plain.length = 128) :
    YYRSA.decryptBlocks ssl key offsetLen (b :: rest) =
      if rest = [] ∧ offsetLen ≠ 0 then (appendPrefix plain offsetLen).map some
      else (YYRSA.decryptBlocks ssl key offsetLen rest).map (Option.map (plain ++ ·)) := by
  have hroom : ¬ YYRSA.kBytes < plain.length := by simp [hplain]
  rw [YYRSA.decryptBlocks, hb]
  dsimp only
  rw [if_neg hroom]

theorem rsaDecryptBlocks_pieces (hmin : 0 ≤ offsetLen) (hmax : offsetLen ≤ 128)
    (hlen : ∀ b ∈ bs, ∀ plain, ssl.rsaPrivateDecrypt key b = some plain → plain.length = 128) :
    YYRSA.decryptBlocks ssl key offsetLen bs = .ok none ∨
      ∃ pieces, YYRSA.decryptBlocks ssl key offsetLen bs = .ok (some pieces.flatten) ∧
        List.Forall₂ (fun (piece : Bytes) _ => piece.length ≤ 128) pieces bs := by
  induction bs with
  | nil => exact Or.inr ⟨[], rfl, .nil⟩
  | cons b rest ih =>
      rw [List.forall_mem_cons] at hlen
      cases hb : ssl.rsaPrivateDecrypt key b with
      | none => exact Or.inl (rsaDecryptBlocks_refuses hb)
      | some plain =>
          have hplain := hlen.1 plain hb
          rw [rsaDecryptBlocks_cons hb hplain]
          split
          · rename_i hlast
            right
            rw [hlast.1, appendPrefix_ok hmin (by omega)]
            refine ⟨[plain.take offsetLen.toNat], by simp [Except.map], .cons ?_ .nil⟩
            rw [List.length_take]
            omega
          · rcases ih hlen.2 with hnone | ⟨pieces, hpieces, hall⟩
            · rw [hnone]
              exact Or.inl rfl
            · rw [hpieces]
              exact Or.inr ⟨plain :: pieces, rfl, .cons (Nat.le_of_eq hplain) hall⟩

theorem rsaDecryptBlocks_refused
    (hlen : ∀ b ∈ bs, ∀ plain, ssl.rsaPrivateDecrypt key b = some plain → plain.length = 128)
    (h : ∃ b ∈ bs, Refuses ssl key b) :
    YYRSA.decryptBlocks ssl key offsetLen bs = .ok none := by
  induction bs with
  | nil => simp at h
  | cons b rest ih =>
      rw [List.forall_mem_cons] at hlen
      cases hb : ssl.rsaPrivateDecrypt key b with
      | none => exact rsaDecryptBlocks_refuses hb
      | some plain =>
          have hrest : ∃ b ∈ rest, Refuses ssl key b := by
            obtain ⟨b', hb', hrefuses⟩ := h
            rcases List.mem_cons.mp hb' with rfl | hmem
            · rw [Refuses, hb] at hrefuses
              simp at hrefuses
            · exact ⟨b', hmem, hrefuses⟩
          have hne : ¬ (rest = [] ∧ offsetLen ≠ 0) := by
            rintro ⟨rfl, -⟩
            simp at hrest
          rw [rsaDecryptBlocks_cons hb (hlen.1 plain hb), if_neg hne, ih hlen.2 hrest]
          rfl

theorem rsaDecryptBlocks_fault (h : offsetLen < 0) (hbs : bs ≠ [])
    (hlen : ∀ b ∈ bs, ∀ plain, ssl.rsaPrivateDecrypt key b = some plain → plain.length = 128)
    (hall : ¬ ∃ b ∈ bs, Refuses ssl key b) :
    ∃ f, YYRSA.decryptBlocks ssl key offsetLen bs = .error f := by
  induction bs with
  | nil => exact absurd rfl hbs
  | cons b rest ih =>
      rw [List.forall_mem_cons] at hlen
      cases hb : ssl.rsaPrivateDecrypt key b with
      | none => exact absurd ⟨b, by simp, hb⟩ hall
      | some plain =>
          have hne : offsetLen ≠ 0 := by omega
          rw [rsaDecryptBlocks_cons hb (hlen.1 plain hb)]
          split
          · obtain ⟨f, hf⟩ := appendPrefix_fault plain (Or.inl h)
            rw [hf]
            exact ⟨f, rfl⟩
          · rename_i hrest
            have hrestAll : ¬ ∃ b ∈ rest, Refuses ssl key b := by
              rintro ⟨b', hb', hrefuses⟩
              exact hall ⟨b', by simp [hb'], hrefuses⟩
            obtain ⟨f, hf⟩ := ih (fun hnil => hrest ⟨hnil, hne⟩) hlen.2 hrestAll
            rw [hf]
            exact ⟨f, rfl⟩

/-- What the blocks must be like.  The first one shows whether the modulus fits `to`. -/
def RSAWithin (ssl : OpenSSL) (key : RSA) (tail : UInt8) (bs : List Bytes) : Prop :=
  (∃ b ∈ bs.head?, Refuses ssl key b) ∨
    (rsaSize key ≤ 128 ∧ ((∃ b ∈ bs, Refuses ssl key b) ∨ tail.toNat ≤ 127))

theorem rsaDecryptBlocks_iff (key : RSA) (hraw : RawDecrypt ssl) (tail : UInt8) (hbs : bs ≠ [])
    (hblocks : ∀ b ∈ bs, b.length = 128) :
    (YYRSA.decryptBlocks ssl key (signedChar tail) bs = .ok none ∨
        ∃ pieces, YYRSA.decryptBlocks ssl key (signedChar tail) bs = .ok (some pieces.flatten) ∧
          List.Forall₂ (fun (piece : Bytes) _ => piece.length ≤ 128) pieces bs) ↔
      RSAWithin ssl key tail bs := by
  obtain ⟨b, rest, rfl⟩ := List.exists_cons_of_ne_nil hbs
  cases hb : ssl.rsaPrivateDecrypt key b with
  | none =>
      exact iff_of_true (Or.inl (rsaDecryptBlocks_refuses hb)) (Or.inl ⟨b, rfl, hb⟩)
  | some plain =>
      have hfirst : ¬ ∃ b' ∈ (b :: rest).head?, Refuses ssl key b' := by
        rintro ⟨b', hb', hrefuses⟩
        rw [List.head?_cons, Option.mem_def, Option.some.injEq] at hb'
        rw [← hb', Refuses, hb] at hrefuses
        simp at hrefuses
      have hle := hraw.le key b plain hb
      have hplain := hraw.length key b plain hb
      rw [hblocks b (by simp)] at hle
      by_cases hsize : rsaSize key ≤ 128
      · have hlen : ∀ b' ∈ b :: rest, ∀ plain, ssl.rsaPrivateDecrypt key b' = some plain →
            plain.length = 128 := by
          intro b' _ plain' hb'
          rw [hraw.length key b' plain' hb']
          omega
        rw [RSAWithin, ← signedChar_nonneg_iff]
        constructor
        · intro h
          refine Or.inr ⟨hsize, ?_⟩
          by_contra hcontra
          rw [not_or] at hcontra
          have hnegative : signedChar tail < 0 := by omega
          obtain ⟨f, hf⟩ := rsaDecryptBlocks_fault hnegative hbs hlen hcontra.1
          rw [hf] at h
          simp at h
        · rintro (hrefused | ⟨-, hrefused | htail⟩)
          · exact absurd hrefused hfirst
          · exact Or.inl (rsaDecryptBlocks_refused hlen hrefused)
          · exact rsaDecryptBlocks_pieces htail (signedChar_le tail) hlen
      · have hroom : YYRSA.kBytes < plain.length := by
          rw [YYRSA.kBytes]
          omega
        refine iff_of_false ?_ ?_
        · rw [YYRSA.decryptBlocks, hb]
          dsimp only
          rw [if_pos hroom]
          simp
        · rintro (hrefused | ⟨hsize', -⟩)
          · exact hfirst hrefused
          · exact hsize hsize'

theorem takesDecrypted_blocks_iff (key : RSA) (hraw : RawDecrypt ssl) (tail : UInt8) {body : Bytes}
    (hbody : body.length % 128 = 0) (hnil : body ≠ []) :
    TakesDecrypted 128 (tail :: body)
        (YYRSA.decryptBlocks ssl key (signedChar tail) (blocks 128 body)) ↔
      RSAWithin ssl key tail (blocks 128 body) := by
  have hne : blocks 128 body ≠ [] := mt (blocks_eq_nil_iff (by decide)).mp hnil
  have hblocks : ∀ b ∈ blocks 128 body, b.length = 128 := blocks_length_eq (by decide) hbody
  rw [← rsaDecryptBlocks_iff key hraw tail hne hblocks]
  constructor
  · rintro (hnone | ⟨pieces, hpieces, hall, -⟩)
    · exact Or.inl hnone
    · exact Or.inr ⟨pieces, hpieces, hall⟩
  · rintro (hnone | hpieces)
    · exact Or.inl hnone
    · exact takesDecrypted_of_pieces (by decide) hbody hpieces

/-- The bytes of the input that an `int` can count. -/
def counted (inbuf : Bytes) : Bytes := inbuf.take (YYRSA.inbufsize inbuf).toNat

theorem counted_eq {inbuf : Bytes} (h : inbuf.length < 2 ^ 31) :
    YYRSA.inbufsize inbuf = inbuf.length ∧ counted inbuf = inbuf := by
  have hsize : YYRSA.inbufsize inbuf = inbuf.length := intWord_eq (by omega)
  refine ⟨hsize, ?_⟩
  rw [counted, hsize, Int.toNat_natCast, List.take_length]

theorem inbufsize_le (inbuf : Bytes) : YYRSA.inbufsize inbuf ≤ inbuf.length := by
  rw [YYRSA.inbufsize, intWord, Int.bmod]
  omega

theorem counted_cons {tail : UInt8} {rest : Bytes} (h : 0 < YYRSA.inbufsize (tail :: rest)) :
    counted (tail :: rest) =
      tail :: rest.take ((YYRSA.inbufsize (tail :: rest)).toNat - 1) := by
  obtain ⟨n, hn⟩ := Nat.exists_eq_add_of_lt (show 0 < (YYRSA.inbufsize (tail :: rest)).toNat by omega)
  rw [counted, hn, Nat.zero_add, Nat.add_sub_cancel, List.take_succ_cons]

/-- The same for `RSAPrivateDecrypt`: the size is refused, there is no block, or under
the key there is, no block comes out longer than `to`, and unless one is refused the
leading byte is not negative. -/
theorem rsaPrivateDecrypt_bounded_iff (hraw : RawDecrypt ssl) (rsa : YYRSA) (inbuf : Bytes) :
    TakesDecrypted 128 (counted inbuf) (rsa.rsaPrivateDecrypt ssl inbuf) ↔
      (YYRSA.inbufsize inbuf).tmod YYRSA.kBytes ≠ 1 ∨ YYRSA.inbufsize inbuf = 1 ∨
        ∀ key tail, rsa.privateKey = some key → inbuf.head? = some tail →
          RSAWithin ssl key tail (blocks 128 (counted inbuf).tail) := by
  cases hkey : rsa.privateKey with
  | none =>
      have hrefused : rsa.rsaPrivateDecrypt ssl inbuf = .ok none := by
        unfold YYRSA.rsaPrivateDecrypt
        rw [hkey]
      exact iff_of_true (Or.inl hrefused) (Or.inr (Or.inr fun key tail hsome => nomatch hsome))
  | some key =>
      cases inbuf with
      | nil =>
          have hrefused : rsa.rsaPrivateDecrypt ssl [] = .ok none := by
            unfold YYRSA.rsaPrivateDecrypt
            rw [hkey]
          exact iff_of_true (Or.inl hrefused) (Or.inl (by decide))
      | cons tail rest =>
          unfold YYRSA.rsaPrivateDecrypt
          rw [hkey]
          dsimp only
          split
          · rename_i hmod
            exact iff_of_true (Or.inl rfl) (Or.inl hmod)
          · rename_i hmod
            obtain ⟨hpositive, hone⟩ := YYRSA.tmod_eq_one_iff.mp (not_not.mp hmod)
            have hle := inbufsize_le (tail :: rest)
            have hlength : (rest.take ((YYRSA.inbufsize (tail :: rest)).toNat - 1)).length =
                (YYRSA.inbufsize (tail :: rest)).toNat - 1 := by
              rw [List.length_cons] at hle
              rw [List.length_take]
              omega
            rw [counted_cons hpositive]
            generalize rest.take ((YYRSA.inbufsize (tail :: rest)).toNat - 1) = body at hlength ⊢
            have hbody : body.length % 128 = 0 := by omega
            by_cases hnil : body = []
            · subst hnil
              rw [List.length_nil] at hlength
              refine iff_of_true ?_ (Or.inr (Or.inl (by omega)))
              exact takesDecrypted_of_pieces (by decide) rfl ⟨[], rfl, .nil⟩
            · have hpos := List.length_pos_iff.mpr hnil
              rw [takesDecrypted_blocks_iff key hraw tail hbody hnil]
              refine ⟨fun h => Or.inr (Or.inr ?_), ?_⟩
              · intro key' tail' hkey' htail'
                rw [List.head?_cons, Option.some.injEq] at htail'
                rw [Option.some.injEq] at hkey'
                rwa [← hkey', ← htail', List.tail_cons]
              · rintro (hrefused | hlen | hwithin)
                · exact absurd (YYRSA.tmod_eq_one_iff.mpr ⟨hpositive, hone⟩) hrefused
                · omega
                · have hblocks := hwithin key tail rfl rfl
                  rwa [List.tail_cons] at hblocks

end RSA

/-- Both, for every input, every AES key and every pair of RSA keys. -/
theorem decrypt_bounded_iff (ssl : OpenSSL) (hraw : RawDecrypt ssl) (aes : YYAES) (rsa : YYRSA)
    (inbuf : Bytes) :
    (TakesDecrypted 16 inbuf (aes.aesDecrypt ssl inbuf) ↔ AESWithin inbuf) ∧
      (TakesDecrypted 128 (counted inbuf) (rsa.rsaPrivateDecrypt ssl inbuf) ↔
        (YYRSA.inbufsize inbuf).tmod YYRSA.kBytes ≠ 1 ∨ YYRSA.inbufsize inbuf = 1 ∨
          ∀ key tail, rsa.privateKey = some key → inbuf.head? = some tail →
            RSAWithin ssl key tail (blocks 128 (counted inbuf).tail)) :=
  ⟨aesDecrypt_bounded_iff ssl aes inbuf, rsaPrivateDecrypt_bounded_iff hraw rsa inbuf⟩

section Sample

/-- RSA without padding under the exponent 1, on blocks as long as the modulus. -/
def rawSample (key : RSA) (block : Bytes) : Option Bytes :=
  if block.length = rsaSize key then unitExponent key block else none

def rawSSL : OpenSSL := { sampleSSL with rsaPrivateDecrypt := rawSample }

theorem rawDecrypt_sample : RawDecrypt rawSSL := by
  have hsome : ∀ key b plain, rawSample key b = some plain →
      b.length = rsaSize key ∧ b = plain := by
    intro key b plain h
    simp only [rawSample, unitExponent, Option.ite_none_right_eq_some, Option.some.injEq] at h
    exact ⟨h.1, h.2.2⟩
  constructor
  · intro key b plain h
    exact Nat.le_of_eq (hsome key b plain h).1
  · intro key b plain h
    obtain ⟨hlen, rfl⟩ := hsome key b plain h
    exact hlen

theorem decrypt_bounded_sample :
    TakesDecrypted 16 (16 :: samplePlain)
        ((YYAES.aesSetKey sampleKey).aesDecrypt rawSSL (16 :: samplePlain)) ∧
      TakesDecrypted 128 (127 :: List.replicate 128 1)
        ((⟨none, some sampleRSA⟩ : YYRSA).rsaPrivateDecrypt rawSSL (127 :: List.replicate 128 1)) := by
  constructor
  · exact (decrypt_bounded_iff rawSSL rawDecrypt_sample (.aesSetKey sampleKey) ⟨none, none⟩
      (16 :: samplePlain)).1.mpr (Or.inr (Or.inr (by simp [TailWithin])))
  · have hshort : (127 :: List.replicate 128 (1 : UInt8)).length < 2 ^ 31 := by simp
    have hiff := (decrypt_bounded_iff rawSSL rawDecrypt_sample (.aesSetKey sampleKey)
      ⟨none, some sampleRSA⟩ (127 :: List.replicate 128 1)).2
    rw [(counted_eq hshort).2] at hiff
    refine hiff.mpr (Or.inr (Or.inr ?_))
    intro key tail hkey htail
    rw [Option.some.injEq] at hkey
    rw [List.head?_cons, Option.some.injEq] at htail
    rw [← hkey, ← htail]
    exact Or.inr ⟨by decide +kernel, Or.inr (by decide)⟩

/-- A leading byte of 17 makes `AESDecrypt` read behind the block it has decrypted, and
one of 128 asks either function for a negative number of bytes. -/
theorem decrypt_unbounded :
    (YYAES.aesSetKey sampleKey).aesDecrypt rawSSL (17 :: samplePlain) = .error .outOfBounds ∧
      (YYAES.aesSetKey sampleKey).aesDecrypt rawSSL (128 :: samplePlain) = .error .lengthError ∧
      (⟨none, some sampleRSA⟩ : YYRSA).rsaPrivateDecrypt rawSSL (128 :: List.replicate 128 1) =
        .error .lengthError := by
  refine ⟨by decide +kernel, by decide +kernel, by decide +kernel⟩

end Sample

end MmsSvr
