import MmsSvr.Bytes

/-!
Base64 text as OpenSSL documents it for `EVP_Encode*`: four characters for every
started group of three bytes, and a newline after every started line of 64
characters.
-/

namespace MmsSvr.Base64

/-- The character of a six-bit value. -/
def sixBit (n : Nat) : UInt8 :=
  if n < 26 then UInt8.ofNat (65 + n)
  else if n < 52 then UInt8.ofNat (71 + n)
  else if n < 62 then UInt8.ofNat (n - 4)
  else if n = 62 then 43 else 47

/-- The six-bit value of a character; padding and foreign bytes count as zero. -/
def sixValue (c : UInt8) : Nat :=
  if 65 ≤ c ∧ c ≤ 90 then c.toNat - 65
  else if 97 ≤ c ∧ c ≤ 122 then c.toNat - 71
  else if 48 ≤ c ∧ c ≤ 57 then c.toNat + 4
  else if c = 43 then 62
  else if c = 47 then 63 else 0

def pad : UInt8 := 61

/-- What `EVP_EncodeBlock` writes. -/
def encodeBlock : Bytes → Bytes
  | [] => []
  | [a] => [sixBit (a.toNat / 4), sixBit (a.toNat % 4 * 16), pad, pad]
  | [a, b] =>
      [sixBit (a.toNat / 4), sixBit (a.toNat % 4 * 16 + b.toNat / 16),
        sixBit (b.toNat % 16 * 4), pad]
  | a :: b :: c :: rest =>
      sixBit (a.toNat / 4) :: sixBit (a.toNat % 4 * 16 + b.toNat / 16) ::
        sixBit (b.toNat % 16 * 4 + c.toNat / 64) :: sixBit (c.toNat % 64) ::
        encodeBlock rest

/-- A newline after every 64 characters and after the last, shorter line. -/
def breakLines (col : Nat) : Bytes → Bytes
  | [] => if col = 0 then [] else [10]
  | c :: cs => if col = 63 then c :: 10 :: breakLines 0 cs else c :: breakLines (col + 1) cs

/-- What `EVP_EncodeUpdate` and `EVP_EncodeFinal` write. -/
def encode (b : Bytes) : Bytes := breakLines 0 (encodeBlock b)

/-- `EVP_DecodeBlock` on text without line breaks. -/
def decodeBlock : Bytes → Bytes
  | x :: y :: z :: w :: rest =>
      let a := UInt8.ofNat (sixValue x * 4 + sixValue y / 16)
      let b := UInt8.ofNat (sixValue y % 16 * 16 + sixValue z / 4)
      let c := UInt8.ofNat (sixValue z % 4 * 64 + sixValue w)
      if z = pad then [a]
      else if w = pad then [a, b]
      else a :: b :: c :: decodeBlock rest
  | _ => []

def decode (text : Bytes) : Bytes := decodeBlock (text.filter (· ≠ 10))

theorem sixValue_sixBit {n : Nat} (hn : n < 64) : sixValue (sixBit n) = n := by
  interval_cases n <;> rfl

theorem sixBit_ne_pad (n : Nat) : sixBit n ≠ pad := by
  by_cases hn : n < 64
  · interval_cases n <;> decide
  · have h62 : n ≠ 62 := by omega
    simp [sixBit, h62, show ¬ n < 26 by omega, show ¬ n < 52 by omega, show ¬ n < 62 by omega,
      pad]

def IsText (c : UInt8) : Prop := (∃ n < 64, c = sixBit n) ∨ c = pad ∨ c = 10

theorem isText_sixBit {n : Nat} (hn : n < 64) : IsText (sixBit n) := Or.inl ⟨n, hn, rfl⟩

theorem isText_ne {c : UInt8} (hc : IsText c) : c ≠ 0 ∧ c ≠ 34 ∧ c ≠ 92 ∧ c ≠ 39 := by
  rcases hc with ⟨n, hn, rfl⟩ | rfl | rfl
  · interval_cases n <;> decide
  · decide
  · decide

theorem encodeBlock_isText (b : Bytes) : ∀ c ∈ encodeBlock b, IsText c ∧ c ≠ 10 := by
  have hsix : ∀ n, n < 64 → IsText (sixBit n) ∧ sixBit n ≠ 10 := by
    intro n hn
    refine ⟨isText_sixBit hn, ?_⟩
    interval_cases n <;> decide
  have hpad : IsText pad ∧ pad ≠ 10 := ⟨Or.inr (Or.inl rfl), by decide⟩
  have hlt : ∀ a : UInt8, a.toNat < 256 := fun a => a.toNat_lt
  induction b using encodeBlock.induct with
  | case1 => simp [encodeBlock]
  | case2 a =>
      have ha := hlt a
      simp only [encodeBlock, List.forall_mem_cons, List.not_mem_nil, false_imp_iff,
        implies_true, and_true]
      exact ⟨hsix _ (by omega), hsix _ (by omega), hpad, hpad⟩
  | case3 a b =>
      have ha := hlt a
      have hb := hlt b
      simp only [encodeBlock, List.forall_mem_cons, List.not_mem_nil, false_imp_iff,
        implies_true, and_true]
      exact ⟨hsix _ (by omega), hsix _ (by omega), hsix _ (by omega), hpad⟩
  | case4 a b c rest ih =>
      have ha := hlt a
      have hb := hlt b
      have hc := hlt c
      simp only [encodeBlock, List.forall_mem_cons]
      exact ⟨hsix _ (by omega), hsix _ (by omega), hsix _ (by omega), hsix _ (by omega), ih⟩

theorem mem_breakLines {col : Nat} {text : Bytes} {c : UInt8}
    (hc : c ∈ breakLines col text) : c ∈ text ∨ c = 10 := by
  induction text generalizing col with
  | nil =>
      simp only [breakLines] at hc
      split at hc <;> simp_all
  | cons d text ih =>
      simp only [breakLines] at hc
      split at hc
      · simp only [List.mem_cons] at hc ⊢
        rcases hc with h | h | h
        · exact Or.inl (Or.inl h)
        · exact Or.inr h
        · exact (ih h).imp_left Or.inr
      · simp only [List.mem_cons] at hc ⊢
        rcases hc with h | h
        · exact Or.inl (Or.inl h)
        · exact (ih h).imp_left Or.inr

theorem encode_isText (b : Bytes) : ∀ c ∈ encode b, IsText c := by
  intro c hc
  rcases mem_breakLines hc with h | rfl
  · exact (encodeBlock_isText b c h).1
  · exact Or.inr (Or.inr rfl)

theorem filter_breakLines (col : Nat) (text : Bytes) (htext : (10 : UInt8) ∉ text) :
    (breakLines col text).filter (· ≠ 10) = text := by
  induction text generalizing col with
  | nil =>
      simp only [breakLines]
      split <;> rfl
  | cons c text ih =>
      rw [List.mem_cons, not_or] at htext
      have hc : c ≠ 10 := Ne.symm htext.1
      have hrest := fun col => ih col htext.2
      simp only [breakLines]
      split
      · rw [List.filter_cons_of_pos (by simp [hc]), List.filter_cons_of_neg (by simp), hrest]
      · rw [List.filter_cons_of_pos (by simp [hc]), hrest]

theorem decodeBlock_encodeBlock (b : Bytes) : decodeBlock (encodeBlock b) = b := by
  have hlt : ∀ a : UInt8, a.toNat < 256 := fun a => a.toNat_lt
  have hbyte : ∀ (n : Nat) (a : UInt8), n = a.toNat → UInt8.ofNat n = a := by
    rintro n a rfl
    exact UInt8.ofNat_toNat
  induction b using encodeBlock.induct with
  | case1 => rfl
  | case2 a =>
      have ha := hlt a
      simp only [encodeBlock, decodeBlock, if_true]
      rw [sixValue_sixBit (by omega), sixValue_sixBit (by omega)]
      rw [hbyte _ a (by omega)]
  | case3 a b =>
      have ha := hlt a
      have hb := hlt b
      simp only [encodeBlock, decodeBlock, sixBit_ne_pad, if_true, if_false]
      rw [sixValue_sixBit (by omega), sixValue_sixBit (by omega), sixValue_sixBit (by omega)]
      rw [hbyte _ a (by omega), hbyte _ b (by omega)]
  | case4 a b c rest ih =>
      have ha := hlt a
      have hb := hlt b
      have hc := hlt c
      simp only [encodeBlock, decodeBlock, sixBit_ne_pad, if_false]
      rw [sixValue_sixBit (by omega), sixValue_sixBit (by omega), sixValue_sixBit (by omega),
        sixValue_sixBit (by omega), ih]
      rw [hbyte _ a (by omega), hbyte _ b (by omega), hbyte _ c (by omega)]

theorem decode_encode (b : Bytes) : decode (encode b) = b := by
  have hnewline : (10 : UInt8) ∉ encodeBlock b := fun h => (encodeBlock_isText b 10 h).2 rfl
  rw [decode, encode, filter_breakLines 0 _ hnewline, decodeBlock_encodeBlock]

theorem length_encodeBlock (b : Bytes) :
    (encodeBlock b).length = 4 * ((b.length + 2) / 3) := by
  induction b using encodeBlock.induct with
  | case1 => rfl
  | case2 a => simp [encodeBlock]
  | case3 a b => simp [encodeBlock]
  | case4 a b c rest ih =>
      simp only [encodeBlock, List.length_cons, ih]
      omega

theorem length_breakLines (col : Nat) (hcol : col < 64) (text : Bytes) :
    (breakLines col text).length + col / 64 = text.length + (col + text.length + 63) / 64 := by
  induction text generalizing col with
  | nil =>
      simp only [breakLines]
      split
      · simp_all
      · simp only [List.length_cons, List.length_nil]
        omega
  | cons c text ih =>
      simp only [breakLines]
      split
      · have hrest := ih 0 (by omega)
        simp only [List.length_cons]
        omega
      · have hrest := ih (col + 1) (by omega)
        simp only [List.length_cons]
        omega

theorem length_encode (b : Bytes) :
    (encode b).length =
      4 * ((b.length + 2) / 3) + (4 * ((b.length + 2) / 3) + 63) / 64 := by
  have hbreak := length_breakLines 0 (by omega) (encodeBlock b)
  rw [length_encodeBlock] at hbreak
  rw [encode]
  omega

theorem encodeBlock_append (a b : Bytes) (ha : a.length % 3 = 0) :
    encodeBlock (a ++ b) = encodeBlock a ++ encodeBlock b := by
  induction a using encodeBlock.induct with
  | case1 => rfl
  | case2 c => cases ha
  | case3 c d => cases ha
  | case4 c d e rest ih =>
      have hrest : rest.length % 3 = 0 := by
        simp only [List.length_cons] at ha
        omega
      rw [List.cons_append, List.cons_append, List.cons_append, encodeBlock, encodeBlock, ih hrest]
      rfl

theorem breakLines_append (col : Nat) (hcol : col < 64) (text rest : Bytes)
    (hend : (col + text.length) % 64 = 0) :
    breakLines col (text ++ rest) = breakLines col text ++ breakLines 0 rest := by
  induction text generalizing col with
  | nil =>
      have hzero : col = 0 := by
        simp only [List.length_nil] at hend
        omega
      subst hzero
      rfl
  | cons c text ih =>
      simp only [List.length_cons] at hend
      simp only [List.cons_append, breakLines]
      split
      · rw [ih 0 (by omega) (by omega)]
        rfl
      · rw [ih (col + 1) (by omega) (by omega)]
        rfl

theorem encode_append (a b : Bytes) (ha : a.length % 48 = 0) :
    encode (a ++ b) = encode a ++ encode b := by
  have hline : (0 + (encodeBlock a).length) % 64 = 0 := by
    rw [length_encodeBlock]
    omega
  rw [encode, encode, encode, encodeBlock_append a b (by omega),
    breakLines_append 0 (by omega) _ _ hline]

end MmsSvr.Base64
