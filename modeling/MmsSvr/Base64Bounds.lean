import MmsSvr.Lib.Memory
import MmsSvr.Ssl

/-!
`YYBase64`: the strings whose memory `base64encode` and `base64decode` hand to OpenSSL.
-/

namespace MmsSvr

open Lib

/-- What `EVP_EncodeUpdate` and `EVP_EncodeFinal` write for some input: the lines of the complete
groups of 48 bytes, and the last line. -/
structure Encoder where
  update : Bytes → Bytes
  final : Bytes → Bytes
  update_eq : ∀ input, update input = Base64.encode (input.take (input.length / 48 * 48))
  final_eq : ∀ input, final input = Base64.encode (input.drop (input.length / 48 * 48))

/-- What `EVP_DecodeUpdate` and `EVP_DecodeFinal` write for a text, and the lengths that they
report: no more than three bytes for every four characters. -/
structure Decoder where
  update : Bytes → Bytes
  updateLen : Bytes → Nat
  final : Bytes → Bytes
  finalLen : Bytes → Nat
  update_le : ∀ text, (update text).length ≤ 3 * (text.length / 4)
  updateLen_le : ∀ text, updateLen text ≤ (update text).length
  final_le : ∀ text, updateLen text + (final text).length ≤ 3 * (text.length / 4)
  finalLen_le : ∀ text, finalLen text ≤ (final text).length

def Decoder.output (dec : Decoder) (text : Bytes) : Bytes :=
  (dec.update text).take (dec.updateLen text) ++ (dec.final text).take (dec.finalLen text)

theorem Decoder.length_output (dec : Decoder) (text : Bytes) :
    (dec.output text).length = dec.updateLen text + dec.finalLen text := by
  have hupdate := dec.updateLen_le text
  have hfinal := dec.finalLen_le text
  rw [Decoder.output, List.length_append, List.length_take, List.length_take]
  omega

namespace YYBase64

/-- `outbuf.resize`, whose argument becomes a `size_t`. -/
def resize (outbuf : Bytes) (n : Int) : Except Fault Bytes :=
  if n < 0 then .error .lengthError
  else .ok (outbuf.take n.toNat ++ List.replicate (n.toNat - outbuf.length) 0)

/-- A write through `outbuf.data()`. -/
def write (outbuf : Bytes) (i : Nat) (data : Bytes) : Except Fault Bytes :=
  match store outbuf i data with
  | some outbuf => .ok outbuf
  | none => .error .outOfBounds

/-- A NUL may also be written where the string keeps its own. -/
def writeNul (outbuf : Bytes) (i : Nat) : Except Fault Bytes :=
  if i = outbuf.length then .ok outbuf else write outbuf i [0]

/-- Base64 text goes to `i` with a NUL behind it, when there is any. -/
def writeText (outbuf : Bytes) (i : Nat) (text : Bytes) : Except Fault (Bytes × Nat) :=
  if text = [] then .ok (outbuf, 0)
  else do
    let outbuf ← write outbuf i text
    let outbuf ← writeNul outbuf (i + text.length)
    .ok (outbuf, text.length)

def encodeUpdate (enc : Encoder) (outbuf input : Bytes) : Except Fault (Bytes × Nat) :=
  writeText outbuf 0 (enc.update input)

def encodeFinal (enc : Encoder) (outbuf : Bytes) (len : Nat) (input : Bytes) :
    Except Fault (Bytes × Nat) :=
  writeText outbuf len (enc.final input)

def erase (outbuf : Bytes) (n : Nat) : Bytes :=
  if n < outbuf.length then outbuf.take n else outbuf

/-- The bytes that an `inl` of type `int` stands for. -/
def input (inbuf : Bytes) : Bytes := inbuf.take (intWord 32 inbuf.length).toNat

/-- `pemLen`, computed from `inbuf.size()`. -/
def pemLen (n : Nat) : Int :=
  let base64Len := intWord 32 ((n + 2) / 3 * 4 + 1 : Nat)
  intWord 32 (base64Len + base64Len.tdiv 64)

def base64encode (enc : Encoder) (inbuf outbuf : Bytes) : Except Fault Bytes := do
  let outbuf ← resize outbuf (pemLen inbuf.length)
  let (outbuf, len) ← encodeUpdate enc outbuf (input inbuf)
  let (outbuf, len2) ← encodeFinal enc outbuf len (input inbuf)
  .ok (erase outbuf (len + len2))

/-- `orgLen`, computed from `inbuf.size()`. -/
def orgLen (m : Nat) : Int := intWord 32 ((m + 2) / 4 * 3 + 1 : Nat)

def base64decode (dec : Decoder) (inbuf outbuf : Bytes) : Except Fault Bytes := do
  let outbuf ← resize outbuf (orgLen inbuf.length)
  let len := dec.updateLen (input inbuf)
  let outbuf ← write outbuf 0 (dec.update (input inbuf))
  let len2 := dec.finalLen (input inbuf)
  let outbuf ← write outbuf len (dec.final (input inbuf))
  .ok (erase outbuf (len + len2))

/-- What `pemLen` comes to where it fits an `int`. -/
def pemSize (n : Nat) : Nat := (n + 2) / 3 * 4 + 1 + ((n + 2) / 3 * 4 + 1) / 64

/-- What `orgLen` comes to where it fits an `int`. -/
def orgSize (m : Nat) : Nat := (m + 2) / 4 * 3 + 1

/-- Four characters for every started group of three bytes, and a newline for every started
group of 48. -/
def produced (n : Nat) : Nat := 4 * ((n + 2) / 3) + (n + 47) / 48

theorem produced_le_pemSize (n : Nat) : produced n ≤ pemSize n := by
  rw [produced, pemSize]
  omega

theorem decoded_le_orgSize (m : Nat) : 3 * (m / 4) ≤ orgSize m := by
  rw [orgSize]
  omega

theorem length_encode (inbuf : Bytes) : (Base64.encode inbuf).length = produced inbuf.length := by
  rw [Base64.length_encode, produced]
  omega

theorem resize_eq (outbuf : Bytes) (n : Nat) :
    ∃ block, resize outbuf n = .ok block ∧ block.length = n := by
  refine ⟨_, if_neg (by omega), ?_⟩
  rw [List.length_append, List.length_take, List.length_replicate]
  omega

theorem input_eq {inbuf : Bytes} (h : inbuf.length < 0x80000000) : input inbuf = inbuf := by
  rw [input, intWord_eq (by omega), Int.toNat_natCast, List.take_length]

theorem write_eq {outbuf data : Bytes} {i : Nat} (h : i + data.length ≤ outbuf.length) :
    ∃ block, write outbuf i data = .ok block ∧ block.length = outbuf.length ∧
      block.take (i + data.length) = outbuf.take i ++ data := by
  have hstore := store_eq h
  refine ⟨_, ?_, length_store hstore, take_store hstore⟩
  rw [write, hstore]

theorem writeNul_eq {outbuf : Bytes} {i : Nat} (h : i ≤ outbuf.length) :
    ∃ block, writeNul outbuf i = .ok block ∧ block.length = outbuf.length ∧
      block.take i = outbuf.take i := by
  rw [writeNul]
  split
  · exact ⟨outbuf, rfl, rfl, rfl⟩
  · have hroom : i + [(0 : UInt8)].length ≤ outbuf.length := by
      rw [List.length_singleton]
      omega
    obtain ⟨block, hwrite, hlength, htake⟩ := write_eq hroom
    refine ⟨block, hwrite, hlength, ?_⟩
    have hmin : min i (i + [(0 : UInt8)].length) = i := by omega
    calc block.take i = (block.take (i + [(0 : UInt8)].length)).take i := by
          rw [List.take_take, hmin]
      _ = (outbuf.take i ++ [0]).take i := by rw [htake]
      _ = outbuf.take i := List.take_left' (List.length_take_of_le h)

theorem writeText_eq {outbuf text : Bytes} {i : Nat} (h : i + text.length ≤ outbuf.length) :
    ∃ block, writeText outbuf i text = .ok (block, text.length) ∧
      block.length = outbuf.length ∧ block.take (i + text.length) = outbuf.take i ++ text := by
  rw [writeText]
  split
  · rename_i hnil
    rw [hnil, List.append_nil]
    exact ⟨outbuf, rfl, rfl, rfl⟩
  · obtain ⟨block, hwrite, hlength, htake⟩ := write_eq h
    obtain ⟨block', hnul, hlength', htake'⟩ :=
      writeNul_eq (show i + text.length ≤ block.length by omega)
    refine ⟨block', ?_, hlength'.trans hlength, htake'.trans htake⟩
    simp only [hwrite, hnul, bind, Except.bind]

theorem erase_eq {outbuf : Bytes} {n : Nat} (h : n ≤ outbuf.length) :
    erase outbuf n = outbuf.take n := by
  rw [erase]
  split
  · rfl
  · rw [List.take_of_length_le (by omega)]

theorem pemLen_eq {n : Nat} (hfits : pemSize n < 0x80000000) : pemLen n = pemSize n := by
  rw [pemSize] at hfits
  have hlen : intWord 32 ((n + 2) / 3 * 4 + 1 : Nat) = ((n + 2) / 3 * 4 + 1 : Nat) :=
    intWord_eq (by omega)
  have hsum : (((n + 2) / 3 * 4 + 1 : Nat) : Int) +
      (((n + 2) / 3 * 4 + 1 : Nat) : Int).tdiv 64 = pemSize n := by
    rw [Int.tdiv_eq_ediv_of_nonneg (by omega), pemSize]
    omega
  rw [pemLen, hlen, hsum]
  apply intWord_eq
  rw [pemSize]
  omega

theorem orgLen_eq {m : Nat} (hfits : orgSize m < 0x80000000) : orgLen m = orgSize m := by
  rw [orgSize] at hfits
  exact intWord_eq (by omega)

theorem bind_of_ok {ε α β : Type} {x : Except ε α} {a : α} (h : x = .ok a) (f : α → Except ε β) :
    x >>= f = f a := by
  rw [h]
  rfl

theorem base64encode_eq (enc : Encoder) (inbuf outbuf : Bytes)
    (hfits : pemSize inbuf.length < 0x80000000) :
    base64encode enc inbuf outbuf = .ok (Base64.encode inbuf) := by
  have hle := produced_le_pemSize inbuf.length
  have hinput : input inbuf = inbuf := by
    apply input_eq
    rw [pemSize] at hfits
    omega
  obtain ⟨cut, hcut⟩ : ∃ cut, cut = inbuf.length / 48 * 48 := ⟨_, rfl⟩
  have htext : Base64.encode (inbuf.take cut) ++ Base64.encode (inbuf.drop cut) =
      Base64.encode inbuf := by
    rw [← Base64.encode_append, List.take_append_drop]
    rw [List.length_take]
    omega
  have hproduced := congrArg List.length htext
  rw [List.length_append, length_encode inbuf] at hproduced
  obtain ⟨block, hresize, hlength⟩ := resize_eq outbuf (pemSize inbuf.length)
  obtain ⟨block₁, hupdate, hlength₁, htake₁⟩ :=
    writeText_eq (show 0 + (Base64.encode (inbuf.take cut)).length ≤ block.length by omega)
  obtain ⟨block₂, hfinal, hlength₂, htake₂⟩ := writeText_eq
    (show (Base64.encode (inbuf.take cut)).length + (Base64.encode (inbuf.drop cut)).length ≤
      block₁.length by omega)
  rw [Nat.zero_add, List.take_zero, List.nil_append] at htake₁
  rw [htake₁, htext] at htake₂
  rw [base64encode, pemLen_eq hfits, bind_of_ok hresize, hinput, encodeUpdate, enc.update_eq,
    ← hcut, bind_of_ok hupdate]
  dsimp only
  rw [encodeFinal, enc.final_eq, ← hcut, bind_of_ok hfinal]
  dsimp only
  rw [erase_eq (by omega), htake₂]

theorem base64decode_eq (dec : Decoder) (inbuf outbuf : Bytes)
    (hfits : orgSize inbuf.length < 0x80000000) :
    base64decode dec inbuf outbuf = .ok (dec.output (input inbuf)) := by
  have hroom : 3 * ((input inbuf).length / 4) ≤ orgSize inbuf.length := by
    have hle : (input inbuf).length ≤ inbuf.length := List.length_take_le' ..
    have hdecoded := decoded_le_orgSize inbuf.length
    omega
  obtain ⟨block, hresize, hlength⟩ := resize_eq outbuf (orgSize inbuf.length)
  generalize htext : input inbuf = text at hroom
  have hupdate := dec.update_le text
  have hupdateLen := dec.updateLen_le text
  have hfinal := dec.final_le text
  have hfinalLen := dec.finalLen_le text
  obtain ⟨block₁, hwrite₁, hlength₁, htake₁⟩ :=
    write_eq (show 0 + (dec.update text).length ≤ block.length by omega)
  obtain ⟨block₂, hwrite₂, hlength₂, htake₂⟩ :=
    write_eq (show dec.updateLen text + (dec.final text).length ≤ block₁.length by omega)
  rw [Nat.zero_add, List.take_zero, List.nil_append] at htake₁
  rw [base64decode, orgLen_eq hfits, bind_of_ok hresize, htext, bind_of_ok hwrite₁,
    bind_of_ok hwrite₂, erase_eq (by omega), Except.ok.injEq]
  have hkept : block₁.take (dec.updateLen text) =
      (dec.update text).take (dec.updateLen text) := by
    rw [← htake₁, List.take_take, Nat.min_eq_left hupdateLen]
  have hbehind : (block₁.take (dec.updateLen text)).length = dec.updateLen text :=
    List.length_take_of_le (by omega)
  calc block₂.take (dec.updateLen text + dec.finalLen text)
      = (block₂.take (dec.updateLen text + (dec.final text).length)).take
          (dec.updateLen text + dec.finalLen text) := by
        rw [List.take_take, Nat.min_eq_left (by omega)]
    _ = (block₁.take (dec.updateLen text) ++ dec.final text).take
          ((block₁.take (dec.updateLen text)).length + dec.finalLen text) := by
        rw [htake₂, hbehind]
    _ = dec.output text := by
        rw [List.take_length_add_append, hkept, Decoder.output]

/-- OpenSSL stays inside the buffers, its NUL included, and what remains of them is exactly what
it has produced. -/
theorem buffers_suffice (enc : Encoder) (dec : Decoder) (inbuf outbuf : Bytes) :
    (pemSize inbuf.length < 0x80000000 →
      produced inbuf.length ≤ pemLen inbuf.length ∧
        base64encode enc inbuf outbuf = .ok (Base64.encode inbuf) ∧
        (Base64.encode inbuf).length = produced inbuf.length) ∧
      3 * (inbuf.length / 4) ≤ orgSize inbuf.length ∧
      (orgSize inbuf.length < 0x80000000 →
        orgLen inbuf.length = orgSize inbuf.length ∧
          base64decode dec inbuf outbuf = .ok (dec.output (input inbuf)) ∧
          (dec.output (input inbuf)).length =
            dec.updateLen (input inbuf) + dec.finalLen (input inbuf)) := by
  refine ⟨?_, decoded_le_orgSize inbuf.length, ?_⟩
  · intro hfits
    refine ⟨?_, base64encode_eq enc inbuf outbuf hfits, length_encode inbuf⟩
    rw [pemLen_eq hfits]
    exact Int.ofNat_le.mpr (produced_le_pemSize inbuf.length)
  · intro hfits
    exact ⟨orgLen_eq hfits, base64decode_eq dec inbuf outbuf hfits, dec.length_output _⟩

def plainEncoder : Encoder where
  update input := Base64.encode (input.take (input.length / 48 * 48))
  final input := Base64.encode (input.drop (input.length / 48 * 48))
  update_eq _ := rfl
  final_eq _ := rfl

/-- A decoder that reports all that it writes. -/
def plainDecoder : Decoder where
  update text := (Base64.decode text).take (3 * (text.length / 4))
  updateLen text := ((Base64.decode text).take (3 * (text.length / 4))).length
  final _ := []
  finalLen _ := 0
  update_le _ := List.length_take_le ..
  updateLen_le _ := le_rfl
  final_le _ := List.length_take_le ..
  finalLen_le _ := le_rfl

theorem buffers_sample :
    base64encode plainEncoder [77, 97] [1, 2, 3] = .ok [84, 87, 69, 61, 10] ∧
      base64decode plainDecoder [84, 87, 69, 61, 10] [] = .ok [77, 97] := by
  have hencode := (buffers_suffice plainEncoder plainDecoder [77, 97] [1, 2, 3]).1 (by decide)
  have hdecode :=
    (buffers_suffice plainEncoder plainDecoder [84, 87, 69, 61, 10] []).2.2 (by decide)
  have hoctets : Base64.encode [77, 97] = [84, 87, 69, 61, 10] := by decide
  have houtput : plainDecoder.output (input [84, 87, 69, 61, 10]) = [77, 97] := by
    decide +kernel
  rw [hoctets] at hencode
  rw [houtput] at hdecode
  exact ⟨hencode.2.1, hdecode.2.1⟩

section Refines

variable {inbuf outbuf out : Bytes}

theorem base64encode_refines (ssl : OpenSSL) (enc : Encoder)
    (hfits : pemSize inbuf.length < 0x80000000)
    (h : base64encode enc inbuf outbuf = .ok out) : YYSSL.base64encode ssl inbuf = some out := by
  rw [base64encode_eq enc inbuf outbuf hfits, Except.ok.injEq] at h
  rw [YYSSL.base64encode_eq, h]

theorem base64decode_refines {ssl : OpenSSL} {dec : Decoder}
    (hdec : ssl.evpDecode inbuf = dec.output inbuf) (hfits : inbuf.length < 0x80000000)
    (h : base64decode dec inbuf outbuf = .ok out) : YYSSL.base64decode ssl inbuf = some out := by
  have hsize : orgSize inbuf.length < 0x80000000 := by
    rw [orgSize]
    omega
  have hroom : (dec.output inbuf).length ≤ orgSize inbuf.length := by
    have hfinal := dec.final_le inbuf
    have hfinalLen := dec.finalLen_le inbuf
    have hdecoded := decoded_le_orgSize inbuf.length
    rw [dec.length_output]
    omega
  rw [base64decode_eq dec inbuf outbuf hsize, input_eq hfits, Except.ok.injEq] at h
  rw [orgSize] at hroom
  rw [YYSSL.base64decode, hdec, ← h, List.take_of_length_le hroom]

end Refines

end YYBase64

end MmsSvr
