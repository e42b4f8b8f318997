import MmsSvr.ReadBack

/-!
Frames on a byte stream: the 16-bit length field, and how repeated `ParseCmd` cuts
a stream that `FormatCmd` produced.
-/

namespace MmsSvr

open JsonC YYmmsJson

/-- The lengths a `WORD` can hold without changing them. -/
def wordBound : Platform → Nat
  | .linux => 2 ^ 15
  | .win32 => 2 ^ 16

/-- The length field of a frame, as `ParseCmd` reads it. -/
def lengthField (platform : Platform) : Bytes → Option Int
  | _ :: lo :: hi :: _ => some (readWord platform lo hi)
  | _ => none

theorem readWord_wordBytes (platform : Platform) (n : Nat) :
    readWord platform (UInt8.ofNat n) (UInt8.ofNat (n / 256)) = n ↔
      n < wordBound platform := by
  have hword : (UInt8.ofNat n).toNat + 256 * (UInt8.ofNat (n / 256)).toNat = n % 2 ^ 16 := by
    rw [UInt8.toNat_ofNat', UInt8.toNat_ofNat']
    omega
  cases platform with
  | linux =>
      simp only [readWord, hword, wordBound]
      split <;> omega
  | win32 =>
      simp only [readWord, hword, wordBound]
      omega

section ParseCmd

variable {env : Env}

theorem parseBody_offset {jsize offset : Nat} {js : Bytes} {jcmd : YYJ}
    (h : parseBody env jsize js = .success offset jcmd) (n : Nat) :
    offset = jsize ∧ parseBody env n js = .success n jcmd := by
  unfold parseBody decodeRoot at h ⊢
  split at h
  · exact nomatch h
  · dsimp only at h ⊢
    split_ifs at h with hroot hmembers
    rw [if_neg hroot, if_neg hmembers]
    split at h
    · exact nomatch h
    · split at h
      · exact nomatch h
      · exact nomatch h
      · rw [ParseResult.success.injEq] at h
        rw [h.2]
        exact ⟨h.1.symm, rfl⟩

theorem parseCmd_success {cmd : Bytes} {offset : Nat} {jcmd : YYJ}
    (h : parseCmd env cmd = .success offset jcmd) :
    ∃ lo hi buf, cmd = preChar :: lo :: hi :: buf ∧ readWord env.platform lo hi = offset ∧
      3 ≤ offset ∧ offset ≤ cmd.length ∧
      parseBody env offset (buf.take (offset - 3)) = .success offset jcmd := by
  unfold parseCmd at h
  split at h
  · rename_i esc lo hi buf
    dsimp only at h
    split_ifs at h with hesc hsize hshort
    have hoff := (parseBody_offset h 0).1
    rw [← hoff] at h
    refine ⟨lo, hi, buf, ?_, ?_, ?_, ?_, h⟩
    · rw [not_not.mp hesc]
    · omega
    · omega
    · omega
  · exact nomatch h

theorem parseCmd_of_body {lo hi : UInt8} {buf : Bytes} {offset : Nat} {jcmd : YYJ}
    (hword : readWord env.platform lo hi = offset) (hmin : 3 ≤ offset)
    (hmax : offset ≤ buf.length + 3)
    (hbody : parseBody env offset (buf.take (offset - 3)) = .success offset jcmd) :
    parseCmd env (preChar :: lo :: hi :: buf) = .success offset jcmd := by
  have hnat : (readWord env.platform lo hi).toNat = offset := by omega
  simp only [parseCmd, ne_eq, not_true_eq_false, if_false, List.length_cons]
  rw [if_neg (by omega), if_neg (by omega), hnat]
  exact hbody

theorem parseCmd_append {cmd : Bytes} {offset : Nat} {jcmd : YYJ}
    (h : parseCmd env cmd = .success offset jcmd) (rest : Bytes) :
    parseCmd env (cmd ++ rest) = .success offset jcmd := by
  obtain ⟨lo, hi, buf, rfl, hword, hmin, hmax, hbody⟩ := parseCmd_success h
  have hlen : offset ≤ buf.length + 3 := by simpa using hmax
  change parseCmd env (preChar :: lo :: hi :: (buf ++ rest)) = _
  refine parseCmd_of_body hword hmin ?_ ?_
  · rw [List.length_append]
    omega
  · rw [List.take_append_of_le_length (by omega)]
    exact hbody

theorem parseCmd_offset_le {cmd : Bytes} {offset : Nat} {jcmd : YYJ}
    (h : parseCmd env cmd = .success offset jcmd) : 3 ≤ offset ∧ offset ≤ cmd.length := by
  obtain ⟨lo, hi, buf, _, _, hmin, hmax, _⟩ := parseCmd_success h
  exact ⟨hmin, hmax⟩

end ParseCmd

section FormatCmd

def jsonText (c : YYJ) : Bytes := cmdText c (JsonC.Tokener.printObject c.members)

theorem formatCmd_eq (ssl : OpenSSL) (c : YYJ) :
    formatCmd ssl c = some (preChar :: wordBytes ((jsonText c).length + 3) ++ jsonText c) := by
  rw [formatCmd, serialize_eq]
  rfl

theorem length_url_lt (channelID subChannelID : UInt32) (url : Bytes) :
    url.length < (jsonText (.openUrl ⟨channelID, subChannelID, url⟩)).length := by
  simp [jsonText, cmdText, Tokener.printObject, Tokener.printMembers, Tokener.Member.print,
    YYJ.members, YYJ.fields, fieldMember, FieldValue.print]
  omega

/-- `ParseCmd` makes a command of the text, whatever frame it comes in. -/
def Decodes (env : Env) (c : YYJ) : Prop :=
  ∃ jcmd, parseBody env 0 (jsonText c) = .success 0 jcmd

theorem YYJ.Plain.decodes (env : Env) {c : YYJ} (hc : c.Plain) : Decodes env c :=
  ⟨_, parseBody_cmdText env 0 hc⟩

variable {ssl : OpenSSL} {c : YYJ} {f : Bytes}

theorem length_frame (hf : formatCmd ssl c = some f) : f.length = (jsonText c).length + 3 := by
  rw [formatCmd_eq, Option.some.injEq] at hf
  simp [← hf, wordBytes]

theorem lengthField_frame (platform : Platform) (hf : formatCmd ssl c = some f) :
    lengthField platform f = some (f.length : Int) ↔ f.length < wordBound platform := by
  rw [length_frame hf, ← readWord_wordBytes]
  rw [formatCmd_eq, Option.some.injEq] at hf
  subst hf
  simp [lengthField, wordBytes]

theorem parseCmd_frame_eq (env : Env) (hf : formatCmd ssl c = some f)
    (hbound : f.length < wordBound env.platform) (rest : Bytes) :
    parseCmd env (f ++ rest) = parseBody env f.length (jsonText c) := by
  have hlen := length_frame hf
  have hword := (readWord_wordBytes env.platform f.length).mpr hbound
  rw [formatCmd_eq, Option.some.injEq] at hf
  have hcut : f ++ rest = preChar :: UInt8.ofNat f.length :: UInt8.ofNat (f.length / 256) ::
      (jsonText c ++ rest) := by
    rw [hlen, ← hf]
    simp [wordBytes]
  have htake : (jsonText c ++ rest).take (f.length - 3) = jsonText c := by
    rw [hlen, Nat.add_sub_cancel, List.take_left]
  rw [hcut]
  simp only [parseCmd, ne_eq, not_true_eq_false, if_false, hword, Int.toNat_natCast]
  rw [if_neg, if_neg, htake]
  · omega
  · simp only [List.length_cons, List.length_append]
    omega

theorem parseCmd_frame_iff (env : Env) (hf : formatCmd ssl c = some f) (rest : Bytes) :
    (∃ jcmd, parseCmd env (f ++ rest) = .success f.length jcmd) ↔
      Decodes env c ∧ f.length < wordBound env.platform := by
  have hlen := length_frame hf
  have hf' := hf
  rw [formatCmd_eq, Option.some.injEq] at hf'
  have hcut : f ++ rest = preChar :: UInt8.ofNat f.length :: UInt8.ofNat (f.length / 256) ::
      (jsonText c ++ rest) := by
    rw [hlen, ← hf']
    simp [wordBytes]
  constructor
  · rintro ⟨jcmd, h⟩
    rw [hcut] at h
    have htake : (jsonText c ++ rest).take (f.length - 3) = jsonText c := by
      rw [hlen, Nat.add_sub_cancel, List.take_left]
    obtain ⟨lo, hi, buf, heq, hword, _, _, hbody⟩ := parseCmd_success h
    simp only [List.cons.injEq, true_and] at heq
    obtain ⟨hlo, hhi, hbuf⟩ := heq
    rw [← hbuf, htake] at hbody
    rw [← hlo, ← hhi] at hword
    exact ⟨⟨jcmd, (parseBody_offset hbody 0).2⟩, (readWord_wordBytes _ _).mp hword⟩
  · rintro ⟨⟨jcmd, hbody⟩, hbound⟩
    refine ⟨jcmd, ?_⟩
    rw [parseCmd_frame_eq env hf hbound]
    exact (parseBody_offset hbody f.length).2

theorem parseCmd_logout (env : Env) {yyID : UInt32}
    (hf : formatCmd ssl (.logout ⟨yyID⟩) = some f) :
    parseCmd env f = .success f.length (.logout ⟨clip yyID⟩) := by
  have hdecimal : (YYJson.tosInt yyID.toNat).length ≤ 10 := by
    have hlt := yyID.toNat_lt
    rw [← tosUnsigned_eq]
    exact length_decimal_le (k := 9) (by omega)
  have htext : (jsonText (.logout ⟨yyID⟩)).length ≤ 60 := by
    simp [jsonText, cmdText, Tokener.printObject, Tokener.printMembers, Tokener.Member.print,
      YYJ.members, YYJ.fields, fieldMember, FieldValue.print]
    have hcmd : (YYJson.toCmdInt "cmd" (YYJ.logout ⟨yyID⟩).id).length = 10 := by
      change (YYJson.toCmdInt "cmd" 1015).length = 10
      decide +kernel
    have hlits : (lit "\x7b").length = 1 ∧ (lit ",\"obj\":").length = 7 ∧
        (lit "yyID").length = 4 ∧ (lit "\x7d").length = 1 := by decide +kernel
    omega
  have hbound : f.length < wordBound env.platform := by
    have hlen := length_frame hf
    cases env.platform <;> simp only [wordBound] <;> omega
  have hplain : (YYJ.logout ⟨yyID⟩).Plain := by
    simp [YYJ.Plain, YYJ.texts, YYJ.fields, FieldValue.texts]
  have hparse := parseCmd_frame_eq env hf hbound []
  rw [List.append_nil] at hparse
  rw [hparse, jsonText, parseBody_cmdText env _ hplain]
  rfl

end FormatCmd

/-- Repeated `ParseCmd`, advancing by the offset: the pieces a stream is cut into. -/
def cutStream (env : Env) : Nat → Bytes → Option (List Bytes)
  | _, [] => some []
  | 0, _ :: _ => none
  | fuel + 1, b =>
      match parseCmd env b with
      | .success offset _ => (cutStream env fuel (b.drop offset)).map (b.take offset :: ·)
      | _ => none

theorem cutStream_cons_iff (env : Env) {c : YYJ} {f : Bytes} (hf : formatCmd ssl c = some f)
    (fuel : Nat) (rest : Bytes) (frames : List Bytes) :
    cutStream env (fuel + 1) (f ++ rest) = some (f :: frames) ↔
      (Decodes env c ∧ f.length < wordBound env.platform) ∧
        cutStream env fuel rest = some frames := by
  have hlen := length_frame hf
  obtain ⟨x, xs, hx⟩ : ∃ x xs, f ++ rest = x :: xs := by
    cases f with
    | nil => simp at hlen
    | cons x xs => exact ⟨x, xs ++ rest, rfl⟩
  rw [← parseCmd_frame_iff env hf rest]
  have hdef : cutStream env (fuel + 1) (f ++ rest) =
      match parseCmd env (f ++ rest) with
      | .success offset _ =>
          (cutStream env fuel ((f ++ rest).drop offset)).map ((f ++ rest).take offset :: ·)
      | _ => none := by
    rw [hx]
    rfl
  rw [hdef]
  constructor
  · intro h
    split at h
    · rename_i offset jcmd hparse
      obtain ⟨tail, htail, heq⟩ := Option.map_eq_some_iff.mp h
      obtain ⟨hhead, rfl⟩ := List.cons.inj heq
      have hoff : offset = f.length := by
        have hle := (parseCmd_offset_le hparse).2
        rw [← hhead, List.length_take, Nat.min_eq_left hle]
      rw [hoff, List.drop_left] at htail
      rw [hoff] at hparse
      exact ⟨⟨jcmd, hparse⟩, htail⟩
    · exact nomatch h
  · rintro ⟨⟨jcmd, hparse⟩, hrest⟩
    rw [hparse]
    simp [hrest]

/-- The length field of every frame reads back as the length of the frame exactly
when no frame outgrows a `WORD`; and then, as long as their texts decode at all (each with
an `errno` that is not ERANGE), the stream is cut at the boundaries of its frames. -/
theorem formatCmd_stream_iff (env : Env) (cmds : List YYJ) (frames : List Bytes)
    (h : cmds.mapM (formatCmd env.ssl) = some frames) :
    ((∀ f ∈ frames, lengthField env.platform f = some (f.length : Int)) ↔
        ∀ f ∈ frames, f.length < wordBound env.platform) ∧
      (cutStream env frames.length frames.flatten = some frames ↔
        (∀ c ∈ cmds, Decodes env c) ∧ ∀ f ∈ frames, f.length < wordBound env.platform) := by
  induction cmds generalizing frames with
  | nil =>
      obtain rfl : frames = [] := by simpa using h.symm
      simp [cutStream]
  | cons c cmds ih =>
      simp only [List.mapM_cons, Option.bind_eq_bind, Option.pure_def,
        Option.bind_eq_some_iff, Option.some.injEq] at h
      obtain ⟨f, hf, rest, hrest, rfl⟩ := h
      obtain ⟨hfields, hcut⟩ := ih rest hrest
      constructor
      · simp only [List.forall_mem_cons, lengthField_frame env.platform hf, hfields]
      · rw [List.length_cons, List.flatten_cons, cutStream_cons_iff env hf, hcut]
        simp only [List.forall_mem_cons]
        tauto

theorem formatCmd_stream_logout_exit :
    ∃ frames, [YYJ.logout ⟨7⟩, .mmsExit ⟨7⟩].mapM (formatCmd (default : Env).ssl) =
        some frames ∧
      cutStream default frames.length frames.flatten = some frames := by
  refine ⟨[_, _], by simp only [List.mapM_cons, formatCmd_eq]; rfl, ?_⟩
  refine (formatCmd_stream_iff default [.logout ⟨7⟩, .mmsExit ⟨7⟩] _
    (by simp only [List.mapM_cons, formatCmd_eq]; rfl)).2.mpr ⟨?_, by decide +kernel⟩
  intro c hc
  refine YYJ.Plain.decodes default ?_
  revert c
  decide +kernel

/-- A URL of 32768 bytes: on Linux the length field of its frame is negative, and
`ParseCmd` does not get past it. -/
theorem formatCmd_stream_long_url :
    ∃ c f, c = YYJ.openUrl ⟨1, 2, List.replicate 32768 97⟩ ∧
      formatCmd (default : Env).ssl c = some f ∧
      lengthField .linux f ≠ some (f.length : Int) ∧
      cutStream default [f].length [f].flatten ≠ some [f] := by
  have hurl := length_url_lt 1 2 (List.replicate 32768 97)
  have hf := formatCmd_eq (default : Env).ssl (.openUrl ⟨1, 2, List.replicate 32768 97⟩)
  have hlen := length_frame hf
  rw [List.length_replicate] at hurl
  refine ⟨_, _, rfl, hf, ?_, ?_⟩
  · intro h
    have hshort := (lengthField_frame .linux hf).mp h
    simp only [wordBound] at hshort
    omega
  · intro h
    rw [List.flatten_singleton] at h
    have hcut := (cutStream_cons_iff default hf 0 [] []).mp (by rw [List.append_nil]; exact h)
    have hshort : _ < wordBound .linux := hcut.1.2
    simp only [wordBound] at hshort
    omega

end MmsSvr
