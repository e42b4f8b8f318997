import MmsSvr.DecryptBounds
import MmsSvr.JsonTurn
import MmsSvr.Malformed

/-!
AES envelopes inside each other, opened by the `NextRun` label of `JsonProcess`.
-/

namespace MmsSvr

open JsonC YYmmsJson YYSSL
open Lib

/-- `k` successful `UnFormat` steps lead from one command to another. -/
inductive Unwraps (env : Env) (aes : YYAES) : Nat → YYJ → YYJ → Prop where
  | refl (c : YYJ) : Unwraps env aes 0 c c
  | step {k : Nat} {e : YYJsonComp} {c d : YYJ} (hopen : e.unFormatAES env aes = .ok (some d))
      (hrest : Unwraps env aes k d c) : Unwraps env aes (k + 1) (.compAES e) c

def NotAES (c : YYJ) : Prop := ∀ e, c ≠ .compAES e

/-- What the label makes of a command. -/
inductive Opened (env : Env) (aes : YYAES) (jobj : YYJ) : Except Fault (Option YYJ) → Prop where
  | command (k : Nat) (c : YYJ) (hunwraps : Unwraps env aes k jobj c) (haes : NotAES c) :
      Opened env aes jobj (.ok (some c))
  | closed (k : Nat) (e : YYJsonComp) (hunwraps : Unwraps env aes k jobj (.compAES e))
      (hclosed : e.unFormatAES env aes = .ok none) : Opened env aes jobj (.ok none)
  | thrown (k : Nat) (e : YYJsonComp) (f : Fault) (hunwraps : Unwraps env aes k jobj (.compAES e))
      (hthrown : e.unFormatAES env aes = .error f) : Opened env aes jobj (.error f)

section Opened

variable {env : Env} {aes : YYAES} {jobj c d : YYJ} {e : YYJsonComp}
  {r r' : Except Fault (Option YYJ)}

theorem Opened.of_step (hopen : e.unFormatAES env aes = .ok (some d)) (h : Opened env aes d r) :
    Opened env aes (.compAES e) r := by
  cases h with
  | command k c hunwraps haes => exact .command (k + 1) c (.step hopen hunwraps) haes
  | closed k e' hunwraps hclosed => exact .closed (k + 1) e' (.step hopen hunwraps) hclosed
  | thrown k e' f hunwraps hthrown => exact .thrown (k + 1) e' f (.step hopen hunwraps) hthrown

theorem nextRun_of_notAES (haes : NotAES c) (fuel : Nat) :
    nextRun env aes (fuel + 1) c = some (.ok (some c)) := by
  cases c with
  | compAES e => exact absurd rfl (haes e)
  | _ => rfl

theorem opened_of_nextRun {fuel : Nat} (h : nextRun env aes fuel jobj = some r) :
    Opened env aes jobj r := by
  induction fuel generalizing jobj with
  | zero => simp [nextRun] at h
  | succ fuel ih =>
      by_cases haes : NotAES jobj
      · rw [nextRun_of_notAES haes, Option.some.injEq] at h
        rw [← h]
        exact .command 0 jobj (.refl jobj) haes
      · simp only [NotAES, ne_eq, not_forall, not_not] at haes
        obtain ⟨e, rfl⟩ := haes
        rw [nextRun] at h
        split at h
        · rename_i f hthrown
          rw [Option.some.injEq] at h
          rw [← h]
          exact .thrown 0 e f (.refl _) hthrown
        · rename_i hclosed
          rw [Option.some.injEq] at h
          rw [← h]
          exact .closed 0 e (.refl _) hclosed
        · rename_i realobj hopen
          exact (ih h).of_step hopen

theorem nextRun_of_unwraps {k fuel : Nat} (h : Unwraps env aes k jobj c)
    (hlast : nextRun env aes fuel c = some r) : nextRun env aes (fuel + k) jobj = some r := by
  induction h with
  | refl c => exact hlast
  | step hopen hrest ih =>
      rw [← Nat.add_assoc, nextRun, hopen]
      exact ih hlast

theorem exists_nextRun (h : Opened env aes jobj r) :
    ∃ fuel, nextRun env aes fuel jobj = some r := by
  cases h with
  | command k c hunwraps haes =>
      exact ⟨1 + k, nextRun_of_unwraps hunwraps (nextRun_of_notAES haes 0)⟩
  | closed k e hunwraps hclosed =>
      refine ⟨1 + k, nextRun_of_unwraps hunwraps ?_⟩
      rw [nextRun, hclosed]
  | thrown k e f hunwraps hthrown =>
      refine ⟨1 + k, nextRun_of_unwraps hunwraps ?_⟩
      rw [nextRun, hthrown]

theorem Opened.unique (h : Opened env aes jobj r) (h' : Opened env aes jobj r') : r = r' := by
  obtain ⟨fuel, hfuel⟩ := exists_nextRun h
  obtain ⟨fuel', hfuel'⟩ := exists_nextRun h'
  exact nextRun_unique hfuel hfuel'

theorem Opened.not_unwrapped {f : Fault} (h : Opened env aes jobj (.error f)) :
    ¬ ∃ k c, Unwraps env aes k jobj c ∧ NotAES c := by
  rintro ⟨k, c, hc, haes⟩
  have heq := h.unique (.command k c hc haes)
  simp at heq

theorem exists_opened (env : Env) (aes : YYAES) (jobj : YYJ) : ∃ r, Opened env aes jobj r := by
  obtain ⟨r, hr⟩ := Option.ne_none_iff_exists'.mp
    (nextRun_ne_none env aes (Nat.lt_succ_self (envelopeBound jobj)))
  exact ⟨r, opened_of_nextRun hr⟩

end Opened

section Throws

/-- The inner buffer of an envelope keeps to what `ParseCmd` can take. -/
def CanParse (platform : Platform) (cmd : Bytes) : Prop :=
  ∀ jsize, header platform cmd = .slice jsize →
    3 ≤ jsize ∧ ∀ root, Tokener.parse (frameText jsize cmd) = .ok root → WellTyped root

/-- The envelope keeps to what `AESDecrypt` and `ParseCmd` can take: its leading byte is at
most a block, and what is in it is no frame with a length field below three or an ill-typed
text. -/
def Benign (env : Env) (aes : YYAES) (e : YYJsonComp) : Prop :=
  ∀ out, e.serString ≠ [] → base64decode env.ssl e.serString = some out →
    AESWithin out ∧
      ∀ decryStr, aes.aesDecrypt env.ssl out = .ok (some decryStr) →
        CanParse env.platform decryStr

variable {env : Env} {aes : YYAES} {e : YYJsonComp}

theorem parseCmd_fault_iff (env : Env) (cmd : Bytes) :
    (∃ f, parseCmd env cmd = .fault f) ↔ ¬ CanParse env.platform cmd := by
  rw [CanParse, ← parseCmd_inside_iff]
  constructor
  · rintro ⟨f, hf⟩ ⟨-, hreturns⟩
    exact hreturns f hf
  · intro h
    by_contra hreturns
    simp only [not_exists] at hreturns
    refine h ⟨?_, hreturns⟩
    cases hheader : header env.platform cmd with
    | slice jsize =>
        rw [staysInside_of_slice hheader]
        by_contra hshort
        refine hreturns .lengthError ?_
        rw [parseCmd_eq, hheader]
        dsimp only
        rw [if_pos (by omega)]
    | bufsize => exact staysInside_of_ne (by simp [hheader])
    | esc => exact staysInside_of_ne (by simp [hheader])

theorem unFormatAES_fault_iff :
    (∃ f, e.unFormatAES env aes = .error f) ↔ ¬ Benign env aes e := by
  unfold YYJsonComp.unFormatAES
  by_cases hempty : e.serString = []
  · rw [if_pos hempty]
    refine iff_of_false (by simp) ?_
    rw [not_not]
    intro out hne
    exact absurd hempty hne
  · rw [if_neg hempty]
    cases hout : base64decode env.ssl e.serString with
    | none =>
        refine iff_of_false (by simp) ?_
        rw [not_not]
        intro out _ hout'
        rw [hout] at hout'
        simp at hout'
    | some out =>
        have hbenign : Benign env aes e ↔ AESWithin out ∧
            ∀ decryStr, aes.aesDecrypt env.ssl out = .ok (some decryStr) →
              CanParse env.platform decryStr := by
          constructor
          · intro h
            exact h out hempty hout
          · intro h out' _ hout'
            rw [hout, Option.some.injEq] at hout'
            rw [← hout']
            exact h
        rw [hbenign]
        dsimp only
        cases hdecrypt : aes.aesDecrypt env.ssl out with
        | error f =>
            have hwithin := (aesDecrypt_fault_iff env.ssl aes out).mp ⟨f, hdecrypt⟩
            exact iff_of_true ⟨f, rfl⟩ fun h => hwithin h.1
        | ok r =>
            have hwithin : AESWithin out := by
              by_contra hcontra
              obtain ⟨f, hf⟩ := aesDecrypt_fault env.ssl aes hcontra
              rw [hdecrypt] at hf
              simp at hf
            cases r with
            | none => exact iff_of_false (by simp) (not_not.mpr ⟨hwithin, by simp⟩)
            | some decryStr =>
                have hinner := parseCmd_fault_iff env decryStr
                simp only [hwithin, true_and, Except.ok.injEq, Option.some.injEq, forall_eq']
                rw [← hinner]
                cases parseCmd env decryStr <;> simp

end Throws

section Dispatch

variable {env : ServerEnv} {fd : Fd} {srv : Server} {p : Ptr} {buf : Bytes} {offset : Nat}
  {jobj : YYJ} {e : YYJsonComp}

theorem jsonTurn_of_opened (fd : Fd) (hparse : parseCmd env.toEnv buf = .success offset jobj)
    (hlogin : NotLogin jobj) {r : Except Fault (Option YYJ)}
    (h : Opened env.toEnv (srv.heap p).aes jobj r) :
    jsonTurn env fd srv ⟨some p, buf⟩ =
      some ((r.bind fun cmd => cmd.elim (.ok []) (dispatch env fd p (srv.heap p))).map
        fun effects => ⟨srv, effects, ⟨some p, buf.drop offset⟩⟩) := by
  obtain ⟨fuel, hfuel⟩ := exists_nextRun h
  rw [jsonTurn_success hparse hlogin]
  simp only [commandTurn, nextRun_of_frame hparse hfuel]
  cases r with
  | error f => rfl
  | ok cmd => cases cmd <;> rfl

/-- Neither LOGIN nor an envelope. -/
def Ordinary (c : YYJ) : Prop := NotLogin c ∧ NotAES c ∧ ∀ e, c ≠ .compRSA e

theorem dispatch_ordinary (env : ServerEnv) (fd : Fd) (p : Ptr) (state : ItemData) {c : YYJ}
    (h : ∀ e, c ≠ .compRSA e) :
    ∃ effects, dispatch env fd p state c = .ok effects := by
  cases c with
  | compRSA e => exact absurd rfl (h e)
  | _ => exact ⟨_, rfl⟩

/-- The frame of `offset` bytes at the front of `buf`, with the envelope `e`, is handled as
a plain frame of what is in it; and if some layer does not unwrap, it is taken from the
buffer and nothing else is done. -/
structure AgreesWithPlain (env : ServerEnv) (fd : Fd) (srv : Server) (p : Ptr) (buf : Bytes)
    (offset : Nat) (e : YYJsonComp) : Prop where
  unwrapped : ∀ k c plain size, 1 ≤ k → Unwraps env.toEnv (srv.heap p).aes k (.compAES e) c →
    Ordinary c → parseCmd env.toEnv plain = .success size c →
    ∃ effects,
      jsonTurn env fd srv ⟨some p, buf⟩ =
        some (.ok ⟨srv, effects, ⟨some p, buf.drop offset⟩⟩) ∧
      jsonTurn env fd srv ⟨some p, plain⟩ =
        some (.ok ⟨srv, effects, ⟨some p, plain.drop size⟩⟩)
  failed : (¬ ∃ k c, Unwraps env.toEnv (srv.heap p).aes k (.compAES e) c ∧ NotAES c) →
    jsonTurn env fd srv ⟨some p, buf⟩ = some (.ok ⟨srv, [], ⟨some p, buf.drop offset⟩⟩)

theorem notLogin_compAES (e : YYJsonComp) : NotLogin (.compAES e) := fun login h => by simp at h

/-- Encrypted and plain dispatch agree exactly when no layer that is reached makes
`UnFormat` throw. -/
theorem enveloped_dispatch_iff (env : ServerEnv) (fd : Fd) (srv : Server) (p : Ptr)
    (buf : Bytes) (offset : Nat) (e : YYJsonComp)
    (hparse : parseCmd env.toEnv buf = .success offset (.compAES e)) :
    AgreesWithPlain env fd srv p buf offset e ↔
      ∀ k d, Unwraps env.toEnv (srv.heap p).aes k (.compAES e) (.compAES d) →
        Benign env.toEnv (srv.heap p).aes d := by
  constructor
  · intro h k d hunwraps
    by_contra hbenign
    obtain ⟨f, hf⟩ := unFormatAES_fault_iff.mpr hbenign
    have hthrown := Opened.thrown k d f hunwraps hf
    have hturn := jsonTurn_of_opened fd hparse (notLogin_compAES e) hthrown
    have hfailed := h.failed hthrown.not_unwrapped
    rw [hturn] at hfailed
    simp [Except.bind, Except.map] at hfailed
  · intro h
    constructor
    · intro k c plain size hk hunwraps hc hplain
      obtain ⟨effects, heffects⟩ := dispatch_ordinary env fd p (srv.heap p) hc.2.2
      refine ⟨effects, ?_, ?_⟩
      · rw [jsonTurn_of_opened fd hparse (notLogin_compAES e) (.command k c hunwraps hc.2.1)]
        simp only [Except.bind, Option.elim_some, heffects, Except.map]
      · rw [jsonTurn_of_opened fd hplain hc.1 (.command 0 c (.refl c) hc.2.1)]
        simp only [Except.bind, Option.elim_some, heffects, Except.map]
    · intro hnone
      obtain ⟨r, hr⟩ := exists_opened env.toEnv (srv.heap p).aes (.compAES e)
      rw [jsonTurn_of_opened fd hparse (notLogin_compAES e) hr]
      cases hr with
      | command k c hunwraps haes => exact absurd ⟨k, c, hunwraps, haes⟩ hnone
      | closed => rfl
      | thrown k d f hunwraps hthrown =>
          exact absurd (h k d hunwraps) (unFormatAES_fault_iff.mp ⟨f, hthrown⟩)

end Dispatch

section Sample

/-- The blocks of user 1's LOGOUT frame under the sample key. -/
def logoutCipher : List Bytes :=
  [[0xb2, 0xe1, 0x7b, 0xec, 0x2c, 0xfe, 0x62, 0x43, 0x29, 0x4e, 0xc2, 0x4f, 0x98, 0xfa, 0x4e, 0xa1],
    [0xea, 0x5d, 0x9e, 0xb3, 0x24, 0xa2, 0x44, 0xa4, 0xdd, 0xee, 0x2e, 0xf5, 0x7d, 0x96, 0x7e, 0xba]]

def openSample (block : Bytes) : Bytes :=
  if [block] = logoutCipher.take 1 then (frame (.logout ⟨1⟩)).take 16
  else if [block] = logoutCipher.drop 1 then (frame (.logout ⟨1⟩)).drop 16
  else swapSample block

theorem length_openSample (block : Bytes) : (openSample block).length = 16 := by
  unfold openSample
  split
  · decide +kernel
  · split
    · decide +kernel
    · exact length_swapSample block

def wrapEnv : ServerEnv :=
  { (default : ServerEnv) with
    ssl := { sampleSSL with
      aesDecrypt := fun _ => openSample
      aesDecrypt_length := fun _ => length_openSample } }

def wrapServer : Server :=
  { Server.init with heap := fun _ => { ItemData.init with aes := .aesSetKey sampleKey } }

/-- The LOGOUT in an envelope, with a leading byte of the sender's choice. -/
def wrappedLogout (tail : UInt8) : YYJsonComp :=
  ⟨0, Base64.encode (tail :: logoutCipher.flatten)⟩

theorem enveloped_logout :
    Unwraps wrapEnv.toEnv (wrapServer.heap 0).aes 1 (.compAES (wrappedLogout 0)) (.logout ⟨1⟩) ∧
      AgreesWithPlain wrapEnv 5 wrapServer 0 (frame (.compAES (wrappedLogout 0)))
        (frame (.compAES (wrappedLogout 0))).length (wrappedLogout 0) := by
  have hopen : (wrappedLogout 0).unFormatAES wrapEnv.toEnv (.aesSetKey sampleKey) =
      .ok (some (.logout ⟨1⟩)) := by decide +kernel
  refine ⟨.step hopen (.refl _), ?_⟩
  refine (enveloped_dispatch_iff wrapEnv 5 wrapServer 0 _ _ _ (by decide +kernel)).mpr ?_
  intro k d hunwraps
  cases hunwraps with
  | refl =>
      by_contra hbenign
      obtain ⟨f, hf⟩ := unFormatAES_fault_iff.mpr hbenign
      have heq := hopen.symm.trans hf
      simp at heq
  | step hopen' hrest =>
      have heq := hopen.symm.trans hopen'
      rw [Except.ok.injEq, Option.some.injEq] at heq
      rw [← heq] at hrest
      cases hrest

/-- With a leading byte of 128 the same envelope is accepted, and ends the server. -/
theorem enveloped_logout_throws :
    parseCmd wrapEnv.toEnv (frame (.compAES (wrappedLogout 128))) =
        .success (frame (.compAES (wrappedLogout 128))).length (.compAES (wrappedLogout 128)) ∧
      jsonTurn wrapEnv 5 wrapServer ⟨some 0, frame (.compAES (wrappedLogout 128))⟩ =
        some (.error .lengthError) ∧
      ¬ AgreesWithPlain wrapEnv 5 wrapServer 0 (frame (.compAES (wrappedLogout 128)))
        (frame (.compAES (wrappedLogout 128))).length (wrappedLogout 128) := by
  have hparse : parseCmd wrapEnv.toEnv (frame (.compAES (wrappedLogout 128))) =
      .success (frame (.compAES (wrappedLogout 128))).length (.compAES (wrappedLogout 128)) := by
    decide +kernel
  have hthrown : (wrappedLogout 128).unFormatAES wrapEnv.toEnv (.aesSetKey sampleKey) =
      .error .lengthError := by decide +kernel
  have hopened : Opened wrapEnv.toEnv (wrapServer.heap 0).aes (.compAES (wrappedLogout 128)) _ :=
    .thrown 0 _ _ (.refl _) hthrown
  have hturn := jsonTurn_of_opened 5 hparse (notLogin_compAES _) hopened
  refine ⟨hparse, hturn, ?_⟩
  intro h
  have hfailed := hturn.symm.trans (h.failed hopened.not_unwrapped)
  simp [Except.bind, Except.map] at hfailed

end Sample

end MmsSvr
