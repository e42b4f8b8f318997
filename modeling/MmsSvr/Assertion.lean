import MmsSvr.Batching
import MmsSvr.Unwrap

/-!
The assertion in the RSA branch of `JsonProcess`.
-/

namespace MmsSvr

open YYmmsJson YYSSL
open Lib

section Faults

theorem appendPrefix_fault_ne {buf : Bytes} {n : Int} {f : Fault}
    (h : appendPrefix buf n = .error f) : f ≠ .assertFailed := by
  unfold appendPrefix at h
  split at h
  · simp only [Except.error.injEq] at h
    simp [← h]
  · split at h
    · simp only [Except.error.injEq] at h
      simp [← h]
    · simp at h

theorem aesDecryptBlocks_fault_ne {ssl : OpenSSL} {aes : YYAES} {offsetLen : Int} {bs : List Bytes}
    {f : Fault} (h : aes.decryptBlocks ssl offsetLen bs = .error f) : f ≠ .assertFailed := by
  induction bs with
  | nil => simp [YYAES.decryptBlocks] at h
  | cons b rest ih =>
      simp only [YYAES.decryptBlocks] at h
      split at h
      · exact appendPrefix_fault_ne h
      · exact ih (map_eq_error_iff.mp h)

theorem aesDecrypt_fault_ne {ssl : OpenSSL} {aes : YYAES} {inbuf : Bytes} {f : Fault}
    (h : aes.aesDecrypt ssl inbuf = .error f) : f ≠ .assertFailed := by
  unfold YYAES.aesDecrypt at h
  split at h
  · simp at h
  · split at h
    · simp at h
    · exact aesDecryptBlocks_fault_ne (map_eq_error_iff.mp h)

theorem parseBody_fault_ne {env : Env} {jsize : Nat} {js : Bytes} {f : Fault}
    (h : parseBody env jsize js = .fault f) : f ≠ .assertFailed := by
  have hdecoded := decoded env jsize js
  rw [h] at hdecoded
  cases hdecoded <;> simp

theorem parseCmd_fault_ne {env : Env} {cmd : Bytes} {f : Fault} (h : parseCmd env cmd = .fault f) :
    f ≠ .assertFailed := by
  unfold parseCmd at h
  split at h
  · split at h
    · simp at h
    · dsimp only at h
      split at h
      · simp at h
      · split at h
        · simp only [ParseResult.fault.injEq] at h
          simp [← h]
        · exact parseBody_fault_ne h
  · simp at h

theorem unFormatAES_fault_ne {env : Env} {aes : YYAES} {e : YYJsonComp} {f : Fault}
    (h : e.unFormatAES env aes = .error f) : f ≠ .assertFailed := by
  unfold YYJsonComp.unFormatAES at h
  split at h
  · simp at h
  · split at h
    · simp at h
    · split at h
      · rename_i g hdecrypt
        simp only [Except.error.injEq] at h
        rw [← h]
        exact aesDecrypt_fault_ne hdecrypt
      · simp at h
      · split at h
        · simp at h
        · simp at h
        · rename_i g hparse
          simp only [Except.error.injEq] at h
          rw [← h]
          exact parseCmd_fault_ne hparse

end Faults

section Reached

variable {env : ServerEnv} {fd : Fd} {n : Nat} {key : Option YYAES} {buf : Bytes}

/-- The key of a session after a LOGIN, the `n`-th one. -/
def loginKey (env : ServerEnv) (n : Nat) (key : Option YYAES) : YYAES :=
  if (env.readings n).accepts then YYAES.aesSetKey (env.readings n).aesKey
  else key.getD YYAES.init

/-- The frames of a buffer lead to an RSA envelope: to one that is plain, or is what is in
AES envelopes under the key the session has by then. -/
inductive ReachesRSA (env : ServerEnv) : Nat → Option YYAES → Bytes → Prop where
  | here {n : Nat} {key : YYAES} {buf : Bytes} (offset : Nat) (jobj : YYJ) (k : Nat)
      (comp : YYJsonComp) (hparse : parseCmd env.toEnv buf = .success offset jobj)
      (hunwraps : Unwraps env.toEnv key k jobj (.compRSA comp)) : ReachesRSA env n (some key) buf
  | login {n : Nat} {key : Option YYAES} {buf : Bytes} (offset : Nat) (login : YYJsonLogin)
      (hparse : parseCmd env.toEnv buf = .success offset (.login login))
      (hrest : ReachesRSA env (n + 1) (some (loginKey env n key)) (buf.drop offset)) :
      ReachesRSA env n key buf
  -- without a session no other frame is ever taken
  | passed {n : Nat} {key : YYAES} {buf : Bytes} (offset : Nat) (jobj : YYJ)
      (cmd : Option YYJ) (hparse : parseCmd env.toEnv buf = .success offset jobj)
      (hlogin : NotLogin jobj) (hopened : Opened env.toEnv key jobj (.ok cmd))
      (hrest : ReachesRSA env n (some key) (buf.drop offset)) : ReachesRSA env n (some key) buf

theorem ReachesRSA.parsed (h : ReachesRSA env n key buf) :
    ∃ offset jobj, parseCmd env.toEnv buf = .success offset jobj := by
  cases h with
  | here offset jobj k comp hparse => exact ⟨offset, jobj, hparse⟩
  | login offset login hparse => exact ⟨offset, _, hparse⟩
  | passed offset jobj cmd hparse => exact ⟨offset, jobj, hparse⟩

theorem ReachesRSA.ne_nil (h : ReachesRSA env n key buf) : buf ≠ [] := by
  rintro rfl
  obtain ⟨offset, jobj, hparse⟩ := h.parsed
  simp [parseCmd] at hparse

theorem Unwraps.notLogin {aes : YYAES} {k : Nat} {jobj : YYJ} {comp : YYJsonComp}
    (h : Unwraps env.toEnv aes k jobj (.compRSA comp)) : NotLogin jobj := by
  cases h with
  | refl => exact fun login h => by simp at h
  | step => exact notLogin_compAES _

end Reached

section Turns

variable {env : ServerEnv} {fd : Fd} {s : Server × Locals} {offset : Nat} {jobj : YYJ}

/-- The AES key of the session the loop works for. -/
def loopKey (s : Server × Locals) : Option YYAES := s.2.state.map fun p => (s.1.heap p).aes

/-- The loop goes on behind a frame of `offset` bytes. -/
structure GoesOn (s t : Server × Locals) (offset n : Nat) (key : Option YYAES) : Prop where
  logins : t.1.logins = n
  key : loopKey t = key
  buf : t.2.buf = s.2.buf.drop offset

theorem body_login (fd : Fd) {login : YYJsonLogin}
    (hparse : parseCmd env.toEnv s.2.buf = .success offset (.login login)) :
    ∃ t, (jsonLoop env fd).body s = some (.ok t) ∧
      GoesOn s t offset (s.1.logins + 1) (some (loginKey env s.1.logins (loopKey s))) := by
  obtain ⟨srv, state, buf⟩ := s
  refine ⟨_, body_of_handled hparse (.login state login), ?_, ?_, rfl⟩
  · rw [perform_logins]
  · have haes := perform_handleLogin_aes env fd srv { srv with logins := srv.logins + 1 }
      state login
    simp only [loopKey, Option.map_some, haes, loginKey]

theorem body_opened (fd : Fd) {p : Ptr} {r : Except Fault (Option YYJ)}
    (hstate : s.2.state = some p)
    (hparse : parseCmd env.toEnv s.2.buf = .success offset jobj) (hlogin : NotLogin jobj)
    (h : Opened env.toEnv (s.1.heap p).aes jobj r) :
    (∃ comp, r = .ok (some (.compRSA comp)) ∧
      (jsonLoop env fd).body s = some (.error .assertFailed)) ∨
    (∃ f, r = .error f ∧ f ≠ .assertFailed ∧ (jsonLoop env fd).body s = some (.error f)) ∨
    ∃ cmd t, r = .ok cmd ∧ (∀ comp, cmd ≠ some (.compRSA comp)) ∧
      (jsonLoop env fd).body s = some (.ok t) ∧ GoesOn s t offset s.1.logins (loopKey s) := by
  obtain ⟨srv, state, buf⟩ := s
  simp only at hstate hparse h
  subst hstate
  have hturn := jsonTurn_of_opened fd hparse hlogin h
  cases r with
  | error f =>
      refine Or.inr (Or.inl ⟨f, rfl, ?_, ?_⟩)
      · cases h with
        | thrown k e f hunwraps hthrown => exact unFormatAES_fault_ne hthrown
      · simp only [jsonLoop, hturn, Option.map_some, Except.bind, Except.map]
  | ok cmd =>
      by_cases hrsa : ∃ comp, cmd = some (.compRSA comp)
      · obtain ⟨comp, rfl⟩ := hrsa
        refine Or.inl ⟨comp, rfl, ?_⟩
        simp only [jsonLoop, hturn, Except.bind, Option.elim_some, dispatch, Except.map,
          Option.map_some]
      · simp only [not_exists] at hrsa
        obtain ⟨effects, heffects, hkeeps⟩ : ∃ effects,
            cmd.elim (.ok []) (dispatch env fd p (srv.heap p)) = .ok effects ∧
              ∀ e ∈ effects, KeepsKey e := by
          cases cmd with
          | none => exact ⟨[], rfl, by simp⟩
          | some c =>
              have hc : ∀ comp, c ≠ .compRSA comp := fun comp hcomp => hrsa comp (by rw [hcomp])
              obtain ⟨effects, heffects⟩ := dispatch_ordinary env fd p (srv.heap p) hc
              exact ⟨effects, heffects, dispatch_keepsKey heffects⟩
        refine Or.inr (Or.inr ⟨cmd, (srv.perform effects, ⟨some p, buf.drop offset⟩), rfl,
          hrsa, ?_, perform_logins srv effects, ?_, rfl⟩)
        · simp only [jsonLoop, hturn, Except.bind, heffects, Except.map, Option.map_some]
        · simp only [loopKey, Option.map_some, perform_aes srv hkeeps]

end Turns

section Runs

variable {env : ServerEnv} {fd : Fd}

theorem reachesRSA_of_asserts {fuel : Nat} {s : Server × Locals}
    (h : (jsonLoop env fd).run fuel s = some (.error .assertFailed)) :
    ReachesRSA env s.1.logins (loopKey s) s.2.buf := by
  induction fuel generalizing s with
  | zero => exact nomatch h
  | succ fuel ih =>
      rw [DoWhile.run] at h
      cases hparse : parseCmd env.toEnv s.2.buf with
      | fault f =>
          have hbody : (jsonLoop env fd).body s = some (.error f) := by
            simp [jsonLoop, jsonTurn, hparse, Except.map]
          simp only [hbody, Option.some.injEq, Except.error.injEq] at h
          exact absurd h (parseCmd_fault_ne hparse)
      | error err =>
          simp [jsonLoop, jsonTurn, hparse, Except.map] at h
      | success offset jobj =>
          by_cases hlogin : NotLogin jobj
          · cases hstate : s.2.state with
            | none =>
                have hstuck : (jsonLoop env fd).Turn s s :=
                  stuck_turn hstate ⟨offset, jobj, hparse, hlogin⟩
                have hrun := DoWhile.run_succ_of_turn hstuck fuel
                rw [DoWhile.run] at hrun
                exact ih (hrun.symm.trans h)
            | some p =>
                have hkey : loopKey s = some (s.1.heap p).aes := by simp [loopKey, hstate]
                obtain ⟨r, hr⟩ := exists_opened env.toEnv (s.1.heap p).aes jobj
                rw [hkey]
                rcases body_opened fd hstate hparse hlogin hr with
                  ⟨comp, rfl, -⟩ | ⟨f, -, hne, hbody⟩ | ⟨cmd, t, rfl, -, hbody, ht⟩
                · cases hr with
                  | command k c hunwraps haes => exact .here offset jobj k comp hparse hunwraps
                · simp only [hbody, Option.some.injEq, Except.error.injEq] at h
                  exact absurd h hne
                · simp only [hbody] at h
                  split at h
                  · have hrest := ih h
                    rw [ht.logins, ht.key, ht.buf, hkey] at hrest
                    exact .passed offset jobj cmd hparse hlogin hr hrest
                  · simp at h
          · simp only [NotLogin, ne_eq, not_forall, not_not] at hlogin
            obtain ⟨login, rfl⟩ := hlogin
            obtain ⟨t, hbody, ht⟩ := body_login fd hparse
            simp only [hbody] at h
            split at h
            · have hrest := ih h
              rw [ht.logins, ht.key, ht.buf] at hrest
              exact .login offset login hparse hrest
            · simp at h

theorem turn_of_goesOn {s t : Server × Locals} {offset n : Nat} {key : Option YYAES}
    (hbody : (jsonLoop env fd).body s = some (.ok t)) (ht : GoesOn s t offset n key)
    (hrest : ReachesRSA env n key (s.2.buf.drop offset)) : (jsonLoop env fd).Turn s t := by
  refine ⟨hbody, ?_⟩
  simp [jsonLoop, ht.buf, hrest.ne_nil]

theorem asserts_of_reachesRSA {n : Nat} {key : Option YYAES} {buf : Bytes}
    (h : ReachesRSA env n key buf) {s : Server × Locals} (hlogins : s.1.logins = n)
    (hkey : loopKey s = key) (hbuf : s.2.buf = buf) :
    (jsonLoop env fd).Yields s (.error .assertFailed) := by
  induction h generalizing s with
  | here offset jobj k comp hparse hunwraps =>
      obtain ⟨p, hstate, haes⟩ := Option.map_eq_some_iff.mp hkey
      subst hbuf haes
      have hopened := Opened.command k _ hunwraps fun e h => by simp at h
      rcases body_opened fd hstate hparse hunwraps.notLogin hopened with
        ⟨-, -, hbody⟩ | ⟨f, hf, -⟩ | ⟨cmd, -, hcmd, hne, -⟩
      · exact ⟨1, DoWhile.run_succ_of_error hbody 0⟩
      · simp at hf
      · rw [Except.ok.injEq] at hcmd
        exact absurd hcmd.symm (hne comp)
  | login offset login hparse hrest ih =>
      subst hlogins hkey hbuf
      obtain ⟨t, hbody, ht⟩ := body_login fd hparse
      rw [DoWhile.yields_iff_of_turn (turn_of_goesOn hbody ht hrest)]
      exact ih ht.logins ht.key ht.buf
  | passed offset jobj cmd hparse hlogin hopened hrest ih =>
      obtain ⟨p, hstate, haes⟩ := Option.map_eq_some_iff.mp hkey
      subst hlogins hbuf haes
      rcases body_opened fd hstate hparse hlogin hopened with
        ⟨-, -, hbody⟩ | ⟨f, hf, -⟩ | ⟨cmd', t, -, -, hbody, ht⟩
      · exact ⟨1, DoWhile.run_succ_of_error hbody 0⟩
      · simp at hf
      · rw [hkey] at ht
        rw [DoWhile.yields_iff_of_turn (turn_of_goesOn hbody ht hrest)]
        exact ih ht.logins ht.key ht.buf

theorem jsonProcess_eq_error_iff (env : ServerEnv) (srv : Server) {fd : Fd} (hfd : fd ≠ 0)
    (readbuffer : Bytes) (f : Fault) :
    jsonProcess env srv fd readbuffer = some (.error f) ↔
      (jsonLoop env fd).Yields (jsonBegin srv fd readbuffer) (.error f) := by
  simp only [jsonProcess, if_neg hfd, Option.map_eq_some_iff]
  constructor
  · rintro ⟨r, hr, hmap⟩
    rw [map_eq_error_iff.mp hmap] at hr
    exact ⟨_, hr⟩
  · rintro ⟨fuel, hr⟩
    have hbound := DoWhile.run_of_ends (m := fun s => s.2.buf.length)
      (fun s t => turn_progress) hr
    exact ⟨_, hbound, rfl⟩

/-- The call does not reach the assertion. -/
def AssertionHolds (env : ServerEnv) (srv : Server) : Call → Prop
  | .json fd readbuffer => jsonProcess env srv fd readbuffer ≠ some (.error .assertFailed)
  | .manage _ _ => True

/-- No RSA envelope is among the frames a session would come to. -/
def NoRSA (env : ServerEnv) (srv : Server) : Call → Prop
  | .json fd readbuffer =>
      let start := jsonBegin srv fd readbuffer
      fd ≠ 0 → ¬ ReachesRSA env srv.logins (loopKey start) start.2.buf
  | .manage _ _ => True

theorem jsonBegin_logins (srv : Server) (fd : Fd) (readbuffer : Bytes) :
    (jsonBegin srv fd readbuffer).1.logins = srv.logins := by
  unfold jsonBegin
  split <;> rfl

theorem assertionHolds_iff (env : ServerEnv) (srv : Server) (call : Call) :
    AssertionHolds env srv call ↔ NoRSA env srv call := by
  cases call with
  | manage fd readbuffer => exact Iff.rfl
  | json fd readbuffer =>
      by_cases hfd : fd = 0
      · exact iff_of_true (by simp [AssertionHolds, jsonProcess, hfd]) fun h => absurd hfd h
      · simp only [AssertionHolds, NoRSA, ne_eq, hfd, not_false_eq_true, true_implies]
        rw [jsonProcess_eq_error_iff env srv hfd, ← jsonBegin_logins srv fd readbuffer]
        constructor
        · intro hholds hreaches
          exact hholds (asserts_of_reachesRSA hreaches rfl rfl rfl)
        · rintro hreaches ⟨fuel, hrun⟩
          exact hreaches (reachesRSA_of_asserts hrun)

/-- In the run of any calls from any state, `JsonProcess` does not reach its assertion
exactly when no call comes to an RSA envelope with a session. -/
theorem assertion_valid_iff (env : ServerEnv) (calls : List Call) (srv : Server) :
    (callSystem env).Guarded (AssertionHolds env) calls srv ↔
      (callSystem env).Guarded (NoRSA env) calls srv := by
  have hsame : AssertionHolds env = NoRSA env := by
    funext srv call
    exact propext (assertionHolds_iff env srv call)
  rw [hsame]

/-- A client logs in and sends an RSA envelope. -/
theorem assertion_reached :
    ∃ srv, (callSystem default).run [.json 5 (frame (.login ⟨1, [], []⟩))] Server.init = some srv ∧
      jsonProcess default srv 5 (frame (.compRSA ⟨0, []⟩)) = some (.error .assertFailed) ∧
      ¬ (callSystem default).Guarded (AssertionHolds default)
        [.json 5 (frame (.login ⟨1, [], []⟩)), .json 5 (frame (.compRSA ⟨0, []⟩))] Server.init := by
  have hrun : ((callSystem default).run [.json 5 (frame (.login ⟨1, [], []⟩))] Server.init).map
      (fun srv => (jsonProcess default srv 5 (frame (.compRSA ⟨0, []⟩))).map
        (Except.map fun _ => ())) = some (some (.error .assertFailed)) := by decide +kernel
  obtain ⟨srv, hsrv, hmap⟩ := Option.map_eq_some_iff.mp hrun
  obtain ⟨r, hr, hfault⟩ := Option.map_eq_some_iff.mp hmap
  have hasserts : jsonProcess default srv 5 (frame (.compRSA ⟨0, []⟩)) =
      some (.error .assertFailed) := by
    rw [hr, map_eq_error_iff.mp hfault]
  refine ⟨srv, hsrv, hasserts, ?_⟩
  rintro ⟨-, hrest⟩
  obtain ⟨t, ht, hnil⟩ := Transition.run_cons.mp hsrv
  rw [← Transition.run_nil.mp hnil] at hasserts
  exact (hrest t ht).1 hasserts

end Runs

end MmsSvr
