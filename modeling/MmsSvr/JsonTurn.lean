import MmsSvr.CmdProc
import MmsSvr.DecodeBudget

/-!
What one turn of the loop in `JsonProcess` can do, and when it returns at all.
-/

namespace MmsSvr

open JsonC YYmmsJson YYSSL
open Lib

def NotLogin (jobj : YYJ) : Prop := ∀ login, jobj ≠ .login login

/-- The completed turns, by what `ParseCmd` made of the buffer. -/
inductive JsonTurned (env : ServerEnv) (fd : Fd) (srv : Server) (l : Locals) : Turn → Prop where
  | rejected (err : YYMMSJSONError) (hparse : parseCmd env.toEnv l.buf = .error err) :
      JsonTurned env fd srv l ⟨srv, closefd fd, { l with buf := [] }⟩
  | login (offset : Nat) (login : YYJsonLogin)
      (hparse : parseCmd env.toEnv l.buf = .success offset (.login login)) :
      JsonTurned env fd srv l
        ⟨{ srv with logins := srv.logins + 1 }, (handleLogin env srv fd l.state login).2,
          ⟨some (handleLogin env srv fd l.state login).1, l.buf.drop offset⟩⟩
  -- without a session the frame is neither handled nor taken from the buffer
  | ignored (offset : Nat) (jobj : YYJ) (hparse : parseCmd env.toEnv l.buf = .success offset jobj)
      (hlogin : NotLogin jobj) (hstate : l.state = none) :
      JsonTurned env fd srv l ⟨srv, [], l⟩
  | unopened (offset : Nat) (jobj : YYJ) (p : Ptr)
      (hparse : parseCmd env.toEnv l.buf = .success offset jobj) (hlogin : NotLogin jobj)
      (hstate : l.state = some p)
      (hnext : nextRun env.toEnv (srv.heap p).aes (l.buf.length + 1) jobj = some (.ok none)) :
      JsonTurned env fd srv l ⟨srv, [], ⟨some p, l.buf.drop offset⟩⟩
  | command (offset : Nat) (jobj : YYJ) (p : Ptr) (cmd : YYJ) (effects : List Effect)
      (hparse : parseCmd env.toEnv l.buf = .success offset jobj) (hlogin : NotLogin jobj)
      (hstate : l.state = some p)
      (hnext : nextRun env.toEnv (srv.heap p).aes (l.buf.length + 1) jobj =
        some (.ok (some cmd)))
      (hdispatch : dispatch env fd p (srv.heap p) cmd = .ok effects) :
      JsonTurned env fd srv l ⟨srv, effects, ⟨some p, l.buf.drop offset⟩⟩

section Inversion

variable {env : ServerEnv} {fd : Fd} {srv : Server} {l : Locals} {turn : Turn}

theorem commandTurn_cases {offset : Nat} {jobj : YYJ}
    (hparse : parseCmd env.toEnv l.buf = .success offset jobj) (hlogin : NotLogin jobj)
    (h : commandTurn env fd srv l offset jobj = some (.ok turn)) :
    JsonTurned env fd srv l turn := by
  obtain ⟨state, buf⟩ := l
  unfold commandTurn at h
  split at h
  · rename_i hstate
    simp only [Option.some.injEq, Except.ok.injEq] at h
    subst h
    exact .ignored offset jobj hparse hlogin hstate
  · rename_i p hstate
    simp only at hstate
    subst hstate
    dsimp only at h
    split at h
    · simp at h
    · simp at h
    · rename_i hnext
      simp only [Option.some.injEq, Except.ok.injEq] at h
      subst h
      exact .unopened offset jobj p hparse hlogin rfl hnext
    · rename_i cmd hnext
      cases hdispatch : dispatch env fd p (srv.heap p) cmd with
      | error f => simp [hdispatch, Except.map] at h
      | ok effects =>
          simp only [hdispatch, Except.map, Option.some.injEq, Except.ok.injEq] at h
          subst h
          exact .command offset jobj p cmd effects hparse hlogin rfl hnext hdispatch

theorem jsonTurn_success {offset : Nat} {jobj : YYJ}
    (hparse : parseCmd env.toEnv l.buf = .success offset jobj) (hlogin : NotLogin jobj) :
    jsonTurn env fd srv l = commandTurn env fd srv l offset jobj := by
  rw [jsonTurn, hparse]
  cases jobj with
  | login login => exact absurd rfl (hlogin login)
  | _ => rfl

theorem jsonTurn_cases (h : jsonTurn env fd srv l = some (.ok turn)) :
    JsonTurned env fd srv l turn := by
  cases hparse : parseCmd env.toEnv l.buf with
  | fault f => simp [jsonTurn, hparse] at h
  | error err =>
      simp only [jsonTurn, hparse, Option.some.injEq, Except.ok.injEq] at h
      subst h
      exact .rejected err hparse
  | success offset jobj =>
      by_cases hlogin : NotLogin jobj
      · rw [jsonTurn_success hparse hlogin] at h
        exact commandTurn_cases hparse hlogin h
      · simp only [NotLogin, ne_eq, not_forall, not_not] at hlogin
        obtain ⟨login, rfl⟩ := hlogin
        simp only [jsonTurn, hparse, Option.some.injEq, Except.ok.injEq] at h
        subst h
        exact .login offset login hparse

end Inversion

section Envelopes

theorem length_texts_le {env : Env} {jsize offset : Nat} {js : Bytes} {c : YYJsonComp}
    (h : parseBody env jsize js = .success offset (.compAES c)) :
    c.serString.length ≤ js.length := by
  have hcost := parseBody_cost (B := lengthBudget) rfl h
  have hweight := textWeight_lengthBudget js
  have htexts : textsCost lengthBudget (.compAES c) = 2 * c.serString.length := by
    simp [textsCost, YYJ.texts, YYJ.fields, FieldValue.texts, lengthBudget]
  omega

theorem length_serString_lt {env : Env} {cmd : Bytes} {offset : Nat} {c : YYJsonComp}
    (h : parseCmd env cmd = .success offset (.compAES c)) :
    c.serString.length + 3 ≤ cmd.length := by
  obtain ⟨lo, hi, buf, rfl, _, hmin, hmax, hbody⟩ := parseCmd_success h
  have htext := length_texts_le hbody
  rw [List.length_take] at htext
  simp only [List.length_cons] at hmax ⊢
  omega

theorem length_unFormatAES_lt {env : Env} {aes : YYAES} {c d : YYJsonComp}
    (h : c.unFormatAES env aes = .ok (some (.compAES d))) :
    d.serString.length < c.serString.length := by
  unfold YYJsonComp.unFormatAES at h
  split at h
  · simp at h
  · split at h
    · simp at h
    · rename_i out hout
      have hbase64 := base64decode_length hout
      split at h
      · simp at h
      · simp at h
      · rename_i decryStr hdecrypt
        have hplain := aesDecrypt_length hdecrypt
        split at h
        · rename_i offset jobj hparse
          simp only [Except.ok.injEq, Option.some.injEq] at h
          subst h
          have hinner := length_serString_lt hparse
          omega
        · simp at h
        · simp at h

/-- How many envelopes a command can still be. -/
def envelopeBound : YYJ → Nat
  | .compAES c => c.serString.length + 1
  | _ => 0

theorem nextRun_ne_none (env : Env) (aes : YYAES) {fuel : Nat} {jobj : YYJ}
    (h : envelopeBound jobj < fuel) : nextRun env aes fuel jobj ≠ none := by
  induction fuel generalizing jobj with
  | zero => omega
  | succ fuel ih =>
      cases jobj with
      | compAES c =>
          simp only [envelopeBound] at h
          rw [nextRun]
          split
          · simp
          · simp
          · rename_i realobj hreal
            apply ih
            cases realobj with
            | compAES d =>
                have hlt := length_unFormatAES_lt hreal
                simp only [envelopeBound]
                omega
            | _ =>
                simp only [envelopeBound]
                omega
      | _ => simp [nextRun]

theorem nextRun_mono {env : Env} {aes : YYAES} {fuel more : Nat} {jobj : YYJ}
    {r : Except Fault (Option YYJ)} (h : nextRun env aes fuel jobj = some r)
    (hle : fuel ≤ more) : nextRun env aes more jobj = some r := by
  induction fuel generalizing jobj more with
  | zero => simp [nextRun] at h
  | succ fuel ih =>
      obtain ⟨more, rfl⟩ : ∃ m, more = m + 1 := ⟨more - 1, by omega⟩
      cases jobj with
      | compAES c =>
          rw [nextRun] at h ⊢
          split at h
          · exact h
          · exact h
          · exact ih h (by omega)
      | _ => exact h

/-- A turn always comes to an end: the envelopes in a frame are nested less deep than
the frame is long. -/
theorem jsonTurn_ne_none (env : ServerEnv) (fd : Fd) (srv : Server) (l : Locals) :
    jsonTurn env fd srv l ≠ none := by
  cases hparse : parseCmd env.toEnv l.buf with
  | fault f => simp [jsonTurn, hparse]
  | error err => simp [jsonTurn, hparse]
  | success offset jobj =>
      by_cases hlogin : NotLogin jobj
      · rw [jsonTurn_success hparse hlogin]
        unfold commandTurn
        split
        · simp
        · dsimp only
          have hbound : envelopeBound jobj < l.buf.length + 1 := by
            cases jobj with
            | compAES c =>
                have hlen := length_serString_lt hparse
                simp only [envelopeBound]
                omega
            | _ => simp [envelopeBound]
          split
          · rename_i hnext
            exact absurd hnext (nextRun_ne_none env.toEnv _ hbound)
          · simp
          · simp
          · simp
      · simp only [NotLogin, ne_eq, not_forall, not_not] at hlogin
        obtain ⟨login, rfl⟩ := hlogin
        simp [jsonTurn, hparse]

theorem nextRun_unique {env : Env} {aes : YYAES} {fuel more : Nat} {jobj : YYJ}
    {r r' : Except Fault (Option YYJ)} (h : nextRun env aes fuel jobj = some r)
    (h' : nextRun env aes more jobj = some r') : r = r' := by
  have hmax := nextRun_mono h (Nat.le_max_left fuel more)
  rw [nextRun_mono h' (Nat.le_max_right fuel more), Option.some.injEq] at hmax
  exact hmax.symm

theorem nextRun_of_frame {env : Env} {aes : YYAES} {buf : Bytes} {offset fuel : Nat} {jobj : YYJ}
    (hparse : parseCmd env buf = .success offset jobj) {r : Except Fault (Option YYJ)}
    (h : nextRun env aes fuel jobj = some r) : nextRun env aes (buf.length + 1) jobj = some r := by
  have hbound : envelopeBound jobj < buf.length + 1 := by
    cases jobj with
    | compAES c =>
        have hlen := length_serString_lt hparse
        simp only [envelopeBound]
        omega
    | _ => simp [envelopeBound]
  obtain ⟨r', hr'⟩ := Option.ne_none_iff_exists'.mp (nextRun_ne_none env aes hbound)
  rw [hr', nextRun_unique h hr']

end Envelopes

section Handled

/-- What handling an accepted command comes to, whatever buffer it stood in: with the
local session `state`, the server becomes `srv'` and the local session `p`. -/
inductive Handled (env : ServerEnv) (fd : Fd) (srv : Server) :
    Option Ptr → YYJ → Server → Ptr → Prop where
  | login (state : Option Ptr) (login : YYJsonLogin) :
      Handled env fd srv state (.login login)
        (Server.perform { srv with logins := srv.logins + 1 }
          (handleLogin env srv fd state login).2)
        (handleLogin env srv fd state login).1
  | unopened (p : Ptr) (jobj : YYJ) (fuel : Nat) (hlogin : NotLogin jobj)
      (hnext : nextRun env.toEnv (srv.heap p).aes fuel jobj = some (.ok none)) :
      Handled env fd srv (some p) jobj srv p
  | command (p : Ptr) (jobj : YYJ) (fuel : Nat) (cmd : YYJ) (effects : List Effect)
      (hlogin : NotLogin jobj)
      (hnext : nextRun env.toEnv (srv.heap p).aes fuel jobj = some (.ok (some cmd)))
      (hdispatch : dispatch env fd p (srv.heap p) cmd = .ok effects) :
      Handled env fd srv (some p) jobj (srv.perform effects) p

variable {env : ServerEnv} {fd : Fd} {srv : Server}

theorem jsonLoop_body_ok {s t : Server × Locals} :
    (jsonLoop env fd).body s = some (.ok t) ↔
      ∃ turn, jsonTurn env fd s.1 s.2 = some (.ok turn) ∧
        t = (turn.srv.perform turn.effects, turn.locals) := by
  obtain ⟨srv, l⟩ := s
  simp only [jsonLoop, Option.map_eq_some_iff]
  constructor
  · rintro ⟨r, hr, hmap⟩
    obtain ⟨turn, rfl, hturn⟩ := map_eq_ok_iff.mp hmap
    exact ⟨turn, hr, hturn.symm⟩
  · rintro ⟨turn, hturn, rfl⟩
    exact ⟨.ok turn, hturn, rfl⟩

theorem handled_of_body {state : Option Ptr} {buf : Bytes} {offset : Nat} {jobj : YYJ}
    {t : Server × Locals} (hparse : parseCmd env.toEnv buf = .success offset jobj)
    (h : (jsonLoop env fd).body (srv, ⟨state, buf⟩) = some (.ok t)) :
    (state = none ∧ NotLogin jobj ∧ t = (srv, ⟨state, buf⟩)) ∨
      ∃ p, Handled env fd srv state jobj t.1 p ∧ t.2 = ⟨some p, buf.drop offset⟩ := by
  obtain ⟨turn, hturn, rfl⟩ := jsonLoop_body_ok.mp h
  cases jsonTurn_cases hturn with
  | rejected err hparse' => simp [hparse] at hparse'
  | login offset' login hparse' =>
      simp only [hparse, ParseResult.success.injEq] at hparse'
      obtain ⟨rfl, rfl⟩ := hparse'
      exact Or.inr ⟨_, .login state login, rfl⟩
  | ignored offset' jobj' hparse' hlogin hstate =>
      simp only [hparse, ParseResult.success.injEq] at hparse'
      obtain ⟨rfl, rfl⟩ := hparse'
      exact Or.inl ⟨hstate, hlogin, rfl⟩
  | unopened offset' jobj' p hparse' hlogin hstate hnext =>
      simp only [hparse, ParseResult.success.injEq] at hparse'
      obtain ⟨rfl, rfl⟩ := hparse'
      simp only at hstate
      subst hstate
      exact Or.inr ⟨p, .unopened p jobj _ hlogin hnext, rfl⟩
  | command offset' jobj' p cmd effects hparse' hlogin hstate hnext hdispatch =>
      simp only [hparse, ParseResult.success.injEq] at hparse'
      obtain ⟨rfl, rfl⟩ := hparse'
      simp only at hstate
      subst hstate
      exact Or.inr ⟨p, .command p jobj _ cmd effects hlogin hnext hdispatch, rfl⟩

theorem body_of_handled {state : Option Ptr} {buf : Bytes} {offset : Nat} {jobj : YYJ}
    {srv' : Server} {p : Ptr} (hparse : parseCmd env.toEnv buf = .success offset jobj)
    (h : Handled env fd srv state jobj srv' p) :
    (jsonLoop env fd).body (srv, ⟨state, buf⟩) =
      some (.ok (srv', ⟨some p, buf.drop offset⟩)) := by
  rw [jsonLoop_body_ok]
  cases h with
  | login state login =>
      refine ⟨⟨_, _, ⟨some _, buf.drop offset⟩⟩, ?_, rfl⟩
      simp only [jsonTurn, hparse]
  | unopened p jobj fuel hlogin hnext =>
      refine ⟨⟨srv, [], ⟨some p, buf.drop offset⟩⟩, ?_, rfl⟩
      rw [jsonTurn_success hparse hlogin]
      simp only [commandTurn, nextRun_of_frame hparse hnext]
  | command p jobj fuel cmd effects hlogin hnext hdispatch =>
      refine ⟨⟨srv, effects, ⟨some p, buf.drop offset⟩⟩, ?_, rfl⟩
      rw [jsonTurn_success hparse hlogin]
      simp only [commandTurn, nextRun_of_frame hparse hnext, hdispatch, Except.map]

end Handled

end MmsSvr
