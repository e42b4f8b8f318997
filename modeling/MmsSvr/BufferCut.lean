import MmsSvr.Batching

/-!
The commands in a received buffer, and what the two processing functions make of
them.
-/

namespace MmsSvr

open YYmmsJson
open Lib

/-- The commands that `ParseCmd` finds in a buffer one after another, and whether it
reports an error for what comes behind them. -/
inductive Cut (env : Env) : Bytes → List YYJ → Bool → Prop where
  | rejected {buf : Bytes} {err : YYMMSJSONError} (hparse : parseCmd env buf = .error err) :
      Cut env buf [] true
  | last {buf : Bytes} {offset : Nat} {c : YYJ} (hparse : parseCmd env buf = .success offset c)
      (hrest : buf.drop offset = []) : Cut env buf [c] false
  | next {buf : Bytes} {offset : Nat} {c : YYJ} {cs : List YYJ} {r : Bool}
      (hparse : parseCmd env buf = .success offset c) (hrest : buf.drop offset ≠ [])
      (hcut : Cut env (buf.drop offset) cs r) : Cut env buf (c :: cs) r

theorem parseCmd_of_split {env : Env} {p q : Bytes} {jobj : YYJ} (hq : q ≠ [])
    (h : parseCmd env (p ++ q) = .success (p ++ q).length jobj) :
    parseCmd env p = .error .bufsize := by
  obtain ⟨lo, hi, buf, heq, hword, -, -, -⟩ := parseCmd_success h
  have hpos : 0 < q.length := List.length_pos_iff.mpr hq
  match p, heq with
  | [], _ => rfl
  | [_], _ => rfl
  | [_, _], _ => rfl
  | a :: b :: c :: rest, heq =>
      simp only [List.cons_append, List.cons.injEq] at heq
      obtain ⟨rfl, rfl, rfl, -⟩ := heq
      simp only [parseCmd, ne_eq, not_true_eq_false, if_false, hword]
      rw [if_pos]
      simp only [List.length_append, List.length_cons]
      omega

section Sessions

variable {env : ServerEnv} {fd : Fd} {p : Ptr} {srv srv' t u : Server} {c : YYJ} {cs ds : List YYJ}

/-- The session at `p` handles commands one after another. -/
inductive SessionRun (env : ServerEnv) (fd : Fd) (p : Ptr) :
    Server → List YYJ → Server → Prop where
  | nil (srv : Server) : SessionRun env fd p srv [] srv
  | cons {srv t u : Server} {c : YYJ} {cs : List YYJ} (hc : Handled env fd srv (some p) c t p)
      (hcs : SessionRun env fd p t cs u) : SessionRun env fd p srv (c :: cs) u

theorem Handled.ptr_eq {q : Ptr} (h : Handled env fd srv (some p) c t q) : q = p := by
  cases h <;> rfl

theorem sessionRun_append :
    SessionRun env fd p srv (cs ++ ds) u ↔
      ∃ t, SessionRun env fd p srv cs t ∧ SessionRun env fd p t ds u := by
  constructor
  · intro h
    induction cs generalizing srv with
    | nil => exact ⟨srv, .nil srv, h⟩
    | cons c cs ih =>
        cases h with
        | cons hc hcs =>
            obtain ⟨t, ht, hu⟩ := ih hcs
            exact ⟨t, .cons hc ht, hu⟩
  · rintro ⟨t, ht, hu⟩
    induction ht with
    | nil srv => exact hu
    | cons hc _ ih => exact .cons hc (ih hu)

theorem jsonLoop_body_error {state : Option Ptr} {buf : Bytes} {err : YYMMSJSONError}
    (hparse : parseCmd env.toEnv buf = .error err) :
    (jsonLoop env fd).body (srv, ⟨state, buf⟩) =
      some (.ok (srv.perform (closefd fd), ⟨state, []⟩)) := by
  rw [jsonLoop_body_ok]
  exact ⟨⟨srv, closefd fd, ⟨state, []⟩⟩, by simp [jsonTurn, hparse], rfl⟩

/-- The server a buffer leaves behind, when its commands have been handled. -/
def closeIf (fd : Fd) (rejected : Bool) (srv : Server) : Server :=
  if rejected then srv.perform (closefd fd) else srv

theorem completes_of_cut {buf : Bytes} {r : Bool} (hcut : Cut env.toEnv buf cs r)
    (hrun : SessionRun env fd p srv cs t) :
    ∃ l, (jsonLoop env fd).Completes (srv, ⟨some p, buf⟩) (closeIf fd r t, l) := by
  induction hcut generalizing srv with
  | rejected hparse =>
      cases hrun with
      | nil => exact ⟨_, .last (jsonLoop_body_error hparse) (by simp [jsonLoop])⟩
  | last hparse hrest =>
      cases hrun with
      | cons hc hcs =>
          cases hcs with
          | nil => exact ⟨_, .last (body_of_handled hparse hc) (by simp [jsonLoop, hrest])⟩
  | next hparse hrest _ ih =>
      cases hrun with
      | cons hc hcs =>
          obtain ⟨l, hl⟩ := ih hcs
          exact ⟨l, .turn ⟨body_of_handled hparse hc, by simp [jsonLoop, hrest]⟩ hl⟩

theorem cut_of_completes {s s' : Server × Locals} (h : (jsonLoop env fd).Completes s s')
    (hstate : s.2.state = some p) :
    ∃ cs r t, Cut env.toEnv s.2.buf cs r ∧ SessionRun env fd p s.1 cs t ∧
      s'.1 = closeIf fd r t := by
  induction h with
  | @last s t hbody hlast =>
      obtain ⟨srv, state, buf⟩ := s
      simp only at hstate
      subst hstate
      cases hparse : parseCmd env.toEnv buf with
      | fault f =>
          obtain ⟨turn, hturn, -⟩ := jsonLoop_body_ok.mp hbody
          simp [jsonTurn, hparse] at hturn
      | error err =>
          rw [jsonLoop_body_error hparse, Option.some.injEq, Except.ok.injEq] at hbody
          exact ⟨[], true, srv, .rejected hparse, .nil srv, by rw [← hbody]; rfl⟩
      | success offset c =>
          rcases handled_of_body hparse hbody with ⟨hnone, -, -⟩ | ⟨q, hq, ht⟩
          · simp at hnone
          · obtain rfl := hq.ptr_eq
            have hrest : buf.drop offset = [] := by simpa [jsonLoop, ht] using hlast
            exact ⟨[c], false, t.1, .last hparse hrest, .cons hq (.nil _), rfl⟩
  | @turn s t s' hturn _ ih =>
      obtain ⟨srv, state, buf⟩ := s
      simp only at hstate
      subst hstate
      cases hparse : parseCmd env.toEnv buf with
      | fault f =>
          obtain ⟨turn, hturn, -⟩ := jsonLoop_body_ok.mp hturn.1
          simp [jsonTurn, hparse] at hturn
      | error err =>
          obtain ⟨hbody, hagain⟩ := hturn
          rw [jsonLoop_body_error hparse, Option.some.injEq, Except.ok.injEq] at hbody
          simp [← hbody, jsonLoop] at hagain
      | success offset c =>
          rcases handled_of_body hparse hturn.1 with ⟨hnone, -, -⟩ | ⟨q, hq, ht⟩
          · simp at hnone
          · obtain rfl := hq.ptr_eq
            have hrest : buf.drop offset ≠ [] := by simpa [jsonLoop, ht] using hturn.2
            obtain ⟨cs, r, u, hcut, hrun, hs'⟩ := ih (by rw [ht])
            rw [ht] at hcut
            exact ⟨c :: cs, r, u, .next hparse hrest hcut, .cons hq hrun, hs'⟩

theorem jsonProcess_eq_cut (hfd : fd ≠ 0) (hready : Ready srv fd)
    (hp : srv.fdIndex.getState fd = some p) (buf : Bytes) :
    jsonProcess env srv fd buf = some (.ok srv') ↔
      ∃ cs r t, Cut env.toEnv buf cs r ∧ SessionRun env fd p srv cs t ∧ srv' = closeIf fd r t := by
  rw [jsonProcess_eq_some_iff env srv srv' hfd, jsonBegin_of_ready hready, hp]
  simp only [DoWhile.yields_ok_iff]
  constructor
  · rintro ⟨l, hl⟩
    exact cut_of_completes hl rfl
  · rintro ⟨cs, r, t, hcut, hrun, rfl⟩
    exact completes_of_cut hcut hrun

end Sessions

section Management

variable {env : ServerEnv} {fd : Fd} {srv srv' : Server} {buf : Bytes}

/-- What a management connection does with a command. -/
def manageCommand (ssl : OpenSSL) (fd : Fd) (srv : Server) : YYJ → Server
  | .svrInit c => srv.perform (svrInit ssl srv fd c.yyID)
  | _ => srv

theorem mmsExecLoop_body_success (fd : Fd) (srv : Server) {offset : Nat} {c : YYJ}
    (hparse : parseCmd env.toEnv buf = .success offset c) :
    (mmsExecLoop env fd).body (srv, buf) =
      some (.ok (manageCommand env.ssl fd srv c, buf.drop offset)) := by
  simp only [mmsExecLoop, mmsExecTurn, hparse]
  cases c <;> rfl

theorem mmsExecLoop_body_error {err : YYMMSJSONError}
    (hparse : parseCmd env.toEnv buf = .error err) :
    (mmsExecLoop env fd).body (srv, buf) = some (.ok (srv, [])) := by
  simp [mmsExecLoop, mmsExecTurn, hparse, Except.map]

theorem mmsExecLoop_body_fault {f : Fault} (hparse : parseCmd env.toEnv buf = .fault f) :
    (mmsExecLoop env fd).body (srv, buf) = some (.error f) := by
  simp [mmsExecLoop, mmsExecTurn, hparse, Except.map]

theorem manage_of_cut (fd : Fd) (srv : Server) {cs : List YYJ} {r : Bool}
    (hcut : Cut env.toEnv buf cs r) :
    (mmsExecLoop env fd).Completes (srv, buf) (cs.foldl (manageCommand env.ssl fd) srv, []) := by
  induction hcut generalizing srv with
  | rejected hparse => exact .last (mmsExecLoop_body_error hparse) (by simp [mmsExecLoop])
  | last hparse hrest =>
      have hbody := mmsExecLoop_body_success fd srv hparse
      rw [hrest] at hbody
      exact .last hbody (by simp [mmsExecLoop])
  | next hparse hrest _ ih =>
      exact .turn ⟨mmsExecLoop_body_success fd srv hparse, by simp [mmsExecLoop, hrest]⟩ (ih _)

theorem mmsExecLoop_turn {t : Server × Bytes}
    (hbody : (mmsExecLoop env fd).body (srv, buf) = some (.ok t)) :
    (∃ err, parseCmd env.toEnv buf = .error err ∧ t = (srv, [])) ∨
      ∃ offset c, parseCmd env.toEnv buf = .success offset c ∧
        t = (manageCommand env.ssl fd srv c, buf.drop offset) := by
  cases hparse : parseCmd env.toEnv buf with
  | fault f => simp [mmsExecLoop_body_fault hparse] at hbody
  | error err =>
      rw [mmsExecLoop_body_error hparse, Option.some.injEq, Except.ok.injEq] at hbody
      exact .inl ⟨err, rfl, hbody.symm⟩
  | success offset c =>
      rw [mmsExecLoop_body_success fd srv hparse, Option.some.injEq, Except.ok.injEq] at hbody
      exact .inr ⟨offset, c, rfl, hbody.symm⟩

theorem cut_of_manage {s s' : Server × Bytes} (h : (mmsExecLoop env fd).Completes s s') :
    ∃ cs r, Cut env.toEnv s.2 cs r ∧ s'.1 = cs.foldl (manageCommand env.ssl fd) s.1 := by
  induction h with
  | @last s t hbody hlast =>
      obtain ⟨srv, buf⟩ := s
      rcases mmsExecLoop_turn hbody with ⟨err, hparse, rfl⟩ | ⟨offset, c, hparse, rfl⟩
      · exact ⟨[], true, .rejected hparse, rfl⟩
      · have hrest : buf.drop offset = [] := by simpa [mmsExecLoop] using hlast
        exact ⟨[c], false, .last hparse hrest, rfl⟩
  | @turn s t s' hturn _ ih =>
      obtain ⟨srv, buf⟩ := s
      obtain ⟨hbody, hagain⟩ := hturn
      rcases mmsExecLoop_turn hbody with ⟨err, hparse, rfl⟩ | ⟨offset, c, hparse, rfl⟩
      · simp [mmsExecLoop] at hagain
      · have hrest : buf.drop offset ≠ [] := by simpa [mmsExecLoop] using hagain
        obtain ⟨cs, r, hcut, hs'⟩ := ih
        exact ⟨c :: cs, r, .next hparse hrest hcut, hs'⟩

theorem mmsExecLoop_progress {s t : Server × Bytes} (h : (mmsExecLoop env fd).Turn s t) :
    t.2.length < s.2.length := by
  obtain ⟨srv, buf⟩ := s
  obtain ⟨hbody, hagain⟩ := h
  rcases mmsExecLoop_turn hbody with ⟨err, hparse, rfl⟩ | ⟨offset, c, hparse, rfl⟩
  · simp [mmsExecLoop] at hagain
  · have hoffset := parseCmd_offset_le hparse
    simp only [List.length_drop]
    omega

theorem processMmsExecData_eq_cut :
    processMmsExecData env srv fd buf = some (.ok srv') ↔
      ∃ cs r, Cut env.toEnv buf cs r ∧ srv' = cs.foldl (manageCommand env.ssl fd) srv := by
  simp only [processMmsExecData, Option.map_eq_some_iff]
  constructor
  · rintro ⟨r, hr, hmap⟩
    obtain ⟨s, rfl, rfl⟩ := map_eq_ok_iff.mp hmap
    exact cut_of_manage (DoWhile.yields_ok_iff.mp ⟨_, hr⟩)
  · rintro ⟨cs, r, hcut, rfl⟩
    obtain ⟨fuel, hrun⟩ := DoWhile.yields_ok_iff.mpr (manage_of_cut fd srv hcut)
    have hbound := DoWhile.run_of_ends (m := fun s => s.2.length)
      (fun s t ht => Or.inl (mmsExecLoop_progress ht)) hrun
    exact ⟨_, hbound, rfl⟩

end Management

end MmsSvr
