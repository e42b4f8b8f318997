import MmsSvr.Segmentation

/-!
The loop of `ProcessMmsExecData` over any received buffer.
-/

namespace MmsSvr

open YYmmsJson
open Lib

variable {env : ServerEnv} {fd : Fd} {srv t : Server} {buf : Bytes} {cs ds : List YYJ}

/-- The commands of the longest sequence of frames that `ParseCmd` accepts one after
another from the start of a buffer. -/
inductive Accepted (env : Env) : Bytes → List YYJ → Prop where
  | stop {buf : Bytes} (hstop : ∀ offset c, parseCmd env buf ≠ .success offset c) :
      Accepted env buf []
  | frame {buf : Bytes} {offset : Nat} {c : YYJ} {cs : List YYJ}
      (hparse : parseCmd env buf = .success offset c) (hrest : Accepted env (buf.drop offset) cs) :
      Accepted env buf (c :: cs)

theorem exists_accepted (env : Env) (buf : Bytes) : ∃ cs, Accepted env buf cs := by
  induction hlen : buf.length using Nat.strongRecOn generalizing buf with
  | ind n ih =>
      cases hparse : parseCmd env buf with
      | success offset c =>
          have hoffset := parseCmd_offset_le hparse
          obtain ⟨cs, hcs⟩ := ih (buf.drop offset).length
            (by rw [List.length_drop]; omega) (buf.drop offset) rfl
          exact ⟨c :: cs, .frame hparse hcs⟩
      | error err => exact ⟨[], .stop (by simp [hparse])⟩
      | fault f => exact ⟨[], .stop (by simp [hparse])⟩

theorem Accepted.unique {env : Env} (h : Accepted env buf cs) (h' : Accepted env buf ds) :
    cs = ds := by
  induction h generalizing ds with
  | stop hstop =>
      cases h' with
      | stop => rfl
      | frame hparse => exact absurd hparse (hstop _ _)
  | frame hparse _ ih =>
      cases h' with
      | stop hstop => exact absurd hparse (hstop _ _)
      | frame hparse' hrest' =>
          rw [hparse, ParseResult.success.injEq] at hparse'
          obtain ⟨rfl, rfl⟩ := hparse'
          rw [ih hrest']

/-- The call is over: it has returned, or `ParseCmd` has not. -/
def EndsIn (env : ServerEnv) (srv : Server) (fd : Fd) (buf : Bytes) (t : Server) : Prop :=
  processMmsExecData env srv fd buf = some (.ok t) ∨
    ∃ f rest, processMmsExecData env srv fd buf = some (.error f) ∧
      (mmsExecLoop env fd).Visits (srv, buf) (t, rest) ∧
      (mmsExecLoop env fd).body (t, rest) = some (.error f)

theorem processMmsExecData_of_yields {r : Except Fault (Server × Bytes)}
    (h : (mmsExecLoop env fd).Yields (srv, buf) r) :
    processMmsExecData env srv fd buf = some (r.map Prod.fst) := by
  obtain ⟨fuel, hrun⟩ := h
  have hbound := DoWhile.run_of_ends (m := fun s => s.2.length)
    (fun s t ht => Or.inl (mmsExecLoop_progress ht)) hrun
  simp only [processMmsExecData, hbound, Option.map_some]

theorem left_of_accepted (fd : Fd) (srv : Server) (h : Accepted env.toEnv buf cs) :
    (∃ rest,
      (mmsExecLoop env fd).Completes (srv, buf) (cs.foldl (manageCommand env.ssl fd) srv, rest)) ∨
      ∃ f rest,
        (mmsExecLoop env fd).Visits (srv, buf) (cs.foldl (manageCommand env.ssl fd) srv, rest) ∧
        (mmsExecLoop env fd).body (cs.foldl (manageCommand env.ssl fd) srv, rest) =
          some (.error f) := by
  induction h generalizing srv with
  | @stop buf hstop =>
      cases hparse : parseCmd env.toEnv buf with
      | success offset c => exact absurd hparse (hstop offset c)
      | error err =>
          exact Or.inl ⟨[], .last (mmsExecLoop_body_error hparse) (by simp [mmsExecLoop])⟩
      | fault f => exact Or.inr ⟨f, buf, .refl, mmsExecLoop_body_fault hparse⟩
  | @frame buf offset c cs hparse hrest ih =>
      have hbody := mmsExecLoop_body_success fd srv hparse
      by_cases hnil : buf.drop offset = []
      · -- the loop is left before `ParseCmd` is asked again
        have hcs : cs = [] := by
          rw [hnil] at hrest
          exact hrest.unique (.stop (by simp [parseCmd]))
        subst hcs
        exact Or.inl ⟨_, .last hbody (by simp [mmsExecLoop, hnil])⟩
      · have hturn : (mmsExecLoop env fd).Turn (srv, buf)
            (manageCommand env.ssl fd srv c, buf.drop offset) :=
          ⟨hbody, by simp [mmsExecLoop, hnil]⟩
        rcases ih (manageCommand env.ssl fd srv c) with
          ⟨rest, hcompletes⟩ | ⟨f, rest, hvisits, hfault⟩
        · exact Or.inl ⟨rest, .turn hturn hcompletes⟩
        · exact Or.inr ⟨f, rest, .of_turn hturn hvisits, hfault⟩

theorem endsIn_of_accepted (h : Accepted env.toEnv buf cs) :
    EndsIn env srv fd buf t ↔ t = cs.foldl (manageCommand env.ssl fd) srv := by
  rcases left_of_accepted fd srv h with ⟨rest, hcompletes⟩ | ⟨f, rest, hvisits, hfault⟩
  · have hreturns := processMmsExecData_of_yields (DoWhile.yields_ok_iff.mpr hcompletes)
    simp only [Except.map] at hreturns
    simp only [EndsIn, hreturns, Option.some.injEq, Except.ok.injEq, reduceCtorEq, false_and,
      exists_false, or_false]
    exact eq_comm
  · have hthrows := processMmsExecData_of_yields (DoWhile.yields_of_visits hvisits hfault)
    simp only [Except.map] at hthrows
    constructor
    · rintro (hreturns | ⟨f', rest', -, hvisits', hfault'⟩)
      · rw [hthrows] at hreturns
        simp at hreturns
      · exact (Prod.mk.inj (hvisits.error_unique hvisits' hfault hfault')).1.symm
    · rintro rfl
      exact Or.inr ⟨f, rest, hthrows, hvisits, hfault⟩

/-- The loop ends; what it leaves is the server it found, with `fd` as the shell client of
every session named in an accepted frame, and for each one MMS_OPENURL sent that is filled from
the session. -/
theorem management_exact (env : ServerEnv) (srv : Server) (fd : Fd) (buf : Bytes) :
    ∃ cs, Accepted env.toEnv buf cs ∧ (∃ t, EndsIn env srv fd buf t) ∧
      ∀ t, EndsIn env srv fd buf t → t =
        { srv with
          heap := fun p =>
            if p ∈ targets srv cs then { srv.heap p with shellClientFd := fd } else srv.heap p
          sent := srv.sent ++ (targets srv cs).map fun p => ⟨fd, frame (.mmsOpenUrl
            { uid := (srv.heap p).uid
              yyID := (srv.heap p).yyID
              channelID := (srv.heap p).channelID
              subChannelID := (srv.heap p).subChannelID
              url := (srv.heap p).url
              user := (srv.heap p).account
              tick := (srv.heap p).pwd })⟩ } := by
  obtain ⟨cs, hcs⟩ := exists_accepted env.toEnv buf
  refine ⟨cs, hcs, ⟨_, (endsIn_of_accepted hcs).mpr rfl⟩, ?_⟩
  intro t ht
  rw [endsIn_of_accepted hcs, foldl_manageCommand, foldl_relay] at ht
  exact ht

end MmsSvr
