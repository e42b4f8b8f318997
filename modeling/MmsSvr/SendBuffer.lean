import MmsSvr.System

/-!
The bytes on their way to a client: what `send` has taken, and what is still in the
write buffer.
-/

namespace MmsSvr

open YYmmsJson
open Lib

namespace FdState

/-- No byte is lost or out of order. -/
def Accounted (st : FdState) : Prop := st.accepted ++ st.writebuffer = st.appended

def SendsWhole (st : FdState) (result : SendResult) : Prop :=
  ∀ n, result = .sent n → n = 0 ∨ n = st.writebuffer.length

theorem append_accounted {st : FdState} (h : st.Accounted) (buf : Bytes) :
    (st.append buf).Accounted := by
  unfold Accounted at h ⊢
  simp [append, ← h]

theorem doWrite_accounted_iff {st st' : FdState} {result : SendResult} (h : st.Accounted)
    (hsend : st.CanSend result) (hwrite : st.doWrite result = some st') :
    st'.Accounted ↔ st.SendsWhole result := by
  unfold Accounted at h ⊢
  by_cases hempty : st.writebuffer.length = 0
  · simp only [doWrite, hempty, if_true, Option.some.injEq] at hwrite
    subst hwrite
    refine iff_of_true h ?_
    rintro n rfl
    simp only [CanSend] at hsend
    omega
  · simp only [doWrite, hempty, if_false] at hwrite
    cases result with
    | again =>
        simp only [Option.some.injEq] at hwrite
        subst hwrite
        refine iff_of_true h ?_
        intro n hn
        simp at hn
    | failed => simp at hwrite
    | sent n =>
        cases n with
        | zero => simp at hwrite
        | succ n =>
            simp only at hwrite
            split at hwrite
            · rename_i hall
              rw [Option.some.injEq] at hwrite
              subst hwrite
              refine iff_of_true ?_ fun m hm => ?_
              · simp [hall, h]
              · simp only [SendResult.sent.injEq] at hm
                omega
            · rename_i hpart
              rw [Option.some.injEq] at hwrite
              subst hwrite
              refine iff_of_false ?_ fun hwhole => ?_
              · intro heq
                have hlength := congrArg List.length heq
                rw [← h] at hlength
                simp only [CanSend] at hsend
                simp only [List.drop_length, List.append_nil, List.length_append,
                  List.length_take] at hlength
                omega
              · rcases hwhole (n + 1) rfl with hzero | hall
                · omega
                · exact hpart hall

theorem sent_of_doWrite_eq_none {st : FdState} {n : Nat}
    (h : st.doWrite (.sent n) = none) : n = 0 := by
  cases n with
  | zero => rfl
  | succ n =>
      simp only [doWrite] at h
      split_ifs at h

end FdState

def NothingLost (s : System) : Prop :=
  ∀ fd st, s.fdStates.getState fd = some st → st.Accounted

def WholeSend (s : System) : Action → Prop
  | .write fd result => ∀ st ∈ s.fdStates.getState fd, st.SendsWhole result
  | _ => True

instance (st : FdState) (result : SendResult) : Decidable (st.SendsWhole result) :=
  match result with
  | .again => isTrue fun n hn => by simp at hn
  | .failed => isTrue fun n hn => by simp at hn
  | .sent m =>
      decidable_of_iff (m = 0 ∨ m = st.writebuffer.length)
        ⟨fun h n hn => by
          rw [SendResult.sent.injEq] at hn
          rwa [← hn], fun h => h m rfl⟩

instance (s : System) (a : Action) : Decidable (WholeSend s a) :=
  match a with
  | .write fd result =>
      inferInstanceAs (Decidable (∀ st ∈ s.fdStates.getState fd, st.SendsWhole result))
  | .accept _ _ | .receive _ _ | .shutdown _ | .dispatch | .start _ | .turn _ | .effect _
  | .finish _ => isTrue trivial

section Steps

variable {env : ServerEnv} {threadnum : Nat} {s t : System} {a : Action}

/-- What a step does to the connection on `fd`. -/
inductive FdProgress (s t : System) (fd : Fd) : Action → Prop where
  | same (a : Action) (hother : ∀ result, a ≠ .write fd result)
      (h : t.fdStates.getState fd = s.fdStates.getState fd) : FdProgress s t fd a
  | accepted (port : UInt32) (haccepts : t.accepts = s.accepts + 1)
      (h : t.fdStates.getState fd = some (.alloc port s.accepts)) :
      FdProgress s t fd (.accept fd port)
  | written (result : SendResult) (st st' : FdState) (hst : s.fdStates.getState fd = some st)
      (hsend : st.CanSend result) (hwrite : st.doWrite result = some st')
      (h : t.fdStates.getState fd = some st') : FdProgress s t fd (.write fd result)
  | appended (st : FdState) (buf : Bytes) (hst : s.fdStates.getState fd = some st)
      (h : t.fdStates.getState fd = some (st.append buf)) : FdProgress s t fd .dispatch
  | freed (a : Action) (hfailed : ∀ result, a = .write fd result →
        ∀ st ∈ s.fdStates.getState fd, st.doWrite result = none)
      (h : t.fdStates.getState fd = none) : FdProgress s t fd a

theorem fdProgress_free {fd fd' : Fd} (hfailed : ∀ result, a = .write fd' result →
      ∀ st ∈ s.fdStates.getState fd', st.doWrite result = none)
    (hother : ∀ fd result, a = .write fd result → fd = fd')
    (h : t.fdStates = s.fdStates.delState fd') : FdProgress s t fd a := by
  by_cases hfd : fd = fd'
  · subst hfd
    exact .freed a hfailed (by rw [h, StateMap.getState_delState_self])
  · refine .same a ?_ (by rw [h, StateMap.getState_delState_of_ne _ hfd])
    intro result ha
    exact hfd (hother fd result ha)

theorem fdProgress (h : System.step env threadnum s a = some t) (fd : Fd) :
    FdProgress s t fd a := by
  cases System.step_cases h with
  | accept fd' port hfd hfree hport =>
      by_cases heq : fd = fd'
      · subst heq
        exact .accepted port rfl (StateMap.getState_addState_self _ _ _)
      · exact .same _ (by simp) (StateMap.getState_addState_of_ne _ _ heq)
  | receive fd' data st hst hdata => exact .same _ (by simp) rfl
  | shutdown fd' st hst =>
      exact fdProgress_free (by simp) (by simp) (System.freeFdState_fdStates ..)
  | written fd' result st st' hst hsend hwrite =>
      by_cases heq : fd = fd'
      · subst heq
        exact .written result st st' hst hsend hwrite (StateMap.getState_addState_self _ _ _)
      · refine .same _ ?_ (StateMap.getState_addState_of_ne _ _ heq)
        intro result' ha
        rw [Action.write.injEq] at ha
        exact heq ha.1.symm
  | broken fd' result st hst hwrite =>
      refine fdProgress_free ?_ ?_ (System.freeFdState_fdStates ..)
      · intro result' ha st' hst'
        rw [Action.write.injEq] at ha
        rw [Option.mem_def, hst, Option.some.injEq] at hst'
        rw [← ha.2, ← hst']
        exact hwrite
      · intro fd'' result' ha
        rw [Action.write.injEq] at ha
        exact ha.1.symm
  | dispatch posted rest hqueue =>
      unfold System.queueReceive
      split
      · exact .same _ (by simp) rfl
      · rename_i st hst
        split
        · exact fdProgress_free (by simp) (by simp) (System.freeFdState_fdStates ..)
        · by_cases heq : fd = posted.item.fd
          · subst heq
            exact .appended st posted.item.buf hst (StateMap.getState_addState_self _ _ _)
          · exact .same _ (by simp) (StateMap.getState_addState_of_ne _ _ heq)
  | start w job rest hidle hjobs => exact .same _ (by simp) (by rw [System.startJob_fdStates])
  | turn w job l turn hbusy hbuf hturn => exact .same _ (by simp) rfl
  | effect w job l e todo hbusy =>
      exact .same _ (by simp) (by rw [System.setWorker_fdStates, System.access_fdStates])
  | finish w job l hbusy hbuf => exact .same _ (by simp) rfl

theorem accounted_step {fd : Fd} (h : ∀ st, s.fdStates.getState fd = some st → st.Accounted)
    (hstep : System.step env threadnum s a = some t) :
    (∀ st, t.fdStates.getState fd = some st → st.Accounted) ↔
      ∀ result, a = .write fd result → ∀ st ∈ s.fdStates.getState fd, st.SendsWhole result := by
  cases fdProgress hstep fd with
  | same a hother hsame =>
      rw [hsame]
      exact iff_of_true h fun result ha => absurd ha (hother result)
  | accepted port haccepts hnew =>
      refine iff_of_true ?_ (by simp)
      intro st hst
      rw [hnew, Option.some.injEq] at hst
      rw [← hst]
      rfl
  | written result st st' hst hsend hwrite hnew =>
      have hiff := FdState.doWrite_accounted_iff (h st hst) hsend hwrite
      simp [hnew, hst, hiff]
  | appended st buf hst hnew =>
      refine iff_of_true ?_ (by simp)
      intro st' hst'
      rw [hnew, Option.some.injEq] at hst'
      rw [← hst']
      exact FdState.append_accounted (h st hst) buf
  | freed a hfailed hnone =>
      refine iff_of_true (by simp [hnone]) ?_
      rintro result ha st hst n rfl
      exact Or.inl (FdState.sent_of_doWrite_eq_none (hfailed _ ha st hst))

theorem nothingLost_step (h : NothingLost s) (hstep : System.step env threadnum s a = some t) :
    NothingLost t ↔ WholeSend s a := by
  have hsends : WholeSend s a ↔ ∀ fd result, a = .write fd result →
      ∀ st ∈ s.fdStates.getState fd, st.SendsWhole result := by
    cases a with
    | write fd result =>
        constructor
        · rintro hwhole fd' result' ha
          rw [Action.write.injEq] at ha
          rw [← ha.1, ← ha.2]
          exact hwhole
        · intro hall
          exact hall fd result rfl
    | _ => simp [WholeSend]
  rw [hsends]
  exact forall_congr' fun fd => accounted_step (h fd) hstep

end Steps

/-- The bytes taken by `send` and those in the write buffer make up what was appended,
in every state of a run, exactly when no step of the run sends only a part of a
buffer. -/
theorem nothing_lost_iff (env : ServerEnv) (threadnum : Nat) (as : List Action) (s : System)
    (hrun : (mmsServer env threadnum).run as System.init = some s) :
    (mmsServer env threadnum).Always NothingLost as System.init ↔
      (mmsServer env threadnum).Guarded WholeSend as System.init := by
  refine Transition.always_iff_guarded ?_ ?_ ?_ hrun
  · intro s a t hs hguard hstep
    exact (nothingLost_step hs hstep).mpr hguard
  · intro s a t hs hguard hstep ht
    exact hguard ((nothingLost_step hs hstep).mp ht)
  · intro fd st hst
    simp [System.init] at hst

/-- A client logs in and gets the answer to its LOGIN1, with one call of `send`. -/
def loginAnswer (n : Nat) : List Action :=
  [Action.accept 5 6789,
    .receive 5 (frame (.login ⟨1, [], []⟩) ++ frame (.login1 ⟨1, [], []⟩)), .start 0, .turn 0] ++
    List.replicate 5 (Action.effect 0) ++ [Action.turn 0] ++ List.replicate 2 (Action.effect 0) ++
    [Action.dispatch, .write 5 (.sent n)]

theorem nothing_lost_login_answer :
    (mmsServer default 1).Always NothingLost (loginAnswer 36) System.init := by
  have hrun : ((mmsServer default 1).run (loginAnswer 36) System.init).isSome := by decide +kernel
  obtain ⟨s, hs⟩ := Option.isSome_iff_exists.mp hrun
  exact (nothing_lost_iff default 1 _ s hs).mpr (by decide +kernel)

/-- When `send` takes the first ten bytes of the answer, the other 26 are dropped. -/
theorem bytes_lost_login_answer :
    ∃ s st, (mmsServer default 1).run (loginAnswer 10) System.init = some s ∧
      s.fdStates.getState 5 = some st ∧ st.accepted.length = 10 ∧ st.writebuffer = [] ∧
      st.appended.length = 36 ∧ ¬ NothingLost s := by
  have hrun : (((mmsServer default 1).run (loginAnswer 10) System.init).bind
      fun s => s.fdStates.getState 5).map
        (fun st => (st.accepted.length, st.writebuffer, st.appended.length)) =
      some (10, [], 36) := by decide +kernel
  obtain ⟨st, hst, hlengths⟩ := Option.map_eq_some_iff.mp hrun
  obtain ⟨s, hs, hget⟩ := Option.bind_eq_some_iff.mp hst
  simp only [Prod.mk.injEq] at hlengths
  obtain ⟨haccepted, hempty, happended⟩ := hlengths
  refine ⟨s, st, hs, hget, haccepted, hempty, happended, ?_⟩
  intro h
  have haccounted := congrArg List.length (h 5 st hget)
  rw [List.length_append, hempty, haccepted, happended] at haccounted
  simp at haccounted

end MmsSvr
