import MmsSvr.SendBuffer

/-!
What a client has been sent when its connection is closed on request.

The request goes through the queue of the event loop like a reply, but a reply waits in the
write buffer until the socket can be written to.
-/

namespace MmsSvr

open YYmmsJson
open Lib

section Descriptor

variable {env : ServerEnv} {threadnum : Nat} {s t : System} {a : Action}

theorem System.freeFdState_accepts (env : ServerEnv) (threadnum : Nat) (s : System) (fd : Fd)
    (st : FdState) : (s.freeFdState env threadnum fd st).accepts = s.accepts := by
  unfold System.freeFdState
  split <;> rfl

theorem System.queueReceive_bufqueue (env : ServerEnv) (threadnum : Nat) (s : System)
    (item : QueueItem) :
    (s.queueReceive env threadnum item).bufqueue = s.bufqueue ∧
      (s.queueReceive env threadnum item).accepts = s.accepts := by
  unfold System.queueReceive
  split
  · exact ⟨rfl, rfl⟩
  · split
    · exact ⟨System.freeFdState_bufqueue env threadnum s _ _,
        System.freeFdState_accepts env threadnum s _ _⟩
    · exact ⟨rfl, rfl⟩

theorem bufqueue_progress (h : System.step env threadnum s a = some t) :
    (∃ posted rest, a = .dispatch ∧ s.bufqueue = posted :: rest ∧ t.bufqueue = rest ∧
      t = { s with bufqueue := rest }.queueReceive env threadnum posted.item) ∨
      (a ≠ .dispatch ∧ ∃ back, t.bufqueue = s.bufqueue ++ back) := by
  cases System.step_cases h with
  | dispatch posted rest hqueue =>
      left
      exact ⟨posted, rest, rfl, hqueue,
        (System.queueReceive_bufqueue env threadnum { s with bufqueue := rest } posted.item).1, rfl⟩
  | effect w job l e todo hbusy =>
      refine Or.inr ⟨by simp, ?_⟩
      rw [System.setWorker_bufqueue]
      cases e with
      | dataSend item => exact ⟨[⟨item, job.fd, job.conn⟩], rfl⟩
      | _ => exact ⟨[], (List.append_nil _).symm⟩
  | accept fd port hfd hfree hport => exact Or.inr ⟨by simp, [], (List.append_nil _).symm⟩
  | receive fd data st hst hdata => exact Or.inr ⟨by simp, [], (List.append_nil _).symm⟩
  | written fd result st st' hst hsend hwrite =>
      exact Or.inr ⟨by simp, [], (List.append_nil _).symm⟩
  | shutdown fd st hst => exact Or.inr ⟨by simp, [], by simp⟩
  | broken fd result st hst hwrite => exact Or.inr ⟨by simp, [], by simp⟩
  | start w job rest hidle hjobs => exact Or.inr ⟨by simp, [], by simp⟩
  | turn w job l turn hbusy hbuf hturn => exact Or.inr ⟨by simp, [], by simp⟩
  | finish w job l hbusy hbuf => exact Or.inr ⟨by simp, [], by simp⟩

theorem accepts_progress (h : System.step env threadnum s a = some t) : s.accepts ≤ t.accepts := by
  cases System.step_cases h with
  | accept fd port hfd hfree hport => exact Nat.le_succ _
  | shutdown fd st hst => rw [System.freeFdState_accepts]
  | broken fd result st hst hwrite => rw [System.freeFdState_accepts]
  | dispatch posted rest hqueue =>
      rw [(System.queueReceive_bufqueue env threadnum { s with bufqueue := rest } posted.item).2]
  | start w job rest hidle hjobs =>
      unfold System.startJob
      split_ifs <;> exact Nat.le_refl _
  | effect w job l e todo hbusy => cases e <;> exact Nat.le_refl _
  | _ => exact Nat.le_refl _

end Descriptor

section Replies

/-- The connection `conn`, if it is still open on `fd`, has had `buf` appended to what it
is to send. -/
structure Appended (fd : Fd) (conn : Nat) (buf : Bytes) (s : System) : Prop where
  old : conn < s.accepts
  appended : ∀ st, s.fdStates.getState fd = some st → st.conn = conn → buf <:+: st.appended

variable {env : ServerEnv} {threadnum : Nat} {s t : System} {a : Action} {fd : Fd} {conn : Nat}
  {buf : Bytes}

theorem appended_step (h : Appended fd conn buf s)
    (hstep : System.step env threadnum s a = some t) : Appended fd conn buf t := by
  refine ⟨Nat.lt_of_lt_of_le h.old (accepts_progress hstep), ?_⟩
  intro st hst hconn
  cases fdProgress hstep fd with
  | same a hother hsame => exact h.appended st (hsame ▸ hst) hconn
  | accepted port haccepts hnew =>
      rw [hnew, Option.some.injEq] at hst
      rw [← hst, FdState.alloc] at hconn
      exact absurd h.old (by rw [← hconn]; exact Nat.lt_irrefl _)
  | written result st₁ st' hst₁ hsend hwrite hnew =>
      rw [hnew, Option.some.injEq] at hst
      subst hst
      obtain ⟨-, hsame, happended⟩ := FdState.doWrite_same hwrite
      rw [happended]
      exact h.appended st₁ hst₁ (by rw [← hsame, hconn])
  | appended st₁ buf' hst₁ hnew =>
      rw [hnew, Option.some.injEq] at hst
      subst hst
      obtain ⟨front, back, hpart⟩ := h.appended st₁ hst₁ hconn
      exact ⟨front, back ++ buf', by rw [FdState.append, ← hpart]; simp⟩
  | freed a hfailed hnone => simp [hnone] at hst

theorem appended_run {as : List Action} (h : Appended fd conn buf s)
    (hrun : (mmsServer env threadnum).run as s = some t) : Appended fd conn buf t := by
  induction as generalizing s with
  | nil =>
      rw [← Transition.run_nil.mp hrun]
      exact h
  | cons a as ih =>
      obtain ⟨u, hu, hrest⟩ := Transition.run_cons.mp hrun
      exact ih (appended_step h hu) hrest

theorem appended_dispatch {posted : Posted} {rest : List Posted} (hconn : conn < s.accepts) :
    Appended posted.item.fd conn posted.item.buf
      ({ s with bufqueue := rest }.queueReceive env threadnum posted.item) := by
  refine ⟨?_, ?_⟩
  · rw [(System.queueReceive_bufqueue env threadnum { s with bufqueue := rest } posted.item).2]
    exact hconn
  · intro st hst _
    by_cases hbuf : posted.item.buf = []
    · rw [hbuf]
      exact List.nil_infix
    · unfold System.queueReceive at hst
      split at hst
      · rename_i hnone
        simp [hnone] at hst
      · rename_i st₁ hst₁
        rw [if_neg hbuf] at hst
        simp only [System.putState, StateMap.getState_addState_self, Option.some.injEq] at hst
        rw [← hst]
        exact ⟨st₁.appended, [], by simp [FdState.append]⟩

theorem appended_of_posted {as : List Action} {front back : List Posted} {posted : Posted}
    (hqueue : s.bufqueue = front ++ posted :: back) (hconn : conn < s.accepts)
    (hcount : front.length < as.count .dispatch)
    (hrun : (mmsServer env threadnum).run as s = some t) :
    Appended posted.item.fd conn posted.item.buf t := by
  induction as generalizing s front back with
  | nil => simp at hcount
  | cons a as ih =>
      obtain ⟨u, hu, hrest⟩ := Transition.run_cons.mp hrun
      have hstep : System.step env threadnum s a = some u := hu
      have hconn' : conn < u.accepts := Nat.lt_of_lt_of_le hconn (accepts_progress hstep)
      rcases bufqueue_progress hstep with
        ⟨first, rest, rfl, hfirst, hbufqueue, hdispatch⟩ | ⟨hne, more, hmore⟩
      · rw [hqueue] at hfirst
        cases front with
        | nil =>
            rw [List.nil_append, List.cons.injEq] at hfirst
            have happended : Appended posted.item.fd conn posted.item.buf u := by
              rw [hdispatch, ← hfirst.1]
              exact appended_dispatch hconn
            exact appended_run happended hrest
        | cons head front =>
            rw [List.cons_append, List.cons.injEq] at hfirst
            rw [List.count_cons_self, List.length_cons] at hcount
            exact ih (hbufqueue.trans hfirst.2.symm) hconn' (by omega) hrest
      · rw [List.count_cons_of_ne hne] at hcount
        have hqueue' : u.bufqueue = front ++ posted :: (back ++ more) := by
          rw [hmore, hqueue, List.append_assoc, List.cons_append]
        exact ih hqueue' hconn' hcount hrest

/-- No step sends a part of the buffer of `fd`, or closes `fd` on request while there is
something in its buffer. -/
def FlushesFirst (fd : Fd) (s : System) : Action → Prop
  | .write fd' result => fd' = fd → ∀ st ∈ s.fdStates.getState fd, st.SendsWhole result
  | .dispatch => s.bufqueue.head?.map Posted.item = some ⟨fd, []⟩ →
      ∀ st ∈ s.fdStates.getState fd, st.writebuffer = []
  | _ => True

instance (fd : Fd) (s : System) (a : Action) : Decidable (FlushesFirst fd s a) :=
  match a with
  | .write fd' result => inferInstanceAs
      (Decidable (fd' = fd → ∀ st ∈ s.fdStates.getState fd, st.SendsWhole result))
  | .dispatch => inferInstanceAs
      (Decidable (s.bufqueue.head?.map Posted.item = some ⟨fd, []⟩ →
        ∀ st ∈ s.fdStates.getState fd, st.writebuffer = []))
  | .accept _ _ | .receive _ _ | .shutdown _ | .start _ | .turn _ | .effect _ | .finish _ =>
      isTrue trivial

theorem conn_lt_accepts_step (h : ∀ st, s.fdStates.getState fd = some st → st.conn < s.accepts)
    (hstep : System.step env threadnum s a = some t) :
    ∀ st, t.fdStates.getState fd = some st → st.conn < t.accepts := by
  intro st hst
  have hold := accepts_progress hstep
  cases fdProgress hstep fd with
  | same a hother hsame => exact Nat.lt_of_lt_of_le (h st (hsame ▸ hst)) hold
  | accepted port haccepts hnew =>
      rw [hnew, Option.some.injEq] at hst
      rw [← hst, haccepts]
      exact Nat.lt_succ_self _
  | written result st₁ st' hst₁ hsend hwrite hnew =>
      rw [hnew, Option.some.injEq] at hst
      rw [← hst, (FdState.doWrite_same hwrite).2.1]
      exact Nat.lt_of_lt_of_le (h st₁ hst₁) hold
  | appended st₁ buf' hst₁ hnew =>
      rw [hnew, Option.some.injEq] at hst
      rw [← hst]
      exact Nat.lt_of_lt_of_le (h st₁ hst₁) hold
  | freed a hfailed hnone => simp [hnone] at hst

/-- The connection on `fd` accounts for its bytes. -/
structure AccountedOn (fd : Fd) (s : System) : Prop where
  old : ∀ st, s.fdStates.getState fd = some st → st.conn < s.accepts
  accounted : ∀ st, s.fdStates.getState fd = some st → st.Accounted

theorem accountedOn_step (h : AccountedOn fd s) (hguard : FlushesFirst fd s a)
    (hstep : System.step env threadnum s a = some t) : AccountedOn fd t := by
  refine ⟨conn_lt_accepts_step h.old hstep, (accounted_step h.accounted hstep).mpr ?_⟩
  rintro result rfl
  exact hguard rfl

/-- A buffer that was queued for `fd` before a request to close it, over the same connection,
is among the bytes that `send` has taken when the request is dispatched. -/
def RepliesSent (env : ServerEnv) (threadnum : Nat) (fd : Fd) (as : List Action) : Prop :=
  ∀ before between after, as = before ++ (between ++ .dispatch :: after) →
    ∀ s₁ s, (mmsServer env threadnum).run before System.init = some s₁ →
      (mmsServer env threadnum).run between s₁ = some s →
    ∀ queue posted later, s₁.bufqueue = queue ++ posted :: later → posted.item.fd = fd →
      queue.length < between.count .dispatch →
    ∀ close rest, s.bufqueue = close :: rest → close.item = ⟨fd, []⟩ →
    ∀ st₁ st, s₁.fdStates.getState fd = some st₁ → s.fdStates.getState fd = some st →
      st.conn = st₁.conn → posted.item.buf <:+: st.accepted

/-- Replies are sent before the close, in every run that empties the write buffer of the
connection before it takes up the request to close it. -/
theorem replies_sent_before_close (env : ServerEnv) (threadnum : Nat) (fd : Fd)
    (as : List Action)
    (hguard : (mmsServer env threadnum).Guarded (FlushesFirst fd) as System.init) :
    RepliesSent env threadnum fd as := by
  rintro before between after rfl s₁ s hbefore hbetween queue posted later hqueue rfl hcount close
    rest hclose hitem st₁ st hst₁ hst hconn
  obtain ⟨hguard₁, hguard⟩ := hguard.of_append
  obtain ⟨hguard₂, hguard⟩ := (hguard s₁ hbefore).of_append
  have hdispatch : FlushesFirst posted.item.fd s .dispatch := (hguard s hbetween).1
  have hinit : AccountedOn posted.item.fd (mmsServer env threadnum).init := by
    constructor <;>
      · intro st hst
        simp [mmsServer, System.init] at hst
  have hreach₁ := Transition.Reachable.of_guarded .init hguard₁ hbefore
  have hreach := hreach₁.of_guarded hguard₂ hbetween
  have hinv : ∀ s, (mmsServer env threadnum).Reachable (FlushesFirst posted.item.fd) s →
      AccountedOn posted.item.fd s := fun s hs =>
    hs.invariant _ hinit fun s a t hs hguard hstep => accountedOn_step hs hguard hstep
  have happended := appended_of_posted hqueue ((hinv s₁ hreach₁).old st₁ hst₁) hcount hbetween
  have hempty : st.writebuffer = [] := hdispatch (by simp [hclose, hitem]) st hst
  have haccounted : st.accepted ++ st.writebuffer = st.appended := (hinv s hreach).accounted st hst
  rw [hempty, List.append_nil] at haccounted
  rw [haccounted]
  exact happended.appended st hst hconn

/-- In one buffer a client logs in, sends a LOGIN1 and then a byte that begins no frame: an
answer of 36 bytes and a request to close are queued. -/
def malformedAfterLogin1 : List Action :=
  [Action.accept 5 6789, .receive 5 (frame (.login ⟨1, [], []⟩) ++
      frame (.login1 ⟨1, lit "bob", []⟩) ++ [0]), .start 0, .turn 0] ++
    List.replicate 5 (Action.effect 0) ++
    [.turn 0, .effect 0, .effect 0, .turn 0, .effect 0]

theorem answer_sent_before_close :
    ∃ s, (mmsServer default 1).run
        (malformedAfterLogin1 ++ [Action.dispatch, .write 5 (.sent 36), .dispatch]) System.init =
          some s ∧
      RepliesSent default 1 5
        (malformedAfterLogin1 ++ [Action.dispatch, .write 5 (.sent 36), .dispatch]) := by
  have hrun : ((mmsServer default 1).run
      (malformedAfterLogin1 ++ [Action.dispatch, .write 5 (.sent 36), .dispatch])
      System.init).isSome := by decide +kernel
  obtain ⟨s, hs⟩ := Option.isSome_iff_exists.mp hrun
  exact ⟨s, hs, replies_sent_before_close default 1 5 _ (by decide +kernel)⟩

/-- The request is dispatched before the socket has been written to. -/
theorem answer_lost_at_close :
    ∃ s, (mmsServer default 1).run (malformedAfterLogin1 ++ [Action.dispatch, .dispatch])
        System.init = some s ∧
      ¬ RepliesSent default 1 5 (malformedAfterLogin1 ++ [Action.dispatch, .dispatch]) := by
  have hrun : ((mmsServer default 1).run (malformedAfterLogin1 ++ [Action.dispatch, .dispatch])
      System.init).isSome := by decide +kernel
  have hqueued : ((mmsServer default 1).run malformedAfterLogin1 System.init).map (fun s =>
      (s.bufqueue.map (fun m => (m.item.fd, m.item.buf.length)),
        (s.fdStates.getState 5).map FdState.conn)) =
      some ([(5, 36), (5, 0)], some 0) := by decide +kernel
  have hclosing : ((mmsServer default 1).run (malformedAfterLogin1 ++ [Action.dispatch])
      System.init).map (fun s => (s.bufqueue.map Posted.item,
        (s.fdStates.getState 5).map fun st => (st.conn, st.accepted))) =
      some ([⟨5, []⟩], some (0, [])) := by decide +kernel
  obtain ⟨t, ht⟩ := Option.isSome_iff_exists.mp hrun
  obtain ⟨s₁, hs₁, hview₁⟩ := Option.map_eq_some_iff.mp hqueued
  obtain ⟨s, hs, hview⟩ := Option.map_eq_some_iff.mp hclosing
  rw [Transition.run_append, hs₁, Option.bind_some] at hs
  rw [Prod.mk.injEq, List.map_eq_cons_iff, Option.map_eq_some_iff] at hview₁ hview
  obtain ⟨⟨posted, later, hqueue, hposted, -⟩, st₁, hst₁, hconn₁⟩ := hview₁
  obtain ⟨⟨close, rest, hclose, hitem, -⟩, st, hst, hconn⟩ := hview
  rw [Prod.mk.injEq] at hposted hconn
  refine ⟨t, ht, ?_⟩
  intro hsent
  have hpart := hsent malformedAfterLogin1 [Action.dispatch] [] (by simp) s₁ s hs₁ hs [] posted
    later hqueue hposted.1 (by decide) close rest hclose hitem st₁ st hst₁ hst
    (by rw [hconn.1, hconn₁])
  rw [hconn.2, List.infix_nil] at hpart
  simp [hpart] at hposted

end Replies

end MmsSvr
