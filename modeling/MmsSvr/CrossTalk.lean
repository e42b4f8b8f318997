import MmsSvr.System

/-!
Buffers pushed for a connection, when its descriptor may have been given to another
one in the meantime.
-/

namespace MmsSvr

open YYmmsJson
open Lib

/-- Something of the connection `conn` with the descriptor `fd` is still in a queue or
with a worker. -/
inductive Pending (s : System) (fd : Fd) (conn : Nat) : Prop where
  | posted (m : Posted) (hm : m ∈ s.bufqueue) (hfd : m.fd = fd) (hconn : m.conn = conn)
  | waiting (w : Nat) (job : Job) (hjob : job ∈ s.jobs w) (hfd : job.fd = fd)
      (hconn : job.conn = conn)
  | running (w : Nat) (b : Busy) (hb : s.workers w = some b) (hfd : b.job.fd = fd)
      (hconn : b.job.conn = conn)

def Open (s : System) (fd : Fd) (conn : Nat) : Prop :=
  ∃ st, s.fdStates.getState fd = some st ∧ st.conn = conn

section Steps

variable {env : ServerEnv} {threadnum : Nat} {s t : System} {a : Action} {fd : Fd} {conn : Nat}

theorem Pending.mono (h : Pending t fd conn) (hqueue : ∀ m ∈ t.bufqueue, m ∈ s.bufqueue)
    (hjobs : ∀ w, ∀ job ∈ t.jobs w, job ∈ s.jobs w)
    (hworkers : ∀ w b, t.workers w = some b → s.workers w = some b) : Pending s fd conn := by
  cases h with
  | posted m hm hfd hconn => exact .posted m (hqueue m hm) hfd hconn
  | waiting w job hjob hfd hconn => exact .waiting w job (hjobs w job hjob) hfd hconn
  | running w b hb hfd hconn => exact .running w b (hworkers w b hb) hfd hconn

theorem startJob_workers {w w' : Nat} {job : Job} {b : Busy}
    (h : (s.startJob env w job).workers w' = some b) : s.workers w' = some b ∨ b.job = job := by
  unfold System.startJob at h
  split_ifs at h
  · exact Or.inl h
  · by_cases hw : w' = w
    · subst hw
      simp only [Function.update_self, Option.some.injEq] at h
      exact Or.inr (by rw [← h])
    · simp only [Function.update_of_ne hw] at h
      exact Or.inl h
  · by_cases hw : w' = w
    · subst hw
      simp only [Function.update_self, Option.some.injEq] at h
      exact Or.inr (by rw [← h])
    · simp only [Function.update_of_ne hw] at h
      exact Or.inl h

theorem pending_dataReceive {job : Job} (h : Pending (s.dataReceive threadnum job) fd conn) :
    Pending s fd conn ∨ (job.fd = fd ∧ job.conn = conn) := by
  cases h with
  | posted m hm hfd hconn => exact Or.inl (.posted m hm hfd hconn)
  | waiting w job' hjob hfd hconn =>
      rcases System.mem_jobs_dataReceive threadnum s job w hjob with hjob | rfl
      · exact Or.inl (.waiting w job' hjob hfd hconn)
      · exact Or.inr ⟨hfd, hconn⟩
  | running w b hb hfd hconn => exact Or.inl (.running w b hb hfd hconn)

theorem pending_freeFdState {fd' : Fd} {st : FdState}
    (h : Pending (s.freeFdState env threadnum fd' st) fd conn) :
    Pending s fd conn ∨ (fd' = fd ∧ st.conn = conn) := by
  cases h with
  | posted m hm hfd hconn =>
      rw [System.freeFdState_bufqueue] at hm
      exact Or.inl (.posted m hm hfd hconn)
  | waiting w job' hjob hfd hconn =>
      rcases System.mem_jobs_freeFdState env threadnum s fd' st w hjob with hjob | ⟨buf, -, rfl⟩
      · exact Or.inl (.waiting w job' hjob hfd hconn)
      · exact Or.inr ⟨hfd, hconn⟩
  | running w b hb hfd hconn =>
      rw [System.freeFdState_workers] at hb
      exact Or.inl (.running w b hb hfd hconn)

theorem pending_setWorker {w : Nat} {b : Option Busy}
    (h : Pending (s.setWorker w b) fd conn) :
    Pending s fd conn ∨ ∃ b', b = some b' ∧ b'.job.fd = fd ∧ b'.job.conn = conn := by
  cases h with
  | posted m hm hfd hconn => exact Or.inl (.posted m hm hfd hconn)
  | waiting w job hjob hfd hconn => exact Or.inl (.waiting w job hjob hfd hconn)
  | running w' b' hb hfd hconn =>
      by_cases hw : w' = w
      · subst hw
        simp only [System.setWorker, Function.update_self] at hb
        exact Or.inr ⟨b', hb, hfd, hconn⟩
      · simp only [System.setWorker, Function.update_of_ne hw] at hb
        exact Or.inl (.running w' b' hb hfd hconn)

theorem pending_access {w : Nat} {b : Busy} {e : Effect} (hb : s.workers w = some b)
    (h : Pending (s.access b.job e) fd conn) : Pending s fd conn := by
  cases h with
  | posted m hm hfd hconn =>
      cases e with
      | dataSend item =>
          simp only [System.access, List.mem_append, List.mem_singleton] at hm
          rcases hm with hm | rfl
          · exact .posted m hm hfd hconn
          · exact .running w b hb hfd hconn
      | _ => exact .posted m hm hfd hconn
  | waiting w' job hjob hfd hconn =>
      rw [System.access_jobs] at hjob
      exact .waiting w' job hjob hfd hconn
  | running w' b' hb' hfd hconn =>
      rw [System.access_workers] at hb'
      exact .running w' b' hb' hfd hconn

theorem step_pending (hstep : System.step env threadnum s a = some t)
    (h : Pending t fd conn) : Pending s fd conn ∨ Open s fd conn := by
  cases System.step_cases hstep with
  | accept fd' port hfd' hfree hport =>
      exact Or.inl (h.mono (fun _ hm => hm) (fun _ _ hjob => hjob) fun _ _ hb => hb)
  | receive fd' data st hst hdata =>
      rcases pending_dataReceive h with h | ⟨rfl, rfl⟩
      · exact Or.inl h
      · exact Or.inr ⟨st, hst, rfl⟩
  | shutdown fd' st hst =>
      rcases pending_freeFdState h with h | ⟨rfl, rfl⟩
      · exact Or.inl h
      · exact Or.inr ⟨st, hst, rfl⟩
  | written fd' result st st' hst hsend hwrite =>
      exact Or.inl (h.mono (fun _ hm => hm) (fun _ _ hjob => hjob) fun _ _ hb => hb)
  | broken fd' result st hst hwrite =>
      rcases pending_freeFdState h with h | ⟨rfl, rfl⟩
      · exact Or.inl h
      · exact Or.inr ⟨st, hst, rfl⟩
  | dispatch posted rest hqueue =>
      have hrest : ∀ m ∈ rest, m ∈ s.bufqueue := fun m hm => by simp [hqueue, hm]
      unfold System.queueReceive at h
      split at h
      · exact Or.inl (h.mono hrest (fun _ _ hjob => hjob) fun _ _ hb => hb)
      · rename_i st hst
        split at h
        · rcases pending_freeFdState h with h | ⟨rfl, rfl⟩
          · exact Or.inl (h.mono hrest (fun _ _ hjob => hjob) fun _ _ hb => hb)
          · exact Or.inr ⟨st, hst, rfl⟩
        · exact Or.inl (h.mono hrest (fun _ _ hjob => hjob) fun _ _ hb => hb)
  | start w job rest hidle hjobs =>
      left
      have hmem : ∀ w' job', job' ∈ Function.update s.jobs w rest w' → job' ∈ s.jobs w' := by
        intro w' job' hjob'
        by_cases hw : w' = w
        · subst hw
          rw [Function.update_self] at hjob'
          rw [hjobs]
          exact List.mem_cons_of_mem _ hjob'
        · rwa [Function.update_of_ne hw] at hjob'
      cases h with
      | posted m hm hfd hconn =>
          rw [System.startJob_bufqueue] at hm
          exact .posted m hm hfd hconn
      | waiting w' job' hjob' hfd hconn =>
          rw [System.startJob_jobs] at hjob'
          exact .waiting w' job' (hmem w' job' hjob') hfd hconn
      | running w' b hb hfd hconn =>
          rcases startJob_workers hb with hb | hb
          · exact .running w' b hb hfd hconn
          · refine .waiting w job (by simp [hjobs]) ?_ ?_
            · rw [← hb]
              exact hfd
            · rw [← hb]
              exact hconn
  | turn w job l turn hbusy hbuf hturn =>
      left
      rcases pending_setWorker h with h | ⟨b', hb', hfd, hconn⟩
      · exact h.mono (fun _ hm => hm) (fun _ _ hjob => hjob) fun _ _ hb => hb
      · rw [Option.some.injEq] at hb'
        subst hb'
        exact .running w _ hbusy hfd hconn
  | effect w job l e todo hbusy =>
      left
      rcases pending_setWorker h with h | ⟨b', hb', hfd, hconn⟩
      · exact pending_access hbusy h
      · rw [Option.some.injEq] at hb'
        subst hb'
        exact .running w _ hbusy hfd hconn
  | finish w job l hbusy hbuf =>
      left
      rcases pending_setWorker h with h | ⟨b', hb', hfd, hconn⟩
      · exact h
      · simp at hb'

theorem open_putState {fd' : Fd} {st : FdState} (h : Open (s.putState fd' st) fd conn) :
    Open s fd conn ∨ (fd' = fd ∧ st.conn = conn) := by
  obtain ⟨st', hst', hconn⟩ := h
  simp only [System.putState, StateMap.getState_addState] at hst'
  split at hst'
  · rename_i heq
    rw [Option.some.injEq] at hst'
    exact Or.inr ⟨heq.symm, by rw [hst', hconn]⟩
  · exact Or.inl ⟨st', hst', hconn⟩

theorem open_freeFdState {fd' : Fd} {st : FdState}
    (h : Open (s.freeFdState env threadnum fd' st) fd conn) : Open s fd conn := by
  obtain ⟨st', hst', hconn⟩ := h
  rw [System.freeFdState_fdStates, StateMap.getState_delState] at hst'
  split at hst'
  · simp at hst'
  · exact ⟨st', hst', hconn⟩

theorem step_open (hstep : System.step env threadnum s a = some t) (h : Open t fd conn) :
    Open s fd conn ∨ ∃ port, a = .accept fd port := by
  cases System.step_cases hstep with
  | accept fd' port hfd' hfree hport =>
      rcases open_putState h with h | ⟨rfl, -⟩
      · exact Or.inl h
      · exact Or.inr ⟨port, rfl⟩
  | receive fd' data st hst hdata => exact Or.inl h
  | shutdown fd' st hst => exact Or.inl (open_freeFdState h)
  | written fd' result st st' hst hsend hwrite =>
      rcases open_putState h with h | ⟨rfl, hconn⟩
      · exact Or.inl h
      · exact Or.inl ⟨st, hst, by rw [← hconn, (FdState.doWrite_same hwrite).2.1]⟩
  | broken fd' result st hst hwrite => exact Or.inl (open_freeFdState h)
  | dispatch posted rest hqueue =>
      left
      unfold System.queueReceive at h
      split at h
      · exact h
      · rename_i st hst
        split at h
        · exact open_freeFdState (s := { s with bufqueue := rest }) h
        · rcases open_putState h with h | ⟨rfl, hconn⟩
          · exact h
          · exact ⟨st, hst, hconn⟩
  | start w job rest hidle hjobs =>
      obtain ⟨st, hst, hconn⟩ := h
      rw [System.startJob_fdStates] at hst
      exact Or.inl ⟨st, hst, hconn⟩
  | turn w job l turn hbusy hbuf hturn => exact Or.inl h
  | effect w job l e todo hbusy =>
      obtain ⟨st, hst, hconn⟩ := h
      rw [System.setWorker_fdStates, System.access_fdStates] at hst
      exact Or.inl ⟨st, hst, hconn⟩
  | finish w job l hbusy hbuf => exact Or.inl h

end Steps

section CrossTalk

variable {env : ServerEnv} {threadnum : Nat} {s : System}

/-- What is pending for an open descriptor belongs to the connection that is open. -/
def Current (s : System) : Prop :=
  ∀ fd conn conn', Pending s fd conn → Open s fd conn' → conn = conn'

/-- A descriptor is given out again only when nothing of its earlier connections is
left. -/
def FreshDescriptor (s : System) : Action → Prop
  | .accept fd _ => ∀ conn, ¬ Pending s fd conn
  | _ => True

theorem Open.unique {fd : Fd} {conn conn' : Nat} (h : Open s fd conn) (h' : Open s fd conn') :
    conn = conn' := by
  obtain ⟨st, hst, rfl⟩ := h
  obtain ⟨st', hst', rfl⟩ := h'
  rw [hst, Option.some.injEq] at hst'
  rw [hst']

theorem reachable_current (h : (mmsServer env threadnum).Reachable FreshDescriptor s) :
    Current s := by
  refine h.invariant Current ?_ ?_
  · rintro fd conn conn' - ⟨st, hst, -⟩
    simp [mmsServer, System.init] at hst
  · intro s a t hs hguard hstep fd conn conn' hpending hopen
    have hbefore := step_pending hstep hpending
    rcases step_open hstep hopen with hopen | ⟨port, rfl⟩
    · rcases hbefore with hpending | hopen'
      · exact hs fd conn conn' hpending hopen
      · exact hopen'.unique hopen
    · rcases hbefore with hpending | ⟨st, hst, -⟩
      · exact absurd hpending (hguard conn)
      · have haccept : System.step env threadnum s (.accept fd port) = some t := hstep
        cases System.step_cases haccept with
        | accept _ _ _ hfree _ => simp [hfree] at hst

/-- What a worker pushes for the descriptor whose bytes it handles reaches no other
connection than the one the bytes came from, in every run that gives out descriptors
only when nothing of their earlier connections is left. -/
theorem no_cross_talk (env : ServerEnv) (threadnum : Nat) (s t : System)
    (h : (mmsServer env threadnum).Reachable FreshDescriptor s) (m : Posted) (rest : List Posted)
    (hqueue : s.bufqueue = m :: rest) (hfd : m.item.fd = m.fd)
    (hstep : (mmsServer env threadnum).step s .dispatch = some t) (fd : Fd) (st : FdState)
    (hst : s.fdStates.getState fd = some st) (hconn : st.conn ≠ m.conn) :
    t.fdStates.getState fd = some st := by
  have hne : fd ≠ m.item.fd := by
    rintro rfl
    refine hconn (reachable_current h m.item.fd m.conn st.conn ?_ ⟨st, hst, rfl⟩).symm
    exact .posted m (by simp [hqueue]) hfd.symm rfl
  have hdispatch : System.step env threadnum s .dispatch = some t := hstep
  simp only [System.step, hqueue, Option.some.injEq] at hdispatch
  rw [← hdispatch]
  unfold System.queueReceive
  split
  · exact hst
  · split
    · rw [System.freeFdState_fdStates, StateMap.getState_delState_of_ne _ hne]
      exact hst
    · rw [System.putState, StateMap.getState_addState_of_ne _ _ hne]
      exact hst

/-- A client on descriptor 5 logs in and its LOGIN1 is handled. -/
def loginOnFive : List Action :=
  [Action.receive 5 (frame (.login ⟨1, [], []⟩) ++ frame (.login1 ⟨1, [], []⟩)), .start 0,
    .turn 0] ++ List.replicate 5 (Action.effect 0) ++ [Action.turn 0] ++
    List.replicate 2 (Action.effect 0) ++ [Action.finish 0]

theorem fresh_of_idle (hqueue : s.bufqueue = []) (hjobs : ∀ w, s.jobs w = [])
    (hworkers : ∀ w, s.workers w = none) (a : Action) : FreshDescriptor s a := by
  cases a with
  | accept fd port =>
      intro conn h
      cases h with
      | posted m hm => simp [hqueue] at hm
      | waiting w job hjob => simp [hjobs] at hjob
      | running w b hb => simp [hworkers] at hb
  | _ => trivial

theorem fresh_loginOnFive : ∀ a ∈ loginOnFive, ∀ s, FreshDescriptor s a := by
  intro a ha s
  cases a with
  | accept fd port => simp [loginOnFive] at ha
  | _ => trivial

theorem no_cross_talk_login :
    ∃ s t m rest st,
      (mmsServer default 1).run ([Action.accept 6 6789, .accept 5 6789] ++ loginOnFive)
        System.init = some s ∧ s.bufqueue = m :: rest ∧
      (mmsServer default 1).step s .dispatch = some t ∧ s.fdStates.getState 6 = some st ∧
      t.fdStates.getState 6 = some st := by
  have hrun : ((mmsServer default 1).run ([Action.accept 6 6789, .accept 5 6789] ++ loginOnFive)
      System.init).map (fun s => (s.bufqueue.map (fun m => (m.item.fd, m.fd, m.conn)),
        ((mmsServer default 1).step s .dispatch).isSome,
        (s.fdStates.getState 6).map FdState.conn)) = some ([(5, 5, 1)], true, some 0) := by
    decide +kernel
  obtain ⟨s, hs, hstate⟩ := Option.map_eq_some_iff.mp hrun
  simp only [Prod.mk.injEq] at hstate
  obtain ⟨hqueue, hstep, hsix⟩ := hstate
  obtain ⟨m, rest, hm, hdata, -⟩ := List.map_eq_cons_iff.mp hqueue
  simp only [Prod.mk.injEq] at hdata
  obtain ⟨t, ht⟩ := Option.isSome_iff_exists.mp hstep
  obtain ⟨st, hst, hconn⟩ := Option.map_eq_some_iff.mp hsix
  have hguard : (mmsServer default 1).Guarded FreshDescriptor
      ([Action.accept 6 6789, .accept 5 6789] ++ loginOnFive) System.init := by
    refine ⟨?_, fun u hu => ⟨?_, fun v _ => ?_⟩⟩
    · exact fresh_of_idle rfl (fun _ => rfl) (fun _ => rfl) _
    · have haccept : System.step default 1 System.init (.accept 6 6789) = some u := hu
      cases System.step_cases haccept with
      | accept _ _ _ _ _ => exact fresh_of_idle rfl (fun _ => rfl) (fun _ => rfl) _
    · exact Transition.guarded_of_forall fresh_loginOnFive v
  refine ⟨s, t, m, rest, st, hs, hm, ht, hst, ?_⟩
  refine no_cross_talk default 1 s t (.of_guarded .init hguard hs) m rest hm ?_ ht 6 st hst ?_
  · rw [hdata.1, hdata.2.1]
  · rw [hconn, hdata.2.2]
    decide

/-- A client that is logged in disconnects and another one gets its descriptor: the
answer to the logout of the first is put into the write buffer of the second. -/
theorem cross_talk_logoutRes :
    ∃ s t m rest st st', (mmsServer default 1).run ([Action.accept 5 6789,
        .receive 5 (frame (.login ⟨1, [], []⟩)), .start 0, .turn 0] ++
        List.replicate 5 (Action.effect 0) ++
          [Action.finish 0, .shutdown 5, .accept 5 6789, .start 0,
        .turn 0, .effect 0]) System.init = some s ∧ s.bufqueue = m :: rest ∧
      m.fd = 5 ∧ m.item = ⟨5, frame (.logoutRes ⟨1⟩)⟩ ∧ m.conn = 0 ∧
      (mmsServer default 1).step s .dispatch = some t ∧ s.fdStates.getState 5 = some st ∧
      st.conn = 1 ∧ t.fdStates.getState 5 = some st' ∧
      st'.writebuffer = st.writebuffer ++ frame (.logoutRes ⟨1⟩) := by
  have hrun : (((mmsServer default 1).run ([Action.accept 5 6789,
      .receive 5 (frame (.login ⟨1, [], []⟩)), .start 0, .turn 0] ++
      List.replicate 5 (Action.effect 0) ++ [Action.finish 0, .shutdown 5, .accept 5 6789, .start 0,
      .turn 0, .effect 0]) System.init).map (fun s => (s.bufqueue,
        s.fdStates.getState 5, ((mmsServer default 1).step s .dispatch).bind fun t =>
          t.fdStates.getState 5))) =
      some ([⟨⟨5, frame (.logoutRes ⟨1⟩)⟩, 5, 0⟩], some (.alloc 6789 1),
        some ((FdState.alloc 6789 1).append (frame (.logoutRes ⟨1⟩)))) := by
    decide +kernel
  obtain ⟨s, hs, hstate⟩ := Option.map_eq_some_iff.mp hrun
  simp only [Prod.mk.injEq] at hstate
  obtain ⟨hqueue, hst, hdispatch⟩ := hstate
  obtain ⟨t, ht, hst'⟩ := Option.bind_eq_some_iff.mp hdispatch
  exact ⟨s, t, _, [], _, _, hs, hqueue, rfl, rfl, rfl, ht, hst, rfl, hst', rfl⟩

end CrossTalk

end MmsSvr
