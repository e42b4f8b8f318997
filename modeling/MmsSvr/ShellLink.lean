import MmsSvr.Sessions
import MmsSvr.StaleSession

/-!
The descriptor of its shell client, which a session keeps.
-/

namespace MmsSvr

open YYmmsJson
open Lib

section Link

variable (env : ServerEnv)

def OpenShell (s : System) (fd : Fd) (conn : Nat) : Prop :=
  ∃ st, s.fdStates.getState fd = some st ∧ st.listenPort = env.mangport ∧ st.conn = conn

/-- The descriptor in a session is that of an open connection of a shell client, which has
reported for the `yyID` of the session. -/
def LinkAlive (s : System × List Event) : Prop :=
  ∀ p, Known s.1 p → (s.1.srv.heap p).shellClientFd ≠ 0 →
    ∃ conn found, OpenShell env s.1 (s.1.srv.heap p).shellClientFd conn ∧
      .svrInit (s.1.srv.heap p).shellClientFd conn (s.1.srv.heap p).yyID found ∈ s.2

/-- No session holds `fd`, and nothing that came from it over the management port is
waiting or being handled. -/
structure ShellIdle (s : System) (fd : Fd) : Prop where
  unlinked : ∀ p, Known s p → (s.srv.heap p).shellClientFd ≠ fd
  waiting : ∀ w, ∀ job ∈ s.jobs w, job.port = env.mangport → job.fd ≠ fd
  running : ∀ w b, s.workers w = some b → b.job.port = env.mangport → b.job.fd ≠ fd

/-- The `yyID` of a LOGIN for the session at `p`. -/
def Event.loginOf (p : Ptr) : Event → Option UInt32
  | .login q yyID _ => if q = p then some yyID else none
  | _ => none

/-- A LOGIN names the user that the session had before, and a shell client reports for a
session that has the `yyID` it names. -/
def keepsYyID (log : List Event) (srv : Server) : Event → Prop
  | .login p yyID _ => ∀ ev ∈ log, ∀ yyID' ∈ ev.loginOf p, yyID' = yyID
  | .svrInit _ _ yyID (some p) => (srv.heap p).yyID = yyID
  | _ => True

instance (log : List Event) (srv : Server) : DecidablePred (keepsYyID log srv)
  | .login p yyID _ =>
      have (ev : Event) : Decidable (∀ yyID' ∈ ev.loginOf p, yyID' = yyID) :=
        Option.decidableForallMem _
      inferInstanceAs (Decidable (∀ ev ∈ log, ∀ yyID' ∈ ev.loginOf p, yyID' = yyID))
  | .svrInit _ _ yyID (some p) => inferInstanceAs (Decidable ((srv.heap p).yyID = yyID))
  | .svrInit _ _ _ none => isTrue trivial
  | .login1 _ _ => isTrue trivial
  | .openUrl _ _ => isTrue trivial
  | .logout _ _ => isTrue trivial

/-- A descriptor is closed only when no session holds it, and users stay who they are. -/
structure KeepsLinks (s : System × List Event) (a : Action) : Prop where
  closes : ∀ fd ∈ closing s.1 a, ShellIdle env s.1 fd
  turns : ∀ ev ∈ stepEvents env s.1 a, keepsYyID s.2 s.1.srv ev

/-- What a link, present or pending, of the session at `p` rests on. -/
def Backing (s : System × List Event) (p : Ptr) (fd : Fd) (conn : Nat) : Prop :=
  (∃ found, .svrInit fd conn (s.1.srv.heap p).yyID found ∈ s.2) ∧
    ∃ accepted, .login p (s.1.srv.heap p).yyID accepted ∈ s.2

structure LinksHeld (s : System × List Event) : Prop where
  tracked : Tracked env s
  once : ∀ p yyID yyID' accepted accepted', .login p yyID accepted ∈ s.2 →
    .login p yyID' accepted' ∈ s.2 → yyID = yyID'
  waiting : ∀ w, ∀ job ∈ s.1.jobs w, job.port = env.mangport → OpenShell env s.1 job.fd job.conn
  running : ∀ w b, s.1.workers w = some b → b.job.port = env.mangport →
    OpenShell env s.1 b.job.fd b.job.conn
  linked : ∀ p, Known s.1 p → (s.1.srv.heap p).shellClientFd ≠ 0 →
    ∃ conn, OpenShell env s.1 (s.1.srv.heap p).shellClientFd conn ∧
      Backing s p (s.1.srv.heap p).shellClientFd conn
  pending : ∀ w b, s.1.workers w = some b → b.job.port = env.mangport →
    ∀ e ∈ b.todo, ∀ p, e.mentions p → Backing s p b.job.fd b.job.conn

end Link

section Steps

variable {env : ServerEnv} {threadnum : Nat} {s t : System} {log : List Event} {fd : Fd}
  {p : Ptr} {conn : Nat}

theorem OpenShell.of_fdStates (h : OpenShell env s fd conn) (hstates : t.fdStates = s.fdStates) :
    OpenShell env t fd conn := by
  obtain ⟨st, hst, hrest⟩ := h
  refine ⟨st, ?_, hrest⟩
  rw [hstates, hst]

theorem Backing.of_yyID (h : Backing (s, log) p fd conn)
    (hyyID : (t.srv.heap p).yyID = (s.srv.heap p).yyID) : Backing (t, log) p fd conn := by
  unfold Backing
  rw [hyyID]
  exact h

theorem Backing.append (h : Backing (s, log) p fd conn) {events : List Event}
    (hheap : (t.srv.heap p).yyID = (s.srv.heap p).yyID) :
    Backing (t, log ++ events) p fd conn := by
  obtain ⟨⟨found, hreport⟩, accepted, hlogin⟩ := h
  unfold Backing
  rw [hheap]
  exact ⟨⟨found, List.mem_append_left _ hreport⟩, accepted, List.mem_append_left _ hlogin⟩

theorem linksHeld_loop (h : LinksHeld env (s, log)) (htracked : Tracked env (t, log))
    (hsrv : t.srv = s.srv) (hworkers : t.workers = s.workers)
    (hjobs : ∀ w, ∀ job ∈ t.jobs w, job.port = env.mangport →
      job ∈ s.jobs w ∨ OpenShell env t job.fd job.conn)
    (hopen : ∀ fd conn, OpenShell env s fd conn →
      ((∃ p, Known s p ∧ (s.srv.heap p).shellClientFd = fd) ∨
      (∃ w, ∃ job ∈ s.jobs w, job.port = env.mangport ∧ job.fd = fd) ∨
      ∃ w b, s.workers w = some b ∧ b.job.port = env.mangport ∧ b.job.fd = fd) →
      OpenShell env t fd conn) : LinksHeld env (t, log) := by
  have hbacking : ∀ p fd conn, Backing (s, log) p fd conn → Backing (t, log) p fd conn :=
    fun p _ _ hb => hb.of_yyID (by rw [hsrv])
  refine ⟨htracked, h.once, ?_, ?_, ?_, ?_⟩
  · intro w job hjob hport
    rcases hjobs w job hjob hport with hold | hnew
    · exact hopen _ _ (h.waiting w job hold hport) (Or.inr (Or.inl ⟨w, job, hold, hport, rfl⟩))
    · exact hnew
  · rw [hworkers]
    intro w b hb hport
    exact hopen _ _ (h.running w b hb hport) (Or.inr (Or.inr ⟨w, b, hb, hport, rfl⟩))
  · intro p hknown hp
    rw [hsrv] at hp
    have hknown' := known_loop hsrv hworkers hknown
    obtain ⟨conn, hshell, hb⟩ := h.linked p hknown' hp
    rw [hsrv]
    exact ⟨conn, hopen _ _ hshell (Or.inl ⟨p, hknown', rfl⟩), hbacking _ _ _ hb⟩
  · rw [hworkers]
    intro w b hb hport e he p hp
    exact hbacking _ _ _ (h.pending w b hb hport e he p hp)

theorem linksHeld_accept {port : UInt32} (h : LinksHeld env (s, log))
    (hfree : s.fdStates.getState fd = none)
    (htracked : Tracked env
      ({ s.putState fd (.alloc port s.accepts) with accepts := s.accepts + 1 }, log)) :
    LinksHeld env
      ({ s.putState fd (.alloc port s.accepts) with accepts := s.accepts + 1 }, log) := by
  refine linksHeld_loop h htracked rfl rfl (fun w job hjob _ => Or.inl hjob) ?_
  rintro fd' conn ⟨st, hst, hport, hconn⟩ -
  have hne : fd' ≠ fd := by
    rintro rfl
    simp [hfree] at hst
  exact ⟨st, (StateMap.getState_addState_of_ne _ _ hne).trans hst, hport, hconn⟩

theorem linksHeld_putState {st st' : FdState} (h : LinksHeld env (s, log))
    (hst : s.fdStates.getState fd = some st) (hport : st'.listenPort = st.listenPort)
    (hconn : st'.conn = st.conn) (htracked : Tracked env (s.putState fd st', log)) :
    LinksHeld env (s.putState fd st', log) := by
  refine linksHeld_loop h htracked rfl rfl (fun w job hjob _ => Or.inl hjob) ?_
  rintro fd' conn ⟨st₁, hst₁, hport₁, hconn₁⟩ -
  by_cases hfd : fd' = fd
  · subst hfd
    rw [hst, Option.some.injEq] at hst₁
    subst hst₁
    exact ⟨st', StateMap.getState_addState_self _ _ _, hport.trans hport₁, hconn.trans hconn₁⟩
  · exact ⟨st₁, (StateMap.getState_addState_of_ne _ _ hfd).trans hst₁, hport₁, hconn₁⟩

theorem linksHeld_receive {data : Bytes} {st : FdState} (h : LinksHeld env (s, log))
    (hst : s.fdStates.getState fd = some st)
    (htracked : Tracked env
      (s.dataReceive threadnum ⟨fd, data, st.listenPort, st.conn⟩, log)) :
    LinksHeld env (s.dataReceive threadnum ⟨fd, data, st.listenPort, st.conn⟩, log) := by
  refine linksHeld_loop h htracked rfl rfl ?_ (fun fd' conn hopen _ => hopen)
  intro w job hjob hport
  rcases System.mem_jobs_dataReceive threadnum s _ w hjob with hjob | rfl
  · exact Or.inl hjob
  · exact Or.inr ⟨st, hst, hport, rfl⟩

theorem linksHeld_free {st : FdState} (hports : env.port ≠ env.mangport)
    (h : LinksHeld env (s, log)) (hidle : ShellIdle env s fd)
    (htracked : Tracked env (s.freeFdState env threadnum fd st, log)) :
    LinksHeld env (s.freeFdState env threadnum fd st, log) := by
  refine linksHeld_loop h htracked (System.freeFdState_srv _ _ _ _ _)
    (System.freeFdState_workers _ _ _ _ _) ?_ ?_
  · intro w job hjob hport
    rcases System.mem_jobs_freeFdState env threadnum s fd st w hjob with hjob | ⟨buf, -, rfl⟩
    · exact Or.inl hjob
    · exact absurd hport hports
  · rintro fd' conn ⟨st₁, hst₁, hport₁, hconn₁⟩ hused
    have hne : fd' ≠ fd := by
      rintro rfl
      rcases hused with ⟨p, hknown, hp⟩ | ⟨w, job, hjob, hport, hfd⟩ | ⟨w, b, hb, hport, hfd⟩
      · exact hidle.unlinked p hknown hp
      · exact hidle.waiting w job hjob hport hfd
      · exact hidle.running w b hb hport hfd
    refine ⟨st₁, ?_, hport₁, hconn₁⟩
    rw [System.freeFdState_fdStates, StateMap.getState_delState_of_ne _ hne]
    exact hst₁

theorem linksHeld_queueReceive {item : QueueItem} (hports : env.port ≠ env.mangport)
    (h : LinksHeld env (s, log)) (hidle : item.buf = [] → ShellIdle env s item.fd)
    (htracked : Tracked env (s.queueReceive env threadnum item, log)) :
    LinksHeld env (s.queueReceive env threadnum item, log) := by
  unfold System.queueReceive at htracked ⊢
  split
  · exact h
  · rename_i st hst
    simp only [hst] at htracked
    split
    · rename_i hbuf
      rw [if_pos hbuf] at htracked
      exact linksHeld_free hports h (hidle hbuf) htracked
    · rename_i hbuf
      rw [if_neg hbuf] at htracked
      exact linksHeld_putState h hst rfl rfl htracked

theorem linksHeld_idle {w' : Nat} {b' : Option Busy} (h : LinksHeld env (s, log))
    (htracked : Tracked env (t, log)) (hsame : SameButBuffers s.srv t.srv)
    (hstates : t.fdStates = s.fdStates) (hjobs : ∀ w, ∀ job ∈ t.jobs w, job ∈ s.jobs w)
    (hworkers : t.workers = Function.update s.workers w' b')
    (hb' : ∀ b, b' = some b → b.job ∈ s.jobs w' ∧ b.todo = [] ∧
      (b.locals.state = none ∨ b.locals.state = s.srv.fdIndex.getState b.job.fd)) :
    LinksHeld env (t, log) := by
  have hopen : ∀ fd conn, OpenShell env s fd conn → OpenShell env t fd conn :=
    fun _ _ hshell => hshell.of_fdStates hstates
  have hheap : ∀ p, (t.srv.heap p).shellClientFd = (s.srv.heap p).shellClientFd ∧
      (t.srv.heap p).yyID = (s.srv.heap p).yyID := by
    intro p
    obtain ⟨buf, hbuf⟩ := hsame.heap p
    rw [hbuf]
    exact ⟨rfl, rfl⟩
  have hbacking : ∀ p fd conn, Backing (s, log) p fd conn → Backing (t, log) p fd conn :=
    fun p _ _ hb => hb.of_yyID (hheap p).2
  refine ⟨htracked, h.once, ?_, ?_, ?_, ?_⟩
  · intro w job hjob hport
    exact hopen _ _ (h.waiting w job (hjobs w job hjob) hport)
  · rw [hworkers]
    refine forall_workers_update (fun w b hb hport => hopen _ _ (h.running w b hb hport)) ?_
    intro b hb hport
    exact hopen _ _ (h.waiting w' b.job (hb' b hb).1 hport)
  · intro p hknown hp
    rw [(hheap p).1] at hp
    obtain ⟨conn, hshell, hb⟩ :=
      h.linked p (known_idle hsame hworkers (fun b hb => (hb' b hb).2) hknown) hp
    rw [(hheap p).1]
    exact ⟨conn, hopen _ _ hshell, hbacking _ _ _ hb⟩
  · rw [hworkers]
    refine forall_workers_update
      (fun w b hb hport e he p hp => hbacking _ _ _ (h.pending w b hb hport e he p hp)) ?_
    intro b hb hport e he
    simp [(hb' b hb).2.1] at he

theorem linksHeld_start {w : Nat} {job : Job} {rest : List Job} (h : LinksHeld env (s, log))
    (hjobs : s.jobs w = job :: rest)
    (htracked : Tracked env
      ({ s with jobs := Function.update s.jobs w rest }.startJob env w job, log)) :
    LinksHeld env ({ s with jobs := Function.update s.jobs w rest }.startJob env w job, log) := by
  have hrest : ∀ w', ∀ job' ∈ Function.update s.jobs w rest w', job' ∈ s.jobs w' := by
    intro w' job' hjob'
    by_cases hw : w' = w
    · subst hw
      rw [Function.update_self] at hjob'
      rw [hjobs]
      exact List.mem_cons_of_mem _ hjob'
    · rwa [Function.update_of_ne hw] at hjob'
  have hidle : ∀ b l, (l.state = none ∨ l.state = s.srv.fdIndex.getState job.fd) →
      some (⟨job, l, []⟩ : Busy) = some b → b.job ∈ s.jobs w ∧ b.todo = [] ∧
        (b.locals.state = none ∨ b.locals.state = s.srv.fdIndex.getState b.job.fd) := by
    intro b l hstate hb
    rw [Option.some.injEq] at hb
    rw [← hb]
    exact ⟨by simp [hjobs], rfl, hstate⟩
  unfold System.startJob at htracked ⊢
  by_cases hfd : job.fd = 0
  · rw [if_pos hfd] at htracked ⊢
    exact linksHeld_loop h htracked rfl rfl
      (fun w' job' hjob' _ => Or.inl (hrest w' job' hjob')) (fun fd conn hopen _ => hopen)
  · rw [if_neg hfd] at htracked ⊢
    by_cases hport : job.port = env.mangport
    · rw [if_pos hport] at htracked ⊢
      exact linksHeld_idle h htracked (sameButBuffers_of_eq rfl) rfl hrest rfl
        (fun b => hidle b _ (Or.inl rfl))
    · rw [if_neg hport] at htracked ⊢
      obtain ⟨hsame, hstate⟩ := sameButBuffers_jsonBegin s.srv job.fd job.buf
      exact linksHeld_idle h htracked hsame rfl hrest rfl (fun b => hidle b _ (Or.inr hstate))

theorem linksHeld_turn {w' : Nat} {job : Job} {l : Locals} {turn : Turn} {event : Option Event}
    (h : LinksHeld env (s, log)) (htracked : Tracked env (t, log ++ event.toList))
    (hbusy : s.workers w' = some ⟨job, l, []⟩) (hworked : Worked env job s.srv l turn event)
    (hguard : ∀ ev ∈ event.toList, keepsYyID log s.srv ev) (hsrv : t.srv = turn.srv)
    (hstates : t.fdStates = s.fdStates) (hjobs : t.jobs = s.jobs)
    (hworkers : t.workers =
      Function.update s.workers w' (some ⟨job, turn.locals, turn.effects⟩)) :
    LinksHeld env (t, log ++ event.toList) := by
  have hheap : t.srv.heap = s.srv.heap := by rw [hsrv, hworked.fdIndex.2.2.1]
  have hopen : ∀ fd conn, OpenShell env s fd conn → OpenShell env t fd conn :=
    fun _ _ hshell => hshell.of_fdStates hstates
  have hbacking : ∀ p fd conn, Backing (s, log) p fd conn →
      Backing (t, log ++ event.toList) p fd conn := fun p fd conn hb =>
    hb.append (by rw [hheap])
  -- a new LOGIN names the user of the earlier ones
  have hlogin : ∀ p yyID yyID' accepted accepted', .login p yyID accepted ∈ log →
      .login p yyID' accepted' ∈ event.toList → yyID = yyID' := by
    intro p yyID yyID' accepted accepted' hold hnew
    exact hguard _ hnew _ hold yyID (by simp [Event.loginOf])
  refine ⟨htracked, ?_, ?_, ?_, ?_, ?_⟩
  · intro p yyID yyID' accepted accepted' hmem hmem'
    rcases List.mem_append.mp hmem with hold | hnew <;>
      rcases List.mem_append.mp hmem' with hold' | hnew'
    · exact h.once p yyID yyID' accepted accepted' hold hold'
    · exact hlogin p yyID yyID' accepted accepted' hold hnew'
    · exact (hlogin p yyID' yyID accepted' accepted hold' hnew).symm
    · rw [Option.mem_toList] at hnew hnew'
      rw [hnew] at hnew'
      simp only [Option.some.injEq, Event.login.injEq] at hnew'
      exact hnew'.2.1
  · intro w job' hjob' hport
    rw [hjobs] at hjob'
    exact hopen _ _ (h.waiting w job' hjob' hport)
  · rw [hworkers]
    refine forall_workers_set (fun w b hb hport => hopen _ _ (h.running w b hb hport)) ?_
    intro hport
    exact hopen _ _ (h.running w' ⟨job, l, []⟩ hbusy hport)
  · intro p hknown hp
    rw [hheap] at hp
    rw [hheap]
    rcases known_turn hbusy hworked hsrv hworkers hknown with hknown' | hnew
    · obtain ⟨conn, hshell, hb⟩ := h.linked p hknown' hp
      exact ⟨conn, hopen _ _ hshell, hbacking _ _ _ hb⟩
    · exact absurd (h.tracked.unborn p (Nat.le_of_eq hnew.symm)) hp
  · rw [hworkers]
    refine forall_workers_set
      (fun w b hb hport e he p hp => hbacking _ _ _ (h.pending w b hb hport e he p hp)) ?_
    intro hport e he p hp
    have hsession := (hworked.made e he).session hp
    cases hworked with
    | idle effects buf heffects => simp at hsession
    | register hne => exact absurd hport hne
    | relogin hne => exact absurd hport hne
    | command hne => exact absurd hport hne
    | report _ offset c hparse =>
        have hfound : s.srv.userData.getState c.yyID = some p := hsession
        have hyyID : (s.srv.heap p).yyID = c.yyID := by
          have hkeeps := hguard (.svrInit job.fd job.conn c.yyID (s.srv.userData.getState c.yyID))
            (by simp)
          rw [hfound] at hkeeps
          exact hkeeps
        obtain ⟨-, accepted, hmem⟩ := h.tracked.user c.yyID p hfound
        unfold Backing
        rw [hheap, hyyID]
        exact ⟨⟨s.srv.userData.getState c.yyID, List.mem_append_right _ (by simp)⟩, accepted,
          List.mem_append_left _ hmem⟩

section Access

variable {w' : Nat} {job : Job} {l : Locals} {e : Effect} {todo : List Effect} {q : Ptr}
  {f : ItemData → ItemData}

/-- The worker `w'` has made the access `e`, and nothing else has changed. -/
structure Accessed (s t : System) (w' : Nat) (job : Job) (l : Locals) (e : Effect)
    (todo : List Effect) : Prop where
  busy : s.workers w' = some ⟨job, l, e :: todo⟩
  srv : t.srv = s.srv.apply e
  fdStates : t.fdStates = s.fdStates
  jobs : t.jobs = s.jobs
  workers : t.workers = Function.update s.workers w' (some ⟨job, l, todo⟩)

theorem accessed_step (hbusy : s.workers w' = some ⟨job, l, e :: todo⟩) :
    Accessed s ((s.access job e).setWorker w' (some ⟨job, l, todo⟩)) w' job l e todo := by
  refine ⟨hbusy, ?_, ?_, ?_, ?_⟩
  · cases e <;> rfl
  · rw [System.setWorker_fdStates, System.access_fdStates]
  · rw [System.setWorker_jobs, System.access_jobs]
  · rw [System.setWorker, System.access_workers]

theorem Accessed.heap_self (hacc : Accessed s t w' job l (.assign q f) todo) :
    t.srv.heap q = f (s.srv.heap q) := by
  rw [hacc.srv, heap_assign, if_pos rfl]

theorem Accessed.heap_other (hacc : Accessed s t w' job l (.assign q f) todo) (hp : p ≠ q) :
    t.srv.heap p = s.srv.heap p := by
  rw [hacc.srv, heap_assign, if_neg hp]

theorem Accessed.pending (hacc : Accessed s t w' job l e todo) (hport : job.port ≠ env.mangport)
    {w : Nat} {b : Busy} (hb : t.workers w = some b) (hbport : b.job.port = env.mangport) :
    w ≠ w' ∧ s.workers w = some b := by
  rw [hacc.workers] at hb
  by_cases hw : w = w'
  · subst hw
    rw [Function.update_self, Option.some.injEq] at hb
    rw [← hb] at hbport
    exact absurd hbport hport
  · rw [Function.update_of_ne hw] at hb
    exact ⟨hw, hb⟩

theorem linksHeld_access (h : LinksHeld env (s, log)) (htracked : Tracked env (t, log))
    (hacc : Accessed s t w' job l e todo)
    (hkeep : ∀ p, (∃ w b, t.workers w = some b ∧ b.job.port = env.mangport ∧
      ∃ e' ∈ b.todo, e'.mentions p) → (t.srv.heap p).yyID = (s.srv.heap p).yyID)
    (hlink : ∀ p, Known s p → (t.srv.heap p).shellClientFd ≠ 0 →
      ∃ conn, OpenShell env s (t.srv.heap p).shellClientFd conn ∧
        Backing (t, log) p (t.srv.heap p).shellClientFd conn) : LinksHeld env (t, log) := by
  have hopen : ∀ fd conn, OpenShell env s fd conn → OpenShell env t fd conn :=
    fun _ _ hshell => hshell.of_fdStates hacc.fdStates
  refine ⟨htracked, h.once, ?_, ?_, ?_, ?_⟩
  · intro w job' hjob' hport
    rw [hacc.jobs] at hjob'
    exact hopen _ _ (h.waiting w job' hjob' hport)
  · rw [hacc.workers]
    refine forall_workers_set (fun w b hb hport => hopen _ _ (h.running w b hb hport)) ?_
    intro hport
    exact hopen _ _ (h.running w' ⟨job, l, e :: todo⟩ hacc.busy hport)
  · intro p hknown hp
    obtain ⟨conn, hshell, hb⟩ := hlink p (known_effect hacc.busy hacc.srv hacc.workers hknown) hp
    exact ⟨conn, hopen _ _ hshell, hb⟩
  · intro w b hb hport e' he' p hp
    refine Backing.of_yyID ?_ (hkeep p ⟨w, b, hb, hport, e', he', hp⟩)
    rw [hacc.workers] at hb
    by_cases hw : w = w'
    · subst hw
      rw [Function.update_self, Option.some.injEq] at hb
      rw [← hb] at hport he' ⊢
      exact h.pending w ⟨job, l, e :: todo⟩ hacc.busy hport e' (List.mem_cons_of_mem _ he') p hp
    · rw [Function.update_of_ne hw] at hb
      exact h.pending w b hb hport e' he' p hp

theorem linked_of_same (h : LinksHeld env (s, log)) (hknown : Known s p)
    (hlink : (t.srv.heap p).shellClientFd = (s.srv.heap p).shellClientFd)
    (hyyID : ∀ fd conn, Backing (s, log) p fd conn → (t.srv.heap p).yyID = (s.srv.heap p).yyID)
    (hp : (t.srv.heap p).shellClientFd ≠ 0) :
    ∃ conn, OpenShell env s (t.srv.heap p).shellClientFd conn ∧
      Backing (t, log) p (t.srv.heap p).shellClientFd conn := by
  rw [hlink] at hp ⊢
  obtain ⟨conn, hshell, hb⟩ := h.linked p hknown hp
  exact ⟨conn, hshell, hb.of_yyID (hyyID _ _ hb)⟩

theorem linked_of_heap (h : LinksHeld env (s, log)) (hknown : Known s p)
    (hsame : t.srv.heap p = s.srv.heap p) (hp : (t.srv.heap p).shellClientFd ≠ 0) :
    ∃ conn, OpenShell env s (t.srv.heap p).shellClientFd conn ∧
      Backing (t, log) p (t.srv.heap p).shellClientFd conn :=
  linked_of_same h hknown (by rw [hsame]) (fun _ _ _ => by rw [hsame]) hp

theorem linksHeld_quiet (h : LinksHeld env (s, log)) (htracked : Tracked env (t, log))
    (hacc : Accessed s t w' job l e todo)
    (hheap : ∀ p, (t.srv.heap p).shellClientFd = (s.srv.heap p).shellClientFd ∧
      (t.srv.heap p).yyID = (s.srv.heap p).yyID) : LinksHeld env (t, log) := by
  refine linksHeld_access h htracked hacc (fun p _ => (hheap p).2) ?_
  exact fun p hknown hp => linked_of_same h hknown (hheap p).1 (fun _ _ _ => (hheap p).2) hp

theorem linksHeld_assign (h : LinksHeld env (s, log)) (htracked : Tracked env (t, log))
    (hacc : Accessed s t w' job l (.assign q f) todo)
    (hf : ∀ st, (f st).shellClientFd = st.shellClientFd ∧ (f st).yyID = st.yyID) :
    LinksHeld env (t, log) := by
  refine linksHeld_quiet h htracked hacc ?_
  intro p
  by_cases hp : p = q
  · subst hp
    rw [hacc.heap_self]
    exact hf _
  · rw [hacc.heap_other hp]
    exact ⟨rfl, rfl⟩

theorem linksHeld_create (h : LinksHeld env (s, log)) (htracked : Tracked env (t, log))
    (hacc : Accessed s t w' job l (.assign q fun _ => newSession job.fd) todo)
    (hport : job.port ≠ env.mangport) : LinksHeld env (t, log) := by
  refine linksHeld_access h htracked hacc ?_ ?_
  · rintro p ⟨w, b, hb, hbport, e', he', hp⟩
    have hne : p ≠ q := by
      rintro rfl
      obtain ⟨hw, hb⟩ := hacc.pending hport hb hbport
      have hprivate := h.tracked.fresh w' _ _ hacc.busy rfl p ⟨job.fd, rfl⟩
      exact (hprivate.others w b hw hb).2 e' he' hp
    rw [hacc.heap_other hne]
  · intro p hknown hp
    have hne : p ≠ q := by
      rintro rfl
      rw [hacc.heap_self] at hp
      simp [newSession, ItemData.init] at hp
    exact linked_of_heap h hknown (hacc.heap_other hne) hp

theorem linksHeld_fields {r : Reading} {login : YYJsonLogin} {accepted : Bool}
    (h : LinksHeld env (s, log)) (htracked : Tracked env (t, log))
    (hacc : Accessed s t w' job l (.assign q (loginFields env r login)) todo)
    (hport : job.port ≠ env.mangport) (hevent : .login q login.yyID accepted ∈ log) :
    LinksHeld env (t, log) := by
  have huser : ∀ fd conn, Backing (s, log) q fd conn →
      (t.srv.heap q).yyID = (s.srv.heap q).yyID := by
    rintro fd conn ⟨-, accepted', hmem⟩
    rw [hacc.heap_self]
    exact h.once q _ _ accepted accepted' hevent hmem
  refine linksHeld_access h htracked hacc ?_ ?_
  · rintro p ⟨w, b, hb, hbport, e', he', hp⟩
    obtain ⟨-, hb⟩ := hacc.pending hport hb hbport
    by_cases hpq : p = q
    · subst hpq
      exact huser _ _ (h.pending w b hb hbport e' he' p hp)
    · rw [hacc.heap_other hpq]
  · intro p hknown hp
    by_cases hpq : p = q
    · subst hpq
      have hlink : (t.srv.heap p).shellClientFd = (s.srv.heap p).shellClientFd := by
        rw [hacc.heap_self]
        rfl
      exact linked_of_same h hknown hlink huser hp
    · exact linked_of_heap h hknown (hacc.heap_other hpq) hp

theorem linksHeld_link (h : LinksHeld env (s, log)) (htracked : Tracked env (t, log))
    (hacc : Accessed s t w' job l (.assign q fun st => { st with shellClientFd := job.fd }) todo)
    (hport : job.port = env.mangport) : LinksHeld env (t, log) := by
  have hyyID : ∀ p, (t.srv.heap p).yyID = (s.srv.heap p).yyID := by
    intro p
    by_cases hpq : p = q
    · subst hpq
      rw [hacc.heap_self]
    · rw [hacc.heap_other hpq]
  refine linksHeld_access h htracked hacc (fun p _ => hyyID p) ?_
  intro p hknown hp
  by_cases hpq : p = q
  · subst hpq
    have hlink : (t.srv.heap p).shellClientFd = job.fd := by rw [hacc.heap_self]
    have hb : Backing (s, log) p job.fd job.conn :=
      h.pending w' _ hacc.busy hport _ (List.mem_cons_self ..) p rfl
    rw [hlink]
    exact ⟨job.conn, h.running w' _ hacc.busy hport, hb.of_yyID (hyyID p)⟩
  · exact linked_of_heap h hknown (hacc.heap_other hpq) hp

theorem linksHeld_effect (h : LinksHeld env (s, log)) (htracked : Tracked env (t, log))
    (hacc : Accessed s t w' job l e todo) : LinksHeld env (t, log) := by
  obtain ⟨srv₀, event, hevent, hmade⟩ := h.tracked.made w' _ hacc.busy
  have hhead : Made env job srv₀ event e := hmade e (List.mem_cons_self ..)
  cases hhead with
  | create hport yyID accepted => exact linksHeld_create h htracked hacc hport
  | fields hport q r login accepted =>
      exact linksHeld_fields h htracked hacc hport (hevent _ rfl)
  | link hport q yyID => exact linksHeld_link h htracked hacc hport
  | key hport q yyID accepted aesKey =>
      exact linksHeld_assign h htracked hacc fun st => ⟨rfl, rfl⟩
  | account hport q enveloped c => exact linksHeld_assign h htracked hacc fun st => ⟨rfl, rfl⟩
  | place hport q launched c => exact linksHeld_assign h htracked hacc fun st => ⟨rfl, rfl⟩
  | _ =>
      refine linksHeld_quiet h htracked hacc ?_
      intro p
      rw [hacc.srv]
      exact ⟨rfl, rfl⟩

end Access

/-- What the event loop does, when it closes no descriptor that a session holds. -/
theorem linksHeld_step {s t : System × List Event} {a : Action}
    (hports : env.port ≠ env.mangport) (h : LinksHeld env s) (hguard : KeepsLinks env s a)
    (hstep : (mmsHistory env threadnum).step s a = some t) : LinksHeld env t := by
  have htracked := tracked_step h.tracked hstep
  obtain ⟨s, log⟩ := s
  obtain ⟨t, ht, rfl⟩ := Transition.logged_step.mp hstep
  have hsystem : System.step env threadnum s a = some t := ht
  have hclosed : ∀ fd ∈ closing s a, ShellIdle env s fd := hguard.closes
  cases System.step_cases hsystem with
  | accept fd port hfd hfree hport =>
      simp only [stepEvents, List.append_nil] at htracked ⊢
      exact linksHeld_accept h hfree htracked
  | receive fd data st hst hdata =>
      simp only [stepEvents, List.append_nil] at htracked ⊢
      exact linksHeld_receive h hst htracked
  | shutdown fd st hst =>
      simp only [stepEvents, List.append_nil] at htracked ⊢
      exact linksHeld_free hports h (hclosed fd rfl) htracked
  | written fd result st st' hst hsend hwrite =>
      simp only [stepEvents, List.append_nil] at htracked ⊢
      obtain ⟨hport, hconn, -⟩ := FdState.doWrite_same hwrite
      exact linksHeld_putState h hst hport hconn htracked
  | broken fd result st hst hwrite =>
      simp only [stepEvents, List.append_nil] at htracked ⊢
      exact linksHeld_free hports h (hclosed fd (by simp [closing, hst, hwrite])) htracked
  | dispatch m rest hqueue =>
      simp only [stepEvents, List.append_nil] at htracked ⊢
      have hrest : LinksHeld env ({ s with bufqueue := rest }, log) :=
        linksHeld_loop h (tracked_loop h.tracked rfl rfl) rfl rfl (fun w job hjob _ => Or.inl hjob)
          (fun fd conn hopen _ => hopen)
      refine linksHeld_queueReceive hports hrest ?_ htracked
      intro hbuf
      obtain ⟨hunlinked, hwaiting, hrunning⟩ :=
        hclosed m.item.fd (by simp [closing, hqueue, hbuf])
      refine ⟨fun p hknown => hunlinked p ?_, hwaiting, hrunning⟩
      exact known_loop (t := { s with bufqueue := rest }) rfl rfl hknown
  | start w job rest hidle hjobs =>
      simp only [stepEvents, List.append_nil] at htracked ⊢
      exact linksHeld_start h hjobs htracked
  | turn w job l turn hbusy hbuf hturn =>
      have hevents : stepEvents env s (.turn w) = (workEvent env job s.srv l).toList := by
        simp only [stepEvents, hbusy]
      have hturns := hguard.turns
      simp only [hevents] at htracked hturns ⊢
      exact linksHeld_turn h htracked hbusy (worked hturn) hturns rfl rfl rfl rfl
  | effect w job l e todo hbusy =>
      simp only [stepEvents, List.append_nil] at htracked ⊢
      exact linksHeld_effect h htracked (accessed_step hbusy)
  | finish w job l hbusy hbuf =>
      simp only [stepEvents, List.append_nil] at htracked ⊢
      exact linksHeld_idle h htracked (sameButBuffers_of_eq rfl) rfl (fun w job hjob => hjob) rfl
        (by simp)

end Steps

section Sends

variable {env : ServerEnv} {job : Job} {srv : Server} {l : Locals} {turn : Turn}
  {event : Option Event}

theorem fd_of_mem_sendCmd {ssl : OpenSSL} {fd : Fd} {cmd : YYJ} {item : QueueItem}
    (h : .dataSend item ∈ sendCmd ssl fd cmd) : item.fd = fd := by
  rw [sendCmd_eq, List.mem_singleton, Effect.dataSend.injEq] at h
  rw [h]

theorem fd_of_mem_loginCmd {r : Reading} {fd : Fd} {p : Ptr} {state : ItemData}
    {item : QueueItem} (h : .dataSend item ∈ loginCmd env r fd p state) : item.fd = fd := by
  unfold loginCmd at h
  split at h
  · rcases List.mem_cons.mp h with h | h
    · simp at h
    · split at h
      · simp at h
      · exact fd_of_mem_sendCmd h
  · rcases List.mem_append.mp h with h | h
    · exact fd_of_mem_sendCmd h
    · rw [closefd, List.mem_singleton, Effect.dataSend.injEq] at h
      rw [h]

theorem fd_of_mem_dispatch {fd : Fd} {p : Ptr} {state : ItemData} {cmd : YYJ}
    {effects : List Effect} {item : QueueItem}
    (hdispatch : dispatch env fd p state cmd = .ok effects)
    (h : .dataSend item ∈ effects) :
    item.fd = fd ∨ (item.fd = state.shellClientFd ∧ state.shellClientFd ≠ 0) := by
  cases cmd with
  | compRSA c => simp [dispatch] at hdispatch
  | login1 c =>
      simp only [dispatch, Except.ok.injEq] at hdispatch
      subst hdispatch
      rcases List.mem_cons.mp h with h | h
      · simp at h
      · exact Or.inl (fd_of_mem_sendCmd h)
  | logout c =>
      simp only [dispatch, Except.ok.injEq] at hdispatch
      subst hdispatch
      simp only [List.mem_append, List.mem_cons, List.not_mem_nil, or_false, reduceCtorEq] at h
      rcases h with h | h
      · exact Or.inl (fd_of_mem_sendCmd h)
      · unfold shellExit at h
        split at h
        · simp at h
        · rename_i hne
          exact Or.inr ⟨fd_of_mem_sendCmd h, hne⟩
  | openUrl c =>
      simp only [dispatch, Except.ok.injEq] at hdispatch
      subst hdispatch
      unfold handleOpenUrl at h
      dsimp only at h
      rw [List.cons_append, List.mem_cons, List.mem_append] at h
      rcases h with h | h | h
      · simp at h
      · split at h
        · rename_i hconnected
          have hopen : .dataSend item ∈ openURL env.ssl state.shellClientFd _ := h
          refine Or.inr ⟨fd_of_mem_sendCmd hopen, ?_⟩
          simpa [ItemData.isConnectShellClient] using hconnected
        · unfold shellExec at h
          split at h
          · simp at h
          · simp at h
      · exact Or.inl (fd_of_mem_sendCmd h)
  | _ =>
      simp only [dispatch, Except.ok.injEq] at hdispatch
      subst hdispatch
      simp at h

/-- A turn sends to the descriptor whose bytes it handles, or to a shell client. -/
theorem Worked.sends (h : Worked env job srv l turn event) {item : QueueItem}
    (hitem : .dataSend item ∈ turn.effects) : item.fd = job.fd ∨
      ∃ p, l.state = some p ∧ item.fd = (srv.heap p).shellClientFd ∧
        (srv.heap p).shellClientFd ≠ 0 := by
  cases h with
  | idle effects buf heffects =>
      have hclose := heffects _ hitem
      rw [Effect.dataSend.injEq] at hclose
      exact Or.inl (by rw [hclose])
  | register hport offset login hparse hstate =>
      simp only [handleLogin, List.mem_append, List.mem_cons, List.not_mem_nil, or_false,
        reduceCtorEq, false_or] at hitem
      exact Or.inl (fd_of_mem_loginCmd hitem)
  | relogin hport offset login p hparse hstate =>
      simp only [handleLogin, List.mem_cons, reduceCtorEq, false_or] at hitem
      exact Or.inl (fd_of_mem_loginCmd hitem)
  | command hport offset jobj p cmd effects hparse hstate hnext hdispatch =>
      exact (fd_of_mem_dispatch hdispatch hitem).imp_right fun hshell => ⟨p, hstate, hshell⟩
  | report hport offset c hparse =>
      unfold svrInit at hitem
      dsimp only at hitem
      split at hitem
      · simp at hitem
      · rcases List.mem_cons.mp hitem with h | h
        · simp at h
        · exact Or.inl (fd_of_mem_sendCmd h)

end Sends

section Alive

/-- A user logs in, and a shell client reports for the user. -/
def shellReports : List Action :=
  [Action.accept 5 6789, .receive 5 (frame (.login ⟨1, [], []⟩)), .start 0, .turn 0] ++
    List.replicate 5 (Action.effect 0) ++ [Action.finish 0, .accept 6 6790,
      .receive 6 (frame (.svrInit ⟨1, true⟩)), .start 0, .turn 0, .effect 0, .effect 0, .finish 0]

def shellOutlives : List Action :=
  shellReports ++ [Action.receive 5 (frame (.logout ⟨1⟩)), .start 0, .turn 0, .effect 0, .effect 0,
    .effect 0, .effect 0, .finish 0, .dispatch, .dispatch, .dispatch]

/-- The shell client goes, and another user gets its descriptor, logs in and has a shell client
of its own. -/
def shellReused : List Action :=
  [Action.accept 6 6789, .receive 6 (frame (.login ⟨2, [], []⟩)), .start 0, .turn 0] ++
    List.replicate 5 (Action.effect 0) ++ [Action.finish 0, .accept 7 6790,
      .receive 7 (frame (.svrInit ⟨2, true⟩)), .start 0, .turn 0, .effect 0, .effect 0, .finish 0]

theorem shellIdle_shellOutlives {s : System × List Event}
    (hs : (mmsHistory default 1).run shellOutlives (System.init, []) = some s) :
    ShellIdle default s.1 6 := by
  have hview : ((mmsHistory default 1).run shellOutlives (System.init, [])).map (fun s =>
      (s.1.srv.logins, s.1.srv.fdIndex.getState (s.1.srv.heap 0).fd,
        s.1.srv.userData.getState 1, s.2.filterMap (Event.loginOf 0))) =
      some (1, none, none, [1]) := by decide +kernel
  have hrested : ((mmsHistory default 1).run shellOutlives (System.init, [])).map (fun s =>
      ((s.1.workers 0).isNone, s.1.jobs 0)) = some (true, []) := by decide +kernel
  rw [hs, Option.map_some, Option.some.injEq] at hview hrested
  simp only [Prod.mk.injEq, Option.isNone_iff_eq_none] at hview hrested
  obtain ⟨hlogins, hfd, huser, hlogged⟩ := hview
  obtain ⟨hidle, hjobs⟩ := hrested
  obtain ⟨htracked, hindexed⟩ :=
    reachable_indexed (Transition.Reachable.init.of_run hs : (mmsHistory default 1).Reachable _ s)
  have hnoClose : (mmsServer default 1).Guarded (fun s a => closing s a = none) shellOutlives
      System.init := by decide +kernel
  have howned : SessionsOwned default 1 s.1 := by
    refine reachable_owned (by decide) (.of_guarded .init ?_ (Transition.run_of_logged hs))
    refine hnoClose.and hnoClose ?_
    intro s a hnone _ fd hfd
    simp [hnone] at hfd
  have hworkers : ∀ w b, s.1.workers w ≠ some b := by
    intro w b hb
    have hw := (howned.workers w b hb).1
    rw [Nat.mod_one] at hw
    simp [← hw, hidle] at hb
  refine ⟨?_, ?_, fun w b hb => absurd hb (hworkers w b)⟩
  · intro p hknown
    have hlt := hknown.lt_logins htracked
    rw [hlogins] at hlt
    obtain rfl : p = 0 := Nat.lt_one_iff.mp hlt
    cases hknown with
    | index fd h =>
        rw [hindexed.index fd 0 h, h] at hfd
        simp at hfd
    | user yyID h =>
        obtain ⟨-, accepted, hmem⟩ := htracked.user yyID 0 h
        have hone : yyID ∈ s.2.filterMap (Event.loginOf 0) :=
          List.mem_filterMap.mpr ⟨_, hmem, rfl⟩
        rw [hlogged, List.mem_singleton] at hone
        rw [hone, huser] at h
        simp at h
    | state w b hb h => exact absurd hb (hworkers w b)
    | todo w b hb e he h => exact absurd hb (hworkers w b)
  · intro w job hjob
    have hw := (howned.placed w job hjob).1
    rw [Nat.mod_one] at hw
    simp [← hw, hjobs] at hjob

theorem keepsLinks_shellReused :
    (mmsHistory default 1).Guarded (KeepsLinks default)
      (shellOutlives ++ .shutdown 6 :: shellReused) (System.init, []) := by
  have hcloses : (mmsHistory default 1).Guarded
      (fun s a => ∀ fd ∈ closing s.1 a, ShellIdle default s.1 fd)
      (shellOutlives ++ .shutdown 6 :: shellReused) (System.init, []) := by
    have hbefore : (mmsHistory default 1).Guarded (fun s a => closing s.1 a = none) shellOutlives
        (System.init, []) := by decide +kernel
    have hafter : ∀ a ∈ shellReused, ∀ s : System × List Event, closing s.1 a = none := by
      intro a ha s
      simp only [shellReused, List.mem_append, List.mem_cons, List.mem_replicate,
        List.not_mem_nil, or_false] at ha
      rcases ha with ((rfl | rfl | rfl | rfl) | ⟨-, rfl⟩) |
        rfl | rfl | rfl | rfl | rfl | rfl | rfl | rfl <;> rfl
    have hnone : ∀ (s : System × List Event) (a : Action), closing s.1 a = none →
        ∀ fd ∈ closing s.1 a, ShellIdle default s.1 fd := by
      intro s a hclosing fd hfd
      simp [hclosing] at hfd
    refine Transition.Guarded.append (hbefore.and hbefore fun s a h _ => hnone s a h) ?_
    intro s hs
    refine ⟨?_, ?_⟩
    · rintro fd hfd
      obtain rfl : 6 = fd := by simpa [closing] using hfd
      exact shellIdle_shellOutlives hs
    · intro t _
      exact Transition.guarded_of_forall (fun a ha s => hnone s a (hafter a ha s)) t
  have hturns : (mmsHistory default 1).Guarded
      (fun s a => ∀ ev ∈ stepEvents default s.1 a, keepsYyID s.2 s.1.srv ev)
      (shellOutlives ++ .shutdown 6 :: shellReused) (System.init, []) := by decide +kernel
  exact hcloses.and hturns fun s a hclose hturn => ⟨hclose, hturn⟩

/-- The shell client goes, another user gets its descriptor, and the first user opens a
url. -/
def shellReplaced : List Action :=
  shellReports ++ [Action.dispatch, .shutdown 6, .accept 6 6789,
    .receive 5 (frame (.openUrl ⟨7, 8, lit "mms"⟩)), .start 0, .turn 0, .effect 0, .effect 0]

end Alive

end MmsSvr
