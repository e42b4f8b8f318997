import MmsSvr.Sessions

/-!
The shell clients that are started for a session, and the MMS_EXIT they are sent.

A process is known by the connection over which it reports: `launchedFor conn` is the
session whose OPENURL started the process behind the connection `conn`.
-/

namespace MmsSvr

open YYmmsJson
open Lib

section Shells

def launches (log : List Event) (p : Ptr) : Nat := log.count (.openUrl p true)

def Event.exits (fd : Fd) : Event → Bool
  | .logout _ shell => shell == fd
  | _ => false

def Event.removes (p : Ptr) : Event → Bool
  | .logout q _ => q == p
  | _ => false

def Event.reportsTo (p : Ptr) : Event → Bool
  | .svrInit _ _ _ found => found == some p
  | _ => false

variable (env : ServerEnv) (launchedFor : Nat → Ptr)

def Event.reportsFor (p : Ptr) : Event → Bool
  | .svrInit _ conn _ _ => launchedFor conn == p
  | _ => false

/-- The connections of the processes started for `p` that have reported, each with
whether MMS_EXIT has been sent to it since. -/
def shellClients (p : Ptr) : List Event → List (Nat × Bool)
  | [] => []
  | .svrInit fd conn _ _ :: log =>
      if launchedFor conn = p then (conn, log.any (Event.exits fd)) :: shellClients p log
      else shellClients p log
  | _ :: log => shellClients p log

/-- All processes but one that were started for a session have been sent MMS_EXIT, and
so have all that had reported when it was removed. -/
structure OneShell (log : List Event) : Prop where
  one : ∀ p, launches log p ≤ (shellClients launchedFor p log).countP Prod.snd + 1
  exited : ∀ before after p shell, log = before ++ .logout p shell :: after →
    before.any (Event.removes p) = false →
    ∀ client ∈ shellClients launchedFor p (before ++ [.logout p shell]), client.2 = true

/-- A process that has been started reports once, and nobody else does. -/
def reportsOnce (log : List Event) : Event → Prop
  | .svrInit _ conn _ _ =>
      (shellClients launchedFor (launchedFor conn) log).length < launches log (launchedFor conn)
  | _ => True

/-- The worker has read the report of a shell client, and not yet stored its descriptor in
the session at `p`. -/
def Busy.Links (b : Busy) (p : Ptr) : Prop :=
  b.job.port = env.mangport ∧ ∃ e ∈ b.todo, e.mentions p

def Linking (s : System) (p : Ptr) : Prop := ∃ w b, s.workers w = some b ∧ b.Links env p

/-- The session that the user opens a url for or leaves. -/
def Event.ofUser : Event → Option Ptr
  | .openUrl p _ => some p
  | .logout p _ => some p
  | _ => none

/-- A url is opened when the processes started for the session have reported to it, and
they do report to it unless it has been removed. -/
def shellSettled (log : List Event) : Event → Prop
  | .openUrl p _ => launches log p ≤ log.countP (Event.reportsTo p)
  | .svrInit _ conn _ found => found = some (launchedFor conn) ∨
      (found = none ∧ log.any (Event.removes (launchedFor conn)) = true)
  | _ => True

structure ShellsInTurn (s : System × List Event) (a : Action) : Prop where
  reports : ∀ ev ∈ stepEvents env s.1 a, reportsOnce launchedFor s.2 ev
  settled : ∀ ev ∈ stepEvents env s.1 a, shellSettled launchedFor s.2 ev
  stored : ∀ ev ∈ stepEvents env s.1 a, ∀ p ∈ ev.ofUser, ¬ Linking env s.1 p

end Shells

section Record

variable {launchedFor : Nat → Ptr} {log : List Event} {p : Ptr} {shell : Fd}

theorem length_shellClients (log : List Event) (p : Ptr) :
    (shellClients launchedFor p log).length = log.countP (Event.reportsFor launchedFor p) := by
  induction log with
  | nil => rfl
  | cons ev log ih =>
      cases ev with
      | svrInit fd conn yyID found =>
          by_cases hconn : launchedFor conn = p
          · simp [shellClients, Event.reportsFor, hconn, ih]
          · simp [shellClients, Event.reportsFor, hconn, ih]
      | _ => simpa [shellClients, Event.reportsFor] using ih

theorem shellClients_exited (h : ∀ fd conn yyID found, .svrInit fd conn yyID found ∈ log →
      launchedFor conn = p → fd = shell) :
    ∀ client ∈ shellClients launchedFor p (log ++ [.logout p shell]), client.2 = true := by
  induction log with
  | nil => simp [shellClients]
  | cons ev log ih =>
      have hlog := ih fun fd conn yyID found hmem => h fd conn yyID found (.tail _ hmem)
      cases ev with
      | svrInit fd conn yyID found =>
          rw [List.cons_append, shellClients]
          split
          · rename_i hconn
            rw [List.forall_mem_cons]
            refine ⟨?_, hlog⟩
            rw [h fd conn yyID found (.head _) hconn]
            simp [Event.exits]
          · exact hlog
      | _ => exact hlog

theorem eq_of_countP_le_one {α : Type} {holds : α → Bool} {l : List α} {a b : α}
    (h : l.countP holds ≤ 1) (ha : a ∈ l) (hb : b ∈ l) (ha' : holds a = true)
    (hb' : holds b = true) : a = b := by
  have hfa := List.mem_filter.mpr ⟨ha, ha'⟩
  have hfb := List.mem_filter.mpr ⟨hb, hb'⟩
  rw [List.countP_eq_length_filter] at h
  match hl : l.filter holds with
  | [] => simp [hl] at hfa
  | [c] =>
      rw [hl, List.mem_singleton] at hfa hfb
      rw [hfa, hfb]
  | c :: d :: rest => simp [hl] at h

variable (launchedFor)

/-- What the history tells of the shell clients. -/
structure ShellsSeen (log : List Event) : Prop where
  once : ∀ p, launches log p ≤ 1
  few : ∀ p, log.countP (Event.reportsFor launchedFor p) ≤ launches log p
  found : ∀ fd conn yyID found, .svrInit fd conn yyID found ∈ log → fd ≠ 0 ∧
    (found = some (launchedFor conn) ∨
      (found = none ∧ log.any (Event.removes (launchedFor conn)) = true))
  exited : ∀ before after p shell, log = before ++ .logout p shell :: after →
    before.any (Event.removes p) = false →
    ∀ client ∈ shellClients launchedFor p (before ++ [.logout p shell]), client.2 = true

variable {launchedFor}

theorem ShellsSeen.oneShell (h : ShellsSeen launchedFor log) : OneShell launchedFor log :=
  ⟨fun p => Nat.le_trans (h.once p) (Nat.le_add_left 1 _), h.exited⟩

theorem ShellsSeen.unique (h : ShellsSeen launchedFor log) {fd fd' : Fd} {conn conn' : Nat}
    {yyID yyID' : UInt32} (hmem : .svrInit fd conn yyID (some p) ∈ log)
    (hmem' : .svrInit fd' conn' yyID' (some p) ∈ log) : fd = fd' := by
  have hconn : ∀ {fd conn yyID}, .svrInit fd conn yyID (some p) ∈ log → launchedFor conn = p := by
    intro fd conn yyID hmem
    rcases (h.found fd conn yyID (some p) hmem).2 with hfound | ⟨hfound, -⟩
    · rw [Option.some.injEq] at hfound
      exact hfound.symm
    · simp at hfound
  have hone : log.countP (Event.reportsFor launchedFor p) ≤ 1 :=
    Nat.le_trans (h.few p) (h.once p)
  have heq := eq_of_countP_le_one hone hmem hmem' (by simp [Event.reportsFor, hconn hmem])
    (by simp [Event.reportsFor, hconn hmem'])
  simp only [Event.svrInit.injEq] at heq
  exact heq.1

theorem ShellsSeen.append (h : ShellsSeen launchedFor log) (ev : Event)
    (hlaunch : ∀ p, ev = .openUrl p true → launches log p = 0)
    (hreport : reportsOnce launchedFor log ev)
    (hfound : ∀ fd conn yyID found, ev = .svrInit fd conn yyID found → fd ≠ 0 ∧
      (found = some (launchedFor conn) ∨
        (found = none ∧ log.any (Event.removes (launchedFor conn)) = true)))
    (hexit : ∀ p shell, ev = .logout p shell → log.any (Event.removes p) = false →
      ∀ fd conn yyID found, .svrInit fd conn yyID found ∈ log → launchedFor conn = p →
        fd = shell) : ShellsSeen launchedFor (log ++ [ev]) := by
  have hlaunches : ∀ p, launches (log ++ [ev]) p =
      launches log p + if ev = .openUrl p true then 1 else 0 := by
    intro p
    rw [launches, launches, List.count_append, List.count_singleton]
    simp
  refine ⟨?_, ?_, ?_, ?_⟩
  · intro p
    rw [hlaunches]
    split
    · rename_i hev
      rw [hlaunch p hev]
    · exact h.once p
  · intro p
    rw [List.countP_append, List.countP_singleton, hlaunches]
    have hfew := h.few p
    split
    · rename_i hev
      have hlt : log.countP (Event.reportsFor launchedFor p) < launches log p := by
        cases ev with
        | svrInit fd conn yyID found =>
            have hconn : launchedFor conn = p := by simpa [Event.reportsFor] using hev
            rw [← length_shellClients, ← hconn]
            exact hreport
        | _ => simp [Event.reportsFor] at hev
      omega
    · omega
  · intro fd conn yyID found hmem
    have hlater : ∀ q, log.any (Event.removes q) = true →
        (log ++ [ev]).any (Event.removes q) = true := by
      intro q hq
      rw [List.any_append, hq, Bool.true_or]
    have hseen : fd ≠ 0 ∧ (found = some (launchedFor conn) ∨
        (found = none ∧ log.any (Event.removes (launchedFor conn)) = true)) := by
      rcases List.mem_append.mp hmem with hold | hnew
      · exact h.found fd conn yyID found hold
      · rw [List.mem_singleton] at hnew
        exact hfound fd conn yyID found hnew.symm
    exact ⟨hseen.1, hseen.2.imp_right fun hnone => ⟨hnone.1, hlater _ hnone.2⟩⟩
  · intro before after p shell hlog hfirst
    rcases List.eq_nil_or_concat after with rfl | ⟨after, ev', rfl⟩
    · obtain ⟨rfl, rfl⟩ := List.append_singleton_inj.mp hlog
      exact shellClients_exited (hexit p shell rfl hfirst)
    · rw [List.concat_eq_append, ← List.cons_append, ← List.append_assoc,
        List.append_singleton_inj] at hlog
      exact h.exited before after p shell hlog.1 hfirst

end Record

section Turns

variable {env : ServerEnv} {job : Job} {srv srv₀ : Server} {l : Locals} {turn : Turn}
  {event : Option Event} {e : Effect} {p : Ptr}

theorem Worked.openUrl (h : Worked env job srv l turn (some (.openUrl p true))) :
    (srv.heap p).shellClientFd = 0 := by
  generalize hev : some (Event.openUrl p true) = event at h
  cases h with
  | command hport offset jobj q cmd effects hparse hstate hnext hdispatch =>
      cases cmd with
      | openUrl c =>
          simp only [commandEvent, Option.some.injEq, Event.openUrl.injEq] at hev
          rw [hev.1]
          simpa [ItemData.isConnectShellClient] using hev.2
      | _ => simp [commandEvent] at hev
  | _ => simp at hev

theorem Worked.logout {shell : Fd} (h : Worked env job srv l turn (some (.logout p shell))) :
    shell = (srv.heap p).shellClientFd := by
  generalize hev : some (Event.logout p shell) = event at h
  cases h with
  | command hport offset jobj q cmd effects hparse hstate hnext hdispatch =>
      cases cmd with
      | logout c =>
          simp only [commandEvent, Option.some.injEq, Event.logout.injEq] at hev
          rw [hev.1, hev.2]
      | _ => simp [commandEvent] at hev
  | _ => simp at hev

theorem Worked.reported {fd : Fd} {conn : Nat} {yyID : UInt32} {found : Option Ptr}
    (h : Worked env job srv l turn (some (.svrInit fd conn yyID found))) :
    fd = job.fd ∧ job.port = env.mangport ∧ srv.userData.getState yyID = found ∧
      ∀ p, found = some p → ∃ e ∈ turn.effects, e.mentions p := by
  generalize hev : some (Event.svrInit fd conn yyID found) = event at h
  cases h with
  | command hport offset jobj q cmd effects hparse hstate hnext hdispatch =>
      cases cmd <;> simp [commandEvent] at hev
  | report hport offset c hparse =>
      simp only [Option.some.injEq, Event.svrInit.injEq] at hev
      obtain ⟨rfl, -, rfl, rfl⟩ := hev
      refine ⟨rfl, hport, rfl, ?_⟩
      intro p hp
      simp only [svrInit, hp]
      exact ⟨_, .head _, rfl⟩
  | _ => simp at hev

theorem execute_not_mem {es : List Effect} (h : IsOutput es) (launch : Launch) :
    .execute launch ∉ es := by
  intro hmem
  obtain ⟨item, hitem⟩ := h _ hmem
  simp at hitem

theorem execute_not_mem_loginCmd (env : ServerEnv) (r : Reading) (fd : Fd) (p : Ptr)
    (state : ItemData) (launch : Launch) : .execute launch ∉ loginCmd env r fd p state := by
  unfold loginCmd
  split
  · simp only [List.mem_cons, reduceCtorEq, false_or]
    split
    · simp
    · exact execute_not_mem (sendCmd_isOutput fd _) launch
  · rw [List.mem_append]
    rintro (h | h)
    · exact execute_not_mem (sendCmd_isOutput fd _) launch h
    · exact execute_not_mem (closefd_isOutput fd) launch h

theorem Worked.launched (h : Worked env job srv l turn event) :
    (∃ launch, .execute launch ∈ turn.effects) ↔ ∃ p, event = some (.openUrl p true) := by
  cases h with
  | idle effects buf heffects =>
      constructor
      · rintro ⟨launch, hmem⟩
        exact absurd (heffects _ hmem) (by simp)
      · simp
  | register hport offset login hparse hstate =>
      simp [handleLogin, execute_not_mem_loginCmd]
  | relogin hport offset login q hparse hstate =>
      simp [handleLogin, execute_not_mem_loginCmd]
  | report hport offset c hparse =>
      unfold svrInit
      split
      · simp
      · simp [execute_not_mem (openURL_isOutput env.ssl _ _)]
  | command hport offset jobj q cmd effects hparse hstate hnext hdispatch =>
      cases cmd with
      | compRSA c => simp [dispatch] at hdispatch
      | login1 c =>
          simp only [dispatch, Except.ok.injEq] at hdispatch
          simp [← hdispatch, commandEvent, execute_not_mem (sendCmd_isOutput _ _)]
      | logout c =>
          simp only [dispatch, Except.ok.injEq] at hdispatch
          simp [← hdispatch, commandEvent, execute_not_mem (sendCmd_isOutput _ _),
            execute_not_mem (shellExit_isOutput _)]
      | openUrl c =>
          simp only [dispatch, Except.ok.injEq] at hdispatch
          rw [← hdispatch]
          by_cases hshell : (srv.heap q).shellClientFd = 0
          · simp [handleOpenUrl, shellExec, commandEvent, ItemData.isConnectShellClient, hshell]
          · simp [handleOpenUrl, commandEvent, ItemData.isConnectShellClient, hshell,
              execute_not_mem (sendCmd_isOutput _ _),
              execute_not_mem (openURL_isOutput env.ssl _ _)]
      | _ =>
          simp only [dispatch, Except.ok.injEq] at hdispatch
          simp [← hdispatch, commandEvent]

theorem Worked.exits {shell : Fd} (h : Worked env job srv l turn (some (.logout p shell)))
    (hshell : shell ≠ 0) :
    .dataSend ⟨shell, frame (.mmsExit ⟨(srv.heap p).yyID⟩)⟩ ∈ turn.effects := by
  generalize hev : some (Event.logout p shell) = event at h
  cases h with
  | command hport offset jobj q cmd effects hparse hstate hnext hdispatch =>
      cases cmd with
      | logout c =>
          simp only [commandEvent, Option.some.injEq, Event.logout.injEq] at hev
          obtain ⟨rfl, rfl⟩ := hev
          simp only [dispatch, Except.ok.injEq] at hdispatch
          simp [← hdispatch, shellExit, hshell, sendCmd_eq]
      | _ => simp [commandEvent] at hev
  | _ => simp at hev

theorem Made.shellClientFd (h : Made env job srv₀ event e) (srv : Server) (p : Ptr) :
    ((srv.apply e).heap p).shellClientFd = (srv.heap p).shellClientFd ∨ Creates p e ∨
      ∃ yyID, event = some (.svrInit job.fd job.conn yyID (some p)) ∧
        ((srv.apply e).heap p).shellClientFd = job.fd := by
  have hassign : ∀ q (f : ItemData → ItemData), (∀ s, (f s).shellClientFd = s.shellClientFd) →
      ((srv.apply (.assign q f)).heap p).shellClientFd = (srv.heap p).shellClientFd := by
    intro q f hf
    rw [heap_assign]
    split
    · rename_i hp
      rw [hf, hp]
    · rfl
  cases h with
  | create hport yyID accepted =>
      by_cases hp : p = srv₀.logins
      · subst hp
        exact Or.inr (Or.inl ⟨job.fd, rfl⟩)
      · left
        rw [heap_assign, if_neg hp]
  | link hport q yyID =>
      by_cases hp : p = q
      · subst hp
        right; right
        refine ⟨yyID, rfl, ?_⟩
        rw [heap_assign, if_pos rfl]
      · left
        rw [heap_assign, if_neg hp]
  | fields hport q r login accepted => exact Or.inl (hassign q _ fun _ => rfl)
  | key hport q yyID accepted aesKey => exact Or.inl (hassign q _ fun _ => rfl)
  | account hport q enveloped c => exact Or.inl (hassign q _ fun _ => rfl)
  | place hport q launched c => exact Or.inl (hassign q _ fun _ => rfl)
  | _ => exact Or.inl rfl

theorem Made.link_of_mentions (h : Made env job srv₀ event e) (hport : job.port = env.mangport)
    (hp : e.mentions p) (srv : Server) :
    ∃ yyID, event = some (.svrInit job.fd job.conn yyID (some p)) ∧
      ((srv.apply e).heap p).shellClientFd = job.fd := by
  cases h with
  | link hport q yyID =>
      have hq : q = p := hp
      subst hq
      refine ⟨yyID, rfl, ?_⟩
      rw [heap_assign, if_pos rfl]
  | output event item => exact absurd hp id
  | launch event launch => exact absurd hp id
  | create hne => exact absurd hport hne
  | addState hne => exact absurd hport hne
  | userAdd hne => exact absurd hport hne
  | fields hne => exact absurd hport hne
  | key hne => exact absurd hport hne
  | account hne => exact absurd hport hne
  | place hne => exact absurd hport hne
  | userDel hne => exact absurd hport hne
  | delState hne => exact absurd hport hne

end Turns

section Invariant

variable (env : ServerEnv) (launchedFor : Nat → Ptr)

def Creating (s : System) (p : Ptr) : Prop :=
  ∃ w b e, s.workers w = some b ∧ b.todo.head? = some e ∧ Creates p e

structure ShellsHeld (s : System × List Event) : Prop where
  tracked : Tracked env s
  opened : ∀ w b, s.1.workers w = some b → b.job.fd ≠ 0
  seen : ShellsSeen launchedFor s.2
  created : ∀ fd conn yyID p, .svrInit fd conn yyID (some p) ∈ s.2 →
    p < s.1.srv.logins ∧ ¬ Creating s.1 p
  linked : ∀ fd conn yyID p, .svrInit fd conn yyID (some p) ∈ s.2 →
    (s.1.srv.heap p).shellClientFd = fd ∨ Linking env s.1 p

variable {env launchedFor} {s t : System} {log : List Event} {w' : Nat} {b' : Option Busy}
  {p : Ptr}

theorem Linking.update (h : Linking env s p)
    (hworkers : t.workers = Function.update s.workers w' b')
    (hb' : ∀ b, s.workers w' = some b → b.Links env p → ∃ b₁, b' = some b₁ ∧ b₁.Links env p) :
    Linking env t p := by
  obtain ⟨w, b, hb, hlinks⟩ := h
  by_cases hw : w = w'
  · subst hw
    obtain ⟨b₁, hb₁, hlinks₁⟩ := hb' b hb hlinks
    exact ⟨w, b₁, by rw [hworkers, Function.update_self, hb₁], hlinks₁⟩
  · exact ⟨w, b, by rw [hworkers, Function.update_of_ne hw, hb], hlinks⟩

theorem Creating.of_update (h : Creating t p)
    (hworkers : t.workers = Function.update s.workers w' b') :
    Creating s p ∨ ∃ b e, b' = some b ∧ b.todo.head? = some e ∧ Creates p e := by
  obtain ⟨w, b, e, hb, he, hp⟩ := h
  rw [hworkers] at hb
  by_cases hw : w = w'
  · subst hw
    rw [Function.update_self] at hb
    exact Or.inr ⟨b, e, hb, he, hp⟩
  · rw [Function.update_of_ne hw] at hb
    exact Or.inl ⟨w, b, e, hb, he, hp⟩

theorem shellsHeld_idle (h : ShellsHeld env launchedFor (s, log)) (htracked : Tracked env (t, log))
    (hsame : SameButBuffers s.srv t.srv)
    (hworkers : t.workers = Function.update s.workers w' b')
    (hold : ∀ b, s.workers w' = some b → b.todo = [])
    (hb' : ∀ b, b' = some b → b.todo = [] ∧ b.job.fd ≠ 0) :
    ShellsHeld env launchedFor (t, log) := by
  refine ⟨htracked, ?_, h.seen, ?_, ?_⟩
  · rw [hworkers]
    exact forall_workers_update h.opened fun b hb => (hb' b hb).2
  · intro fd conn yyID p hmem
    obtain ⟨hlt, hnone⟩ := h.created fd conn yyID p hmem
    rw [hsame.logins]
    refine ⟨hlt, ?_⟩
    intro hcreating
    rcases hcreating.of_update hworkers with hcreating | ⟨b, e, hb, he, -⟩
    · exact hnone hcreating
    · simp [(hb' b hb).1] at he
  · intro fd conn yyID p hmem
    obtain ⟨buf, hbuf⟩ := hsame.heap p
    rw [hbuf]
    refine (h.linked fd conn yyID p hmem).imp_right fun hlinking => ?_
    refine hlinking.update hworkers ?_
    rintro b hb ⟨-, e, he, -⟩
    simp [hold b hb] at he

theorem shellsHeld_effect {job : Job} {l : Locals} {e : Effect} {todo : List Effect}
    (h : ShellsHeld env launchedFor (s, log)) (htracked : Tracked env (t, log))
    (hbusy : s.workers w' = some ⟨job, l, e :: todo⟩) (hsrv : t.srv = s.srv.apply e)
    (hworkers : t.workers = Function.update s.workers w' (some ⟨job, l, todo⟩)) :
    ShellsHeld env launchedFor (t, log) := by
  obtain ⟨srv₀, event, hevent, hmade⟩ := h.tracked.made w' _ hbusy
  have hhead : Made env job srv₀ event e := hmade e (List.mem_cons_self ..)
  refine ⟨htracked, ?_, h.seen, ?_, ?_⟩
  · rw [hworkers]
    refine forall_workers_set h.opened ?_
    exact h.opened w' ⟨job, l, e :: todo⟩ hbusy
  · intro fd conn yyID p hmem
    obtain ⟨hlt, hnone⟩ := h.created fd conn yyID p hmem
    rw [hsrv, apply_logins]
    refine ⟨hlt, ?_⟩
    intro hcreating
    rcases hcreating.of_update hworkers with hcreating | ⟨b, e', hb, he', hp⟩
    · exact hnone hcreating
    · rw [Option.some.injEq] at hb
      rw [← hb] at he'
      exact h.tracked.first w' _ hbusy e' (List.mem_of_mem_head? he') p hp
  · intro fd conn yyID p hmem
    -- whoever stores a descriptor in the session does it for this report
    have hstored : (∃ yyID', event = some (.svrInit job.fd job.conn yyID' (some p)) ∧
        ((s.srv.apply e).heap p).shellClientFd = job.fd) → (t.srv.heap p).shellClientFd = fd := by
      rintro ⟨yyID', hev, hfd⟩
      rw [hsrv, hfd]
      exact h.seen.unique (hevent _ hev) hmem
    rcases h.linked fd conn yyID p hmem with hlinked | hlinking
    · left
      rcases hhead.shellClientFd s.srv p with hsame | hcreates | hlink
      · rw [hsrv, hsame, hlinked]
      · exact absurd ⟨w', _, e, hbusy, rfl, hcreates⟩ (h.created fd conn yyID p hmem).2
      · exact hstored hlink
    · by_cases hown : job.port = env.mangport ∧ e.mentions p
      · exact Or.inl (hstored (hhead.link_of_mentions hown.1 hown.2 s.srv))
      · right
        refine hlinking.update hworkers ?_
        rintro b hb ⟨hport, e', he', hp⟩
        rw [hbusy, Option.some.injEq] at hb
        rw [← hb] at hport he'
        rcases List.mem_cons.mp he' with rfl | he'
        · exact absurd ⟨hport, hp⟩ hown
        · exact ⟨_, rfl, hport, e', he', hp⟩

theorem shellsSeen_turn {job : Job} {l : Locals} {turn : Turn} {event : Option Event}
    (h : ShellsHeld env launchedFor (s, log)) (hfd : job.fd ≠ 0)
    (hworked : Worked env job s.srv l turn event)
    (hreports : ∀ ev ∈ event.toList, reportsOnce launchedFor log ev)
    (hsettled : ∀ ev ∈ event.toList, shellSettled launchedFor log ev)
    (hstored : ∀ ev ∈ event.toList, ∀ p ∈ ev.ofUser, ¬ Linking env s p) :
    ShellsSeen launchedFor (log ++ event.toList) := by
  cases event with
  | none =>
      rw [Option.toList_none, List.append_nil]
      exact h.seen
  | some ev =>
      refine h.seen.append ev ?_ (hreports ev (by simp)) ?_ ?_
      · rintro p rfl
        have hzero := hworked.openUrl
        have hle : launches log p ≤ log.countP (Event.reportsTo p) := hsettled _ (.head _)
        have hlinking : ¬ Linking env s p := hstored _ (.head _) p rfl
        have hnone : log.countP (Event.reportsTo p) = 0 := by
          rw [List.countP_eq_zero]
          intro ev hmem hreport
          cases ev with
          | svrInit fd conn yyID found =>
              have hfound : found = some p := by simpa [Event.reportsTo] using hreport
              subst hfound
              rcases h.linked fd conn yyID p hmem with hlinked | hl
              · exact (h.seen.found fd conn yyID _ hmem).1 (by rw [← hlinked, hzero])
              · exact hlinking hl
          | _ => simp [Event.reportsTo] at hreport
        rw [hnone] at hle
        exact Nat.le_zero.mp hle
      · rintro fd conn yyID found rfl
        rw [hworked.reported.1]
        exact ⟨hfd, hsettled _ (.head _)⟩
      · rintro p shell rfl hfirst fd conn yyID found hmem hconn
        have hlinking : ¬ Linking env s p := hstored _ (.head _) p rfl
        rcases (h.seen.found fd conn yyID found hmem).2 with hfound | ⟨-, hremoved⟩
        · rw [hconn] at hfound
          subst hfound
          rcases h.linked fd conn yyID p hmem with hlinked | hl
          · rw [hworked.logout, hlinked]
          · exact absurd hl hlinking
        · simp [hconn, hfirst] at hremoved

theorem shellsHeld_turn {job : Job} {l : Locals} {turn : Turn} {event : Option Event}
    (h : ShellsHeld env launchedFor (s, log)) (htracked : Tracked env (t, log ++ event.toList))
    (hbusy : s.workers w' = some ⟨job, l, []⟩) (hworked : Worked env job s.srv l turn event)
    (hreports : ∀ ev ∈ event.toList, reportsOnce launchedFor log ev)
    (hsettled : ∀ ev ∈ event.toList, shellSettled launchedFor log ev)
    (hstored : ∀ ev ∈ event.toList, ∀ p ∈ ev.ofUser, ¬ Linking env s p)
    (hsrv : t.srv = turn.srv)
    (hworkers : t.workers =
      Function.update s.workers w' (some ⟨job, turn.locals, turn.effects⟩)) :
    ShellsHeld env launchedFor (t, log ++ event.toList) := by
  have hfd : job.fd ≠ 0 := h.opened w' _ hbusy
  obtain ⟨-, -, hheap, hlogins⟩ := hworked.fdIndex
  rw [← hsrv] at hheap hlogins
  -- the report that this turn reads, if it reads one
  have hnew : ∀ fd conn yyID p, .svrInit fd conn yyID (some p) ∈ event.toList →
      event = some (.svrInit fd conn yyID (some p)) := by
    intro fd conn yyID p hmem
    exact Option.mem_toList.mp hmem
  have hown : ∀ p b e, some (⟨job, turn.locals, turn.effects⟩ : Busy) = some b →
      b.todo.head? = some e → Creates p e →
        p = s.srv.logins ∧ ∃ yyID accepted, event = some (.login s.srv.logins yyID accepted) := by
    intro p b e hb he hp
    rw [Option.some.injEq] at hb
    rw [← hb] at he
    exact (hworked.made e (List.mem_of_mem_head? he)).creates hp
  refine ⟨htracked, ?_, shellsSeen_turn h hfd hworked hreports hsettled hstored, ?_, ?_⟩
  · rw [hworkers]
    refine forall_workers_set h.opened ?_
    exact hfd
  · intro fd conn yyID p hmem
    rcases List.mem_append.mp hmem with hold | hreport
    · obtain ⟨hlt, hnone⟩ := h.created fd conn yyID p hold
      refine ⟨Nat.lt_of_lt_of_le hlt hlogins, ?_⟩
      intro hcreating
      rcases hcreating.of_update hworkers with hcreating | ⟨b, e, hb, he, hp⟩
      · exact hnone hcreating
      · exact Nat.lt_irrefl _ ((hown p b e hb he hp).1 ▸ hlt)
    · have hevent := hnew fd conn yyID p hreport
      subst hevent
      obtain ⟨-, -, hfound, -⟩ := hworked.reported
      refine ⟨Nat.lt_of_lt_of_le (h.tracked.user yyID p hfound).1 hlogins, ?_⟩
      intro hcreating
      rcases hcreating.of_update hworkers with ⟨w, b, e, hb, he, hp⟩ | ⟨b, e, hb, he, hp⟩
      · exact (h.tracked.fresh w b e hb he p hp).userData yyID hfound
      · obtain ⟨-, yyID', accepted, hlogin⟩ := hown p b e hb he hp
        simp at hlogin
  · intro fd conn yyID p hmem
    rcases List.mem_append.mp hmem with hold | hreport
    · rw [hheap]
      refine (h.linked fd conn yyID p hold).imp_right fun hlinking => ?_
      refine hlinking.update hworkers ?_
      rintro b hb ⟨-, e, he, -⟩
      rw [hbusy, Option.some.injEq] at hb
      simp [← hb] at he
    · right
      have hevent := hnew fd conn yyID p hreport
      subst hevent
      obtain ⟨-, hport, -, hmentions⟩ := hworked.reported
      refine ⟨w', ⟨job, turn.locals, turn.effects⟩, ?_, hport, hmentions p rfl⟩
      rw [hworkers, Function.update_self]

theorem shellsHeld_step {threadnum : Nat} {s t : System × List Event} {a : Action}
    (h : ShellsHeld env launchedFor s) (hguard : ShellsInTurn env launchedFor s a)
    (hstep : (mmsHistory env threadnum).step s a = some t) : ShellsHeld env launchedFor t := by
  have htracked := tracked_step h.tracked hstep
  obtain ⟨s, log⟩ := s
  obtain ⟨t, ht, rfl⟩ := Transition.logged_step.mp hstep
  obtain ⟨hreports, hsettled, hstored⟩ := hguard
  have hprogress : Progress env s t a (stepEvents env s a) := progress ht
  generalize stepEvents env s a = events at hprogress htracked hreports hsettled hstored
  cases hprogress with
  | loop hsrv hworkers =>
      rw [List.append_nil] at htracked ⊢
      refine ⟨htracked, by rw [hworkers]; exact h.opened, h.seen, ?_, ?_⟩
      · unfold Creating
        rw [hsrv, hworkers]
        exact h.created
      · unfold Linking
        rw [hsrv, hworkers]
        exact h.linked
  | start w job l hsame hstate hfd hjob hidle hworkers =>
      rw [List.append_nil] at htracked ⊢
      refine shellsHeld_idle h htracked hsame hworkers (by simp [hidle]) ?_
      intro b hb
      rw [Option.some.injEq] at hb
      rw [← hb]
      exact ⟨rfl, hfd⟩
  | turn w job l turn event haction hbusy hworked hsrv hworkers =>
      exact shellsHeld_turn h htracked hbusy hworked hreports hsettled hstored hsrv hworkers
  | effect w job l e todo hbusy hsrv hworkers =>
      rw [List.append_nil] at htracked ⊢
      exact shellsHeld_effect h htracked hbusy hsrv hworkers
  | finish w job l hbusy hsrv hworkers =>
      rw [List.append_nil] at htracked ⊢
      refine shellsHeld_idle h htracked (sameButBuffers_of_eq hsrv) hworkers ?_ (by simp)
      intro b hb
      rw [hbusy, Option.some.injEq] at hb
      rw [← hb]

end Invariant

section OneShell

/-- At most one shell client of a session is left running, and none that had reported when
the session was removed, in every run in which a session waits for its shell client. -/
theorem one_shell_per_session (env : ServerEnv) (threadnum : Nat) (launchedFor : Nat → Ptr)
    (s : System) (log : List Event)
    (h : (mmsHistory env threadnum).Reachable (ShellsInTurn env launchedFor) (s, log)) :
    OneShell launchedFor log := by
  have hinv : ShellsHeld env launchedFor (s, log) := by
    refine h.invariant (ShellsHeld env launchedFor) ?_ fun s a t hs hguard hstep =>
      shellsHeld_step hs hguard hstep
    refine ⟨tracked_init env threadnum, ?_, ⟨?_, ?_, ?_, ?_⟩, ?_, ?_⟩
    · intro w b hb
      simp [System.init] at hb
    · intro p
      simp [launches]
    · intro p
      simp
    · intro fd conn yyID found hmem
      simp at hmem
    · intro before after p shell hlog
      simp at hlog
    · intro fd conn yyID p hmem
      simp at hmem
    · intro fd conn yyID p hmem
      simp at hmem
  exact hinv.seen.oneShell

instance (log : List Event) (launchedFor : Nat → Ptr) :
    DecidablePred (reportsOnce launchedFor log)
  | .svrInit _ _ _ _ => Nat.decLt _ _
  | .login _ _ _ => isTrue trivial
  | .login1 _ _ => isTrue trivial
  | .openUrl _ _ => isTrue trivial
  | .logout _ _ => isTrue trivial

/-- A user opens a url, the shell client reports, the user opens another url and leaves. -/
def playAndLeave : List Action :=
  [Action.accept 5 6789,
    .receive 5 (frame (.login ⟨1, [], []⟩) ++ frame (.openUrl ⟨7, 8, lit "mms"⟩)), .start 0,
    .turn 0] ++ List.replicate 5 (Action.effect 0) ++ [Action.turn 0] ++
    List.replicate 3 (Action.effect 0) ++ [Action.finish 0, .accept 6 6790,
      .receive 6 (frame (.svrInit ⟨1, true⟩)), .start 0, .turn 0, .effect 0, .effect 0, .finish 0,
      .receive 5 (frame (.openUrl ⟨9, 8, lit "mms"⟩) ++ frame (.logout ⟨1⟩)), .start 0,
      .turn 0] ++ List.replicate 3 (Action.effect 0) ++ [Action.turn 0]

instance (log : List Event) (launchedFor : Nat → Ptr) :
    DecidablePred (shellSettled launchedFor log)
  | .openUrl _ _ => Nat.decLe _ _
  | .svrInit _ conn _ found => inferInstanceAs (Decidable (found = some (launchedFor conn) ∨
      (found = none ∧ log.any (Event.removes (launchedFor conn)) = true)))
  | .login _ _ _ => isTrue trivial
  | .login1 _ _ => isTrue trivial
  | .logout _ _ => isTrue trivial

theorem System.step_workers {env : ServerEnv} {threadnum : Nat} {s t : System} {a : Action}
    {w : Nat} (h : System.step env threadnum s a = some t)
    (hw : a ≠ .start w ∧ a ≠ .turn w ∧ a ≠ .effect w ∧ a ≠ .finish w) :
    t.workers w = s.workers w := by
  cases System.step_cases h with
  | accept fd port hfd hfree hport => rfl
  | receive fd data st hst hdata => rfl
  | shutdown fd st hst => rw [System.freeFdState_workers]
  | written fd result st st' hst hsend hwrite => rfl
  | broken fd result st hst hwrite => rw [System.freeFdState_workers]
  | dispatch m rest hqueue =>
      rw [(System.queueReceive_srv env threadnum { s with bufqueue := rest } m.item).2]
  | start v job rest hidle hjobs =>
      have hne : w ≠ v := fun heq => hw.1 (by rw [heq])
      unfold System.startJob
      split_ifs <;> simp [Function.update_of_ne hne]
  | turn v job l turn hbusy hbuf hturn =>
      have hne : w ≠ v := fun heq => hw.2.1 (by rw [heq])
      simp [System.setWorker, Function.update_of_ne hne]
  | effect v job l e todo hbusy =>
      have hne : w ≠ v := fun heq => hw.2.2.1 (by rw [heq])
      simp [System.setWorker, Function.update_of_ne hne]
  | finish v job l hbusy hbuf =>
      have hne : w ≠ v := fun heq => hw.2.2.2 (by rw [heq])
      simp [System.setWorker, Function.update_of_ne hne]

theorem shellsInTurn_playAndLeave : (mmsHistory default 1).Guarded
    (ShellsInTurn default fun _ => 0) playAndLeave (System.init, []) := by
  have hevents : (mmsHistory default 1).Guarded
      (fun s a => ∀ ev ∈ stepEvents default s.1 a,
        reportsOnce (fun _ => 0) s.2 ev ∧ shellSettled (fun _ => 0) s.2 ev) playAndLeave
      (System.init, []) := by decide +kernel
  have hactions : ∀ a ∈ playAndLeave, ∀ w, w ≠ 0 →
      a ≠ .start w ∧ a ≠ .turn w ∧ a ≠ .effect w ∧ a ≠ .finish w := by
    intro a ha w hw
    simp only [playAndLeave, List.mem_append, List.mem_cons, List.mem_replicate, List.not_mem_nil,
      or_false] at ha
    rcases ha with ((((((rfl | rfl | rfl | rfl) | ⟨-, rfl⟩) | rfl) | ⟨-, rfl⟩) |
      rfl | rfl | rfl | rfl | rfl | rfl | rfl | rfl | rfl | rfl | rfl) | ⟨-, rfl⟩) | rfl <;>
        simp [hw.symm]
  have hidle : (mmsHistory default 1).Guarded
      (fun s _ => ∀ w, w ≠ 0 → s.1.workers w = none) playAndLeave (System.init, []) := by
    refine Transition.guarded_of_invariant (fun w _ => rfl) ?_
    intro a ha s t hs hstep w hw
    obtain ⟨t, ht, rfl⟩ := Transition.logged_step.mp hstep
    rw [System.step_workers ht (hactions a ha w hw)]
    exact hs w hw
  refine hevents.and hidle ?_
  intro s a hevent hworkers
  refine ⟨fun ev hev => (hevent ev hev).1, fun ev hev => (hevent ev hev).2, ?_⟩
  rintro ev hev p - ⟨w, b, hb, -, e, he, -⟩
  -- the worker that handles the command has nothing left to do
  cases a with
  | turn v =>
      simp only [stepEvents] at hev
      split at hev
      · rename_i job l hbusy
        have hv : v = 0 := by
          by_contra hv
          simp [hworkers v hv] at hbusy
        have hw : w = 0 := by
          by_contra hw
          simp [hworkers w hw] at hb
        rw [hw, ← hv, hbusy, Option.some.injEq] at hb
        simp [← hb] at he
      · simp at hev
  | _ => simp [stepEvents] at hev

theorem one_shell_per_session_sample :
    ∃ s, (mmsHistory default 1).run playAndLeave (System.init, []) =
        some (s, [.login 0 1 true, .openUrl 0 true, .svrInit 6 1 1 (some 0), .openUrl 0 false,
          .logout 0 6]) ∧
      OneShell (fun _ => 0) [.login 0 1 true, .openUrl 0 true, .svrInit 6 1 1 (some 0),
        .openUrl 0 false, .logout 0 6] := by
  have hrun : ((mmsHistory default 1).run playAndLeave (System.init, [])).map Prod.snd =
      some [.login 0 1 true, .openUrl 0 true, .svrInit 6 1 1 (some 0), .openUrl 0 false,
        .logout 0 6] := by decide +kernel
  obtain ⟨⟨s, log⟩, hs, hlog⟩ := Option.map_eq_some_iff.mp hrun
  simp only at hlog
  subst hlog
  exact ⟨s, hs, one_shell_per_session default 1 (fun _ => 0) s _
    (.of_guarded .init shellsInTurn_playAndLeave hs)⟩

/-- The Windows build, in which `ShellExec` starts a process of its own. -/
def win32Env : ServerEnv := { (default : ServerEnv) with platform := .win32 }

/-- A user opens two urls before the shell client has reported. -/
def doubleOpen : List Action :=
  [Action.accept 5 6789, .receive 5 (frame (.login ⟨1, [], []⟩) ++
    frame (.openUrl ⟨7, 8, lit "mms"⟩) ++ frame (.openUrl ⟨9, 8, lit "mms"⟩)), .start 0, .turn 0] ++
    List.replicate 5 (Action.effect 0) ++ [Action.turn 0] ++ List.replicate 3 (Action.effect 0) ++
    [Action.turn 0]

theorem two_shells_for_session :
    ∃ s, (mmsHistory win32Env 1).run doubleOpen (System.init, []) =
        some (s, [.login 0 1 true, .openUrl 0 true, .openUrl 0 true]) ∧
      ∀ launchedFor, ¬ OneShell launchedFor [.login 0 1 true, .openUrl 0 true, .openUrl 0 true] := by
  have hrun : ((mmsHistory win32Env 1).run doubleOpen (System.init, [])).map Prod.snd =
      some [.login 0 1 true, .openUrl 0 true, .openUrl 0 true] := by decide +kernel
  obtain ⟨⟨s, log⟩, hs, hlog⟩ := Option.map_eq_some_iff.mp hrun
  simp only at hlog
  subst hlog
  refine ⟨s, hs, ?_⟩
  intro launchedFor hone
  have htwo := hone.one 0
  simp [launches, shellClients] at htwo

end OneShell

end MmsSvr
