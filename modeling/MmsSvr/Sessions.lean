import MmsSvr.History

/-!
Who knows a session.

Until a new session has been constructed, no thread but the one that handles its LOGIN
can reach it.
-/

namespace MmsSvr

open Lib

section Effects

def Event.session : Event → Option Ptr
  | .login p _ _ => some p
  | .login1 p _ => some p
  | .openUrl p _ => some p
  | .logout p _ => some p
  | .svrInit _ _ _ p => p

def Effect.mentions (p : Ptr) : Effect → Prop
  | .assign q _ => q = p
  | .addState _ q => q = p
  | .userAdd _ q => q = p
  | _ => False

def Creates (p : Ptr) (e : Effect) : Prop := ∃ fd, e = .assign p fun _ => newSession fd

theorem not_creates {p q : Ptr} {f : ItemData → ItemData}
    (h : (∀ s, (f s).channelID = s.channelID) ∨ ∀ s, (f s).account = s.account) :
    ¬ Creates q (.assign p f) := by
  rintro ⟨fd, he⟩
  simp only [Effect.assign.injEq] at he
  rw [he.2] at h
  rcases h with h | h
  · have hone := h { ItemData.init with channelID := 1 }
    simp [newSession, ItemData.init] at hone
  · have hone := h { ItemData.init with account := [1] }
    simp [newSession, ItemData.init] at hone

variable {env : ServerEnv} {job : Job} {srv : Server} {l : Locals} {turn : Turn}
  {event : Option Event} {e : Effect} {p : Ptr}

theorem Creates.mentions (h : Creates p e) : e.mentions p := by
  obtain ⟨fd, rfl⟩ := h
  rfl

theorem Made.session (h : Made env job srv event e) (hp : e.mentions p) :
    event.bind Event.session = some p := by
  cases h with
  | output event item => exact absurd hp id
  | launch event launch => exact absurd hp id
  | userDel hport q shell yyID => exact absurd hp id
  | delState hport q shell => exact absurd hp id
  | _ => exact congrArg some hp

theorem Made.creates (h : Made env job srv event e) (hp : Creates p e) :
    p = srv.logins ∧ ∃ yyID accepted, event = some (.login srv.logins yyID accepted) := by
  have hmentions := hp.mentions
  cases h with
  | create hport yyID accepted => exact ⟨hmentions.symm, yyID, accepted, rfl⟩
  | addState hport yyID accepted => exact ⟨hmentions.symm, yyID, accepted, rfl⟩
  | userAdd hport yyID accepted => exact ⟨hmentions.symm, yyID, accepted, rfl⟩
  | fields hport q r login accepted => exact absurd hp (not_creates (Or.inl fun _ => rfl))
  | key hport q yyID accepted aesKey => exact absurd hp (not_creates (Or.inl fun _ => rfl))
  | account hport q enveloped c => exact absurd hp (not_creates (Or.inl fun _ => rfl))
  | place hport q launched c => exact absurd hp (not_creates (Or.inr fun _ => rfl))
  | link hport q yyID => exact absurd hp (not_creates (Or.inl fun _ => rfl))
  | output event item => exact absurd hmentions id
  | launch event launch => exact absurd hmentions id
  | userDel hport q shell yyID => exact absurd hmentions id
  | delState hport q shell => exact absurd hmentions id

theorem Worked.fdIndex (h : Worked env job srv l turn event) :
    turn.srv.fdIndex = srv.fdIndex ∧ turn.srv.userData = srv.userData ∧
      turn.srv.heap = srv.heap ∧ srv.logins ≤ turn.srv.logins := by
  cases h <;> exact ⟨rfl, rfl, rfl, by simp⟩

theorem Worked.session (h : Worked env job srv l turn event)
    (hp : event.bind Event.session = some p) :
    (l.state = none ∧ p = srv.logins ∧ turn.srv.logins = srv.logins + 1) ∨ l.state = some p ∨
      ∃ yyID, srv.userData.getState yyID = some p := by
  cases h with
  | idle effects buf heffects => simp at hp
  | register hport offset login hparse hstate =>
      simp only [Option.bind_some, Event.session, Option.some.injEq] at hp
      exact Or.inl ⟨hstate, hp.symm, rfl⟩
  | relogin hport offset login q hparse hstate =>
      simp only [Option.bind_some, Event.session, Option.some.injEq] at hp
      rw [← hp]
      exact Or.inr (Or.inl hstate)
  | command hport offset jobj q cmd effects hparse hstate hnext hdispatch =>
      have hq : q = p := by
        cases cmd <;> simp_all [commandEvent, Event.session]
      rw [← hq]
      exact Or.inr (Or.inl hstate)
  | report hport offset c hparse => exact Or.inr (Or.inr ⟨c.yyID, hp⟩)

theorem Worked.locals (h : Worked env job srv l turn event) (hp : turn.locals.state = some p) :
    l.state = some p ∨ (p = srv.logins ∧ turn.srv.logins = srv.logins + 1) := by
  cases h with
  | idle effects buf heffects => exact Or.inl hp
  | register hport offset login hparse hstate =>
      simp only [Option.some.injEq] at hp
      exact Or.inr ⟨hp.symm, rfl⟩
  | relogin hport offset login q hparse hstate => exact Or.inl (hstate.trans hp)
  | command hport offset jobj q cmd effects hparse hstate hnext hdispatch =>
      exact Or.inl (hstate.trans hp)
  | report hport offset c hparse => exact Or.inl hp

theorem loginCmd_not_creates (env : ServerEnv) (r : Reading) (fd : Fd) (q : Ptr)
    (state : ItemData) : ∀ e ∈ loginCmd env r fd q state, ¬ Creates p e := by
  have houtput : ∀ {es : List Effect}, IsOutput es → ∀ e ∈ es, ¬ Creates p e := by
    intro es hes e he hp
    obtain ⟨item, rfl⟩ := hes e he
    exact hp.mentions
  unfold loginCmd
  split
  · rw [List.forall_mem_cons]
    refine ⟨not_creates (Or.inl fun _ => rfl), ?_⟩
    split
    · simp
    · exact houtput (sendCmd_isOutput fd _)
  · intro e he
    rcases List.mem_append.mp he with hsend | hclose
    · exact houtput (sendCmd_isOutput fd _) e hsend
    · exact houtput (closefd_isOutput fd) e hclose

theorem Worked.creates_first (h : Worked env job srv l turn event)
    (hl : l.state ≠ some srv.logins) : ∀ e ∈ turn.effects.tail, ¬ Creates p e := by
  intro e he hp
  obtain ⟨-, yyID, accepted, hevent⟩ := (h.made e (List.mem_of_mem_tail he)).creates hp
  cases h with
  | idle effects buf heffects => simp at hevent
  | register hport offset login hparse hstate =>
      simp only [handleLogin, List.cons_append, List.nil_append, List.tail_cons,
        List.mem_cons] at he
      rcases he with rfl | rfl | rfl | he
      · obtain ⟨fd, hfd⟩ := hp
        simp at hfd
      · obtain ⟨fd, hfd⟩ := hp
        simp at hfd
      · exact absurd hp (not_creates (Or.inl fun _ => rfl))
      · exact loginCmd_not_creates env _ job.fd _ _ e he hp
  | relogin hport offset login q hparse hstate =>
      simp only [Option.some.injEq, Event.login.injEq] at hevent
      exact hl (by rw [hstate, hevent.1])
  | command hport offset jobj q cmd effects hparse hstate hnext hdispatch =>
      cases cmd <;> simp [commandEvent] at hevent
  | report hport offset c hparse => simp at hevent

end Effects

section Tracked

/-- Nobody but the worker `w` knows the session at `p`. -/
structure Private (s : System) (w : Nat) (p : Ptr) : Prop where
  fdIndex : ∀ fd, s.srv.fdIndex.getState fd ≠ some p
  userData : ∀ yyID, s.srv.userData.getState yyID ≠ some p
  others : ∀ w' b, w' ≠ w → s.workers w' = some b →
    b.locals.state ≠ some p ∧ ∀ e ∈ b.todo, ¬ e.mentions p

structure Tracked (env : ServerEnv) (s : System × List Event) : Prop where
  index : ∀ fd p, s.1.srv.fdIndex.getState fd = some p → p < s.1.srv.logins
  user : ∀ yyID p, s.1.srv.userData.getState yyID = some p →
    p < s.1.srv.logins ∧ ∃ accepted, .login p yyID accepted ∈ s.2
  locals : ∀ w b, s.1.workers w = some b → ∀ p, b.locals.state = some p → p < s.1.srv.logins
  below : ∀ w b, s.1.workers w = some b → ∀ e ∈ b.todo, ∀ p, e.mentions p → p < s.1.srv.logins
  made : ∀ w b, s.1.workers w = some b → ∃ srv event, (∀ ev, event = some ev → ev ∈ s.2) ∧
    ∀ e ∈ b.todo, Made env b.job srv event e
  first : ∀ w b, s.1.workers w = some b → ∀ e ∈ b.todo.tail, ∀ p, ¬ Creates p e
  fresh : ∀ w b e, s.1.workers w = some b → b.todo.head? = some e → ∀ p, Creates p e →
    Private s.1 w p
  unborn : ∀ p, s.1.srv.logins ≤ p → (s.1.srv.heap p).shellClientFd = 0

variable {env : ServerEnv} {srv : Server} {e : Effect} {p : Ptr}

theorem apply_logins (srv : Server) (e : Effect) : (srv.apply e).logins = srv.logins := by
  cases e <;> rfl

theorem heap_assign (srv : Server) (q : Ptr) (f : ItemData → ItemData) (p : Ptr) :
    (srv.apply (.assign q f)).heap p = if p = q then f (srv.heap q) else srv.heap p := by
  by_cases hp : p = q
  · subst hp
    simp [Server.apply]
  · simp [Server.apply, hp]

theorem heap_apply_of_not_mentions (h : ¬ e.mentions p) : (srv.apply e).heap p = srv.heap p := by
  cases e with
  | assign q f => rw [heap_assign, if_neg fun hp => h hp.symm]
  | _ => rfl

theorem fdIndex_of_apply {fd : Fd} (h : (srv.apply e).fdIndex.getState fd = some p) :
    srv.fdIndex.getState fd = some p ∨ e = .addState fd p := by
  cases e with
  | addState fd' q =>
      simp only [Server.apply, StateMap.getState_addState] at h
      split at h
      · rename_i heq
        rw [Option.some.injEq] at h
        exact Or.inr (by rw [heq, h])
      · exact Or.inl h
  | delState fd' =>
      simp only [Server.apply, StateMap.getState_delState] at h
      split at h
      · simp at h
      · exact Or.inl h
  | _ => exact Or.inl h

theorem userData_of_apply {yyID : UInt32} (h : (srv.apply e).userData.getState yyID = some p) :
    srv.userData.getState yyID = some p ∨ e = .userAdd yyID p := by
  cases e with
  | userAdd yyID' q =>
      simp only [Server.apply, StateMap.getState_addState] at h
      split at h
      · rename_i heq
        rw [Option.some.injEq] at h
        exact Or.inr (by rw [heq, h])
      · exact Or.inl h
  | userDel yyID' =>
      simp only [Server.apply, StateMap.getState_delState] at h
      split at h
      · simp at h
      · exact Or.inl h
  | _ => exact Or.inl h

variable {s t : System} {log : List Event} {w w' : Nat}

theorem Private.update {b' : Option Busy} (h : Private s w p)
    (hfd : ∀ fd, t.srv.fdIndex.getState fd ≠ some p)
    (huser : ∀ yyID, t.srv.userData.getState yyID ≠ some p)
    (hworkers : t.workers = Function.update s.workers w' b')
    (hb' : w' ≠ w → ∀ b, b' = some b → b.locals.state ≠ some p ∧ ∀ e ∈ b.todo, ¬ e.mentions p) :
    Private t w p := by
  refine ⟨hfd, huser, ?_⟩
  intro v b hv hb
  rw [hworkers] at hb
  by_cases hvw : v = w'
  · subst hvw
    rw [Function.update_self] at hb
    exact hb' hv b hb
  · rw [Function.update_of_ne hvw] at hb
    exact h.others v b hv hb

theorem fresh_update {b' : Option Busy} (hworkers : t.workers = Function.update s.workers w' b')
    (hown : ∀ b e, b' = some b → b.todo.head? = some e → ∀ p, Creates p e → Private t w' p)
    (hother : ∀ w b e, w' ≠ w → s.workers w = some b → b.todo.head? = some e →
      ∀ p, Creates p e → Private t w p) :
    ∀ w b e, t.workers w = some b → b.todo.head? = some e → ∀ p, Creates p e → Private t w p := by
  intro w b e hb he p hp
  rw [hworkers] at hb
  by_cases hw : w = w'
  · subst hw
    rw [Function.update_self] at hb
    exact hown b e hb he p hp
  · rw [Function.update_of_ne hw] at hb
    exact hother w b e (fun heq => hw heq.symm) hb he p hp

theorem Tracked.private_logins {b' : Option Busy} (h : Tracked env (s, log))
    (hfd : t.srv.fdIndex = s.srv.fdIndex) (huser : t.srv.userData = s.srv.userData)
    (hworkers : t.workers = Function.update s.workers w' b') : Private t w' s.srv.logins := by
  refine ⟨?_, ?_, ?_⟩
  · intro fd hp
    rw [hfd] at hp
    exact Nat.lt_irrefl _ (h.index fd _ hp)
  · intro yyID hp
    rw [huser] at hp
    exact Nat.lt_irrefl _ (h.user yyID _ hp).1
  · intro v b hv hb
    rw [hworkers, Function.update_of_ne hv] at hb
    exact ⟨fun hstate => Nat.lt_irrefl _ (h.locals v b hb _ hstate),
      fun e he hp => Nat.lt_irrefl _ (h.below v b hb e he _ hp)⟩

theorem Private.turn {job : Job} {l : Locals} {turn : Turn} {event : Option Event}
    (h : Private s w p) (hlt : p < s.srv.logins) (hw : w' ≠ w)
    (hbusy : s.workers w' = some ⟨job, l, []⟩) (hworked : Worked env job s.srv l turn event)
    (hfd : t.srv.fdIndex = s.srv.fdIndex) (huser : t.srv.userData = s.srv.userData)
    (hworkers : t.workers =
      Function.update s.workers w' (some ⟨job, turn.locals, turn.effects⟩)) :
    Private t w p := by
  have hne : l.state ≠ some p := (h.others w' _ hw hbusy).1
  refine h.update (by rw [hfd]; exact h.fdIndex) (by rw [huser]; exact h.userData) hworkers ?_
  intro _ b hb
  rw [Option.some.injEq] at hb
  rw [← hb]
  constructor
  · intro hstate
    rcases hworked.locals hstate with hstate | ⟨rfl, -⟩
    · exact hne hstate
    · exact Nat.lt_irrefl _ hlt
  · intro e he hp
    rcases hworked.session ((hworked.made e he).session hp) with
      ⟨-, rfl, -⟩ | hstate | ⟨yyID, hyyID⟩
    · exact Nat.lt_irrefl _ hlt
    · exact hne hstate
    · exact h.userData yyID hyyID

theorem tracked_turn {job : Job} {l : Locals} {turn : Turn} {event : Option Event}
    (h : Tracked env (s, log)) (hbusy : s.workers w' = some ⟨job, l, []⟩)
    (hworked : Worked env job s.srv l turn event) (hsrv : t.srv = turn.srv)
    (hworkers : t.workers =
      Function.update s.workers w' (some ⟨job, turn.locals, turn.effects⟩)) :
    Tracked env (t, log ++ event.toList) := by
  obtain ⟨hfd, huser, hheap, hlogins⟩ := hworked.fdIndex
  rw [← hsrv] at hfd huser hheap hlogins
  have hlocal : ∀ p, l.state = some p → p < s.srv.logins := h.locals w' _ hbusy
  -- whatever the turn is about to touch is allocated
  have hsession : ∀ p, event.bind Event.session = some p → p < t.srv.logins := by
    intro p hp
    rcases hworked.session hp with ⟨-, rfl, hnew⟩ | hstate | ⟨yyID, hyyID⟩
    · rw [hsrv, hnew]
      exact Nat.lt_succ_self _
    · exact Nat.lt_of_lt_of_le (hlocal p hstate) hlogins
    · exact Nat.lt_of_lt_of_le (h.user yyID p hyyID).1 hlogins
  refine ⟨?_, ?_, ?_, ?_, ?_, ?_, ?_, ?_⟩
  · intro fd p hp
    rw [hfd] at hp
    exact Nat.lt_of_lt_of_le (h.index fd p hp) hlogins
  · intro yyID p hp
    rw [huser] at hp
    obtain ⟨hlt, accepted, hmem⟩ := h.user yyID p hp
    exact ⟨Nat.lt_of_lt_of_le hlt hlogins, accepted, List.mem_append_left _ hmem⟩
  · rw [hworkers]
    refine forall_workers_set
      (fun w b hb p hp => Nat.lt_of_lt_of_le (h.locals w b hb p hp) hlogins) ?_
    intro p hp
    rcases hworked.locals hp with hstate | ⟨rfl, hnew⟩
    · exact Nat.lt_of_lt_of_le (hlocal p hstate) hlogins
    · rw [hsrv, hnew]
      exact Nat.lt_succ_self _
  · rw [hworkers]
    refine forall_workers_set
      (fun w b hb e he p hp => Nat.lt_of_lt_of_le (h.below w b hb e he p hp) hlogins) ?_
    intro e he p hp
    exact hsession p ((hworked.made e he).session hp)
  · rw [hworkers]
    refine forall_workers_set ?_ ?_
    · intro w b hb
      obtain ⟨srv, ev, hev, hmade⟩ := h.made w b hb
      exact ⟨srv, ev, fun ev' hev' => List.mem_append_left _ (hev ev' hev'), hmade⟩
    · refine ⟨s.srv, event, ?_, hworked.made⟩
      intro ev hev
      simp [hev]
  · rw [hworkers]
    refine forall_workers_set h.first ?_
    intro e he p
    refine hworked.creates_first ?_ e he
    intro hstate
    exact Nat.lt_irrefl _ (hlocal _ hstate)
  · refine fresh_update hworkers ?_ ?_
    · intro b e hb he p hp
      rw [Option.some.injEq] at hb
      rw [← hb] at he
      obtain ⟨rfl, -⟩ := (hworked.made e (List.mem_of_mem_head? he)).creates hp
      exact h.private_logins hfd huser hworkers
    · intro w b e hw hb he p hp
      have hlt := h.below w b hb e (List.mem_of_mem_head? he) p hp.mentions
      exact (h.fresh w b e hb he p hp).turn hlt hw hbusy hworked hfd huser hworkers
  · intro p hp
    rw [hheap]
    exact h.unborn p (Nat.le_trans hlogins hp)

theorem Private.effect {job : Job} {l : Locals} {todo : List Effect} (h : Private s w p)
    (hw : w' ≠ w) (hbusy : s.workers w' = some ⟨job, l, e :: todo⟩)
    (hsrv : t.srv = s.srv.apply e)
    (hworkers : t.workers = Function.update s.workers w' (some ⟨job, l, todo⟩)) :
    Private t w p := by
  obtain ⟨hstate, htodo⟩ := h.others w' _ hw hbusy
  refine h.update ?_ ?_ hworkers ?_
  · intro fd hp
    rw [hsrv] at hp
    rcases fdIndex_of_apply hp with hp | rfl
    · exact h.fdIndex fd hp
    · exact htodo (.addState fd p) (by simp) rfl
  · intro yyID hp
    rw [hsrv] at hp
    rcases userData_of_apply hp with hp | rfl
    · exact h.userData yyID hp
    · exact htodo (.userAdd yyID p) (by simp) rfl
  · intro _ b hb
    rw [Option.some.injEq] at hb
    rw [← hb]
    exact ⟨hstate, fun e' he' => htodo e' (List.mem_cons_of_mem _ he')⟩

theorem tracked_effect {job : Job} {l : Locals} {todo : List Effect} (h : Tracked env (s, log))
    (hbusy : s.workers w' = some ⟨job, l, e :: todo⟩) (hsrv : t.srv = s.srv.apply e)
    (hworkers : t.workers = Function.update s.workers w' (some ⟨job, l, todo⟩)) :
    Tracked env (t, log) := by
  have hlogins : t.srv.logins = s.srv.logins := by rw [hsrv, apply_logins]
  have hbelow : ∀ p, e.mentions p → p < s.srv.logins := h.below w' _ hbusy e (by simp)
  obtain ⟨srv, event, hevent, hmade⟩ := h.made w' _ hbusy
  refine ⟨?_, ?_, ?_, ?_, ?_, ?_, ?_, ?_⟩
  · intro fd p hp
    rw [hlogins]
    rw [hsrv] at hp
    rcases fdIndex_of_apply hp with hp | rfl
    · exact h.index fd p hp
    · exact hbelow p rfl
  · intro yyID p hp
    rw [hlogins]
    rw [hsrv] at hp
    rcases userData_of_apply hp with hp | rfl
    · exact h.user yyID p hp
    · refine ⟨hbelow p rfl, ?_⟩
      cases hmade (.userAdd yyID p) (by simp) with
      | userAdd hport _ accepted => exact ⟨accepted, hevent _ rfl⟩
  · rw [hworkers, hlogins]
    refine forall_workers_set h.locals ?_
    exact h.locals w' ⟨job, l, e :: todo⟩ hbusy
  · rw [hworkers, hlogins]
    refine forall_workers_set h.below ?_
    intro e' he'
    exact h.below w' _ hbusy e' (List.mem_cons_of_mem _ he')
  · rw [hworkers]
    refine forall_workers_set h.made ?_
    exact ⟨srv, event, hevent, fun e' he' => hmade e' (List.mem_cons_of_mem _ he')⟩
  · rw [hworkers]
    refine forall_workers_set h.first ?_
    intro e' he'
    exact h.first w' _ hbusy e' (List.mem_of_mem_tail he')
  · refine fresh_update hworkers ?_ ?_
    · intro b e' hb he' p hp
      rw [Option.some.injEq] at hb
      rw [← hb] at he'
      exact absurd hp (h.first w' _ hbusy e' (List.mem_of_mem_head? he') p)
    · intro w b e' hw hb he' p hp
      exact (h.fresh w b e' hb he' p hp).effect hw hbusy hsrv hworkers
  · intro p hp
    rw [hlogins] at hp
    rw [hsrv, heap_apply_of_not_mentions]
    · exact h.unborn p hp
    · exact fun hmentions => Nat.not_lt_of_le hp (hbelow p hmentions)

theorem tracked_idle {b' : Option Busy} (h : Tracked env (s, log))
    (hsame : SameButBuffers s.srv t.srv) (hworkers : t.workers = Function.update s.workers w' b')
    (hb' : ∀ b, b' = some b → b.todo = [] ∧
      (b.locals.state = none ∨ b.locals.state = s.srv.fdIndex.getState b.job.fd)) :
    Tracked env (t, log) := by
  have hstate : ∀ b p, b' = some b → b.locals.state = some p →
      s.srv.fdIndex.getState b.job.fd = some p := by
    intro b p hb hp
    rcases (hb' b hb).2 with hnone | hindex
    · simp [hnone] at hp
    · rw [← hindex, hp]
  refine ⟨?_, ?_, ?_, ?_, ?_, ?_, ?_, ?_⟩
  · rw [hsame.fdIndex, hsame.logins]
    exact h.index
  · rw [hsame.userData, hsame.logins]
    exact h.user
  · rw [hworkers, hsame.logins]
    refine forall_workers_update h.locals ?_
    intro b hb p hp
    exact h.index _ p (hstate b p hb hp)
  · rw [hworkers, hsame.logins]
    refine forall_workers_update h.below ?_
    intro b hb
    simp [(hb' b hb).1]
  · rw [hworkers]
    refine forall_workers_update h.made ?_
    intro b hb
    exact ⟨s.srv, none, by simp, by simp [(hb' b hb).1]⟩
  · rw [hworkers]
    refine forall_workers_update h.first ?_
    intro b hb
    simp [(hb' b hb).1]
  · refine fresh_update hworkers ?_ ?_
    · intro b e hb he
      simp [(hb' b hb).1] at he
    · intro w b e hw hb he p hp
      have hprivate := h.fresh w b e hb he p hp
      refine hprivate.update (by rw [hsame.fdIndex]; exact hprivate.fdIndex)
        (by rw [hsame.userData]; exact hprivate.userData) hworkers ?_
      intro _ b₁ hb₁
      refine ⟨?_, by simp [(hb' b₁ hb₁).1]⟩
      intro hp'
      exact hprivate.fdIndex _ (hstate b₁ p hb₁ hp')
  · intro p hp
    rw [hsame.logins] at hp
    obtain ⟨buf, hbuf⟩ := hsame.heap p
    rw [hbuf]
    exact h.unborn p hp

theorem tracked_loop (h : Tracked env (s, log)) (hsrv : t.srv = s.srv)
    (hworkers : t.workers = s.workers) : Tracked env (t, log) := by
  refine ⟨by rw [hsrv]; exact h.index, by rw [hsrv]; exact h.user,
    by rw [hsrv, hworkers]; exact h.locals, by rw [hsrv, hworkers]; exact h.below,
    by rw [hworkers]; exact h.made, by rw [hworkers]; exact h.first, ?_,
    by rw [hsrv]; exact h.unborn⟩
  intro w b e hb he p hp
  rw [hworkers] at hb
  obtain ⟨hfd, huser, hothers⟩ := h.fresh w b e hb he p hp
  exact ⟨by rw [hsrv]; exact hfd, by rw [hsrv]; exact huser, by rw [hworkers]; exact hothers⟩

theorem sameButBuffers_of_eq (h : t.srv = s.srv) : SameButBuffers s.srv t.srv := by
  rw [h]
  exact ⟨rfl, rfl, rfl, fun p => ⟨_, rfl⟩⟩

theorem tracked_step {threadnum : Nat} {s t : System × List Event} {a : Action}
    (h : Tracked env s) (hstep : (mmsHistory env threadnum).step s a = some t) :
    Tracked env t := by
  obtain ⟨s, log⟩ := s
  obtain ⟨t, ht, rfl⟩ := Transition.logged_step.mp hstep
  have hprogress : Progress env s t a (stepEvents env s a) := progress ht
  generalize stepEvents env s a = events at hprogress
  cases hprogress with
  | loop hsrv hworkers =>
      rw [List.append_nil]
      exact tracked_loop h hsrv hworkers
  | start w job l hsame hstate hfd hjob hidle hworkers =>
      rw [List.append_nil]
      refine tracked_idle h hsame hworkers ?_
      intro b hb
      rw [Option.some.injEq] at hb
      rw [← hb]
      exact ⟨rfl, hstate⟩
  | turn w job l turn event haction hbusy hworked hsrv hworkers =>
      exact tracked_turn h hbusy hworked hsrv hworkers
  | effect w job l e todo hbusy hsrv hworkers =>
      rw [List.append_nil]
      exact tracked_effect h hbusy hsrv hworkers
  | finish w job l hbusy hsrv hworkers =>
      rw [List.append_nil]
      exact tracked_idle h (sameButBuffers_of_eq hsrv) hworkers (by simp)

theorem tracked_init (env : ServerEnv) (threadnum : Nat) :
    Tracked env (mmsHistory env threadnum).init := by
  refine ⟨?_, ?_, ?_, ?_, ?_, ?_, ?_, fun _ _ => rfl⟩
  · intro fd p hp
    simp [System.init, Server.init] at hp
  · intro yyID p hp
    simp [System.init, Server.init] at hp
  all_goals
    intro w b
    simp [System.init]

end Tracked

section Known

/-- The session can be reached: through an index, or by a worker that is handling a buffer. -/
inductive Known (s : System) (p : Ptr) : Prop where
  | index (fd : Fd) (h : s.srv.fdIndex.getState fd = some p)
  | user (yyID : UInt32) (h : s.srv.userData.getState yyID = some p)
  | state (w : Nat) (b : Busy) (hb : s.workers w = some b) (h : b.locals.state = some p)
  | todo (w : Nat) (b : Busy) (hb : s.workers w = some b) (e : Effect) (he : e ∈ b.todo)
      (h : e.mentions p)

variable {env : ServerEnv} {s t : System} {log : List Event} {p : Ptr}

theorem Known.lt_logins (h : Known s p) (htracked : Tracked env (s, log)) : p < s.srv.logins := by
  cases h with
  | index fd h => exact htracked.index fd p h
  | user yyID h => exact (htracked.user yyID p h).1
  | state w b hb h => exact htracked.locals w b hb p h
  | todo w b hb e he h => exact htracked.below w b hb e he p h

theorem Known.update {w : Nat} {b' : Option Busy} (h : Known t p)
    (hworkers : t.workers = Function.update s.workers w b')
    (hfd : ∀ fd, t.srv.fdIndex.getState fd = some p → Known s p)
    (huser : ∀ yyID, t.srv.userData.getState yyID = some p → Known s p)
    (hb' : ∀ b, b' = some b → (b.locals.state = some p → Known s p) ∧
      ∀ e ∈ b.todo, e.mentions p → Known s p) : Known s p := by
  have hworker : ∀ v b, t.workers v = some b → s.workers v = some b ∨ b' = some b := by
    intro v b hb
    rw [hworkers] at hb
    by_cases hv : v = w
    · subst hv
      exact Or.inr (by rwa [Function.update_self] at hb)
    · exact Or.inl (by rwa [Function.update_of_ne hv] at hb)
  cases h with
  | index fd h => exact hfd fd h
  | user yyID h => exact huser yyID h
  | state v b hb h =>
      rcases hworker v b hb with hold | hnew
      · exact .state v b hold h
      · exact (hb' b hnew).1 h
  | todo v b hb e he h =>
      rcases hworker v b hb with hold | hnew
      · exact .todo v b hold e he h
      · exact (hb' b hnew).2 e he h

theorem known_loop (hsrv : t.srv = s.srv) (hworkers : t.workers = s.workers) (h : Known t p) :
    Known s p := by
  cases h with
  | index fd h => exact .index fd (hsrv ▸ h)
  | user yyID h => exact .user yyID (hsrv ▸ h)
  | state w b hb h => exact .state w b (hworkers ▸ hb) h
  | todo w b hb e he h => exact .todo w b (hworkers ▸ hb) e he h

theorem known_idle {w : Nat} {b' : Option Busy} (hsame : SameButBuffers s.srv t.srv)
    (hworkers : t.workers = Function.update s.workers w b')
    (hb' : ∀ b, b' = some b → b.todo = [] ∧
      (b.locals.state = none ∨ b.locals.state = s.srv.fdIndex.getState b.job.fd))
    (h : Known t p) : Known s p := by
  refine h.update hworkers (fun fd h => .index fd (hsame.fdIndex ▸ h))
    (fun yyID h => .user yyID (hsame.userData ▸ h)) ?_
  intro b hb
  obtain ⟨htodo, hstate⟩ := hb' b hb
  refine ⟨?_, by simp [htodo]⟩
  intro hp
  rcases hstate with hnone | hindex
  · simp [hnone] at hp
  · exact .index b.job.fd (by rw [← hindex, hp])

theorem known_turn {w : Nat} {job : Job} {l : Locals} {turn : Turn} {event : Option Event}
    (hbusy : s.workers w = some ⟨job, l, []⟩) (hworked : Worked env job s.srv l turn event)
    (hsrv : t.srv = turn.srv)
    (hworkers : t.workers = Function.update s.workers w (some ⟨job, turn.locals, turn.effects⟩))
    (h : Known t p) : Known s p ∨ p = s.srv.logins := by
  obtain ⟨hfd, huser, -, -⟩ := hworked.fdIndex
  rw [← hsrv] at hfd huser
  by_cases hnew : p = s.srv.logins
  · exact Or.inr hnew
  · left
    refine h.update hworkers (fun fd h => .index fd (hfd ▸ h))
      (fun yyID h => .user yyID (huser ▸ h)) ?_
    intro b hb
    rw [Option.some.injEq] at hb
    rw [← hb]
    constructor
    · intro hp
      exact .state w _ hbusy ((hworked.locals hp).resolve_right fun hlogins => hnew hlogins.1)
    · intro e he hp
      rcases hworked.session ((hworked.made e he).session hp) with
        ⟨-, hlogins, -⟩ | hstate | ⟨yyID, hyyID⟩
      · exact absurd hlogins hnew
      · exact .state w _ hbusy hstate
      · exact .user yyID hyyID

theorem known_effect {w : Nat} {job : Job} {l : Locals} {e : Effect} {todo : List Effect}
    (hbusy : s.workers w = some ⟨job, l, e :: todo⟩) (hsrv : t.srv = s.srv.apply e)
    (hworkers : t.workers = Function.update s.workers w (some ⟨job, l, todo⟩))
    (h : Known t p) : Known s p := by
  refine h.update hworkers ?_ ?_ ?_
  · intro fd h
    rw [hsrv] at h
    rcases fdIndex_of_apply h with h | rfl
    · exact .index fd h
    · exact .todo w _ hbusy (.addState fd p) (List.mem_cons_self ..) rfl
  · intro yyID h
    rw [hsrv] at h
    rcases userData_of_apply h with h | rfl
    · exact .user yyID h
    · exact .todo w _ hbusy (.userAdd yyID p) (List.mem_cons_self ..) rfl
  · intro b hb
    rw [Option.some.injEq] at hb
    rw [← hb]
    exact ⟨fun hp => .state w _ hbusy hp,
      fun e' he' hp => .todo w _ hbusy e' (List.mem_cons_of_mem _ he') hp⟩

end Known

section Indexed

/-- The index by descriptor finds a session under the descriptor it was made for. -/
structure Indexed (s : System) : Prop where
  index : ∀ fd p, s.srv.fdIndex.getState fd = some p → (s.srv.heap p).fd = fd
  pending : ∀ w b, s.workers w = some b → ∀ fd p, .addState fd p ∈ b.todo →
    b.todo.head? = some (.assign p fun _ => newSession fd) ∨ (s.srv.heap p).fd = fd

variable {env : ServerEnv} {job : Job} {srv : Server} {l : Locals} {turn : Turn}
  {event : Option Event} {e : Effect} {fd : Fd} {p : Ptr}

theorem Made.addState_inv (h : Made env job srv event (.addState fd p)) :
    fd = job.fd ∧ p = srv.logins ∧
      ∃ yyID accepted, event = some (.login srv.logins yyID accepted) := by
  cases h with
  | addState hport yyID accepted => exact ⟨rfl, rfl, yyID, accepted, rfl⟩

theorem Made.keeps_fd (h : Made env job srv event e) (srv' : Server) (p : Ptr) :
    ((srv'.apply e).heap p).fd = (srv'.heap p).fd ∨ e = .assign p fun _ => newSession job.fd := by
  have hassign : ∀ q f, (∀ st : ItemData, (f st).fd = st.fd) →
      ((srv'.apply (.assign q f)).heap p).fd = (srv'.heap p).fd := by
    intro q f hf
    rw [heap_assign]
    split
    · rename_i hp
      rw [hf, hp]
    · rfl
  cases h with
  | create hport yyID accepted =>
      rw [heap_assign]
      split
      · rename_i hp
        exact Or.inr (by rw [hp])
      · exact Or.inl rfl
  | fields hport q r login accepted => exact Or.inl (hassign _ _ fun _ => rfl)
  | key hport q yyID accepted aesKey => exact Or.inl (hassign _ _ fun _ => rfl)
  | account hport q enveloped c => exact Or.inl (hassign _ _ fun _ => rfl)
  | place hport q launched c => exact Or.inl (hassign _ _ fun _ => rfl)
  | link hport q yyID => exact Or.inl (hassign _ _ fun _ => rfl)
  | _ => exact Or.inl rfl

theorem Worked.addState (h : Worked env job srv l turn event) (hl : l.state ≠ some srv.logins)
    (he : .addState fd p ∈ turn.effects) :
    turn.effects.head? = some (.assign p fun _ => newSession fd) := by
  obtain ⟨rfl, rfl, yyID, accepted, hevent⟩ := (h.made _ he).addState_inv
  cases h with
  | idle effects buf heffects => simp at hevent
  | register hport offset login hparse hstate => rfl
  | relogin hport offset login q hparse hstate =>
      simp only [Option.some.injEq, Event.login.injEq] at hevent
      exact absurd (by rw [hstate, hevent.1]) hl
  | command hport offset jobj q cmd effects hparse hstate hnext hdispatch =>
      cases cmd <;> simp [commandEvent] at hevent
  | report hport offset c hparse => simp at hevent

variable {s t : System} {log : List Event} {w : Nat}

theorem indexed_effect {todo : List Effect} (htracked : Tracked env (s, log)) (h : Indexed s)
    (hbusy : s.workers w = some ⟨job, l, e :: todo⟩) (hsrv : t.srv = s.srv.apply e)
    (hworkers : t.workers = Function.update s.workers w (some ⟨job, l, todo⟩)) : Indexed t := by
  obtain ⟨srv₀, event, -, hmade⟩ := htracked.made w _ hbusy
  have hprivate : ∀ p, e = .assign p (fun _ => newSession job.fd) → Private s w p :=
    fun p he => htracked.fresh w _ e hbusy rfl p ⟨job.fd, he⟩
  have hkeep := (hmade e (List.mem_cons_self ..)).keeps_fd s.srv
  constructor
  · intro fd p hp
    rw [hsrv] at hp ⊢
    rcases fdIndex_of_apply hp with hold | rfl
    · rcases hkeep p with hsame | hcreate
      · rw [hsame]
        exact h.index fd p hold
      · exact absurd hold ((hprivate p hcreate).fdIndex fd)
    · exact (h.pending w _ hbusy fd p (List.mem_cons_self ..)).resolve_left (by simp)
  · intro v b hb fd p hadd
    rw [hworkers] at hb
    rw [hsrv]
    by_cases hv : v = w
    · subst hv
      rw [Function.update_self, Option.some.injEq] at hb
      subst hb
      right
      have hfd : fd = job.fd := (hmade _ (List.mem_cons_of_mem _ hadd)).addState_inv.1
      have hcreated : e = .assign p (fun _ => newSession job.fd) →
          ((s.srv.apply e).heap p).fd = fd := by
        rintro rfl
        rw [heap_assign, if_pos rfl, hfd]
        rfl
      rcases h.pending v _ hbusy fd p (List.mem_cons_of_mem _ hadd) with hhead | hold
      · rw [List.head?_cons, Option.some.injEq, hfd] at hhead
        exact hcreated hhead
      · rcases hkeep p with hsame | hcreate
        · rw [hsame, hold]
        · exact hcreated hcreate
    · rw [Function.update_of_ne hv] at hb
      refine (h.pending v b hb fd p hadd).imp_right ?_
      intro hold
      rcases hkeep p with hsame | hcreate
      · rw [hsame, hold]
      · exact absurd rfl (((hprivate p hcreate).others v b hv hb).2 _ hadd)

theorem indexed_idle {b' : Option Busy} (h : Indexed s) (hsame : SameButBuffers s.srv t.srv)
    (hworkers : t.workers = Function.update s.workers w b')
    (hb' : ∀ b, b' = some b → b.todo = []) : Indexed t := by
  have hfd : ∀ p, (t.srv.heap p).fd = (s.srv.heap p).fd := by
    intro p
    obtain ⟨buf, hbuf⟩ := hsame.heap p
    rw [hbuf]
  constructor
  · intro fd p hp
    rw [hsame.fdIndex] at hp
    rw [hfd, h.index fd p hp]
  · rw [hworkers]
    refine forall_workers_update ?_ ?_
    · intro v b hb fd p hadd
      rw [hfd]
      exact h.pending v b hb fd p hadd
    · intro b hb
      simp [hb' b hb]

theorem indexed_step {threadnum : Nat} {a : Action} (htracked : Tracked env (s, log))
    (h : Indexed s) (hstep : System.step env threadnum s a = some t) : Indexed t := by
  have hprogress := progress hstep
  generalize stepEvents env s a = events at hprogress
  cases hprogress with
  | loop hsrv hworkers =>
      exact ⟨by rw [hsrv]; exact h.index, by rw [hsrv, hworkers]; exact h.pending⟩
  | start w job l hsame hstate hfd hjob hidle hworkers =>
      exact indexed_idle h hsame hworkers (by simp)
  | turn w job l turn event haction hbusy hworked hsrv hworkers =>
      obtain ⟨hfd, -, hheap, -⟩ := hworked.fdIndex
      rw [← hsrv] at hfd hheap
      refine ⟨by rw [hfd, hheap]; exact h.index, ?_⟩
      rw [hworkers, hheap]
      refine forall_workers_set h.pending ?_
      intro fd p hadd
      refine Or.inl (hworked.addState ?_ hadd)
      intro hstate
      exact Nat.lt_irrefl _ (htracked.locals w _ hbusy _ hstate)
  | effect w job l e todo hbusy hsrv hworkers =>
      exact indexed_effect htracked h hbusy hsrv hworkers
  | finish w job l hbusy hsrv hworkers =>
      exact indexed_idle h (sameButBuffers_of_eq hsrv) hworkers (by simp)

theorem reachable_indexed {threadnum : Nat} {s : System × List Event}
    {guard : System × List Event → Action → Prop}
    (h : (mmsHistory env threadnum).Reachable guard s) : Tracked env s ∧ Indexed s.1 := by
  refine h.invariant (fun s => Tracked env s ∧ Indexed s.1) ⟨tracked_init env threadnum, ?_⟩ ?_
  · constructor
    · intro fd p hp
      simp [System.init, Server.init] at hp
    · intro w b hb
      simp [System.init] at hb
  · rintro ⟨s, log⟩ a t ⟨htracked, hindexed⟩ - hstep
    refine ⟨tracked_step htracked hstep, ?_⟩
    obtain ⟨t, ht, rfl⟩ := Transition.logged_step.mp hstep
    exact indexed_step htracked hindexed ht

end Indexed

end MmsSvr
