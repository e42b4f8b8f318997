import MmsSvr.History
import MmsSvr.Envelope

/-!
OPENURL and the login sequence that should come before it.
-/

namespace MmsSvr

open YYmmsJson YYSSL
open Lib

section Sequence

def LoggedIn (log : List Event) (p : Ptr) : Prop := ∃ yyID, .login p yyID true ∈ log

/-- The session has been through the login sequence: a LOGIN that was accepted, with none
refused since, and after it a LOGIN1 in an AES envelope. -/
def SignedOn (log : List Event) (p : Ptr) : Prop :=
  ∃ before mid after yyID,
    log = before ++ .login p yyID true :: (mid ++ .login1 p true :: after) ∧
      ∀ yyID', .login p yyID' false ∉ mid ∧ .login p yyID' false ∉ after

/-- OPENURL is carried out only for sessions that are signed on. -/
def Gated (log : List Event) : Prop :=
  ∀ before after p launched, log = before ++ .openUrl p launched :: after → SignedOn before p

def hasAccount (s : ItemData) : Bool := s.uid != 0 || s.account != [] || s.pwd != []

/-- A turn of a client that keeps to the sequence, on a worker whose `mysql_init` succeeded. -/
def turnInSequence (env : ServerEnv) (srv : Server) (l : Locals) : Bool :=
  match parseCmd env.toEnv l.buf with
  | .success _ (.login _) => (env.readings srv.logins).accepts
  | .success _ (.login1 _) => false
  | .success _ jobj =>
      match l.state with
      | none => true
      | some p =>
          match nextRun env.toEnv (srv.heap p).aes (l.buf.length + 1) jobj with
          | some (.ok (some (.openUrl _))) => hasAccount (srv.heap p)
          | _ => true
  | _ => true

def InSequence (env : ServerEnv) (s : System × List Event) : Action → Prop
  | .turn w => ∀ b ∈ s.1.workers w, b.job.port ≠ env.mangport →
      turnInSequence env s.1.srv b.locals = true
  | _ => True

instance (env : ServerEnv) (s : System × List Event) (a : Action) :
    Decidable (InSequence env s a) :=
  match a with
  | .turn w => inferInstanceAs (Decidable (∀ b ∈ s.1.workers w, b.job.port ≠ env.mangport →
      turnInSequence env s.1.srv b.locals = true))
  | .accept _ _ | .receive _ _ | .shutdown _ | .write _ _ | .dispatch | .start _ | .effect _
  | .finish _ => isTrue trivial

section Turns

variable {env : ServerEnv} {srv : Server} {l : Locals} {offset : Nat}

theorem accepts_of_inSequence {login : YYJsonLogin} (h : turnInSequence env srv l = true)
    (hparse : parseCmd env.toEnv l.buf = .success offset (.login login)) :
    (env.readings srv.logins).accepts = true := by
  simpa only [turnInSequence, hparse] using h

theorem not_login1_of_inSequence {c : YYJsonLogin1} (h : turnInSequence env srv l = true) :
    parseCmd env.toEnv l.buf ≠ .success offset (.login1 c) := by
  intro hparse
  simp [turnInSequence, hparse] at h

theorem hasAccount_of_inSequence {jobj : YYJ} {p : Ptr} {c : YYJsonOpenUrl}
    (h : turnInSequence env srv l = true)
    (hparse : parseCmd env.toEnv l.buf = .success offset jobj) (hstate : l.state = some p)
    (hnext : nextRun env.toEnv (srv.heap p).aes (l.buf.length + 1) jobj =
      some (.ok (some (.openUrl c)))) : hasAccount (srv.heap p) = true := by
  cases jobj with
  | login login => simp [nextRun] at hnext
  | login1 c => simp [nextRun] at hnext
  | _ => simpa only [turnInSequence, hparse, hstate, hnext] using h

end Turns

variable {log : List Event} {p : Ptr}

theorem Gated.append (h : Gated log) (e : Event)
    (he : ∀ p launched, e = .openUrl p launched → SignedOn log p) : Gated (log ++ [e]) := by
  intro before after p launched hlog
  rcases List.eq_nil_or_concat after with rfl | ⟨after, e', rfl⟩
  · obtain ⟨rfl, rfl⟩ := List.append_singleton_inj.mp hlog
    exact he p launched rfl
  · rw [List.concat_eq_append, ← List.cons_append, ← List.append_assoc,
      List.append_singleton_inj] at hlog
    exact h before after p launched hlog.1

theorem LoggedIn.append (h : LoggedIn log p) (events : List Event) :
    LoggedIn (log ++ events) p := by
  obtain ⟨yyID, hmem⟩ := h
  exact ⟨yyID, List.mem_append_left _ hmem⟩

theorem signedOn_of_loggedIn (h : LoggedIn log p)
    (hnone : ∀ p yyID, .login p yyID false ∉ log) : SignedOn (log ++ [.login1 p true]) p := by
  obtain ⟨yyID, hmem⟩ := h
  obtain ⟨before, mid, rfl⟩ := List.append_of_mem hmem
  refine ⟨before, mid, [], yyID, by simp, fun yyID' => ⟨?_, by simp⟩⟩
  intro hmid
  exact hnone p yyID' (by simp [hmid])

theorem SignedOn.append (h : SignedOn log p) {events : List Event}
    (hnone : ∀ p yyID, .login p yyID false ∉ events) : SignedOn (log ++ events) p := by
  obtain ⟨before, mid, after, yyID, rfl, hrefused⟩ := h
  refine ⟨before, mid, after ++ events, yyID, by simp, fun yyID' => ⟨(hrefused yyID').1, ?_⟩⟩
  rw [List.mem_append, not_or]
  exact ⟨(hrefused yyID').2, hnone p yyID'⟩

end Sequence

section Invariant

/-- A pending effect that agrees with the history. -/
def Backed (log : List Event) : Effect → Prop
  | .assign p f => ∀ s, hasAccount (f s) → hasAccount s ∨ SignedOn log p
  | .addState _ p => LoggedIn log p
  | _ => True

structure LoginFirst (s : System × List Event) : Prop where
  none_refused : ∀ p yyID, .login p yyID false ∉ s.2
  index : ∀ fd p, s.1.srv.fdIndex.getState fd = some p → LoggedIn s.2 p
  locals : ∀ w b, s.1.workers w = some b → ∀ p, b.locals.state = some p → LoggedIn s.2 p
  todo : ∀ w b, s.1.workers w = some b → ∀ e ∈ b.todo, Backed s.2 e
  account : ∀ p, hasAccount (s.1.srv.heap p) → SignedOn s.2 p
  gated : Gated s.2

variable {env : ServerEnv} {log : List Event} {events : List Event} {p : Ptr}

theorem Backed.append {e : Effect} (h : Backed log e)
    (hnone : ∀ p yyID, .login p yyID false ∉ events) : Backed (log ++ events) e := by
  cases e with
  | assign p f =>
      intro s hs
      exact (h s hs).imp_right fun hsigned => hsigned.append hnone
  | addState fd p => exact LoggedIn.append h events
  | _ => trivial

theorem Made.backed {job : Job} {srv : Server} {event : Option Event} {e : Effect}
    (h : Made env job srv event e) (hlogin : ∀ p yyID, event ≠ some (.login p yyID false))
    (hlogin1 : ∀ p enveloped, event = some (.login1 p enveloped) →
      SignedOn (log ++ event.toList) p) : Backed (log ++ event.toList) e := by
  cases h with
  | create hport yyID accepted =>
      intro s hs
      simp [hasAccount, newSession, ItemData.init] at hs
  | addState hport yyID accepted =>
      cases accepted with
      | false => exact absurd rfl (hlogin srv.logins yyID)
      | true => exact ⟨yyID, by simp⟩
  | account hport p enveloped c => exact fun s _ => Or.inr (hlogin1 p enveloped rfl)
  | fields hport p r login accepted => exact fun s hs => Or.inl hs
  | key hport p yyID accepted aesKey => exact fun s hs => Or.inl hs
  | place hport p launched c => exact fun s hs => Or.inl hs
  | link hport p yyID => exact fun s hs => Or.inl hs
  | _ => trivial

theorem nextRun_isEnvelope {aes : YYAES} {fuel : Nat} {jobj cmd : YYJ}
    (h : nextRun env.toEnv aes fuel jobj = some (.ok (some cmd))) :
    isEnvelope jobj = true ∨ jobj = cmd := by
  cases fuel with
  | zero => simp [nextRun] at h
  | succ fuel =>
      cases jobj with
      | compAES c => exact Or.inl rfl
      | _ =>
          right
          simpa [nextRun] using h

theorem apply_account {srv : Server} {e : Effect} (he : Backed log e)
    (h : ∀ p, hasAccount (srv.heap p) → SignedOn log p) :
    ∀ p, hasAccount ((srv.apply e).heap p) → SignedOn log p := by
  intro q hq
  cases e with
  | assign p f =>
      by_cases hqp : q = p
      · subst hqp
        simp only [Server.apply, Function.update_self] at hq
        exact (he _ hq).elim (h q) id
      · simp only [Server.apply, Function.update_of_ne hqp] at hq
        exact h q hq
  | _ => exact h q hq

theorem apply_loggedIn {srv : Server} {e : Effect} (he : Backed log e)
    (h : ∀ fd p, srv.fdIndex.getState fd = some p → LoggedIn log p) :
    ∀ fd p, (srv.apply e).fdIndex.getState fd = some p → LoggedIn log p := by
  intro fd q hq
  cases e with
  | addState fd' p =>
      simp only [Server.apply, StateMap.getState_addState] at hq
      split at hq
      · rw [Option.some.injEq] at hq
        rw [← hq]
        exact he
      · exact h fd q hq
  | delState fd' =>
      simp only [Server.apply, StateMap.getState_delState] at hq
      split at hq
      · simp at hq
      · exact h fd q hq
  | _ => exact h fd q hq

/-- What a turn adds to a history in sequence. -/
structure InStep (log : List Event) (event : Option Event) (turn : Turn) : Prop where
  accepted : ∀ p yyID, event ≠ some (.login p yyID false)
  login1 : ∀ p enveloped, event = some (.login1 p enveloped) → SignedOn (log ++ event.toList) p
  openUrl : ∀ p launched, event = some (.openUrl p launched) → SignedOn log p
  locals : ∀ p, turn.locals.state = some p → LoggedIn (log ++ event.toList) p

theorem inStep_login {turn : Turn} {yyID : UInt32} (hstate : turn.locals.state = some p) :
    InStep log (some (.login p yyID true)) turn := by
  refine ⟨by simp, by simp, by simp, ?_⟩
  intro q hq
  rw [hstate, Option.some.injEq] at hq
  exact ⟨yyID, by simp [hq]⟩

theorem inStep_command {s : System} {l : Locals} {turn : Turn} {jobj cmd : YYJ} {offset : Nat}
    (h : LoginFirst (s, log)) (hlocal : LoggedIn log p) (hguard : turnInSequence env s.srv l = true)
    (hparse : parseCmd env.toEnv l.buf = .success offset jobj) (hl : l.state = some p)
    (hnext : nextRun env.toEnv (s.srv.heap p).aes (l.buf.length + 1) jobj =
      some (.ok (some cmd))) (hstate : turn.locals.state = some p) :
    InStep log (commandEvent jobj p (s.srv.heap p) cmd) turn := by
  have hlocals : ∀ q, turn.locals.state = some q →
      LoggedIn (log ++ (commandEvent jobj p (s.srv.heap p) cmd).toList) q := by
    intro q hq
    rw [hstate, Option.some.injEq] at hq
    rw [← hq]
    exact hlocal.append _
  cases cmd with
  | login1 c =>
      -- a plain LOGIN1 is not read, so this one was enveloped
      have henvelope : isEnvelope jobj = true := by
        rcases nextRun_isEnvelope hnext with henvelope | rfl
        · exact henvelope
        · exact absurd hparse (not_login1_of_inSequence hguard)
      refine ⟨by simp [commandEvent], ?_, by simp [commandEvent], hlocals⟩
      intro q enveloped hq
      simp only [commandEvent, henvelope, Option.some.injEq, Event.login1.injEq] at hq
      rw [← hq.1, commandEvent, henvelope]
      exact signedOn_of_loggedIn hlocal h.none_refused
  | openUrl c =>
      refine ⟨by simp [commandEvent], by simp [commandEvent], ?_, hlocals⟩
      intro q launched hq
      simp only [commandEvent, Option.some.injEq, Event.openUrl.injEq] at hq
      rw [← hq.1]
      exact h.account p (hasAccount_of_inSequence hguard hparse hl hnext)
  | _ => exact ⟨by simp [commandEvent], by simp [commandEvent], by simp [commandEvent], hlocals⟩

theorem inStep {s : System} {job : Job} {l : Locals} {turn : Turn} {event : Option Event}
    (h : LoginFirst (s, log)) (hlocal : ∀ p, l.state = some p → LoggedIn log p)
    (hworked : Worked env job s.srv l turn event)
    (hguard : job.port ≠ env.mangport → turnInSequence env s.srv l = true) :
    InStep log event turn := by
  cases hworked with
  | idle effects buf heffects =>
      exact ⟨by simp, by simp, by simp, fun p hp => (hlocal p hp).append _⟩
  | register hport offset login hparse hstate =>
      rw [accepts_of_inSequence (hguard hport) hparse]
      exact inStep_login rfl
  | relogin hport offset login p hparse hstate =>
      rw [accepts_of_inSequence (hguard hport) hparse]
      exact inStep_login rfl
  | command hport offset jobj p cmd effects hparse hstate hnext hdispatch =>
      exact inStep_command h (hlocal p hstate) (hguard hport) hparse hstate hnext rfl
  | report hport offset c hparse =>
      exact ⟨by simp, by simp, by simp, fun p hp => (hlocal p hp).append _⟩

theorem loginFirst_turn {s t : System} {w : Nat} {job : Job} {l : Locals} {turn : Turn}
    {event : Option Event} (h : LoginFirst (s, log)) (hbusy : s.workers w = some ⟨job, l, []⟩)
    (hworked : Worked env job s.srv l turn event)
    (hguard : job.port ≠ env.mangport → turnInSequence env s.srv l = true) (hsrv : t.srv = turn.srv)
    (hworkers : t.workers =
      Function.update s.workers w (some ⟨job, turn.locals, turn.effects⟩)) :
    LoginFirst (t, log ++ event.toList) := by
  have hlocal := h.locals w _ hbusy
  have hsame : turn.srv.fdIndex = s.srv.fdIndex ∧ turn.srv.heap = s.srv.heap := by
    cases hworked <;> exact ⟨rfl, rfl⟩
  have hstep := inStep h hlocal hworked hguard
  have hrefused : ∀ p yyID, .login p yyID false ∉ event.toList := by
    intro p yyID hmem
    rw [Option.mem_toList] at hmem
    exact hstep.accepted p yyID hmem
  refine ⟨?_, ?_, ?_, ?_, ?_, ?_⟩
  · intro p yyID hmem
    rcases List.mem_append.mp hmem with hmem | hmem
    · exact h.none_refused p yyID hmem
    · exact hrefused p yyID hmem
  · intro fd p hp
    rw [hsrv, hsame.1] at hp
    exact (h.index fd p hp).append _
  · rw [hworkers]
    refine forall_workers_set (fun w b hb p hp => (h.locals w b hb p hp).append _) ?_
    exact hstep.locals
  · rw [hworkers]
    refine forall_workers_set (fun w b hb e he => (h.todo w b hb e he).append hrefused) ?_
    exact fun e he => (hworked.made e he).backed hstep.accepted hstep.login1
  · intro p hp
    rw [hsrv, hsame.2] at hp
    exact (h.account p hp).append hrefused
  · cases event with
    | none =>
        rw [Option.toList_none, List.append_nil]
        exact h.gated
    | some e =>
        refine h.gated.append e ?_
        intro p launched he
        exact hstep.openUrl p launched (by rw [he])

theorem loginFirst_step {threadnum : Nat} {s t : System × List Event} {a : Action}
    (h : LoginFirst s) (hguard : InSequence env s a)
    (hstep : (mmsHistory env threadnum).step s a = some t) : LoginFirst t := by
  obtain ⟨s, log⟩ := s
  obtain ⟨t, ht, rfl⟩ := Transition.logged_step.mp hstep
  have hprogress : Progress env s t a (stepEvents env s a) := progress ht
  generalize stepEvents env s a = events at hprogress
  cases hprogress with
  | loop hsrv hworkers =>
      rw [List.append_nil]
      exact ⟨h.none_refused, by rw [hsrv]; exact h.index, by rw [hworkers]; exact h.locals,
        by rw [hworkers]; exact h.todo, by rw [hsrv]; exact h.account, h.gated⟩
  | start w job l hsame hstate hfd hjob hidle hworkers =>
      rw [List.append_nil]
      refine ⟨h.none_refused, by rw [hsame.fdIndex]; exact h.index, ?_, ?_, ?_, h.gated⟩
      · rw [hworkers]
        refine forall_workers_set h.locals ?_
        intro p hp
        rcases hstate with hstate | hstate
        · simp [hstate] at hp
        · exact h.index job.fd p (by rw [← hstate, hp])
      · rw [hworkers]
        refine forall_workers_set h.todo ?_
        simp
      · intro p hp
        obtain ⟨buf, hbuf⟩ := hsame.heap p
        rw [hbuf] at hp
        exact h.account p hp
  | turn w job l turn event haction hbusy hworked hsrv hworkers =>
      subst haction
      exact loginFirst_turn h hbusy hworked (hguard _ hbusy) hsrv hworkers
  | effect w job l e todo hbusy hsrv hworkers =>
      rw [List.append_nil]
      have hbacked := h.todo w _ hbusy
      rw [List.forall_mem_cons] at hbacked
      refine ⟨h.none_refused, ?_, ?_, ?_, ?_, h.gated⟩
      · rw [hsrv]
        exact apply_loggedIn hbacked.1 h.index
      · rw [hworkers]
        refine forall_workers_set h.locals ?_
        exact h.locals w ⟨job, l, e :: todo⟩ hbusy
      · rw [hworkers]
        refine forall_workers_set h.todo ?_
        exact hbacked.2
      · rw [hsrv]
        exact apply_account hbacked.1 h.account
  | finish w job l hbusy hsrv hworkers =>
      rw [List.append_nil]
      refine ⟨h.none_refused, by rw [hsrv]; exact h.index, ?_, ?_, by rw [hsrv]; exact h.account,
        h.gated⟩
      · rw [hworkers]
        exact forall_workers_update h.locals (by simp)
      · rw [hworkers]
        exact forall_workers_update h.todo (by simp)

end Invariant

section Playback

/-- OPENURL is carried out only for sessions that have been through the login sequence,
in every run whose clients keep to it with workers that refuse no LOGIN. -/
theorem login_gates_playback (env : ServerEnv) (threadnum : Nat) (s : System) (log : List Event)
    (h : (mmsHistory env threadnum).Reachable (InSequence env) (s, log)) : Gated log := by
  have hinv : LoginFirst (s, log) := by
    refine h.invariant LoginFirst ?_ ?_
    · refine ⟨?_, ?_, ?_, ?_, ?_, ?_⟩
      · intro p yyID hmem
        simp at hmem
      · intro fd p hp
        simp [System.init, Server.init] at hp
      · intro w b hb
        simp [System.init] at hb
      · intro w b hb
        simp [System.init] at hb
      · intro p hp
        simp [System.init, Server.init, hasAccount,
          ItemData.init] at hp
      · intro before after p launched hlog
        simp at hlog
    · intro s a t hs hguard hstep
      exact loginFirst_step hs hguard hstep
  exact hinv.gated

def sampleEnv : ServerEnv := { (default : ServerEnv) with ssl := sampleSSL }

/-- A client logs in, sends its account in an envelope, and opens a url. -/
def playInSequence : List Action :=
  [Action.accept 5 6789, .receive 5 (frame (.login ⟨1, [], []⟩) ++
    ((YYJsonComp.formatAES sampleSSL (.aesSetKey []) (List.replicate 16 0) 0
      (.login1 ⟨1, lit "user", lit "pwd"⟩)).elim [] fun c => frame (.compAES c)) ++
    frame (.openUrl ⟨7, 8, lit "mms"⟩)), .start 0, .turn 0] ++ List.replicate 5 (Action.effect 0) ++
    [Action.turn 0] ++ List.replicate 2 (Action.effect 0) ++ [Action.turn 0]

theorem login_gates_playback_sample :
    ∃ s, (mmsHistory sampleEnv 1).run playInSequence (System.init, []) =
        some (s, [.login 0 1 true, .login1 0 true, .openUrl 0 true]) ∧
      Gated [.login 0 1 true, .login1 0 true, .openUrl 0 true] := by
  have hrun : ((mmsHistory sampleEnv 1).run playInSequence (System.init, [])).map Prod.snd =
      some [.login 0 1 true, .login1 0 true, .openUrl 0 true] := by decide +kernel
  obtain ⟨⟨s, log⟩, hs, hlog⟩ := Option.map_eq_some_iff.mp hrun
  simp only at hlog
  subst hlog
  have hguard : (mmsHistory sampleEnv 1).Guarded (InSequence sampleEnv) playInSequence
      (System.init, []) := by decide +kernel
  exact ⟨s, hs, login_gates_playback sampleEnv 1 s _ (.of_guarded .init hguard hs)⟩

def playAtOnce : List Action :=
  [Action.accept 5 6789,
    .receive 5 (frame (.login ⟨1, [], []⟩) ++ frame (.openUrl ⟨7, 8, lit "mms"⟩)), .start 0,
    .turn 0] ++ List.replicate 5 (Action.effect 0) ++ [Action.turn 0]

theorem playback_without_login1 :
    ∃ s, (mmsHistory default 1).run playAtOnce (System.init, []) =
        some (s, [.login 0 1 true, .openUrl 0 true]) ∧
      ¬ Gated [.login 0 1 true, .openUrl 0 true] := by
  have hrun : ((mmsHistory default 1).run playAtOnce (System.init, [])).map Prod.snd =
      some [.login 0 1 true, .openUrl 0 true] := by decide +kernel
  obtain ⟨⟨s, log⟩, hs, hlog⟩ := Option.map_eq_some_iff.mp hrun
  simp only at hlog
  subst hlog
  refine ⟨s, hs, ?_⟩
  intro hgated
  obtain ⟨before, mid, after, yyID, hsigned, -⟩ := hgated [.login 0 1 true] [] 0 true rfl
  have hmem : Event.login1 0 true ∈ [Event.login 0 1 true] := by
    rw [hsigned]
    simp
  simp at hmem

end Playback

end MmsSvr
