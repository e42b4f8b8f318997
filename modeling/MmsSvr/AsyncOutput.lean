import MmsSvr.RedisAsync

/-!
What goes out to redis on a connection: the commands that have been accepted, whole and in order.
-/

namespace MmsSvr.Hiredis

open Lib

section Grown

variable {malloc : Nat → Bool} {ac ac' ac'' : AsyncContext}

/-- What a context has become while the application has been called: what has been accepted is in
the buffer, and nothing is accepted any more once it is being closed. -/
structure Grown (malloc : Nat → Bool) (ac ac' : AsyncContext) : Prop where
  output : ∃ new : List (Callback × Bytes), ac'.accepted = ac.accepted ++ new ∧
    ac'.obuf = ac.obuf ++ (new.map Prod.snd).flatten ∧
    (∀ c ∈ new, ∃ argv, Formats malloc argv c.2) ∧
    ((ac.disconnecting || ac.freeing) = true → new = [])
  disconnecting : ac.disconnecting = true → ac'.disconnecting = true
  freeing : ac.freeing = true → ac'.freeing = true

theorem grown_of_same (haccepted : ac'.accepted = ac.accepted) (hobuf : ac'.obuf = ac.obuf)
    (hdisconnecting : ac.disconnecting = true → ac'.disconnecting = true)
    (hfreeing : ac.freeing = true → ac'.freeing = true) : Grown malloc ac ac' where
  output := ⟨[], by rw [haccepted, List.append_nil], by rw [hobuf]; exact (List.append_nil _).symm,
    nofun, fun _ => rfl⟩
  disconnecting := hdisconnecting
  freeing := hfreeing

theorem Grown.closing (h : Grown malloc ac ac')
    (hclosing : (ac.disconnecting || ac.freeing) = true) :
    (ac'.disconnecting || ac'.freeing) = true := by
  rw [Bool.or_eq_true] at hclosing ⊢
  exact hclosing.imp h.disconnecting h.freeing

theorem Grown.trans (h : Grown malloc ac ac') (h' : Grown malloc ac' ac'') :
    Grown malloc ac ac'' := by
  refine ⟨?_, fun hd => h'.disconnecting (h.disconnecting hd), fun hf => h'.freeing (h.freeing hf)⟩
  obtain ⟨new, haccepted, hobuf, hmade, hclosed⟩ := h.output
  obtain ⟨new', haccepted', hobuf', hmade', hclosed'⟩ := h'.output
  refine ⟨new ++ new', ?_, ?_, ?_, ?_⟩
  · rw [haccepted', haccepted, List.append_assoc]
  · rw [hobuf', hobuf, List.append_assoc, List.map_append, List.flatten_append]
  · intro c hc
    exact (List.mem_append.mp hc).elim (hmade c) (hmade' c)
  · intro hclosing
    rw [hclosed hclosing, hclosed' (h.closing hclosing)]
    rfl

theorem grown_append {cb : Callback} {cmd : Bytes}
    (hopen : ¬ (ac.disconnecting || ac.freeing) = true)
    (haccepted : ac'.accepted = ac.accepted ++ [(cb, cmd)]) (hobuf : ac'.obuf = ac.obuf ++ cmd)
    (hdisconnecting : ac'.disconnecting = ac.disconnecting) (hfreeing : ac'.freeing = ac.freeing)
    (hmade : ∃ argv, Formats malloc argv cmd) : Grown malloc ac ac' where
  output := by
    refine ⟨[(cb, cmd)], haccepted, ?_, ?_, fun hclosing => absurd hclosing hopen⟩
    · rw [hobuf]
      simp
    · intro c hc
      rw [List.mem_singleton.mp hc]
      exact hmade
  disconnecting := fun h => hdisconnecting.trans h
  freeing := fun h => hfreeing.trans h

end Grown

namespace AsyncContext

section Output

variable {ac ac' : AsyncContext} {malloc : Nat → Bool} {host : Host}

theorem register_eq {pvariant : Bool} {sname : Bytes} {cb : Callback}
    (h : ac.register pvariant sname cb = .ok ac') :
    ∃ channels patterns, ac' = { ac with channels := channels, patterns := patterns } := by
  rw [register] at h
  split at h
  · exact nomatch h
  · obtain rfl := Except.ok.inj h
    exact ⟨_, _, rfl⟩

theorem subscribeFrom_eq {pvariant : Bool} {cb : Callback} {p : Bytes}
    (h : subscribeFrom pvariant cb ac p = .ok ac') :
    ∃ channels patterns, ac' = { ac with channels := channels, patterns := patterns } := by
  obtain ⟨n, hn⟩ : ∃ n, p.length ≤ n := ⟨_, Nat.le_refl _⟩
  induction n generalizing ac p with
  | zero =>
      obtain rfl := List.eq_nil_of_length_eq_zero (Nat.le_zero.mp hn)
      rw [subscribeFrom] at h
      obtain rfl := Except.ok.inj h
      exact ⟨ac.channels, ac.patterns, rfl⟩
  | succ n ih =>
      rw [subscribeFrom] at h
      obtain ⟨next, -, hnext⟩ := bind_eq_ok_iff.mp h
      cases next with
      | none =>
          obtain rfl := Except.ok.inj hnext
          exact ⟨ac.channels, ac.patterns, rfl⟩
      | some next =>
          obtain ⟨ac₁, hregister, hrest⟩ := bind_eq_ok_iff.mp hnext
          split at hrest
          · rename_i hlt
            obtain ⟨channels, patterns, rfl⟩ := register_eq hregister
            obtain ⟨channels', patterns', rfl⟩ := ih hrest (by omega)
            exact ⟨channels', patterns', rfl⟩
          · exact nomatch hrest

theorem append_eq {cb : Callback} {cmd : Bytes} {yes : Bool}
    (h : ac.append cb cmd = .ok (ac', yes)) :
    ac' = { ac with
      obuf := ac.obuf ++ cmd
      writing := true
      accepted := ac.accepted ++ [(cb, cmd)] } := by
  rw [append] at h
  split at h
  · exact (Prod.mk.inj (Except.ok.inj h)).1.symm
  · cases h

/-- What a command comes to. -/
inductive Commanded (ac : AsyncContext) (cb : Callback) (cmd : Bytes) : AsyncContext → Prop
  | refused : Commanded ac cb cmd ac
  | subscribes (isOpen : ¬ (ac.disconnecting || ac.freeing) = true) {pvariant : Bool} {p : Bytes}
      (kind : commandKind cmd = .ok (.subscribe pvariant p))
      (channels patterns : Dict Bytes Callback) :
      Commanded ac cb cmd { ac with
        subscribed := true
        channels := channels
        patterns := patterns
        obuf := ac.obuf ++ cmd
        writing := true
        accepted := ac.accepted ++ [(cb, cmd)] }
  /-- Among subscriptions. -/
  | among (isOpen : ¬ (ac.disconnecting || ac.freeing) = true) (subscribed : ac.subscribed = true)
      (invalid : List Callback) :
      Commanded ac cb cmd { ac with
        invalid := invalid
        obuf := ac.obuf ++ cmd
        writing := true
        accepted := ac.accepted ++ [(cb, cmd)] }
  | waits (isOpen : ¬ (ac.disconnecting || ac.freeing) = true) :
      Commanded ac cb cmd { ac with
        replies := ac.replies ++ [cb]
        obuf := ac.obuf ++ cmd
        writing := true
        accepted := ac.accepted ++ [(cb, cmd)] }

theorem command_commanded {cb : Callback} {cmd : Bytes} {yes : Bool}
    (h : ac.command cb cmd = .ok (ac', yes)) : Commanded ac cb cmd ac' := by
  rw [command] at h
  split at h
  · obtain ⟨rfl, -⟩ := Prod.mk.inj (Except.ok.inj h)
    exact .refused
  · rename_i hopen
    obtain ⟨kind, hkind, h⟩ := bind_eq_ok_iff.mp h
    cases kind with
    | subscribe pvariant p =>
        obtain ⟨ac₁, hsubscribe, hend⟩ := bind_eq_ok_iff.mp h
        obtain rfl := append_eq hend
        obtain ⟨channels, patterns, rfl⟩ := subscribeFrom_eq hsubscribe
        exact .subscribes hopen hkind channels patterns
    | unsubscribe =>
        dsimp only at h
        split at h
        · rename_i hsubscribed
          obtain rfl := append_eq h
          exact .among hopen hsubscribed ac.invalid
        · obtain ⟨rfl, -⟩ := Prod.mk.inj (Except.ok.inj h)
          exact .refused
    | other =>
        dsimp only at h
        split at h
        · rename_i hsubscribed
          obtain rfl := append_eq h
          exact .among hopen hsubscribed (ac.invalid ++ [cb])
        · obtain rfl := append_eq h
          exact .waits hopen

theorem command_grown {cb : Callback} {cmd : Bytes} {yes : Bool}
    (h : ac.command cb cmd = .ok (ac', yes)) (hmade : ∃ argv, Formats malloc argv cmd) :
    Grown malloc ac ac' := by
  cases command_commanded h with
  | refused => exact grown_of_same rfl rfl id id
  | subscribes isOpen kind channels patterns => exact grown_append isOpen rfl rfl rfl rfl hmade
  | among isOpen subscribed invalid => exact grown_append isOpen rfl rfl rfl rfl hmade
  | waits isOpen => exact grown_append isOpen rfl rfl rfl rfl hmade

theorem of_formatted {f : Formatted} {cmd : Bytes} (h : formatted f = .ok cmd) : f = .ok cmd := by
  cases f with
  | ok cmd' => rw [Except.ok.inj h]
  | outOfMemory => exact nomatch h
  | outside => exact nomatch h
  | assertion => exact nomatch h

theorem redisAsyncCommandArgv_grown {cb : Callback} {argv : List Bytes} {yes : Bool}
    (h : ac.redisAsyncCommandArgv malloc cb argv = .ok (ac', yes)) : Grown malloc ac ac' := by
  obtain ⟨cmd, hformat, hcommand⟩ := bind_eq_ok_iff.mp h
  exact command_grown hcommand ⟨argv, .argv (of_formatted hformat)⟩

theorem redisvAsyncCommand_grown {cb : Callback} {format : Bytes} {ap : VaList} {yes : Bool}
    (h : ac.redisvAsyncCommand malloc cb format ap = .ok (ac', yes)) : Grown malloc ac ac' := by
  rw [redisvAsyncCommand] at h
  split at h
  · exact nomatch h
  · rename_i f hf
    obtain ⟨cmd, hformat, hcommand⟩ := bind_eq_ok_iff.mp h
    obtain ⟨argv, hargv, -⟩ := Option.map_eq_some_iff.mp hf
    rw [of_formatted hformat] at hf
    exact command_grown hcommand ⟨argv, .format format ap hargv hf⟩

theorem callInside_grown {c : ApiCall} (h : callInside malloc ac c = .ok ac') :
    Grown malloc ac ac' := by
  cases c with
  | commandArgv cb argv =>
      obtain ⟨⟨ac₁, yes⟩, hcommand, hend⟩ := bind_eq_ok_iff.mp h
      obtain rfl := Except.ok.inj hend
      exact redisAsyncCommandArgv_grown hcommand
  | command cb format ap =>
      obtain ⟨⟨ac₁, yes⟩, hcommand, hend⟩ := bind_eq_ok_iff.mp h
      obtain rfl := Except.ok.inj hend
      exact redisvAsyncCommand_grown hcommand
  | disconnect =>
      obtain rfl := Except.ok.inj h
      exact grown_of_same rfl rfl (fun _ => rfl) id
  | free =>
      obtain rfl := Except.ok.inj h
      exact grown_of_same rfl rfl id fun _ => rfl

theorem runCallback_grown {cb : Callback} {reply : Option Reply}
    (h : ac.runCallback host cb reply = .ok ac') : Grown host.malloc ac ac' := by
  rw [runCallback] at h
  split at h
  · obtain rfl := Except.ok.inj h
    exact grown_of_same rfl rfl id id
  · obtain ⟨ac₁, heach, hend⟩ := bind_eq_ok_iff.mp h
    obtain rfl := Except.ok.inj hend
    have hcalls : Grown host.malloc _ ac₁ := each_rel (fun _ => grown_of_same rfl rfl id id) Grown.trans
      (fun _ _ => callInside_grown) heach
    have hbegin : Grown host.malloc ac { ac with inCallback := true, ran := ac.ran ++ [.reply cb reply] } :=
      grown_of_same rfl rfl id id
    exact hbegin.trans (hcalls.trans (grown_of_same rfl rfl id id))

theorem shiftReplies_grown {cb : Callback} (h : ac.shiftReplies = some (cb, ac')) :
    Grown host.malloc ac ac' := by
  rw [shiftReplies] at h
  split at h
  · exact nomatch h
  · obtain ⟨-, rfl⟩ := Prod.mk.inj (Option.some.inj h)
    exact grown_of_same rfl rfl id id

theorem shiftInvalid_grown {cb : Callback} (h : ac.shiftInvalid = some (cb, ac')) :
    Grown host.malloc ac ac' := by
  rw [shiftInvalid] at h
  split at h
  · exact nomatch h
  · obtain ⟨-, rfl⟩ := Prod.mk.inj (Option.some.inj h)
    exact grown_of_same rfl rfl id id

theorem drain_grown {shift : AsyncContext → Option (Callback × AsyncContext)}
    (hshift : ∀ {ac cb ac'}, shift ac = some (cb, ac') → Grown host.malloc ac ac') {fuel : Nat}
    (h : drain host shift fuel ac = .ok ac') : Grown host.malloc ac ac' := by
  induction fuel generalizing ac with
  | zero =>
      rw [drain] at h
      split at h
      · obtain rfl := Except.ok.inj h
        exact grown_of_same rfl rfl id id
      · exact nomatch h
  | succ fuel ih =>
      rw [drain] at h
      split at h
      · obtain rfl := Except.ok.inj h
        exact grown_of_same rfl rfl id id
      · rename_i cb ac₁ hnext
        obtain ⟨ac₂, hrun, hrest⟩ := bind_eq_ok_iff.mp h
        exact (hshift hnext).trans ((runCallback_grown hrun).trans (ih hrest))

theorem runEntries_grown {entries : List (Bytes × Callback)}
    (h : ac.runEntries host entries = .ok ac') : Grown host.malloc ac ac' :=
  each_rel (fun _ => grown_of_same rfl rfl id id) Grown.trans (fun _ _ => runCallback_grown) h

theorem asyncFree_grown (h : ac.asyncFree host = .ok ac') : Grown host.malloc ac ac' := by
  obtain ⟨ac₁, hreplies, h⟩ := bind_eq_ok_iff.mp h
  obtain ⟨ac₂, hinvalid, h⟩ := bind_eq_ok_iff.mp h
  obtain ⟨ac₃, hchannels, h⟩ := bind_eq_ok_iff.mp h
  obtain ⟨ac₄, hpatterns, h⟩ := bind_eq_ok_iff.mp h
  obtain rfl := Except.ok.inj h
  refine (drain_grown shiftReplies_grown hreplies).trans ?_
  refine (drain_grown shiftInvalid_grown hinvalid).trans ?_
  refine (runEntries_grown hchannels).trans ?_
  exact (runEntries_grown hpatterns).trans (grown_of_same rfl rfl id id)

theorem asyncDisconnect_grown (h : ac.asyncDisconnect host = .ok ac') : Grown host.malloc ac ac' := by
  rw [asyncDisconnect] at h
  split at h
  · split at h
    · exact asyncFree_grown h
    · exact nomatch h
  · have hbegin : Grown host.malloc ac { ac with disconnecting := true } :=
      grown_of_same rfl rfl (fun _ => rfl) id
    exact hbegin.trans (asyncFree_grown h)

theorem unsubscribed_grown {pvariant : Bool} {sname : Bytes} {more : List Reply}
    (h : ac.unsubscribed pvariant sname more = .ok ac') : Grown host.malloc ac ac' := by
  rw [unsubscribed.eq_def] at h
  dsimp only at h
  split at h
  · obtain rfl := Except.ok.inj h
    exact grown_of_same rfl rfl id id
  · exact nomatch h
  · exact nomatch h

theorem getSubscribeCallback_grown {reply : Reply} {cb cb' : Option Callback}
    (h : ac.getSubscribeCallback reply cb = .ok (ac', cb')) : Grown host.malloc ac ac' := by
  rw [getSubscribeCallback.eq_def] at h
  split at h
  · split at h
    · obtain ⟨rfl, -⟩ := Prod.mk.inj (Except.ok.inj h)
      exact grown_of_same rfl rfl id id
    · split at h
      · obtain ⟨ac₁, hunsubscribed, hend⟩ := bind_eq_ok_iff.mp h
        obtain ⟨rfl, -⟩ := Prod.mk.inj (Except.ok.inj hend)
        exact unsubscribed_grown hunsubscribed
      · obtain ⟨rfl, -⟩ := Prod.mk.inj (Except.ok.inj h)
        exact grown_of_same rfl rfl id id
  · exact nomatch h
  · split at h
    · obtain ⟨rfl, -⟩ := Prod.mk.inj (Except.ok.inj h)
      exact grown_of_same rfl rfl id id
    · rename_i hshift
      obtain ⟨rfl, -⟩ := Prod.mk.inj (Except.ok.inj h)
      exact shiftInvalid_grown hshift

theorem takeCallback_grown {reply : Reply} {cb cb' : Option Callback}
    (h : ac.takeCallback reply cb = .ok (ac', cb')) : Grown host.malloc ac ac' := by
  rw [takeCallback] at h
  split at h
  · rename_i hshift
    obtain ⟨rfl, -⟩ := Prod.mk.inj (Except.ok.inj h)
    exact shiftReplies_grown hshift
  · split at h
    · exact getSubscribeCallback_grown h
    · exact nomatch h

theorem getReply_grown {reply : Option Reply} {yes : Bool}
    (h : ac.getReply host.machine = .ok (ac', reply, yes)) : Grown host.malloc ac ac' := by
  rw [getReply] at h
  split at h
  · exact nomatch h
  · split at h
    · exact nomatch h
    · obtain ⟨rfl, -⟩ := Prod.mk.inj (Except.ok.inj h)
      exact grown_of_same rfl rfl id id
  · obtain ⟨rfl, -⟩ := Prod.mk.inj (Except.ok.inj h)
    exact grown_of_same rfl rfl id id
  · obtain ⟨rfl, -⟩ := Prod.mk.inj (Except.ok.inj h)
    exact grown_of_same rfl rfl id id

theorem processFrom_grown {fuel : Nat} {cb : Option Callback}
    (h : processFrom host fuel ac cb = .ok ac') : Grown host.malloc ac ac' := by
  induction fuel generalizing ac cb with
  | zero => exact nomatch h
  | succ fuel ih =>
      obtain ⟨⟨ac₁, reply, yes⟩, hget, h⟩ := bind_eq_ok_iff.mp h
      refine (getReply_grown hget).trans ?_
      cases reply with
      | none =>
          cases yes with
          | true =>
              dsimp only at h
              split at h
              · exact asyncDisconnect_grown h
              · obtain rfl := Except.ok.inj h
                exact grown_of_same rfl rfl id id
          | false => exact asyncDisconnect_grown h
      | some reply =>
          obtain ⟨⟨ac₂, cb₂⟩, htake, h⟩ := bind_eq_ok_iff.mp h
          refine (takeCallback_grown htake).trans ?_
          cases cb₂ with
          | none => exact nomatch h
          | some cb₂ =>
              obtain ⟨ac₃, hrun, h⟩ := bind_eq_ok_iff.mp h
              refine (runCallback_grown hrun).trans ?_
              split at h
              · exact asyncFree_grown h
              · exact ih h

theorem handleRead_grown {r : AsyncRead} (h : ac.handleRead host r = .ok ac') :
    Grown host.malloc ac ac' := by
  have hsame : ∀ reader reading err, Grown host.malloc ac
      { ac with reader := reader, reading := reading, err := err } := fun _ _ _ =>
    grown_of_same rfl rfl id id
  cases r with
  | data bytes =>
      rw [handleRead] at h
      split at h
      · exact nomatch h
      · rename_i reader hfeed
        exact (hsame reader true ac.err).trans (processFrom_grown h)
  | again => exact (hsame ac.reader true ac.err).trans (processFrom_grown h)
  | eof => exact (hsame ac.reader ac.reading (some .eof)).trans (asyncDisconnect_grown h)
  | failed => exact (hsame ac.reader ac.reading (some .io)).trans (asyncDisconnect_grown h)

theorem call_grown {c : ApiCall} (h : ac.call host c = .ok ac') : Grown host.malloc ac ac' := by
  cases c with
  | commandArgv cb argv =>
      obtain ⟨⟨ac₁, yes⟩, hcommand, hend⟩ := bind_eq_ok_iff.mp h
      obtain rfl := Except.ok.inj hend
      exact redisAsyncCommandArgv_grown hcommand
  | command cb format ap =>
      obtain ⟨⟨ac₁, yes⟩, hcommand, hend⟩ := bind_eq_ok_iff.mp h
      obtain rfl := Except.ok.inj hend
      exact redisvAsyncCommand_grown hcommand
  | disconnect =>
      have hbegin : Grown host.malloc ac { ac with disconnecting := true } :=
        grown_of_same rfl rfl (fun _ => rfl) id
      refine hbegin.trans ?_
      rw [call, redisAsyncDisconnect] at h
      split at h
      · obtain rfl := Except.ok.inj h
        exact grown_of_same rfl rfl id id
      · exact asyncDisconnect_grown h
  | free =>
      have hbegin : Grown host.malloc ac { ac with freeing := true } :=
        grown_of_same rfl rfl id fun _ => rfl
      refine hbegin.trans ?_
      rw [call, redisAsyncFree] at h
      split at h
      · obtain rfl := Except.ok.inj h
        exact grown_of_same rfl rfl id id
      · exact asyncFree_grown h

theorem handleWrite_output {w : AsyncWrite} (h : ac.handleWrite host w = .ok ac') :
    (∃ new : List (Callback × Bytes), ac'.accepted = ac.accepted ++ new ∧
      AsyncRun.went ac.obuf (.write w) ++ ac'.obuf = ac.obuf ++ (new.map Prod.snd).flatten ∧
      ∀ c ∈ new, ∃ argv, Formats host.malloc argv c.2) := by
  cases w with
  | took n =>
      obtain rfl := Except.ok.inj h
      refine ⟨[], (List.append_nil _).symm, ?_, nofun⟩
      rw [AsyncRun.went, written, List.take_append_drop]
      exact (List.append_nil _).symm
  | again =>
      obtain rfl := Except.ok.inj h
      exact ⟨[], (List.append_nil _).symm, (List.append_nil _).symm, nofun⟩
  | failed =>
      rw [handleWrite] at h
      split at h
      · obtain rfl := Except.ok.inj h
        exact ⟨[], (List.append_nil _).symm, (List.append_nil _).symm, nofun⟩
      · have hbegin : Grown host.malloc ac { ac with err := some .io } := grown_of_same rfl rfl id id
        obtain ⟨new, haccepted, hobuf, hmade, -⟩ := (hbegin.trans (asyncDisconnect_grown h)).output
        exact ⟨new, haccepted, hobuf, hmade⟩

end Output

end AsyncContext

section Stream

variable {host : Host}

theorem outcome_output {ac ac' : AsyncContext} {e : AsyncEvent}
    (h : AsyncRun.outcome host ac e = .ok ac') :
    (∃ new : List (Callback × Bytes), ac'.accepted = ac.accepted ++ new ∧
      AsyncRun.went ac.obuf e ++ ac'.obuf = ac.obuf ++ (new.map Prod.snd).flatten ∧
      ∀ c ∈ new, ∃ argv, Formats host.malloc argv c.2) := by
  cases e with
  | call c =>
      obtain ⟨new, haccepted, hobuf, hmade, -⟩ := (AsyncContext.call_grown h).output
      exact ⟨new, haccepted, hobuf, hmade⟩
  | read r =>
      obtain ⟨new, haccepted, hobuf, hmade, -⟩ := (AsyncContext.handleRead_grown h).output
      exact ⟨new, haccepted, hobuf, hmade⟩
  | write w => exact AsyncContext.handleWrite_output h

theorem went_of_error {ac : AsyncContext} {e : AsyncEvent} {why : AsyncAbort}
    (h : AsyncRun.outcome host ac e = .error why) : AsyncRun.went ac.obuf e = [] := by
  cases e with
  | call c => rfl
  | read r => rfl
  | write w =>
      cases w with
      | took n => exact nomatch h
      | again => rfl
      | failed => rfl

theorem step_cases {s t : AsyncRun} {e : AsyncEvent} (h : (redisAsync host).step s e = some t) :
    (s.aborted = none ∧ s.ac.released = false ∧ AsyncRun.Enabled s.ac e) ∧
      t.sent = s.sent ++ AsyncRun.went s.ac.obuf e ∧ t.received = s.received ++ AsyncRun.came e ∧
      ((∃ ac, AsyncRun.outcome host s.ac e = .ok ac ∧ t.ac = ac ∧ t.aborted = none) ∨
        ∃ why, AsyncRun.outcome host s.ac e = .error why ∧ t.ac = s.ac ∧ t.aborted = some why) := by
  obtain ⟨⟨hlive, hkept, henabled⟩, heq⟩ := Option.ite_none_right_eq_some.mp h
  obtain rfl := Option.some.inj heq
  refine ⟨⟨Option.isNone_iff_eq_none.mp hlive, hkept, henabled⟩, rfl, rfl, ?_⟩
  cases hout : AsyncRun.outcome host s.ac e with
  | ok ac => exact .inl ⟨ac, rfl, rfl, rfl⟩
  | error why => exact .inr ⟨why, rfl, rfl, rfl⟩

/-- What has gone out and what is still to go out are the texts of the accepted commands. -/
structure Output (malloc : Nat → Bool) (s : AsyncRun) : Prop where
  bytes : s.sent ++ s.ac.obuf = (s.ac.accepted.map Prod.snd).flatten
  made : ∀ c ∈ s.ac.accepted, ∃ argv, Formats malloc argv c.2

theorem output_of_reachable {guard : AsyncRun → AsyncEvent → Prop} {s : AsyncRun}
    (h : (redisAsync host).Reachable guard s) : Output host.malloc s := by
  refine h.invariant (Output host.malloc) ⟨rfl, fun c hc => absurd hc List.not_mem_nil⟩ ?_
  intro s e t hs _ hstep
  obtain ⟨-, hsent, -, hend⟩ := step_cases hstep
  rcases hend with ⟨ac, hout, rfl, -⟩ | ⟨why, hout, hac, -⟩
  · obtain ⟨new, haccepted, hobuf, hmade⟩ := outcome_output hout
    constructor
    · rw [hsent, List.append_assoc, hobuf, ← List.append_assoc, hs.bytes, haccepted,
        List.map_append, List.flatten_append]
    · rw [haccepted]
      intro c hc
      exact (List.mem_append.mp hc).elim (hs.made c) (hmade c)
  · rw [went_of_error hout, List.append_nil] at hsent
    constructor
    · rw [hsent, hac]
      exact hs.bytes
    · rw [hac]
      exact hs.made

theorem formats_of_made {malloc : Nat → Bool} {cs : List (Callback × Bytes)}
    (h : ∀ c ∈ cs, ∃ argv, Formats malloc argv c.2) :
    ∃ argvs, List.Forall₂ (Formats malloc) argvs (cs.map Prod.snd) := by
  induction cs with
  | nil => exact ⟨[], .nil⟩
  | cons c cs ih =>
      rw [List.forall_mem_cons] at h
      obtain ⟨argv, hargv⟩ := h.1
      obtain ⟨argvs, hargvs⟩ := ih h.2
      exact ⟨argv :: argvs, .cons hargv hargvs⟩

/-- What redis can read of the bytes that have gone out, at any time and whatever the application has
called, are the commands that have been accepted, whole and in order; and it can read all of them
when nothing is left in the buffer. -/
theorem sent_commands (host : Host) (hmalloc : ∀ n, 2 ^ 63 ≤ n → host.malloc n = false)
    (machine : Machine) {s : AsyncRun} (h : (redisAsync host).Reachable (fun _ _ => True) s) :
    ∃ argvs, List.Forall₂ (Formats host.malloc) argvs (s.ac.accepted.map Prod.snd) ∧
      ((∀ argv ∈ argvs, argv.length < 2 ^ 31 ∧ machine.calloc argv.length = true) →
        ∃ k rest, items (parseReply machine) s.sent = ((argvs.take k).map command, .ok rest) ∧
          k ≤ argvs.length ∧ (s.ac.obuf = [] → k = argvs.length)) := by
  obtain ⟨hbytes, hmade⟩ := output_of_reachable h
  obtain ⟨argvs, hargvs⟩ := formats_of_made hmade
  refine ⟨argvs, hargvs, ?_⟩
  intro hfit
  have hargc := fun argv hargv => (hfit argv hargv).1
  have hfits := commands_fit hmalloc hargc (fun argv hargv => (hfit argv hargv).2) hargvs
  rw [← encodeAll_commands hmalloc hargc hargvs, encodeAll_eq_flatMap] at hbytes
  obtain ⟨k, rest, hitems, hk, hall⟩ := items_of_begin (stable_parseReply machine)
    (uses_parseReply machine) rfl (fun r hr => reads_parse (hfits r hr)) hbytes
  rw [List.length_map] at hk hall
  rw [← List.map_take] at hitems
  exact ⟨k, rest, hitems, hk, hall⟩

/-- An application that makes no calls in its callbacks. -/
def quietHost : Host := ⟨fun n => n < 1000, { winMachine with calloc := fun n => n < 1000 }, fun _ => []⟩

theorem malloc_quietHost : ∀ n, 2 ^ 63 ≤ n → quietHost.malloc n = false := by
  intro n hn
  exact decide_eq_false (by omega)

/-- Two commands that have gone out, the second in two parts. -/
def pingAndGet : List AsyncEvent :=
  [.call (.commandArgv ⟨some 0, 1⟩ [lit "PING"]), .call (.command ⟨none, 2⟩ (lit "GET k") none),
    .write (.took 20), .write (.took 14)]

def pingText : Bytes := lit "*1\r\n$4\r\nPING\r\n"

def getText : Bytes := lit "*2\r\n$3\r\nGET\r\n$1\r\nk\r\n"

theorem sent_commands_ping :
    ∃ s, (redisAsync quietHost).run pingAndGet AsyncRun.init = some s ∧
      ∃ argvs, List.Forall₂ (Formats quietHost.malloc) argvs [pingText, getText] ∧
        ((∀ argv ∈ argvs, argv.length < 2 ^ 31 ∧ quietHost.machine.calloc argv.length = true) →
          argvs = [[lit "PING"], [lit "GET", lit "k"]] ∧
            ∃ rest, items (parseReply quietHost.machine) s.sent =
              ([command [lit "PING"], command [lit "GET", lit "k"]], .ok rest)) := by
  have hview : ((redisAsync quietHost).run pingAndGet AsyncRun.init).map (fun s =>
      (s.ac.accepted.map Prod.snd, s.ac.obuf)) = some ([pingText, getText], []) := by
    decide +kernel
  have hformats : List.Forall₂ (Formats quietHost.malloc) [[lit "PING"], [lit "GET", lit "k"]]
      [pingText, getText] :=
    .cons (.argv (by decide +kernel)) (.cons (.argv (by decide +kernel)) .nil)
  obtain ⟨s, hrun, hstate⟩ := Option.map_eq_some_iff.mp hview
  rw [Prod.mk.injEq] at hstate
  obtain ⟨argvs, hargvs, hread⟩ := sent_commands quietHost malloc_quietHost quietHost.machine
    (Transition.Reachable.init.of_run hrun)
  rw [hstate.1] at hargvs
  refine ⟨s, hrun, argvs, hargvs, ?_⟩
  intro hfit
  obtain ⟨k, rest, hitems, -, hall⟩ := hread hfit
  have hargvs' := commands_unique malloc_quietHost (fun argv hargv => (hfit argv hargv).1)
    (by decide) hargvs hformats rfl
  rw [hall hstate.2, List.take_length, hargvs'] at hitems
  exact ⟨hargvs', rest, hitems⟩

end Stream

end MmsSvr.Hiredis
