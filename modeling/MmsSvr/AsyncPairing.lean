import MmsSvr.AsyncOutput
import MmsSvr.CommandKind

/-!
Which callback gets which reply on a connection that is not used for subscriptions.
-/

namespace MmsSvr.Hiredis

open Lib

section Outcomes

/-- The calls of the callbacks to which these replies have come, one for each; NULL callbacks are
not called. -/
def outcomes (cbs : List Callback) (came : List (Option Reply)) : List Ran :=
  ((cbs.zip came).filter fun x => x.1.fn.isSome).map fun x => .reply x.1 x.2

def Ran.isReply : Ran → Bool
  | .reply _ _ => true
  | _ => false

variable {cbs rest : List Callback} {came : List (Option Reply)} {cb : Callback}

theorem zip_append_of_le {α β : Type} {l new : List α} {l' : List β} (h : l'.length ≤ l.length) :
    (l ++ new).zip l' = l.zip l' := by
  induction l' generalizing l with
  | nil => rw [List.zip_nil_right, List.zip_nil_right]
  | cons b l' ih =>
      cases l with
      | nil => exact absurd h (Nat.not_succ_le_zero _)
      | cons a l => exact congrArg ((a, b) :: ·) (ih (Nat.le_of_succ_le_succ h))

theorem zip_concat {α β : Type} {l rest : List α} {l' : List β} {a : α} (b : β)
    (h : l.drop l'.length = a :: rest) : l.zip (l' ++ [b]) = l.zip l' ++ [(a, b)] := by
  induction l' generalizing l with
  | nil =>
      obtain rfl : l = a :: rest := h
      rw [List.nil_append, List.zip_cons_cons, List.zip_nil_right, List.zip_nil_right]
      rfl
  | cons b' l' ih =>
      cases l with
      | nil => exact nomatch h
      | cons a' l => exact congrArg ((a', b') :: ·) (ih h)

theorem outcomes_append (new : List Callback) (h : came.length ≤ cbs.length) :
    outcomes (cbs ++ new) came = outcomes cbs came := by
  rw [outcomes, zip_append_of_le h, outcomes]

theorem outcomes_concat (reply : Option Reply) (h : cbs.drop came.length = cb :: rest) :
    outcomes cbs (came ++ [reply]) =
      outcomes cbs came ++ if cb.fn.isSome then [.reply cb reply] else [] := by
  rw [outcomes, zip_concat reply h, List.filter_append, List.map_append, outcomes]
  congr 1
  cases hfn : cb.fn with
  | none => simp [hfn]
  | some n => simp [hfn]

theorem filter_isReply_append (ran : List Ran) {new : List Ran} (h : new.filter Ran.isReply = []) :
    (ran ++ new).filter Ran.isReply = ran.filter Ran.isReply := by
  rw [List.filter_append, h, List.append_nil]

end Outcomes

section Plain

def ApiCall.Plain (malloc : Nat → Bool) : ApiCall → Prop
  | .commandArgv _ argv => ∀ cmd, redisFormatCommandArgv malloc argv = .ok cmd → NoSubscribe cmd
  | .command _ format ap =>
      ∀ cmd, redisvFormatCommand malloc format ap = some (.ok cmd) → NoSubscribe cmd
  | .disconnect => True
  | .free => True

theorem plain_commandArgv {malloc : Nat → Bool} (hmalloc : ∀ n, 2 ^ 63 ≤ n → malloc n = false)
    (cb : Callback) {argv : List Bytes} (hargc : argv.length < 2 ^ 31)
    (hname : ∀ name ∈ argv.head?, subscribes name = false) :
    (ApiCall.commandArgv cb argv).Plain malloc :=
  fun _ h => noSubscribe_of_formats hmalloc (.argv h) hargc hname

theorem plain_command {malloc : Nat → Bool} (hmalloc : ∀ n, 2 ^ 63 ≤ n → malloc n = false)
    (cb : Callback) {format : Bytes} {ap : VaList} {argv : List Bytes}
    (hargv : MmsSvr.redisvFormatCommand format ap = some argv) (hargc : argv.length < 2 ^ 31)
    (hname : ∀ name ∈ argv.head?, subscribes name = false) :
    (ApiCall.command cb format ap).Plain malloc :=
  fun _ h => noSubscribe_of_formats hmalloc (.format format ap hargv h) hargc hname

/-- The callbacks do not subscribe. -/
def Host.Plain (host : Host) : Prop := ∀ log, ∀ c ∈ host.client log, c.Plain host.malloc

/-- The callbacks of the accepted commands have been called with what has come, in order, and the
others wait. -/
structure Paired (ac : AsyncContext) (came : List (Option Reply)) : Prop where
  ran : ac.ran.filter Ran.isReply = outcomes (ac.accepted.map Prod.fst) came
  waiting : ac.replies = (ac.accepted.map Prod.fst).drop came.length
  answered : came.length ≤ ac.accepted.length
  subscribed : ac.subscribed = false
  invalid : ac.invalid = []
  channels : ac.channels = dictCreate
  patterns : ac.patterns = dictCreate

variable {ac ac' ac'' : AsyncContext} {came : List (Option Reply)} {cb : Callback}

theorem Paired.of_same (h : Paired ac came)
    (hran : ac'.ran.filter Ran.isReply = ac.ran.filter Ran.isReply)
    (haccepted : ac'.accepted = ac.accepted) (hreplies : ac'.replies = ac.replies)
    (hsubscribed : ac'.subscribed = ac.subscribed) (hinvalid : ac'.invalid = ac.invalid)
    (hchannels : ac'.channels = ac.channels) (hpatterns : ac'.patterns = ac.patterns) :
    Paired ac' came where
  ran := by rw [hran, haccepted, h.ran]
  waiting := by rw [hreplies, haccepted, h.waiting]
  answered := by rw [haccepted]; exact h.answered
  subscribed := hsubscribed.trans h.subscribed
  invalid := hinvalid.trans h.invalid
  channels := hchannels.trans h.channels
  patterns := hpatterns.trans h.patterns

theorem Paired.withReader {came : List (Option Reply)} (h : Paired ac came) (r : RedisReader)
    (err : Option ContextError) : Paired { ac with reader := r, err := err } came :=
  h.of_same rfl rfl rfl rfl rfl rfl rfl

theorem Paired.accept (h : Paired ac came) (cb : Callback) (cmd : Bytes) :
    Paired { ac with
      replies := ac.replies ++ [cb]
      obuf := ac.obuf ++ cmd
      writing := true
      accepted := ac.accepted ++ [(cb, cmd)] } came where
  ran := by
    change ac.ran.filter Ran.isReply = outcomes ((ac.accepted ++ [(cb, cmd)]).map Prod.fst) came
    rw [List.map_append, outcomes_append _ (by rw [List.length_map]; exact h.answered), h.ran]
  waiting := by
    change ac.replies ++ [cb] = ((ac.accepted ++ [(cb, cmd)]).map Prod.fst).drop came.length
    rw [List.map_append, List.drop_append_of_le_length (by rw [List.length_map]; exact h.answered),
      h.waiting]
    rfl
  answered := by
    change came.length ≤ (ac.accepted ++ [(cb, cmd)]).length
    rw [List.length_append]
    exact Nat.le_trans h.answered (Nat.le_add_right _ _)
  subscribed := h.subscribed
  invalid := h.invalid
  channels := h.channels
  patterns := h.patterns

theorem Paired.shift (h : Paired ac came) {cb : Callback} {rest : List Callback}
    (hwaiting : ac.replies = cb :: rest) (reply : Option Reply) {ran : List Ran}
    (hran : ran.filter Ran.isReply =
      ac.ran.filter Ran.isReply ++ if cb.fn.isSome then [.reply cb reply] else [])
    (inCallback : Bool) :
    Paired { ac with replies := rest, inCallback := inCallback, ran := ran }
      (came ++ [reply]) := by
  have hdrop : (ac.accepted.map Prod.fst).drop came.length = cb :: rest := by
    rw [← h.waiting, hwaiting]
  have hlt : came.length < ac.accepted.length := by
    have hlength := congrArg List.length hdrop
    rw [List.length_drop, List.length_map, List.length_cons] at hlength
    omega
  refine ⟨?_, ?_, ?_, h.subscribed, h.invalid, h.channels, h.patterns⟩
  · rw [hran, h.ran, outcomes_concat reply hdrop]
  · rw [List.length_append, List.length_singleton, ← List.drop_drop, hdrop]
    rfl
  · rw [List.length_append, List.length_singleton]
    exact hlt

/-- What calls of the application leave alone. -/
structure Steady (ac ac' : AsyncContext) : Prop where
  paired : ∀ came, Paired ac came → Paired ac' came
  reader : ac'.reader = ac.reader
  err : ac'.err = ac.err
  inCallback : ac'.inCallback = ac.inCallback
  released : ac'.released = ac.released
  closing : (ac.disconnecting || ac.freeing) = true →
    (ac'.disconnecting || ac'.freeing) = true ∧ ac'.replies = ac.replies

theorem Steady.refl (ac : AsyncContext) : Steady ac ac :=
  ⟨fun _ h => h, rfl, rfl, rfl, rfl, fun h => ⟨h, rfl⟩⟩

theorem Steady.trans (h : Steady ac ac') (h' : Steady ac' ac'') : Steady ac ac'' where
  paired came hpaired := h'.paired came (h.paired came hpaired)
  reader := h'.reader.trans h.reader
  err := h'.err.trans h.err
  inCallback := h'.inCallback.trans h.inCallback
  released := h'.released.trans h.released
  closing hclosing := by
    obtain ⟨hclosing₁, hreplies₁⟩ := h.closing hclosing
    obtain ⟨hclosing₂, hreplies₂⟩ := h'.closing hclosing₁
    exact ⟨hclosing₂, hreplies₂.trans hreplies₁⟩

structure Called (cb : Callback) (ac ac' : AsyncContext) (rest : List Callback) : Prop where
  reader : ac'.reader = ac.reader
  err : ac'.err = ac.err
  inCallback : ac.inCallback = false → ac'.inCallback = false
  released : ac'.released = ac.released
  freeing : cb.fn.isSome = false → ac'.freeing = ac.freeing
  closing : (ac.disconnecting || ac.freeing) = true →
    (ac'.disconnecting || ac'.freeing) = true ∧ ac'.replies = rest

end Plain

namespace AsyncContext

section Calls

variable {ac ac' : AsyncContext} {malloc : Nat → Bool} {host : Host} {came : List (Option Reply)}

theorem command_steady {cb : Callback} {cmd : Bytes} {yes : Bool} (hplain : NoSubscribe cmd)
    (h : ac.command cb cmd = .ok (ac', yes)) : Steady ac ac' ∧ ac'.freeing = ac.freeing := by
  cases command_commanded h with
  | refused => exact ⟨.refl ac, rfl⟩
  | subscribes isOpen kind channels patterns => exact absurd kind (hplain _ _)
  | among isOpen subscribed invalid =>
      refine ⟨⟨?_, rfl, rfl, rfl, rfl, fun hclosing => absurd hclosing isOpen⟩, rfl⟩
      intro came hpaired
      rw [hpaired.subscribed] at subscribed
      exact absurd subscribed (by decide)
  | waits isOpen =>
      exact ⟨⟨fun _ hpaired => hpaired.accept cb cmd, rfl, rfl, rfl, rfl,
        fun hclosing => absurd hclosing isOpen⟩, rfl⟩

theorem redisAsyncCommandArgv_steady {cb : Callback} {argv : List Bytes} {yes : Bool}
    (hplain : (ApiCall.commandArgv cb argv).Plain malloc)
    (h : ac.redisAsyncCommandArgv malloc cb argv = .ok (ac', yes)) :
    Steady ac ac' ∧ ac'.freeing = ac.freeing := by
  obtain ⟨cmd, hformat, hcommand⟩ := bind_eq_ok_iff.mp h
  exact command_steady (hplain cmd (of_formatted hformat)) hcommand

theorem redisvAsyncCommand_steady {cb : Callback} {format : Bytes} {ap : VaList} {yes : Bool}
    (hplain : (ApiCall.command cb format ap).Plain malloc)
    (h : ac.redisvAsyncCommand malloc cb format ap = .ok (ac', yes)) :
    Steady ac ac' ∧ ac'.freeing = ac.freeing := by
  rw [redisvAsyncCommand] at h
  split at h
  · cases h
  · rename_i f hf
    obtain ⟨cmd, hformat, hcommand⟩ := bind_eq_ok_iff.mp h
    rw [of_formatted hformat] at hf
    exact command_steady (hplain cmd hf) hcommand

theorem callInside_steady {c : ApiCall} (hplain : c.Plain malloc)
    (h : callInside malloc ac c = .ok ac') : Steady ac ac' := by
  cases c with
  | commandArgv cb argv =>
      obtain ⟨⟨ac₁, yes⟩, hcommand, hend⟩ := bind_eq_ok_iff.mp h
      obtain rfl := Except.ok.inj hend
      exact (redisAsyncCommandArgv_steady hplain hcommand).1
  | command cb format ap =>
      obtain ⟨⟨ac₁, yes⟩, hcommand, hend⟩ := bind_eq_ok_iff.mp h
      obtain rfl := Except.ok.inj hend
      exact (redisvAsyncCommand_steady hplain hcommand).1
  | disconnect =>
      obtain rfl := Except.ok.inj h
      exact ⟨fun _ hp => hp.of_same rfl rfl rfl rfl rfl rfl rfl, rfl, rfl, rfl, rfl,
        fun _ => ⟨rfl, rfl⟩⟩
  | free =>
      obtain rfl := Except.ok.inj h
      exact ⟨fun _ hp => hp.of_same rfl rfl rfl rfl rfl rfl rfl, rfl, rfl, rfl, rfl,
        fun _ => ⟨Bool.or_true _, rfl⟩⟩

theorem runCallback_paired (hhost : host.Plain) (h : Paired ac came) {cb : Callback}
    {rest : List Callback} (hwaiting : ac.replies = cb :: rest) {reply : Option Reply}
    (hrun : ({ ac with replies := rest } : AsyncContext).runCallback host cb reply = .ok ac') :
    Paired ac' (came ++ [reply]) ∧ Called cb ac ac' rest := by
  rw [runCallback] at hrun
  split at hrun
  · rename_i hfn
    obtain rfl := Except.ok.inj hrun
    refine ⟨h.shift hwaiting reply ?_ ac.inCallback, rfl, rfl, id, rfl, fun _ => rfl,
      fun hclosing => ⟨hclosing, rfl⟩⟩
    rw [hfn]
    exact (List.append_nil _).symm
  · rename_i n hfn
    obtain ⟨ac₁, heach, hend⟩ := bind_eq_ok_iff.mp hrun
    obtain rfl := Except.ok.inj hend
    have hshift : Paired { ac with
        replies := rest, inCallback := true, ran := ac.ran ++ [.reply cb reply] }
          (came ++ [reply]) := by
      apply h.shift hwaiting
      rw [List.filter_append, hfn]
      rfl
    have hsteady : Steady _ ac₁ := each_rel Steady.refl Steady.trans
      (fun c hc => callInside_steady (hhost _ c hc)) heach
    refine ⟨(hsteady.paired _ hshift).of_same rfl rfl rfl rfl rfl rfl rfl, hsteady.reader,
      hsteady.err, fun _ => rfl, hsteady.released, fun hnone => ?_, hsteady.closing⟩
    rw [hfn] at hnone
    cases hnone

theorem drain_paired (hhost : host.Plain) (h : Paired ac came)
    (hclosing : (ac.disconnecting || ac.freeing) = true) {fuel : Nat}
    (hrun : drain host shiftReplies fuel ac = .ok ac') (hfuel : fuel = ac.replies.length) :
    Paired ac' (came ++ List.replicate fuel none) ∧ ac'.replies = [] := by
  induction fuel generalizing ac came with
  | zero =>
      have hnil := List.eq_nil_of_length_eq_zero hfuel.symm
      rw [drain] at hrun
      split at hrun
      · obtain rfl := Except.ok.inj hrun
        rw [List.replicate_zero, List.append_nil]
        exact ⟨h, hnil⟩
      · cases hrun
  | succ fuel ih =>
      rw [drain] at hrun
      cases hreplies : ac.replies with
      | nil =>
          rw [hreplies] at hfuel
          cases hfuel
      | cons cb rest =>
          have hshift : ac.shiftReplies = some (cb, { ac with replies := rest }) := by
            rw [shiftReplies, hreplies]
          rw [hshift] at hrun
          obtain ⟨ac₁, hcall, hrest⟩ := bind_eq_ok_iff.mp hrun
          obtain ⟨hpaired, hcalled⟩ := runCallback_paired hhost h hreplies hcall
          obtain ⟨hclosing₁, hreplies₁⟩ := hcalled.closing hclosing
          have hlen : fuel = ac₁.replies.length := by
            rw [hreplies, List.length_cons] at hfuel
            rw [hreplies₁]
            omega
          obtain ⟨hall, hnil⟩ := ih hpaired hclosing₁ hrest hlen
          rw [List.append_assoc] at hall
          exact ⟨hall, hnil⟩

theorem entries_create : entries dictCreate = [] := rfl

theorem asyncFree_paired (hhost : host.Plain) (h : Paired ac came)
    (hclosing : (ac.disconnecting || ac.freeing) = true)
    (hrun : ac.asyncFree host = .ok ac') :
    Paired ac' (came ++ List.replicate ac.replies.length none) ∧ ac'.replies = [] ∧
      ac'.released = true := by
  obtain ⟨ac₁, hreplies, hrun⟩ := bind_eq_ok_iff.mp hrun
  obtain ⟨ac₂, hinvalid, hrun⟩ := bind_eq_ok_iff.mp hrun
  obtain ⟨ac₃, hchannels, hrun⟩ := bind_eq_ok_iff.mp hrun
  obtain ⟨ac₄, hpatterns, hrun⟩ := bind_eq_ok_iff.mp hrun
  obtain rfl := Except.ok.inj hrun
  obtain ⟨hpaired, hnil⟩ := drain_paired hhost h hclosing hreplies rfl
  have hnone : ac₁.shiftInvalid = none := by
    rw [shiftInvalid, hpaired.invalid]
  rw [hpaired.invalid, List.length_nil, drain, hnone] at hinvalid
  obtain rfl := Except.ok.inj hinvalid
  rw [hpaired.channels, entries_create] at hchannels
  obtain rfl := Except.ok.inj hchannels
  rw [hpaired.patterns, entries_create] at hpatterns
  obtain rfl := Except.ok.inj hpatterns
  refine ⟨hpaired.of_same ?_ rfl rfl rfl rfl hpaired.channels.symm hpaired.patterns.symm, hnil, rfl⟩
  apply filter_isReply_append
  split
  · rfl
  · rfl

theorem asyncDisconnect_paired (hhost : host.Plain) (h : Paired ac came)
    (hclosing : (ac.disconnecting || ac.freeing) = true ∨ ac.err.isSome = true)
    (hrun : ac.asyncDisconnect host = .ok ac') :
    Paired ac' (came ++ List.replicate ac.replies.length none) ∧ ac'.replies = [] ∧
      ac'.released = true := by
  rw [asyncDisconnect] at hrun
  split at hrun
  · rename_i herr
    rw [herr] at hclosing
    split at hrun
    · exact asyncFree_paired hhost h (hclosing.resolve_right (by decide)) hrun
    · cases hrun
  · have hflag : Paired { ac with disconnecting := true } came :=
      h.of_same rfl rfl rfl rfl rfl rfl rfl
    have hfreed := asyncFree_paired hhost hflag rfl hrun
    exact hfreed

end Calls

section Replies

variable {ac ac' : AsyncContext} {host : Host} {rs : List Reply} {pending : Bytes}

/-- What the processing of replies comes to; `rs` have been handed over before it. -/
inductive Delivered (host : Host) (rs : List Reply) (pending : Bytes) (ac' : AsyncContext) : Prop
  | unfit (h : (items (parseReply host.machine) pending).2 = .error .unfit)
  | waits (rs' : List Reply) (pending' : Bytes)
      (stream : items (parseReply host.machine) pending = (rs', .ok pending'))
      (paired : Paired ac' ((rs ++ rs').map some)) (holds : Holds host.machine ac'.reader pending')
      (released : ac'.released = false) (inCallback : ac'.inCallback = false)
      (freeing : ac'.freeing = false)
  | freed (k j : Nat) (hk : k ≤ (items (parseReply host.machine) pending).1.length)
      (paired : Paired ac' ((rs ++ (items (parseReply host.machine) pending).1.take k).map some ++
        List.replicate j none))
      (empty : ac'.replies = []) (released : ac'.released = true)

theorem Delivered.behind {new : List Reply} {rest : Bytes}
    (hitems : items (parseReply host.machine) pending =
      (new ++ (items (parseReply host.machine) rest).1, (items (parseReply host.machine) rest).2))
    (h : Delivered host (rs ++ new) rest ac') : Delivered host rs pending ac' := by
  cases h with
  | unfit h =>
      apply Delivered.unfit
      rw [hitems, h]
  | waits rs' pending' stream paired holds released inCallback freeing =>
      rw [List.append_assoc] at paired
      rw [stream] at hitems
      exact .waits (new ++ rs') pending' hitems paired holds released inCallback freeing
  | freed k j hk paired empty released =>
      apply Delivered.freed (new.length + k) j
      · rw [hitems, List.length_append]
        exact Nat.add_le_add_left hk _
      · rw [hitems, List.take_length_add_append]
        rw [List.append_assoc] at paired
        exact paired
      · exact empty
      · exact released

theorem Delivered.closed {j : Nat}
    (h : Paired ac' (rs.map some ++ List.replicate j none) ∧ ac'.replies = [] ∧
      ac'.released = true) : Delivered host rs pending ac' := by
  obtain ⟨paired, empty, released⟩ := h
  refine .freed 0 j (Nat.zero_le _) ?_ empty released
  rw [List.take_zero, List.append_nil]
  exact paired

/-- What `redisGetReply` comes to. -/
inductive Gotten (host : Host) (ac : AsyncContext) (pending : Bytes) :
    AsyncContext × Option Reply × Bool → Prop
  | unfit {x} (h : (items (parseReply host.machine) pending).2 = .error .unfit) :
      Gotten host ac pending x
  | refused (r : RedisReader) (e : ContextError) :
      Gotten host ac pending ({ ac with reader := r, err := some e }, none, false)
  | waits (r : RedisReader) (h : items (parseReply host.machine) pending = ([], .ok pending))
      (holds : Holds host.machine r pending) :
      Gotten host ac pending ({ ac with reader := r }, none, true)
  | replies (r : RedisReader) (reply : Reply) (rest : Bytes)
      (h : items (parseReply host.machine) pending =
        (reply :: (items (parseReply host.machine) rest).1, (items (parseReply host.machine) rest).2))
      (holds : Holds host.machine r rest) :
      Gotten host ac pending ({ ac with reader := r }, some reply, true)

theorem getReply_gotten (holds : Holds host.machine ac.reader pending)
    {x : AsyncContext × Option Reply × Bool} (h : ac.getReply host.machine = .ok x) :
    Gotten host ac pending x := by
  have hanswered := GetReply_answered holds
  rw [getReply] at h
  generalize ac.reader.GetReply host.machine = y at hanswered h
  cases hanswered with
  | unfit hparse =>
      apply Gotten.unfit
      rw [items_of_bad hparse]
  | outOfMemory hparse => cases h
  | @refused r text error hparse =>
      obtain rfl := Except.ok.inj h
      exact .refused r _
  | @waits r short hparse holds' =>
      obtain rfl := Except.ok.inj h
      exact .waits r (items_of_more hparse) holds'
  | @replies r p reply rest short hparse tree holds' =>
      dsimp only at h
      rw [tree] at h
      obtain rfl := Except.ok.inj h
      exact .replies r reply rest (items_of_ok (uses_parseReply host.machine) hparse) holds'

theorem takeCallback_paired {came : List (Option Reply)} (h : Paired ac came) {reply : Reply}
    {cb cb' : Option Callback} (htake : ac.takeCallback reply cb = .ok (ac', cb')) :
    ∃ next rest, ac.replies = next :: rest ∧ ac' = { ac with replies := rest } ∧
      cb' = some next := by
  rw [takeCallback, shiftReplies] at htake
  cases hreplies : ac.replies with
  | nil =>
      rw [hreplies, h.subscribed] at htake
      cases htake
  | cons next rest =>
      rw [hreplies] at htake
      obtain ⟨rfl, rfl⟩ := Prod.mk.inj (Except.ok.inj htake)
      exact ⟨next, rest, rfl, rfl, rfl⟩

theorem processFrom_delivered (hhost : host.Plain) (h : Paired ac (rs.map some))
    (holds : Holds host.machine ac.reader pending) (hreleased : ac.released = false)
    (hcallback : ac.inCallback = false) (hfreeing : ac.freeing = false) {fuel : Nat}
    {cb : Option Callback}
    (hrun : processFrom host fuel ac cb = .ok ac') : Delivered host rs pending ac' := by
  induction fuel generalizing ac rs pending cb with
  | zero => exact nomatch hrun
  | succ fuel ih =>
      obtain ⟨x, hget, hrun⟩ := bind_eq_ok_iff.mp hrun
      have hgotten := getReply_gotten holds hget
      clear hget
      cases hgotten with
      | unfit h => exact .unfit h
      | refused r e =>
          exact .closed (asyncDisconnect_paired hhost (h.withReader r (some e)) (.inr rfl) hrun)
      | waits r hitems holds' =>
          dsimp only at hrun
          split at hrun
          · rename_i hend
            rw [Bool.and_eq_true] at hend
            exact .closed (asyncDisconnect_paired hhost (h.withReader r ac.err)
              (.inl (by rw [hend.1]; rfl)) hrun)
          · obtain rfl := Except.ok.inj hrun
            refine .waits [] pending hitems ?_ holds' hreleased hcallback hfreeing
            rw [List.append_nil]
            exact h.withReader r ac.err
      | replies r reply rest hitems holds' =>
          have hnext : items (parseReply host.machine) pending = ([reply] ++
              (items (parseReply host.machine) rest).1, (items (parseReply host.machine) rest).2) :=
            hitems
          apply Delivered.behind hnext
          have hreader := h.withReader r ac.err
          obtain ⟨⟨ac₁, cb₁⟩, htake, hrun⟩ := bind_eq_ok_iff.mp hrun
          obtain ⟨next, others, hreplies, rfl, rfl⟩ := takeCallback_paired hreader htake
          obtain ⟨ac₂, hcall, hrun⟩ := bind_eq_ok_iff.mp hrun
          obtain ⟨hpaired, hcalled⟩ := runCallback_paired hhost hreader hreplies hcall
          have hrs : rs.map some ++ [some reply] = (rs ++ [reply]).map some := by
            rw [List.map_append]
            rfl
          rw [hrs] at hpaired
          split at hrun
          · rename_i hend
            rw [Bool.and_eq_true] at hend
            exact .closed (asyncFree_paired hhost hpaired (by rw [hend.2, Bool.or_true]) hrun)
          · rename_i hgoes
            have hholds : Holds host.machine ac₂.reader rest := by
              rw [hcalled.reader]
              exact holds'
            have hkept : ac₂.freeing = false := by
              rw [Bool.and_eq_true, not_and, Bool.not_eq_true] at hgoes
              cases hfn : next.fn.isSome with
              | true => exact hgoes hfn
              | false => exact (hcalled.freeing hfn).trans hfreeing
            exact ih hpaired hholds (hcalled.released.trans hreleased)
              (hcalled.inCallback hcallback) hkept hrun

end Replies

section Events

variable {ac ac' : AsyncContext} {host : Host} {rs : List Reply} {pending : Bytes}

/-- A connection in use: `rs` have been handed over, and `pending` has come of the next reply. -/
structure InUse (host : Host) (rs : List Reply) (pending : Bytes) (ac : AsyncContext) : Prop where
  rest : items (parseReply host.machine) pending = ([], .ok pending)
  paired : Paired ac (rs.map some)
  holds : Holds host.machine ac.reader pending
  released : ac.released = false
  inCallback : ac.inCallback = false
  freeing : ac.freeing = false

theorem InUse.delivered (h : InUse host rs pending ac) : Delivered host rs pending ac := by
  refine .waits [] pending h.rest ?_ h.holds h.released h.inCallback h.freeing
  rw [List.append_nil]
  exact h.paired

theorem InUse.of_steady (h : InUse host rs pending ac)
    (hsteady : Steady ac ac' ∧ ac'.freeing = ac.freeing) : InUse host rs pending ac' where
  rest := h.rest
  paired := hsteady.1.paired _ h.paired
  holds := by rw [hsteady.1.reader]; exact h.holds
  released := hsteady.1.released.trans h.released
  inCallback := hsteady.1.inCallback.trans h.inCallback
  freeing := hsteady.2.trans h.freeing

theorem InUse.disconnecting (h : InUse host rs pending ac) :
    InUse host rs pending { ac with disconnecting := true } :=
  ⟨h.rest, h.paired.of_same rfl rfl rfl rfl rfl rfl rfl, h.holds, h.released, h.inCallback,
    h.freeing⟩

theorem InUse.written (h : InUse host rs pending ac) (obuf : Bytes) :
    InUse host rs pending ({ ac with obuf := obuf } : AsyncContext).written := by
  refine ⟨h.rest, h.paired.of_same ?_ rfl rfl rfl rfl rfl rfl, h.holds, h.released, h.inCallback,
    h.freeing⟩
  apply filter_isReply_append
  split
  · rfl
  · rfl

theorem call_delivered (hhost : host.Plain) (h : InUse host rs pending ac) {c : ApiCall}
    (hplain : c.Plain host.malloc) (hrun : ac.call host c = .ok ac') :
    Delivered host rs pending ac' := by
  cases c with
  | commandArgv cb argv =>
      obtain ⟨⟨ac₁, yes⟩, hcommand, hend⟩ := bind_eq_ok_iff.mp hrun
      obtain rfl := Except.ok.inj hend
      exact (h.of_steady (redisAsyncCommandArgv_steady hplain hcommand)).delivered
  | command cb format ap =>
      obtain ⟨⟨ac₁, yes⟩, hcommand, hend⟩ := bind_eq_ok_iff.mp hrun
      obtain rfl := Except.ok.inj hend
      exact (h.of_steady (redisvAsyncCommand_steady hplain hcommand)).delivered
  | disconnect =>
      rw [call, redisAsyncDisconnect] at hrun
      split at hrun
      · obtain rfl := Except.ok.inj hrun
        exact h.disconnecting.delivered
      · exact .closed (asyncDisconnect_paired hhost h.disconnecting.paired (.inl rfl) hrun)
  | free =>
      have hflag : Paired { ac with freeing := true } (rs.map some) :=
        h.paired.of_same rfl rfl rfl rfl rfl rfl rfl
      rw [call, redisAsyncFree] at hrun
      split at hrun
      · rename_i hinside
        exact absurd (h.inCallback.symm.trans hinside) (by decide)
      · exact .closed (asyncFree_paired hhost hflag (Bool.or_true _) hrun)

theorem handleRead_delivered (hhost : host.Plain) (h : InUse host rs pending ac) {r : AsyncRead}
    (hrun : ac.handleRead host r = .ok ac') :
    Delivered host rs (pending ++ AsyncRun.came (.read r)) ac' := by
  have hfailed : ∀ err, Paired { ac with err := err } (rs.map some) := fun _ =>
    h.paired.of_same rfl rfl rfl rfl rfl rfl rfl
  have hread : ∀ reader, Paired { ac with reader := reader, reading := true } (rs.map some) :=
    fun _ => h.paired.of_same rfl rfl rfl rfl rfl rfl rfl
  cases r with
  | data bytes =>
      rw [handleRead] at hrun
      split at hrun
      · cases hrun
      · rename_i reader hfeed
        exact processFrom_delivered hhost (hread reader) (h.holds.feed hfeed) h.released
          h.inCallback h.freeing hrun
  | again =>
      change Delivered host rs (pending ++ []) ac'
      rw [List.append_nil]
      exact processFrom_delivered hhost (hread ac.reader) h.holds h.released h.inCallback
        h.freeing hrun
  | eof => exact .closed (asyncDisconnect_paired hhost (hfailed (some .eof)) (.inr rfl) hrun)
  | failed => exact .closed (asyncDisconnect_paired hhost (hfailed (some .io)) (.inr rfl) hrun)

theorem handleWrite_delivered (hhost : host.Plain) (h : InUse host rs pending ac) {w : AsyncWrite}
    (hrun : ac.handleWrite host w = .ok ac') : Delivered host rs pending ac' := by
  cases w with
  | took n =>
      obtain rfl := Except.ok.inj hrun
      exact (h.written _).delivered
  | again =>
      obtain rfl := Except.ok.inj hrun
      exact (h.written ac.obuf).delivered
  | failed =>
      rw [handleWrite] at hrun
      split at hrun
      · obtain rfl := Except.ok.inj hrun
        exact (h.written ac.obuf).delivered
      · have hfailed : Paired { ac with err := some .io } (rs.map some) :=
          h.paired.of_same rfl rfl rfl rfl rfl rfl rfl
        exact .closed (asyncDisconnect_paired hhost hfailed (.inr rfl) hrun)

end Events

end AsyncContext

section Run

open AsyncContext

variable {host : Host}

def AsyncEvent.Plain (malloc : Nat → Bool) : AsyncEvent → Prop
  | .call c => c.Plain malloc
  | .read _ => True
  | .write _ => True

theorem outcome_delivered {ac ac' : AsyncContext} {rs : List Reply} {pending : Bytes}
    (hhost : host.Plain) (h : InUse host rs pending ac) {e : AsyncEvent}
    (hplain : e.Plain host.malloc) (hrun : AsyncRun.outcome host ac e = .ok ac') :
    Delivered host rs (pending ++ AsyncRun.came e) ac' := by
  cases e with
  | call c =>
      change Delivered host rs (pending ++ []) ac'
      rw [List.append_nil]
      exact call_delivered hhost h hplain hrun
  | read r => exact handleRead_delivered hhost h hrun
  | write w =>
      change Delivered host rs (pending ++ []) ac'
      rw [List.append_nil]
      exact handleWrite_delivered hhost h hrun

theorem delivered_step {ac ac' : AsyncContext} {received : Bytes} (hhost : host.Plain)
    (h : Delivered host [] received ac) (hreleased : ac.released = false) {e : AsyncEvent}
    (hplain : e.Plain host.malloc) (hrun : AsyncRun.outcome host ac e = .ok ac') :
    Delivered host [] (received ++ AsyncRun.came e) ac' := by
  have hmore := items_append (stable_parseReply host.machine) (uses_parseReply host.machine)
    received (AsyncRun.came e)
  cases h with
  | unfit h =>
      apply Delivered.unfit
      rw [hmore, h]
  | waits rs pending stream paired holds released inCallback freeing =>
      rw [stream] at hmore
      have hrest := items_rest (stable_parseReply host.machine) (uses_parseReply host.machine) stream
      exact .behind hmore
        (outcome_delivered hhost ⟨hrest, paired, holds, released, inCallback, freeing⟩ hplain hrun)
  | freed k j hk paired empty released =>
      rw [released] at hreleased
      cases hreleased

theorem delivered_of_reachable (hhost : host.Plain) {s : AsyncRun}
    (h : (redisAsync host).Reachable (fun _ e => e.Plain host.malloc) s)
    (hlive : s.aborted = none) : Delivered host [] s.received s.ac := by
  have hinit : Delivered host [] [] AsyncContext.connect := by
    have hpaired : Paired AsyncContext.connect [] :=
      ⟨rfl, rfl, Nat.le_refl _, rfl, rfl, rfl, rfl⟩
    exact .waits [] [] (items_of_more rfl) hpaired (mirrors_init.holds rfl) rfl rfl rfl
  have hinv := h.invariant (fun s => s.aborted = none → Delivered host [] s.received s.ac)
    (fun _ => hinit)
  refine hinv ?_ hlive
  intro s e t hs hplain hstep hnone
  obtain ⟨⟨hlive, hreleased, -⟩, -, hreceived, hend⟩ := step_cases hstep
  rcases hend with ⟨ac, hout, rfl, -⟩ | ⟨why, -, -, habort⟩
  · rw [hreceived]
    exact delivered_step hhost (hs hlive) hreleased hplain hout
  · rw [hnone] at habort
    cases habort

/-- On a connection without subscriptions, whatever the application calls, in callbacks or not, and
however the bytes come: the callbacks of the accepted commands are called in the order of the
commands, each of them once, and each with its own reply as soon as that has come whole. When the
connection is freed, those that still wait are called with NULL. -/
theorem replies_paired (host : Host) (hhost : host.Plain) {s : AsyncRun}
    (h : (redisAsync host).Reachable (fun _ e => e.Plain host.malloc) s) (hlive : s.aborted = none)
    (hfit : (items (parseReply host.machine) s.received).2 ≠ .error .unfit) :
    ∃ k j, k ≤ (items (parseReply host.machine) s.received).1.length ∧
      k + j ≤ s.ac.accepted.length ∧
      s.ac.ran.filter Ran.isReply = outcomes (s.ac.accepted.map Prod.fst)
        (((items (parseReply host.machine) s.received).1.take k).map some ++
          List.replicate j none) ∧
      (s.ac.released = false → k = (items (parseReply host.machine) s.received).1.length ∧ j = 0) ∧
      (s.ac.released = true → k + j = s.ac.accepted.length) := by
  cases delivered_of_reachable hhost h hlive with
  | unfit h => exact absurd h hfit
  | waits rs pending stream paired holds released inCallback freeing =>
      have hanswered := paired.answered
      rw [List.nil_append, List.length_map] at hanswered
      rw [stream, released]
      refine ⟨rs.length, 0, Nat.le_refl _, hanswered, ?_, fun _ => ⟨rfl, rfl⟩, nofun⟩
      rw [List.take_length, List.replicate_zero, List.append_nil]
      exact paired.ran
  | freed k j hk paired empty released =>
      have hcame : (((items (parseReply host.machine) s.received).1.take k).map some ++
          List.replicate j none).length = k + j := by
        rw [List.length_append, List.length_map, List.length_take, List.length_replicate,
          Nat.min_eq_left hk]
      have hanswered := paired.answered
      have hwaiting := paired.waiting
      rw [List.nil_append, hcame] at hanswered hwaiting
      rw [empty, eq_comm, List.drop_eq_nil_iff, List.length_map] at hwaiting
      rw [released]
      exact ⟨k, j, hk, hanswered, paired.ran, nofun, fun _ => Nat.le_antisymm hanswered hwaiting⟩

theorem plain_quietHost : quietHost.Plain := fun _ _ hc => absurd hc List.not_mem_nil

/-- Two commands, of which the second has no callback, and their replies. -/
theorem replies_paired_ping : ∃ s, (redisAsync quietHost).run
    [.call (.commandArgv ⟨some 0, 1⟩ [lit "PING"]), .call (.command ⟨none, 2⟩ (lit "GET k") none),
      .write (.took 34), .read (.data (lit "+PONG\r\n$-1\r\n"))] AsyncRun.init = some s ∧
    s.ac.ran.filter Ran.isReply = [.reply ⟨some 0, 1⟩ (some (.status (lit "PONG")))] := by
  obtain ⟨s, hs, hstate⟩ := (Option.any_eq_true _ _).mp (by decide +kernel :
    ((redisAsync quietHost).run [.call (.commandArgv ⟨some 0, 1⟩ [lit "PING"]),
      .call (.command ⟨none, 2⟩ (lit "GET k") none), .write (.took 34),
      .read (.data (lit "+PONG\r\n$-1\r\n"))] AsyncRun.init).any (fun s =>
        s.aborted = none ∧ s.ac.released = false ∧ s.received = lit "+PONG\r\n$-1\r\n" ∧
          s.ac.accepted.map Prod.fst = [⟨some 0, 1⟩, ⟨none, 2⟩]) = true)
  obtain ⟨hlive, hreleased, hreceived, haccepted⟩ := of_decide_eq_true hstate
  refine ⟨s, hs, ?_⟩
  have hping : (ApiCall.commandArgv ⟨some 0, 1⟩ [lit "PING"]).Plain quietHost.malloc :=
    plain_commandArgv malloc_quietHost _ (by decide) (by decide +kernel)
  have hgetargv : MmsSvr.redisvFormatCommand (lit "GET k") none = some [lit "GET", lit "k"] := by
    decide +kernel
  have hget : (ApiCall.command ⟨none, 2⟩ (lit "GET k") none).Plain quietHost.malloc :=
    plain_command malloc_quietHost _ hgetargv (by decide) (by decide +kernel)
  have hreach : (redisAsync quietHost).Reachable (fun _ e => e.Plain quietHost.malloc) s := by
    refine .of_guarded .init ?_ hs
    exact ⟨hping, fun _ _ => ⟨hget, fun _ _ => ⟨trivial, fun _ _ => ⟨trivial, fun _ _ => trivial⟩⟩⟩⟩
  have hfits : ∀ r ∈ [Reply.status (lit "PONG"), .nil], r.Fits quietHost.machine 8 := by
    intro r hr
    rcases List.mem_pair.mp hr with rfl | rfl
    · exact oneLine_of_no_cr (by decide +kernel)
    · trivial
  have hencode : lit "+PONG\r\n$-1\r\n" = encodeAll [.status (lit "PONG"), .nil] := by
    decide +kernel
  have hitems : items (parseReply quietHost.machine) s.received =
      ([.status (lit "PONG"), .nil], .ok []) := by
    rw [hreceived, hencode]
    exact items_of_fits hfits
  obtain ⟨k, j, -, -, hran, hopen, -⟩ := replies_paired quietHost plain_quietHost hreach hlive
    (by rw [hitems]; exact nofun)
  obtain ⟨rfl, rfl⟩ := hopen hreleased
  rw [hitems, haccepted] at hran
  exact hran

end Run

end MmsSvr.Hiredis
