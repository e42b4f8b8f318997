import MmsSvr.LoopRefines

/-!
`do_write` and `queue_receive`: whether `write_event` has been added as long as there is output.
-/

namespace MmsSvr

open Lib
open Lib.Transition

namespace YYLibEvent

/-- The `write_event` of a connection that has output has been added, for this connection. -/
def WritesArmed (s : YYLibEvent) : Prop :=
  ∀ fd a st, s.fdMap.getState fd = some a → s.heap a = some st → st.writebuffer ≠ [] →
    s.events st.writeEvent = some ⟨fd, .doWrite, a, true⟩

/-- Where `do_write` finds output, its `int` says so. -/
def SizeFits (s : YYLibEvent) : LoopAction → Prop
  | .callback h _ _ => ∀ e st, s.events h = some e → e.callback = .doWrite →
      s.heap e.arg = some st → st.writebuffer ≠ [] → 0 < st.sz
  | _ => True

instance (s : YYLibEvent) (a : LoopAction) : Decidable (SizeFits s a) :=
  match a with
  | .callback h _ _ => decidable_of_iff
      (∀ e ∈ s.events h, e.callback = .doWrite → ∀ st ∈ s.heap e.arg, st.writebuffer ≠ [] → 0 < st.sz)
      ⟨fun hall e st he hcallback hst hne => hall e he hcallback st hst hne,
        fun hall e he hcallback st hst hne => hall e st he hcallback hst hne⟩
  | .accept .. | .queue .. | .ready .. => isTrue trivial

/-- `WritesArmed`, in terms of what shows of the connections. -/
def ShownArmed (s : YYLibEvent) : Prop :=
  ∀ fd shown, s.shown fd = some shown → shown.writebuffer ≠ [] → shown.writeAdded = true

variable {s s' : YYLibEvent} {fd : Fd} {a : Addr} {l : Links}

theorem writesArmed_iff (hinv : s.TableInv) : WritesArmed s ↔ ShownArmed s := by
  constructor
  · intro h fd shown hshown hne
    obtain ⟨a, hmap, hshown⟩ := Option.bind_eq_some_iff.mp hshown
    obtain ⟨st, hst, hshown⟩ := Option.bind_eq_some_iff.mp hshown
    obtain ⟨e, he, rfl⟩ := Option.map_eq_some_iff.mp hshown
    rw [h fd a st hmap hst hne, Option.some.injEq] at he
    rw [← he]
  · intro h fd a st hmap hst hne
    obtain ⟨l, hown⟩ := hinv.owned fd a hmap
    obtain ⟨st', -, hst', rfl⟩ := hown.deref
    rw [hst, Option.some.injEq] at hst'
    subst hst'
    obtain ⟨e, he, htarget⟩ := Option.map_eq_some_iff.mp (hown.event .doWrite)
    have he : s.events st.writeEvent = some e := he
    have hadded := h fd _ (shown_of_live hmap hst he) hne
    rw [EventObject.target, Prod.mk.injEq, Prod.mk.injEq] at htarget
    obtain ⟨hfd, hcallback, harg⟩ := htarget
    rw [he, ← hfd, ← hcallback, ← harg, ← hadded]

theorem armed_freed (hinv : s.TableInv) (harmed : ShownArmed s) (hown : s.Owned fd a l) :
    ShownArmed (s.freed fd a l) := by
  intro fd' new hshown
  rw [shown_freed hinv hown] at hshown
  split at hshown
  · cases hshown
  · exact harmed fd' new hshown

theorem armed_rewrite (hinv : s.TableInv) (harmed : ShownArmed s)
    (hmap : s.fdMap.getState fd = some a) (hown : s.Owned fd a l) (st' : FdObject)
    (e' : EventObject) (hwrite : st'.writeEvent = l.event .doWrite) (hfdMap : s'.fdMap = s.fdMap)
    (hheap : s'.heap = Function.update s.heap a (some st'))
    (hevents : s'.events = Function.update s.events st'.writeEvent (some e'))
    (hadded : st'.writebuffer ≠ [] → e'.added = true) : ShownArmed s' := by
  intro fd' new hshown
  rw [shown_rewrite hinv hmap hown st' e' hwrite hfdMap hheap hevents] at hshown
  split at hshown
  · rw [Option.some.injEq] at hshown
    subst hshown
    exact hadded
  · exact harmed fd' new hshown

theorem doRead_armed (hinv : s.TableInv) (harmed : ShownArmed s) (hown : s.Owned fd a l)
    {call : ReadCall} (hr : s.doRead fd a call = .ok s') : ShownArmed s' := by
  obtain ⟨st, hderef, hst, rfl⟩ := hown.deref
  have hlibevent : st.libevent = true := hown.libevent
  simp only [doRead, hderef, bind, Except.bind, if_pos hlibevent, readTurns_eq hst] at hr
  split at hr
  · rw [freeFdState_eq hown, Except.ok.injEq] at hr
    rw [← hr]
    exact armed_freed hinv harmed hown
  · rw [Except.ok.injEq] at hr
    rw [← hr]
    cases (recvLoop none call.chunks call.stop).received with
    | none => exact harmed
    | some data => exact harmed

theorem doWrite_armed (hinv : s.TableInv) (harmed : ShownArmed s)
    (hmap : s.fdMap.getState fd = some a) (hown : s.Owned fd a l) {result : SendResult}
    (hfits : ∀ st, s.heap a = some st → st.writebuffer ≠ [] → 0 < st.sz)
    (hr : s.doWrite fd a result = .ok s') : ShownArmed s' := by
  obtain ⟨st, -, hst, rfl⟩ := hown.deref
  obtain ⟨e, he⟩ := hown.writeEvent rfl
  have hheap : s.heap = Function.update s.heap a (some st) := by
    rw [← hst, Function.update_eq_self]
  have hevents : s.events = Function.update s.events st.writeEvent (some e) := by
    rw [← he, Function.update_eq_self]
  obtain ⟨s₁, hs₁, hwrote⟩ := doWrite_wrote hown hst he result
  rw [hs₁, Except.ok.injEq] at hr
  subst hr
  cases hwrote with
  | idle _ hsz =>
      refine armed_rewrite hinv harmed hmap hown st { e with added := false } rfl rfl hheap rfl ?_
      intro hne
      have hpos := hfits st hst hne
      omega
  | again hsz => exact harmed
  | freed _ hsz hresult => exact armed_freed hinv harmed hown
  | all n hpos hall =>
      refine armed_rewrite hinv harmed hmap hown { st with writebuffer := [] }
        { e with added := false } rfl rfl rfl rfl ?_
      intro hne
      exact absurd rfl hne
  | part n hsz hpos hpart =>
      generalize st.sz = sz
      refine armed_rewrite hinv harmed hmap hown
        { st with writebuffer := st.writebuffer.drop sz.toNat } e rfl rfl rfl hevents ?_
      intro hne
      refine harmed fd _ (shown_of_live hmap hst he) ?_
      intro hnil
      apply hne
      change st.writebuffer.drop sz.toNat = []
      rw [show st.writebuffer = [] from hnil, List.drop_nil]

theorem queueReceive_armed (hinv : s.TableInv) (harmed : ShownArmed s) {item : QueueItem}
    (hr : s.queueReceive item = .ok s') : ShownArmed s' := by
  obtain ⟨s₁, hs₁, hqueued⟩ := queueReceive_queued hinv item
  rw [hs₁, Except.ok.injEq] at hr
  subst hr
  cases hqueued with
  | unmapped hmap => exact harmed
  | closed a l hmap hown hbuf => exact armed_freed hinv harmed hown
  | appended a st e hmap hown hst he hbuf =>
      refine armed_rewrite hinv harmed hmap hown
        { st with writebuffer := st.writebuffer ++ item.buf } { e with added := true } rfl rfl
        rfl rfl ?_
      intro hne
      rfl

theorem act_armed (hinv : s.TableInv) (harmed : ShownArmed s) {action : LoopAction}
    (hfits : SizeFits s action) (hact : s.act action = some (.ok s')) : ShownArmed s' := by
  cases act_cases hinv hact with
  | nothing port a readEvent writeEvent => exact harmed
  | accept fd port a readEvent writeEvent hunused =>
      intro fd' new hshown hne
      rw [shown_accepted hinv hunused] at hshown
      split at hshown
      · rw [← Option.some.inj hshown] at hne
        exact absurd rfl hne
      · exact harmed fd' new hshown hne
  | ready h => exact harmed
  | read h call result e l he hcallback hmap hown hr =>
      have hsame := sameTable_called s h
      exact doRead_armed (hinv.of_same hsame) harmed (hown.of_same hsame) hr
  | write h call result e l he hcallback hadded hmap hown hevent hr =>
      have hsame := sameTable_called s h
      exact doWrite_armed (hinv.of_same hsame) harmed hmap (hown.of_same hsame)
        (fun st => hfits e st he hcallback) hr
  | queue item hr => exact queueReceive_armed hinv harmed hr

theorem act_disarms (hinv : s.TableInv) {action : LoopAction} (hfits : ¬ SizeFits s action)
    (hact : s.act action = some (.ok s')) : ¬ WritesArmed s' := by
  cases act_cases hinv hact with
  | nothing port a readEvent writeEvent => exact absurd trivial hfits
  | accept fd port a readEvent writeEvent hunused => exact absurd trivial hfits
  | ready h => exact absurd trivial hfits
  | queue item hr => exact absurd trivial hfits
  | read h call result e l he hcallback hmap hown hr =>
      refine absurd ?_ hfits
      intro e' st he' hcallback'
      rw [he, Option.some.injEq] at he'
      rw [← he', hcallback] at hcallback'
      cases hcallback'
  | write h call result e l he hcallback hadded hmap hown hevent hr =>
      obtain ⟨e', st, he', -, hst, hne, hsz⟩ : ∃ e st, s.events h = some e ∧
          e.callback = .doWrite ∧ s.heap e.arg = some st ∧ st.writebuffer ≠ [] ∧ st.sz ≤ 0 := by
        simpa only [SizeFits, not_forall, exists_prop, not_lt] using hfits
      rw [he, Option.some.injEq] at he'
      subst he'
      obtain ⟨st', -, hst', rfl⟩ := hown.deref
      rw [hst, Option.some.injEq] at hst'
      subst hst'
      obtain ⟨ew, hew⟩ := hown.writeEvent rfl
      obtain ⟨t, ht, hwrote⟩ :=
        doWrite_wrote (hown.of_same (sameTable_called s h)) hst hew result
      rw [ht, Except.ok.injEq] at hr
      subst hr
      cases hwrote with
      | idle _ _ =>
          intro harmed
          have hevent := harmed e.fd e.arg st hmap hst hne
          simp at hevent
      | again hpos => omega
      | freed _ hpos hresult => omega
      | all n hpos hall => omega
      | part n hpos hn hpart => omega

/-- Pending output has its `write_event` added in every state of exactly the runs in which the
size of the output, as an `int`, is positive whenever `do_write` runs. -/
theorem writesArmed_iff_sizeFits (as : List LoopAction) (s : YYLibEvent)
    (hrun : loopThread.run as loopThread.init = some s) :
    loopThread.Always WritesArmed as loopThread.init ↔
      loopThread.Guarded SizeFits as loopThread.init := by
  have hinit : loopThread.init.TableInv ∧ ShownArmed loopThread.init := by
    refine ⟨tableInv_init, ?_⟩
    intro fd new hshown
    cases hshown
  have hholds : ∀ s, s.TableInv ∧ ShownArmed s → WritesArmed s :=
    fun s hs => (writesArmed_iff hs.1).mpr hs.2
  refine always_iff_guarded_of hholds ?_ ?_ hinit hrun
  · rintro s action t ⟨hinv, harmed⟩ hfits hstep
    obtain ⟨hact, hinv'⟩ := act_of_step hinv hstep
    exact ⟨hinv', act_armed hinv harmed hfits hact⟩
  · rintro s action t ⟨hinv, -⟩ hfits hstep
    exact act_disarms hinv hfits (act_of_step hinv hstep).1

/-- The second of two buffers comes after `send` would have had to wait. -/
def waitingRun : List LoopAction :=
  [.accept (some 5) 7000 100 200 201, .queue ⟨5, [1, 2]⟩, .ready 201,
    .callback 201 ⟨[], .again⟩ .again, .queue ⟨5, [3]⟩]

theorem writesArmed_sample :
    ∃ s, loopThread.run waitingRun loopThread.init = some s ∧
      (s.heap 100).map FdObject.writebuffer = some [1, 2, 3] ∧
      loopThread.Always WritesArmed waitingRun loopThread.init := by
  have hview : (loopThread.run waitingRun loopThread.init).map (fun s =>
      (s.heap 100).map FdObject.writebuffer) = some (some [1, 2, 3]) := by decide
  have hguarded : loopThread.Guarded SizeFits waitingRun loopThread.init := by decide
  obtain ⟨s, hrun, hbuffer⟩ := Option.map_eq_some_iff.mp hview
  exact ⟨s, hrun, hbuffer, (writesArmed_iff_sizeFits waitingRun s hrun).mpr hguarded⟩

theorem run_queue {item : QueueItem} (hbuf : item.buf ≠ []) (k : Nat) (hinv : s.TableInv)
    (harmed : ShownArmed s) (hmap : s.fdMap.getState item.fd = some a) {st : FdObject}
    (hst : s.heap a = some st) :
    ∃ t st', loopThread.run (List.replicate k (.queue item)) s = some t ∧ t.TableInv ∧
      ShownArmed t ∧ t.fdMap.getState item.fd = some a ∧ t.heap a = some st' ∧
      st'.writeEvent = st.writeEvent ∧ t.active = s.active ∧
      st'.writebuffer.length = st.writebuffer.length + k * item.buf.length := by
  induction k generalizing s st with
  | zero => exact ⟨s, st, rfl, hinv, harmed, hmap, hst, rfl, rfl, by omega⟩
  | succ k ih =>
      obtain ⟨t, hr, hqueued⟩ := queueReceive_queued hinv item
      have hact : s.act (.queue item) = some (.ok t) := congrArg some hr
      have hstep := step_of_act hact
      have hinv' := (act_of_step hinv hstep).2
      have harmed' := queueReceive_armed hinv harmed hr
      cases hqueued with
      | unmapped hnone =>
          rw [hmap] at hnone
          cases hnone
      | closed a' l hmap' hown hnil => exact absurd hnil hbuf
      | appended a' st' e hmap' hown hst' he _ =>
          obtain rfl : a = a' := Option.some.inj (hmap.symm.trans hmap')
          obtain rfl : st = st' := Option.some.inj (hst.symm.trans hst')
          obtain ⟨u, st', hrun, hinv'', harmed'', hmap'', hst'', hevent, hactive, hlength⟩ :=
            ih hinv' harmed' hmap (Function.update_self ..)
          refine ⟨u, st', run_cons.mpr ⟨_, hstep, hrun⟩, hinv'', harmed'', hmap'', hst'', hevent,
            hactive, ?_⟩
          rw [hlength, List.length_append, Nat.succ_mul]
          omega

theorem sz_nonpos {st : FdObject} (hge : 0x80000000 ≤ st.writebuffer.length)
    (hle : st.writebuffer.length ≤ 0x100000000) : st.sz ≤ 0 := by
  have hsz := Int.bmod_eq_emod (st.writebuffer.length : Int) (2 ^ 32)
  unfold FdObject.sz intWord
  split at hsz
  · omega
  · omega

def reply (n : Nat) : QueueItem := ⟨5, List.replicate n 0⟩

theorem length_reply (n : Nat) : (reply n).buf.length = n := List.length_replicate

/-- The output for a peer that takes nothing becomes 2 GB long: 64 KB at a time. -/
def stalledRun : List LoopAction :=
  .accept (some 5) 7000 100 200 201 :: (List.replicate 0x8000 (.queue (reply 0x10000)) ++
    [.ready 201, .callback 201 ⟨[], .again⟩ .again])

theorem not_writesArmed :
    ¬ ∀ (as : List LoopAction) s, loopThread.run as loopThread.init = some s → WritesArmed s := by
  intro hall
  have haccept : init.act (.accept (some 5) 7000 100 200 201) =
      some (.ok (init.accepted 5 7000 100 200 201)) := by
    rw [act, if_pos ⟨rfl, rfl, rfl, rfl, by decide⟩, doAccept_eq (by decide)]
  obtain ⟨s, hs, hinv⟩ := act_keeps tableInv_init haccept
  rw [Except.ok.injEq] at hs
  subst hs
  have harmed : ShownArmed (init.accepted 5 7000 100 200 201) := by
    have hnone : ShownArmed init := fun fd new hshown => by cases hshown
    have hfits : SizeFits init (.accept (some 5) 7000 100 200 201) := trivial
    exact act_armed tableInv_init hnone hfits haccept
  have hbuf : (reply 0x10000).buf ≠ [] := by
    rw [← List.length_pos_iff, length_reply]
    decide
  have hempty : (init.accepted 5 7000 100 200 201).heap 100 =
      some ⟨true, [], 200, 201, 7000, 0⟩ := rfl
  obtain ⟨t, st, hrun, hinv, harmed, hmap, hst, hevent, hactive, hlength⟩ :=
    run_queue hbuf 0x8000 hinv harmed rfl hempty
  rw [length_reply] at hlength
  have hlength : st.writebuffer.length = 0x80000000 := hlength
  have hne : st.writebuffer ≠ [] := by
    rw [← List.length_pos_iff]
    omega
  have he := (writesArmed_iff hinv).mpr harmed 5 100 st hmap hst hne
  rw [hevent] at he
  have hready : t.act (.ready 201) = some (.ok { t with active := t.active ++ [201] }) := by
    rw [act, he]
    exact if_pos ⟨rfl, by rw [hactive]; exact List.not_mem_nil⟩
  obtain ⟨u, hu, hinv⟩ := act_keeps hinv hready
  rw [Except.ok.injEq] at hu
  subst hu
  obtain ⟨r, hact⟩ : ∃ r, act { t with active := t.active ++ [201] }
      (.callback 201 ⟨[], .again⟩ .again) = some r := ⟨_, if_pos List.mem_concat_self⟩
  obtain ⟨v, rfl, -⟩ := act_keeps hinv hact
  have hfits : ¬ SizeFits { t with active := t.active ++ [201] }
      (.callback 201 ⟨[], .again⟩ .again) := by
    intro hfits
    have hpos := hfits _ st he rfl hst hne
    have hnonpos := sz_nonpos hlength.ge (by omega)
    omega
  apply act_disarms hinv hfits hact
  apply hall stalledRun
  refine run_cons.mpr ⟨_, step_of_act haccept, ?_⟩
  rw [run_append, hrun]
  exact run_cons.mpr ⟨_, step_of_act hready, run_cons.mpr ⟨v, step_of_act hact, rfl⟩⟩

end YYLibEvent

end MmsSvr
