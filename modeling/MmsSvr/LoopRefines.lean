import MmsSvr.ConnTable

/-!
The callbacks with their pointers do what the event loop of `System` does.
-/

namespace MmsSvr

open Lib

/-- What both models keep of a connection. -/
structure Shown where
  listenPort : UInt32
  writebuffer : Bytes
  writeAdded : Bool
  conn : Nat

def FdState.shown (st : FdState) : Shown := ⟨st.listenPort, st.writebuffer, st.writeAdded, st.conn⟩

namespace YYLibEvent

/-- The connection of a descriptor, found through the pointers. -/
def shown (s : YYLibEvent) (fd : Fd) : Option Shown :=
  (s.fdMap.getState fd).bind fun a =>
    (s.heap a).bind fun st =>
      (s.events st.writeEvent).map fun e => ⟨st.listenPort, st.writebuffer, e.added, st.conn⟩

structure Matches (s : YYLibEvent) (t : System) : Prop where
  shown : ∀ fd, s.shown fd = (t.fdStates.getState fd).map FdState.shown
  accepts : t.accepts = s.accepts

/-- The steps of `System` that an action of the loop thread stands for. -/
inductive LoopStep (env : ServerEnv) (threadnum : Nat) (t : System) :
    LoopAction → System → Prop where
  | nothing (port : UInt32) (a : Addr) (readEvent writeEvent : EventAddr) :
      LoopStep env threadnum t (.accept none port a readEvent writeEvent) t
  | accept (fd : Fd) (port : UInt32) (a : Addr) (readEvent writeEvent : EventAddr) {t' : System}
      (hstep : System.step env threadnum t (.accept fd port) = some t') :
      LoopStep env threadnum t (.accept (some fd) port a readEvent writeEvent) t'
  | ready (h : EventAddr) : LoopStep env threadnum t (.ready h) t
  | idle (h : EventAddr) (call : ReadCall) (result : SendResult)
      (hidle : MmsSvr.doRead call = ⟨none, false⟩) :
      LoopStep env threadnum t (.callback h call result) t
  | receive (h : EventAddr) (call : ReadCall) (result : SendResult) (fd : Fd) (data : Bytes)
      {t' : System} (hdata : MmsSvr.doRead call = ⟨some data, false⟩)
      (hstep : System.step env threadnum t (.receive fd data) = some t') :
      LoopStep env threadnum t (.callback h call result) t'
  | shutdown (h : EventAddr) (call : ReadCall) (result : SendResult) (fd : Fd) {t' : System}
      (hfreed : (MmsSvr.doRead call).freed = true)
      (hstep : System.step env threadnum t (.shutdown fd) = some t') :
      LoopStep env threadnum t (.callback h call result) t'
  | write (h : EventAddr) (call : ReadCall) (result : SendResult) (fd : Fd) {t' : System}
      (hstep : System.step env threadnum t (.write fd result) = some t') :
      LoopStep env threadnum t (.callback h call result) t'
  | queue (item : QueueItem) :
      LoopStep env threadnum t (.queue item) (t.queueReceive env threadnum item)

/-- The ports are those that `init` binds, the descriptor is not that of the standard input,
no buffer has outgrown an `int`, and `send` takes no more than it is given. -/
def Possible (env : ServerEnv) (s : YYLibEvent) : LoopAction → Prop
  | .accept (some fd) port _ _ _ => fd ≠ 0 ∧ (port = env.port ∨ port = env.mangport)
  | .callback h _ result => ∀ e st, s.events h = some e → s.heap e.arg = some st →
      st.writebuffer.length < 0x80000000 ∧ ∀ n, result = .sent n → n ≤ st.writebuffer.length
  | _ => True

variable {env : ServerEnv} {threadnum : Nat} {s s' : YYLibEvent} {t : System} {fd fd' : Fd}
  {a : Addr} {h : EventAddr} {l : Links} {st : FdObject} {e : EventObject}

section Frame

theorem shown_of_live (hmap : s.fdMap.getState fd = some a) (hst : s.heap a = some st)
    (he : s.events st.writeEvent = some e) :
    s.shown fd = some ⟨st.listenPort, st.writebuffer, e.added, st.conn⟩ := by
  simp only [shown, hmap, Option.bind_some, hst, he, Option.map_some]

theorem shown_of_unmapped (hmap : s.fdMap.getState fd = none) : s.shown fd = none := by
  simp only [shown, hmap, Option.bind_none]

theorem shown_congr (hinv : s.TableInv) (hmap : s'.fdMap.getState fd = s.fdMap.getState fd)
    (hsame : ∀ a l st e, s.fdMap.getState fd = some a → s.Owned fd a l → s.heap a = some st →
      st.writeEvent = l.event .doWrite → s.events st.writeEvent = some e →
      s'.heap a = some st ∧ s'.events st.writeEvent = some e) :
    s'.shown fd = s.shown fd := by
  cases ha : s.fdMap.getState fd with
  | none => rw [shown_of_unmapped ha, shown_of_unmapped (hmap.trans ha)]
  | some a =>
      obtain ⟨l, hown⟩ := hinv.owned fd a ha
      obtain ⟨st, -, hst, rfl⟩ := hown.deref
      obtain ⟨e, he⟩ := hown.writeEvent rfl
      obtain ⟨hst', he'⟩ := hsame a st.links st e ha hown hst rfl he
      rw [shown_of_live ha hst he, shown_of_live (hmap.trans ha) hst' he']

theorem shown_frame (hinv : s.TableInv) (hown : s.Owned fd a l)
    (hfdMap : ∀ fd', fd' ≠ fd → s'.fdMap.getState fd' = s.fdMap.getState fd')
    (hheap : ∀ a', a' ≠ a → s'.heap a' = s.heap a')
    (hevents : ∀ h, (∀ cb, h ≠ l.event cb) → s'.events h = s.events h) (hne : fd' ≠ fd) :
    s'.shown fd' = s.shown fd' := by
  refine shown_congr hinv (hfdMap fd' hne) ?_
  intro a' l' st e _ hown' hst hwrite he
  have ha : a' ≠ a := by
    rintro rfl
    exact hne (hown'.addr_inj hown)
  refine ⟨(hheap a' ha).trans hst, (hevents st.writeEvent ?_).trans he⟩
  intro cb
  rw [hwrite]
  exact hown.event_ne hown' hne cb .doWrite

theorem shown_freed (hinv : s.TableInv) (hown : s.Owned fd a l) (fd' : Fd) :
    (s.freed fd a l).shown fd' = if fd' = fd then none else s.shown fd' := by
  by_cases hfd : fd' = fd
  · subst hfd
    rw [if_pos rfl]
    exact shown_of_unmapped (by simp [freed])
  · rw [if_neg hfd]
    refine shown_frame hinv hown ?_ ?_ ?_ hfd
    · intro fd'' hne
      simp [freed, hne]
    · intro a' ha
      simp [freed, ha]
    · intro h hne
      simp [freed, show h ≠ l.readEvent from hne .doRead, show h ≠ l.writeEvent from hne .doWrite]

theorem shown_rewrite (hinv : s.TableInv) (hmap : s.fdMap.getState fd = some a)
    (hown : s.Owned fd a l) (st' : FdObject) (e' : EventObject)
    (hwrite : st'.writeEvent = l.event .doWrite) (hfdMap : s'.fdMap = s.fdMap)
    (hheap : s'.heap = Function.update s.heap a (some st'))
    (hevents : s'.events = Function.update s.events st'.writeEvent (some e')) (fd' : Fd) :
    s'.shown fd' =
      if fd' = fd then some ⟨st'.listenPort, st'.writebuffer, e'.added, st'.conn⟩
      else s.shown fd' := by
  by_cases hfd : fd' = fd
  · subst hfd
    rw [if_pos rfl]
    exact shown_of_live (by rw [hfdMap, hmap]) (by simp [hheap]) (by simp [hevents])
  · rw [if_neg hfd]
    refine shown_frame hinv hown (fun fd' _ => by rw [hfdMap]) ?_ ?_ hfd
    · intro a' ha
      rw [hheap, Function.update_of_ne ha]
    · intro h hh
      have hne : h ≠ st'.writeEvent := by
        rw [hwrite]
        exact hh .doWrite
      rw [hevents, Function.update_of_ne hne]

theorem shown_accepted {port : UInt32} {readEvent writeEvent : EventAddr} (hinv : s.TableInv)
    (hunused : s.Unused fd a readEvent writeEvent) (fd' : Fd) :
    (s.accepted fd port a readEvent writeEvent).shown fd' =
      if fd' = fd then some ⟨port, [], false, s.accepts⟩ else s.shown fd' := by
  by_cases hne : fd' = fd
  · subst hne
    have hwrite : (s.accepted fd' port a readEvent writeEvent).events writeEvent =
        some ⟨fd', .doWrite, a, false⟩ := by
      simp [accepted, allocated, allocFdState, setState, eventNew, hunused.apart.symm]
    have hlive : (s.accepted fd' port a readEvent writeEvent).heap a =
        some ⟨true, [], readEvent, writeEvent, port, s.accepts⟩ := by
      simp [accepted, allocated, allocFdState, setState, eventNew, acceptSocket]
    have hmapped : (s.accepted fd' port a readEvent writeEvent).fdMap.getState fd' = some a := by
      simp [accepted, fdMap_allocated]
    rw [if_pos rfl]
    exact shown_of_live hmapped hlive hwrite
  · rw [if_neg hne]
    refine shown_congr hinv ?_ ?_
    · simp [accepted, fdMap_allocated, hne]
    · intro a' l' st e _ _ hst _ he
      have ha : a' ≠ a := by
        rintro rfl
        simp [hunused.live] at hst
      have hread : st.writeEvent ≠ readEvent := by
        intro heq
        simp [heq, hunused.read] at he
      have hwrite : st.writeEvent ≠ writeEvent := by
        intro heq
        simp [heq, hunused.write] at he
      constructor
      · simp [accepted, allocated, allocFdState, setState, eventNew, acceptSocket, ha, hst]
      · simp [accepted, allocated, allocFdState, setState, eventNew, acceptSocket, hread, hwrite,
          he]

theorem Matches.put (hmatch : Matches s t) {fst : FdState}
    (hshown : s'.shown fd = some fst.shown)
    (hframe : ∀ fd', fd' ≠ fd → s'.shown fd' = s.shown fd') (haccepts : s'.accepts = s.accepts) :
    Matches s' (t.putState fd fst) := by
  refine ⟨?_, hmatch.accepts.trans haccepts.symm⟩
  intro fd'
  by_cases hfd : fd' = fd
  · subst hfd
    simp [System.putState, hshown]
  · simp only [System.putState, StateMap.getState_addState_of_ne _ _ hfd, hframe fd' hfd]
    exact hmatch.shown fd'

theorem Matches.free (hmatch : Matches s t) (hinv : s.TableInv) (hown : s.Owned fd a l)
    (fst : FdState) : Matches (s.freed fd a l) (t.freeFdState env threadnum fd fst) := by
  constructor
  · intro fd'
    rw [System.freeFdState_fdStates, shown_freed hinv hown]
    by_cases hfd : fd' = fd
    · subst hfd
      simp
    · rw [if_neg hfd, StateMap.getState_delState_of_ne _ hfd]
      exact hmatch.shown fd'
  · have haccepts : (t.freeFdState env threadnum fd fst).accepts = t.accepts := by
      unfold System.freeFdState
      split <;> rfl
    exact haccepts.trans hmatch.accepts

theorem Matches.fdState (hmatch : Matches s t) (hmap : s.fdMap.getState fd = some a)
    (hst : s.heap a = some st) (he : s.events st.writeEvent = some e) :
    ∃ fst, t.fdStates.getState fd = some fst ∧
      fst.shown = ⟨st.listenPort, st.writebuffer, e.added, st.conn⟩ := by
  have hshown := hmatch.shown fd
  rw [shown_of_live hmap hst he] at hshown
  obtain ⟨fst, hfst, heq⟩ := Option.map_eq_some_iff.mp hshown.symm
  exact ⟨fst, hfst, heq⟩

theorem Matches.unmapped (hmatch : Matches s t) (hmap : s.fdMap.getState fd = none) :
    t.fdStates.getState fd = none := by
  have hshown := hmatch.shown fd
  rw [shown_of_unmapped hmap] at hshown
  exact Option.map_eq_none_iff.mp hshown.symm

end Frame

section Callbacks

theorem sz_eq_length (h : st.writebuffer.length < 0x80000000) : st.sz = st.writebuffer.length :=
  intWord_eq (by omega)

theorem readTurns_eq (hst : s.heap a = some st) (readbuffer : Option Bytes) (chunks : List Chunk)
    (stop : RecvStop) :
    s.readTurns fd a readbuffer chunks stop =
      if (recvLoop readbuffer chunks stop).freed then s.freeFdState fd a
      else .ok ((recvLoop readbuffer chunks stop).received.elim s fun data =>
        { s with received := s.received ++ [(fd, data, st.listenPort)] }) := by
  have hderef : s.deref a = .ok st := by rw [deref, hst]
  induction chunks generalizing readbuffer with
  | cons chunk chunks ih =>
      simp only [readTurns, hderef, bind, Except.bind, recvLoop]
      exact ih _
  | nil =>
      cases stop with
      | again => cases readbuffer <;> simp [readTurns, hderef, bind, Except.bind, recvLoop]
      | shutdown => simp [readTurns, hderef, bind, Except.bind, recvLoop]
      | failed => simp [readTurns, hderef, bind, Except.bind, recvLoop]

theorem Matches.rewrite (hmatch : Matches s t) (hinv : s.TableInv)
    (hmap : s.fdMap.getState fd = some a) (hown : s.Owned fd a l) (st' : FdObject)
    (e' : EventObject) {fst : FdState} (hwrite : st'.writeEvent = l.event .doWrite)
    (hfdMap : s'.fdMap = s.fdMap) (hheap : s'.heap = Function.update s.heap a (some st'))
    (hevents : s'.events = Function.update s.events st'.writeEvent (some e'))
    (haccepts : s'.accepts = s.accepts)
    (hshown : fst.shown = ⟨st'.listenPort, st'.writebuffer, e'.added, st'.conn⟩) :
    Matches s' (t.putState fd fst) := by
  have hshow := shown_rewrite hinv hmap hown st' e' hwrite hfdMap hheap hevents
  refine hmatch.put ?_ ?_ haccepts
  · rw [hshow, if_pos rfl, hshown]
  · intro fd' hne
    rw [hshow, if_neg hne]

theorem doWrite_refines (hinv : s.TableInv) (hmatch : Matches s t)
    (hmap : s.fdMap.getState fd = some a) (hown : s.Owned fd a l) {result : SendResult}
    (hadded : s.Added (l.event .doWrite))
    (hsend : ∀ st, s.heap a = some st → st.writebuffer.length < 0x80000000 ∧
      ∀ n, result = .sent n → n ≤ st.writebuffer.length)
    (hr : s.doWrite fd a result = .ok s') :
    ∃ t', System.step env threadnum t (.write fd result) = some t' ∧ Matches s' t' := by
  obtain ⟨st, -, hst, rfl⟩ := hown.deref
  obtain ⟨e, he, hadded⟩ := hadded
  have he : s.events st.writeEvent = some e := he
  obtain ⟨fst, hfst, hshown⟩ := hmatch.fdState hmap hst he
  simp only [FdState.shown, Shown.mk.injEq, hadded] at hshown
  obtain ⟨hport, hbuffer, hwriteAdded, hconn⟩ := hshown
  obtain ⟨hsmall, hsend⟩ := hsend st hst
  have hsz := sz_eq_length hsmall
  have hcan : fst.CanSend result := by
    cases result with
    | sent n =>
        rw [FdState.CanSend, hbuffer]
        exact hsend n rfl
    | _ => trivial
  have hput : ∀ fst', fst.doWrite result = some fst' → Matches s' (t.putState fd fst') →
      ∃ t', System.step env threadnum t (.write fd result) = some t' ∧ Matches s' t' := by
    intro fst' hsome hmatch'
    refine ⟨t.putState fd fst', ?_, hmatch'⟩
    simp only [System.step, hfst, hwriteAdded, hcan, and_self, if_true, hsome]
  have hheap : s.heap = Function.update s.heap a (some st) := by
    rw [← hst, Function.update_eq_self]
  have hevents : s.events = Function.update s.events st.writeEvent (some e) := by
    rw [← he, Function.update_eq_self]
  obtain ⟨s₁, hs₁, hwrote⟩ := doWrite_wrote hown hst he result
  rw [hs₁, Except.ok.injEq] at hr
  subst hr
  cases hwrote with
  | idle _ hnone =>
      have hempty : st.writebuffer.length = 0 := by omega
      refine hput { fst with writeAdded := false } ?_ ?_
      · simp only [FdState.doWrite, hbuffer, hempty, if_true]
      · refine hmatch.rewrite hinv hmap hown st { e with added := false } rfl rfl hheap rfl rfl ?_
        simp [FdState.shown, hport, hconn, hbuffer]
  | again hpos =>
      have hempty : ¬ st.writebuffer.length = 0 := by omega
      refine hput fst ?_ ?_
      · simp only [FdState.doWrite, hbuffer, if_neg hempty]
      · refine hmatch.rewrite hinv hmap hown st e rfl rfl hheap hevents rfl ?_
        simp [FdState.shown, hport, hconn, hbuffer, hwriteAdded, hadded]
  | freed _ hpos hresult =>
      have hempty : ¬ st.writebuffer.length = 0 := by omega
      have hnone : fst.doWrite result = none := by
        rcases hresult with rfl | rfl
        · simp only [FdState.doWrite, hbuffer, if_neg hempty]
        · simp only [FdState.doWrite, hbuffer, if_neg hempty]
      refine ⟨t.freeFdState env threadnum fd fst, ?_, hmatch.free hinv hown fst⟩
      simp only [System.step, hfst, hwriteAdded, hcan, and_self, if_true, hnone]
  | all n hpos hall =>
      have hempty : ¬ st.writebuffer.length = 0 := by omega
      have hall : n = st.writebuffer.length := by omega
      refine hput { fst with
        accepted := fst.accepted ++ fst.writebuffer.take n
        writebuffer := []
        writeAdded := false } ?_ ?_
      · rw [FdState.doWrite_sent hpos, hbuffer, if_neg hempty, if_pos hall]
      · refine hmatch.rewrite hinv hmap hown { st with writebuffer := [] }
          { e with added := false } rfl rfl rfl rfl rfl ?_
        simp [FdState.shown, hport, hconn]
  | part n hpos hn hpart =>
      have hempty : ¬ st.writebuffer.length = 0 := by omega
      have hpart : ¬ n = st.writebuffer.length := by omega
      refine hput { fst with
        accepted := fst.accepted ++ fst.writebuffer.take n
        writebuffer := fst.writebuffer.drop fst.writebuffer.length } ?_ ?_
      · rw [FdState.doWrite_sent hn, hbuffer, if_neg hempty, if_neg hpart]
      · refine hmatch.rewrite hinv hmap hown
          { st with writebuffer := st.writebuffer.drop st.sz.toNat } e rfl rfl rfl hevents rfl ?_
        simp [FdState.shown, hport, hconn, hbuffer, hwriteAdded, hadded, hsz]

theorem doRead_refines (hinv : s.TableInv) (hmatch : Matches s t)
    (hmap : s.fdMap.getState fd = some a) (hown : s.Owned fd a l) {call : ReadCall}
    {result : SendResult} (hr : s.doRead fd a call = .ok s') :
    ∃ t', LoopStep env threadnum t (.callback h call result) t' ∧ Matches s' t' := by
  obtain ⟨st, hderef, hst, rfl⟩ := hown.deref
  have hlibevent : st.libevent = true := hown.libevent
  obtain ⟨e, he⟩ := hown.writeEvent rfl
  obtain ⟨fst, hfst, -⟩ := hmatch.fdState hmap hst he
  simp only [doRead, hderef, bind, Except.bind, if_pos hlibevent, readTurns_eq hst] at hr
  by_cases hfreed : (MmsSvr.doRead call).freed = true
  · have hfreed' : (recvLoop none call.chunks call.stop).freed = true := hfreed
    rw [if_pos hfreed', freeFdState_eq hown, Except.ok.injEq] at hr
    subst hr
    refine ⟨t.freeFdState env threadnum fd fst, .shutdown h call result fd hfreed ?_,
      hmatch.free hinv hown fst⟩
    exact (doRead_freed hfst hfreed).2
  · have hfreed' : ¬ (recvLoop none call.chunks call.stop).freed = true := hfreed
    rw [if_neg hfreed', Except.ok.injEq] at hr
    subst hr
    have hmatch' : Matches ((recvLoop none call.chunks call.stop).received.elim s fun data =>
        { s with received := s.received ++ [(fd, data, st.listenPort)] }) t := by
      cases (recvLoop none call.chunks call.stop).received with
      | none => exact hmatch
      | some data => exact ⟨hmatch.shown, hmatch.accepts⟩
    rw [Bool.not_eq_true] at hfreed
    cases hreceived : (MmsSvr.doRead call).received with
    | none =>
        have hidle : MmsSvr.doRead call = ⟨none, false⟩ := by
          rw [← hreceived, ← hfreed]
        exact ⟨t, .idle h call result hidle, hmatch'⟩
    | some data =>
        have hdata : MmsSvr.doRead call = ⟨some data, false⟩ := by
          rw [← hreceived, ← hfreed]
        refine ⟨t.dataReceive threadnum ⟨fd, data, fst.listenPort, fst.conn⟩,
          .receive h call result fd data hdata ?_, hmatch'.shown, hmatch'.accepts⟩
        simp only [System.step, hfst, if_neg (eq_bytes_of_received hreceived).2]

theorem queueReceive_refines (hinv : s.TableInv) (hmatch : Matches s t) {item : QueueItem}
    (hr : s.queueReceive item = .ok s') :
    Matches s' (t.queueReceive env threadnum item) := by
  obtain ⟨s₁, hs₁, hqueued⟩ := queueReceive_queued hinv item
  rw [hs₁, Except.ok.injEq] at hr
  subst hr
  rw [System.queueReceive]
  cases hqueued with
  | unmapped hmap =>
      rw [hmatch.unmapped hmap]
      exact hmatch
  | closed a l hmap hown hbuf =>
      obtain ⟨st, -, hst, rfl⟩ := hown.deref
      obtain ⟨e, he⟩ := hown.writeEvent rfl
      obtain ⟨fst, hfst, -⟩ := hmatch.fdState hmap hst he
      rw [hfst]
      dsimp only
      rw [if_pos hbuf]
      exact hmatch.free hinv hown fst
  | appended a st e hmap hown hst he hbuf =>
      obtain ⟨fst, hfst, hshown⟩ := hmatch.fdState hmap hst he
      simp only [FdState.shown, Shown.mk.injEq] at hshown
      obtain ⟨hport, hbuffer, -, hconn⟩ := hshown
      rw [hfst]
      dsimp only
      rw [if_neg hbuf]
      refine hmatch.rewrite hinv hmap hown { st with writebuffer := st.writebuffer ++ item.buf }
        { e with added := true } rfl rfl rfl rfl rfl ?_
      simp [FdState.append, FdState.shown, hport, hconn, hbuffer]

theorem accept_refines {port : UInt32} {readEvent writeEvent : EventAddr} (hinv : s.TableInv)
    (hmatch : Matches s t) (hfd : fd ≠ 0) (hport : port = env.port ∨ port = env.mangport)
    (hunused : s.Unused fd a readEvent writeEvent) :
    ∃ t', System.step env threadnum t (.accept fd port) = some t' ∧
      Matches (s.accepted fd port a readEvent writeEvent) t' := by
  have hmap : s.fdMap.getState fd = none := hinv.unmapped hunused.socket
  have hfree : t.fdStates.getState fd = none := hmatch.unmapped hmap
  refine ⟨{ t.putState fd (.alloc port t.accepts) with accepts := t.accepts + 1 }, ?_, ?_, ?_⟩
  · simp only [System.step, hfree, hfd, hport, ne_eq, not_false_eq_true, and_self, if_true]
  · intro fd'
    change _ = ((t.putState fd (.alloc port t.accepts)).fdStates.getState fd').map FdState.shown
    rw [shown_accepted hinv hunused]
    by_cases hne : fd' = fd
    · rw [if_pos hne, hne, hmatch.accepts]
      simp [System.putState, FdState.alloc, FdState.shown]
    · rw [if_neg hne, System.putState, StateMap.getState_addState_of_ne _ _ hne]
      exact hmatch.shown fd'
  · exact congrArg (· + 1) hmatch.accepts

/-- Every action of the loop thread is a step of `System`, or none, on the same connections. -/
theorem act_refines (hinv : s.TableInv) (hmatch : Matches s t) {action : LoopAction}
    (hpossible : Possible env s action) (hact : s.act action = some (.ok s')) :
    ∃ t', LoopStep env threadnum t action t' ∧ Matches s' t' := by
  have hcalled : ∀ h, Matches { s with active := s.active.filter (· ≠ h) } t :=
    fun h => ⟨hmatch.shown, hmatch.accepts⟩
  cases act_cases hinv hact with
  | nothing port a readEvent writeEvent => exact ⟨t, .nothing port a readEvent writeEvent, hmatch⟩
  | accept fd port a readEvent writeEvent hunused =>
      obtain ⟨t', hstep, hmatch'⟩ :=
        accept_refines hinv hmatch hpossible.1 hpossible.2 hunused
      exact ⟨t', .accept fd port a readEvent writeEvent hstep, hmatch'⟩
  | ready h => exact ⟨t, .ready h, hmatch.shown, hmatch.accepts⟩
  | read h call result e l he hcallback hmap hown hr =>
      have hsame := sameTable_called s h
      exact doRead_refines (hinv.of_same hsame) (hcalled h) hmap (hown.of_same hsame) hr
  | write h call result e l he hcallback hadded hmap hown hevent hr =>
      have hsame := sameTable_called s h
      obtain ⟨t', hstep, hmatch'⟩ := doWrite_refines (hinv.of_same hsame) (hcalled h) hmap
        (hown.of_same hsame) ⟨e, by rw [hevent]; exact he, hadded⟩ (fun st => hpossible e st he) hr
      exact ⟨t', .write h call result e.fd hstep, hmatch'⟩
  | queue item hr => exact ⟨_, .queue item, queueReceive_refines hinv hmatch hr⟩

theorem run_refines (env : ServerEnv) (threadnum : Nat) (s : YYLibEvent)
    (h : loopThread.Reachable (Possible env) s) :
    ∃ t, Relation.ReflTransGen (fun t t' => ∃ action, LoopStep env threadnum t action t')
      System.init t ∧ Matches s t := by
  have hinit : loopThread.init.TableInv ∧ Matches loopThread.init System.init :=
    ⟨tableInv_init, fun _ => rfl, rfl⟩
  have hfollow : ∀ s action s' t, s.TableInv ∧ Matches s t → Possible env s action →
      loopThread.step s action = some s' →
      ∃ t', LoopStep env threadnum t action t' ∧ s'.TableInv ∧ Matches s' t' := by
    rintro s action s' t ⟨hinv, hmatch⟩ hpossible hstep
    obtain ⟨hact, hinv'⟩ := act_of_step hinv hstep
    obtain ⟨t', hstep', hmatch'⟩ := act_refines hinv hmatch hpossible hact
    exact ⟨t', hstep', hinv', hmatch'⟩
  obtain ⟨t, hrun, -, hmatch⟩ := h.simulated hinit hfollow
  exact ⟨t, hrun, hmatch⟩

end Callbacks

end YYLibEvent

end MmsSvr
