import MmsSvr.LibEvent

/-!
The table of connections: which descriptors are in it, and what happens to a connection
from its accept until it is freed.
-/

namespace MmsSvr

open Lib

/-- What of an `fd_state` stays as it is while it lives. -/
structure Links where
  libevent : Bool
  readEvent : EventAddr
  writeEvent : EventAddr
  conn : Nat

def FdObject.links (st : FdObject) : Links := ⟨st.libevent, st.readEvent, st.writeEvent, st.conn⟩

def Links.event (l : Links) : Callback → EventAddr
  | .doRead => l.readEvent
  | .doWrite => l.writeEvent

/-- What of an event stays as it is while it lives. -/
def EventObject.target (e : EventObject) : Fd × Callback × Addr := (e.fd, e.callback, e.arg)

def ConnEvent.conn : ConnEvent → Option Nat
  | .accepted _ conn => some conn
  | .fdClose _ conn => conn
  | .closeSocket _ conn => conn
  | .freed conn => some conn

def history (conn : Nat) (log : List ConnEvent) : List ConnEvent :=
  log.filter fun e => e.conn = some conn

def finished (fd : Fd) (conn : Nat) : List ConnEvent :=
  [.accepted fd conn, .fdClose fd (some conn), .closeSocket fd (some conn), .freed conn]

namespace YYLibEvent

def linksAt (s : YYLibEvent) (a : Addr) : Option Links := (s.heap a).map FdObject.links

def targetAt (s : YYLibEvent) (h : EventAddr) : Option (Fd × Callback × Addr) :=
  (s.events h).map EventObject.target

/-- The event has been added: libevent may call it back. -/
def Added (s : YYLibEvent) (h : EventAddr) : Prop := ∃ e, s.events h = some e ∧ e.added = true

/-- The `fd_state` at `a` belongs to the open socket `fd`, and so do its events. -/
structure Owned (s : YYLibEvent) (fd : Fd) (a : Addr) (l : Links) : Prop where
  live : s.linksAt a = some l
  libevent : l.libevent = true
  socket : s.sockets fd = some l.conn
  event : ∀ cb, s.targetAt (l.event cb) = some (fd, cb, a)

/-- A connection is yet to come, has an open socket, or is over. -/
inductive Life (s : YYLibEvent) (conn : Nat) : Prop where
  | future (hconn : s.accepts ≤ conn) (hsocket : ∀ fd, s.sockets fd ≠ some conn)
      (hlog : history conn s.log = []) : Life s conn
  | running (fd : Fd) (hconn : conn < s.accepts) (hsocket : s.sockets fd = some conn)
      (honly : ∀ fd', s.sockets fd' = some conn → fd' = fd)
      (hlog : history conn s.log = [.accepted fd conn]) : Life s conn
  | ended (fd : Fd) (hconn : conn < s.accepts) (hsocket : ∀ fd, s.sockets fd ≠ some conn)
      (hlog : history conn s.log = finished fd conn) : Life s conn

structure TableInv (s : YYLibEvent) : Prop where
  owned : ∀ fd a, s.fdMap.getState fd = some a → ∃ l, s.Owned fd a l
  mapped : ∀ fd conn, s.sockets fd = some conn → s.fdMap.getState fd ≠ none
  pointed : ∀ h fd cb a, s.targetAt h = some (fd, cb, a) →
    s.fdMap.getState fd = some a ∧ ∀ l, s.linksAt a = some l → l.event cb = h
  active : ∀ h ∈ s.active, s.Added h
  named : ∀ e ∈ s.log, e.conn ≠ none
  life : ∀ conn, s.Life conn

/-- A call that returns, with the table in order. -/
def Keeps (r : Except MemFault YYLibEvent) : Prop := ∃ t, r = .ok t ∧ t.TableInv

variable {s t : YYLibEvent} {fd fd' : Fd} {a a' : Addr} {h : EventAddr} {l l' : Links}
  {st : FdObject}

section Same

/-- Two states that differ only in buffers, in what has been added, and in which callbacks
are due. -/
structure SameTable (s t : YYLibEvent) : Prop where
  fdMap : t.fdMap = s.fdMap
  linksAt : t.linksAt = s.linksAt
  targetAt : t.targetAt = s.targetAt
  active : (∀ h ∈ s.active, s.Added h) → ∀ h ∈ t.active, t.Added h
  sockets : t.sockets = s.sockets
  accepts : t.accepts = s.accepts
  log : t.log = s.log

theorem SameTable.trans {u : YYLibEvent} (h : SameTable s t) (k : SameTable t u) :
    SameTable s u where
  fdMap := k.fdMap.trans h.fdMap
  linksAt := k.linksAt.trans h.linksAt
  targetAt := k.targetAt.trans h.targetAt
  active := fun hs => k.active (h.active hs)
  sockets := k.sockets.trans h.sockets
  accepts := k.accepts.trans h.accepts
  log := k.log.trans h.log

theorem Owned.of_same (h : s.Owned fd a l) (hsame : SameTable s t) : t.Owned fd a l := by
  obtain ⟨hlive, hlibevent, hsocket, hevent⟩ := h
  refine ⟨?_, hlibevent, ?_, ?_⟩
  · rw [hsame.linksAt]
    exact hlive
  · rw [hsame.sockets]
    exact hsocket
  · rw [hsame.targetAt]
    exact hevent

theorem Life.of_same {conn : Nat} (h : s.Life conn) (hsame : SameTable s t) : t.Life conn := by
  cases h with
  | future hconn hsocket hlog =>
      rw [← hsame.accepts] at hconn
      rw [← hsame.sockets] at hsocket
      rw [← hsame.log] at hlog
      exact .future hconn hsocket hlog
  | running fd hconn hsocket honly hlog =>
      rw [← hsame.accepts] at hconn
      rw [← hsame.sockets] at hsocket honly
      rw [← hsame.log] at hlog
      exact .running fd hconn hsocket honly hlog
  | ended fd hconn hsocket hlog =>
      rw [← hsame.accepts] at hconn
      rw [← hsame.sockets] at hsocket
      rw [← hsame.log] at hlog
      exact .ended fd hconn hsocket hlog

theorem TableInv.of_same (hinv : s.TableInv) (hsame : SameTable s t) : t.TableInv where
  owned := by
    intro fd a hmap
    rw [hsame.fdMap] at hmap
    obtain ⟨l, hl⟩ := hinv.owned fd a hmap
    exact ⟨l, hl.of_same hsame⟩
  mapped := by
    rw [hsame.fdMap, hsame.sockets]
    exact hinv.mapped
  pointed := by
    rw [hsame.fdMap, hsame.linksAt, hsame.targetAt]
    exact hinv.pointed
  active := hsame.active hinv.active
  named := by
    rw [hsame.log]
    exact hinv.named
  life := fun conn => (hinv.life conn).of_same hsame

theorem sameTable_setState (hlive : s.heap a = some st) {st' : FdObject}
    (hlinks : st'.links = st.links) : SameTable s (s.setState a st') := by
  refine ⟨rfl, ?_, rfl, fun h => h, rfl, rfl, rfl⟩
  funext b
  by_cases hb : b = a
  · subst hb
    simp [linksAt, setState, hlive, hlinks]
  · simp [linksAt, setState, Function.update_of_ne hb]

theorem targetAt_update {e : EventObject} (he : s.events h = some e) (b : Bool) :
    (fun k => ((Function.update s.events h (some { e with added := b })) k).map
      EventObject.target) = s.targetAt := by
  funext k
  by_cases hk : k = h
  · subst hk
    simp [targetAt, he, EventObject.target]
  · simp [targetAt, Function.update_of_ne hk]

theorem eventAdd_eq {e : EventObject} (he : s.events h = some e) :
    s.eventAdd h = .ok
      { s with events := Function.update s.events h (some { e with added := true }) } := by
  rw [eventAdd, he]

theorem eventDel_eq {e : EventObject} (he : s.events h = some e) :
    s.eventDel h = .ok
      { s with
        events := Function.update s.events h (some { e with added := false })
        active := s.active.filter (· ≠ h) } := by
  rw [eventDel, he]

theorem sameTable_eventAdd {e : EventObject} (he : s.events h = some e) :
    SameTable s
      { s with events := Function.update s.events h (some { e with added := true }) } := by
  refine ⟨rfl, rfl, targetAt_update he true, ?_, rfl, rfl, rfl⟩
  intro hs k hk
  by_cases hkh : k = h
  · exact ⟨{ e with added := true }, by simp [hkh], rfl⟩
  · obtain ⟨e', he', hadded⟩ := hs k hk
    exact ⟨e', by simpa [Function.update_of_ne hkh] using he', hadded⟩

theorem sameTable_eventDel {e : EventObject} (he : s.events h = some e) :
    SameTable s { s with
      events := Function.update s.events h (some { e with added := false })
      active := s.active.filter (· ≠ h) } := by
  refine ⟨rfl, rfl, targetAt_update he false, ?_, rfl, rfl, rfl⟩
  intro hs k hk
  simp only [List.mem_filter, decide_eq_true_eq] at hk
  obtain ⟨e', he', hadded⟩ := hs k hk.1
  exact ⟨e', by simpa [Function.update_of_ne hk.2] using he', hadded⟩

end Same

section Free

def freed (s : YYLibEvent) (fd : Fd) (a : Addr) (l : Links) : YYLibEvent :=
  { s with
    fdMap := s.fdMap.delState fd
    heap := Function.update s.heap a none
    events := Function.update (Function.update s.events l.readEvent none) l.writeEvent none
    active := (s.active.filter (· ≠ l.readEvent)).filter (· ≠ l.writeEvent)
    sockets := Function.update s.sockets fd none
    log := s.log ++ [.fdClose fd (s.sockets fd), .closeSocket fd (s.sockets fd), .freed l.conn] }

theorem Owned.event_inj (hown : s.Owned fd a l) {cb cb' : Callback}
    (heq : l.event cb = l.event cb') : cb = cb' := by
  have hevent := hown.event cb
  rw [heq, hown.event cb', Option.some.injEq] at hevent
  simp only [Prod.mk.injEq] at hevent
  exact hevent.2.1.symm

theorem freeFdState_eq (hown : s.Owned fd a l) : s.freeFdState fd a = .ok (s.freed fd a l) := by
  obtain ⟨st, hst, hlinks⟩ := Option.map_eq_some_iff.mp hown.live
  have hne : l.writeEvent ≠ l.readEvent := by
    intro heq
    have hcb : Callback.doWrite = .doRead := hown.event_inj heq
    simp at hcb
  obtain ⟨er, her, -⟩ := Option.map_eq_some_iff.mp (hown.event .doRead)
  obtain ⟨ew, hew, -⟩ := Option.map_eq_some_iff.mp (hown.event .doWrite)
  have hread : st.readEvent = l.readEvent := congrArg Links.readEvent hlinks
  have hwrite : st.writeEvent = l.writeEvent := congrArg Links.writeEvent hlinks
  have hconn : st.conn = l.conn := congrArg Links.conn hlinks
  simp only [Links.event] at her hew
  simp only [freeFdState, deref, hst, callFdClose, eventFree, hread, hwrite, her,
    Function.update_of_ne hne, hew, closeSocket, deleteState, hconn, bind, Except.bind, freed,
    List.append_assoc, List.cons_append, List.nil_append]

theorem Owned.addr_inj (hown : s.Owned fd a l) (hown' : s.Owned fd' a l') : fd = fd' := by
  have hlinks : l = l' := Option.some.inj (hown.live.symm.trans hown'.live)
  subst hlinks
  have hevent := hown.event .doRead
  rw [hown'.event .doRead, Option.some.injEq] at hevent
  exact (Prod.mk.inj hevent).1.symm

theorem Owned.event_ne (hown : s.Owned fd a l) (hown' : s.Owned fd' a' l') (hne : fd' ≠ fd)
    (cb cb' : Callback) : l'.event cb' ≠ l.event cb := by
  intro heq
  have hevent := hown'.event cb'
  rw [heq, hown.event cb, Option.some.injEq] at hevent
  exact hne (Prod.mk.inj hevent).1.symm

theorem linksAt_freed (hne : a' ≠ a) : (s.freed fd a l).linksAt a' = s.linksAt a' := by
  simp [linksAt, freed, Function.update_of_ne hne]

theorem targetAt_freed (hne : ∀ cb, h ≠ l.event cb) :
    (s.freed fd a l).targetAt h = s.targetAt h := by
  have hread : h ≠ l.readEvent := hne .doRead
  have hwrite : h ≠ l.writeEvent := hne .doWrite
  simp [targetAt, freed, Function.update_of_ne hread, Function.update_of_ne hwrite]

theorem targetAt_freed_some {target : Fd × Callback × Addr}
    (hsome : (s.freed fd a l).targetAt h = some target) :
    (∀ cb, h ≠ l.event cb) ∧ s.targetAt h = some target := by
  have hne : ∀ cb, h ≠ l.event cb := by
    rintro cb rfl
    cases cb with
    | doRead =>
        by_cases heq : l.readEvent = l.writeEvent
        · simp [targetAt, freed, Links.event, heq] at hsome
        · simp [targetAt, freed, Links.event, Function.update_of_ne heq] at hsome
    | doWrite => simp [targetAt, freed, Links.event] at hsome
  rw [targetAt_freed hne] at hsome
  exact ⟨hne, hsome⟩

theorem history_append (conn : Nat) (log events : List ConnEvent) :
    history conn (log ++ events) = history conn log ++ history conn events := List.filter_append ..

theorem Life.freed (hown : s.Owned fd a l) {conn : Nat} (h : s.Life conn) :
    (s.freed fd a l).Life conn := by
  have hlog : history conn (s.freed fd a l).log = history conn s.log ++
      history conn [.fdClose fd (some l.conn), .closeSocket fd (some l.conn), .freed l.conn] := by
    simp only [YYLibEvent.freed, hown.socket, history_append]
  have hsockets : ∀ fd', (s.freed fd a l).sockets fd' =
      if fd' = fd then none else s.sockets fd' := by
    intro fd'
    simp [YYLibEvent.freed, Function.update_apply]
  by_cases hconn : conn = l.conn
  · subst hconn
    cases h with
    | future _ hsocket _ => exact absurd hown.socket (hsocket fd)
    | ended _ _ hsocket _ => exact absurd hown.socket (hsocket fd)
    | running fd' hlt _ honly hrunning =>
        have hfd : fd = fd' := honly fd hown.socket
        subst hfd
        refine .ended fd hlt ?_ ?_
        · intro fd' hsocket
          rw [hsockets, Option.ite_none_left_eq_some] at hsocket
          exact hsocket.1 (honly fd' hsocket.2)
        · rw [hlog, hrunning]
          simp [history, ConnEvent.conn, finished]
  · have hnil : history conn
        [.fdClose fd (some l.conn), .closeSocket fd (some l.conn), .freed l.conn] = [] := by
      simp [history, ConnEvent.conn, Ne.symm hconn]
    rw [hnil, List.append_nil] at hlog
    have hsame : ∀ fd', (s.freed fd a l).sockets fd' = some conn ↔ s.sockets fd' = some conn := by
      intro fd'
      rw [hsockets, Option.ite_none_left_eq_some]
      constructor
      · exact fun h => h.2
      · intro hsocket
        refine ⟨?_, hsocket⟩
        rintro rfl
        rw [hown.socket, Option.some.injEq] at hsocket
        exact hconn hsocket.symm
    cases h with
    | future hle hsocket hfuture =>
        exact .future hle (fun fd' => mt (hsame fd').mp (hsocket fd')) (hlog.trans hfuture)
    | running fd' hlt hsocket honly hrunning =>
        exact .running fd' hlt ((hsame fd').mpr hsocket)
          (fun fd'' h => honly fd'' ((hsame fd'').mp h)) (hlog.trans hrunning)
    | ended fd' hlt hsocket hended =>
        exact .ended fd' hlt (fun fd'' => mt (hsame fd'').mp (hsocket fd'')) (hlog.trans hended)

theorem Owned.freed (hown' : s.Owned fd' a' l') (hown : s.Owned fd a l) (hne : fd' ≠ fd) :
    (s.freed fd a l).Owned fd' a' l' := by
  have ha : a' ≠ a := by
    rintro rfl
    exact hne (hown'.addr_inj hown)
  refine ⟨?_, hown'.libevent, ?_, ?_⟩
  · rw [linksAt_freed ha]
    exact hown'.live
  · simp only [YYLibEvent.freed, Function.update_of_ne hne]
    exact hown'.socket
  · intro cb
    rw [targetAt_freed fun cb' => hown.event_ne hown' hne cb' cb]
    exact hown'.event cb

theorem TableInv.freed (hinv : s.TableInv) (hmap : s.fdMap.getState fd = some a)
    (hown : s.Owned fd a l) : (s.freed fd a l).TableInv where
  owned := by
    intro fd' a' hmap'
    have hne : fd' ≠ fd := by
      rintro rfl
      simp [YYLibEvent.freed] at hmap'
    rw [YYLibEvent.freed, StateMap.getState_delState_of_ne _ hne] at hmap'
    obtain ⟨l', hown'⟩ := hinv.owned fd' a' hmap'
    exact ⟨l', hown'.freed hown hne⟩
  mapped := by
    intro fd' conn hsocket
    have hne : fd' ≠ fd := by
      rintro rfl
      simp [YYLibEvent.freed] at hsocket
    simp only [YYLibEvent.freed, Function.update_of_ne hne] at hsocket
    simp only [YYLibEvent.freed, StateMap.getState_delState_of_ne _ hne]
    exact hinv.mapped fd' conn hsocket
  pointed := by
    intro h fd' cb a' htarget
    obtain ⟨hfresh, htarget⟩ := targetAt_freed_some htarget
    obtain ⟨hmap', hlinks⟩ := hinv.pointed h fd' cb a' htarget
    have ha : a' ≠ a := by
      rintro rfl
      exact hfresh cb (hlinks l hown.live).symm
    have hne : fd' ≠ fd := by
      rintro rfl
      rw [hmap, Option.some.injEq] at hmap'
      exact ha hmap'.symm
    refine ⟨?_, ?_⟩
    · simp only [YYLibEvent.freed, StateMap.getState_delState_of_ne _ hne]
      exact hmap'
    · intro l'' hl''
      rw [linksAt_freed ha] at hl''
      exact hlinks l'' hl''
  active := by
    intro h hh
    simp only [YYLibEvent.freed, List.mem_filter, decide_eq_true_eq] at hh
    obtain ⟨⟨hactive, hread⟩, hwrite⟩ := hh
    obtain ⟨e, he, hadded⟩ := hinv.active h hactive
    exact ⟨e, by simp [YYLibEvent.freed, hread, hwrite, he], hadded⟩
  named := by
    intro e he
    simp only [YYLibEvent.freed, hown.socket, List.mem_append, List.mem_cons, List.not_mem_nil,
      or_false] at he
    rcases he with he | rfl | rfl | rfl
    · exact hinv.named e he
    · simp [ConnEvent.conn]
    · simp [ConnEvent.conn]
    · simp [ConnEvent.conn]
  life := fun conn => (hinv.life conn).freed hown

end Free

section Accept

variable {port : UInt32} {readEvent writeEvent : EventAddr}

/-- The state after `alloc_fd_state` in `do_accept`. -/
def allocated (s : YYLibEvent) (fd : Fd) (port : UInt32) (a : Addr)
    (readEvent writeEvent : EventAddr) : YYLibEvent :=
  { (s.acceptSocket fd).allocFdState fd port a readEvent writeEvent with accepts := s.accepts + 1 }

/-- What `accept` and the allocations return is not in use. -/
structure Unused (s : YYLibEvent) (fd : Fd) (a : Addr) (readEvent writeEvent : EventAddr) :
    Prop where
  socket : s.sockets fd = none
  live : s.heap a = none
  read : s.events readEvent = none
  write : s.events writeEvent = none
  apart : readEvent ≠ writeEvent

theorem linksAt_allocated (a' : Addr) :
    (s.allocated fd port a readEvent writeEvent).linksAt a' =
      if a' = a then some ⟨true, readEvent, writeEvent, s.accepts⟩ else s.linksAt a' := by
  by_cases ha : a' = a
  · subst ha
    simp [linksAt, allocated, allocFdState, setState, eventNew, acceptSocket, FdObject.links]
  · simp [linksAt, allocated, allocFdState, setState, eventNew, acceptSocket, ha]

theorem targetAt_allocated (h : EventAddr) :
    (s.allocated fd port a readEvent writeEvent).targetAt h =
      if h = writeEvent then some (fd, .doWrite, a)
      else if h = readEvent then some (fd, .doRead, a) else s.targetAt h := by
  by_cases hwrite : h = writeEvent
  · subst hwrite
    simp [targetAt, allocated, allocFdState, setState, eventNew, EventObject.target]
  · by_cases hread : h = readEvent
    · subst hread
      simp [targetAt, allocated, allocFdState, setState, eventNew, EventObject.target, hwrite]
    · simp [targetAt, allocated, allocFdState, setState, eventNew, acceptSocket, hwrite, hread]

theorem sockets_allocated (fd' : Fd) :
    (s.allocated fd port a readEvent writeEvent).sockets fd' =
      if fd' = fd then some s.accepts else s.sockets fd' := by
  simp [allocated, allocFdState, setState, eventNew, acceptSocket, Function.update_apply]

theorem fdMap_allocated (fd' : Fd) :
    (s.allocated fd port a readEvent writeEvent).fdMap.getState fd' =
      if fd' = fd then some a else s.fdMap.getState fd' := rfl

theorem Life.allocated (hsocket : s.sockets fd = none) {conn : Nat} (h : s.Life conn) :
    (s.allocated fd port a readEvent writeEvent).Life conn := by
  have hlog : history conn (s.allocated fd port a readEvent writeEvent).log =
      history conn s.log ++ history conn [.accepted fd s.accepts] := history_append ..
  have haccepts : (s.allocated fd port a readEvent writeEvent).accepts = s.accepts + 1 := rfl
  by_cases hconn : conn = s.accepts
  · subst hconn
    cases h with
    | running _ hlt => omega
    | ended _ hlt => omega
    | future _ hfree hfuture =>
        refine .running fd (by omega) (by rw [sockets_allocated, if_pos rfl]) ?_ ?_
        · intro fd' hsocket'
          rw [sockets_allocated] at hsocket'
          by_contra hne
          rw [if_neg hne] at hsocket'
          exact hfree fd' hsocket'
        · rw [hlog, hfuture]
          simp [history, ConnEvent.conn]
  · have hnil : history conn [.accepted fd s.accepts] = [] := by
      simp [history, ConnEvent.conn, Ne.symm hconn]
    rw [hnil, List.append_nil] at hlog
    have hsame : ∀ fd', (s.allocated fd port a readEvent writeEvent).sockets fd' = some conn ↔
        s.sockets fd' = some conn := by
      intro fd'
      rw [sockets_allocated]
      split
      · rename_i hfd
        rw [hfd, hsocket]
        simp [Ne.symm hconn]
      · exact Iff.rfl
    cases h with
    | future hle hfree hfuture =>
        exact .future (by omega) (fun fd' => mt (hsame fd').mp (hfree fd')) (hlog.trans hfuture)
    | running fd' hlt hopen honly hrunning =>
        exact .running fd' (by omega) ((hsame fd').mpr hopen)
          (fun fd'' h => honly fd'' ((hsame fd'').mp h)) (hlog.trans hrunning)
    | ended fd' hlt hclosed hended =>
        exact .ended fd' (by omega) (fun fd'' => mt (hsame fd'').mp (hclosed fd''))
          (hlog.trans hended)

theorem TableInv.unmapped (hinv : s.TableInv) (hsocket : s.sockets fd = none) :
    s.fdMap.getState fd = none := by
  by_contra hsome
  obtain ⟨a, ha⟩ := Option.ne_none_iff_exists'.mp hsome
  obtain ⟨l, hown⟩ := hinv.owned fd a ha
  rw [hown.socket] at hsocket
  simp at hsocket

theorem Unused.fresh (hunused : s.Unused fd a readEvent writeEvent)
    {target : Fd × Callback × Addr} (htarget : s.targetAt h = some target) :
    h ≠ readEvent ∧ h ≠ writeEvent := by
  constructor
  · rintro rfl
    simp [targetAt, hunused.read] at htarget
  · rintro rfl
    simp [targetAt, hunused.write] at htarget

theorem Unused.addr_ne (hunused : s.Unused fd a readEvent writeEvent) (hown : s.Owned fd' a' l) :
    a' ≠ a := by
  rintro rfl
  have hlive := hown.live
  simp [linksAt, hunused.live] at hlive

theorem Owned.allocated (hunused : s.Unused fd a readEvent writeEvent) (hown : s.Owned fd' a' l) :
    (s.allocated fd port a readEvent writeEvent).Owned fd' a' l := by
  have hfd : fd' ≠ fd := by
    rintro rfl
    have hsocket := hown.socket
    simp [hunused.socket] at hsocket
  refine ⟨?_, hown.libevent, ?_, ?_⟩
  · rw [linksAt_allocated, if_neg (hunused.addr_ne hown)]
    exact hown.live
  · rw [sockets_allocated, if_neg hfd]
    exact hown.socket
  · intro cb
    obtain ⟨hread, hwrite⟩ := hunused.fresh (hown.event cb)
    rw [targetAt_allocated, if_neg hwrite, if_neg hread]
    exact hown.event cb

theorem owned_allocated (hapart : readEvent ≠ writeEvent) :
    (s.allocated fd port a readEvent writeEvent).Owned fd a
      ⟨true, readEvent, writeEvent, s.accepts⟩ := by
  refine ⟨?_, rfl, ?_, ?_⟩
  · rw [linksAt_allocated, if_pos rfl]
  · rw [sockets_allocated, if_pos rfl]
  · intro cb
    cases cb with
    | doRead => simp [Links.event, targetAt_allocated, hapart]
    | doWrite => simp [Links.event, targetAt_allocated]

theorem TableInv.allocated (hinv : s.TableInv) (hunused : s.Unused fd a readEvent writeEvent) :
    (s.allocated fd port a readEvent writeEvent).TableInv where
  owned := by
    intro fd' a' hmap'
    rw [fdMap_allocated] at hmap'
    by_cases hfd : fd' = fd
    · rw [if_pos hfd, Option.some.injEq] at hmap'
      subst hfd hmap'
      exact ⟨_, owned_allocated hunused.apart⟩
    · rw [if_neg hfd] at hmap'
      obtain ⟨l, hown⟩ := hinv.owned fd' a' hmap'
      exact ⟨l, hown.allocated hunused⟩
  mapped := by
    intro fd' conn hsocket'
    rw [sockets_allocated] at hsocket'
    rw [fdMap_allocated]
    split
    · simp
    · rename_i hfd
      rw [if_neg hfd] at hsocket'
      exact hinv.mapped fd' conn hsocket'
  pointed := by
    intro h fd' cb a' htarget
    rw [targetAt_allocated] at htarget
    by_cases hhwrite : h = writeEvent
    · rw [if_pos hhwrite, Option.some.injEq] at htarget
      simp only [Prod.mk.injEq] at htarget
      obtain ⟨rfl, rfl, rfl⟩ := htarget
      simp [fdMap_allocated, linksAt_allocated, Links.event, hhwrite]
    · rw [if_neg hhwrite] at htarget
      by_cases hhread : h = readEvent
      · rw [if_pos hhread, Option.some.injEq] at htarget
        simp only [Prod.mk.injEq] at htarget
        obtain ⟨rfl, rfl, rfl⟩ := htarget
        simp [fdMap_allocated, linksAt_allocated, Links.event, hhread]
      · rw [if_neg hhread] at htarget
        obtain ⟨hmap', hlinks'⟩ := hinv.pointed h fd' cb a' htarget
        obtain ⟨l, hown⟩ := hinv.owned fd' a' hmap'
        have hfd : fd' ≠ fd := by
          rintro rfl
          rw [hinv.unmapped hunused.socket] at hmap'
          simp at hmap'
        rw [fdMap_allocated, linksAt_allocated, if_neg hfd, if_neg (hunused.addr_ne hown)]
        exact ⟨hmap', hlinks'⟩
  active := by
    intro h hh
    obtain ⟨e, he, hadded⟩ := hinv.active h hh
    have htarget : s.targetAt h = some e.target := by rw [targetAt, he, Option.map_some]
    obtain ⟨hneRead, hneWrite⟩ := hunused.fresh htarget
    refine ⟨e, ?_, hadded⟩
    simpa [YYLibEvent.allocated, allocFdState, eventNew, setState, acceptSocket, hneRead, hneWrite]
      using he
  named := by
    intro e he
    rcases List.mem_append.mp he with he | he
    · exact hinv.named e he
    · rw [List.mem_singleton.mp he]
      simp [ConnEvent.conn]
  life := fun conn => (hinv.life conn).allocated hunused.socket

def accepted (s : YYLibEvent) (fd : Fd) (port : UInt32) (a : Addr)
    (readEvent writeEvent : EventAddr) : YYLibEvent :=
  { s.allocated fd port a readEvent writeEvent with
    events := Function.update (s.allocated fd port a readEvent writeEvent).events readEvent
      (some ⟨fd, .doRead, a, true⟩) }

theorem events_allocated_read (hapart : readEvent ≠ writeEvent) :
    (s.allocated fd port a readEvent writeEvent).events readEvent =
      some ⟨fd, .doRead, a, false⟩ := by
  simp [allocated, allocFdState, setState, eventNew, hapart]

theorem doAccept_eq (hapart : readEvent ≠ writeEvent) :
    ((s.acceptSocket fd).doAccept fd port a readEvent writeEvent).map
      (fun s => { s with accepts := s.accepts + 1 }) =
      .ok (s.accepted fd port a readEvent writeEvent) := by
  have hderef : ((s.acceptSocket fd).allocFdState fd port a readEvent writeEvent).deref a =
      .ok ⟨true, [], readEvent, writeEvent, port, s.accepts⟩ := by
    simp [deref, allocFdState, setState, eventNew, acceptSocket]
  have hread : ((s.acceptSocket fd).allocFdState fd port a readEvent writeEvent).events readEvent =
      some ⟨fd, .doRead, a, false⟩ := events_allocated_read hapart
  simp only [doAccept, hderef, bind, Except.bind]
  rw [eventAdd_eq hread]
  rfl

theorem accepted_same (hapart : readEvent ≠ writeEvent) :
    SameTable (s.allocated fd port a readEvent writeEvent)
      (s.accepted fd port a readEvent writeEvent) :=
  sameTable_eventAdd (events_allocated_read hapart)

end Accept

section Callbacks

variable {call : ReadCall} {result : SendResult} {item : QueueItem}

theorem Owned.deref (hown : s.Owned fd a l) : ∃ st, s.deref a = .ok st ∧ s.heap a = some st ∧
    st.links = l := by
  obtain ⟨st, hst, hlinks⟩ := Option.map_eq_some_iff.mp hown.live
  exact ⟨st, by rw [YYLibEvent.deref, hst], hst, hlinks⟩

theorem Owned.writeEvent (hown : s.Owned fd a l) (hlinks : st.links = l) :
    ∃ e, s.events st.writeEvent = some e := by
  rw [show st.writeEvent = l.event .doWrite from congrArg Links.writeEvent hlinks]
  obtain ⟨e, he, -⟩ := Option.map_eq_some_iff.mp (hown.event .doWrite)
  exact ⟨e, he⟩

theorem freeFdState_keeps (hinv : s.TableInv) (hmap : s.fdMap.getState fd = some a)
    (hown : s.Owned fd a l) : Keeps (s.freeFdState fd a) :=
  ⟨_, freeFdState_eq hown, hinv.freed hmap hown⟩

theorem readTurns_keeps (hinv : s.TableInv) (hmap : s.fdMap.getState fd = some a)
    (hown : s.Owned fd a l) (readbuffer : Option Bytes) (chunks : List Chunk) (stop : RecvStop) :
    Keeps (s.readTurns fd a readbuffer chunks stop) := by
  obtain ⟨st, hderef, -, -⟩ := hown.deref
  induction chunks generalizing readbuffer with
  | cons chunk chunks ih =>
      simp only [readTurns, hderef, bind, Except.bind]
      exact ih _
  | nil =>
      cases stop with
      | again =>
          simp only [readTurns, hderef, bind, Except.bind]
          cases readbuffer with
          | none => exact ⟨s, rfl, hinv⟩
          | some data =>
              exact ⟨_, rfl, hinv.of_same ⟨rfl, rfl, rfl, fun h => h, rfl, rfl, rfl⟩⟩
      | shutdown =>
          simp only [readTurns, hderef, bind, Except.bind]
          exact freeFdState_keeps hinv hmap hown
      | failed =>
          simp only [readTurns, hderef, bind, Except.bind]
          exact freeFdState_keeps hinv hmap hown

theorem doRead_keeps (hinv : s.TableInv) (hmap : s.fdMap.getState fd = some a)
    (hown : s.Owned fd a l) : Keeps (s.doRead fd a call) := by
  obtain ⟨st, hderef, -, -⟩ := hown.deref
  simp only [doRead, hderef, bind, Except.bind]
  split
  · exact readTurns_keeps hinv hmap hown none call.chunks call.stop
  · exact ⟨s, rfl, hinv⟩

inductive Wrote (s : YYLibEvent) (fd : Fd) (a : Addr) (st : FdObject) (e : EventObject) :
    SendResult → YYLibEvent → Prop where
  | idle (result : SendResult) (hsz : st.sz ≤ 0) : Wrote s fd a st e result
      { s with
        events := Function.update s.events st.writeEvent (some { e with added := false })
        active := s.active.filter (· ≠ st.writeEvent) }
  | again (hsz : 0 < st.sz) : Wrote s fd a st e .again s
  | freed (result : SendResult) (hsz : 0 < st.sz) (hresult : result = .failed ∨ result = .sent 0) :
      Wrote s fd a st e result (s.freed fd a st.links)
  | all (n : Nat) (hpos : 0 < n) (hall : (n : Int) = st.sz) : Wrote s fd a st e (.sent n)
      { s.setState a { st with writebuffer := [] } with
        events := Function.update s.events st.writeEvent (some { e with added := false })
        active := s.active.filter (· ≠ st.writeEvent) }
  | part (n : Nat) (hsz : 0 < st.sz) (hpos : 0 < n) (hpart : (n : Int) ≠ st.sz) :
      Wrote s fd a st e (.sent n)
        (s.setState a { st with writebuffer := st.writebuffer.drop st.sz.toNat })

theorem doWrite_wrote {e : EventObject} (hown : s.Owned fd a st.links) (hst : s.heap a = some st)
    (he : s.events st.writeEvent = some e) (result : SendResult) :
    ∃ t, s.doWrite fd a result = .ok t ∧ Wrote s fd a st e result t := by
  have hset : ¬ st.libevent = false := by
    rw [Bool.not_eq_false]
    exact hown.libevent
  have hderef : s.deref a = .ok st := by rw [deref, hst]
  simp only [doWrite, hderef, bind, Except.bind, if_neg hset]
  by_cases hsz : st.sz ≤ 0
  · rw [if_pos hsz]
    exact ⟨_, eventDel_eq he, .idle result hsz⟩
  · rw [if_neg hsz]
    rw [not_le] at hsz
    split
    · exact ⟨s, rfl, .again hsz⟩
    · exact ⟨_, freeFdState_eq hown, .freed .failed hsz (.inl rfl)⟩
    · exact ⟨_, freeFdState_eq hown, .freed (.sent 0) hsz (.inr rfl)⟩
    · rename_i n hn
      have hpos : 0 < n := Nat.pos_of_ne_zero fun hzero => hn hzero
      by_cases hall : (n : Int) = st.sz
      · rw [if_pos hall]
        exact ⟨_, eventDel_eq (s := s.setState a { st with writebuffer := [] }) he,
          .all n hpos hall⟩
      · rw [if_neg hall]
        exact ⟨_, rfl, .part n hsz hpos hall⟩

theorem doWrite_keeps (hinv : s.TableInv) (hmap : s.fdMap.getState fd = some a)
    (hown : s.Owned fd a l) : Keeps (s.doWrite fd a result) := by
  obtain ⟨st, -, hst, rfl⟩ := hown.deref
  obtain ⟨e, he⟩ := hown.writeEvent rfl
  obtain ⟨t, ht, hwrote⟩ := doWrite_wrote hown hst he result
  refine ⟨t, ht, ?_⟩
  cases hwrote with
  | idle _ hsz => exact hinv.of_same (sameTable_eventDel he)
  | again hsz => exact hinv
  | freed _ hsz hresult => exact hinv.freed hmap hown
  | all n hpos hall =>
      have hsame : SameTable s (s.setState a { st with writebuffer := [] }) :=
        sameTable_setState hst rfl
      exact hinv.of_same (hsame.trans (sameTable_eventDel he))
  | part n hsz hpos hpart =>
      refine hinv.of_same (sameTable_setState hst ?_)
      simp only [FdObject.links]

def appended (s : YYLibEvent) (a : Addr) (st : FdObject) (e : EventObject) (buf : Bytes) :
    YYLibEvent :=
  { s.setState a { st with writebuffer := st.writebuffer ++ buf } with
    events := Function.update s.events st.writeEvent (some { e with added := true }) }

inductive Queued (s : YYLibEvent) (item : QueueItem) : YYLibEvent → Prop where
  | unmapped (hmap : s.fdMap.getState item.fd = none) : Queued s item s
  | closed (a : Addr) (l : Links) (hmap : s.fdMap.getState item.fd = some a)
      (hown : s.Owned item.fd a l) (hbuf : item.buf = []) : Queued s item (s.freed item.fd a l)
  | appended (a : Addr) (st : FdObject) (e : EventObject)
      (hmap : s.fdMap.getState item.fd = some a) (hown : s.Owned item.fd a st.links)
      (hst : s.heap a = some st) (he : s.events st.writeEvent = some e) (hbuf : item.buf ≠ []) :
      Queued s item (s.appended a st e item.buf)

theorem queueReceive_queued (hinv : s.TableInv) (item : QueueItem) :
    ∃ t, s.queueReceive item = .ok t ∧ Queued s item t := by
  rw [queueReceive]
  cases hmap : s.fdMap.getState item.fd with
  | none => exact ⟨s, rfl, .unmapped hmap⟩
  | some a =>
      obtain ⟨l, hown⟩ := hinv.owned item.fd a hmap
      obtain ⟨st, hderef, hst, rfl⟩ := hown.deref
      have hlibevent : st.libevent = true := hown.libevent
      obtain ⟨e, he⟩ := hown.writeEvent rfl
      simp only [hderef, bind, Except.bind, if_pos hlibevent]
      by_cases hbuf : item.buf = []
      · rw [if_pos hbuf]
        exact ⟨_, freeFdState_eq hown, .closed a st.links hmap hown hbuf⟩
      · rw [if_neg hbuf]
        exact ⟨_, eventAdd_eq (s := s.setState a
          { st with writebuffer := st.writebuffer ++ item.buf }) he,
          .appended a st e hmap hown hst he hbuf⟩

theorem queueReceive_keeps (hinv : s.TableInv) : Keeps (s.queueReceive item) := by
  obtain ⟨t, ht, hqueued⟩ := queueReceive_queued hinv item
  refine ⟨t, ht, ?_⟩
  cases hqueued with
  | unmapped hmap => exact hinv
  | closed a l hmap hown hbuf => exact hinv.freed hmap hown
  | appended a st e hmap hown hst he hbuf =>
      have hsame : SameTable s
          (s.setState a { st with writebuffer := st.writebuffer ++ item.buf }) :=
        sameTable_setState hst rfl
      exact hinv.of_same (hsame.trans (sameTable_eventAdd he))

theorem TableInv.due (hinv : s.TableInv) (hactive : h ∈ s.active) :
    ∃ e l, s.events h = some e ∧ e.added = true ∧ s.fdMap.getState e.fd = some e.arg ∧
      s.Owned e.fd e.arg l ∧ l.event e.callback = h := by
  obtain ⟨e, he, hadded⟩ := hinv.active h hactive
  have htarget : s.targetAt h = some e.target := by rw [targetAt, he, Option.map_some]
  obtain ⟨hmap, hlinks⟩ := hinv.pointed h e.fd e.callback e.arg htarget
  obtain ⟨l, hown⟩ := hinv.owned e.fd e.arg hmap
  exact ⟨e, l, he, hadded, hmap, hown, hlinks l hown.live⟩

theorem sameTable_called (s : YYLibEvent) (h : EventAddr) :
    SameTable s { s with active := s.active.filter (· ≠ h) } :=
  ⟨rfl, rfl, rfl, fun hs k hk => hs k (List.mem_filter.mp hk).1, rfl, rfl, rfl⟩

theorem runCallback_keeps (hinv : s.TableInv) (hactive : h ∈ s.active) :
    Keeps (s.runCallback h call result) := by
  obtain ⟨e, l, he, -, hmap, hown, -⟩ := hinv.due hactive
  have hsame := sameTable_called s h
  have hinv' := hinv.of_same hsame
  have hown' := hown.of_same hsame
  unfold runCallback
  rw [he]
  dsimp only
  cases e.callback with
  | doRead => exact doRead_keeps hinv' hmap hown'
  | doWrite => exact doWrite_keeps hinv' hmap hown'

/-- No step that can be taken ends in a fault, and each keeps the table in order. -/
theorem act_keeps (hinv : s.TableInv) {action : LoopAction} {r : Except MemFault YYLibEvent}
    (h : s.act action = some r) : Keeps r := by
  cases action with
  | accept fd port a readEvent writeEvent =>
      cases fd with
      | none =>
          simp only [act, Option.some.injEq] at h
          exact ⟨s, h.symm, hinv⟩
      | some fd =>
          simp only [act, Option.ite_none_right_eq_some, Option.some.injEq] at h
          obtain ⟨⟨hsocket, hlive, hread, hwrite, hapart⟩, rfl⟩ := h
          have hunused : s.Unused fd a readEvent writeEvent :=
            ⟨hsocket, hlive, hread, hwrite, hapart⟩
          exact ⟨_, doAccept_eq hapart, (hinv.allocated hunused).of_same (accepted_same hapart)⟩
  | ready h' =>
      simp only [act] at h
      split at h
      · simp at h
      · rename_i e he
        simp only [Option.ite_none_right_eq_some, Option.some.injEq] at h
        obtain ⟨hadded, rfl⟩ := h
        refine ⟨_, rfl, hinv.of_same ⟨rfl, rfl, rfl, ?_, rfl, rfl, rfl⟩⟩
        intro hs k hk
        rcases List.mem_append.mp hk with hk | hk
        · exact hs k hk
        · rw [List.mem_singleton.mp hk]
          exact ⟨e, he, hadded.1⟩
  | callback h' call result =>
      simp only [act, Option.ite_none_right_eq_some, Option.some.injEq] at h
      obtain ⟨hactive, rfl⟩ := h
      exact runCallback_keeps hinv hactive
  | queue item =>
      simp only [act, Option.some.injEq] at h
      rw [← h]
      exact queueReceive_keeps hinv

/-- What an action of the loop thread does, where no pointer is stale. -/
inductive Acted (s : YYLibEvent) : LoopAction → YYLibEvent → Prop where
  | nothing (port : UInt32) (a : Addr) (readEvent writeEvent : EventAddr) :
      Acted s (.accept none port a readEvent writeEvent) s
  | accept (fd : Fd) (port : UInt32) (a : Addr) (readEvent writeEvent : EventAddr)
      (hunused : s.Unused fd a readEvent writeEvent) :
      Acted s (.accept (some fd) port a readEvent writeEvent)
        (s.accepted fd port a readEvent writeEvent)
  | ready (h : EventAddr) : Acted s (.ready h) { s with active := s.active ++ [h] }
  | read (h : EventAddr) (call : ReadCall) (result : SendResult) (e : EventObject) (l : Links)
      {t : YYLibEvent} (he : s.events h = some e) (hcallback : e.callback = .doRead)
      (hmap : s.fdMap.getState e.fd = some e.arg) (hown : s.Owned e.fd e.arg l)
      (hr : doRead { s with active := s.active.filter (· ≠ h) } e.fd e.arg call = .ok t) :
      Acted s (.callback h call result) t
  | write (h : EventAddr) (call : ReadCall) (result : SendResult) (e : EventObject) (l : Links)
      {t : YYLibEvent} (he : s.events h = some e) (hcallback : e.callback = .doWrite)
      (hadded : e.added = true) (hmap : s.fdMap.getState e.fd = some e.arg)
      (hown : s.Owned e.fd e.arg l) (hevent : l.event .doWrite = h)
      (hr : doWrite { s with active := s.active.filter (· ≠ h) } e.fd e.arg result = .ok t) :
      Acted s (.callback h call result) t
  | queue (item : QueueItem) {t : YYLibEvent} (hr : s.queueReceive item = .ok t) :
      Acted s (.queue item) t

theorem act_cases (hinv : s.TableInv) {action : LoopAction}
    (hact : s.act action = some (.ok t)) : Acted s action t := by
  cases action with
  | accept fd port a readEvent writeEvent =>
      cases fd with
      | none =>
          rw [act, Option.some.injEq, Except.ok.injEq] at hact
          rw [← hact]
          exact .nothing port a readEvent writeEvent
      | some fd =>
          rw [act, Option.ite_none_right_eq_some, Option.some.injEq] at hact
          obtain ⟨⟨hsocket, hlive, hread, hwrite, hapart⟩, hr⟩ := hact
          rw [doAccept_eq hapart, Except.ok.injEq] at hr
          rw [← hr]
          exact .accept fd port a readEvent writeEvent ⟨hsocket, hlive, hread, hwrite, hapart⟩
  | ready h =>
      rw [act] at hact
      split at hact
      · cases hact
      · rw [Option.ite_none_right_eq_some, Option.some.injEq, Except.ok.injEq] at hact
        rw [← hact.2]
        exact .ready h
  | callback h call result =>
      rw [act, Option.ite_none_right_eq_some, Option.some.injEq] at hact
      obtain ⟨hactive, hr⟩ := hact
      obtain ⟨e, l, he, hadded, hmap, hown, hevent⟩ := hinv.due hactive
      rw [runCallback, he] at hr
      dsimp only at hr
      cases hcallback : e.callback with
      | doRead =>
          rw [hcallback] at hr
          exact .read h call result e l he hcallback hmap hown hr
      | doWrite =>
          rw [hcallback] at hr hevent
          exact .write h call result e l he hcallback hadded hmap hown hevent hr
  | queue item =>
      rw [act, Option.some.injEq] at hact
      exact .queue item hact

end Callbacks

section Lifecycle

theorem tableInv_init : init.TableInv where
  owned := by simp [init]
  mapped := by simp [init]
  pointed := by simp [init, targetAt]
  active := by simp [init]
  named := by simp [init]
  life := fun conn => .future (Nat.zero_le conn) (by simp [init]) rfl

theorem step_of_act {action : LoopAction} (hact : s.act action = some (.ok t)) :
    loopThread.step s action = some t := by
  change (s.act action).bind Except.toOption = some t
  rw [hact]
  rfl

theorem act_of_step (hinv : s.TableInv) {action : LoopAction}
    (hstep : loopThread.step s action = some t) : s.act action = some (.ok t) ∧ t.TableInv := by
  obtain ⟨r, hact, hr⟩ := Option.bind_eq_some_iff.mp hstep
  obtain ⟨t', rfl, hinv'⟩ := act_keeps hinv hact
  rw [Except.toOption, Option.some.injEq] at hr
  subst hr
  exact ⟨hact, hinv'⟩

theorem reachable_tableInv (h : loopThread.Reachable (fun _ _ => True) s) : s.TableInv := by
  refine h.invariant TableInv tableInv_init ?_
  rintro s action t hinv - hstep
  exact (act_of_step hinv hstep).2

/-- `accept` has returned the descriptor, and the socket has not been closed since. -/
def NotYetClosed (log : List ConnEvent) (fd : Fd) : Prop :=
  ∃ conn, .accepted fd conn ∈ log ∧ .closeSocket fd (some conn) ∉ log

/-- The table has the open sockets, each with an `fd_state` of its own that is alive; and a
connection goes through `fd_close`, `closesocket` and `delete` in this order, or through none
of them. -/
structure TableSound (s : YYLibEvent) : Prop where
  keys : ∀ fd, s.fdMap.getState fd ≠ none ↔ NotYetClosed s.log fd
  own : ∀ fd a, s.fdMap.getState fd = some a → ∃ st, s.heap a = some st ∧
    .accepted fd st.conn ∈ s.log ∧ .freed st.conn ∉ s.log
  apart : ∀ fd fd' a, s.fdMap.getState fd = some a → s.fdMap.getState fd' = some a → fd = fd'
  lifecycle : ∀ conn, history conn s.log = [] ∨ ∃ fd,
    history conn s.log = [.accepted fd conn] ∨ history conn s.log = finished fd conn
  named : ∀ e ∈ s.log, e.conn ≠ none

theorem mem_history (conn : Nat) {log : List ConnEvent} {e : ConnEvent} (h : e.conn = some conn) :
    e ∈ history conn log ↔ e ∈ log := by
  simp [history, h]

theorem Owned.running (hinv : s.TableInv) (hown : s.Owned fd a l) :
    history l.conn s.log = [.accepted fd l.conn] := by
  cases hinv.life l.conn with
  | future _ hsocket _ => exact absurd hown.socket (hsocket fd)
  | ended _ _ hsocket _ => exact absurd hown.socket (hsocket fd)
  | running fd' _ _ honly hlog =>
      rw [honly fd hown.socket]
      exact hlog

theorem Owned.notYetClosed (hinv : s.TableInv) (hown : s.Owned fd a l) : NotYetClosed s.log fd := by
  have hlog := hown.running hinv
  refine ⟨l.conn, ?_, ?_⟩
  · rw [← mem_history l.conn rfl, hlog]
    simp
  · rw [← mem_history l.conn rfl, hlog]
    simp

theorem NotYetClosed.mapped (hinv : s.TableInv) (h : NotYetClosed s.log fd) :
    s.fdMap.getState fd ≠ none := by
  obtain ⟨conn, haccepted, hclosed⟩ := h
  rw [← mem_history conn rfl] at haccepted hclosed
  cases hinv.life conn with
  | future _ _ hlog => simp [hlog] at haccepted
  | running fd' _ hsocket _ hlog =>
      simp only [hlog, List.mem_singleton, ConnEvent.accepted.injEq, and_true] at haccepted
      rw [haccepted]
      exact hinv.mapped fd' conn hsocket
  | ended fd' _ _ hlog =>
      simp only [hlog, finished, List.mem_cons, ConnEvent.accepted.injEq, and_true, reduceCtorEq,
        List.not_mem_nil, or_false] at haccepted
      rw [hlog, haccepted] at hclosed
      simp [finished] at hclosed

theorem TableInv.sound (hinv : s.TableInv) : s.TableSound where
  keys := by
    intro fd
    constructor
    · intro hsome
      obtain ⟨a, ha⟩ := Option.ne_none_iff_exists'.mp hsome
      obtain ⟨l, hown⟩ := hinv.owned fd a ha
      exact hown.notYetClosed hinv
    · exact fun h => h.mapped hinv
  own := by
    intro fd a hmap
    obtain ⟨l, hown⟩ := hinv.owned fd a hmap
    obtain ⟨st, -, hst, rfl⟩ := hown.deref
    have hlog : history st.conn s.log = [.accepted fd st.conn] := hown.running hinv
    refine ⟨st, hst, ?_, ?_⟩
    · rw [← mem_history st.conn rfl, hlog]
      simp
    · rw [← mem_history st.conn rfl, hlog]
      simp
  apart := by
    intro fd fd' a hmap hmap'
    obtain ⟨l, hown⟩ := hinv.owned fd a hmap
    obtain ⟨l', hown'⟩ := hinv.owned fd' a hmap'
    exact hown.addr_inj hown'
  lifecycle := by
    intro conn
    cases hinv.life conn with
    | future _ _ hlog => exact Or.inl hlog
    | running fd _ _ _ hlog => exact Or.inr ⟨fd, Or.inl hlog⟩
    | ended fd _ _ hlog => exact Or.inr ⟨fd, Or.inr hlog⟩
  named := hinv.named

/-- In every state that the callbacks can lead to, the table is sound, and no callback goes
through a pointer to what has been freed. -/
theorem connection_table_sound (s : YYLibEvent)
    (h : loopThread.Reachable (fun _ _ => True) s) :
    s.TableSound ∧ ∀ action r, s.act action = some r → ∃ t, r = .ok t := by
  have hinv := reachable_tableInv h
  refine ⟨hinv.sound, ?_⟩
  intro action r hact
  obtain ⟨t, ht, -⟩ := act_keeps hinv hact
  exact ⟨t, ht⟩

/-- Both events of a connection are due when its peer has gone; the descriptor and the
memory are used again, and the next connection is asked to be closed twice. -/
def reuseFive : List LoopAction :=
  [.accept (some 5) 6789 1 2 3, .queue ⟨5, [1]⟩, .ready 2, .ready 3,
    .callback 2 ⟨[], .shutdown⟩ .again, .accept (some 5) 6789 1 3 2, .queue ⟨5, []⟩,
    .queue ⟨5, []⟩]

theorem connection_table_sound_reuse :
    ∃ s, loopThread.run reuseFive init = some s ∧ s.log = finished 5 0 ++ finished 5 1 ∧
      s.TableSound := by
  have hrun : (loopThread.run reuseFive init).map log = some (finished 5 0 ++ finished 5 1) := by
    decide +kernel
  obtain ⟨s, hs, hlog⟩ := Option.map_eq_some_iff.mp hrun
  exact ⟨s, hs, hlog, (connection_table_sound s (.of_run .init hs)).1⟩

end Lifecycle

end YYLibEvent

end MmsSvr
