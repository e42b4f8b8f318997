import MmsSvr.ReaderRefines

/-!
What comes out of `redisReplyReaderGetReply` over a whole stream, and what is lost of it nowhere.
-/

namespace MmsSvr.Hiredis

open Lib
open RedisReader

section Loop

variable {machine : Machine}

/-- What the loop of `redisReplyReaderGetReply` comes to, where `buf` is the buffer, and `means` is
what the bytes at hand and those to come mean. -/
inductive Came (machine : Machine) (buf : Bytes) (means : Bytes → ReplyParsed Reply) :
    Except ReaderAbort RedisReader → Prop
  | unfit {x} (h : ∀ y, means y = .bad .unfit) : Came machine buf means x
  | outOfMemory (h : ∀ y, means y = .bad .outOfMemory) : Came machine buf means (.error .outOfMemory)
  | refused {r : RedisReader} {text : Bytes} (ridx : r.ridx = -1) (error : r.error = some text)
      (h : ∀ y, means y = .bad (.protocol text)) : Came machine buf means (.ok r)
  | waits {r : RedisReader} {fs : List Frame} {type : Option ReplyType} (same : r.buf = buf)
      (reading : Reading r fs type) (h : ∀ y, means y = meaning machine fs type (r.unread ++ y))
      (more : means [] = .more) : Came machine buf means (.ok r)
  | done {r : RedisReader} {p : Nat} {reply : Reply} (same : r.buf = buf) (sound : Sound r)
      (ridx : r.ridx = -1) (root : r.reply = some p) (tree : readObject r.heap 9 p = some reply)
      (h : ∀ y, means y = .ok reply (r.unread ++ y)) : Came machine buf means (.ok r)

theorem processItems_came {r : RedisReader} {fs : List Frame} {type : Option ReplyType}
    {means : Bytes → ReplyParsed Reply} {fuel : Nat} (hr : Reading r fs type)
    (hmeans : ∀ y, means y = meaning machine fs type (r.unread ++ y))
    (hfuel : r.unread.length < fuel) : Came machine r.buf means (processItems machine fuel r) := by
  induction fuel generalizing r fs type with
  | zero => exact absurd hfuel (Nat.not_lt_zero _)
  | succ fuel ih =>
      have hridx : 0 ≤ r.ridx := by
        obtain ⟨cur, hplaced, -⟩ := hr
        rw [hplaced.ridx]
        exact Int.natCast_nonneg _
      have hfollowed := processItem_followed machine hr
      rw [processItems, if_pos hridx]
      cases hitem : r.processItem machine with
      | error e =>
          rw [hitem] at hfollowed
          cases hfollowed with
          | unfit h => exact .unfit fun y => (hmeans y).trans (h y)
          | outOfMemory h => exact .outOfMemory fun y => (hmeans y).trans (h y)
      | ok x =>
          obtain ⟨r', goes⟩ := x
          rw [hitem] at hfollowed
          cases hfollowed with
          | unfit h => exact .unfit fun y => (hmeans y).trans (h y)
          | refused ridx error h => exact .refused ridx error fun y => (hmeans y).trans (h y)
          | waits same reading h more =>
              have hnil := hmeans []
              rw [List.append_nil] at hnil
              exact .waits same reading (fun y => (hmeans y).trans (h y)) (hnil.trans more)
          | goes same sound moved h less =>
              dsimp only
              cases moved with
              | done ridx root tree meansDone =>
                  subst meansDone
                  cases fuel with
                  | zero => omega
                  | succ fuel =>
                      rw [processItems, if_neg (by rw [ridx]; decide)]
                      exact .done same sound ridx root tree fun y => (hmeans y).trans (h y)
              | next fs' cur ridx depth linked current htype meansNext =>
                  subst meansNext
                  rw [← same]
                  apply ih ⟨cur, ⟨sound, ridx, depth, linked, current⟩, htype, nofun⟩
                  · exact fun y => (hmeans y).trans (h y)
                  · omega

end Loop

section Call

variable (machine : Machine)

/-- Between two calls: the bytes of `pending` are what has come of a reply that is not finished. -/
inductive Holds (r : RedisReader) (pending : Bytes) : Prop
  | idle (sound : Sound r) (ridx : r.ridx = -1) (root : r.reply = none)
      (unread : r.unread = pending)
  | reading {fs : List Frame} {type : Option ReplyType} (reading : Reading r fs type)
      (h : ∀ y, parseReply machine (pending ++ y) = meaning machine fs type (r.unread ++ y))

/-- What a call of `redisReplyReaderGetReply` comes to; the buffer does not grow. -/
inductive Answered (limit : Nat) (pending : Bytes) :
    Except ReaderAbort (RedisReader × Option Nat × Bool) → Prop
  | unfit {x} (h : parseReply machine pending = .bad .unfit) : Answered limit pending x
  | outOfMemory (h : parseReply machine pending = .bad .outOfMemory) :
      Answered limit pending (.error .outOfMemory)
  | refused {r : RedisReader} {text : Bytes} (error : r.error = some text)
      (h : parseReply machine pending = .bad (.protocol text)) :
      Answered limit pending (.ok (r, none, false))
  | waits {r : RedisReader} (short : r.len ≤ limit) (h : parseReply machine pending = .more)
      (holds : Holds machine r pending) : Answered limit pending (.ok (r, none, true))
  | replies {r : RedisReader} {p : Nat} {reply : Reply} {rest : Bytes} (short : r.len ≤ limit)
      (h : parseReply machine pending = .ok reply rest)
      (tree : readObject r.heap 9 p = some reply) (holds : Holds machine r rest) :
      Answered limit pending (.ok (r, some p, true))

variable {machine} {r : RedisReader} {pending : Bytes}

theorem sound_discard (h : Sound r) : Sound r.discard := by
  have hroom := h.room
  rw [RedisReader.discard]
  split
  · constructor
    · exact h.places
    · exact Nat.zero_le _
    · dsimp only
      rw [List.length_drop]
      omega
    · exact h.fine
  · exact h

theorem len_discard (r : RedisReader) : r.discard.len ≤ r.len := by
  rw [RedisReader.discard]
  split
  · rw [len, len, List.length_drop]
    exact Nat.sub_le _ _
  · exact Nat.le_refl _

theorem unread_discard (r : RedisReader) : r.discard.unread = r.unread := by
  rw [RedisReader.discard]
  split
  · rfl
  · rfl

theorem discard_fields (r : RedisReader) :
    r.discard.ridx = r.ridx ∧ r.discard.error = r.error ∧ r.discard.reply = r.reply ∧
      r.discard.heap = r.heap ∧ r.discard.rstack = r.rstack := by
  rw [RedisReader.discard]
  split
  · exact ⟨rfl, rfl, rfl, rfl, rfl⟩
  · exact ⟨rfl, rfl, rfl, rfl, rfl⟩

theorem reading_discard {fs : List Frame} {type : Option ReplyType} (h : Reading r fs type) :
    Reading r.discard fs type := by
  obtain ⟨hridx, -, hreply, hheap, hrstack⟩ := discard_fields r
  obtain ⟨cur, hplaced, htype, hdeep⟩ := h
  refine ⟨cur, ⟨sound_discard hplaced.toSound, ?_, hplaced.depth, ?_, ?_⟩, htype, hdeep⟩
  · rw [hridx, hplaced.ridx]
  · rw [hreply, hheap, hrstack]
    exact hplaced.linked
  · rw [hrstack]
    exact hplaced.current

theorem startReply_reading (h : Sound r) (hridx : r.ridx = -1) (hroot : r.reply = none) :
    Reading r.startReply [] none ∧ r.startReply.unread = r.unread ∧ r.startReply.len = r.len := by
  have hplaces := h.places
  rw [startReply, if_pos hridx]
  refine ⟨⟨⟨none, -1, -1, none, none⟩, ⟨⟨?_, h.pos, h.room, h.fine⟩, rfl, Nat.zero_le _, hroot,
    ⟨?_, fun _ => rfl⟩⟩, rfl, nofun⟩, rfl, rfl⟩
  · dsimp only
    rw [List.length_set, hplaces]
  · exact List.getElem?_set_self (by omega)

theorem meaning_nil (b : Bytes) : meaning machine [] none b = parseReply machine b := by
  rw [meaning, parseReply]
  change (parse machine 8 b).bind (resume machine []) = parse machine 8 b
  cases parse machine 8 b with
  | more => rfl
  | bad e => rfl
  | ok reply rest => rfl

theorem holds_startReply (h : Holds machine r pending) : ∃ fs type,
    Reading r.startReply fs type ∧ r.startReply.len = r.len ∧
      ∀ y, parseReply machine (pending ++ y) = meaning machine fs type (r.startReply.unread ++ y) := by
  cases h with
  | idle sound ridx root unread =>
      obtain ⟨hreading, hunread, hlen⟩ := startReply_reading sound ridx root
      refine ⟨[], none, hreading, hlen, ?_⟩
      intro y
      rw [hunread, unread, meaning_nil]
  | @reading fs type reading h =>
      obtain ⟨cur, hplaced, -⟩ := id reading
      have hridx := hplaced.ridx
      have hstart : r.startReply = r := by
        rw [startReply, if_neg (by omega)]
      rw [hstart]
      exact ⟨fs, type, reading, rfl, h⟩

theorem parse_of_empty (h : Holds machine r pending) (hlen : r.len = 0) :
    parseReply machine pending = .more := by
  have hunread : r.unread = [] := by
    rw [unread, List.length_eq_zero_iff.mp hlen, List.drop_nil]
  cases h with
  | idle sound ridx root unread =>
      rw [← unread, hunread]
      rfl
  | @reading fs type reading h =>
      obtain ⟨cur, -, -, hdeep⟩ := reading
      have hnil := h []
      rw [List.append_nil, List.append_nil, hunread] at hnil
      rw [hnil]
      cases type with
      | none => rw [meaning, parse_eq_item, item, Parsed.bind_more]
      | some t =>
          rw [meaning]
          cases t with
          | array =>
              have hlt := hdeep rfl
              have hsucc : 8 - fs.length = 7 - fs.length + 1 := by omega
              rw [hsucc, elemParser]
              rfl
          | string => rfl
          | integer => rfl
          | status => rfl
          | error => rfl

theorem GetReply_answered (h : Holds machine r pending) :
    Answered machine r.len pending (r.GetReply machine) := by
  by_cases hlen : r.len = 0
  · rw [GetReply, if_pos hlen]
    exact .waits (Nat.le_refl _) (parse_of_empty h hlen) h
  · obtain ⟨fs, type, hreading, hlen', hmeans⟩ := holds_startReply h
    have hfuel : r.startReply.unread.length < r.len + 1 := by
      rw [unread, List.length_drop]
      rw [len] at hlen'
      omega
    have hcame := processItems_came hreading hmeans hfuel
    have hshort : ∀ {r' : RedisReader}, r'.buf = r.startReply.buf → r'.discard.len ≤ r.len := by
      intro r' hbuf
      have hle := len_discard r'
      have hsame : r'.len = r.startReply.len := congrArg List.length hbuf
      omega
    have hzero : ∀ {x}, (∀ y, parseReply machine (pending ++ y) = x) →
        parseReply machine pending = x := by
      intro x hx
      have hnil := hx []
      rwa [List.append_nil] at hnil
    rw [GetReply, if_neg hlen]
    cases hitems : processItems machine (r.len + 1) r.startReply with
    | error e =>
        rw [hitems] at hcame
        cases hcame with
        | unfit h => exact .unfit (hzero h)
        | outOfMemory h => exact .outOfMemory (hzero h)
    | ok r' =>
        obtain ⟨hridx, herror, hreply, hheap, hrstack⟩ := discard_fields r'
        rw [hitems] at hcame
        dsimp only
        rw [hridx, herror, hreply]
        cases hcame with
        | unfit h => exact .unfit (hzero h)
        | refused ridx error h =>
            rw [if_pos ridx, error]
            exact .refused rfl (hzero h)
        | @waits r' fs type same reading h more =>
            obtain ⟨cur, hplaced, -⟩ := id reading
            have hridx' := hplaced.ridx
            rw [if_neg (by omega)]
            rw [List.append_nil] at more
            apply Answered.waits (hshort same) more
            apply Holds.reading (reading_discard reading)
            intro y
            rw [unread_discard]
            exact h y
        | done same sound ridx root tree h =>
            rw [if_pos ridx, sound.fine, root]
            have hnil := h []
            rw [List.append_nil, List.append_nil] at hnil
            have hsound := sound_discard sound
            refine .replies (hshort same) hnil ?_ (.idle ⟨hsound.places, hsound.pos, hsound.room, rfl⟩
              ridx rfl (unread_discard _))
            dsimp only
            rw [hheap]
            exact tree

end Call

section Run

/-- How a reader ends: it returns `REDIS_ERR` with a text, or the process ends with it. -/
inductive ReaderEnd where
  | error (text : Option Bytes)
  | abort (a : ReaderAbort)
deriving DecidableEq, Repr

def ReplyFault.shown : ReplyFault → ReaderEnd
  | .protocol text => .error (some text)
  | .outOfMemory => .abort .outOfMemory
  | .unfit => .abort .outside

/-- A reader, the replies that its calls have returned (`none` where one is not complete), and how it
has ended. -/
structure ReaderRun where
  reader : RedisReader
  out : List (Option Reply)
  failed : Option ReaderEnd

namespace ReaderRun

def init : ReaderRun := ⟨RedisReader.create, [], none⟩

variable (machine : Machine)

def get (s : ReaderRun) : ReaderRun :=
  match s.reader.GetReply machine with
  | .error a => { s with failed := some (.abort a) }
  | .ok (r, some p, _) => { s with reader := r, out := s.out ++ [readObject r.heap 9 p] }
  | .ok (r, none, true) => { s with reader := r }
  | .ok (r, none, false) => { s with reader := r, failed := some (.error r.error) }

def feed (s : ReaderRun) (piece : Bytes) : ReaderRun :=
  match s.reader.Feed piece with
  | .error a => { s with failed := some (.abort a) }
  | .ok r => { s with reader := r }

def step (s : ReaderRun) (a : BufferedAction UInt8) : ReaderRun :=
  match s.failed, a with
  | some _, _ => s
  | none, .feed piece => s.feed piece
  | none, .get => s.get machine

def run (as : List (BufferedAction UInt8)) : ReaderRun := as.foldl (step machine) init

end ReaderRun

variable {machine : Machine}

/-- The reader does what a buffer in front of the grammar would do; `n` bytes have been fed. -/
structure Mirrors (machine : Machine) (n : Nat) (s : ReaderRun) (b : Buffered ReplyFault UInt8 Reply) :
    Prop where
  out : s.out = b.out.map some
  failed : s.failed = b.failed.map ReplyFault.shown
  holds : s.failed = none → Holds machine s.reader b.pending
  short : s.failed = none → s.reader.len ≤ n

theorem Holds.feed {r r' : RedisReader} {pending piece : Bytes} (h : Holds machine r pending)
    (hfeed : r.Feed piece = .ok r') : Holds machine r' (pending ++ piece) := by
  rw [Feed] at hfeed
  split at hfeed
  · rename_i hroom
    rw [Except.ok.injEq] at hfeed
    have hsound : Sound r → Sound r' := by
      intro hr
      have hpos := hr.pos
      rw [← hfeed]
      constructor
      · exact hr.places
      · dsimp only
        rw [List.length_append]
        omega
      · dsimp only
        rw [List.length_append]
        exact hroom
      · exact hr.fine
    have hunread : Sound r → r'.unread = r.unread ++ piece := by
      intro hr
      rw [← hfeed]
      exact List.drop_append_of_le_length hr.pos
    cases h with
    | idle sound ridx root unread =>
        apply Holds.idle (hsound sound)
        · rw [← hfeed]
          exact ridx
        · rw [← hfeed]
          exact root
        · rw [hunread sound, unread]
    | @reading fs type reading h =>
        obtain ⟨cur, hplaced, htype, hdeep⟩ := reading
        have hunread' := hunread hplaced.toSound
        have hplaced' : Placed r' fs cur := by
          refine ⟨hsound hplaced.toSound, ?_, hplaced.depth, ?_, ?_⟩
          · rw [← hfeed]
            exact hplaced.ridx
          · rw [← hfeed]
            exact hplaced.linked
          · rw [← hfeed]
            exact hplaced.current
        apply Holds.reading ⟨cur, hplaced', htype, hdeep⟩
        intro y
        rw [hunread', List.append_assoc, List.append_assoc]
        exact h (piece ++ y)
  · exact nomatch hfeed

theorem mirrors_init : Mirrors machine 0 ReaderRun.init Buffered.init := by
  refine ⟨rfl, rfl, fun _ => .idle ⟨rfl, Nat.le_refl _, ?_, rfl⟩ rfl rfl rfl,
    fun _ => Nat.le_refl _⟩
  exact (by decide : 0 < 2 ^ 31)

variable {n : Nat} {s : ReaderRun} {b : Buffered ReplyFault UInt8 Reply}

theorem mirrors_feed (h : Mirrors machine n s b) (hs : s.failed = none) (hb : b.failed = none)
    {piece : Bytes} (hlen : n + piece.length < 2 ^ 31) :
    Mirrors machine (n + piece.length) (s.feed piece)
      { b with pending := b.pending ++ piece } := by
  have hshort := h.short hs
  have hfeed : s.reader.Feed piece = .ok { s.reader with buf := s.reader.buf ++ piece } := by
    rw [Feed, if_pos (by omega)]
  rw [ReaderRun.feed, hfeed]
  refine ⟨h.out, ?_, fun _ => (h.holds hs).feed hfeed, fun _ => ?_⟩
  · dsimp only
    rw [hs, hb]
    rfl
  · dsimp only
    rw [len] at hshort ⊢
    rw [List.length_append]
    omega

theorem mirrors_get (h : Mirrors machine n s b) (hs : s.failed = none) (hb : b.failed = none) :
    Mirrors machine n (s.get machine) (b.step (parseReply machine) .get) ∨
      (b.step (parseReply machine) .get).failed = some .unfit := by
  have hanswered := GetReply_answered (h.holds hs)
  have hshort := h.short hs
  rw [ReaderRun.get]
  generalize s.reader.GetReply machine = x at hanswered ⊢
  cases hanswered with
  | unfit hparse =>
      right
      rw [Buffered.step_get_of_bad hb hparse]
  | outOfMemory hparse =>
      left
      rw [Buffered.step_get_of_bad hb hparse]
      exact ⟨h.out, rfl, nofun, nofun⟩
  | refused error hparse =>
      left
      rw [Buffered.step_get_of_bad hb hparse]
      refine ⟨h.out, ?_, nofun, nofun⟩
      dsimp only
      rw [error]
      rfl
  | waits short hparse holds =>
      left
      rw [Buffered.step_get_of_more hb hparse]
      exact ⟨h.out, h.failed, fun _ => holds, fun _ => Nat.le_trans short hshort⟩
  | replies short hparse tree holds =>
      left
      rw [Buffered.step_get_of_ok hb hparse]
      refine ⟨?_, h.failed, fun _ => holds, fun _ => Nat.le_trans short hshort⟩
      dsimp only
      rw [tree, h.out, List.map_append]
      rfl

theorem mirrors_step (h : b.failed = some .unfit ∨ Mirrors machine n s b)
    (a : BufferedAction UInt8) (hlen : n + (Buffered.fed [a]).length < 2 ^ 31) :
    (b.step (parseReply machine) a).failed = some .unfit ∨
      Mirrors machine (n + (Buffered.fed [a]).length) (s.step machine a)
        (b.step (parseReply machine) a) := by
  rcases h with hb | h
  · left
    simp [Buffered.step, hb]
  · cases hb : b.failed with
    | some e =>
        have hs : s.failed = some e.shown := by
          rw [h.failed, hb]
          rfl
        have hstep : s.step machine a = s := by simp [ReaderRun.step, hs]
        have hstep' : b.step (parseReply machine) a = b := by simp [Buffered.step, hb]
        rw [hstep, hstep']
        have hshort : s.failed = none → s.reader.len ≤ n + (Buffered.fed [a]).length := by
          intro hnone
          exact absurd (hs.symm.trans hnone) (Option.some_ne_none _)
        exact .inr ⟨h.out, h.failed, h.holds, hshort⟩
    | none =>
        have hs : s.failed = none := by
          rw [h.failed, hb]
          rfl
        cases a with
        | feed piece =>
            have hfed : Buffered.fed [.feed piece] = piece := List.append_nil piece
            have hstep : s.step machine (.feed piece) = s.feed piece := by
              simp [ReaderRun.step, hs]
            have hstep' : b.step (parseReply machine) (.feed piece) =
                { b with pending := b.pending ++ piece } := by simp [Buffered.step, hb]
            rw [hfed] at hlen
            rw [hfed, hstep, hstep']
            exact .inr (mirrors_feed h hs hb hlen)
        | get =>
            have hstep : s.step machine .get = s.get machine := by simp [ReaderRun.step, hs]
            rw [hstep]
            exact (mirrors_get h hs hb).symm

/-- As long as less than two gigabytes have been fed, and no array has a count that is no `int`, the
reader does what the grammar says. -/
theorem mirrors_run (machine : Machine) (as : List (BufferedAction UInt8))
    (hlen : (Buffered.fed as).length < 2 ^ 31) :
    (as.foldl (Buffered.step (parseReply machine)) .init).failed = some .unfit ∨
      Mirrors machine (Buffered.fed as).length (ReaderRun.run machine as)
        (as.foldl (Buffered.step (parseReply machine)) .init) := by
  have hall : ∀ (n : Nat) (s : ReaderRun) (b : Buffered ReplyFault UInt8 Reply),
      n + (Buffered.fed as).length < 2 ^ 31 → b.failed = some .unfit ∨ Mirrors machine n s b →
        (as.foldl (Buffered.step (parseReply machine)) b).failed = some .unfit ∨
          Mirrors machine (n + (Buffered.fed as).length) (as.foldl (ReaderRun.step machine) s)
            (as.foldl (Buffered.step (parseReply machine)) b) := by
    clear hlen
    induction as with
    | nil => exact fun n s b _ h => h
    | cons a as ih =>
        intro n s b hlen h
        have hfed : (Buffered.fed (a :: as)).length =
            (Buffered.fed [a]).length + (Buffered.fed as).length := by
          rw [← List.length_append, ← Buffered.fed_append]
          rfl
        rw [hfed, ← Nat.add_assoc] at hlen ⊢
        exact ih _ _ _ hlen (mirrors_step h a (by omega))
  have hrun := hall 0 .init .init (by omega) (.inr mirrors_init)
  rw [Nat.zero_add] at hrun
  exact hrun

end Run

section Streams

open Buffered

variable {machine : Machine}

theorem stable_parseReply (machine : Machine) : Stable (parseReply machine) := stable_parse 8

theorem uses_parseReply (machine : Machine) : Uses (parseReply machine) := uses_parse 8

/-- In a stream without a count that is no `int` the reader is as the grammar says. -/
theorem mirrors_of_fit (machine : Machine) (as : List (BufferedAction UInt8))
    (hlen : (fed as).length < 2 ^ 31)
    (hfit : (items (parseReply machine) (fed as)).2 ≠ .error .unfit) :
    Mirrors machine (fed as).length (ReaderRun.run machine as)
      (as.foldl (Buffered.step (parseReply machine)) .init) := by
  rcases mirrors_run machine as hlen with hunfit | hmirrors
  · have hfuture := future_run (stable_parseReply machine) (uses_parseReply machine) as init []
    rw [List.append_nil, future, hunfit] at hfuture
    exact absurd (congrArg Prod.snd hfuture).symm hfit
  · exact hmirrors

theorem fed_append_tries (as : List (BufferedAction UInt8)) (n : Nat) :
    fed (as ++ tries n) = fed as := by
  rw [fed_append, fed_tries, List.append_nil]

/-- However the bytes are cut into pieces, and however the calls for a reply come between them: the
replies are those that the grammar finds in the stream, whole and in order, and the reader ends as
the grammar does, with the text of the error. -/
theorem GetReply_stream (machine : Machine) (as : List (BufferedAction UInt8)) (n : Nat)
    (hlen : (fed as).length < 2 ^ 31)
    (hfit : (items (parseReply machine) (fed as)).2 ≠ .error .unfit)
    (hn : (items (parseReply machine) (fed as)).1.length < n) :
    (ReaderRun.run machine (as ++ tries n)).out = (items (parseReply machine) (fed as)).1.map some ∧
      (ReaderRun.run machine (as ++ tries n)).failed =
        (endError (items (parseReply machine) (fed as)).2).map ReplyFault.shown := by
  obtain ⟨hout, hend⟩ := run_all (stable_parseReply machine) (uses_parseReply machine) as hn
  have hmirrors := mirrors_of_fit machine (as ++ tries n)
    (by rw [fed_append_tries]; exact hlen) (by rw [fed_append_tries]; exact hfit)
  rw [hmirrors.out, hmirrors.failed, hout, hend]
  exact ⟨rfl, rfl⟩

/-- Win32, with room for arrays of less than 100 elements. -/
def winMachine : Machine := ⟨32, by decide, fun n => n < 100⟩

/-- On Win32 a bulk of 2^32 bytes is taken for an empty one. -/
example :
    let s := ReaderRun.run winMachine [.feed (lit "$4294967296\r\n\r\n"), .get]
    s.reader.heap = [.string []] ∧ s.out.length = 1 := by
  decide +kernel

theorem items_encodeAll {rs : List Reply} (hrs : ∀ r ∈ rs, r.Fits machine 8) (tail : Bytes) :
    items (parseReply machine) (encodeAll rs ++ tail) =
      (rs ++ (items (parseReply machine) tail).1, (items (parseReply machine) tail).2) := by
  rw [encodeAll_eq_flatMap]
  exact items_flatMap (uses_parseReply machine) (fun r hr => reads_parse (hrs r hr)) tail

/-- Two replies, of which the first is cut in two. -/
theorem GetReply_stream_cut :
    (ReaderRun.run winMachine
        ([.feed (lit "+O"), .get, .feed (lit "K\r\n:7\r\n")] ++ tries 3)).out =
      [some (.status (lit "OK")), some (.integer 7)] := by
  have hnil : items (parseReply winMachine) [] = ([], .ok []) := items_of_more rfl
  have hfit : ∀ r ∈ [Reply.status (lit "OK"), .integer 7], r.Fits winMachine 8 := by
    intro r hr
    rcases List.mem_pair.mp hr with rfl | rfl
    · exact oneLine_of_no_cr (by decide +kernel)
    · exact (by decide : (7 : Int).natAbs < 2 ^ 63)
  have hfed : fed [.feed (lit "+O"), .get, .feed (lit "K\r\n:7\r\n")] =
      encodeAll [Reply.status (lit "OK"), .integer 7] ++ [] := by decide +kernel
  have hitems : items (parseReply winMachine)
      (fed [.feed (lit "+O"), .get, .feed (lit "K\r\n:7\r\n")]) =
        ([.status (lit "OK"), .integer 7], .ok []) := by
    rw [hfed, items_encodeAll hfit, hnil]
    rfl
  have hstream := GetReply_stream winMachine
    [.feed (lit "+O"), .get, .feed (lit "K\r\n:7\r\n")] 3 (by decide +kernel)
    (by rw [hitems]; exact nofun) (by rw [hitems]; decide)
  rw [hitems] at hstream
  exact hstream.1

theorem run_of_items {as : List (BufferedAction UInt8)} {rs : List Reply}
    {last : Except ReplyFault Bytes} (hlen : (fed as).length < 2 ^ 31)
    (hitems : items (parseReply machine) (fed as) = (rs, last)) (hlast : last ≠ .error .unfit) :
    Mirrors machine (fed as).length (ReaderRun.run machine (as ++ tries (rs.length + 1)))
        ((as ++ tries (rs.length + 1)).foldl (Buffered.step (parseReply machine)) .init) ∧
      ((as ++ tries (rs.length + 1)).foldl (Buffered.step (parseReply machine)) .init).out = rs ∧
      ((as ++ tries (rs.length + 1)).foldl (Buffered.step (parseReply machine)) .init).failed =
        endError last := by
  have hfed := fed_append_tries as (rs.length + 1)
  have hmirrors := mirrors_of_fit machine (as ++ tries (rs.length + 1))
  rw [hfed, hitems] at hmirrors
  have hall := run_all (stable_parseReply machine) (uses_parseReply machine) as
    (n := rs.length + 1)
  rw [hitems] at hall
  exact ⟨hmirrors hlen hlast, hall (Nat.lt_succ_self _)⟩

theorem items_of_fits {rs : List Reply} (hrs : ∀ r ∈ rs, r.Fits machine 8) :
    items (parseReply machine) (encodeAll rs) = (rs, .ok []) := by
  have hnil : items (parseReply machine) [] = ([], .ok []) := items_of_more rfl
  have hall := items_encodeAll hrs []
  rw [hnil, List.append_nil, List.append_nil] at hall
  exact hall

/-- Replies that redis encodes are read back, each once and in order. -/
theorem GetReply_encodeAll (machine : Machine) (rs : List Reply)
    (hrs : ∀ r ∈ rs, r.Fits machine 8)
    (as : List (BufferedAction UInt8)) (hfed : fed as = encodeAll rs)
    (hlen : (encodeAll rs).length < 2 ^ 31) :
    (ReaderRun.run machine (as ++ tries (rs.length + 1))).out = rs.map some ∧
      (ReaderRun.run machine (as ++ tries (rs.length + 1))).failed = none := by
  have hitems : items (parseReply machine) (fed as) = (rs, .ok []) := by
    rw [hfed]
    exact items_of_fits hrs
  obtain ⟨hmirrors, hout, hend⟩ := run_of_items (by rw [hfed]; exact hlen) hitems nofun
  rw [hmirrors.out, hmirrors.failed, hout, hend]
  exact ⟨rfl, rfl⟩

theorem GetReply_encodeAll_two :
    (ReaderRun.run winMachine
        ([.feed (encodeAll [.array [.string (lit "a"), .nil], .integer (-5)])] ++ tries 3)).out =
      [some (.array [.string (lit "a"), .nil]), some (.integer (-5))] := by
  refine (GetReply_encodeAll winMachine
    [.array [.string (lit "a"), .nil], .integer (-5)] ?_ _ rfl (by decide +kernel)).1
  intro r hr
  rcases List.mem_pair.mp hr with rfl | rfl
  · exact ⟨by decide, by decide, (by decide +kernel : (lit "a").length + 2 ≤ 2 ^ 31), trivial, trivial⟩
  · exact (by decide : (-5 : Int).natAbs < 2 ^ 63)

section Deep

theorem many_deep {p : Bytes → ReplyParsed Reply} {rs : List Reply} {fault : ReplyFault}
    {good : Reply → Prop} (hgood : ∀ r ∈ rs, good r → Reads p r.encode r)
    (hbad : ∀ r ∈ rs, ¬ good r → ∀ rest, p (r.encode ++ rest) = .bad fault)
    (hsome : ¬ ∀ r ∈ rs, good r) (rest : Bytes) :
    many p rs.length (encodeAll rs ++ rest) = .bad fault := by
  induction rs with
  | nil => exact absurd (fun r hr => absurd hr List.not_mem_nil) hsome
  | cons r rs ih =>
      rw [List.forall_mem_cons] at hgood hbad hsome
      rw [encodeAll, List.append_assoc, List.length_cons, many]
      by_cases hr : good r
      · rw [hgood.1 hr, Parsed.bind_ok, ih hgood.2 hbad.2 (fun hall => hsome ⟨hr, hall⟩)]
        rfl
      · rw [hbad.1 hr]
        rfl

theorem array_of_deep {n depth : Nat} {r : Reply} (hr : r.Fits machine n)
    (hdeep : ¬ r.Fits machine depth) : ∃ rs, r = .array rs := by
  cases r with
  | array rs => exact ⟨rs, rfl⟩
  | string str => exact absurd hr hdeep
  | integer v => exact absurd hr hdeep
  | nil => exact absurd trivial hdeep
  | status str => exact absurd hr hdeep
  | error str => exact absurd hr hdeep

theorem parse_deep {n depth : Nat} {r : Reply} (hr : r.Fits machine n)
    (hdeep : ¬ r.Fits machine depth) (rest : Bytes) :
    parse machine depth (r.encode ++ rest) = .bad (.protocol depthError) := by
  induction depth generalizing n r rest with
  | zero =>
      obtain ⟨rs, rfl⟩ := array_of_deep hr hdeep
      rw [Reply.encode]
      rfl
  | succ depth ih =>
      obtain ⟨rs, rfl⟩ := array_of_deep hr hdeep
      cases n with
      | zero => exact hr.elim
      | succ n =>
          obtain ⟨hlen, hcalloc, hall⟩ := hr
          rw [allFit_iff] at hall
          have hlt : rs.length < 2 ^ 63 := Nat.lt_trans hlen (by decide)
          have hsome : ¬ ∀ r ∈ rs, r.Fits machine depth := by
            intro hfits
            exact hdeep ⟨hlen, hcalloc, allFit_iff.mpr hfits⟩
          have hmany : many (parse machine depth) rs.length (encodeAll rs ++ rest) =
              .bad (.protocol depthError) :=
            many_deep (fun r _ hr => reads_parse hr) (fun r hr hbad => ih (hall r hr) hbad) hsome
              rest
          rw [Reply.encode, List.cons_append, List.append_assoc]
          change (line (decimal rs.length ++ crlf ++ (encodeAll rs ++ rest))).bind _ = _
          rw [reads_line (oneLine_decimal _), Parsed.bind_ok, lineValue_decimal hlt,
            counted_natCast _ hlen hcalloc, hmany]
          rfl

/-- A reply with arrays nine levels deep or more is refused, whatever comes behind it, after all that
came before it has been read. -/
theorem GetReply_deep (machine : Machine) (rs : List Reply)
    (hrs : ∀ r ∈ rs, r.Fits machine 8) (r : Reply) (n : Nat)
    (hr : r.Fits machine n) (hdeep : ¬ r.Fits machine 8) (tail : Bytes)
    (as : List (BufferedAction UInt8)) (hfed : fed as = encodeAll rs ++ (r.encode ++ tail))
    (hlen : (fed as).length < 2 ^ 31) :
    (ReaderRun.run machine (as ++ tries (rs.length + 1))).out = rs.map some ∧
      (ReaderRun.run machine (as ++ tries (rs.length + 1))).failed =
        some (.error (some depthError)) := by
  have hbad : items (parseReply machine) (r.encode ++ tail) = ([], .error (.protocol depthError)) :=
    items_of_bad (parse_deep hr hdeep tail)
  have hitems : items (parseReply machine) (fed as) = (rs, .error (.protocol depthError)) := by
    rw [hfed, items_encodeAll hrs, hbad, List.append_nil]
  obtain ⟨hmirrors, hout, hend⟩ := run_of_items hlen hitems nofun
  rw [hmirrors.out, hmirrors.failed, hout, hend]
  exact ⟨rfl, rfl⟩

def nested : Nat → Reply
  | 0 => .nil
  | n + 1 => .array [nested n]

theorem nested_fits (n : Nat) : (nested n).Fits winMachine n := by
  induction n with
  | zero => exact trivial
  | succ n ih =>
      exact ⟨(by decide : 1 < 2 ^ 31), (by decide : decide (1 < 100) = true), ih, trivial⟩

theorem nested_not_fits (n : Nat) : ¬ (nested (n + 1)).Fits winMachine n := by
  induction n with
  | zero => exact id
  | succ n ih =>
      rintro ⟨-, -, hfits, -⟩
      exact ih hfits

theorem GetReply_deep_nested :
    (ReaderRun.run winMachine
        ([.feed (encodeAll [.integer 1] ++ ((nested 9).encode ++ lit "+OK\r\n"))] ++ tries 2)).failed =
      some (.error (some depthError)) := by
  have hone : ∀ r ∈ [Reply.integer 1], r.Fits winMachine 8 := by
    intro r hr
    rw [List.mem_singleton.mp hr]
    exact (by decide : (1 : Int).natAbs < 2 ^ 63)
  exact (GetReply_deep _ [.integer 1] hone (nested 9) 9 (nested_fits 9) (nested_not_fits 8)
    (lit "+OK\r\n") [.feed (encodeAll [.integer 1] ++ ((nested 9).encode ++ lit "+OK\r\n"))]
    (List.append_nil _) (by decide +kernel)).2

end Deep

end Streams

end MmsSvr.Hiredis
