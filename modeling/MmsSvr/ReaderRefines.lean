import MmsSvr.RedisReply

/-!
The stack of the reply reader follows the grammar of replies, whatever pieces the bytes come in.
-/

namespace MmsSvr.Hiredis

open Lib

section Trees

/-- What the elements of an array are, if all of them are there. -/
def readElements (read : Nat → Option Reply) : List (Option Nat) → Option (List Reply)
  | [] => some []
  | none :: _ => none
  | some p :: es => (read p).bind fun r => (readElements read es).map (r :: ·)

/-- The reply that begins with an object, down to so many levels. -/
def readObject (heap : List RedisObject) : Nat → Nat → Option Reply
  | 0, _ => none
  | fuel + 1, p =>
      match heap[p]? with
      | none => none
      | some (.string str) => some (.string str)
      | some (.array element) => (readElements (readObject heap fuel) element).map .array
      | some (.integer v) => some (.integer v)
      | some .nil => some .nil
      | some (.status str) => some (.status str)
      | some (.error str) => some (.error str)

variable {read read' : Nat → Option Reply} {es es' : List (Option Nat)} {rs rs' : List Reply}

theorem readElements_append (h : readElements read es = some rs)
    (h' : readElements read es' = some rs') : readElements read (es ++ es') = some (rs ++ rs') := by
  induction es generalizing rs with
  | nil =>
      rw [readElements, Option.some.injEq] at h
      rw [← h]
      exact h'
  | cons e es ih =>
      cases e with
      | none => exact nomatch h
      | some p =>
          obtain ⟨r, hr, hmap⟩ := Option.bind_eq_some_iff.mp h
          obtain ⟨rs₀, hrs₀, rfl⟩ := Option.map_eq_some_iff.mp hmap
          rw [List.cons_append, readElements, hr, Option.bind_some, ih hrs₀]
          rfl

theorem readElements_singleton {p : Nat} {r : Reply} (h : read p = some r) :
    readElements read [some p] = some [r] := by
  rw [readElements, h]
  rfl

theorem length_readElements (h : readElements read es = some rs) : es.length = rs.length := by
  induction es generalizing rs with
  | nil =>
      rw [readElements, Option.some.injEq] at h
      rw [← h]
      rfl
  | cons e es ih =>
      cases e with
      | none => exact nomatch h
      | some p =>
          obtain ⟨r, hr, hmap⟩ := Option.bind_eq_some_iff.mp h
          obtain ⟨rs₀, hrs₀, rfl⟩ := Option.map_eq_some_iff.mp hmap
          rw [List.length_cons, List.length_cons, ih hrs₀]

theorem none_notMem_of_readElements (h : readElements read es = some rs) : none ∉ es := by
  induction es generalizing rs with
  | nil => exact List.not_mem_nil
  | cons e es ih =>
      cases e with
      | none => exact nomatch h
      | some p =>
          obtain ⟨r, hr, hmap⟩ := Option.bind_eq_some_iff.mp h
          obtain ⟨rs₀, hrs₀, rfl⟩ := Option.map_eq_some_iff.mp hmap
          rw [List.mem_cons, not_or]
          exact ⟨nofun, ih hrs₀⟩

theorem readElements_mono (hread : ∀ p r, read p = some r → read' p = some r)
    (h : readElements read es = some rs) : readElements read' es = some rs := by
  induction es generalizing rs with
  | nil => exact h
  | cons e es ih =>
      cases e with
      | none => exact nomatch h
      | some p =>
          obtain ⟨r, hr, hmap⟩ := Option.bind_eq_some_iff.mp h
          obtain ⟨rs₀, hrs₀, rfl⟩ := Option.map_eq_some_iff.mp hmap
          rw [readElements, hread p r hr, Option.bind_some, ih hrs₀]
          rfl

/-- What is complete in one heap is the same in the other. -/
def Keeps (heap heap' : List RedisObject) : Prop :=
  ∀ (p : Nat) (o : RedisObject), heap[p]? = some o →
    heap'[p]? = some o ∨ ∃ element, o = .array element ∧ none ∈ element

theorem Keeps.readObject {heap heap' : List RedisObject} (h : Keeps heap heap') {fuel p : Nat}
    {r : Reply} (hr : readObject heap fuel p = some r) :
    Hiredis.readObject heap' fuel p = some r := by
  induction fuel generalizing p r with
  | zero => exact nomatch hr
  | succ fuel ih =>
      rw [Hiredis.readObject] at hr ⊢
      cases ho : heap[p]? with
      | none =>
          rw [ho] at hr
          exact nomatch hr
      | some o =>
          rw [ho] at hr
          rcases h p o ho with hsame | ⟨element, rfl, hopen⟩
          · rw [hsame]
            cases o with
            | array element =>
                obtain ⟨rs, hrs, rfl⟩ := Option.map_eq_some_iff.mp hr
                exact Option.map_eq_some_iff.mpr
                  ⟨rs, readElements_mono (fun p r hp => ih hp) hrs, rfl⟩
            | string str => exact hr
            | integer v => exact hr
            | nil => exact hr
            | status str => exact hr
            | error str => exact hr
          · obtain ⟨rs, hrs, -⟩ := Option.map_eq_some_iff.mp hr
            exact absurd hopen (none_notMem_of_readElements hrs)

theorem keeps_append (heap : List RedisObject) (o : RedisObject) : Keeps heap (heap ++ [o]) := by
  intro p o' ho'
  left
  rw [List.getElem?_append_left (List.getElem?_eq_some_iff.mp ho').1]
  exact ho'

theorem keeps_set {heap : List RedisObject} {q : Nat} {element : List (Option Nat)}
    (hq : heap[q]? = some (.array element)) (hopen : none ∈ element) (o : RedisObject) :
    Keeps heap (heap.set q o) := by
  intro p o' ho'
  by_cases hpq : p = q
  · subst hpq
    rw [hq, Option.some.injEq] at ho'
    exact .inr ⟨element, ho'.symm, hopen⟩
  · left
    rw [List.getElem?_set_ne (Ne.symm hpq)]
    exact ho'

theorem Keeps.trans {heap heap' heap'' : List RedisObject} (h : Keeps heap heap')
    (h' : Keeps heap' heap'') : Keeps heap heap'' := by
  intro p o ho
  rcases h p o ho with hsame | hopen
  · exact h' p o hsame
  · exact .inr hopen

end Trees

section Frames

/-- An array that is being read: the elements before the current one, and how many are behind it. -/
structure Frame where
  done : List Reply
  left : Nat

variable (machine : Machine)

/-- What reads the elements of an array, where there is room for so many levels. -/
def elemParser : Nat → Option (Bytes → ReplyParsed Reply)
  | 0 => none
  | depth + 1 => some (parse machine depth)

theorem parse_eq_item (depth : Nat) : parse machine depth = item machine (elemParser machine depth) := by
  cases depth with
  | zero => rfl
  | succ depth => rfl

/-- The rest of a reply, once the current element of the innermost array has been read. -/
def resume : List Frame → Reply → Bytes → ReplyParsed Reply
  | [], r, b => .ok r b
  | f :: fs, r, b =>
      (many (parse machine (7 - fs.length)) f.left b).bind fun rs =>
        resume fs (.array (f.done ++ r :: rs))

/-- The rest of a reply, for a current element whose first byte has been read or not. -/
def meaning (fs : List Frame) : Option ReplyType → Bytes → ReplyParsed Reply
  | none, b => (parse machine (8 - fs.length) b).bind (resume machine fs)
  | some type, b =>
      (typed machine (elemParser machine (8 - fs.length)) type b).bind (resume machine fs)

theorem meaning_none_cons (fs : List Frame) {c : UInt8} {type : ReplyType}
    (hc : replyType c = some type) (b : Bytes) :
    meaning machine fs none (c :: b) = meaning machine fs (some type) b := by
  rw [meaning, parse_eq_item, item, hc]
  rfl

theorem meaning_none_bad (fs : List Frame) {c : UInt8} (hc : replyType c = none) (b : Bytes) :
    meaning machine fs none (c :: b) = .bad (.protocol (typeError c)) := by
  rw [meaning, parse_eq_item, item, hc]
  rfl

theorem resume_last (f : Frame) (hf : f.left = 0) (fs : List Frame) (r : Reply) :
    resume machine (f :: fs) r = resume machine fs (.array (f.done ++ [r])) := by
  funext b
  rw [resume, hf]
  rfl

theorem resume_next (done : List Reply) (k : Nat) (fs : List Frame) (r : Reply) :
    resume machine (⟨done, k + 1⟩ :: fs) r =
      meaning machine (⟨done ++ [r], k⟩ :: fs) none := by
  funext b
  have hdepth : 8 - (fs.length + 1) = 7 - fs.length := by omega
  rw [resume, meaning, List.length_cons, hdepth, many, Parsed.bind_assoc]
  congr 1
  funext r' rest
  rw [resume, Parsed.map, Parsed.bind_assoc]
  congr 1
  funext rs rest'
  rw [Parsed.bind_ok, List.append_assoc]
  rfl

theorem meaning_first (fs : List Frame) (hfs : fs.length < 8) (k : Nat) (b : Bytes) :
    ((many (parse machine (7 - fs.length)) (k + 1) b).map Reply.array).bind (resume machine fs) =
      meaning machine (⟨[], k⟩ :: fs) none b := by
  have hdepth : 8 - (fs.length + 1) = 7 - fs.length := by omega
  rw [meaning, List.length_cons, hdepth, many, Parsed.map, Parsed.bind_assoc, Parsed.bind_assoc]
  congr 1
  funext r rest
  rw [resume, Parsed.map, Parsed.bind_assoc]
  rfl

end Frames

section Linked

/-- The task, the object and the current element of an array that is being read at place `i`. -/
structure FrameHeld (rstack : List RedisReadTask) (heap : List RedisObject) (i : Nat) (f : Frame)
    (slot : Option Nat) (p : Nat) : Prop where
  task : ∃ task, rstack[i]? = some task ∧ task.type = some .array ∧
    task.elements = (f.done.length + 1 + f.left : Nat) ∧ task.obj = some p
  child : ∃ child, rstack[i + 1]? = some child ∧ child.idx = f.done.length ∧ child.parent = some i
  object : ∃ done, heap[p]? = some (.array (done ++ slot :: List.replicate f.left none)) ∧
    readElements (readObject heap (8 - i)) done = some f.done
  later : ∀ q ∈ slot, p < q

/-- The arrays that are being read hang together; `slot` is the object of the current element. -/
def Linked (rstack : List RedisReadTask) (heap : List RedisObject) (reply : Option Nat) :
    List Frame → Option Nat → Prop
  | [], slot => reply = slot
  | f :: fs, slot =>
      ∃ p, FrameHeld rstack heap fs.length f slot p ∧ Linked rstack heap reply fs (some p)

variable {rstack rstack' : List RedisReadTask} {heap heap' : List RedisObject}
  {reply : Option Nat} {fs : List Frame} {slot : Option Nat}

/-- What a task keeps while its element is read. -/
def RedisReadTask.place (t : RedisReadTask) : Int × Option Nat := (t.idx, t.parent)

theorem Linked.congr_stack (h : Linked rstack heap reply fs slot)
    (hbelow : ∀ j < fs.length, rstack'[j]? = rstack[j]?)
    (htop : rstack'[fs.length]?.map RedisReadTask.place =
      rstack[fs.length]?.map RedisReadTask.place) :
    Linked rstack' heap reply fs slot := by
  induction fs generalizing slot with
  | nil => exact h
  | cons f fs ih =>
      obtain ⟨p, hframe, hrest⟩ := h
      have hlt : fs.length < (f :: fs).length := Nat.lt_succ_self _
      have hsame := hbelow fs.length hlt
      refine ⟨p, ?_, ?_⟩
      · obtain ⟨task, htask, hfields⟩ := hframe.task
        obtain ⟨child, hchild, hidx, hparent⟩ := hframe.child
        have hmap : rstack'[fs.length + 1]?.map RedisReadTask.place = some child.place := by
          rw [List.length_cons, hchild] at htop
          exact htop
        obtain ⟨child', hchild', hplace⟩ := Option.map_eq_some_iff.mp hmap
        rw [RedisReadTask.place, RedisReadTask.place, Prod.mk.injEq] at hplace
        constructor
        · exact ⟨task, by rw [hsame, htask], hfields⟩
        · exact ⟨child', hchild', by rw [hplace.1, hidx], by rw [hplace.2, hparent]⟩
        · exact hframe.object
        · exact hframe.later
      · apply ih hrest
        · intro j hj
          exact hbelow j (Nat.lt_trans hj hlt)
        · rw [hsame]

theorem Linked.congr_heap {p : Nat} (h : Linked rstack heap reply fs (some p))
    (hkeeps : Keeps heap heap') (hsame : ∀ j < p, heap'[j]? = heap[j]?) :
    Linked rstack heap' reply fs (some p) := by
  induction fs generalizing p with
  | nil => exact h
  | cons f fs ih =>
      obtain ⟨q, hframe, hrest⟩ := h
      have hlt : q < p := hframe.later p rfl
      obtain ⟨done, hobject, hdone⟩ := hframe.object
      refine ⟨q, ?_, ?_⟩
      · constructor
        · exact hframe.task
        · exact hframe.child
        · refine ⟨done, by rw [hsame q hlt, hobject], ?_⟩
          exact readElements_mono (fun p r hp => hkeeps.readObject hp) hdone
        · exact hframe.later
      · apply ih hrest
        intro j hj
        exact hsame j (Nat.lt_trans hj hlt)

structure AtTop (rstack : List RedisReadTask) (fs : List Frame) (cur : RedisReadTask) :
    Prop where
  top : rstack[fs.length]? = some cur
  root : fs = [] → cur.parent = none

end Linked

section Create

variable {r : RedisReader} {fs : List Frame} {cur : RedisReadTask} {obj : RedisObject}

/-- What making an object does: it is new, it is linked, and what was there is kept. -/
structure Created (r : RedisReader) (fs : List Frame) (obj : RedisObject)
    (heap : List RedisObject) : Prop where
  object : heap[r.heap.length]? = some obj
  linked : Linked r.rstack heap (if fs = [] then some r.heap.length else r.reply) fs
    (some r.heap.length)

theorem createObject_created (hlinked : Linked r.rstack r.heap r.reply fs none)
    (hcur : AtTop r.rstack fs cur) (obj : RedisObject) :
    ∃ heap, createObject r cur obj = .ok ({ r with heap }, r.heap.length) ∧
      Created r fs obj heap := by
  cases fs with
  | nil =>
      refine ⟨r.heap ++ [obj], ?_, ?_, rfl⟩
      · rw [createObject, hcur.root rfl]
      · rw [List.getElem?_concat_length]
  | cons f fs =>
      obtain ⟨p, hframe, hrest⟩ := hlinked
      obtain ⟨task, htask, htype, helements, hobj⟩ := hframe.task
      obtain ⟨child, hchild, hidx, hparent⟩ := hframe.child
      obtain ⟨done, hobject, hdone⟩ := hframe.object
      have htop := hcur.top
      rw [List.length_cons, hchild, Option.some.injEq] at htop
      subst htop
      have hlt : p < r.heap.length := (List.getElem?_eq_some_iff.mp hobject).1
      have hlen := length_readElements hdone
      have hobject' : (r.heap ++ [obj])[p]? =
          some (.array (done ++ none :: List.replicate f.left none)) := by
        rw [List.getElem?_append_left hlt, hobject]
      have hset : (done ++ none :: List.replicate f.left none).set done.length
            (some r.heap.length) =
          done ++ some r.heap.length :: List.replicate f.left none := by
        rw [List.set_append_right _ _ (Nat.le_refl _), Nat.sub_self]
        rfl
      have hidx' : child.idx = (done.length : Int) := by rw [hidx, hlen]
      have hkeeps : Keeps r.heap ((r.heap ++ [obj]).set p
          (.array (done ++ some r.heap.length :: List.replicate f.left none))) := by
        apply (keeps_append r.heap obj).trans
        apply keeps_set hobject'
        exact List.mem_append_right done List.mem_cons_self
      refine ⟨(r.heap ++ [obj]).set p
        (.array (done ++ some r.heap.length :: List.replicate f.left none)), ?_, ?_, ?_⟩
      · rw [createObject, hparent]
        dsimp only
        rw [htask]
        dsimp only
        rw [linkParent, hobj]
        dsimp only
        rw [hobject']
        dsimp only
        rw [hidx', Int.toNat_natCast, if_pos (by simp), hset]
      · rw [List.getElem?_set_ne (by omega), List.getElem?_concat_length]
      · refine ⟨p, ?_, ?_⟩
        · constructor
          · exact ⟨task, htask, htype, helements, hobj⟩
          · exact ⟨child, hchild, hidx, hparent⟩
          · refine ⟨done, ?_, ?_⟩
            · rw [List.getElem?_set_self (by rw [List.length_append]; omega)]
            · exact readElements_mono (fun q t hq => hkeeps.readObject hq) hdone
          · rintro q hq
            rw [Option.mem_some_iff] at hq
            omega
        · rw [if_neg (List.cons_ne_nil f fs)]
          apply hrest.congr_heap hkeeps
          intro j hj
          rw [List.getElem?_set_ne (by omega), List.getElem?_append_left (by omega)]

end Create

section Move

variable {machine : Machine}

/-- Where the stack is when the current element has been read: at the end of the reply, or before
another element. What the rest of the reply was, it still is. -/
inductive Moved (machine : Machine) (r : RedisReader) (rest : Bytes → ReplyParsed Reply) : Prop
  | done {p : Nat} {reply : Reply} (ridx : r.ridx = -1) (root : r.reply = some p)
      (tree : readObject r.heap 9 p = some reply) (means : rest = .ok reply)
  | next (fs : List Frame) (cur : RedisReadTask) (ridx : r.ridx = fs.length)
      (depth : fs.length ≤ 8) (linked : Linked r.rstack r.heap r.reply fs none)
      (current : AtTop r.rstack fs cur) (type : cur.type = none)
      (means : rest = meaning machine fs none)

structure SameBuffer (r r' : RedisReader) : Prop where
  buf : r'.buf = r.buf
  pos : r'.pos = r.pos
  error : r'.error = r.error
  places : r'.rstack.length = r.rstack.length

theorem moved_next {r : RedisReader} {done : List Reply} {left : Nat} {fs : List Frame} {obj : Nat}
    {c : Reply} {child : RedisReadTask} (hdepth : fs.length < 8)
    (hlinked : Linked r.rstack r.heap r.reply (⟨done, left + 1⟩ :: fs) (some obj))
    (hc : readObject r.heap (8 - fs.length) obj = some c)
    (hchild : r.rstack[fs.length + 1]? = some child) (hridx : r.ridx = (fs.length + 1 : Nat)) :
    Moved machine
      { r with
        rstack := r.rstack.set (fs.length + 1)
          { child with type := none, elements := -1, idx := child.idx + 1 } }
      (resume machine (⟨done, left + 1⟩ :: fs) c) := by
  obtain ⟨p, hframe, hrest⟩ := hlinked
  obtain ⟨task, htask, htype, helements, hobj⟩ := hframe.task
  obtain ⟨child', hchild', hidx, hparent⟩ := hframe.child
  rw [hchild, Option.some.injEq] at hchild'
  subst hchild'
  obtain ⟨ptrs, hobject, hdone⟩ := hframe.object
  have hlt : fs.length + 1 < r.rstack.length := (List.getElem?_eq_some_iff.mp hchild).1
  have hset : (r.rstack.set (fs.length + 1)
      { child with type := none, elements := -1, idx := child.idx + 1 })[fs.length + 1]? =
        some { child with type := none, elements := -1, idx := child.idx + 1 } :=
    List.getElem?_set_self hlt
  have hne : ∀ j < fs.length + 1, (r.rstack.set (fs.length + 1)
      { child with type := none, elements := -1, idx := child.idx + 1 })[j]? = r.rstack[j]? := by
    intro j hj
    exact List.getElem?_set_ne (by omega)
  refine .next (⟨done ++ [c], left⟩ :: fs)
    { child with type := none, elements := -1, idx := child.idx + 1 } hridx
    (Nat.succ_le_of_lt hdepth) ⟨p, ?_, ?_⟩ ⟨hset, nofun⟩ rfl (resume_next machine done left fs c)
  · constructor
    · refine ⟨task, ?_, htype, ?_, hobj⟩
      · exact (hne _ (Nat.lt_succ_self _)).trans htask
      · rw [helements, List.length_append, List.length_singleton]
        dsimp only
        omega
    · refine ⟨_, hset, ?_, hparent⟩
      dsimp only
      rw [hidx, List.length_append, List.length_singleton]
      rfl
    · refine ⟨ptrs ++ [some obj], ?_, readElements_append hdone (readElements_singleton hc)⟩
      rw [hobject, List.append_assoc]
      rfl
    · exact nofun
  · apply hrest.congr_stack
    · intro j hj
      exact hne j (Nat.lt_succ_of_lt hj)
    · rw [hne _ (Nat.lt_succ_self _)]

theorem moveFrom_moved (machine : Machine) {r : RedisReader} {fs : List Frame} {obj : Nat} {c : Reply}
    (hdepth : fs.length ≤ 8) (hlinked : Linked r.rstack r.heap r.reply fs (some obj))
    (hc : readObject r.heap (9 - fs.length) obj = some c) (hridx : r.ridx = fs.length) :
    ∃ r', RedisReader.moveFrom fs.length r = .ok r' ∧ SameBuffer r r' ∧
      Moved machine r' (resume machine fs c) := by
  induction fs generalizing r obj c with
  | nil =>
      refine ⟨{ r with ridx := -1 }, rfl, ⟨rfl, rfl, rfl, rfl⟩, .done rfl hlinked hc ?_⟩
      funext b
      rfl
  | cons f fs ih =>
      obtain ⟨done, left⟩ := f
      rw [List.length_cons] at hdepth hc hridx
      obtain ⟨p, hframe, hrest⟩ := id hlinked
      obtain ⟨task, htask, htype, helements, hobj⟩ := hframe.task
      obtain ⟨child, hchild, hidx, hparent⟩ := hframe.child
      obtain ⟨ptrs, hobject, hdone⟩ := hframe.object
      have htype' : ¬ task.type ≠ some .array := not_not_intro htype
      have hfuel : 9 - (fs.length + 1) = 8 - fs.length := by omega
      rw [hfuel] at hc
      dsimp only at hidx helements hobject hdone
      rw [List.length_cons, RedisReader.moveFrom, hchild, htask]
      dsimp only
      rw [if_neg htype']
      cases left with
      | zero =>
          have hlast : child.idx = task.elements - 1 := by omega
          have hread : readObject r.heap (9 - fs.length) p = some (.array (done ++ [c])) := by
            have hfuel' : 9 - fs.length = 8 - fs.length + 1 := by omega
            rw [hfuel', readObject, hobject]
            dsimp only
            rw [List.replicate_zero, readElements_append hdone (readElements_singleton hc)]
            rfl
          obtain ⟨r', hmove, hsame, hmoved⟩ :=
            ih (r := { r with ridx := fs.length }) (by omega) hrest hread rfl
          refine ⟨r', ?_, ⟨hsame.buf, hsame.pos, hsame.error, hsame.places⟩, ?_⟩
          · rw [if_pos hlast]
            exact hmove
          · rw [resume_last machine ⟨done, 0⟩ rfl]
            exact hmoved
      | succ left =>
          have hlast : ¬ child.idx = task.elements - 1 := by omega
          have hmore : child.idx < task.elements := by omega
          rw [if_neg hlast, if_pos hmore]
          refine ⟨_, rfl, ⟨rfl, rfl, rfl, List.length_set⟩, ?_⟩
          exact moved_next hdepth hlinked hc hchild hridx

end Move

section Lines

theorem seekFrom_of_line {u l rest : Bytes} (h : line u = .ok l rest) {n : Nat}
    (hn : u.length = n + 1) : seekFrom u n = some l.length := by
  induction u generalizing l n with
  | nil => exact nomatch h
  | cons c u ih =>
      rw [List.length_cons, Nat.succ.injEq] at hn
      by_cases hend : c = 13 ∧ u.head? = some 10
      · rw [line_cons_of_end hend, Parsed.ok.injEq] at h
        obtain ⟨u', rfl⟩ := List.head?_eq_some_iff.mp hend.2
        rw [List.length_cons] at hn
        rw [← hn, seekFrom, if_pos hend, ← h.1]
        rfl
      · rw [line_cons_of_not_end hend, Parsed.map_eq_ok_iff] at h
        obtain ⟨l', hl', rfl⟩ := h
        cases u with
        | nil => exact nomatch hl'
        | cons d u =>
            rw [List.length_cons] at hn
            rw [← hn, seekFrom, if_neg hend, ih hl' rfl]
            rfl

theorem seekFrom_of_more {u : Bytes} (h : line u = .more) {n : Nat} (hn : u.length ≤ n + 1) :
    seekFrom u n = none := by
  induction u generalizing n with
  | nil =>
      cases n with
      | zero => rfl
      | succ n => rfl
  | cons c u ih =>
      cases n with
      | zero => rfl
      | succ n =>
          have hend : ¬ (c = 13 ∧ u.head? = some 10) := by
            intro hend
            rw [line_cons_of_end hend] at h
            exact nomatch h
          have hu : line u = .more := by
            rw [line_cons_of_not_end hend] at h
            cases hline : line u with
            | more => rfl
            | bad e => exact absurd hline (line_ne_bad u e)
            | ok l rest =>
                rw [hline] at h
                exact nomatch h
          rw [List.length_cons] at hn
          rw [seekFrom, if_neg hend, ih hu (by omega)]
          rfl

theorem newlineLimit (machine : Machine) {n : Nat} (hpos : 0 < n) (hn : n < 2 ^ 31) :
    (intWord 32 (sizeSub machine.bits n 1)).toNat = n - 1 := by
  have hbits := machine.two_pow_le
  have hsub : sizeSub machine.bits n 1 = n - 1 := by
    apply sizeSub_eq hpos
    omega
  have hword : intWord 32 ((n - 1 : Nat) : Int) = ((n - 1 : Nat) : Int) := by
    apply intWord_eq
    omega
  rw [hsub, hword, Int.toNat_natCast]

theorem seekNewline_of_line (machine : Machine) {u l rest : Bytes} (h : line u = .ok l rest)
    (hu : u.length < 2 ^ 31) : seekNewline machine u u.length = some l.length := by
  have hpos : 0 < u.length := by
    cases u with
    | nil => exact nomatch h
    | cons c u => exact Nat.succ_pos _
  rw [seekNewline, newlineLimit machine hpos hu]
  apply seekFrom_of_line h
  omega

theorem seekNewline_of_more (machine : Machine) {u : Bytes} (h : line u = .more)
    (hu : u.length < 2 ^ 31) : seekNewline machine u u.length = none := by
  cases u with
  | nil => exact seekFrom_of_more h (Nat.zero_le _)
  | cons c u =>
      have hpos : 0 < (c :: u).length := Nat.succ_pos _
      rw [seekNewline, newlineLimit machine hpos hu]
      apply seekFrom_of_more h
      omega

end Lines

section Sound

namespace RedisReader

def unread (r : RedisReader) : Bytes := r.buf.drop r.pos

/-- The buffer and the stack are as they should be, and there has been no error. -/
structure Sound (r : RedisReader) : Prop where
  places : r.rstack.length = 9
  pos : r.pos ≤ r.buf.length
  room : r.buf.length < 2 ^ 31
  fine : r.error = none

/-- The reader is in the middle of a reply, at this task. -/
structure Placed (r : RedisReader) (fs : List Frame) (cur : RedisReadTask) : Prop
    extends Sound r where
  ridx : r.ridx = fs.length
  depth : fs.length ≤ 8
  linked : Linked r.rstack r.heap r.reply fs none
  current : AtTop r.rstack fs cur

/-- Between two calls an array is not at the last place. -/
def Reading (r : RedisReader) (fs : List Frame) (type : Option ReplyType) : Prop :=
  ∃ cur, Placed r fs cur ∧ cur.type = type ∧ (type = some .array → fs.length < 8)

variable {r r' : RedisReader} {u l rest : Bytes}

theorem Sound.length_unread (h : Sound r) (machine : Machine) :
    r.unread.length = sizeSub machine.bits r.len r.pos := by
  have hpos := h.pos
  have hroom := h.room
  have hbits := machine.two_pow_le
  have hsub : sizeSub machine.bits r.buf.length r.pos = r.buf.length - r.pos := by
    apply sizeSub_eq hpos
    omega
  rw [unread, List.length_drop, len, hsub]

theorem Sound.length_unread_le (h : Sound r) : r.pos + r.unread.length = r.buf.length := by
  have hpos := h.pos
  rw [unread, List.length_drop]
  omega

theorem Sound.unread_lt (h : Sound r) : r.unread.length < 2 ^ 31 := by
  have hle := h.length_unread_le
  have hroom := h.room
  omega

theorem Sound.readLine_of_line (h : Sound r) (machine : Machine)
    (hline : line r.unread = .ok l rest) :
    r.readLine machine = some (r.unread, l.length, { r with pos := r.pos + (l.length + 2) }) := by
  have hseek := seekNewline_of_line machine hline h.unread_lt
  rw [h.length_unread machine] at hseek
  rw [readLine, ← unread, hseek]

theorem Sound.readLine_of_more (h : Sound r) (machine : Machine) (hline : line r.unread = .more) :
    r.readLine machine = none := by
  have hseek := seekNewline_of_more machine hline h.unread_lt
  rw [h.length_unread machine] at hseek
  rw [readLine, ← unread, hseek]

theorem Sound.advance (h : Sound r) {n : Nat} (hn : n ≤ r.unread.length) :
    Sound { r with pos := r.pos + n } where
  places := h.places
  pos := by
      have hle := h.length_unread_le
      dsimp only
      omega
  room := h.room
  fine := h.fine

/-- The sizes that `processBulkItem` computes do not wrap where the size of the bulk fits. -/
theorem Sound.bulk_sizes (h : Sound r) (machine : Machine) {n k : Nat}
    (hfit : ¬ 2 ^ machine.bits < n + 2 + 2 ^ 31) (hk : k ≤ r.unread.length) :
    sizeWord machine.bits n = n ∧ sizeWord machine.bits (k + (n + 2)) = k + (n + 2) ∧
      sizeWord machine.bits (r.pos + (k + (n + 2))) = r.pos + (k + (n + 2)) := by
  have hbits := machine.two_pow_le
  have hle := h.length_unread_le
  have hroom := h.room
  refine ⟨sizeWord_eq ?_, sizeWord_eq ?_, sizeWord_eq ?_⟩
  · omega
  · omega
  · omega

theorem unread_advance (r : RedisReader) (n : Nat) :
    ({ r with pos := r.pos + n } : RedisReader).unread = r.unread.drop n := by
  rw [unread, unread, List.drop_drop]

theorem unread_of_line (hline : line r.unread = .ok l rest) :
    l.length + 2 ≤ r.unread.length ∧ r.unread.drop (l.length + 2) = rest ∧
      r.unread.take l.length = l ∧ readLongLong r.unread = lineValue l := by
  have hlen : (l ++ crlf).length = l.length + 2 := List.length_append
  rw [line_eq_ok hline]
  refine ⟨?_, ?_, ?_, ?_⟩
  · rw [List.length_append]
    omega
  · rw [← hlen, List.drop_left]
  · rw [List.append_assoc, List.take_left]
  · rw [List.append_assoc]
    exact readLongLong_append l (10 :: rest)

end RedisReader

end Sound

section Items

variable {machine : Machine} {r : RedisReader} {fs : List Frame}

open RedisReader

/-- What one turn of the reader comes to, where `buf` is the buffer, `u` is unread, and `means` is
what the bytes at hand and those to come mean. -/
inductive Followed (machine : Machine) (buf u : Bytes) (means : Bytes → ReplyParsed Reply) :
    Except ReaderAbort (RedisReader × Bool) → Prop
  | unfit {x} (h : ∀ y, means (u ++ y) = .bad .unfit) : Followed machine buf u means x
  | outOfMemory (h : ∀ y, means (u ++ y) = .bad .outOfMemory) :
      Followed machine buf u means (.error .outOfMemory)
  | refused {r : RedisReader} {text : Bytes} (ridx : r.ridx = -1) (error : r.error = some text)
      (h : ∀ y, means (u ++ y) = .bad (.protocol text)) :
      Followed machine buf u means (.ok (r, false))
  | waits {r : RedisReader} {fs : List Frame} {type : Option ReplyType} (same : r.buf = buf)
      (reading : Reading r fs type) (h : ∀ y, means (u ++ y) = meaning machine fs type (r.unread ++ y))
      (more : means u = .more) : Followed machine buf u means (.ok (r, false))
  | goes {r : RedisReader} {rest : Bytes → ReplyParsed Reply} (same : r.buf = buf) (sound : Sound r)
      (moved : Moved machine r rest) (h : ∀ y, means (u ++ y) = rest (r.unread ++ y))
      (less : r.unread.length < u.length) : Followed machine buf u means (.ok (r, true))

theorem setRoot_eq (hridx : r.ridx = fs.length) (obj : Nat) :
    r.setRoot obj = { r with reply := if fs = [] then some obj else r.reply } := by
  rw [setRoot]
  cases fs with
  | nil =>
      have hzero : r.ridx = 0 := hridx
      rw [if_pos hzero, if_pos rfl]
  | cons f fs =>
      have hne : ¬ r.ridx = 0 := by
        rw [hridx, List.length_cons]
        omega
      rw [if_neg hne, if_neg (List.cons_ne_nil f fs)]

theorem finishItem_moved {obj : Nat} {c : Reply} (hdepth : fs.length ≤ 8)
    (hridx : r.ridx = fs.length)
    (hlinked : Linked r.rstack r.heap (if fs = [] then some obj else r.reply) fs (some obj))
    (hc : readObject r.heap (9 - fs.length) obj = some c) :
    ∃ r', finishItem (.ok (r, obj)) = .ok (r', true) ∧ SameBuffer r r' ∧
      Moved machine r' (resume machine fs c) := by
  have hneg : ¬ r.ridx < 0 := by omega
  obtain ⟨r', hmove, hsame, hmoved⟩ :=
    moveFrom_moved machine (r := r.setRoot obj) hdepth (by rwa [setRoot_eq hridx])
      (by rwa [setRoot_eq hridx]) (by rw [setRoot_eq hridx]; exact hridx)
  rw [setRoot_eq hridx] at hmove hsame
  refine ⟨r', ?_, ⟨hsame.buf, hsame.pos, hsame.error, hsame.places⟩, hmoved⟩
  have hnat : r.ridx.toNat = fs.length := by omega
  rw [finishItem, setRoot_eq hridx, moveToNextTask, if_neg hneg]
  dsimp only
  rw [hnat, hmove]

theorem Followed.of_moved {r r' : RedisReader} {means : Bytes → ReplyParsed Reply} {u rest : Bytes}
    {k : Bytes → ReplyParsed Reply} (hsound : Sound r) (hsame : SameBuffer r r')
    (hmoved : Moved machine r' k) (hunread : r.unread = rest)
    (hmeans : ∀ y, means (u ++ y) = k (rest ++ y)) (hless : rest.length < u.length) :
    Followed machine r.buf u means (.ok (r', true)) := by
  have hunread' : r'.unread = rest := by
    rw [← hunread, unread, unread, hsame.buf, hsame.pos]
  have hsound' : Sound r' := by
    constructor
    · rw [hsame.places, hsound.places]
    · rw [hsame.pos, hsame.buf]
      exact hsound.pos
    · rw [hsame.buf]
      exact hsound.room
    · rw [hsame.error, hsound.fine]
  apply Followed.goes hsame.buf hsound' hmoved
  · intro y
    rw [hunread']
    exact hmeans y
  · rw [hunread']
    exact hless

def Leaf (obj : RedisObject) (c : Reply) : Prop :=
  ∀ heap p fuel, heap[p]? = some obj → readObject heap (fuel + 1) p = some c

theorem leaf_error (l : Bytes) : Leaf (.error l) (.error l) := by
  intro heap p fuel hp
  rw [readObject, hp]

theorem leaf_status (l : Bytes) : Leaf (.status l) (.status l) := by
  intro heap p fuel hp
  rw [readObject, hp]

theorem leaf_integer (v : Int) : Leaf (.integer v) (.integer v) := by
  intro heap p fuel hp
  rw [readObject, hp]

theorem leaf_nil : Leaf .nil .nil := by
  intro heap p fuel hp
  rw [readObject, hp]

theorem leaf_string (s : Bytes) : Leaf (.string s) (.string s) := by
  intro heap p fuel hp
  rw [readObject, hp]

theorem leaf_empty : Leaf (.array []) (.array []) := by
  intro heap p fuel hp
  rw [readObject, hp]
  rfl

variable {cur : RedisReadTask} {obj : RedisObject} {c : Reply}
  {means : Bytes → ReplyParsed Reply}

theorem created_followed (hr : Placed r fs cur) {heap : List RedisObject}
    (hcreated : Created r fs obj heap) (hleaf : Leaf obj c) {k : Nat}
    (hk : k ≤ r.unread.length) (hpos : 0 < k)
    (hmeans : ∀ y, means (r.unread ++ y) = resume machine fs c (r.unread.drop k ++ y)) :
    Followed machine r.buf r.unread means
      (finishItem (.ok ({ r with heap, pos := r.pos + k }, r.heap.length))) := by
  have hdepth := hr.depth
  have hfuel : 9 - fs.length = 8 - fs.length + 1 := by omega
  have hc : readObject heap (9 - fs.length) r.heap.length = some c := by
    rw [hfuel]
    exact hleaf heap _ _ hcreated.object
  obtain ⟨r', hfinish, hsame, hmoved⟩ :=
    finishItem_moved (r := { r with heap, pos := r.pos + k }) hdepth hr.ridx hcreated.linked hc
  have hsound := hr.toSound.advance hk
  have hsound' : Sound { r with heap, pos := r.pos + k } :=
    ⟨hsound.places, hsound.pos, hsound.room, hsound.fine⟩
  rw [hfinish]
  apply Followed.of_moved hsound' hsame hmoved (unread_advance r k) hmeans
  rw [List.length_drop]
  omega

theorem createObject_followed (hr : Placed r fs cur) (hleaf : Leaf obj c) {k : Nat}
    (hk : k ≤ r.unread.length) (hpos : 0 < k)
    (hmeans : ∀ y, means (r.unread ++ y) = resume machine fs c (r.unread.drop k ++ y)) :
    Followed machine r.buf r.unread means
      (finishItem (createObject { r with pos := r.pos + k } cur obj)) := by
  obtain ⟨heap, hcreate, hcreated⟩ :=
    createObject_created (r := { r with pos := r.pos + k }) hr.linked hr.current obj
  rw [hcreate]
  exact created_followed hr ⟨hcreated.object, hcreated.linked⟩ hleaf hk hpos hmeans

theorem waits_of_placed {t : ReplyType} (hr : Placed r fs cur) (htype : cur.type = some t)
    (hdeep : t = .array → fs.length < 8) (hmore : meaning machine fs (some t) r.unread = .more) :
    Followed machine r.buf r.unread (meaning machine fs (some t)) (.ok (r, false)) := by
  refine .waits rfl ⟨cur, hr, htype, ?_⟩ (fun y => rfl) hmore
  intro harray
  exact hdeep (Option.some.inj harray)

theorem processLineItem_followed {t : ReplyType} (hr : Placed r fs cur) (htype : cur.type = some t)
    (make : Bytes → Reply) (objOf : Bytes → RedisObject) (hleaf : ∀ l, Leaf (objOf l) (make l))
    (htyped : ∀ elem, typed machine elem t = fun b => (line b).map make)
    (hdeep : t = .array → fs.length < 8)
    (hcreate : ∀ l rest, line r.unread = .ok l rest → r.processLineItem machine cur =
      finishItem (createObject { r with pos := r.pos + (l.length + 2) } cur (objOf l))) :
    Followed machine r.buf r.unread (meaning machine fs (some t)) (r.processLineItem machine cur) := by
  have hmeans : ∀ b, meaning machine fs (some t) b = ((line b).map make).bind (resume machine fs) := by
    intro b
    rw [meaning, htyped]
  cases hline : line r.unread with
  | more =>
      rw [processLineItem, hr.readLine_of_more machine hline]
      apply waits_of_placed hr htype hdeep
      rw [hmeans, hline]
      rfl
  | bad e => exact absurd hline (line_ne_bad _ e)
  | ok l rest =>
      obtain ⟨hlen, hdrop, -, -⟩ := unread_of_line hline
      rw [hcreate l rest hline]
      apply createObject_followed hr (hleaf l) hlen (Nat.succ_pos _)
      intro y
      rw [hmeans, stable_line.ok y hline, hdrop]
      rfl

theorem processBulkItem_followed (hr : Placed r fs cur) (htype : cur.type = some .string) :
    Followed machine r.buf r.unread (meaning machine fs (some .string))
      (r.processBulkItem machine cur) := by
  have hmeans : ∀ b, meaning machine fs (some .string) b =
      ((line b).bind fun l => bulk machine (lineValue l)).bind (resume machine fs) := fun b => rfl
  rw [processBulkItem, ← unread, ← hr.length_unread]
  dsimp only
  cases hline : line r.unread with
  | more =>
      rw [seekNewline_of_more machine hline hr.unread_lt]
      apply waits_of_placed hr htype nofun
      rw [hmeans, hline]
      rfl
  | bad e => exact absurd hline (line_ne_bad _ e)
  | ok l rest =>
      obtain ⟨hlen, hdrop, -, hvalue⟩ := unread_of_line hline
      have hle := hr.length_unread_le
      have hmeans' : ∀ y, meaning machine fs (some .string) (r.unread ++ y) =
          (bulk machine (lineValue l) (rest ++ y)).bind (resume machine fs) := by
        intro y
        rw [hmeans, stable_line.ok y hline]
        rfl
      rw [seekNewline_of_line machine hline hr.unread_lt]
      dsimp only
      rw [hvalue]
      by_cases hneg : lineValue l < 0
      · obtain ⟨heap, hcreate, hcreated⟩ := createObject_created hr.linked hr.current .nil
        rw [if_pos hneg, createNilObject, hcreate]
        apply created_followed hr hcreated leaf_nil hlen (Nat.succ_pos _)
        intro y
        rw [hmeans', bulk, if_pos hneg, hdrop]
        rfl
      · rw [if_neg hneg]
        by_cases hunfit : 2 ^ machine.bits < (lineValue l).toNat + 2 + 2 ^ 31
        · apply Followed.unfit
          intro y
          rw [hmeans', bulk, if_neg hneg, if_pos hunfit]
          rfl
        · have hrest : rest.length + (l.length + 2) = r.unread.length := by
            rw [← hdrop, List.length_drop]
            omega
          obtain ⟨hsize, hword, hword'⟩ := hr.bulk_sizes machine hunfit hlen
          rw [hsize, hword, hword', len]
          by_cases henough : (lineValue l).toNat + 2 ≤ rest.length
          · have hbulk := bulk_of_enough hneg hunfit henough
            obtain ⟨heap, hcreate, hcreated⟩ := createObject_created hr.linked hr.current
              (.string (rest.take (lineValue l).toNat))
            rw [if_pos (by omega), if_pos (by omega), hdrop, createStringObject, htype]
            dsimp only
            rw [hcreate]
            apply created_followed hr hcreated (leaf_string _) (by omega) (by omega)
            intro y
            rw [hmeans', (stable_bulk _).ok y hbulk, ← hdrop, List.drop_drop]
            rfl
          · have hbulk := bulk_of_short hneg hunfit (Nat.lt_of_not_le henough)
            rw [if_neg (by omega)]
            apply waits_of_placed hr htype nofun
            have hmore := hmeans' []
            rw [List.append_nil, List.append_nil, hbulk] at hmore
            exact hmore

theorem pushTask_moved (machine : Machine) (hr : Placed r fs cur) (htype : cur.type = some .array) {k : Nat}
    {heap : List RedisObject}
    (hcreated : Created r fs (.array (List.replicate (k + 1) none)) heap) (hlt : fs.length < 8)
    (n : Nat) :
    ∃ r', (({ r with heap, pos := r.pos + n } : RedisReader).setRoot r.heap.length).pushTask cur
        (k + 1 : Nat) r.heap.length = .ok r' ∧
      SameBuffer { r with pos := r.pos + n } r' ∧
      Moved machine r' (meaning machine (⟨[], k⟩ :: fs) none) := by
  have hridx := hr.ridx
  have hplaces := hr.places
  have hnat : r.ridx.toNat = fs.length := by omega
  have htop : r.rstack[fs.length]? = some cur := hr.current.top
  obtain ⟨task, htask⟩ : ∃ task : RedisReadTask,
      task = { cur with elements := (k + 1 : Nat), obj := some r.heap.length } := ⟨_, rfl⟩
  obtain ⟨rstack, hrstack⟩ : ∃ rstack, rstack = (r.rstack.set fs.length task).set (fs.length + 1)
      ⟨none, -1, 0, none, some fs.length⟩ := ⟨_, rfl⟩
  have hchild : rstack[fs.length + 1]? = some ⟨none, -1, 0, none, some fs.length⟩ := by
    rw [hrstack]
    exact List.getElem?_set_self (by rw [List.length_set]; omega)
  have hparent : rstack[fs.length]? = some task := by
    rw [hrstack, List.getElem?_set_ne (by omega)]
    exact List.getElem?_set_self (by omega)
  have hbelow : ∀ j < fs.length, rstack[j]? = r.rstack[j]? := by
    intro j hj
    rw [hrstack, List.getElem?_set_ne (by omega), List.getElem?_set_ne (by omega)]
  have hroom : 0 ≤ r.ridx ∧ r.ridx.toNat + 1 < r.rstack.length := by omega
  refine ⟨{ r with
    heap, rstack, pos := r.pos + n, ridx := r.ridx + 1
    reply := if fs = [] then some r.heap.length else r.reply }, ?_, ?_, ?_⟩
  · rw [setRoot_eq (r := { r with heap, pos := r.pos + n }) hridx, pushTask]
    dsimp only
    rw [if_pos hroom, hnat, hrstack, htask]
  · refine ⟨rfl, rfl, rfl, ?_⟩
    dsimp only
    rw [hrstack, List.length_set, List.length_set]
  · refine .next (⟨[], k⟩ :: fs) _ ?_ (Nat.succ_le_of_lt hlt) ⟨r.heap.length, ?_, ?_⟩
      ⟨hchild, nofun⟩ rfl rfl
    · dsimp only
      rw [hridx, List.length_cons]
      rfl
    · constructor
      · refine ⟨task, hparent, ?_, ?_, ?_⟩
        · rw [htask]
          exact htype
        · rw [htask, List.length_nil]
          dsimp only
          omega
        · rw [htask]
      · exact ⟨_, hchild, rfl, rfl⟩
      · exact ⟨[], hcreated.object, rfl⟩
      · exact nofun
    · apply hcreated.linked.congr_stack hbelow
      rw [hparent, htop, htask]
      rfl

/-- The object of an array is there: its elements are read next, if it has any. -/
theorem arrayObject_followed (hr : Placed r fs cur) (htype : cur.type = some .array)
    (hlt : fs.length < 8) {n : Nat} (hn : n ≤ r.unread.length) (hpos : 0 < n) {v : Int}
    {heap : List RedisObject}
    (hcreated : Created r fs (.array (List.replicate v.toNat none)) heap)
    (hmeans : ∀ y, means (r.unread ++ y) =
      ((many (parse machine (7 - fs.length)) v.toNat (r.unread.drop n ++ y)).map
        Reply.array).bind (resume machine fs)) :
    Followed machine r.buf r.unread means
      (if 0 < v then
        match (({ r with heap, pos := r.pos + n } : RedisReader).setRoot r.heap.length).pushTask
            cur v r.heap.length with
        | .error e => .error e
        | .ok r => .ok (r, true)
      else finishItem (.ok ({ r with heap, pos := r.pos + n }, r.heap.length))) := by
  cases hcount : v.toNat with
  | zero =>
      rw [hcount] at hcreated hmeans
      rw [if_neg (by omega)]
      apply created_followed hr hcreated leaf_empty hn hpos
      intro y
      rw [hmeans]
      rfl
  | succ k =>
      have hvalue : v = (k + 1 : Nat) := by omega
      rw [hcount] at hcreated hmeans
      obtain ⟨r', hpush, hsame, hmoved⟩ := pushTask_moved machine hr htype hcreated hlt n
      rw [if_pos (by omega), hvalue, hpush]
      apply Followed.of_moved (hr.toSound.advance hn) hsame hmoved (unread_advance r _)
      · intro y
        rw [hmeans, meaning_first machine fs hlt]
      · rw [List.length_drop]
        omega

theorem processMultiBulkItem_followed (hr : Placed r fs cur) (htype : cur.type = some .array) :
    Followed machine r.buf r.unread (meaning machine fs (some .array))
      (r.processMultiBulkItem machine cur) := by
  have hridx := hr.ridx
  have hdepth := hr.depth
  rw [processMultiBulkItem]
  by_cases hdeep : fs.length = 8
  · rw [if_pos (by omega)]
    apply Followed.refused rfl rfl
    intro y
    rw [meaning, hdeep]
    rfl
  · have hlt : fs.length < 8 := by omega
    have helem : elemParser machine (8 - fs.length) = some (parse machine (7 - fs.length)) := by
      have hsucc : 8 - fs.length = 7 - fs.length + 1 := by omega
      rw [hsucc, elemParser]
    have hmeans : ∀ b, meaning machine fs (some .array) b =
        ((line b).bind fun l => counted machine (parse machine (7 - fs.length)) (lineValue l)).bind
          (resume machine fs) := by
      intro b
      rw [meaning, helem]
      rfl
    rw [if_neg (by omega)]
    cases hline : line r.unread with
    | more =>
        rw [hr.readLine_of_more machine hline]
        apply waits_of_placed hr htype fun _ => hlt
        rw [hmeans, hline]
        rfl
    | bad e => exact absurd hline (line_ne_bad _ e)
    | ok l rest =>
        obtain ⟨hlen, hdrop, -, hvalue⟩ := unread_of_line hline
        have hmeans' : ∀ y, meaning machine fs (some .array) (r.unread ++ y) =
            (counted machine (parse machine (7 - fs.length)) (lineValue l) (rest ++ y)).bind
              (resume machine fs) := by
          intro y
          rw [hmeans, stable_line.ok y hline]
          rfl
        rw [hr.readLine_of_line machine hline]
        dsimp only
        rw [hvalue]
        by_cases hnil : lineValue l = -1
        · rw [if_pos hnil]
          apply createObject_followed hr leaf_nil hlen (Nat.succ_pos _)
          intro y
          rw [hmeans', counted, if_pos hnil, hdrop]
          rfl
        · rw [if_neg hnil]
          by_cases hfit : lineValue l < -2 ^ 31 ∨ 2 ^ 31 ≤ lineValue l
          · apply Followed.unfit
            intro y
            rw [hmeans', counted, if_neg hnil, if_pos hfit]
            rfl
          · have hword : intWord 32 (lineValue l) = lineValue l := by
              apply Int.bmod_eq_of_le
              · omega
              · omega
            rw [hword, createArrayObject]
            by_cases hmem : 0 ≤ lineValue l ∧ machine.calloc (lineValue l).toNat = true
            · obtain ⟨heap, hcreate, hcreated⟩ :=
                createObject_created (r := { r with pos := r.pos + (l.length + 2) }) hr.linked
                  hr.current (.array (List.replicate (lineValue l).toNat none))
              rw [if_pos hmem, hcreate]
              apply arrayObject_followed hr htype hlt hlen (Nat.succ_pos _)
                ⟨hcreated.object, hcreated.linked⟩
              intro y
              rw [hmeans', counted, if_neg hnil, if_neg hfit, if_pos hmem, hdrop]
            · rw [if_neg hmem]
              apply Followed.outOfMemory
              intro y
              rw [hmeans', counted, if_neg hnil, if_neg hfit, if_neg hmem]
              rfl

theorem processTyped_followed (machine : Machine) {t : ReplyType} (hr : Placed r fs cur)
    (htype : cur.type = some t) :
    Followed machine r.buf r.unread (meaning machine fs (some t)) (r.processTyped machine cur t) := by
  cases t with
  | string =>
      rw [processTyped]
      exact processBulkItem_followed hr htype
  | array =>
      rw [processTyped]
      exact processMultiBulkItem_followed hr htype
  | integer =>
      rw [processTyped]
      apply processLineItem_followed hr htype (fun l => .integer (lineValue l))
        (fun l => .integer (lineValue l)) (fun l => leaf_integer _) (fun elem => rfl) nofun
      intro l rest hline
      obtain ⟨-, -, -, hvalue⟩ := unread_of_line hline
      rw [processLineItem, hr.readLine_of_line machine hline]
      dsimp only
      rw [if_pos htype, hvalue]
      rfl
  | status =>
      rw [processTyped]
      apply processLineItem_followed hr htype .status .status leaf_status (fun elem => rfl) nofun
      intro l rest hline
      obtain ⟨-, -, htake, -⟩ := unread_of_line hline
      rw [processLineItem, hr.readLine_of_line machine hline]
      dsimp only
      rw [if_neg (by rw [htype]; exact nofun), htake, createStringObject, htype]
  | error =>
      rw [processTyped]
      apply processLineItem_followed hr htype .error .error leaf_error (fun elem => rfl) nofun
      intro l rest hline
      obtain ⟨-, -, htake, -⟩ := unread_of_line hline
      rw [processLineItem, hr.readLine_of_line machine hline]
      dsimp only
      rw [if_neg (by rw [htype]; exact nofun), htake, createStringObject, htype]

theorem Followed.cons {c : UInt8} {buf u : Bytes} {means' : Bytes → ReplyParsed Reply}
    {x : Except ReaderAbort (RedisReader × Bool)} (h : Followed machine buf u means x)
    (hmeans : ∀ b, means' (c :: b) = means b) : Followed machine buf (c :: u) means' x := by
  cases h with
  | unfit h => exact .unfit fun y => (hmeans _).trans (h y)
  | outOfMemory h => exact .outOfMemory fun y => (hmeans _).trans (h y)
  | refused ridx error h => exact .refused ridx error fun y => (hmeans _).trans (h y)
  | waits same reading h more =>
      exact .waits same reading (fun y => (hmeans _).trans (h y)) ((hmeans _).trans more)
  | goes same sound moved h less =>
      exact .goes same sound moved (fun y => (hmeans _).trans (h y)) (Nat.lt_succ_of_lt less)

theorem placed_typed (hr : Placed r fs cur) {n : Nat} (hn : n ≤ r.unread.length)
    (t : ReplyType) :
    Placed
      { r with
        pos := r.pos + n
        rstack := r.rstack.set fs.length { cur with type := some t } } fs
      { cur with type := some t } := by
  have hsound := hr.toSound.advance hn
  have hroom : fs.length < r.rstack.length := by
    rw [hr.places]
    exact Nat.lt_succ_of_le hr.depth
  have htop : (r.rstack.set fs.length { cur with type := some t })[fs.length]? =
      some { cur with type := some t } := List.getElem?_set_self hroom
  constructor
  · constructor
    · dsimp only
      rw [List.length_set, hr.places]
    · exact hsound.pos
    · exact hsound.room
    · exact hsound.fine
  · exact hr.ridx
  · exact hr.depth
  · apply hr.linked.congr_stack
    · intro j hj
      exact List.getElem?_set_ne (by omega)
    · rw [htop, hr.current.top]
      rfl
  · exact ⟨htop, hr.current.root⟩

theorem readType_followed (hr : Placed r fs cur) (htype : cur.type = none) :
    Followed machine r.buf r.unread (meaning machine fs none)
      (r.readType machine cur (r.readBytes 1)) := by
  have hle := hr.length_unread_le
  have hpos := hr.pos
  have hridx := hr.ridx
  have hnat : r.ridx.toNat = fs.length := by omega
  cases hunread : r.unread with
  | nil =>
      have hread : r.readBytes 1 = none := by
        rw [hunread, List.length_nil] at hle
        rw [readBytes, len, if_neg (by omega)]
      rw [hread, readType]
      refine .waits rfl ⟨cur, hr, htype, nofun⟩ (fun y => ?_) ?_
      · rw [hunread]
      · rw [meaning, parse_eq_item, item, Parsed.bind_more]
  | cons c u =>
      have hone : 1 ≤ r.unread.length := by
        rw [hunread]
        exact Nat.succ_pos _
      have hread : r.readBytes 1 = some (r.pos, { r with pos := r.pos + 1 }) := by
        rw [readBytes, len, if_pos (by omega)]
      have hbyte : r.buf[r.pos]? = some c := by
        have hhead : (r.buf.drop r.pos)[0]? = some c := by
          rw [← unread, hunread]
          rfl
        rw [List.getElem?_drop] at hhead
        exact hhead
      rw [hread, readType]
      dsimp only
      rw [hbyte]
      dsimp only
      cases hc : replyType c with
      | none =>
          apply Followed.refused rfl rfl
          intro y
          exact meaning_none_bad machine fs hc (u ++ y)
      | some t =>
          have hplaced := placed_typed hr hone t
          have hdrop := unread_advance r 1
          rw [hunread] at hdrop
          have hfollowed := processTyped_followed machine hplaced rfl
          change Followed machine r.buf ({ r with pos := r.pos + 1 } : RedisReader).unread _ _ at hfollowed
          rw [hdrop] at hfollowed
          rw [hnat]
          exact hfollowed.cons fun b => meaning_none_cons machine fs hc b

theorem processItem_followed (machine : Machine) {type : Option ReplyType} (hr : Reading r fs type) :
    Followed machine r.buf r.unread (meaning machine fs type) (r.processItem machine) := by
  obtain ⟨cur, hplaced, htype, -⟩ := hr
  have hridx := hplaced.ridx
  have hnat : r.ridx.toNat = fs.length := by omega
  have hitem : r.processItem machine = processTask machine r cur := by
    rw [processItem, hnat, hplaced.current.top]
  cases type with
  | some t =>
      rw [hitem, processTask, htype]
      exact processTyped_followed machine hplaced htype
  | none =>
      rw [hitem, processTask, htype]
      exact readType_followed hplaced htype

end Items

end MmsSvr.Hiredis
