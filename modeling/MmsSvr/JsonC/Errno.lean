import MmsSvr.JsonC.Tokener

/-!
The tokener in a thread whose `errno` json-c never resets.

A number that is out of range, or that does not print as it was written, sets `errno` to
ERANGE, and from then on every integer is read as the limit of its sign.  A parse that
leaves `errno` as it is reads what the tokener reads on its own; any two parses of a text
differ in its integers only.
-/

namespace MmsSvr.JsonC

/-- A number as the tokener reads it, and whether `errno` is ERANGE afterwards; `strtod`
tells the numerals that `sscanf("%lf")` finds out of range. -/
def parseNumberIn (strtod : Bytes → Bool) (erange : Bool) (pb : Bytes) : Option Json × Bool :=
  if pb.any isDoubleChar then
    if hasMantissa pb then (some (.double pb), erange || strtod pb) else (none, erange)
  else
    match parseInt64In erange pb with
    | none => (none, erange)
    | some (i, erange) => (some (.int i), erange)

namespace Tokener

variable (strtod : Bytes → Bool)

/-- One turn of the loop: only the end of a number looks at `errno`. -/
def stepIn (t : Tokener × Bool) (c : UInt8) : Tokener × Bool :=
  match t.1.state with
  | .number pb =>
      if isNumberChar c then (⟨t.1.stack, .number (pb ++ [c])⟩, t.2)
      else
        match parseNumberIn strtod t.2 pb with
        | (some v, erange) => (eatws t.1.stack (.finish v) c, erange)
        | (none, erange) => (fail t.1.stack .parseNumber, erange)
  | _ => (step t.1 c, t.2)

def eofIn (t : Tokener × Bool) : Except TokenerError Json × Bool :=
  match t.1.state with
  | .number pb =>
      match parseNumberIn strtod t.2 pb with
      | (some v, erange) => (eofFinish t.1.stack v, erange)
      | (none, erange) => (.error .parseEof, erange)
  | _ => (t.1.eof, t.2)

/-- `json_tokener_parse_ex(tok, js, -1)` in a thread whose `errno` is ERANGE or not. -/
def parseIn (erange : Bool) (js : Bytes) : Except TokenerError Json × Bool :=
  eofIn strtod ((cstr js).foldl (stepIn strtod) (init, erange))

end Tokener

section Clear

variable {strtod : Bytes → Bool} {erange : Bool} {pb : Bytes}

theorem parseInt64In_clear {i : Int} (h : parseInt64In erange pb = some (i, false)) :
    erange = false := by
  simp only [parseInt64In, Option.ite_none_left_eq_some, Option.some.injEq, recheck,
    Prod.mk.injEq, Bool.or_eq_false_iff] at h
  exact h.2.2.1.1

theorem parseNumberIn_clear (h : (parseNumberIn strtod erange pb).2 = false) :
    erange = false ∧ (parseNumberIn strtod erange pb).1 = parseNumber pb := by
  unfold parseNumberIn parseNumber at *
  split_ifs at h ⊢
  · exact ⟨(Bool.or_eq_false_iff.mp h).1, rfl⟩
  · exact ⟨h, rfl⟩
  · cases hread : parseInt64In erange pb with
    | none =>
        rw [hread] at h
        obtain rfl : erange = false := h
        simp [parseInt64, hread]
    | some r =>
        obtain ⟨i, erange'⟩ := r
        rw [hread] at h
        obtain rfl : erange' = false := h
        obtain rfl := parseInt64In_clear hread
        simp [parseInt64, hread]

namespace Tokener

theorem stepIn_clear {t : Tokener × Bool} {c : UInt8} (h : (stepIn strtod t c).2 = false) :
    t.2 = false ∧ (stepIn strtod t c).1 = step t.1 c := by
  obtain ⟨⟨stack, state⟩, erange⟩ := t
  cases state with
  | number pb =>
      simp only [stepIn, step] at h ⊢
      split_ifs at h ⊢
      · exact ⟨h, rfl⟩
      · have hread : (parseNumberIn strtod erange pb).2 = false → _ := parseNumberIn_clear
        generalize parseNumberIn strtod erange pb = r at h hread ⊢
        obtain ⟨v, erange'⟩ := r
        cases v with
        | none =>
            obtain ⟨hbefore, hv⟩ := hread h
            rw [← hv]
            exact ⟨hbefore, rfl⟩
        | some v =>
            obtain ⟨hbefore, hv⟩ := hread h
            rw [← hv]
            exact ⟨hbefore, rfl⟩
  | _ => exact ⟨h, rfl⟩

theorem foldl_clear (b : Bytes) (t : Tokener × Bool)
    (h : (b.foldl (stepIn strtod) t).2 = false) :
    t.2 = false ∧ (b.foldl (stepIn strtod) t).1 = b.foldl step t.1 := by
  induction b generalizing t with
  | nil => exact ⟨h, rfl⟩
  | cons c b ih =>
      rw [List.foldl_cons] at h ⊢
      obtain ⟨hstep, hrest⟩ := ih _ h
      obtain ⟨hbefore, hnext⟩ := stepIn_clear hstep
      exact ⟨hbefore, by rw [hrest, hnext, List.foldl_cons]⟩

theorem eofIn_clear {t : Tokener × Bool} (h : (eofIn strtod t).2 = false) :
    t.2 = false ∧ (eofIn strtod t).1 = t.1.eof := by
  obtain ⟨⟨stack, state⟩, erange⟩ := t
  cases state with
  | number pb =>
      simp only [eofIn, eof] at h ⊢
      have hread : (parseNumberIn strtod erange pb).2 = false → _ := parseNumberIn_clear
      generalize parseNumberIn strtod erange pb = r at h hread ⊢
      obtain ⟨v, erange'⟩ := r
      cases v with
      | none =>
          obtain ⟨hbefore, hv⟩ := hread h
          rw [← hv]
          exact ⟨hbefore, rfl⟩
      | some v =>
          obtain ⟨hbefore, hv⟩ := hread h
          rw [← hv]
          exact ⟨hbefore, rfl⟩
  | _ => exact ⟨h, rfl⟩

theorem parseIn_clear {js : Bytes} (h : (parseIn strtod erange js).2 = false) :
    erange = false ∧ (parseIn strtod erange js).1 = parse js := by
  obtain ⟨hfold, heof⟩ := eofIn_clear h
  obtain ⟨hinit, hread⟩ := foldl_clear _ _ hfold
  refine ⟨hinit, ?_⟩
  rw [parseIn, heof, hread]
  rfl

end Tokener

end Clear

section Limits

/-- What an integer of that sign is read as when `errno` is ERANGE. -/
def limit (i : Int) : Int := if i < 0 then -2 ^ 63 else 2 ^ 63 - 1

mutual

/-- A value with all its integers at their limits. -/
def Json.limits : Json → Json
  | .int i => .int (limit i)
  | .array elems => .array (limitsElems elems)
  | .object entries => .object (limitsEntries entries)
  | .null => .null
  | .boolean b => .boolean b
  | .double text => .double text
  | .string s => .string s

def limitsElems : List Json → List Json
  | [] => []
  | v :: vs => v.limits :: limitsElems vs

def limitsEntries : List (Bytes × Json) → List (Bytes × Json)
  | [] => []
  | e :: es => limitsEntry e :: limitsEntries es

def limitsEntry : Bytes × Json → Bytes × Json
  | (key, v) => (key, v.limits)

end

theorem limitsElems_append (xs ys : List Json) :
    limitsElems (xs ++ ys) = limitsElems xs ++ limitsElems ys := by
  induction xs with
  | nil => rfl
  | cons x xs ih => rw [List.cons_append, limitsElems, ih, limitsElems, List.cons_append]

theorem limitsEntries_eq (entries : Entries) :
    limitsEntries entries = entries.map fun e => (e.1, e.2.limits) := by
  induction entries with
  | nil => rfl
  | cons e es ih =>
      obtain ⟨key, v⟩ := e
      rw [limitsEntries, ih, limitsEntry, List.map_cons]

theorem limitsEntries_objectAdd (entries : Entries) (key : Bytes) (v : Json) :
    limitsEntries (objectAdd entries key v) = objectAdd (limitsEntries entries) key v.limits := by
  simp only [limitsEntries_eq, objectAdd, List.map_append, List.filter_map]
  rfl

@[simp]
theorem type_limits (v : Json) : v.limits.type = v.type := by
  cases v <;> simp [Json.limits, Json.type]

theorem objectGet_limits (v : Json) (key : Bytes) :
    objectGet v.limits key = (objectGet v key).limits := by
  cases v with
  | object entries =>
      simp only [Json.limits, objectGet, limitsEntries_eq, List.find?_map]
      change ((Option.map _ (entries.find? fun e => e.1 = key)).map Prod.snd).getD Json.null = _
      cases entries.find? fun e => e.1 = key with
      | none => rfl
      | some e => rfl
  | _ => simp [Json.limits, objectGet]

def Level.limits : Level → Level
  | .array elems => .array (limitsElems elems)
  | .object entries key => .object (limitsEntries entries) key

def Saved.limits : Saved → Saved
  | .start => .start
  | .finish current => .finish current.limits
  | .array elems => .array (limitsElems elems)
  | .arraySep elems => .arraySep (limitsElems elems)
  | .objectFieldStart entries => .objectFieldStart (limitsEntries entries)
  | .objectFieldEnd entries key => .objectFieldEnd (limitsEntries entries) key
  | .objectValue entries key => .objectValue (limitsEntries entries) key
  | .objectSep entries => .objectSep (limitsEntries entries)

def Target.limits : Target → Target
  | .string => .string
  | .objectField entries => .objectField (limitsEntries entries)

def State.limits : State → State
  | .eatws saved => .eatws saved.limits
  | .commentStart saved => .commentStart saved.limits
  | .comment saved => .comment saved.limits
  | .commentEol saved => .commentEol saved.limits
  | .commentEnd saved => .commentEnd saved.limits
  | .literal value err rest => .literal value.limits err rest
  | .number pb => .number pb
  | .string target quote pb => .string target.limits quote pb
  | .stringEscape target quote pb => .stringEscape target.limits quote pb
  | .escapeUnicode target quote pb hi ucs pos =>
      .escapeUnicode target.limits quote pb hi ucs pos
  | .hiSurrogate target quote pb hi => .hiSurrogate target.limits quote pb hi
  | .hiSurrogateEscape target quote pb hi => .hiSurrogateEscape target.limits quote pb hi
  | .out result => .out (result.map Json.limits)

namespace Tokener

/-- The same state of the tokener in a thread whose `errno` is ERANGE all along. -/
def limits (t : Tokener) : Tokener := ⟨t.stack.map Level.limits, t.state.limits⟩

variable (stack : List Level) (c : UInt8)

theorem start_limits : (start stack c).limits = start (stack.map Level.limits) c := by
  unfold start
  split_ifs <;> simp [limits, State.limits, Saved.limits, Target.limits, Json.limits,
    limitsElems, limitsEntries, fail, Except.map]

theorem objectSep_limits (entries : Entries) :
    (objectSep stack entries c).limits =
      objectSep (stack.map Level.limits) (limitsEntries entries) c := by
  unfold objectSep
  split_ifs <;> simp [limits, State.limits, Saved.limits, Json.limits, fail, Except.map]

theorem arraySep_limits (elems : List Json) :
    (arraySep stack elems c).limits =
      arraySep (stack.map Level.limits) (limitsElems elems) c := by
  unfold arraySep
  split_ifs <;> simp [limits, State.limits, Saved.limits, Json.limits, fail, Except.map]

theorem finish_limits (v : Json) :
    (finish stack v c).limits = finish (stack.map Level.limits) v.limits c := by
  cases stack with
  | nil => rfl
  | cons level stack =>
      cases level with
      | array elems =>
          rw [finish, arraySep_limits, limitsElems_append]
          rfl
      | object entries key =>
          rw [finish, objectSep_limits, limitsEntries_objectAdd]
          rfl

theorem resume_limits (saved : Saved) :
    (resume stack saved c).limits = resume (stack.map Level.limits) saved.limits c := by
  cases saved with
  | start => exact start_limits stack c
  | finish v => exact finish_limits stack c v
  | array elems =>
      simp only [resume, Saved.limits, List.length_map]
      split_ifs
      · rfl
      · rfl
      · exact start_limits _ c
  | arraySep elems => exact arraySep_limits stack c elems
  | objectFieldStart entries =>
      simp only [resume, Saved.limits]
      split_ifs <;> rfl
  | objectFieldEnd entries key =>
      simp only [resume, Saved.limits]
      split_ifs <;> rfl
  | objectValue entries key =>
      simp only [resume, Saved.limits, List.length_map]
      split_ifs
      · rfl
      · exact start_limits _ c
  | objectSep entries => exact objectSep_limits stack c entries

theorem eatws_limits (saved : Saved) :
    (eatws stack saved c).limits = eatws (stack.map Level.limits) saved.limits c := by
  unfold eatws
  split_ifs
  · rfl
  · rfl
  · exact resume_limits stack c saved

theorem stringChar_limits (target : Target) (quote : UInt8) (pb : Bytes) :
    (stringChar stack target quote pb c).limits =
      stringChar (stack.map Level.limits) target.limits quote pb c := by
  unfold stringChar
  split_ifs
  · cases target <;> rfl
  · rfl
  · rfl

theorem escapeChar_limits (target : Target) (quote : UInt8) (pb : Bytes) :
    (escapeChar stack target quote pb c).limits =
      escapeChar (stack.map Level.limits) target.limits quote pb c := by
  unfold escapeChar
  cases simpleEscape c with
  | some b => rfl
  | none =>
      dsimp only
      split_ifs <;> rfl

theorem codePoint_limits (target : Target) (quote : UInt8) (pb : Bytes) (ucs : Nat) :
    (codePoint stack target quote pb ucs).limits =
      codePoint (stack.map Level.limits) target.limits quote pb ucs := by
  unfold codePoint
  split_ifs <;> rfl

theorem unicodeDone_limits (target : Target) (quote : UInt8) (pb : Bytes) (hi : Option Nat)
    (ucs : Nat) :
    (unicodeDone stack target quote pb hi ucs).limits =
      unicodeDone (stack.map Level.limits) target.limits quote pb hi ucs := by
  cases hi with
  | none => exact codePoint_limits stack target quote pb ucs
  | some hi =>
      simp only [unicodeDone]
      split_ifs <;> exact codePoint_limits stack target quote _ _

theorem unicodeChar_limits (target : Target) (quote : UInt8) (pb : Bytes) (hi : Option Nat)
    (ucs pos : Nat) :
    (unicodeChar stack target quote pb hi ucs pos c).limits =
      unicodeChar (stack.map Level.limits) target.limits quote pb hi ucs pos c := by
  unfold unicodeChar
  cases hexDigit c with
  | none => rfl
  | some d =>
      dsimp only
      split_ifs
      · exact unicodeDone_limits stack target quote pb hi _
      · rfl

theorem step_limits (state : State) (hstate : ∀ pb, state ≠ .number pb) :
    (step ⟨stack, state⟩ c).limits = step (limits ⟨stack, state⟩) c := by
  cases state with
  | eatws saved => exact eatws_limits stack c saved
  | commentStart saved =>
      simp only [step, limits, State.limits]
      split_ifs <;> rfl
  | comment saved =>
      simp only [step, limits, State.limits]
      split_ifs <;> rfl
  | commentEol saved =>
      simp only [step, limits, State.limits]
      split_ifs <;> rfl
  | commentEnd saved =>
      simp only [step, limits, State.limits]
      split_ifs <;> rfl
  | literal value err rest =>
      cases rest with
      | nil => exact eatws_limits stack c (.finish value)
      | cons r rest =>
          simp only [step, limits, State.limits]
          split_ifs <;> rfl
  | number pb => exact absurd rfl (hstate pb)
  | string target quote pb => exact stringChar_limits stack c target quote pb
  | stringEscape target quote pb => exact escapeChar_limits stack c target quote pb
  | escapeUnicode target quote pb hi ucs pos =>
      exact unicodeChar_limits stack c target quote pb hi ucs pos
  | hiSurrogate target quote pb hi =>
      simp only [step, limits, State.limits]
      split_ifs
      · rfl
      · exact stringChar_limits stack c target quote _
  | hiSurrogateEscape target quote pb hi =>
      simp only [step, limits, State.limits]
      split_ifs
      · rfl
      · exact escapeChar_limits stack c target quote _
  | out result => rfl

theorem eofFinish_limits (v : Json) :
    eofFinish (stack.map Level.limits) v.limits = (eofFinish stack v).map Json.limits := by
  cases stack <;> rfl

theorem eof_limits (state : State) (hstate : ∀ pb, state ≠ .number pb) :
    (limits ⟨stack, state⟩).eof = (eof ⟨stack, state⟩).map Json.limits := by
  cases state with
  | eatws saved =>
      cases saved with
      | finish v => exact eofFinish_limits stack v
      | _ => rfl
  | comment saved => cases saved <;> rfl
  | commentEol saved => cases saved <;> rfl
  | commentEnd saved => cases saved <;> rfl
  | literal value err rest =>
      cases rest with
      | nil => exact eofFinish_limits stack value
      | cons r rest => rfl
  | number pb => exact absurd rfl (hstate pb)
  | _ => rfl

end Tokener

section Runs

variable (strtod : Bytes → Bool) (erange : Bool)

theorem recheck_limits (neg : Bool) (value : Int) (text : Bytes) :
    recheck true neg value text = (limit (recheck erange neg value text).1, true) := by
  unfold recheck
  dsimp only
  generalize max (-2 ^ 63) (min value (2 ^ 63 - 1)) = num64
  by_cases hset : (erange || num64 != value || !reprints neg num64 text) = true
  · rw [if_pos hset]
    cases neg <;> simp [limit]
  · rw [if_neg hset]
    -- what was read has the sign that was written
    have hneg : neg = decide (num64 < 0) := by
      simp only [Bool.not_eq_true, Bool.or_eq_false_iff, Bool.not_eq_false', reprints,
        Bool.and_eq_true, beq_iff_eq] at hset
      exact hset.2.1.1
    simp [hneg, limit]

theorem parseInt64In_limits (pb : Bytes) :
    parseInt64In true pb = (parseInt64In erange pb).map fun r => (limit r.1, true) := by
  unfold parseInt64In
  dsimp only
  generalize (if (pb.head? == some 45) = true then pb.tail else pb) = body
  by_cases hdigits : body.takeWhile isDigit = []
  · rw [if_pos hdigits, if_pos hdigits]
    rfl
  · rw [if_neg hdigits, if_neg hdigits, recheck_limits erange, Option.map_some]

theorem parseNumberIn_limits (pb : Bytes) :
    parseNumberIn strtod true pb = ((parseNumberIn strtod erange pb).1.map Json.limits, true) := by
  unfold parseNumberIn
  split_ifs
  · simp [Json.limits]
  · rfl
  · rw [parseInt64In_limits erange]
    cases parseInt64In erange pb with
    | none => rfl
    | some r => simp [Json.limits]

namespace Tokener

theorem stepIn_limits (t : Tokener) (c : UInt8) :
    stepIn strtod (t.limits, true) c = ((stepIn strtod (t, erange) c).1.limits, true) := by
  obtain ⟨stack, state⟩ := t
  cases state with
  | number pb =>
      simp only [stepIn, limits, State.limits]
      split_ifs
      · rfl
      · rw [parseNumberIn_limits strtod erange]
        generalize parseNumberIn strtod erange pb = r
        obtain ⟨v, erange'⟩ := r
        cases v with
        | none => rfl
        | some v => exact congrArg (·, true) (eatws_limits stack c (.finish v)).symm
  | _ => exact congrArg (·, true) (step_limits stack c _ (fun pb => State.noConfusion)).symm

theorem foldl_limits (b : Bytes) (t : Tokener) :
    b.foldl (stepIn strtod) (t.limits, true) =
      ((b.foldl (stepIn strtod) (t, erange)).1.limits, true) := by
  induction b generalizing t erange with
  | nil => rfl
  | cons c b ih =>
      rw [List.foldl_cons, stepIn_limits strtod erange t c, ih (stepIn strtod (t, erange) c).2]
      rfl

theorem eofIn_limits (t : Tokener) :
    eofIn strtod (t.limits, true) = ((eofIn strtod (t, erange)).1.map Json.limits, true) := by
  obtain ⟨stack, state⟩ := t
  cases state with
  | number pb =>
      simp only [eofIn, limits, State.limits]
      rw [parseNumberIn_limits strtod erange]
      generalize parseNumberIn strtod erange pb = r
      obtain ⟨v, erange'⟩ := r
      cases v with
      | none => rfl
      | some v => exact congrArg (·, true) (eofFinish_limits stack v)
  | _ => exact congrArg (·, true) (eof_limits stack _ (fun pb => State.noConfusion))

/-- In a thread whose `errno` is ERANGE a text is read as in any other, but for its
integers, which are all at their limits. -/
theorem parseIn_limits (js : Bytes) :
    parseIn strtod true js = ((parseIn strtod erange js).1.map Json.limits, true) := by
  have hinit : (init, true) = (init.limits, true) := rfl
  rw [parseIn, hinit, foldl_limits strtod erange, eofIn_limits strtod _]
  rfl

end Tokener

end Runs

end Limits

end MmsSvr.JsonC
