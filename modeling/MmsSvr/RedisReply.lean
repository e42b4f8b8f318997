import MmsSvr.Lib.Parser
import MmsSvr.RedisReader

/-!
Replies of redis as trees: how they are encoded, and the grammar that the reader has to follow.
-/

namespace MmsSvr.Hiredis

open Lib

inductive Reply where
  | string (str : Bytes)
  | array (elements : List Reply)
  | integer (integer : Int)
  | nil
  | status (str : Bytes)
  | error (str : Bytes)
deriving Repr

inductive ReplyFault where
  | protocol (text : Bytes)
  | outOfMemory
  /-- The count of an array is no `int`, or the size of a bulk no `unsigned long`. -/
  | unfit
deriving DecidableEq, Repr

def crlf : Bytes := [13, 10]

section Grammar

abbrev ReplyParsed (ρ : Type) := Parsed ReplyFault UInt8 ρ

def line : Bytes → ReplyParsed Bytes
  | [] => .more
  | c :: b => if c = 13 ∧ b.head? = some 10 then .ok [] b.tail else (line b).map (c :: ·)

def lineValue (l : Bytes) : Int := readLongLong (l ++ crlf)

def block (n : Nat) (b : Bytes) : ReplyParsed Bytes :=
  if b.length < n then .more else .ok (b.take n) (b.drop n)

variable (machine : Machine)

/-- What follows the line of a bulk. The two bytes behind it can be any. The size has to fit an
`unsigned long` with all that can be in the buffer. -/
def bulk (n : Int) (b : Bytes) : ReplyParsed Reply :=
  if n < 0 then .ok .nil b
  else if 2 ^ machine.bits < n.toNat + 2 + 2 ^ 31 then .bad .unfit
  else (block (n.toNat + 2) b).map fun s => .string (s.take n.toNat)

/-- What follows the line of an array. -/
def counted (p : Bytes → ReplyParsed Reply) (n : Int) (b : Bytes) : ReplyParsed Reply :=
  if n = -1 then .ok .nil b
  else if n < -2 ^ 31 ∨ 2 ^ 31 ≤ n then .bad .unfit
  else if 0 ≤ n ∧ machine.calloc n.toNat then (many p n.toNat b).map .array
  else .bad .outOfMemory

/-- What follows the first byte; `elem` reads the elements of an array, where there can be one. -/
def typed (elem : Option (Bytes → ReplyParsed Reply)) (type : ReplyType) (b : Bytes) :
    ReplyParsed Reply :=
  match type with
  | .error => (line b).map .error
  | .status => (line b).map .status
  | .integer => (line b).map fun l => .integer (lineValue l)
  | .string => (line b).bind fun l => bulk machine (lineValue l)
  | .array =>
      match elem with
      | none => .bad (.protocol depthError)
      | some p => (line b).bind fun l => counted machine p (lineValue l)

def item (elem : Option (Bytes → ReplyParsed Reply)) : Bytes → ReplyParsed Reply
  | [] => .more
  | c :: b =>
      match replyType c with
      | none => .bad (.protocol (typeError c))
      | some type => typed machine elem type b

/-- A reply with arrays down to so many levels. -/
def parse : Nat → Bytes → ReplyParsed Reply
  | 0 => item machine none
  | depth + 1 => item machine (some (parse depth))

/-- A reply, at the depths that the stack has room for. -/
def parseReply : Bytes → ReplyParsed Reply := parse machine 8

end Grammar

section Encoding

def intText (v : Int) : Bytes := if v < 0 then 45 :: decimal v.natAbs else decimal v.natAbs

mutual

def Reply.encode : Reply → Bytes
  | .string str => 36 :: (decimal str.length ++ crlf ++ str ++ crlf)
  | .array elements => 42 :: (decimal elements.length ++ crlf ++ encodeAll elements)
  | .integer v => 58 :: (intText v ++ crlf)
  | .nil => lit "$-1\r\n"
  | .status str => 43 :: (str ++ crlf)
  | .error str => 45 :: (str ++ crlf)

def encodeAll : List Reply → Bytes
  | [] => []
  | r :: rs => r.encode ++ encodeAll rs

end

/-- The end of a line does not come early. -/
def OneLine (str : Bytes) : Prop := ¬ crlf <:+: str

mutual

/-- A reply that the protocol can carry, with arrays down to so many levels. -/
def Reply.Fits (machine : Machine) : Nat → Reply → Prop
  | _, .string str => str.length + 2 ≤ 2 ^ 31
  | 0, .array _ => False
  | depth + 1, .array elements =>
      elements.length < 2 ^ 31 ∧ machine.calloc elements.length = true ∧ AllFit machine depth elements
  | _, .integer v => v.natAbs < 2 ^ 63
  | _, .nil => True
  | _, .status str => OneLine str
  | _, .error str => OneLine str

def AllFit (machine : Machine) : Nat → List Reply → Prop
  | _, [] => True
  | depth, r :: rs => r.Fits machine depth ∧ AllFit machine depth rs

end

end Encoding

section Lines

theorem line_cons_of_end {c : UInt8} {b : Bytes} (h : c = 13 ∧ b.head? = some 10) :
    line (c :: b) = .ok [] b.tail := if_pos h

theorem line_cons_of_not_end {c : UInt8} {b : Bytes} (h : ¬ (c = 13 ∧ b.head? = some 10)) :
    line (c :: b) = (line b).map (c :: ·) := if_neg h

theorem line_ne_bad (b : Bytes) (e : ReplyFault) : line b ≠ .bad e := by
  induction b with
  | nil => exact nofun
  | cons c b ih =>
      by_cases hend : c = 13 ∧ b.head? = some 10
      · rw [line_cons_of_end hend]
        exact nofun
      · rw [line_cons_of_not_end hend]
        cases hline : line b with
        | more => exact nofun
        | bad e' =>
            rw [hline] at ih
            rintro h
            exact ih (by rw [← h]; rfl)
        | ok l rest => exact nofun

theorem line_eq_ok {b l rest : Bytes} (h : line b = .ok l rest) : b = l ++ crlf ++ rest := by
  induction b generalizing l with
  | nil => exact nomatch h
  | cons c b ih =>
      by_cases hend : c = 13 ∧ b.head? = some 10
      · rw [line_cons_of_end hend, Parsed.ok.injEq] at h
        obtain ⟨rfl, hhead⟩ := hend
        obtain ⟨b', rfl⟩ := List.head?_eq_some_iff.mp hhead
        rw [← h.1, ← h.2]
        rfl
      · rw [line_cons_of_not_end hend, Parsed.map_eq_ok_iff] at h
        obtain ⟨l', hl', rfl⟩ := h
        rw [ih hl']
        rfl

theorem stable_line : Stable line where
  ok {b rest l} y h := by
      induction b generalizing l with
      | nil => exact nomatch h
      | cons c b ih =>
          by_cases hend : c = 13 ∧ b.head? = some 10
          · rw [line_cons_of_end hend, Parsed.ok.injEq] at h
            obtain ⟨b', rfl⟩ := List.head?_eq_some_iff.mp hend.2
            rw [List.cons_append, line_cons_of_end ⟨hend.1, rfl⟩, Parsed.ok.injEq, ← h.2]
            exact ⟨h.1, rfl⟩
          · rw [line_cons_of_not_end hend, Parsed.map_eq_ok_iff] at h
            obtain ⟨l', hl', rfl⟩ := h
            have hne : b ≠ [] := by
              rintro rfl
              exact nomatch hl'
            have hend' : ¬ (c = 13 ∧ (b ++ y).head? = some 10) := by
              rwa [List.head?_append_of_ne_nil _ hne]
            rw [List.cons_append, line_cons_of_not_end hend', ih hl']
            rfl
  bad {b e} _ h := absurd h (line_ne_bad b e)

theorem reads_line {l : Bytes} (h : OneLine l) : Reads line (l ++ crlf) l := by
  intro rest
  induction l with
  | nil => rfl
  | cons c l ih =>
      have hl : OneLine l := fun hinner => h (hinner.trans (List.suffix_cons c l).isInfix)
      have hend : ¬ (c = 13 ∧ (l ++ crlf ++ rest).head? = some 10) := by
        rintro ⟨rfl, hhead⟩
        cases l with
        | nil => exact nomatch (List.head?_cons ▸ hhead : some (13 : UInt8) = some 10)
        | cons c' l =>
            rw [List.cons_append, List.cons_append, List.head?_cons, Option.some.injEq] at hhead
            exact h ⟨[], l, by rw [hhead]; rfl⟩
      rw [List.cons_append, List.cons_append, line_cons_of_not_end hend, ih hl]
      rfl

theorem oneLine_of_no_cr {l : Bytes} (h : ∀ c ∈ l, c ≠ 13) : OneLine l := by
  rintro ⟨s, t, rfl⟩
  exact h 13 (by simp [crlf]) rfl

end Lines

section Numbers

theorem readDigits_append (mult v : Int) (l b : Bytes) :
    readDigits mult v (l ++ 13 :: b) = readDigits mult v (l ++ [13]) := by
  induction l generalizing v with
  | nil => rfl
  | cons c l ih =>
      rw [List.cons_append, List.cons_append, readDigits, readDigits]
      split
      · rfl
      · split
        · exact ih _
        · rfl

theorem readLongLong_of_ne {c : UInt8} {s : Bytes} (hminus : c ≠ 45) (hplus : c ≠ 43) :
    readLongLong (c :: s) = readDigits 1 0 (c :: s) := by
  unfold readLongLong
  split
  · rename_i heq
    exact absurd (List.cons.inj heq).1 hminus
  · rename_i heq
    exact absurd (List.cons.inj heq).1 hplus
  · rfl

theorem readLongLong_append (l b : Bytes) : readLongLong (l ++ 13 :: b) = lineValue l := by
  rw [lineValue, crlf]
  cases l with
  | nil => rfl
  | cons c l =>
      rw [List.cons_append, List.cons_append]
      by_cases hminus : c = 45
      · rw [hminus]
        change readDigits (-1) 0 (l ++ 13 :: b) = readDigits (-1) 0 (l ++ 13 :: [10])
        rw [readDigits_append, readDigits_append _ _ _ [10]]
      · by_cases hplus : c = 43
        · rw [hplus]
          change readDigits 1 0 (l ++ 13 :: b) = readDigits 1 0 (l ++ 13 :: [10])
          rw [readDigits_append, readDigits_append _ _ _ [10]]
        · rw [readLongLong_of_ne hminus hplus, readLongLong_of_ne hminus hplus, ← List.cons_append,
            ← List.cons_append, readDigits_append, readDigits_append _ _ _ [10]]

theorem le_foldl_digits (l : Bytes) (n : Nat) :
    n ≤ l.foldl (fun n c => 10 * n + (c.toNat - 48)) n := by
  induction l generalizing n with
  | nil => exact Nat.le_refl n
  | cons c l ih =>
      have hle := ih (10 * n + (c.toNat - 48))
      rw [List.foldl_cons]
      omega

theorem readDigits_digits (mult : Int) {l : Bytes} (hl : ∀ c ∈ l, isDigit c = true) (b : Bytes)
    (n : Nat) (hn : l.foldl (fun n c => 10 * n + (c.toNat - 48)) n < 2 ^ 63) :
    readDigits mult n (l ++ 13 :: b) =
      intWord 64 (mult * (l.foldl (fun n c => 10 * n + (c.toNat - 48)) n : Nat)) := by
  induction l generalizing n with
  | nil => rfl
  | cons c l ih =>
      rw [List.forall_mem_cons] at hl
      rw [List.foldl_cons] at hn ⊢
      have hle := le_foldl_digits l (10 * n + (c.toNat - 48))
      have hdigit : 48 ≤ c.toNat ∧ c.toNat ≤ 57 := by
        have h := hl.1
        rw [isDigit, Bool.and_eq_true, decide_eq_true_eq, decide_eq_true_eq, UInt8.le_iff_toNat_le,
          UInt8.le_iff_toNat_le] at h
        exact h
      have hne : c ≠ 13 := by
        rintro rfl
        exact absurd hdigit.1 (by decide)
      have hpow : (2 : Nat) ^ 63 = 9223372036854775808 := by rfl
      have hmul : intWord 64 ((n : Int) * 10) = (n : Int) * 10 := by
        apply intWord_eq_of_natAbs
        omega
      have hadd : intWord 64 ((n : Int) * 10 + (c.toNat - 48)) =
          ((10 * n + (c.toNat - 48) : Nat) : Int) := by
        rw [intWord_eq_of_natAbs (by omega)]
        omega
      rw [List.cons_append, readDigits, if_neg hne, if_pos hl.1, hmul, hadd]
      exact ih hl.2 _ hn

theorem digitsValue_eq_foldl (n : Nat) :
    (decimal n).foldl (fun n c => 10 * n + (c.toNat - 48)) 0 = n := digitsValue_decimal n

theorem decimal_eq_cons (n : Nat) : ∃ c l, decimal n = c :: l ∧ c ≠ 45 ∧ c ≠ 43 := by
  cases hdec : decimal n with
  | nil => exact absurd hdec (decimal_ne_nil n)
  | cons c l =>
      have hdigit : isDigit c = true := decimal_isDigit n c (by rw [hdec]; exact List.mem_cons_self)
      refine ⟨c, l, rfl, ?_, ?_⟩
      · rintro rfl
        exact absurd hdigit (by decide)
      · rintro rfl
        exact absurd hdigit (by decide)

theorem readDigits_decimal (mult : Int) {n : Nat} (hn : n < 2 ^ 63) (b : Bytes) :
    readDigits mult 0 (decimal n ++ 13 :: b) = intWord 64 (mult * n) := by
  have hfold := digitsValue_eq_foldl n
  have hread := readDigits_digits mult (decimal_isDigit n) b 0 (by rw [hfold]; exact hn)
  rw [hfold] at hread
  exact hread

theorem lineValue_decimal {n : Nat} (hn : n < 2 ^ 63) : lineValue (decimal n) = n := by
  obtain ⟨c, l, hcons, hminus, hplus⟩ := decimal_eq_cons n
  have hread := readDigits_decimal 1 hn [10]
  rw [hcons, List.cons_append] at hread
  have hword : intWord 64 (1 * (n : Int)) = n := by
    rw [one_mul]
    apply intWord_eq_of_natAbs
    omega
  rw [lineValue, crlf, hcons, List.cons_append, readLongLong_of_ne hminus hplus, hread, hword]

theorem lineValue_intText {v : Int} (hv : v.natAbs < 2 ^ 63) : lineValue (intText v) = v := by
  rw [intText]
  split
  · have hread := readDigits_decimal (-1) hv [10]
    change readDigits (-1) 0 (decimal v.natAbs ++ 13 :: [10]) = v
    rw [hread]
    have hword : intWord 64 (-1 * (v.natAbs : Int)) = -1 * (v.natAbs : Int) := by
      apply intWord_eq_of_natAbs
      omega
    rw [hword]
    omega
  · rw [lineValue_decimal hv]
    omega

theorem no_cr_decimal (n : Nat) : ∀ c ∈ decimal n, c ≠ 13 := by
  rintro c hc rfl
  exact absurd (decimal_isDigit n 13 hc) (by decide)

theorem oneLine_decimal (n : Nat) : OneLine (decimal n) := oneLine_of_no_cr (no_cr_decimal n)

theorem oneLine_intText (v : Int) : OneLine (intText v) := by
  rw [intText]
  split
  · apply oneLine_of_no_cr
    rw [List.forall_mem_cons]
    exact ⟨by decide, no_cr_decimal _⟩
  · exact oneLine_decimal _

end Numbers

section Stable

variable {machine : Machine}

theorem stable_block (n : Nat) : Stable (block n) where
  ok {b rest l} y h := by
      rw [block] at h ⊢
      split at h
      · exact nomatch h
      · rename_i hlen
        rw [Parsed.ok.injEq] at h
        have hle : n ≤ b.length := Nat.le_of_not_lt hlen
        rw [List.length_append, if_neg (by omega), List.take_append_of_le_length hle,
          List.drop_append_of_le_length hle, h.1, h.2]
  bad {b e} _ h := by
      rw [block] at h
      split at h
      · exact nomatch h
      · exact nomatch h

section Bulk

variable {n : Int} {b : Bytes} (hneg : ¬ n < 0) (hfit : ¬ 2 ^ machine.bits < n.toNat + 2 + 2 ^ 31)
include hneg hfit

theorem bulk_of_enough (hlen : n.toNat + 2 ≤ b.length) :
    bulk machine n b = .ok (.string (b.take n.toNat)) (b.drop (n.toNat + 2)) := by
  rw [bulk, if_neg hneg, if_neg hfit, block, if_neg (Nat.not_lt.mpr hlen)]
  change Parsed.ok (Reply.string ((b.take _).take _)) _ = _
  rw [List.take_take, Nat.min_eq_left (Nat.le_add_right _ _)]

theorem bulk_of_short (hlen : b.length < n.toNat + 2) : bulk machine n b = .more := by
  rw [bulk, if_neg hneg, if_neg hfit, block, if_pos hlen]
  rfl

end Bulk

theorem stable_bulk (n : Int) : Stable (bulk machine n) := by
  unfold bulk
  split
  · exact stable_ok Reply.nil
  · split
    · exact stable_bad ReplyFault.unfit
    · exact (stable_block _).map _

theorem stable_counted {p : Bytes → ReplyParsed Reply} (hp : Stable p) (n : Int) :
    Stable (counted machine p n) := by
  unfold counted
  split
  · exact stable_ok Reply.nil
  · split
    · exact stable_bad ReplyFault.unfit
    · split
      · exact (hp.many n.toNat).map Reply.array
      · exact stable_bad ReplyFault.outOfMemory

theorem stable_typed {elem : Option (Bytes → ReplyParsed Reply)} (helem : ∀ p ∈ elem, Stable p)
    (type : ReplyType) : Stable (typed machine elem type) := by
  cases type with
  | string => exact stable_line.bind fun l => stable_bulk _
  | array =>
      cases elem with
      | none => exact stable_bad _
      | some p => exact stable_line.bind fun l => stable_counted (helem p rfl) _
  | integer => exact stable_line.map _
  | status => exact stable_line.map _
  | error => exact stable_line.map _

theorem stable_item {elem : Option (Bytes → ReplyParsed Reply)} (helem : ∀ p ∈ elem, Stable p) :
    Stable (item machine elem) where
  ok {b rest reply} y h := by
      cases b with
      | nil => exact nomatch h
      | cons c b =>
          rw [item] at h
          rw [List.cons_append, item]
          split at h
          · exact nomatch h
          · exact (stable_typed helem _).ok y h
  bad {b e} y h := by
      cases b with
      | nil => exact nomatch h
      | cons c b =>
          rw [item] at h
          rw [List.cons_append, item]
          split at h
          · exact h
          · exact (stable_typed helem _).bad y h

theorem stable_parse (depth : Nat) : Stable (parse machine depth) := by
  induction depth with
  | zero => exact stable_item nofun
  | succ depth ih =>
      apply stable_item
      rintro p hp
      rw [Option.mem_some_iff] at hp
      rw [← hp]
      exact ih

end Stable

section Uses

variable {machine : Machine}

theorem length_of_line {b l rest : Bytes} (h : line b = .ok l rest) : rest.length < b.length := by
  rw [line_eq_ok h, List.length_append, List.length_append]
  simp [crlf]

theorem length_of_bulk {n : Int} {b rest : Bytes} {reply : Reply}
    (h : bulk machine n b = .ok reply rest) : rest.length ≤ b.length := by
  rw [bulk] at h
  split at h
  · rw [Parsed.ok.injEq] at h
    rw [h.2]
  · split at h
    · exact nomatch h
    · obtain ⟨s, hs, -⟩ := Parsed.map_eq_ok_iff.mp h
      rw [block] at hs
      split at hs
      · exact nomatch hs
      · rw [Parsed.ok.injEq] at hs
        rw [← hs.2, List.length_drop]
        omega

theorem length_of_counted {p : Bytes → ReplyParsed Reply} (hp : Uses p) {n : Int}
    {b rest : Bytes} {reply : Reply} (h : counted machine p n b = .ok reply rest) :
    rest.length ≤ b.length := by
  rw [counted] at h
  split at h
  · rw [Parsed.ok.injEq] at h
    rw [h.2]
  · split at h
    · exact nomatch h
    · split at h
      · obtain ⟨replies, hmany, -⟩ := Parsed.map_eq_ok_iff.mp h
        exact length_le_of_many hp hmany
      · exact nomatch h

theorem length_of_typed {elem : Option (Bytes → ReplyParsed Reply)} (helem : ∀ p ∈ elem, Uses p)
    {type : ReplyType} {b rest : Bytes} {reply : Reply}
    (h : typed machine elem type b = .ok reply rest) : rest.length < b.length := by
  have hline : ∀ make : Bytes → Reply, (line b).map make = .ok reply rest →
      rest.length < b.length := by
    intro make hmake
    obtain ⟨l, hl, -⟩ := Parsed.map_eq_ok_iff.mp hmake
    exact length_of_line hl
  cases type with
  | string =>
      obtain ⟨l, b', hl, hbulk⟩ := Parsed.bind_eq_ok_iff.mp h
      exact Nat.lt_of_le_of_lt (length_of_bulk hbulk) (length_of_line hl)
  | array =>
      cases elem with
      | none => exact nomatch h
      | some p =>
          obtain ⟨l, b', hl, hcounted⟩ := Parsed.bind_eq_ok_iff.mp h
          have hle := length_of_counted (helem p rfl) hcounted
          exact Nat.lt_of_le_of_lt hle (length_of_line hl)
  | integer => exact hline _ h
  | status => exact hline _ h
  | error => exact hline _ h

theorem uses_item {elem : Option (Bytes → ReplyParsed Reply)} (helem : ∀ p ∈ elem, Uses p) :
    Uses (item machine elem) := by
  intro b rest reply h
  cases b with
  | nil => exact nomatch h
  | cons c b =>
      rw [item] at h
      split at h
      · exact nomatch h
      · have hlt := length_of_typed helem h
        rw [List.length_cons]
        omega

theorem uses_parse (depth : Nat) : Uses (parse machine depth) := by
  induction depth with
  | zero =>
      apply uses_item
      rintro p ⟨⟩
  | succ depth ih =>
      apply uses_item
      rintro p hp
      rw [Option.mem_some_iff] at hp
      rw [← hp]
      exact ih

end Uses

section RoundTrip

variable {machine : Machine}

theorem reads_block (l : Bytes) : Reads (block l.length) l l := by
  intro rest
  rw [block, List.length_append, if_neg (by omega), List.take_left, List.drop_left]

theorem reads_bulk {str : Bytes} (hstr : str.length + 2 ≤ 2 ^ 31) :
    Reads (bulk machine str.length) (str ++ crlf) (.string str) := by
  intro rest
  have hneg : ¬ (str.length : Int) < 0 := by omega
  have hfit : ¬ 2 ^ machine.bits < (str.length : Int).toNat + 2 + 2 ^ 31 := by
    have hbits := machine.two_pow_le
    omega
  have hlen : (str.length : Int).toNat + 2 = (str ++ crlf).length := by
    rw [List.length_append]
    rfl
  rw [bulk, if_neg hneg, if_neg hfit, hlen, reads_block, Parsed.map, Parsed.bind_ok,
    Int.toNat_natCast, List.take_left]

theorem reads_item {elem : Option (Bytes → ReplyParsed Reply)} {c : UInt8} {t : ReplyType}
    {b : Bytes} {reply : Reply} (hc : replyType c = some t)
    (h : Reads (typed machine elem t) b reply) : Reads (item machine elem) (c :: b) reply := by
  intro rest
  rw [List.cons_append, item, hc]
  exact h rest

theorem encodeAll_eq_flatMap (rs : List Reply) : encodeAll rs = rs.flatMap Reply.encode := by
  induction rs with
  | nil => rfl
  | cons r rs ih => rw [encodeAll, ih, List.flatMap_cons]

theorem allFit_iff {depth : Nat} {rs : List Reply} :
    AllFit machine depth rs ↔ ∀ r ∈ rs, r.Fits machine depth := by
  induction rs with
  | nil => simp [AllFit]
  | cons r rs ih => rw [AllFit, ih, List.forall_mem_cons]

theorem counted_natCast (p : Bytes → ReplyParsed Reply) {n : Nat} (hn : n < 2 ^ 31)
    (hcalloc : machine.calloc n = true) (b : Bytes) :
    counted machine p n b = (many p n b).map .array := by
  have hnil : ¬ (n : Int) = -1 := by omega
  have hfit : ¬ ((n : Int) < -2 ^ 31 ∨ 2 ^ 31 ≤ (n : Int)) := by omega
  have hzero : 0 ≤ (n : Int) ∧ machine.calloc (n : Int).toNat = true := ⟨by omega, hcalloc⟩
  rw [counted, if_neg hnil, if_neg hfit, if_pos hzero, Int.toNat_natCast]

theorem reads_counted {p : Bytes → ReplyParsed Reply} {rs : List Reply}
    (hp : ∀ r ∈ rs, Reads p r.encode r) (hlen : rs.length < 2 ^ 31)
    (hcalloc : machine.calloc rs.length = true) :
    Reads (counted machine p rs.length) (encodeAll rs) (.array rs) := by
  intro rest
  rw [counted_natCast p hlen hcalloc, encodeAll_eq_flatMap, Reads.many hp]
  rfl

theorem reads_line_map {l : Bytes} (h : OneLine l) (make : Bytes → Reply) :
    Reads (fun b => (line b).map make) (l ++ crlf) (make l) := by
  intro rest
  change (line (l ++ crlf ++ rest)).map make = _
  rw [reads_line h]
  rfl

theorem reads_line_bind {l b : Bytes} {reply : Reply} {f : Bytes → Bytes → ReplyParsed Reply}
    (h : OneLine l) (hf : Reads (f l) b reply) :
    Reads (fun x => (line x).bind f) (l ++ crlf ++ b) reply :=
  (reads_line h).bind hf

theorem reads_typed_leaf {elem : Option (Bytes → ReplyParsed Reply)} {n : Nat} {r : Reply}
    (hr : r.Fits machine n) (hleaf : ∀ rs, r ≠ .array rs) :
    Reads (item machine elem) r.encode r := by
  cases r with
  | string str =>
      rw [Reply.Fits] at hr
      rw [Reply.encode]
      refine reads_item (t := .string) rfl ?_
      rw [List.append_assoc]
      apply reads_line_bind (oneLine_decimal _)
      rw [lineValue_decimal (by omega)]
      exact reads_bulk hr
  | array rs => exact absurd rfl (hleaf rs)
  | integer v =>
      rw [Reply.Fits] at hr
      rw [Reply.encode]
      refine reads_item (t := .integer) rfl ?_
      have hread := reads_line_map (oneLine_intText v) fun l => .integer (lineValue l)
      rw [lineValue_intText hr] at hread
      exact hread
  | nil => exact fun rest => rfl
  | status str =>
      rw [Reply.encode]
      exact reads_item (t := .status) rfl (reads_line_map hr .status)
  | error str =>
      rw [Reply.encode]
      exact reads_item (t := .error) rfl (reads_line_map hr .error)

/-- A reply is read off its encoding. -/
theorem reads_parse {depth : Nat} {r : Reply} (hr : r.Fits machine depth) :
    Reads (parse machine depth) r.encode r := by
  induction depth generalizing r with
  | zero =>
      apply reads_typed_leaf hr
      rintro rs rfl
      exact hr
  | succ depth ih =>
      cases r with
      | array rs =>
          obtain ⟨hlen, hcalloc, hall⟩ := hr
          rw [Reply.encode]
          refine reads_item (t := .array) rfl ?_
          apply reads_line_bind (oneLine_decimal _)
          have hlt : rs.length < 2 ^ 63 := Nat.lt_trans hlen (by decide)
          rw [lineValue_decimal hlt]
          rw [allFit_iff] at hall
          exact reads_counted (fun r hr => ih (hall r hr)) hlen hcalloc
      | string str => exact reads_typed_leaf hr nofun
      | integer v => exact reads_typed_leaf hr nofun
      | nil => exact reads_typed_leaf (n := 0) trivial nofun
      | status str => exact reads_typed_leaf hr nofun
      | error str => exact reads_typed_leaf hr nofun

end RoundTrip

end MmsSvr.Hiredis
