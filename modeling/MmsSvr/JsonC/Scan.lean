import MmsSvr.JsonC.Tokener
import Mathlib.Data.List.Induction

/-!
How the tokener reads printed text: strings without quotes or backslashes,
numerals, and objects whose members are printed one after the other.
-/

namespace MmsSvr.JsonC.Tokener

/-- A string the tokener copies byte by byte between double quotes. -/
def Clean (s : Bytes) : Prop := dquote ∉ s ∧ backslash ∉ s

instance (s : Bytes) : Decidable (Clean s) := inferInstanceAs (Decidable (_ ∧ _))

theorem foldl_out (stack : List Level) (r : Except TokenerError Json) (b : Bytes) :
    b.foldl step ⟨stack, .out r⟩ = ⟨stack, .out r⟩ := by
  induction b with
  | nil => rfl
  | cons c b ih => exact ih

theorem foldl_string (stack : List Level) (target : Target) (pb s : Bytes) (hs : Clean s) :
    s.foldl step ⟨stack, .string target dquote pb⟩ =
      ⟨stack, .string target dquote (pb ++ s)⟩ := by
  induction s generalizing pb with
  | nil => simp
  | cons c s ih =>
      obtain ⟨hquote, hslash⟩ := hs
      rw [List.mem_cons, not_or] at hquote hslash
      have hstep : step ⟨stack, .string target dquote pb⟩ c =
          ⟨stack, .string target dquote (pb ++ [c])⟩ := by
        simp only [step, stringChar]
        rw [if_neg (Ne.symm hquote.1), if_neg (Ne.symm hslash.1)]
      rw [List.foldl_cons, hstep, ih _ ⟨hquote.2, hslash.2⟩, List.append_assoc]
      rfl

theorem foldl_closed_string (stack : List Level) (target : Target) (s : Bytes)
    (hs : Clean s) :
    (s ++ [dquote]).foldl step ⟨stack, .string target dquote []⟩ =
      closeString stack target s := by
  rw [List.foldl_append, foldl_string stack target [] s hs]
  cases target <;> simp [step, stringChar, closeString]

theorem ne_of_isDigit {c d : UInt8} (hc : isDigit c = true) (hd : isDigit d = false) :
    c ≠ d := by
  rintro rfl
  rw [hc] at hd
  exact absurd hd (by decide)

theorem isNumberChar_of_isDigit {c : UInt8} (hc : isDigit c = true) :
    isNumberChar c = true := by
  simp [isNumberChar, hc]

theorem foldl_number (stack : List Level) (pb s : Bytes)
    (hs : ∀ c ∈ s, isNumberChar c = true) :
    s.foldl step ⟨stack, .number pb⟩ = ⟨stack, .number (pb ++ s)⟩ := by
  induction s generalizing pb with
  | nil => simp
  | cons c s ih =>
      have hstep : step ⟨stack, .number pb⟩ c = ⟨stack, .number (pb ++ [c])⟩ := by
        simp only [step]
        rw [if_pos (hs c (by simp))]
      rw [List.foldl_cons, hstep, ih _ fun d hd => hs d (by simp [hd]), List.append_assoc]
      rfl

def IsDelim (c : UInt8) : Prop := c = 44 ∨ c = 125

/-- Read as the value of a member, with room for `room` more levels, the text
gives `v`. -/
def ValueText (room : Nat) (text : Bytes) (v : Json) : Prop :=
  ∀ (stack : List Level) (entries : Entries) (key : Bytes) (c : UInt8),
    stack.length + room ≤ maxDepth → IsDelim c →
      (text ++ [c]).foldl step ⟨stack, .eatws (.objectValue entries key)⟩ =
        objectSep stack (objectAdd entries key v) c

theorem step_objectValue {stack : List Level} {entries : Entries} {key : Bytes} {c : UInt8}
    (hroom : stack.length + 1 ≤ maxDepth) (hspace : isSpace c = false) (hslash : c ≠ 47) :
    step ⟨stack, .eatws (.objectValue entries key)⟩ c =
      start (.object entries key :: stack) c := by
  have hdepth : ¬ maxDepth ≤ stack.length := by omega
  simp [step, eatws, resume, hspace, hslash, hdepth]

theorem step_finish {stack : List Level} {entries : Entries} {key : Bytes} {v : Json}
    {c : UInt8} (hc : IsDelim c) :
    eatws (.object entries key :: stack) (.finish v) c =
      objectSep stack (objectAdd entries key v) c := by
  rcases hc with rfl | rfl <;> rfl

theorem valueText_string (s : Bytes) (hs : Clean s) (hnul : (0 : UInt8) ∉ s) :
    ValueText 1 (dquote :: s ++ [dquote]) (.string s) := by
  intro stack entries key c hroom hc
  rw [List.cons_append, List.cons_append, List.foldl_cons,
    step_objectValue hroom (by decide) (by decide)]
  change (s ++ [dquote] ++ [c]).foldl step
    ⟨.object entries key :: stack, .string .string dquote []⟩ = _
  rw [List.foldl_append, foldl_closed_string _ _ s hs]
  simp only [closeString, cstr_of_nulFree hnul, List.foldl_cons, List.foldl_nil, step]
  exact step_finish hc

theorem start_digit (stack : List Level) {c : UInt8} (hc : isDigit c = true) :
    start stack c = ⟨stack, .number [c]⟩ := by
  have hne := fun d hd => ne_of_isDigit (d := d) hc hd
  simp [start, hc, hne 123 rfl, hne 91 rfl, hne 78 rfl, hne 110 rfl, hne 34 rfl,
    hne 39 rfl, hne 84 rfl, hne 116 rfl, hne 70 rfl, hne 102 rfl]

theorem isSpace_of_isDigit {c : UInt8} (hc : isDigit c = true) : isSpace c = false := by
  have hrange : 48 ≤ c ∧ c ≤ 57 := by simpa [isDigit] using hc
  have hbig : ¬ c ≤ 13 := by
    intro hle
    have hlow : 48 ≤ c.toNat := hrange.1
    have hhigh : c.toNat ≤ 13 := hle
    omega
  simp [isSpace, ne_of_isDigit hc (d := 32) rfl, hbig]

theorem valueText_number (c : UInt8) (s : Bytes) (v : Json)
    (hstart : isDigit c = true ∨ c = 45) (hs : ∀ d ∈ s, isNumberChar d = true)
    (hparse : parseNumber (c :: s) = some v) :
    ValueText 1 (c :: s) v := by
  intro stack entries key d hroom hd
  have hstartEq : start (.object entries key :: stack) c =
      ⟨.object entries key :: stack, .number [c]⟩ := by
    rcases hstart with hdigit | rfl
    · exact start_digit _ hdigit
    · rfl
  have hspace : isSpace c = false ∧ c ≠ 47 := by
    rcases hstart with hdigit | rfl
    · exact ⟨isSpace_of_isDigit hdigit, ne_of_isDigit hdigit rfl⟩
    · exact ⟨by decide, by decide⟩
  have hdelim : isNumberChar d = false := by
    rcases hd with rfl | rfl <;> rfl
  rw [List.cons_append, List.foldl_cons, step_objectValue hroom hspace.1 hspace.2, hstartEq,
    List.foldl_append, foldl_number _ _ s hs]
  simp only [List.foldl_cons, List.foldl_nil, step, hdelim, List.singleton_append, hparse,
    Bool.false_eq_true, if_false]
  exact step_finish hd

theorem takeWhile_isDigit {s : Bytes} (hs : ∀ c ∈ s, isDigit c = true) :
    s.takeWhile isDigit = s :=
  List.takeWhile_eq_self_iff.mpr hs

theorem isDoubleChar_of_isDigit {c : UInt8} (hc : isDigit c = true) :
    isDoubleChar c = false := by
  have hne := fun d hd => ne_of_isDigit (d := d) hc hd
  simp [isDoubleChar, hne 46 rfl, hne 101 rfl, hne 69 rfl]

theorem skipZeros_append_singleton {s : Bytes} (hne : s ≠ []) (c : UInt8) :
    skipZeros (s ++ [c]) = if skipZeros s = [48] then [c] else skipZeros s ++ [c] := by
  induction s with
  | nil => exact absurd rfl hne
  | cons d s ih =>
      cases s with
      | nil =>
          by_cases hd : d = 48
          · simp [skipZeros, hd]
          · simp [skipZeros, hd]
      | cons e s =>
          by_cases hd : d = 48
          · simpa [skipZeros, hd] using ih (by simp)
          · simp [skipZeros, hd]

theorem decimal_digitsValue {s : Bytes} (hne : s ≠ []) (hs : ∀ c ∈ s, isDigit c = true) :
    decimal (digitsValue s) = skipZeros s := by
  induction s using List.reverseRecOn with
  | nil => exact absurd rfl hne
  | append_singleton s c ih =>
      have hc : 48 ≤ c.toNat ∧ c.toNat ≤ 57 := by
        have hdigit := hs c (by simp)
        simp only [isDigit, Bool.and_eq_true, decide_eq_true_eq] at hdigit
        exact hdigit
      have hbyte : UInt8.ofNat (48 + (c.toNat - 48)) = c := by
        rw [Nat.add_sub_cancel' hc.1, UInt8.ofNat_toNat]
      rw [digitsValue_append_singleton]
      by_cases hnil : s = []
      · subst hnil
        have hlow : 10 * digitsValue [] + (c.toNat - 48) = c.toNat - 48 := Nat.zero_add _
        rw [hlow, decimal_of_lt (by omega), hbyte]
        rfl
      · have hrest := ih hnil fun d hd => hs d (by simp [hd])
        rw [skipZeros_append_singleton hnil, ← hrest]
        by_cases hzero : digitsValue s = 0
        · have hlow : 10 * digitsValue s + (c.toNat - 48) = c.toNat - 48 := by omega
          rw [hlow, decimal_of_lt (by omega), hbyte, hzero]
          rfl
        · have hprint : decimal (digitsValue s) ≠ [48] := by
            intro h
            exact hzero (by rw [← digitsValue_decimal (digitsValue s), h]; rfl)
          have hdiv : (10 * digitsValue s + (c.toNat - 48)) / 10 = digitsValue s := by omega
          have hmod : (10 * digitsValue s + (c.toNat - 48)) % 10 = c.toNat - 48 := by omega
          rw [decimal_of_le (by omega), hdiv, hmod, hbyte, if_neg hprint]

theorem recheck_eq {neg : Bool} {value : Int} {text : Bytes} (hmin : -2 ^ 63 ≤ value)
    (hmax : value < 2 ^ 63) (hneg : neg = decide (value < 0))
    (htext : text = decimal value.natAbs) : recheck false neg value text = (value, false) := by
  have hnum : max (-2 ^ 63) (min value (2 ^ 63 - 1)) = value := by omega
  rw [recheck, hnum, htext, hneg]
  simp [reprints]

theorem any_isDoubleChar_of_isDigit {s : Bytes} (hs : ∀ c ∈ s, isDigit c = true) :
    s.any isDoubleChar = false := by
  rw [List.any_eq_false]
  intro c hc
  simp [isDoubleChar_of_isDigit (hs c hc)]

theorem parseNumber_digits {s : Bytes} (hne : s ≠ []) (hs : ∀ c ∈ s, isDigit c = true)
    (hmax : digitsValue s < 2 ^ 63) : parseNumber s = some (.int (digitsValue s)) := by
  have hsign : (s.head? == some 45) = false := by
    rw [beq_eq_false_iff_ne]
    intro h
    exact absurd (hs 45 (List.mem_of_mem_head? h)) (by decide)
  have hcheck : recheck false false (digitsValue s) (skipZeros s) = (↑(digitsValue s), false) :=
    recheck_eq (by omega) (by omega) (by simp) (by simp [decimal_digitsValue hne hs])
  rw [parseNumber, any_isDoubleChar_of_isDigit hs, parseInt64, parseInt64In]
  simp [hsign, takeWhile_isDigit hs, hne, hcheck]

theorem parseNumber_minus {s : Bytes} (hne : s ≠ []) (hs : ∀ c ∈ s, isDigit c = true)
    (hmax : digitsValue s ≤ 2 ^ 63) : parseNumber (45 :: s) = some (.int (-digitsValue s)) := by
  have hdouble : (45 :: s).any isDoubleChar = false := by
    rw [List.any_cons, any_isDoubleChar_of_isDigit hs]
    rfl
  have hneg : (skipZeros s != [48]) = decide (-(digitsValue s : Int) < 0) := by
    rw [← decimal_digitsValue hne hs, Bool.eq_iff_iff, bne_iff_ne, decide_eq_true_iff]
    refine ⟨?_, ?_⟩
    · intro h
      have hpos : digitsValue s ≠ 0 := fun hzero => h (by rw [hzero]; rfl)
      omega
    · intro h hzero
      have hvalue := digitsValue_decimal (digitsValue s)
      rw [hzero] at hvalue
      have hnil : digitsValue [48] = 0 := rfl
      omega
  have hcheck : recheck false (skipZeros s != [48]) (-digitsValue s) (skipZeros s) =
      (-↑(digitsValue s), false) :=
    recheck_eq (by omega) (by omega) hneg (by simp [decimal_digitsValue hne hs])
  rw [parseNumber, hdouble, parseInt64, parseInt64In]
  simp [takeWhile_isDigit hs, hne, hcheck, -bne_iff_ne]

theorem parseNumber_decimal {n : Nat} (hn : n < 2 ^ 63) :
    parseNumber (decimal n) = some (.int n) := by
  have hvalue := digitsValue_decimal n
  rw [parseNumber_digits (decimal_ne_nil n) (decimal_isDigit n) (by omega), hvalue]

theorem valueText_decimal (n : Nat) (hn : n < 2 ^ 63) :
    ValueText 1 (decimal n) (.int n) := by
  have hdigits := decimal_isDigit n
  have hparse := parseNumber_decimal hn
  rcases hsplit : decimal n with _ | ⟨c, s⟩
  · exact absurd hsplit (decimal_ne_nil n)
  · rw [hsplit] at hdigits hparse
    exact valueText_number c s _ (Or.inl (hdigits c (by simp)))
      (fun d hd => isNumberChar_of_isDigit (hdigits d (by simp [hd]))) hparse

theorem valueText_negative (n : Nat) (hn : n ≤ 2 ^ 63) :
    ValueText 1 (45 :: decimal n) (.int (-n)) := by
  refine valueText_number 45 (decimal n) _ (Or.inr rfl)
    (fun d hd => isNumberChar_of_isDigit (decimal_isDigit n d hd)) ?_
  have hvalue := digitsValue_decimal n
  rw [parseNumber_minus (decimal_ne_nil n) (decimal_isDigit n) (by omega), hvalue]

theorem valueText_true : ValueText 1 (lit "true") (.boolean true) := by
  intro stack entries key c hroom hc
  change (_ :: _).foldl step _ = _
  rw [List.foldl_cons, step_objectValue hroom (by decide) (by decide)]
  exact step_finish hc

theorem valueText_false : ValueText 1 (lit "false") (.boolean false) := by
  intro stack entries key c hroom hc
  change (_ :: _).foldl step _ = _
  rw [List.foldl_cons, step_objectValue hroom (by decide) (by decide)]
  exact step_finish hc

/-- A printed member: its name, the text of its value and the value meant. -/
structure Member where
  key : Bytes
  text : Bytes
  value : Json

namespace Member

def print (m : Member) : Bytes := dquote :: m.key ++ [dquote, 58] ++ m.text

structure Reads (room : Nat) (m : Member) : Prop where
  clean : Clean m.key
  nulFree : (0 : UInt8) ∉ m.key
  text : ValueText room m.text m.value

end Member

def printMembers : List Member → Bytes
  | [] => []
  | [m] => m.print
  | m :: n :: ms => m.print ++ 44 :: printMembers (n :: ms)

def printObject (ms : List Member) : Bytes := 123 :: printMembers ms ++ [125]

def addMembers (entries : Entries) (ms : List Member) : Entries :=
  ms.foldl (fun entries m => objectAdd entries m.key m.value) entries

theorem foldl_name {key : Bytes} (hclean : Clean key) (hnul : (0 : UInt8) ∉ key)
    (stack : List Level) (entries : Entries) :
    (dquote :: key ++ [dquote, 58]).foldl step ⟨stack, .eatws (.objectFieldStart entries)⟩ =
      ⟨stack, .eatws (.objectValue entries key)⟩ := by
  have hsplit : dquote :: key ++ [dquote, 58] = dquote :: ((key ++ [dquote]) ++ [58]) := by simp
  have hopen : step ⟨stack, .eatws (.objectFieldStart entries)⟩ dquote =
      ⟨stack, .string (.objectField entries) dquote []⟩ := rfl
  rw [hsplit, List.foldl_cons, hopen, List.foldl_append, foldl_closed_string _ _ _ hclean]
  simp only [closeString, cstr_of_nulFree hnul]
  rfl

theorem foldl_member {room : Nat} {m : Member} (hm : m.Reads room) {stack : List Level}
    (hroom : stack.length + room ≤ maxDepth) (entries : Entries) {c : UInt8}
    (hc : IsDelim c) :
    (m.print ++ [c]).foldl step ⟨stack, .eatws (.objectFieldStart entries)⟩ =
      objectSep stack (objectAdd entries m.key m.value) c := by
  rw [Member.print, List.append_assoc, List.foldl_append, foldl_name hm.clean hm.nulFree]
  exact hm.text stack entries m.key c hroom hc

theorem foldl_members {room : Nat} {stack : List Level}
    (hroom : stack.length + room ≤ maxDepth) (ms : List Member) (hne : ms ≠ [])
    (hms : ∀ m ∈ ms, m.Reads room) (entries : Entries) :
    (printMembers ms ++ [125]).foldl step ⟨stack, .eatws (.objectFieldStart entries)⟩ =
      ⟨stack, .eatws (.finish (.object (addMembers entries ms)))⟩ := by
  induction ms generalizing entries with
  | nil => exact absurd rfl hne
  | cons m ms ih =>
      have hm := hms m (by simp)
      cases ms with
      | nil => exact foldl_member hm hroom entries (Or.inr rfl)
      | cons n ms =>
          have hsplit : printMembers (m :: n :: ms) ++ [125] =
              (m.print ++ [44]) ++ (printMembers (n :: ms) ++ [125]) := by
            simp [printMembers]
          rw [hsplit, List.foldl_append, foldl_member hm hroom entries (Or.inl rfl)]
          exact ih (by simp) (fun k hk => hms k (by simp [hk]))
            (objectAdd entries m.key m.value)

theorem valueText_object {room : Nat} (ms : List Member) (hne : ms ≠ [])
    (hms : ∀ m ∈ ms, m.Reads room) :
    ValueText (room + 1) (printObject ms) (.object (addMembers [] ms)) := by
  intro stack entries key c hroom hc
  have hopen : step ⟨stack, .eatws (.objectValue entries key)⟩ 123 =
      ⟨.object entries key :: stack, .eatws (.objectFieldStart [])⟩ := by
    rw [step_objectValue (by omega) (by decide) (by decide)]
    rfl
  rw [printObject, List.cons_append, List.cons_append, List.foldl_cons, hopen,
    List.foldl_append, foldl_members (by simp only [List.length_cons]; omega) ms hne hms]
  exact step_finish hc

theorem parse_printObject {room : Nat} (hroom : room ≤ maxDepth) (ms : List Member)
    (hne : ms ≠ []) (hms : ∀ m ∈ ms, m.Reads room) (hnul : (0 : UInt8) ∉ printObject ms) :
    parse (printObject ms) = .ok (.object (addMembers [] ms)) := by
  have hopen : step init 123 = ⟨[], .eatws (.objectFieldStart [])⟩ := rfl
  rw [parse, cstr_of_nulFree hnul, printObject, List.cons_append, List.foldl_cons, hopen,
    foldl_members (by simpa using hroom) ms hne hms]
  rfl

theorem objectAdd_of_notMem {entries : Entries} {key : Bytes} (val : Json)
    (hkey : key ∉ entries.map Prod.fst) :
    objectAdd entries key val = entries ++ [(key, val)] := by
  have hfilter : entries.filter (fun e => e.1 ≠ key) = entries := by
    rw [List.filter_eq_self]
    intro e he
    simp only [ne_eq, decide_not, Bool.not_eq_eq_eq_not, Bool.not_true,
      decide_eq_false_iff_not]
    rintro rfl
    exact hkey (List.mem_map_of_mem he)
  rw [objectAdd, hfilter]

theorem addMembers_of_nodup (entries : Entries) (ms : List Member)
    (hnodup : (entries.map Prod.fst ++ ms.map Member.key).Nodup) :
    addMembers entries ms = entries ++ ms.map fun m => (m.key, m.value) := by
  induction ms generalizing entries with
  | nil => simp [addMembers]
  | cons m ms ih =>
      have hfresh : m.key ∉ entries.map Prod.fst := by
        intro hmem
        exact (List.nodup_append.mp hnodup).2.2 m.key hmem m.key (by simp) rfl
      have hrest : ((entries ++ [(m.key, m.value)]).map Prod.fst ++
          ms.map Member.key).Nodup := by
        simpa using hnodup
      change addMembers (objectAdd entries m.key m.value) ms = _
      rw [objectAdd_of_notMem _ hfresh, ih _ hrest]
      simp

end MmsSvr.JsonC.Tokener
