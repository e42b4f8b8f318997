import MmsSvr.JsonC.Tokener
import Mathlib.Algebra.Order.BigOperators.Group.List

/-!
Counting what a parse can produce.

A budget gives every byte of text a weight and every string a cost, such that
the tokener never turns cheap text into expensive strings.  Then the strings of
a parsed value never cost more than the text weighs: one inequality per step,
carried over the whole run.
-/

namespace MmsSvr.JsonC

open Tokener

/-- Weights and costs under which each way of writing a byte of a string pays for
it.  `held` is what an unfinished string holds, given its opening quote. -/
structure Budget where
  weight : UInt8 → Nat
  cost : Bytes → Nat
  held : UInt8 → Bytes → Nat
  hexWeight : Nat
  open_le : ∀ q, q = dquote ∨ q = squote → held q [] ≤ weight q
  char_le : ∀ q pb c, c ≠ q → c ≠ backslash → held q (pb ++ [c]) ≤ held q pb + weight c
  close_le : ∀ q pb, cost (cstr pb) ≤ held q pb
  escape_le : ∀ q pb c b, simpleEscape c = some b →
    held q (pb ++ [b]) ≤ held q pb + weight backslash + weight c
  hex_le : ∀ c d, hexDigit c = some d → hexWeight ≤ weight c
  utf8_le : ∀ q pb ucs,
    held q (pb ++ utf8 ucs) ≤ held q pb + (weight backslash + weight 117 + 4 * hexWeight)
  replacement_le : ∀ q pb, held q (pb ++ utf8ReplacementChar) ≤
    held q pb + (weight backslash + weight 117 + 4 * hexWeight)

namespace Budget

variable (B : Budget)

def codeWeight : Nat := B.weight backslash + B.weight 117 + 4 * B.hexWeight

def textWeight (b : Bytes) : Nat := (b.map B.weight).sum

theorem textWeight_append (s t : Bytes) :
    B.textWeight (s ++ t) = B.textWeight s + B.textWeight t := by
  simp [textWeight]

mutual

/-- The cost of all string values inside a value; member names are free. -/
def valueCost : Json → Nat
  | .string s => B.cost s
  | .array elems => elemsCost elems
  | .object entries => entriesCost entries
  | .null => 0
  | .boolean _ => 0
  | .double _ => 0
  | .int _ => 0

def elemsCost : List Json → Nat
  | [] => 0
  | v :: vs => valueCost v + elemsCost vs

def entriesCost : List (Bytes × Json) → Nat
  | [] => 0
  | e :: es => entryCost e + entriesCost es

def entryCost : Bytes × Json → Nat
  | (_, v) => valueCost v

end

theorem elemsCost_append (xs ys : List Json) :
    B.elemsCost (xs ++ ys) = B.elemsCost xs + B.elemsCost ys := by
  induction xs with
  | nil => simp [elemsCost]
  | cons x xs ih => simp [elemsCost, ih, Nat.add_assoc]

theorem entriesCost_append (xs ys : Entries) :
    B.entriesCost (xs ++ ys) = B.entriesCost xs + B.entriesCost ys := by
  induction xs with
  | nil => simp [entriesCost]
  | cons x xs ih => simp [entriesCost, ih, Nat.add_assoc]

theorem entriesCost_filter_le (p : Bytes × Json → Bool) (es : Entries) :
    B.entriesCost (es.filter p) ≤ B.entriesCost es := by
  induction es with
  | nil => simp
  | cons e es ih =>
      rw [List.filter_cons]
      split
      · simp only [entriesCost]
        omega
      · simp only [entriesCost]
        omega

theorem entriesCost_objectAdd_le (es : Entries) (key : Bytes) (v : Json) :
    B.entriesCost (objectAdd es key v) ≤ B.entriesCost es + B.valueCost v := by
  have hfilter := B.entriesCost_filter_le (fun e => e.1 ≠ key) es
  rw [objectAdd, entriesCost_append]
  simp only [entriesCost, entryCost]
  omega

def levelCost : Level → Nat
  | .array elems => B.elemsCost elems
  | .object entries _ => B.entriesCost entries

def stackCost (stack : List Level) : Nat := (stack.map B.levelCost).sum

def savedCost : Saved → Nat
  | .start => 0
  | .finish v => B.valueCost v
  | .array elems => B.elemsCost elems
  | .arraySep elems => B.elemsCost elems
  | .objectFieldStart entries => B.entriesCost entries
  | .objectFieldEnd entries _ => B.entriesCost entries
  | .objectValue entries _ => B.entriesCost entries
  | .objectSep entries => B.entriesCost entries

def stringCost (target : Target) (quote : UInt8) (pb : Bytes) : Nat :=
  match target with
  | .string => B.held quote pb
  | .objectField entries => B.entriesCost entries

/-- A pending high surrogate has paid for the replacement character. -/
def pendingCost (hi : Option Nat) : Nat := if hi.isSome then B.codeWeight else 0

/-- What the state has been paid so far and still owns. -/
def stateCost : State → Nat
  | .eatws saved => B.savedCost saved
  | .commentStart saved => B.savedCost saved
  | .comment saved => B.savedCost saved
  | .commentEol saved => B.savedCost saved
  | .commentEnd saved => B.savedCost saved
  | .literal v _ _ => B.valueCost v
  | .number _ => 0
  | .string target quote pb => B.stringCost target quote pb
  | .stringEscape target quote pb => B.stringCost target quote pb + B.weight backslash
  | .escapeUnicode target quote pb hi _ pos =>
      B.stringCost target quote pb + B.pendingCost hi +
        (B.weight backslash + B.weight 117 + pos * B.hexWeight)
  | .hiSurrogate target quote pb _ => B.stringCost target quote pb + B.codeWeight
  | .hiSurrogateEscape target quote pb _ =>
      B.stringCost target quote pb + B.codeWeight + B.weight backslash
  | .out (.ok v) => B.valueCost v
  | .out (.error _) => 0

def tokenerCost (t : Tokener) : Nat := B.stackCost t.stack + B.stateCost t.state

@[simp]
theorem stackCost_cons (l : Level) (stack : List Level) :
    B.stackCost (l :: stack) = B.levelCost l + B.stackCost stack := by
  simp [stackCost]

theorem fail_cost (stack : List Level) (err : TokenerError) :
    B.tokenerCost (fail stack err) = B.stackCost stack := rfl

theorem start_cost (stack : List Level) (c : UInt8) :
    B.tokenerCost (start stack c) ≤ B.stackCost stack + B.weight c := by
  unfold start
  split_ifs with _ _ _ hquote <;>
    simp only [tokenerCost, stateCost, savedCost, entriesCost, elemsCost, valueCost, fail,
      stringCost] <;> try omega
  have hopen := B.open_le c hquote
  omega

theorem objectSep_cost (stack : List Level) (entries : Entries) (c : UInt8) :
    B.tokenerCost (objectSep stack entries c) ≤ B.stackCost stack + B.entriesCost entries := by
  unfold objectSep
  split_ifs <;> simp [tokenerCost, stateCost, savedCost, valueCost, fail]

theorem arraySep_cost (stack : List Level) (elems : List Json) (c : UInt8) :
    B.tokenerCost (arraySep stack elems c) ≤ B.stackCost stack + B.elemsCost elems := by
  unfold arraySep
  split_ifs <;> simp [tokenerCost, stateCost, savedCost, valueCost, fail]

theorem finish_cost (stack : List Level) (v : Json) (c : UInt8) :
    B.tokenerCost (finish stack v c) ≤ B.stackCost stack + B.valueCost v := by
  cases stack with
  | nil => simp [finish, tokenerCost, stateCost]
  | cons level stack =>
      cases level with
      | array elems =>
          have hsep := B.arraySep_cost stack (elems ++ [v]) c
          rw [elemsCost_append] at hsep
          simp only [elemsCost] at hsep
          simp only [finish, stackCost_cons, levelCost]
          omega
      | object entries key =>
          have hsep := B.objectSep_cost stack (objectAdd entries key v) c
          have hadd := B.entriesCost_objectAdd_le entries key v
          simp only [finish, stackCost_cons, levelCost]
          omega

theorem resume_cost (stack : List Level) (saved : Saved) (c : UInt8) :
    B.tokenerCost (resume stack saved c) ≤
      B.stackCost stack + B.savedCost saved + B.weight c := by
  cases saved with
  | start => simpa [resume, savedCost] using B.start_cost stack c
  | finish v =>
      have hfinish := B.finish_cost stack v c
      simp only [resume, savedCost]
      omega
  | array elems =>
      have hstart := B.start_cost (.array elems :: stack) c
      rw [stackCost_cons] at hstart
      simp only [resume, savedCost]
      split_ifs
      · simp only [tokenerCost, stateCost, savedCost, valueCost]
        omega
      · rw [fail_cost]
        omega
      · simp only [levelCost] at hstart
        omega
  | arraySep elems =>
      have hsep := B.arraySep_cost stack elems c
      simp only [resume, savedCost]
      omega
  | objectFieldStart entries =>
      simp only [resume, savedCost]
      split_ifs
      · simp only [tokenerCost, stateCost, savedCost, valueCost]
        omega
      · simp only [tokenerCost, stateCost, stringCost]
        omega
      · rw [fail_cost]
        omega
  | objectFieldEnd entries key =>
      simp only [resume, savedCost]
      split_ifs
      · simp only [tokenerCost, stateCost, savedCost]
        omega
      · rw [fail_cost]
        omega
  | objectValue entries key =>
      have hstart := B.start_cost (.object entries key :: stack) c
      rw [stackCost_cons] at hstart
      simp only [resume, savedCost]
      split_ifs
      · rw [fail_cost]
        omega
      · simp only [levelCost] at hstart
        omega
  | objectSep entries =>
      have hsep := B.objectSep_cost stack entries c
      simp only [resume, savedCost]
      omega

theorem eatws_cost (stack : List Level) (saved : Saved) (c : UInt8) :
    B.tokenerCost (eatws stack saved c) ≤
      B.stackCost stack + B.savedCost saved + B.weight c := by
  unfold eatws
  split_ifs
  · simp only [tokenerCost, stateCost]
    omega
  · simp only [tokenerCost, stateCost]
    omega
  · exact B.resume_cost stack saved c

theorem closeString_cost (stack : List Level) (target : Target) (quote : UInt8) (pb : Bytes) :
    B.tokenerCost (closeString stack target pb) ≤
      B.stackCost stack + B.stringCost target quote pb := by
  cases target with
  | string =>
      have hclose := B.close_le quote pb
      simp only [closeString, tokenerCost, stateCost, savedCost, valueCost, stringCost]
      omega
  | objectField entries =>
      simp [closeString, tokenerCost, stateCost, savedCost, stringCost]

theorem stringChar_cost (stack : List Level) (target : Target) (quote : UInt8) (pb : Bytes)
    (c : UInt8) :
    B.tokenerCost (stringChar stack target quote pb c) ≤
      B.stackCost stack + B.stringCost target quote pb + B.weight c := by
  unfold stringChar
  split_ifs with hquote hslash
  · have hclose := B.closeString_cost stack target quote pb
    omega
  · subst hslash
    simp only [tokenerCost, stateCost]
    omega
  · cases target with
    | string =>
        have hchar := B.char_le quote pb c hquote hslash
        simp only [tokenerCost, stateCost, stringCost]
        omega
    | objectField entries =>
        simp only [tokenerCost, stateCost, stringCost]
        omega

theorem escapeChar_cost (stack : List Level) (target : Target) (quote : UInt8) (pb : Bytes)
    (c : UInt8) :
    B.tokenerCost (escapeChar stack target quote pb c) ≤
      B.stackCost stack + B.stringCost target quote pb + B.weight backslash + B.weight c := by
  unfold escapeChar
  split
  · rename_i b hb
    cases target with
    | string =>
        have hescape := B.escape_le quote pb c b hb
        simp only [tokenerCost, stateCost, stringCost]
        omega
    | objectField entries =>
        simp only [tokenerCost, stateCost, stringCost]
        omega
  · split_ifs with hu
    · subst hu
      simp only [tokenerCost, stateCost, pendingCost, Option.isSome_none,
        Bool.false_eq_true, if_false, Nat.zero_mul]
      omega
    · rw [fail_cost]
      omega

theorem stringCost_append_le (target : Target) (quote : UInt8) (pb bs : Bytes) (n : Nat)
    (hbs : B.held quote (pb ++ bs) ≤ B.held quote pb + n) :
    B.stringCost target quote (pb ++ bs) ≤ B.stringCost target quote pb + n := by
  cases target with
  | string => simpa [stringCost] using hbs
  | objectField entries => simp [stringCost]

theorem codePoint_cost (stack : List Level) (target : Target) (quote : UInt8) (pb : Bytes)
    (ucs : Nat) :
    B.tokenerCost (codePoint stack target quote pb ucs) ≤
      B.stackCost stack + B.stringCost target quote pb + B.codeWeight := by
  unfold codePoint
  split_ifs
  · simp only [tokenerCost, stateCost]
    omega
  · have hutf := B.stringCost_append_le target quote pb (utf8 ucs) B.codeWeight
      (B.utf8_le quote pb ucs)
    simp only [tokenerCost, stateCost]
    omega

theorem unicodeDone_cost (stack : List Level) (target : Target) (quote : UInt8) (pb : Bytes)
    (hi : Option Nat) (ucs : Nat) :
    B.tokenerCost (unicodeDone stack target quote pb hi ucs) ≤
      B.stackCost stack + B.stringCost target quote pb +
        B.pendingCost hi + B.codeWeight := by
  cases hi with
  | none => simpa [unicodeDone, pendingCost] using B.codePoint_cost stack target quote pb ucs
  | some hi =>
      simp only [unicodeDone, pendingCost, Option.isSome_some, if_true]
      split_ifs
      · have hcode := B.codePoint_cost stack target quote pb (decodeSurrogatePair hi ucs)
        omega
      · have hcode := B.codePoint_cost stack target quote (pb ++ utf8ReplacementChar) ucs
        have hrep := B.stringCost_append_le target quote pb utf8ReplacementChar B.codeWeight
          (B.replacement_le quote pb)
        omega

theorem unicodeChar_cost (stack : List Level) (target : Target) (quote : UInt8) (pb : Bytes)
    (hi : Option Nat) (ucs pos : Nat) (c : UInt8) :
    B.tokenerCost (unicodeChar stack target quote pb hi ucs pos c) ≤
      B.stackCost stack + B.stringCost target quote pb +
        B.pendingCost hi +
        (B.weight backslash + B.weight 117 + pos * B.hexWeight) + B.weight c := by
  unfold unicodeChar
  split
  · rw [fail_cost]
    omega
  · rename_i d hd
    have hhex := B.hex_le c d hd
    split_ifs with hpos
    · have hdone := B.unicodeDone_cost stack target quote pb hi (16 * ucs + d)
      have hcode : B.codeWeight =
          B.weight backslash + B.weight 117 + 4 * B.hexWeight := rfl
      subst hpos
      omega
    · simp only [tokenerCost, stateCost, Nat.add_mul, Nat.one_mul]
      omega

theorem parseNumber_cost {pb : Bytes} {v : Json} (hv : parseNumber pb = some v) :
    B.valueCost v = 0 := by
  simp only [parseNumber] at hv
  split_ifs at hv
  · rw [← Option.some.inj hv]
    rfl
  · obtain ⟨i, _, rfl⟩ := Option.map_eq_some_iff.mp hv
    rfl

theorem step_cost (t : Tokener) (c : UInt8) :
    B.tokenerCost (step t c) ≤ B.tokenerCost t + B.weight c := by
  obtain ⟨stack, state⟩ := t
  cases state with
  | eatws saved => exact B.eatws_cost stack saved c
  | commentStart saved =>
      simp only [step]
      split_ifs <;> simp only [tokenerCost, stateCost, fail] <;> omega
  | comment saved =>
      simp only [step]
      split_ifs <;> simp only [tokenerCost, stateCost] <;> omega
  | commentEol saved =>
      simp only [step]
      split_ifs <;> simp only [tokenerCost, stateCost] <;> omega
  | commentEnd saved =>
      simp only [step]
      split_ifs <;> simp only [tokenerCost, stateCost] <;> omega
  | literal v err rest =>
      cases rest with
      | nil => exact B.eatws_cost stack (.finish v) c
      | cons r rest =>
          simp only [step]
          split_ifs <;> simp only [tokenerCost, stateCost, fail] <;> omega
  | number pb =>
      simp only [step]
      split_ifs
      · simp only [tokenerCost, stateCost]
        omega
      · split
        · rename_i v hv
          have heat := B.eatws_cost stack (.finish v) c
          simp only [savedCost, B.parseNumber_cost hv] at heat
          simp only [tokenerCost, stateCost] at heat ⊢
          omega
        · rw [fail_cost]
          simp only [tokenerCost]
          omega
  | string target quote pb => exact B.stringChar_cost stack target quote pb c
  | stringEscape target quote pb =>
      have hescape := B.escapeChar_cost stack target quote pb c
      simp only [step, tokenerCost, stateCost] at hescape ⊢
      omega
  | escapeUnicode target quote pb hi ucs pos =>
      have hunicode := B.unicodeChar_cost stack target quote pb hi ucs pos c
      simp only [step, tokenerCost, stateCost] at hunicode ⊢
      omega
  | hiSurrogate target quote pb hi =>
      have hrep := B.stringCost_append_le target quote pb utf8ReplacementChar B.codeWeight
        (B.replacement_le quote pb)
      simp only [step]
      split_ifs with hslash
      · subst hslash
        simp only [tokenerCost, stateCost]
        omega
      · have hchar := B.stringChar_cost stack target quote (pb ++ utf8ReplacementChar) c
        simp only [tokenerCost, stateCost] at hchar ⊢
        omega
  | hiSurrogateEscape target quote pb hi =>
      have hrep := B.stringCost_append_le target quote pb utf8ReplacementChar B.codeWeight
        (B.replacement_le quote pb)
      simp only [step]
      split_ifs with hu
      · subst hu
        simp only [tokenerCost, stateCost, pendingCost, Option.isSome_some, if_true,
          Nat.zero_mul]
        omega
      · have hescape := B.escapeChar_cost stack target quote (pb ++ utf8ReplacementChar) c
        simp only [tokenerCost, stateCost] at hescape ⊢
        omega
  | out r =>
      simp only [step]
      omega

theorem foldl_cost (b : Bytes) (t : Tokener) :
    B.tokenerCost (b.foldl step t) ≤ B.tokenerCost t + B.textWeight b := by
  induction b generalizing t with
  | nil => simp [textWeight]
  | cons c b ih =>
      have hstep := B.step_cost t c
      have hrest := ih (step t c)
      simp only [textWeight, List.map_cons, List.sum_cons, List.foldl_cons] at hrest ⊢
      omega

theorem eofFinish_cost {stack : List Level} {w v : Json} (h : eofFinish stack w = .ok v) :
    B.valueCost v = B.valueCost w := by
  cases stack with
  | nil => rw [← Except.ok.inj h]
  | cons l stack => exact nomatch h

theorem eof_cost (t : Tokener) (v : Json) (h : t.eof = .ok v) :
    B.valueCost v ≤ B.tokenerCost t := by
  unfold eof at h
  rw [tokenerCost]
  split at h
  · rename_i hstate
    rw [hstate, B.eofFinish_cost h]
    exact Nat.le_add_left _ _
  · rename_i hstate
    rw [hstate, ← Except.ok.inj h]
    exact Nat.le_add_left _ _
  · rename_i hstate
    rw [hstate, ← Except.ok.inj h]
    exact Nat.le_add_left _ _
  · rename_i hstate
    rw [hstate, ← Except.ok.inj h]
    exact Nat.le_add_left _ _
  · rename_i hstate
    rw [hstate, B.eofFinish_cost h]
    exact Nat.le_add_left _ _
  · split at h
    · rename_i w hw
      rw [B.eofFinish_cost h, B.parseNumber_cost hw]
      exact Nat.zero_le _
    · exact nomatch h
  · rename_i hstate
    rw [hstate, h]
    exact Nat.le_add_left _ _
  · exact nomatch h

theorem textWeight_cstr_le (b : Bytes) : B.textWeight (cstr b) ≤ B.textWeight b :=
  ((cstr_sublist b).map B.weight).sum_le_sum (by simp)

theorem parse_cost (js : Bytes) (v : Json) (h : parse js = .ok v) :
    B.valueCost v ≤ B.textWeight js := by
  have heof := B.eof_cost _ v h
  have hfold := B.foldl_cost (cstr js) init
  have hinit : B.tokenerCost init = 0 := rfl
  have hcstr := B.textWeight_cstr_le js
  omega

end Budget

end MmsSvr.JsonC
