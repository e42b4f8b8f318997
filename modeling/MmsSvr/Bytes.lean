import Mathlib.Data.List.TakeWhile
import Mathlib.Tactic.IntervalCases

/-!
Byte strings, the C view of them, and decimal numerals written as bytes.
-/

namespace MmsSvr

abbrev Bytes := List UInt8

/-- The bytes of an ASCII string literal. -/
def lit (s : String) : Bytes := s.toList.map fun c => UInt8.ofNat c.toNat

/-- What a C string function sees of a buffer: everything before the first NUL. -/
def cstr (b : Bytes) : Bytes := b.takeWhile (· ≠ 0)

theorem cstr_of_nulFree {b : Bytes} (hb : (0 : UInt8) ∉ b) : cstr b = b := by
  rw [cstr, List.takeWhile_eq_self_iff]
  intro x hx
  simp only [ne_eq, decide_not, Bool.not_eq_eq_eq_not, Bool.not_true,
    decide_eq_false_iff_not]
  rintro rfl
  exact hb hx

theorem cstr_sublist (b : Bytes) : (cstr b).Sublist b :=
  (List.takeWhile_prefix _).sublist

def isDigit (c : UInt8) : Bool := decide (48 ≤ c) && decide (c ≤ 57)

/-- The value of a string of decimal digits, most significant first. -/
def digitsValue (b : Bytes) : Nat :=
  b.foldl (fun n c => 10 * n + (c.toNat - 48)) 0

/-- `printf("%u")`. -/
def decimal (n : Nat) : Bytes := (Nat.toDigits 10 n).map fun c => UInt8.ofNat c.toNat

theorem digitChar_byte (d : Nat) (hd : d < 10) :
    UInt8.ofNat d.digitChar.toNat = UInt8.ofNat (48 + d) := by
  interval_cases d <;> rfl

theorem decimal_of_lt {n : Nat} (hn : n < 10) : decimal n = [UInt8.ofNat (48 + n)] := by
  rw [decimal, Nat.toDigits_of_lt_base hn, List.map_singleton, digitChar_byte n hn]

theorem decimal_of_le {n : Nat} (hn : 10 ≤ n) :
    decimal n = decimal (n / 10) ++ [UInt8.ofNat (48 + n % 10)] := by
  have hmod : n % 10 < 10 := Nat.mod_lt _ (by decide)
  rw [decimal, Nat.toDigits_of_base_le (by decide) hn, List.map_append,
    List.map_singleton, digitChar_byte _ hmod, decimal]

theorem isDigit_byte {d : Nat} (hd : d < 10) : isDigit (UInt8.ofNat (48 + d)) = true := by
  interval_cases d <;> rfl

theorem length_decimal_le {n k : Nat} (hn : n < 10 ^ (k + 1)) : (decimal n).length ≤ k + 1 := by
  induction k generalizing n with
  | zero => rw [decimal_of_lt (by omega), List.length_singleton]
  | succ k ih =>
      by_cases hlt : n < 10
      · rw [decimal_of_lt hlt, List.length_singleton]
        omega
      · have hdiv : n / 10 < 10 ^ (k + 1) := by
          rw [Nat.div_lt_iff_lt_mul (by decide), ← Nat.pow_succ]
          exact hn
        have hle := ih hdiv
        rw [decimal_of_le (by omega), List.length_append, List.length_singleton]
        omega

theorem decimal_isDigit (n : Nat) : ∀ c ∈ decimal n, isDigit c = true := by
  induction n using Nat.strongRecOn with
  | ind n ih =>
      by_cases hn : n < 10
      · rw [decimal_of_lt hn]
        intro c hc
        rw [List.mem_singleton.mp hc]
        exact isDigit_byte hn
      · rw [decimal_of_le (Nat.le_of_not_lt hn)]
        intro c hc
        rcases List.mem_append.mp hc with hc | hc
        · exact ih (n / 10) (by omega) c hc
        · rw [List.mem_singleton.mp hc]
          exact isDigit_byte (Nat.mod_lt _ (by decide))

theorem decimal_ne_nil (n : Nat) : decimal n ≠ [] := by
  simp [decimal, Nat.toDigits_ne_nil]

theorem digitsValue_append_singleton (b : Bytes) (c : UInt8) :
    digitsValue (b ++ [c]) = 10 * digitsValue b + (c.toNat - 48) := by
  simp [digitsValue]

theorem digitsValue_decimal (n : Nat) : digitsValue (decimal n) = n := by
  induction n using Nat.strongRecOn with
  | ind n ih =>
      by_cases hn : n < 10
      · rw [decimal_of_lt hn]
        interval_cases n <;> rfl
      · have hbyte : (UInt8.ofNat (48 + n % 10)).toNat - 48 = n % 10 := by
          have hmod : n % 10 < 10 := Nat.mod_lt _ (by decide)
          rw [UInt8.toNat_ofNat']
          omega
        rw [decimal_of_le (Nat.le_of_not_lt hn), digitsValue_append_singleton,
          ih (n / 10) (by omega), hbyte]
        omega

end MmsSvr
