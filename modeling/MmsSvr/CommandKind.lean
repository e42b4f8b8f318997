import MmsSvr.RedisAsync

/-!
What hiredis takes a command for when it is sent on a connection: a subscription or not.
-/

namespace MmsSvr.Hiredis

open Lib

section Arguments

theorem strchr_append {c : UInt8} {s t : Bytes} (h : ∀ b ∈ s, b ≠ c ∧ b ≠ 0) :
    strchr c (s ++ t) = strchr c t := by
  induction s with
  | nil => rfl
  | cons b s ih =>
      rw [List.forall_mem_cons] at h
      rw [List.cons_append, strchr, if_neg h.1.1, if_neg h.1.2]
      exact ih h.2

theorem strchr_cons_self (c : UInt8) (s : Bytes) : strchr c (c :: s) = some (c :: s) :=
  if_pos rfl

theorem digit_ne {n : Nat} {c : UInt8} (hc : isDigit c = false) : ∀ b ∈ decimal n, b ≠ c := by
  rintro b hb rfl
  rw [decimal_isDigit n b hb] at hc
  exact absurd hc (by decide)

theorem isSpace_of_isDigit {c : UInt8} (hc : isDigit c = true) : isSpace c = false := by
  rw [isDigit, Bool.and_eq_true, decide_eq_true_eq, decide_eq_true_eq] at hc
  rw [isSpace, decide_eq_false_iff_not]
  rintro (rfl | ⟨-, hle⟩)
  · exact absurd hc.1 (by decide)
  · exact absurd (UInt8.le_trans hc.1 hle) (by decide)

theorem strtol_digits {c : UInt8} {s : Bytes} (hc : isDigit c = true) :
    strtol (c :: s) = min (digitsValue ((c :: s).takeWhile isDigit) : Int) (2 ^ 63 - 1) := by
  rw [strtol, List.dropWhile_cons_of_neg (by rw [isSpace_of_isDigit hc]; decide)]
  split
  · rename_i heq
    rw [(List.cons.inj heq).1] at hc
    exact absurd hc (by decide)
  · rename_i heq
    rw [(List.cons.inj heq).1] at hc
    exact absurd hc (by decide)
  · rfl

theorem strtol_decimal {n : Nat} (hn : n < 2 ^ 63) (s : Bytes) :
    strtol (decimal n ++ 13 :: s) = n := by
  have hdigits := decimal_isDigit n
  have htake : (decimal n ++ 13 :: s).takeWhile isDigit = decimal n := by
    rw [List.takeWhile_append_of_pos hdigits, List.takeWhile_cons_of_neg (by decide),
      List.append_nil]
  cases hcons : decimal n with
  | nil => exact absurd hcons (decimal_ne_nil n)
  | cons c l =>
      rw [hcons] at hdigits htake
      rw [List.cons_append, strtol_digits (hdigits c List.mem_cons_self), ← List.cons_append, htake,
        ← hcons, digitsValue_decimal]
      omega

theorem nextArgument_argument {arg : Bytes} (hlen : arg.length < 2 ^ 31) (rest : Bytes) :
    nextArgument (argumentText arg ++ rest) =
      .ok (some (arg ++ crlf ++ rest, arg.length, rest)) := by
  have htext : argumentText arg ++ rest =
      36 :: (decimal arg.length ++ 13 :: 10 :: (arg ++ crlf ++ rest)) := by
    simp [argumentText, crlf]
  have hdigits : ∀ b ∈ 36 :: decimal arg.length, b ≠ 13 ∧ b ≠ 0 := by
    rw [List.forall_mem_cons]
    refine ⟨by decide, ?_⟩
    intro b hb
    exact ⟨digit_ne (by decide) b hb, digit_ne (by decide) b hb⟩
  have hlong : strtol (decimal arg.length ++ 13 :: 10 :: (arg ++ crlf ++ rest)) = arg.length :=
    strtol_decimal (by omega) _
  have hend := (strchr_append hdigits).trans
    (strchr_cons_self 13 (10 :: (arg ++ crlf ++ rest)))
  rw [htext, nextArgument, List.head?_cons, if_pos rfl]
  dsimp only
  rw [List.tail_cons, hlong, intWord_eq_of_natAbs (by omega), ← List.cons_append, hend]
  dsimp only
  have hhead : (arg ++ crlf).length = arg.length + 2 := by
    simp [crlf]
  have hrest : (13 :: 10 :: (arg ++ crlf ++ rest)).drop (arg.length + 4) = rest :=
    List.drop_left' hhead
  rw [Int.toNat_natCast, if_pos]
  · rw [hrest]
    rfl
  · refine ⟨Int.natCast_nonneg _, ?_⟩
    have htwo : crlf.length = 2 := rfl
    rw [List.length_cons, List.length_cons, List.length_append, List.length_append]
    omega

theorem strchr_of_head {c : UInt8} {s : Bytes} :
    (if s.head? = some c then some s else strchr c s) = strchr c s := by
  split
  · rename_i hhead
    cases s with
    | nil => exact nomatch hhead
    | cons b s =>
        obtain rfl := Option.some.inj hhead
        exact (strchr_cons_self b s).symm
  · rfl

theorem nextArgument_command {argv : List Bytes} :
    nextArgument (command argv).encode = nextArgument (argv.flatMap argumentText) := by
  have hcrlf : ∀ b ∈ crlf, b ≠ 36 ∧ b ≠ 0 := by
    simp [crlf]
  have hhead : ∀ b ∈ 42 :: (decimal argv.length ++ crlf), b ≠ 36 ∧ b ≠ 0 := by
    intro b hb
    rcases List.mem_cons.mp hb with rfl | hb
    · decide
    · rcases List.mem_append.mp hb with hb | hb
      · exact ⟨digit_ne (by decide) b hb, digit_ne (by decide) b hb⟩
      · exact hcrlf b hb
  rw [nextArgument, nextArgument, strchr_of_head, strchr_of_head, encode_command,
    strchr_append hhead]

/-- The kind of a command depends on its first argument, and on whether it has another. -/
theorem commandKind_command {name : Bytes} {args : List Bytes} (hlen : name.length < 2 ^ 31) :
    commandKind (command (name :: args)).encode =
      let rest := args.flatMap argumentText
      let cstr := name ++ crlf ++ rest
      if rest.head? = some 36 ∧ hasName (lit "subscribe\r\n") (behindP cstr) then
        .ok (.subscribe (isPvariant cstr) rest)
      else if hasName (lit "unsubscribe\r\n") (behindP cstr) then .ok .unsubscribe
      else .ok .other := by
  rw [commandKind, nextArgument_command, List.flatMap_cons, nextArgument_argument hlen]
  rfl

theorem commandKind_nil : commandKind (command []).encode = .error .noArgument := by
  rw [commandKind, nextArgument_command]
  rfl

end Arguments

section Names

/-- Whether a command of this name, if it has an argument, is taken for a subscription. -/
def subscribes (name : Bytes) : Bool := hasName (lit "subscribe\r\n") (behindP name ++ crlf)

def NoSubscribe (cmd : Bytes) : Prop := ∀ pvariant p, commandKind cmd ≠ .ok (.subscribe pvariant p)

theorem hasName_cons (c a : UInt8) (name s : Bytes) :
    hasName (c :: name) (a :: s) = (decide (tolower a = c) && hasName name s) := by
  simp [hasName]

theorem hasName_line {name : Bytes} (hname : ∀ c ∈ name, c ≠ 13) (s t : Bytes) :
    hasName (name ++ crlf) (s ++ crlf ++ t) = hasName (name ++ crlf) (s ++ crlf) := by
  induction name generalizing s with
  | nil =>
      rcases s with _ | ⟨a, _ | ⟨b, s⟩⟩
      · rfl
      · rfl
      · rfl
  | cons c name ih =>
      rw [List.forall_mem_cons] at hname
      cases s with
      | nil =>
          have hreturn : decide (tolower 13 = c) = false := decide_eq_false hname.1.symm
          change hasName (c :: (name ++ crlf)) (13 :: 10 :: t) =
            hasName (c :: (name ++ crlf)) (13 :: 10 :: [])
          rw [hasName_cons, hasName_cons, hreturn, Bool.false_and, Bool.false_and]
      | cons a s =>
          have hrest := ih hname.2 s
          rw [List.cons_append, List.cons_append, List.cons_append, hasName_cons, hasName_cons,
            hrest]

theorem behindP_append (name t : Bytes) :
    behindP (name ++ crlf ++ t) = behindP name ++ crlf ++ t := by
  cases name with
  | nil => rfl
  | cons a name =>
      have hsame : isPvariant (a :: name ++ crlf ++ t) = isPvariant (a :: name) := rfl
      rw [behindP, behindP, hsame]
      split
      · rfl
      · rfl

/-- However a command is formatted, only its name makes it a subscription. -/
theorem noSubscribe_of_formats {malloc : Nat → Bool} (hmalloc : ∀ n, 2 ^ 63 ≤ n → malloc n = false)
    {argv : List Bytes} {cmd : Bytes} (h : Formats malloc argv cmd) (hargc : argv.length < 2 ^ 31)
    (hname : ∀ name ∈ argv.head?, subscribes name = false) : NoSubscribe cmd := by
  obtain ⟨rfl, hlen⟩ := h.encode hmalloc hargc
  intro pvariant p hkind
  cases argv with
  | nil =>
      rw [commandKind_nil] at hkind
      cases hkind
  | cons name args =>
      have hshort := length_le_encode (List.mem_cons_self : name ∈ name :: args)
      have hother : hasName (lit "subscribe\r\n")
          (behindP (name ++ crlf ++ args.flatMap argumentText)) = false := by
        have hline : ∀ c ∈ lit "subscribe", c ≠ 13 := by decide +kernel
        rw [behindP_append]
        exact (hasName_line hline _ _).trans (hname name rfl)
      rw [commandKind_command (by omega)] at hkind
      dsimp only at hkind
      rw [hother, if_neg (fun h => Bool.false_ne_true h.2)] at hkind
      split at hkind
      · cases hkind
      · cases hkind

end Names

end MmsSvr.Hiredis
