import MmsSvr.JsonC.Budget
import MmsSvr.JsonC.Scan

/-!
Reading back strings that were written without escaping.

Two budgets decide what can come out.  Under the first a string costs more than
its bytes weigh as soon as it contains a quotation mark; under the second every
backslash that is read costs half a byte.
-/

namespace MmsSvr.JsonC

open Tokener

section Weights

/-- Escapes cost two, an apostrophe one: it may open a string that quotes. -/
def quoteWeight (c : UInt8) : Nat := if c = backslash then 2 else if c = squote then 1 else 0

def quoteBase (s : Bytes) : Nat := (s.map quoteWeight).sum

def quoteCost (s : Bytes) : Nat := quoteBase s + if dquote ∈ s then 1 else 0

def quoteHeld (q : UInt8) (pb : Bytes) : Nat := if q = dquote then quoteCost pb else quoteBase pb + 1

theorem quoteBase_append (s t : Bytes) : quoteBase (s ++ t) = quoteBase s + quoteBase t := by
  simp [quoteBase]

theorem quoteCost_append_le (s t : Bytes) : quoteCost (s ++ t) ≤ quoteCost s + quoteCost t := by
  simp only [quoteCost, quoteBase_append, List.mem_append]
  split_ifs <;> first | omega | (rename_i h; tauto)

theorem quoteHeld_append_le (q : UInt8) (pb t : Bytes) :
    quoteHeld q (pb ++ t) ≤ quoteHeld q pb + quoteCost t := by
  unfold quoteHeld
  split_ifs
  · exact quoteCost_append_le pb t
  · rw [quoteBase_append, quoteCost]
    omega

theorem quoteCost_le_of_prefix {s t : Bytes} (h : s <+: t) : quoteCost s ≤ quoteCost t := by
  obtain ⟨u, rfl⟩ := h
  simp only [quoteCost, quoteBase_append, List.mem_append]
  split_ifs <;> first | omega | (rename_i h; tauto)

def Light (c : UInt8) : Prop := quoteWeight c = 0 ∧ c ≠ dquote

theorem quoteCost_of_light {s : Bytes} (hs : ∀ c ∈ s, Light c) : quoteCost s = 0 := by
  have hbase : quoteBase s = 0 := by
    rw [quoteBase, List.sum_eq_zero]
    intro n hn
    obtain ⟨c, hc, rfl⟩ := List.mem_map.mp hn
    exact (hs c hc).1
  rw [quoteCost, hbase, if_neg fun h => (hs dquote h).2 rfl]

theorem light_high {k : Nat} (hk : k.testBit 7 = true) (x : Nat) :
    Light (UInt8.ofNat (k ||| x)) := by
  have hbit : (UInt8.ofNat (k ||| x)).toNat.testBit 7 = true := by
    rw [UInt8.toNat_ofNat', Nat.testBit_mod_two_pow]
    simp [hk]
  have hne : ∀ d : UInt8, d.toNat.testBit 7 = false → UInt8.ofNat (k ||| x) ≠ d := by
    rintro d hd rfl
    rw [hbit] at hd
    exact nomatch hd
  refine ⟨?_, hne dquote (by decide)⟩
  rw [quoteWeight, if_neg (hne backslash (by decide)), if_neg (hne squote (by decide))]

theorem quoteCost_singleton_le (c : UInt8) : quoteCost [c] ≤ 2 := by
  by_cases hc : c = dquote
  · rw [hc]
    decide
  · have hne : ¬ dquote = c := fun h => hc h.symm
    simp only [quoteCost, quoteBase, quoteWeight, List.map_cons, List.map_nil, List.sum_cons,
      List.sum_nil, List.mem_singleton, hne, if_false]
    split_ifs <;> omega

theorem quoteCost_utf8_le (ucs : Nat) : quoteCost (utf8 ucs) ≤ 2 := by
  have hc0 := light_high (k := 0xc0) (by decide)
  have he0 := light_high (k := 0xe0) (by decide)
  have hf0 := light_high (k := 0xf0) (by decide)
  have h80 := light_high (k := 0x80) (by decide)
  have hnil : ∀ c ∈ ([] : Bytes), Light c := by simp
  have hrep : quoteCost utf8ReplacementChar ≤ 2 := by decide
  unfold utf8
  split_ifs
  · exact quoteCost_singleton_le _
  · rw [quoteCost_of_light (by simp only [List.forall_mem_cons]; exact ⟨hc0 _, h80 _, hnil⟩)]
    omega
  · exact hrep
  · rw [quoteCost_of_light
      (by simp only [List.forall_mem_cons]; exact ⟨he0 _, h80 _, h80 _, hnil⟩)]
    omega
  · rw [quoteCost_of_light
      (by simp only [List.forall_mem_cons]; exact ⟨hf0 _, h80 _, h80 _, h80 _, hnil⟩)]
    omega
  · exact hrep

def quoteBudget : Budget where
  weight := quoteWeight
  cost := quoteCost
  held := quoteHeld
  hexWeight := 0
  open_le := by
    rintro q (rfl | rfl) <;> decide
  char_le := by
    intro q pb c hq hslash
    unfold quoteHeld
    split_ifs with hd
    · have hc : ¬ dquote = c := fun h => hq (by rw [hd, h])
      have hmem : dquote ∈ pb ++ [c] ↔ dquote ∈ pb := by simp [hc]
      simp only [quoteCost, quoteBase_append, hmem]
      exact (Nat.add_right_comm _ _ _).le
    · rw [quoteBase_append]
      exact (Nat.add_right_comm _ _ _).le
  close_le := by
    intro q pb
    have hle := quoteCost_le_of_prefix (List.takeWhile_prefix (p := (· ≠ (0 : UInt8))) (l := pb))
    unfold quoteHeld
    split_ifs
    · exact hle
    · refine hle.trans ?_
      rw [quoteCost]
      split <;> omega
  escape_le := by
    intro q pb c b hb
    have happ := quoteHeld_append_le q pb [b]
    have hcost : quoteCost [b] ≤ quoteWeight backslash := by
      unfold simpleEscape at hb
      split_ifs at hb <;> simp only [Option.some.injEq] at hb <;> subst hb
      · rename_i h
        rcases h with rfl | rfl | rfl <;> decide
      all_goals decide
    omega
  hex_le := by simp
  utf8_le := by
    intro q pb ucs
    have happ := quoteHeld_append_le q pb (utf8 ucs)
    have hcost := quoteCost_utf8_le ucs
    have hslash : quoteWeight backslash = 2 := rfl
    omega
  replacement_le := by
    intro q pb
    have happ := quoteHeld_append_le q pb utf8ReplacementChar
    have hcost : quoteCost utf8ReplacementChar = 0 := by decide
    omega

/-- Every byte weighs two, but a backslash only one. -/
def lengthWeight (c : UInt8) : Nat := if c = backslash then 1 else 2

theorem length_utf8_le (ucs : Nat) : (utf8 ucs).length ≤ 4 := by
  unfold utf8
  split_ifs <;> simp [utf8ReplacementChar]

def lengthBudget : Budget where
  weight := lengthWeight
  cost := fun s => 2 * s.length
  held := fun _ pb => 2 * pb.length
  hexWeight := 2
  open_le := by simp
  char_le := by
    intro q pb c _ hslash
    simp [lengthWeight, hslash]
    omega
  close_le := by
    intro q pb
    have hle := (cstr_sublist pb).length_le
    omega
  escape_le := by
    intro q pb c b _
    have hone : ∀ c, 1 ≤ lengthWeight c := by
      intro c
      unfold lengthWeight
      split <;> omega
    have h1 := hone backslash
    have h2 := hone c
    simp only [List.length_append, List.length_singleton]
    omega
  hex_le := by
    intro c d hd
    have hne : c ≠ backslash := by
      rintro rfl
      exact nomatch hd
    simp [lengthWeight, hne]
  utf8_le := by
    intro q pb ucs
    have hle := length_utf8_le ucs
    rw [List.length_append]
    omega
  replacement_le := by
    intro q pb
    simp only [List.length_append, utf8ReplacementChar, List.length_cons, List.length_nil]
    omega

end Weights

section Within

inductive StringState : State → Prop where
  | string (pb : Bytes) : StringState (.string .string dquote pb)
  | stringEscape (pb : Bytes) : StringState (.stringEscape .string dquote pb)
  | escapeUnicode (pb : Bytes) (hi : Option Nat) (ucs pos : Nat) :
      StringState (.escapeUnicode .string dquote pb hi ucs pos)
  | hiSurrogate (pb : Bytes) (hi : Nat) : StringState (.hiSurrogate .string dquote pb hi)
  | hiSurrogateEscape (pb : Bytes) (hi : Nat) :
      StringState (.hiSurrogateEscape .string dquote pb hi)

def Dead (t : Tokener) : Prop := ∃ stack err, t = fail stack err

theorem dead_foldl {t : Tokener} (ht : Dead t) (b : Bytes) : Dead (b.foldl step t) := by
  obtain ⟨stack, err, rfl⟩ := ht
  exact ⟨stack, err, foldl_out stack (.error err) b⟩

/-- Still inside the string that was entered with `stack`, or dead. -/
def Within (stack : List Level) (t : Tokener) : Prop :=
  Dead t ∨ t.stack = stack ∧ StringState t.state

variable {stack : List Level}

theorem within_fail (err : TokenerError) : Within stack (fail stack err) :=
  Or.inl ⟨stack, err, rfl⟩

theorem within_stringChar (pb : Bytes) {c : UInt8} (hc : c ≠ dquote) :
    Within stack (stringChar stack .string dquote pb c) := by
  unfold stringChar
  rw [if_neg hc]
  split_ifs
  · exact Or.inr ⟨rfl, .stringEscape pb⟩
  · exact Or.inr ⟨rfl, .string _⟩

theorem within_escapeChar (pb : Bytes) (c : UInt8) :
    Within stack (escapeChar stack .string dquote pb c) := by
  unfold escapeChar
  split
  · exact Or.inr ⟨rfl, .string _⟩
  · split_ifs
    · exact Or.inr ⟨rfl, .escapeUnicode pb none 0 0⟩
    · exact within_fail _

theorem within_codePoint (pb : Bytes) (ucs : Nat) :
    Within stack (codePoint stack .string dquote pb ucs) := by
  unfold codePoint
  split_ifs
  · exact Or.inr ⟨rfl, .hiSurrogate pb ucs⟩
  · exact Or.inr ⟨rfl, .string _⟩

theorem within_unicodeChar (pb : Bytes) (hi : Option Nat) (ucs pos : Nat) (c : UInt8) :
    Within stack (unicodeChar stack .string dquote pb hi ucs pos c) := by
  unfold unicodeChar
  split
  · exact within_fail _
  · split_ifs
    · unfold unicodeDone
      split
      · exact within_codePoint pb _
      · split_ifs
        · exact within_codePoint pb _
        · exact within_codePoint _ _
    · exact Or.inr ⟨rfl, .escapeUnicode pb hi _ _⟩

theorem within_step {t : Tokener} (ht : Within stack t) {c : UInt8} (hc : c ≠ dquote) :
    Within stack (step t c) := by
  rcases ht with hdead | ⟨rfl, hstate⟩
  · exact Or.inl (dead_foldl hdead [c])
  · obtain ⟨stack, state⟩ := t
    cases hstate with
    | string pb => exact within_stringChar pb hc
    | stringEscape pb => exact within_escapeChar pb c
    | escapeUnicode pb hi ucs pos => exact within_unicodeChar pb hi ucs pos c
    | hiSurrogate pb hi =>
        change Within stack (if c = backslash then _ else _)
        split_ifs
        · exact Or.inr ⟨rfl, .hiSurrogateEscape pb hi⟩
        · exact within_stringChar _ hc
    | hiSurrogateEscape pb hi =>
        change Within stack (if c = 117 then _ else _)
        split_ifs
        · exact Or.inr ⟨rfl, .escapeUnicode pb (some hi) 0 0⟩
        · exact within_escapeChar _ c

theorem within_foldl {t : Tokener} (ht : Within stack t) {s : Bytes} (hs : dquote ∉ s) :
    Within stack (s.foldl step t) := by
  induction s generalizing t with
  | nil => exact ht
  | cons c s ih =>
      rw [List.mem_cons, not_or] at hs
      exact ih (within_step ht fun h => hs.1 h.symm) hs.2

end Within

section RawString

variable (stack : List Level) {s : Bytes}

/-- Where the tokener is at the end of the raw bytes of a string value. -/
abbrev afterRaw (s : Bytes) : Tokener := s.foldl step ⟨stack, .string .string dquote []⟩

theorem textWeight_lengthBudget (s : Bytes) :
    lengthBudget.textWeight s + s.count backslash = 2 * s.length := by
  induction s with
  | nil => rfl
  | cons c s ih =>
      have hcons : lengthBudget.textWeight (c :: s) =
          lengthWeight c + lengthBudget.textWeight s := by
        simp [Budget.textWeight, lengthBudget]
      rw [hcons, List.count_cons, List.length_cons]
      unfold lengthWeight
      split_ifs with h1 h2 <;> simp_all <;> omega

theorem clean_of_length (hs : dquote ∉ s) (pb : Bytes)
    (hcost : lengthBudget.stackCost stack + 2 * pb.length ≤
      lengthBudget.tokenerCost (afterRaw stack s))
    (hlen : s.length ≤ pb.length) : Clean s := by
  have hfold : lengthBudget.tokenerCost (afterRaw stack s) ≤ _ :=
    lengthBudget.foldl_cost s ⟨stack, .string .string dquote []⟩
  have hstart : lengthBudget.tokenerCost ⟨stack, .string .string dquote []⟩ =
      lengthBudget.stackCost stack := rfl
  have hweight := textWeight_lengthBudget s
  have hcount : s.count backslash = 0 := by omega
  exact ⟨hs, List.count_eq_zero.mp hcount⟩

/-- A raw string is read as some string, kills the tokener, or swallows its closing
quotation mark at a loss.  It is read as itself only when nothing in it needed an
escape. -/
theorem foldl_raw (hs : dquote ∉ s) :
    Dead ((s ++ [dquote]).foldl step ⟨stack, .string .string dquote []⟩) ∨
      (∃ s', (s ++ [dquote]).foldl step ⟨stack, .string .string dquote []⟩ =
          ⟨stack, .eatws (.finish (.string s'))⟩ ∧ (s' = s → Clean s)) ∨
      quoteBudget.tokenerCost ((s ++ [dquote]).foldl step ⟨stack, .string .string dquote []⟩) + 1 ≤
        quoteBudget.stackCost stack + quoteBudget.textWeight s := by
  have hwithin : Within stack (afterRaw stack s) :=
    within_foldl (Or.inr ⟨rfl, .string []⟩) hs
  have hquote := quoteBudget.foldl_cost s ⟨stack, .string .string dquote []⟩
  have hstart : quoteBudget.tokenerCost ⟨stack, .string .string dquote []⟩ =
      quoteBudget.stackCost stack := rfl
  have hclean := clean_of_length stack hs
  have hcstr : ∀ pb : Bytes, cstr pb = s → s.length ≤ pb.length := by
    rintro pb rfl
    exact (cstr_sublist pb).length_le
  rw [List.foldl_append, List.foldl_cons, List.foldl_nil]
  rcases hwithin with hdead | ⟨hstack, hstate⟩
  · exact Or.inl (dead_foldl hdead [dquote])
  · change (afterRaw stack s).stack = stack at hstack
    generalize hafter : afterRaw stack s = t at *
    obtain ⟨stack', state⟩ := t
    change s.foldl step _ = _ at hafter
    rw [hafter] at hquote ⊢
    change stack' = stack at hstack
    subst hstack
    cases hstate with
    | string pb =>
        refine Or.inr (Or.inl ⟨cstr pb, rfl, fun heq => hclean pb le_rfl (hcstr pb heq)⟩)
    | stringEscape pb =>
        refine Or.inr (Or.inr ?_)
        have hheld := quoteHeld_append_le dquote pb [dquote]
        have hone : quoteCost [dquote] = 1 := by decide
        change quoteBudget.stackCost stack' + quoteHeld dquote (pb ++ [dquote]) + 1 ≤ _
        change quoteBudget.stackCost stack' + (quoteHeld dquote pb + 2) ≤ _ at hquote
        omega
    | escapeUnicode pb hi ucs pos => exact Or.inl ⟨stack', _, rfl⟩
    | hiSurrogate pb hi =>
        refine Or.inr (Or.inl ⟨cstr (pb ++ utf8ReplacementChar), rfl, fun heq => ?_⟩)
        refine hclean (pb ++ utf8ReplacementChar) ?_ (hcstr _ heq)
        change _ ≤ lengthBudget.stackCost stack' + (2 * pb.length + 11)
        simp only [List.length_append, utf8ReplacementChar, List.length_cons, List.length_nil]
        omega
    | hiSurrogateEscape pb hi =>
        refine Or.inr (Or.inr ?_)
        have hrep := quoteHeld_append_le dquote pb utf8ReplacementChar
        have hheld := quoteHeld_append_le dquote (pb ++ utf8ReplacementChar) [dquote]
        have hone : quoteCost [dquote] = 1 := by decide
        have hzero : quoteCost utf8ReplacementChar = 0 := by decide
        change quoteBudget.stackCost stack' +
          quoteHeld dquote (pb ++ utf8ReplacementChar ++ [dquote]) + 1 ≤ _
        change quoteBudget.stackCost stack' + (quoteHeld dquote pb + 2 + 2) ≤ _ at hquote
        omega

end RawString

section RawMember

/-- What a text can do to the tokener in place of what it was meant to do: kill it,
or leave it with less than the text weighs. -/
def Strays (text : Bytes) (t : Tokener) : Prop :=
  Dead (text.foldl step t) ∨
    quoteBudget.tokenerCost (text.foldl step t) + 1 ≤
      quoteBudget.tokenerCost t + quoteBudget.textWeight text

theorem Strays.append {text : Bytes} {t : Tokener} (h : Strays text t) (rest : Bytes) :
    Strays (text ++ rest) t := by
  unfold Strays
  rw [List.foldl_append]
  rcases h with hdead | hcost
  · exact Or.inl (dead_foldl hdead rest)
  · have hrest := quoteBudget.foldl_cost rest (text.foldl step t)
    rw [Budget.textWeight_append]
    exact Or.inr (by omega)

theorem Strays.of_suffix {text : Bytes} {t : Tokener} (lead : Bytes)
    (h : Strays text (lead.foldl step t)) : Strays (lead ++ text) t := by
  unfold Strays
  rw [List.foldl_append]
  rcases h with hdead | hcost
  · exact Or.inl hdead
  · have hlead := quoteBudget.foldl_cost lead t
    rw [Budget.textWeight_append]
    exact Or.inr (by omega)

/-- No value that is parsed from a straying text costs as much as the text weighs. -/
theorem Strays.eof {text : Bytes} {t : Tokener} (h : Strays text t) {v : Json}
    (hv : eof (text.foldl step t) = .ok v) :
    quoteBudget.valueCost v + 1 ≤ quoteBudget.tokenerCost t + quoteBudget.textWeight text := by
  rcases h with ⟨stack, err, hdead⟩ | hcost
  · rw [hdead] at hv
    exact nomatch hv
  · have heof := quoteBudget.eof_cost _ v hv
    omega

theorem foldl_raw_member {key s : Bytes} (hclean : Clean key) (hnul : (0 : UInt8) ∉ key)
    (hs : dquote ∉ s) {stack : List Level} (hroom : stack.length + 1 ≤ maxDepth)
    (entries : Entries) {c : UInt8} (hc : IsDelim c) :
    Strays (dquote :: key ++ [dquote, 58] ++ (dquote :: s ++ [dquote]) ++ [c])
        ⟨stack, .eatws (.objectFieldStart entries)⟩ ∨
      ∃ s', (dquote :: key ++ [dquote, 58] ++ (dquote :: s ++ [dquote]) ++ [c]).foldl step
          ⟨stack, .eatws (.objectFieldStart entries)⟩ =
        objectSep stack (objectAdd entries key (.string s')) c ∧ (s' = s → Clean s) := by
  have hname := foldl_name hclean hnul stack entries
  have hopen : step ⟨stack, .eatws (.objectValue entries key)⟩ dquote =
      ⟨.object entries key :: stack, .string .string dquote []⟩ := by
    rw [step_objectValue hroom (by decide) (by decide)]
    rfl
  have hlead : (dquote :: key ++ [dquote, 58] ++ [dquote]).foldl step
      ⟨stack, .eatws (.objectFieldStart entries)⟩ =
        ⟨.object entries key :: stack, .string .string dquote []⟩ := by
    rw [List.foldl_append, hname]
    exact hopen
  have hsplit : dquote :: key ++ [dquote, 58] ++ (dquote :: s ++ [dquote]) ++ [c] =
      (dquote :: key ++ [dquote, 58] ++ [dquote]) ++ ((s ++ [dquote]) ++ [c]) := by simp
  rw [hsplit]
  have hstray : Strays (s ++ [dquote]) ⟨.object entries key :: stack, .string .string dquote []⟩ →
      Strays ((dquote :: key ++ [dquote, 58] ++ [dquote]) ++ ((s ++ [dquote]) ++ [c]))
        ⟨stack, .eatws (.objectFieldStart entries)⟩ := fun h =>
    Strays.of_suffix _ (by rw [hlead]; exact h.append [c])
  rcases foldl_raw (.object entries key :: stack) hs with hdead | ⟨s', hread, hself⟩ | hcost
  · exact Or.inl (hstray (Or.inl hdead))
  · refine Or.inr ⟨s', ?_, hself⟩
    rw [List.foldl_append, hlead, List.foldl_append, hread]
    exact step_finish hc
  · refine Or.inl (hstray (Or.inr ?_))
    have hzero : quoteBudget.tokenerCost
        ⟨.object entries key :: stack, .string .string dquote []⟩ =
          quoteBudget.stackCost (.object entries key :: stack) := rfl
    rw [Budget.textWeight_append]
    omega

end RawMember

end MmsSvr.JsonC
