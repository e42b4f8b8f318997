import MmsSvr.Bytes
import MmsSvr.Lib.DoWhile
import MmsSvr.Lib.Words

/-!
The text that `AsyncSendCommand` makes of a format and its arguments, and the arguments for redis
that hiredis makes of a format.
-/

namespace MmsSvr

open Lib

def percentByte : UInt8 := 37

def spaceByte : UInt8 := 32

/-- A piece of what `vsnprintf` prints. -/
inductive PrintPiece where
  | char (c : UInt8)
  /-- `%%`. -/
  | percent
  /-- `%s`, with the string that is its argument. -/
  | string (arg : Bytes)
deriving DecidableEq, Repr

def PrintPiece.bytes : PrintPiece → Bytes
  | .char c => [c]
  | .percent => [percentByte]
  | .string arg => arg

/-- What a format is for `vsnprintf` with strings as arguments; `none` if it asks for something
else, such as a width, a precision or a number, or for more than there are. -/
def printPieces : Bytes → List Bytes → Option (List PrintPiece)
  | [], _ => some []
  | c :: rest, args =>
      if c ≠ percentByte then (printPieces rest args).map (.char c :: ·)
      else
        match rest, args with
        | 37 :: rest, args => (printPieces rest args).map (.percent :: ·)
        | 115 :: rest, arg :: args => (printPieces rest args).map (.string arg :: ·)
        | _, _ => none

section Text

/-- The variables of the loop in `AsyncSendCommand`, and whether it has come to its `break`. -/
structure TextLoop where
  size : Nat
  str : Bytes
  done : Bool
deriving DecidableEq, Repr

/-- `vsnprintf` into a buffer: what it returns (`none` for -1) and what it writes. Where the text
does not fit, some return its length and some -1. -/
def vsnprintf (reports : Nat → Bool) (text : Bytes) (size : Nat) : Option Nat × Bytes :=
  if text.length < size then (some text.length, text)
  else (if reports size then some text.length else none, text.take (size - 1))

def textLoop (reports : Nat → Bool) (text : Bytes) : DoWhile TextLoop Empty where
  body := fun s =>
    match vsnprintf reports text s.size with
    | (some n, str) =>
        if n < s.size then some (.ok { s with str := str.take n, done := true })
        else some (.ok { s with size := n + 1, str := str })
    | (none, str) => some (.ok { s with size := s.size * 2, str := str })
  again := fun s => !s.done

/-- The text that is queued; an empty one is `REDIS_ERR_EOF`. -/
def QueuesText (reports : Nat → Bool) (text queued : Bytes) : Prop :=
  (∃ size, (textLoop reports text).Yields ⟨256, [], false⟩ (.ok ⟨size, queued, true⟩)) ∧ queued ≠ []

end Text

section Hiredis

/-- An argument behind a format. -/
inductive VaArg where
  | string (s : Bytes)
  /-- A pointer and a size. -/
  | binary (s : Bytes)
  /-- A number, as `printf` prints it under a directive. -/
  | number (print : Bytes → Bytes)

/-- A `va_list`; `none` for NULL. -/
abbrev VaList := Option (List VaArg)

/-- The variables of `redisvFormatCommand`. -/
structure FormatState where
  current : Bytes
  touched : Bool
  argv : List Bytes
deriving DecidableEq, Repr

/-- One of the flags, if it is there. -/
def skipByte (c : UInt8) : Bytes → Bytes
  | [] => []
  | b :: rest => if b = c then rest else b :: rest

/-- A directive of `printf` up to its conversion, from behind the percent sign on. -/
def conversion (p : Bytes) : Bytes :=
  let p := skipByte 43 (skipByte 32 (skipByte 45 (skipByte 48 (skipByte 35 p))))
  let p := p.dropWhile isDigit
  let p :=
    match p with
    | 46 :: p => p.dropWhile isDigit
    | p => p
  match p with
  | a :: b :: rest => if a = 104 ∨ a = 108 then if a = b then rest else b :: rest else p
  | [a] => if a = 104 ∨ a = 108 then [] else p
  | [] => []

/-- The `default` of the `switch`: the directive to print, if it is one, and how many bytes behind
the percent sign are done with. -/
def printfDirective (p : Bytes) : Option Bytes × Nat :=
  match conversion p with
  | k :: rest =>
      let l := 1 + (p.length - rest.length)
      if k ∈ lit "diouxXeEfFgGaA" ∧ l < 14 then (some ((percentByte :: p).take l), l - 1)
      else (none, 1)
  | [] => (none, 1)

/-- The `switch`: what is appended, the arguments that are left, and how many bytes behind the
percent sign are done with. `none` if an argument is taken that is not there, or is another. -/
def formatDirective (p : Bytes) (ap : VaList) : Option (Bytes × VaList × Nat) :=
  match p, ap with
  | 37 :: _, ap => some ([percentByte], ap, 1)
  | 115 :: _, some (.string s :: rest) => some (s, some rest, 1)
  | 115 :: _, _ => none
  | 98 :: _, some (.binary s :: rest) => some (s, some rest, 1)
  | 98 :: _, _ => none
  | p, some (arg :: rest) =>
      match printfDirective p, arg with
      | (some directive, n), .number print => some (print directive, some rest, n)
      | (none, n), .number _ => some ([], some rest, n)
      | (none, n), .string _ => some ([], some rest, n)
      | _, _ => none
  | _, _ => none

/-- The loop of `redisvFormatCommand`, with `skip` bytes to go over. -/
def formatLoop : Bytes → Nat → VaList → FormatState → Option FormatState
  | [], _, _, s => some s
  | _ :: rest, skip + 1, ap, s => formatLoop rest skip ap s
  | c :: rest, 0, ap, s =>
      if c ≠ percentByte ∨ rest = [] then
        if c = spaceByte then
          if s.touched then formatLoop rest 0 ap ⟨[], false, s.argv ++ [s.current]⟩
          else formatLoop rest 0 ap s
        else formatLoop rest 0 ap { s with current := s.current ++ [c], touched := true }
      else
        match formatDirective rest ap with
        | some (bytes, ap, skip) =>
            formatLoop rest skip ap { s with current := s.current ++ bytes, touched := true }
        | none => none

/-- `redisvFormatCommand`, as far as `argv`. -/
def redisvFormatCommand (format : Bytes) (ap : VaList) : Option (List Bytes) :=
  (formatLoop format 0 ap ⟨[], false, []⟩).map fun s =>
    if s.touched then s.argv ++ [s.current] else s.argv

end Hiredis

section Text

variable {reports : Nat → Bool} {text : Bytes}

/-- Where the text fits, a turn is the last; elsewhere the buffer grows. -/
def TextLoop.Turned (text : Bytes) (s t : TextLoop) : Prop :=
  if text.length < s.size then t.str = text ∧ t.done = true
  else t.done = s.done ∧ (t.size = text.length + 1 ∨ t.size = s.size * 2)

theorem textLoop_body (reports : Nat → Bool) (text : Bytes) (s : TextLoop) :
    ∃ t, (textLoop reports text).body s = some (.ok t) ∧ s.Turned text t := by
  unfold TextLoop.Turned
  rw [textLoop]
  dsimp only
  by_cases hlt : text.length < s.size
  · have hprint : vsnprintf reports text s.size = (some text.length, text) := if_pos hlt
    rw [hprint]
    refine ⟨_, if_pos hlt, ?_⟩
    rw [if_pos hlt]
    exact ⟨List.take_length, rfl⟩
  · have hprint : vsnprintf reports text s.size =
        (if reports s.size then some text.length else none, text.take (s.size - 1)) := if_neg hlt
    rw [hprint]
    cases reports s.size with
    | true =>
        refine ⟨_, if_neg hlt, ?_⟩
        rw [if_neg hlt]
        exact ⟨rfl, .inl rfl⟩
    | false =>
        refine ⟨_, rfl, ?_⟩
        rw [if_neg hlt]
        exact ⟨rfl, .inr rfl⟩

theorem turned_of_body {s t : TextLoop} (hbody : (textLoop reports text).body s = some (.ok t)) :
    s.Turned text t := by
  obtain ⟨t', ht', hturned⟩ := textLoop_body reports text s
  rw [hbody, Option.some.injEq, Except.ok.injEq] at ht'
  rw [ht']
  exact hturned

theorem textLoop_ends (reports : Nat → Bool) (text : Bytes) :
    ∃ r, (textLoop reports text).Yields ⟨256, [], false⟩ r := by
  have hnone : ∀ s : TextLoop, 0 < s.size → (textLoop reports text).body s ≠ none := by
    intro s _
    obtain ⟨t, ht, -⟩ := textLoop_body reports text s
    rw [ht]
    exact Option.some_ne_none _
  have hturn : ∀ s t : TextLoop, 0 < s.size → (textLoop reports text).Turn s t →
      0 < t.size ∧ text.length + 1 - t.size < text.length + 1 - s.size := by
    rintro s t hs ⟨hbody, hagain⟩
    have hcases := turned_of_body hbody
    rw [TextLoop.Turned] at hcases
    split at hcases
    · have hdone : (!t.done) = true := hagain
      rw [hcases.2] at hdone
      cases hdone
    · rcases hcases.2 with hsize | hsize
      · omega
      · omega
  have hinit : 0 < (⟨256, [], false⟩ : TextLoop).size := by decide
  obtain ⟨r, hr⟩ := DoWhile.run_of_measure _ _ hnone hturn hinit
  exact ⟨r, _, hr⟩

theorem textLoop_str {s t : TextLoop} (h : (textLoop reports text).Completes s t)
    (hs : s.done = false) : t.str = text ∧ t.done = true := by
  induction h with
  | @last s t hbody hlast =>
      have hcases := turned_of_body hbody
      rw [TextLoop.Turned] at hcases
      split at hcases
      · exact hcases
      · have hdone : (!t.done) = false := hlast
        rw [hcases.1, hs] at hdone
        cases hdone
  | @turn s t u hturn _ ih =>
      apply ih
      have hdone : (!t.done) = true := hturn.2
      rwa [Bool.not_eq_true'] at hdone

theorem queues_iff {queued : Bytes} :
    QueuesText reports text queued ↔ queued = text ∧ text ≠ [] := by
  obtain ⟨r, hr⟩ := textLoop_ends reports text
  cases r with
  | error e => exact e.elim
  | ok t =>
      obtain ⟨hstr, hdone⟩ := textLoop_str (DoWhile.yields_ok_iff.mp hr) rfl
      constructor
      · rintro ⟨⟨size, hyields⟩, hne⟩
        have heq := hyields.unique hr
        rw [Except.ok.injEq] at heq
        have hqueued : queued = text := by
          rw [← hstr, ← heq]
        exact ⟨hqueued, by rwa [hqueued] at hne⟩
      · rintro ⟨hqueued, hne⟩
        rw [← hqueued] at hne
        refine ⟨⟨t.size, ?_⟩, hne⟩
        have heq : t = ⟨t.size, queued, true⟩ := by
          rw [hqueued, ← hstr, ← hdone]
        rw [← heq]
        exact hr

end Text

section Pieces

/-- The pieces of a format, clause by clause. -/
inductive Prints : Bytes → List Bytes → List PrintPiece → Prop where
  | nil (args : List Bytes) : Prints [] args []
  | char {c : UInt8} {rest : Bytes} {args : List Bytes} {pieces : List PrintPiece}
      (hc : c ≠ percentByte) (hrest : Prints rest args pieces) :
      Prints (c :: rest) args (.char c :: pieces)
  | percent {rest : Bytes} {args : List Bytes} {pieces : List PrintPiece}
      (hrest : Prints rest args pieces) : Prints (37 :: 37 :: rest) args (.percent :: pieces)
  | string {rest arg : Bytes} {args : List Bytes} {pieces : List PrintPiece}
      (hrest : Prints rest args pieces) :
      Prints (37 :: 115 :: rest) (arg :: args) (.string arg :: pieces)

theorem prints_of_eq {format : Bytes} {args : List Bytes} {pieces : List PrintPiece}
    (h : printPieces format args = some pieces) : Prints format args pieces := by
  fun_induction printPieces format args generalizing pieces with
  | case1 args =>
      cases h
      exact .nil args
  | case2 c rest args hc ih =>
      obtain ⟨pieces, hpieces, rfl⟩ := Option.map_eq_some_iff.mp h
      exact .char hc (ih hpieces)
  | case3 c hc rest args ih =>
      obtain ⟨pieces, hpieces, rfl⟩ := Option.map_eq_some_iff.mp h
      rw [not_not.mp hc]
      exact .percent (ih hpieces)
  | case4 c hc rest arg args ih =>
      obtain ⟨pieces, hpieces, rfl⟩ := Option.map_eq_some_iff.mp h
      rw [not_not.mp hc]
      exact .string (ih hpieces)
  | case5 => cases h

/-- A byte of a text that ends an argument for redis. -/
def isSpace (c : UInt8) : Bool := c == spaceByte

def PrintPiece.isSpace : PrintPiece → Bool
  | .char c => c == spaceByte
  | _ => false

end Pieces

section Loop

variable {c : UInt8} {rest : Bytes} {ap ap' : VaList} {s : FormatState}

/-- The arguments when the loop has come to its end. -/
def FormatState.out (s : FormatState) : List Bytes :=
  if s.touched then s.argv ++ [s.current] else s.argv

theorem redisvFormatCommand_eq (format : Bytes) (ap : VaList) :
    redisvFormatCommand format ap =
      (formatLoop format 0 ap ⟨[], false, []⟩).map FormatState.out := rfl

theorem formatLoop_space (hs : s.touched = false → s.current = []) :
    formatLoop (spaceByte :: rest) 0 ap s = formatLoop rest 0 ap ⟨[], false, s.out⟩ := by
  rw [formatLoop, if_pos (.inl (by decide)), if_pos rfl]
  obtain ⟨current, touched, argv⟩ := s
  cases touched with
  | true => rfl
  | false =>
      have hcurrent : current = [] := hs rfl
      rw [hcurrent]
      rfl

theorem formatLoop_char (hc : c ≠ percentByte ∨ rest = []) (hspace : c ≠ spaceByte) :
    formatLoop (c :: rest) 0 ap s =
      formatLoop rest 0 ap { s with current := s.current ++ [c], touched := true } := by
  rw [formatLoop, if_pos hc, if_neg hspace]

theorem formatLoop_directive {d : UInt8} {bytes : Bytes}
    (h : formatDirective (d :: rest) ap = some (bytes, ap', 1)) :
    formatLoop (percentByte :: d :: rest) 0 ap s =
      formatLoop rest 0 ap' { s with current := s.current ++ bytes, touched := true } := by
  have hbranch : ¬ (percentByte ≠ percentByte ∨ d :: rest = []) := by
    rintro (hne | hnil)
    · exact hne rfl
    · cases hnil
  rw [formatLoop, if_neg hbranch, h]
  rfl

variable {word : List PrintPiece} {argv : List Bytes}

theorem out_pieces (word : List PrintPiece) (argv : List Bytes) :
    FormatState.out ⟨word.flatMap PrintPiece.bytes, !word.isEmpty, argv⟩ =
      argv ++ (closeWord word).map (List.flatMap PrintPiece.bytes) := by
  cases word with
  | nil => exact (List.append_nil _).symm
  | cons a word => rfl

theorem appended_piece (word : List PrintPiece) (piece : PrintPiece) (argv : List Bytes) :
    FormatState.mk (word.flatMap PrintPiece.bytes ++ piece.bytes) true argv =
      ⟨(word ++ [piece]).flatMap PrintPiece.bytes, !(word ++ [piece]).isEmpty, argv⟩ := by
  rw [List.flatMap_append, List.flatMap_singleton]
  cases word <;> rfl

theorem formatLoop_pieces {format : Bytes} {args : List Bytes} {pieces : List PrintPiece}
    (h : Prints format args pieces) (word : List PrintPiece) (argv : List Bytes) :
    (formatLoop format 0 (some (args.map .string))
        ⟨word.flatMap PrintPiece.bytes, !word.isEmpty, argv⟩).map FormatState.out =
      some (argv ++ (wordsFrom PrintPiece.isSpace word pieces).map
        (List.flatMap PrintPiece.bytes)) := by
  induction h generalizing word argv with
  | nil args => exact congrArg some (out_pieces word argv)
  | @char c rest args pieces hc _ ih =>
      by_cases hspace : c = spaceByte
      · subst hspace
        have huntouched : (!word.isEmpty) = false → word.flatMap PrintPiece.bytes = [] := by
          rw [Bool.not_eq_false', List.isEmpty_iff]
          rintro rfl
          rfl
        rw [formatLoop_space huntouched, out_pieces, wordsFrom_cons_sep rfl, List.map_append,
          ← List.append_assoc]
        exact ih [] _
      · have hsep : (PrintPiece.char c).isSpace = false := by
          rw [PrintPiece.isSpace, beq_eq_false_iff_ne]
          exact hspace
        have happended := appended_piece word (.char c) argv
        rw [PrintPiece.bytes] at happended
        rw [wordsFrom_cons_of_not_sep hsep, ← ih _ argv, ← happended]
        exact congrArg _ (formatLoop_char (.inl hc) hspace)
  | @percent rest args pieces _ ih =>
      have hdirective : formatDirective (37 :: rest) (some (args.map .string)) =
          some ([percentByte], some (args.map .string), 1) := rfl
      have happended := appended_piece word .percent argv
      rw [PrintPiece.bytes] at happended
      rw [wordsFrom_cons_of_not_sep rfl, ← ih _ argv, ← happended]
      exact congrArg _ (formatLoop_directive hdirective)
  | @string rest arg args pieces _ ih =>
      have hdirective : formatDirective (115 :: rest) (some ((arg :: args).map .string)) =
          some (arg, some (args.map .string), 1) := rfl
      have happended := appended_piece word (.string arg) argv
      rw [PrintPiece.bytes] at happended
      rw [wordsFrom_cons_of_not_sep rfl, ← ih _ argv, ← happended]
      exact congrArg _ (formatLoop_directive hdirective)

theorem out_word (word : Bytes) (argv : List Bytes) :
    FormatState.out ⟨word, !word.isEmpty, argv⟩ = argv ++ closeWord word := by
  cases word with
  | nil => exact (List.append_nil _).symm
  | cons a word => rfl

theorem formatLoop_text {text : Bytes} (h : percentByte ∉ text.dropLast) (word : Bytes)
    (argv : List Bytes) :
    (formatLoop text 0 none ⟨word, !word.isEmpty, argv⟩).map FormatState.out =
      some (argv ++ wordsFrom isSpace word text) := by
  induction text generalizing word argv with
  | nil => exact congrArg some (out_word word argv)
  | cons c rest ih =>
      have hc : c ≠ percentByte ∨ rest = [] := by
        cases rest with
        | nil => exact .inr rfl
        | cons d rest =>
            rw [List.dropLast_cons_cons, List.mem_cons, not_or] at h
            exact .inl (Ne.symm h.1)
      have hrest : percentByte ∉ rest.dropLast := by
        cases rest with
        | nil => exact List.not_mem_nil
        | cons d rest =>
            rw [List.dropLast_cons_cons, List.mem_cons, not_or] at h
            exact h.2
      by_cases hspace : c = spaceByte
      · subst hspace
        have huntouched : (!word.isEmpty) = false → word = [] := by
          rw [Bool.not_eq_false', List.isEmpty_iff]
          exact id
        rw [formatLoop_space huntouched, out_word, wordsFrom_cons_sep rfl, ← List.append_assoc]
        exact ih hrest [] _
      · have hsep : isSpace c = false := by
          rw [isSpace, beq_eq_false_iff_ne]
          exact hspace
        have hword : (!(word ++ [c]).isEmpty) = true := by
          cases word <;> rfl
        rw [wordsFrom_cons_of_not_sep hsep, ← ih hrest _ argv, hword]
        exact congrArg _ (formatLoop_char hc hspace)

theorem formatDirective_none {d : UInt8} {r : Bytes × VaList × Nat}
    (h : formatDirective (d :: rest) none = some r) : d = 37 ∧ r = ([percentByte], none, 1) := by
  by_cases hd : d = 37
  · rw [hd] at h
    cases h
    exact ⟨hd, rfl⟩
  · have hnone : formatDirective (d :: rest) none = none := by
      rw [formatDirective.eq_def]
      split <;> simp_all
    rw [hnone] at h
    cases h

/-- How it goes over a text, clause by clause. -/
inductive TextRun : Bytes → FormatState → FormatState → Prop where
  | nil (s : FormatState) : TextRun [] s s
  | space {rest : Bytes} {s t : FormatState}
      (hrest : TextRun rest (if s.touched then ⟨[], false, s.argv ++ [s.current]⟩ else s) t) :
      TextRun (spaceByte :: rest) s t
  | char {c : UInt8} {rest : Bytes} {s t : FormatState} (hspace : c ≠ spaceByte)
      (hc : c ≠ percentByte ∨ rest = [])
      (hrest : TextRun rest { s with current := s.current ++ [c], touched := true } t) :
      TextRun (c :: rest) s t
  | percents {rest : Bytes} {s t : FormatState}
      (hrest : TextRun rest { s with current := s.current ++ [percentByte], touched := true } t) :
      TextRun (percentByte :: percentByte :: rest) s t

theorem textRun_of_eq {text : Bytes} {skip : Nat} (hskip : skip ≤ 1) {t : FormatState}
    (h : formatLoop text skip none s = some t) : TextRun (text.drop skip) s t := by
  induction text generalizing skip s with
  | nil =>
      cases h
      rw [List.drop_nil]
      exact .nil _
  | cons c rest ih =>
      cases skip with
      | succ skip =>
          obtain rfl : skip = 0 := by omega
          exact ih (Nat.zero_le _) h
      | zero =>
          rw [List.drop_zero]
          rw [formatLoop] at h
          split at h
          · rename_i hc
            split at h
            · rename_i hspace
              rw [hspace]
              refine .space ?_
              split at h
              · rename_i htouched
                rw [if_pos htouched]
                exact ih (Nat.zero_le _) h
              · rename_i htouched
                rw [if_neg htouched]
                exact ih (Nat.zero_le _) h
            · rename_i hspace
              exact .char hspace hc (ih (Nat.zero_le _) h)
          · rename_i hc
            rw [not_or, not_not] at hc
            obtain ⟨hpercent, hrest⟩ := hc
            obtain ⟨d, rest, rfl⟩ := List.exists_cons_of_ne_nil hrest
            cases hdirective : formatDirective (d :: rest) none with
            | none =>
                rw [hdirective] at h
                cases h
            | some r =>
                obtain ⟨rfl, rfl⟩ := formatDirective_none hdirective
                rw [hdirective] at h
                rw [hpercent]
                exact .percents (ih le_rfl h)

def FormatState.all (s : FormatState) : Bytes := s.argv.flatten ++ s.current

theorem all_append (s : FormatState) (bytes : Bytes) :
    FormatState.all { s with current := s.current ++ bytes, touched := true } = s.all ++ bytes :=
  (List.append_assoc ..).symm

theorem all_closed (s : FormatState) :
    FormatState.all (if s.touched then ⟨[], false, s.argv ++ [s.current]⟩ else s) = s.all := by
  split
  · rw [FormatState.all, FormatState.all, List.flatten_append, List.append_nil,
      List.flatten_singleton]
  · rfl

theorem count_textRun {text : Bytes} {t : FormatState} (h : TextRun text s t) :
    t.all.count percentByte ≤ s.all.count percentByte + text.count percentByte ∧
      (percentByte ∈ text.dropLast →
        t.all.count percentByte < s.all.count percentByte + text.count percentByte) := by
  induction h with
  | nil s => exact ⟨le_rfl, fun hmem => (List.not_mem_nil hmem).elim⟩
  | @space rest s t _ ih =>
      rw [all_closed] at ih
      rw [List.count_cons_of_ne (by decide)]
      refine ⟨ih.1, fun hmem => ih.2 ?_⟩
      cases rest with
      | nil => exact hmem
      | cons d rest =>
          rw [List.dropLast_cons_cons, List.mem_cons] at hmem
          exact hmem.resolve_left (by decide)
  | @char c rest s t hspace hc _ ih =>
      rw [all_append, List.count_append, List.count_singleton] at ih
      rw [List.count_cons]
      refine ⟨by omega, fun hmem => ?_⟩
      have hrest : percentByte ∈ rest.dropLast := by
        cases rest with
        | nil => exact hmem
        | cons d rest =>
            rw [List.dropLast_cons_cons, List.mem_cons] at hmem
            refine hmem.resolve_left fun heq => ?_
            exact hc.elim (fun hne => hne heq.symm) (List.cons_ne_nil d rest)
      have hlt := ih.2 hrest
      omega
  | @percents rest s t _ ih =>
      rw [all_append, List.count_append, List.count_singleton_self] at ih
      rw [List.count_cons_self, List.count_cons_self]
      constructor
      · omega
      · intro _
        omega

theorem spaces_append {c : UInt8} (hc : c ≠ spaceByte)
    (hs : ∀ w ∈ s.argv ++ [s.current], spaceByte ∉ w) :
    ∀ w ∈ s.argv ++ [s.current ++ [c]], spaceByte ∉ w := by
  intro w hw
  rcases List.mem_append.mp hw with hw | hw
  · exact hs w (List.mem_append_left _ hw)
  · rw [List.mem_singleton.mp hw, List.mem_append, List.mem_singleton, not_or]
    exact ⟨hs _ (List.mem_append_right _ (List.mem_singleton_self _)), Ne.symm hc⟩

theorem spaces_textRun {text : Bytes} {t : FormatState} (h : TextRun text s t)
    (hs : ∀ w ∈ s.argv ++ [s.current], spaceByte ∉ w) :
    ∀ w ∈ t.argv ++ [t.current], spaceByte ∉ w := by
  induction h with
  | nil s => exact hs
  | @space rest s t _ ih =>
      apply ih
      split
      · intro w hw
        rcases List.mem_append.mp hw with hw | hw
        · exact hs w hw
        · rw [List.mem_singleton.mp hw]
          exact List.not_mem_nil
      · exact hs
  | char hspace _ _ ih => exact ih (spaces_append hspace hs)
  | percents _ ih => exact ih (spaces_append (by decide) hs)

theorem out_subset (s : FormatState) : ∀ w ∈ s.out, w ∈ s.argv ++ [s.current] := by
  intro w hw
  rw [FormatState.out] at hw
  split at hw
  · exact hw
  · exact List.mem_append_left _ hw

theorem count_out_le (s : FormatState) (c : UInt8) : s.out.flatten.count c ≤ s.all.count c := by
  rw [FormatState.out, FormatState.all]
  split
  · rw [List.flatten_append, List.flatten_singleton]
  · rw [List.count_append]
    exact Nat.le_add_right ..

end Loop

section Agreement

def printed (pieces : List PrintPiece) : Bytes := pieces.flatMap PrintPiece.bytes

def arguments (pieces : List PrintPiece) : List Bytes :=
  (words PrintPiece.isSpace pieces).map printed

/-- Nothing in the text is a directive or a space that the format does not have, and no argument for
redis is empty; or there is no text at all. -/
def Verbatim (pieces : List PrintPiece) : Prop :=
  printed pieces = [] ∨
    (∀ arg, .string arg ∈ pieces → spaceByte ∉ arg) ∧
    percentByte ∉ (printed pieces).dropLast ∧
    ∀ word ∈ words PrintPiece.isSpace pieces, printed word ≠ []

variable {format : Bytes} {args : List Bytes} {pieces : List PrintPiece}

theorem redisvFormatCommand_pieces (h : printPieces format args = some pieces) :
    redisvFormatCommand format (some (args.map .string)) = some (arguments pieces) :=
  formatLoop_pieces (prints_of_eq h) [] []

theorem redisvFormatCommand_printed (hargs : ∀ arg, .string arg ∈ pieces → spaceByte ∉ arg)
    (hpercent : percentByte ∉ (printed pieces).dropLast) :
    redisvFormatCommand (printed pieces) none =
      some ((arguments pieces).filter fun w => !w.isEmpty) := by
  have hwords : wordsFrom isSpace (([] : List PrintPiece).flatMap PrintPiece.bytes)
      (printed pieces) = (arguments pieces).filter fun w => !w.isEmpty := by
    apply wordsFrom_flatMap
    · intro piece _ hsep
      cases piece with
      | char c => exact ⟨c, rfl, hsep⟩
      | percent => cases hsep
      | string arg => cases hsep
    · intro piece hpiece hsep b hb
      cases piece with
      | char c =>
          rw [PrintPiece.bytes, List.mem_singleton] at hb
          rw [hb]
          exact hsep
      | percent =>
          rw [PrintPiece.bytes, List.mem_singleton] at hb
          rw [hb]
          rfl
      | string arg =>
          rw [isSpace, beq_eq_false_iff_ne]
          rintro rfl
          exact hargs arg hpiece hb
  rw [← hwords]
  exact formatLoop_text hpercent [] []

theorem exists_argument {arg : Bytes} (h : .string arg ∈ pieces) :
    ∃ w ∈ arguments pieces, ∀ b ∈ arg, b ∈ w := by
  have hmem : .string arg ∈ (words PrintPiece.isSpace pieces).flatten := by
    rw [flatten_words, List.mem_filter]
    exact ⟨h, rfl⟩
  obtain ⟨word, hword, harg⟩ := List.mem_flatten.mp hmem
  refine ⟨printed word, List.mem_map_of_mem hword, ?_⟩
  intro b hb
  exact List.mem_flatMap.mpr ⟨_, harg, hb⟩

theorem count_arguments (pieces : List PrintPiece) :
    (arguments pieces).flatten.count percentByte = (printed pieces).count percentByte := by
  have hflatten : (arguments pieces).flatten =
      (pieces.filter fun piece => !piece.isSpace).flatMap PrintPiece.bytes := by
    rw [← flatten_words, List.flatten_eq_flatMap (L := words _ _), List.flatMap_assoc]
    rfl
  rw [hflatten, printed]
  clear hflatten
  induction pieces with
  | nil => rfl
  | cons piece pieces ih =>
      rw [List.flatMap_cons, List.count_append, ← ih]
      cases hsep : piece.isSpace with
      | false =>
          rw [List.filter_cons_of_pos (by rw [hsep]; rfl), List.flatMap_cons, List.count_append]
      | true =>
          have hzero : piece.bytes.count percentByte = 0 := by
            cases piece with
            | char c =>
                rw [PrintPiece.isSpace, beq_iff_eq] at hsep
                rw [hsep]
                rfl
            | percent => cases hsep
            | string arg => cases hsep
          rw [List.filter_cons_of_neg (by rw [hsep]; exact Bool.false_ne_true), hzero, Nat.zero_add]

theorem verbatim_of_eq
    (h : redisvFormatCommand (printed pieces) none = some (arguments pieces)) :
    (∀ arg, .string arg ∈ pieces → spaceByte ∉ arg) ∧
      percentByte ∉ (printed pieces).dropLast := by
  rw [redisvFormatCommand_eq, Option.map_eq_some_iff] at h
  obtain ⟨t, ht, hout⟩ := h
  have hrun := textRun_of_eq (Nat.zero_le 1) ht
  rw [List.drop_zero] at hrun
  constructor
  · intro arg harg hspace
    obtain ⟨w, hw, hsub⟩ := exists_argument harg
    have hinit : ∀ w ∈ ([] : List Bytes) ++ [[]], spaceByte ∉ w := by
      intro w hw
      rw [List.mem_singleton.mp hw]
      exact List.not_mem_nil
    rw [← hout] at hw
    exact spaces_textRun hrun hinit w (out_subset t w hw) (hsub _ hspace)
  · intro hmem
    have hlt := (count_textRun hrun).2 hmem
    have hle := count_out_le t percentByte
    rw [hout, count_arguments] at hle
    have hinit : (FormatState.mk [] false []).all.count percentByte = 0 := rfl
    omega

/-- The text is formatted a second time: the arguments for redis are those of the format exactly if
it stands for itself. -/
theorem arguments_kept_iff (reports : Nat → Bool) {format : Bytes} {args : List Bytes}
    {pieces : List PrintPiece} (h : printPieces format args = some pieces) :
    redisvFormatCommand format (some (args.map .string)) = some (arguments pieces) ∧
      (printed pieces ≠ [] → QueuesText reports (printed pieces) (printed pieces)) ∧
      ((∀ queued, QueuesText reports (printed pieces) queued →
        redisvFormatCommand queued none = some (arguments pieces)) ↔ Verbatim pieces) := by
  refine ⟨redisvFormatCommand_pieces h, fun hne => queues_iff.mpr ⟨rfl, hne⟩, ?_⟩
  constructor
  · intro hsame
    by_cases hempty : printed pieces = []
    · exact .inl hempty
    · have heq := hsame _ (queues_iff.mpr ⟨rfl, hempty⟩)
      obtain ⟨hargs, hpercent⟩ := verbatim_of_eq heq
      refine .inr ⟨hargs, hpercent, ?_⟩
      rw [redisvFormatCommand_printed hargs hpercent, Option.some.injEq,
        List.filter_eq_self] at heq
      intro word hword hnil
      have hnonempty := heq (printed word) (List.mem_map_of_mem hword)
      rw [hnil] at hnonempty
      cases hnonempty
  · rintro hverbatim queued hqueued
    obtain ⟨rfl, hne⟩ := queues_iff.mp hqueued
    rcases hverbatim with hempty | ⟨hargs, hpercent, hwords⟩
    · exact absurd hempty hne
    · rw [redisvFormatCommand_printed hargs hpercent, Option.some.injEq, List.filter_eq_self]
      intro w hw
      obtain ⟨word, hword, rfl⟩ := List.mem_map.mp hw
      rw [Bool.not_eq_true', List.isEmpty_eq_false_iff]
      exact hwords word hword

/-- `LPUSH MMS%s %s%%`, whose text ends with the percent sign. -/
def lpushPieces : List PrintPiece :=
  (lit "LPUSH MMS").map .char ++
    [.string (lit "1"), .char spaceByte, .string (lit "a"), .percent]

theorem arguments_kept_sample :
    redisvFormatCommand (lit "LPUSH MMS%s %s%%") (some ([lit "1", lit "a"].map .string)) =
        some [lit "LPUSH", lit "MMS1", lit "a%"] ∧
      QueuesText (fun _ => true) (lit "LPUSH MMS1 a%") (lit "LPUSH MMS1 a%") ∧
      ∀ queued, QueuesText (fun _ => true) (lit "LPUSH MMS1 a%") queued →
        redisvFormatCommand queued none = some [lit "LPUSH", lit "MMS1", lit "a%"] := by
  have hpieces : printPieces (lit "LPUSH MMS%s %s%%") [lit "1", lit "a"] = some lpushPieces := by
    decide +kernel
  have hprinted : printed lpushPieces = lit "LPUSH MMS1 a%" := by decide +kernel
  have harguments : arguments lpushPieces = [lit "LPUSH", lit "MMS1", lit "a%"] := by
    decide +kernel
  have hverbatim : Verbatim lpushPieces := by
    refine .inr ⟨?_, by decide +kernel, by decide +kernel⟩
    intro arg harg
    have hargs : arg = lit "1" ∨ arg = lit "a" := by simpa [lpushPieces] using harg
    rcases hargs with rfl | rfl
    · decide +kernel
    · decide +kernel
  obtain ⟨hformat, hqueues, hkept⟩ := arguments_kept_iff (fun _ => true) hpieces
  rw [hprinted, harguments] at hkept
  rw [hprinted] at hqueues
  exact ⟨hformat.trans (congrArg some harguments), hqueues (by decide +kernel),
    hkept.mpr hverbatim⟩

/-- A space in the argument makes two of it; the start of a directive takes an argument that is not
there. -/
theorem arguments_not_kept :
    (∃ pieces, printPieces (lit "LPUSH MMS %s") [lit "a b"] = some pieces ∧
      ¬ ∀ queued, QueuesText (fun _ => true) (printed pieces) queued →
        redisvFormatCommand queued none =
          redisvFormatCommand (lit "LPUSH MMS %s") (some [.string (lit "a b")])) ∧
      redisvFormatCommand (lit "LPUSH MMS %s") (some [.string (lit "a b")]) =
        some [lit "LPUSH", lit "MMS", lit "a b"] ∧
      redisvFormatCommand (lit "LPUSH MMS a b") none =
        some [lit "LPUSH", lit "MMS", lit "a", lit "b"] ∧
      redisvFormatCommand (lit "LPUSH MMS 5%d") none = none := by
  have hformat : redisvFormatCommand (lit "LPUSH MMS %s") (some [.string (lit "a b")]) =
      some [lit "LPUSH", lit "MMS", lit "a b"] := by decide +kernel
  have htext : redisvFormatCommand (lit "LPUSH MMS a b") none =
      some [lit "LPUSH", lit "MMS", lit "a", lit "b"] := by decide +kernel
  have hpieces : printPieces (lit "LPUSH MMS %s") [lit "a b"] =
      some ((lit "LPUSH MMS ").map .char ++ [.string (lit "a b")]) := by decide +kernel
  have hprinted : lit "LPUSH MMS a b" =
      printed ((lit "LPUSH MMS ").map .char ++ [.string (lit "a b")]) := by decide +kernel
  refine ⟨⟨_, hpieces, ?_⟩, hformat, htext, by decide +kernel⟩
  rw [← hprinted]
  intro hsame
  have heq := hsame (lit "LPUSH MMS a b") (queues_iff.mpr ⟨rfl, by decide +kernel⟩)
  rw [hformat, htext] at heq
  revert heq
  decide +kernel

end Agreement

end MmsSvr
