import MmsSvr.RedisFormat
import MmsSvr.ReplyStream

/-!
Commands for redis as bytes: how hiredis sizes and writes them, and what a reader of the protocol
finds in them.
-/

namespace MmsSvr.Hiredis

open Lib

section Formatting

/-- The `do` of `intlen`. -/
def intlenLoop (i : Int) : Nat :=
  if h : i.tdiv 10 = 0 then 1 else intlenLoop (i.tdiv 10) + 1
termination_by i.natAbs
decreasing_by
  have hne : i ≠ 0 := by
    rintro rfl
    exact h rfl
  rw [Int.natAbs_tdiv]
  exact Nat.div_lt_self (by omega) (by decide)

/-- `intlen`, of an `int`. -/
def intlen (i : Int) : Nat :=
  if i < 0 then intlenLoop (intWord 32 (-i)) + 1 else intlenLoop i

inductive Formatted where
  | ok (cmd : Bytes)
  /-- `redisOOM`. -/
  | outOfMemory
  /-- A write outside of `cmd`. -/
  | outside
  /-- `assert(pos == totlen)` fails. -/
  | assertion
deriving DecidableEq, Repr

/-- The bytes `data` at `cmd + pos`, and `nul` bytes behind them that do not count; `none` if `cmd`
does not have the room, or the `int` that is `pos` has overflown. -/
def put (size : Nat) (data : Bytes) (nul : Nat) (cmd : Bytes) : Option Bytes :=
  if cmd.length < 2 ^ 31 ∧ cmd.length + data.length + nul ≤ size then some (cmd ++ data) else none

def putArgument (size : Nat) (cmd arg : Bytes) : Option Bytes :=
  ((put size (36 :: (decimal arg.length ++ crlf)) 1 cmd).bind (put size arg 0)).bind
    (put size crlf 0)

/-- `addArgument`, as far as `totlen`. -/
def addLength (totlen : Int) (arg : Bytes) : Int :=
  intWord 32 (totlen + 1 + intlen (intWord 32 arg.length) + 2 + arg.length + 2)

variable (malloc : Nat → Bool)

/-- The command at protocol level. -/
def buildCommand (totlen argc : Int) (args : List Bytes) : Formatted :=
  let size := (intWord 32 (totlen + 1) % 2 ^ 64).toNat
  if malloc size then
    match (put size (42 :: (intText argc ++ crlf)) 1 []).bind fun cmd =>
        args.foldlM (putArgument size) cmd with
    | some cmd => if intWord 32 cmd.length = totlen then .ok cmd else .assertion
    | none => .outside
  else .outOfMemory

def redisFormatCommandArgv (argv : List Bytes) : Formatted :=
  let argc := intWord 32 argv.length
  let args := argv.take argc.toNat
  buildCommand malloc (args.foldl addLength (1 + intlen argc + 2)) argc args

/-- `redisvFormatCommand` behind `argv`. -/
def redisvFormatArgv (argv : List Bytes) : Formatted :=
  let argc := intWord 32 argv.length
  buildCommand malloc (intWord 32 (argv.foldl addLength 0 + (1 + intlen argc + 2))) argc
    (argv.take argc.toNat)

def redisvFormatCommand (format : Bytes) (ap : VaList) : Option Formatted :=
  (MmsSvr.redisvFormatCommand format ap).map (redisvFormatArgv malloc)

end Formatting

/-- A command as redis reads it: its arguments. -/
def command (argv : List Bytes) : Reply := .array (argv.map .string)

section Lengths

theorem intlenLoop_natCast (n : Nat) : intlenLoop n = (decimal n).length := by
  induction n using Nat.strongRecOn with
  | ind n ih =>
      have hdiv : (n : Int).tdiv 10 = ((n / 10 : Nat) : Int) := by
        rw [Int.tdiv_eq_ediv_of_nonneg (Int.natCast_nonneg n)]
        rfl
      rw [intlenLoop, hdiv]
      by_cases hlt : n < 10
      · rw [dif_pos (by omega), decimal_of_lt hlt, List.length_singleton]
      · have hle : 10 ≤ n := Nat.le_of_not_lt hlt
        rw [dif_neg (by omega), ih (n / 10) (by omega), decimal_of_le hle,
          List.length_append, List.length_singleton]

theorem intlen_natCast (n : Nat) : intlen n = (decimal n).length := by
  rw [intlen, if_neg (by omega), intlenLoop_natCast]

def argumentText (arg : Bytes) : Bytes := 36 :: (decimal arg.length ++ crlf) ++ arg ++ crlf

theorem encode_string (arg : Bytes) : (Reply.string arg).encode = argumentText arg := by
  rw [Reply.encode, argumentText]
  simp only [List.cons_append, List.append_assoc]

theorem encode_command (argv : List Bytes) : (command argv).encode =
    42 :: (decimal argv.length ++ crlf) ++ argv.flatMap argumentText := by
  rw [command, Reply.encode, encodeAll_eq_flatMap, List.length_map, List.flatMap_map]
  simp only [encode_string, List.cons_append, List.append_assoc]

theorem length_argumentText (arg : Bytes) : (argumentText arg).length =
    1 + (decimal arg.length).length + 2 + arg.length + 2 := by
  simp only [argumentText, crlf, List.length_append, List.length_cons, List.length_nil]
  omega

theorem foldl_addLength (args : List Bytes) (totlen : Nat)
    (hlen : totlen + (args.flatMap argumentText).length < 2 ^ 31) :
    args.foldl addLength totlen = ((totlen + (args.flatMap argumentText).length : Nat) : Int) := by
  induction args generalizing totlen with
  | nil => rfl
  | cons arg args ih =>
      rw [List.flatMap_cons, List.length_append] at hlen ⊢
      have harg := length_argumentText arg
      have hword : intWord 32 (arg.length : Int) = (arg.length : Nat) :=
        intWord_eq_of_natAbs (by omega)
      have hadd : addLength totlen arg = ((totlen + (argumentText arg).length : Nat) : Int) := by
        rw [addLength, hword, intlen_natCast, harg, intWord_eq_of_natAbs (by omega)]
        omega
      rw [List.foldl_cons, hadd, ih _ (by omega), Nat.add_assoc]

end Lengths

section Writing

variable {size : Nat} {cmd cmd' arg : Bytes}

theorem put_eq {data : Bytes} {nul : Nat} (hpos : cmd.length < 2 ^ 31)
    (hroom : cmd.length + data.length + nul ≤ size) : put size data nul cmd = some (cmd ++ data) :=
  if_pos ⟨hpos, hroom⟩

theorem put_eq_some_iff {data : Bytes} {nul : Nat} : put size data nul cmd = some cmd' ↔
    (cmd.length < 2 ^ 31 ∧ cmd.length + data.length + nul ≤ size) ∧ cmd ++ data = cmd' := by
  rw [put, Option.ite_none_right_eq_some, Option.some.injEq]

theorem putArgument_eq (hpos : (cmd ++ argumentText arg).length < 2 ^ 31)
    (hroom : (cmd ++ argumentText arg).length < size) :
    putArgument size cmd arg = some (cmd ++ argumentText arg) := by
  rw [List.length_append, length_argumentText] at hpos hroom
  have hcrlf : crlf.length = 2 := rfl
  rw [putArgument, put_eq, Option.bind_some, put_eq, Option.bind_some, put_eq]
  · simp only [argumentText, List.append_assoc]
  all_goals
    repeat rw [List.length_append]
    try rw [List.length_cons, List.length_append]
    try rw [hcrlf]
    omega

theorem of_putArgument (h : putArgument size cmd arg = some cmd') :
    cmd' = cmd ++ argumentText arg ∧ cmd'.length ≤ size := by
  obtain ⟨filled, hfilled, hend⟩ := Option.bind_eq_some_iff.mp h
  obtain ⟨headed, hheaded, hfill⟩ := Option.bind_eq_some_iff.mp hfilled
  obtain ⟨-, rfl⟩ := put_eq_some_iff.mp hheaded
  obtain ⟨-, rfl⟩ := put_eq_some_iff.mp hfill
  obtain ⟨⟨-, hroom⟩, rfl⟩ := put_eq_some_iff.mp hend
  constructor
  · simp only [argumentText, List.append_assoc]
  · rw [List.length_append]
    exact hroom

theorem foldlM_putArgument (args : List Bytes) (cmd : Bytes)
    (hpos : (cmd ++ args.flatMap argumentText).length < 2 ^ 31)
    (hroom : (cmd ++ args.flatMap argumentText).length < size) :
    args.foldlM (putArgument size) cmd = some (cmd ++ args.flatMap argumentText) := by
  induction args generalizing cmd with
  | nil => simp
  | cons arg args ih =>
      rw [List.flatMap_cons, ← List.append_assoc] at hpos hroom ⊢
      have hle : (cmd ++ argumentText arg).length ≤
          (cmd ++ argumentText arg ++ args.flatMap argumentText).length :=
        (List.prefix_append _ _).length_le
      rw [List.foldlM_cons, putArgument_eq (by omega) (by omega)]
      exact ih _ hpos hroom

theorem of_foldlM_putArgument {args : List Bytes}
    (h : args.foldlM (putArgument size) cmd = some cmd') (hcmd : cmd.length ≤ size) :
    cmd' = cmd ++ args.flatMap argumentText ∧ cmd'.length ≤ size := by
  induction args generalizing cmd with
  | nil =>
      obtain rfl := Option.some.inj h
      rw [List.flatMap_nil, List.append_nil]
      exact ⟨rfl, hcmd⟩
  | cons arg args ih =>
      rw [List.foldlM_cons] at h
      obtain ⟨next, hnext, hrest⟩ := Option.bind_eq_some_iff.mp h
      obtain ⟨rfl, hroom⟩ := of_putArgument hnext
      rw [List.flatMap_cons, ← List.append_assoc]
      exact ih hrest hroom

end Writing

section Commands

variable {malloc : Nat → Bool} {argv : List Bytes}

theorem intText_natCast (n : Nat) : intText n = decimal n := by
  rw [intText, if_neg (by omega), Int.natAbs_natCast]

theorem buildCommand_eq (hlen : (command argv).encode.length + 1 < 2 ^ 31)
    (hmalloc : malloc ((command argv).encode.length + 1) = true) :
    buildCommand malloc (command argv).encode.length argv.length argv =
      .ok (command argv).encode := by
  have htext := encode_command argv
  generalize (command argv).encode = cmd at hlen hmalloc htext ⊢
  have hsize : (intWord 32 ((cmd.length : Int) + 1) % 2 ^ 64).toNat = cmd.length + 1 := by
    rw [intWord_eq_of_natAbs (by omega)]
    omega
  have hlength := congrArg List.length htext
  rw [List.length_append] at hlength
  have hput : put (cmd.length + 1) (42 :: (intText argv.length ++ crlf)) 1 [] =
      some (42 :: (decimal argv.length ++ crlf)) := by
    rw [intText_natCast, put_eq (by decide) (by rw [List.length_nil]; omega), List.nil_append]
  have hall : argv.foldlM (putArgument (cmd.length + 1)) (42 :: (decimal argv.length ++ crlf)) =
      some cmd := by
    rw [foldlM_putArgument, ← htext]
    · rw [← htext]
      omega
    · rw [← htext]
      exact Nat.lt_succ_self _
  unfold buildCommand
  rw [hsize, if_pos hmalloc, hput, Option.bind_some, hall]
  exact if_pos (intWord_eq_of_natAbs (by omega))

theorem of_buildCommand {totlen : Int} {cmd : Bytes}
    (hmalloc : ∀ n, 2 ^ 63 ≤ n → malloc n = false)
    (h : buildCommand malloc totlen argv.length argv = .ok cmd) :
    cmd = (command argv).encode ∧ cmd.length + 1 < 2 ^ 31 ∧ malloc (cmd.length + 1) = true := by
  have hlow : -2 ^ 31 ≤ intWord 32 (totlen + 1) :=
    Int.le_bmod (x := totlen + 1) (m := 2 ^ 32) (by decide)
  have hhigh : intWord 32 (totlen + 1) < 2 ^ 31 :=
    Int.bmod_lt (x := totlen + 1) (m := 2 ^ 32) (by decide)
  unfold buildCommand at h
  generalize hsize : (intWord 32 (totlen + 1) % 2 ^ 64).toNat = size at h
  by_cases hroom : malloc size = true
  · -- a negative size is more than can be allocated
    have hsmall : size < 2 ^ 63 := by
      by_contra hge
      rw [hmalloc size (Nat.le_of_not_lt hge)] at hroom
      exact absurd hroom (by decide)
    have hword : intWord 32 (totlen + 1) = size := by omega
    rw [if_pos hroom, intText_natCast] at h
    cases hbuilt : (put size (42 :: (decimal argv.length ++ crlf)) 1 []).bind fun cmd =>
        argv.foldlM (putArgument size) cmd with
    | none =>
        rw [hbuilt] at h
        exact nomatch h
    | some built =>
        rw [hbuilt] at h
        change (if intWord 32 built.length = totlen then Formatted.ok built else .assertion) =
          .ok cmd at h
        obtain ⟨headed, hheaded, hargs⟩ := Option.bind_eq_some_iff.mp hbuilt
        obtain ⟨⟨-, hhead⟩, rfl⟩ := put_eq_some_iff.mp hheaded
        rw [List.nil_append] at hargs
        obtain ⟨htext, hle⟩ := of_foldlM_putArgument hargs (by
          rw [List.length_nil] at hhead
          omega)
        rw [← encode_command] at htext
        split at h
        · rename_i hend
          obtain rfl := Formatted.ok.inj h
          have hlength : (built.length : Int) = totlen := by
            rw [← hend, intWord_eq_of_natAbs]
            omega
          have hedge : totlen + 1 ≠ 2 ^ 31 := by
            intro hmax
            rw [hmax, (by decide +kernel : intWord 32 (2 ^ 31) = -2 ^ 31)] at hword
            omega
          rw [intWord_eq_of_natAbs (by omega)] at hword
          have hsucc : built.length + 1 = size := by omega
          rw [hsucc]
          exact ⟨htext, by omega, hroom⟩
        · exact nomatch h
  · rw [if_neg hroom] at h
    exact nomatch h

/-- Up to two gigabytes, both ways of adding up the length come to that of the text. -/
theorem totlen_eq (hlen : (command argv).encode.length + 1 < 2 ^ 31) :
    argv.foldl addLength (1 + intlen argv.length + 2) = (command argv).encode.length ∧
      intWord 32 (argv.foldl addLength 0 + (1 + intlen argv.length + 2)) =
        (command argv).encode.length := by
  have htext := congrArg List.length (encode_command argv)
  rw [List.length_append, List.length_cons, List.length_append] at htext
  have hcrlf : crlf.length = 2 := rfl
  rw [intlen_natCast]
  constructor
  · have hsum := foldl_addLength argv (1 + (decimal argv.length).length + 2) (by omega)
    have hcast : ((1 + (decimal argv.length).length + 2 : Nat) : Int) =
        1 + ((decimal argv.length).length : Int) + 2 := by omega
    rw [hcast] at hsum
    rw [hsum]
    omega
  · have hsum := foldl_addLength argv 0 (by omega)
    rw [Int.natCast_zero] at hsum
    rw [hsum, intWord_eq_of_natAbs (by omega)]
    omega

variable {cmd : Bytes}

theorem argc_eq (hargc : argv.length < 2 ^ 31) : intWord 32 argv.length = argv.length ∧
    argv.take (intWord 32 argv.length).toNat = argv := by
  have hword : intWord 32 argv.length = argv.length := intWord_eq_of_natAbs (by omega)
  rw [hword]
  exact ⟨rfl, List.take_of_length_le (Nat.le_refl _)⟩

theorem buildCommand_ok_iff {totlen : Int} (hmalloc : ∀ n, 2 ^ 63 ≤ n → malloc n = false)
    (htotlen : (command argv).encode.length + 1 < 2 ^ 31 →
      totlen = (command argv).encode.length) :
    buildCommand malloc totlen argv.length argv = .ok cmd ↔
      cmd = (command argv).encode ∧ cmd.length + 1 < 2 ^ 31 ∧ malloc (cmd.length + 1) = true := by
  constructor
  · exact of_buildCommand hmalloc
  · rintro ⟨rfl, hlen, hroom⟩
    rw [htotlen hlen]
    exact buildCommand_eq hlen hroom

theorem formatCommandArgv_ok_iff (hmalloc : ∀ n, 2 ^ 63 ≤ n → malloc n = false)
    (hargc : argv.length < 2 ^ 31) : redisFormatCommandArgv malloc argv = .ok cmd ↔
      cmd = (command argv).encode ∧ cmd.length + 1 < 2 ^ 31 ∧ malloc (cmd.length + 1) = true := by
  unfold redisFormatCommandArgv
  obtain ⟨hword, htake⟩ := argc_eq hargc
  dsimp only
  rw [htake, hword]
  exact buildCommand_ok_iff hmalloc fun hlen => (totlen_eq hlen).1

theorem formatArgv_ok_iff (hmalloc : ∀ n, 2 ^ 63 ≤ n → malloc n = false)
    (hargc : argv.length < 2 ^ 31) : redisvFormatArgv malloc argv = .ok cmd ↔
      cmd = (command argv).encode ∧ cmd.length + 1 < 2 ^ 31 ∧ malloc (cmd.length + 1) = true := by
  unfold redisvFormatArgv
  obtain ⟨hword, htake⟩ := argc_eq hargc
  dsimp only
  rw [htake, hword]
  exact buildCommand_ok_iff hmalloc fun hlen => (totlen_eq hlen).2

/-- Whichever way a command is given, hiredis gives out its text if that and a NUL are less than two
gigabytes and can be allocated, and anything else never: the assertion at the end, the sum of the
lengths and the writes are right up to there. -/
theorem format_ok_iff (malloc : Nat → Bool) (hmalloc : ∀ n, 2 ^ 63 ≤ n → malloc n = false)
    (argv : List Bytes) (hargc : argv.length < 2 ^ 31) (cmd : Bytes) :
    (redisFormatCommandArgv malloc argv = .ok cmd ↔
      cmd = (command argv).encode ∧ cmd.length + 1 < 2 ^ 31 ∧ malloc (cmd.length + 1) = true) ∧
    (redisvFormatArgv malloc argv = .ok cmd ↔
      cmd = (command argv).encode ∧ cmd.length + 1 < 2 ^ 31 ∧ malloc (cmd.length + 1) = true) :=
  ⟨formatCommandArgv_ok_iff hmalloc hargc, formatArgv_ok_iff hmalloc hargc⟩

theorem format_ok_iff_get :
    redisFormatCommandArgv (fun n => n < 100) [lit "GET", lit "k"] =
      .ok (lit "*2\r\n$3\r\nGET\r\n$1\r\nk\r\n") := by
  have hmalloc : ∀ n, 2 ^ 63 ≤ n → decide (n < 100) = false := by
    intro n hn
    exact decide_eq_false (by omega)
  exact (format_ok_iff _ hmalloc [lit "GET", lit "k"] (by decide) _).1.mpr
    ⟨by decide +kernel, by decide +kernel, by decide +kernel⟩

end Commands

section Reading

open Buffered

/-- A call by which hiredis turns these arguments into this text. -/
inductive Formats (malloc : Nat → Bool) (argv : List Bytes) (cmd : Bytes) : Prop
  | argv (h : redisFormatCommandArgv malloc argv = .ok cmd)
  | format (format : Bytes) (ap : VaList) (hargv : MmsSvr.redisvFormatCommand format ap = some argv)
      (h : redisvFormatCommand malloc format ap = some (.ok cmd))

variable {malloc : Nat → Bool} {machine : Machine}

theorem Formats.encode {argv : List Bytes} {cmd : Bytes} (h : Formats malloc argv cmd)
    (hmalloc : ∀ n, 2 ^ 63 ≤ n → malloc n = false) (hargc : argv.length < 2 ^ 31) :
    cmd = (command argv).encode ∧ cmd.length + 1 < 2 ^ 31 := by
  cases h with
  | argv h =>
      obtain ⟨htext, hlen, -⟩ := (formatCommandArgv_ok_iff hmalloc hargc).mp h
      exact ⟨htext, hlen⟩
  | format format ap hargv h =>
      rw [redisvFormatCommand, hargv, Option.map_some, Option.some.injEq] at h
      obtain ⟨htext, hlen, -⟩ := (formatArgv_ok_iff hmalloc hargc).mp h
      exact ⟨htext, hlen⟩

theorem encodeAll_commands {argvs : List (List Bytes)} {cmds : List Bytes}
    (hmalloc : ∀ n, 2 ^ 63 ≤ n → malloc n = false) (hargc : ∀ argv ∈ argvs, argv.length < 2 ^ 31)
    (hcmds : List.Forall₂ (Formats malloc) argvs cmds) :
    encodeAll (argvs.map command) = cmds.flatten := by
  induction hcmds with
  | nil => rfl
  | @cons argv cmd argvs cmds hcmd _ ih =>
      rw [List.forall_mem_cons] at hargc
      rw [List.map_cons, encodeAll, List.flatten_cons, ih hargc.2,
        (hcmd.encode hmalloc hargc.1).1]

theorem command_fits {argv : List Bytes} (hargc : argv.length < 2 ^ 31)
    (hcalloc : machine.calloc argv.length = true) (hlen : ∀ arg ∈ argv, arg.length + 2 ≤ 2 ^ 31) :
    (command argv).Fits machine 8 := by
  refine ⟨?_, ?_, allFit_iff.mpr ?_⟩
  · rw [List.length_map]
    exact hargc
  · rw [List.length_map]
    exact hcalloc
  · intro r hr
    obtain ⟨arg, harg, rfl⟩ := List.mem_map.mp hr
    exact hlen arg harg

theorem length_le_length_flatMap {α : Type} (f : α → Bytes) {a : α} {l : List α} (ha : a ∈ l) :
    (f a).length ≤ (l.flatMap f).length := by
  obtain ⟨before, behind, rfl⟩ := List.append_of_mem ha
  rw [List.flatMap_append, List.flatMap_cons, List.length_append, List.length_append]
  omega

theorem length_le_encode {argv : List Bytes} {arg : Bytes} (harg : arg ∈ argv) :
    arg.length ≤ (command argv).encode.length := by
  have hpart := length_le_length_flatMap argumentText harg
  rw [length_argumentText] at hpart
  rw [encode_command, List.length_append]
  omega

theorem commands_fit {argvs : List (List Bytes)} {cmds : List Bytes}
    (hmalloc : ∀ n, 2 ^ 63 ≤ n → malloc n = false) (hargc : ∀ argv ∈ argvs, argv.length < 2 ^ 31)
    (hcalloc : ∀ argv ∈ argvs, machine.calloc argv.length = true)
    (hcmds : List.Forall₂ (Formats malloc) argvs cmds) :
    ∀ r ∈ argvs.map command, r.Fits machine 8 := by
  induction hcmds with
  | nil => exact fun r hr => absurd hr List.not_mem_nil
  | @cons argv cmd argvs cmds hcmd _ ih =>
      rw [List.forall_mem_cons] at hargc hcalloc
      rw [List.map_cons, List.forall_mem_cons]
      refine ⟨command_fits hargc.1 hcalloc.1 ?_, ih hargc.2 hcalloc.2⟩
      intro arg harg
      obtain ⟨rfl, hlen⟩ := hcmd.encode hmalloc hargc.1
      have hinside := length_le_encode harg
      omega

theorem commands_unique {argvs argvs' : List (List Bytes)} {cmds cmds' : List Bytes}
    (hmalloc : ∀ n, 2 ^ 63 ≤ n → malloc n = false)
    (hargc : ∀ argv ∈ argvs, argv.length < 2 ^ 31) (hargc' : ∀ argv ∈ argvs', argv.length < 2 ^ 31)
    (hcmds : List.Forall₂ (Formats malloc) argvs cmds)
    (hcmds' : List.Forall₂ (Formats malloc) argvs' cmds') (htext : cmds.flatten = cmds'.flatten) :
    argvs = argvs' := by
  let machine : Machine := ⟨32, le_rfl, fun _ => true⟩
  have hfits : ∀ r ∈ argvs.map command, r.Fits machine 8 :=
    commands_fit hmalloc hargc (fun _ _ => rfl) hcmds
  have hfits' : ∀ r ∈ argvs'.map command, r.Fits machine 8 :=
    commands_fit hmalloc hargc' (fun _ _ => rfl) hcmds'
  have hitems := items_of_fits hfits
  have hitems' := items_of_fits hfits'
  rw [encodeAll_commands hmalloc hargc hcmds] at hitems
  rw [encodeAll_commands hmalloc hargc' hcmds', ← htext, hitems, Prod.mk.injEq] at hitems'
  have hinj : Function.Injective command := by
    intro argv argv' h
    exact List.map_injective_iff.mpr (fun _ _ => Reply.string.inj) (Reply.array.inj h)
  exact List.map_injective_iff.mpr hinj hitems'.1

/-- Commands are read back as they were given, argument by argument, however their text is cut: there
are no bytes that would make one argument two, or a part of one a command. -/
theorem GetReply_commands (malloc : Nat → Bool) (machine : Machine)
    (hmalloc : ∀ n, 2 ^ 63 ≤ n → malloc n = false) (argvs : List (List Bytes)) (cmds : List Bytes)
    (hargc : ∀ argv ∈ argvs, argv.length < 2 ^ 31)
    (hcalloc : ∀ argv ∈ argvs, machine.calloc argv.length = true)
    (hcmds : List.Forall₂ (Formats malloc) argvs cmds)
    (as : List (BufferedAction UInt8)) (hfed : fed as = cmds.flatten)
    (hlen : cmds.flatten.length < 2 ^ 31) :
    (ReaderRun.run machine (as ++ tries (argvs.length + 1))).out =
        argvs.map (fun argv => some (command argv)) ∧
      (ReaderRun.run machine (as ++ tries (argvs.length + 1))).failed = none := by
  have hencode := encodeAll_commands hmalloc hargc hcmds
  have hfits := commands_fit hmalloc hargc hcalloc hcmds
  have hitems : items (parseReply machine) (fed as) = (argvs.map command, .ok []) := by
    rw [hfed, ← hencode]
    exact items_of_fits hfits
  obtain ⟨hmirrors, hout, hend⟩ := run_of_items (by rw [hfed]; exact hlen) hitems nofun
  rw [List.length_map] at hmirrors hout hend
  rw [hmirrors.out, hmirrors.failed, hout, hend, List.map_map]
  exact ⟨rfl, rfl⟩

/-- A format and a list of arguments; the text of an argument is a command too, but it is not read as
one. -/
theorem GetReply_commands_two :
    (ReaderRun.run winMachine
        ([.feed (lit "*1\r\n$4\r\nPING\r\n*2\r\n$3\r\nGET\r\n$14\r\n*1\r\n$4\r\nQUIT\r\n\r\n")] ++
          tries 3)).out =
      [some (command [lit "PING"]), some (command [lit "GET", lit "*1\r\n$4\r\nQUIT\r\n"])] := by
  have hmalloc : ∀ n, 2 ^ 63 ≤ n → decide (n < 100) = false := by
    intro n hn
    exact decide_eq_false (by omega)
  have hping : Formats (fun n => n < 100) [lit "PING"] (lit "*1\r\n$4\r\nPING\r\n") :=
    .format (lit "PING") none (by decide +kernel) (by decide +kernel)
  have hget : Formats (fun n => n < 100) [lit "GET", lit "*1\r\n$4\r\nQUIT\r\n"]
      (lit "*2\r\n$3\r\nGET\r\n$14\r\n*1\r\n$4\r\nQUIT\r\n\r\n") :=
    .argv (by decide +kernel)
  exact (GetReply_commands (fun n => n < 100) winMachine hmalloc
    [[lit "PING"], [lit "GET", lit "*1\r\n$4\r\nQUIT\r\n"]] _ (by decide) (by decide)
    (.cons hping (.cons hget .nil)) _ (by decide +kernel) (by decide +kernel)).1

end Reading

end MmsSvr.Hiredis
