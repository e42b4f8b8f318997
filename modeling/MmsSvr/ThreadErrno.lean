import MmsSvr.Defaults
import MmsSvr.JsonC.Errno

/-!
`ParseCmd` in a thread that has an `errno`, and what two calls in a row make of the same
bytes: the second may find `errno` changed, and other bytes in the memory it allocates.
-/

namespace MmsSvr

open JsonC YYmmsJson

/-- `ParseCmd` in a thread whose `errno` is ERANGE or not, and whether it is afterwards. -/
def parseCmdIn (env : Env) (erange : Bool) (cmd : Bytes) : ParseResult × Bool :=
  match cmd with
  | esc :: lo :: hi :: buf =>
      if esc ≠ preChar then (.error .esc, erange)
      else
        let jsize := readWord env.platform lo hi
        if (cmd.length : Int) < jsize then (.error .bufsize, erange)
        else if jsize < 3 then (.fault .lengthError, erange)
        else
          let parsed := Tokener.parseIn env.strtod erange (buf.take (jsize.toNat - 3))
          (decodeRoot env jsize.toNat parsed.1, parsed.2)
  | _ => (.error .bufsize, erange)

/-- The same call with an `errno` of ERANGE: it takes no number for the id of a command. -/
def ParseResult.refused : ParseResult → ParseResult
  | .success _ _ => .error .unknowed
  | .error err => .error err
  | .fault .nullDereference => .error .unknowed
  | .fault f => .fault f

section Errno

variable {env : Env} {erange : Bool} {b : Bytes}

theorem parseCmdIn_eq (env : Env) (erange : Bool) (cmd : Bytes) :
    parseCmdIn env erange cmd =
      match header env.platform cmd with
      | .bufsize => (.error .bufsize, erange)
      | .esc => (.error .esc, erange)
      | .slice jsize =>
          if jsize < 3 then (.fault .lengthError, erange)
          else
            let parsed := Tokener.parseIn env.strtod erange (frameText jsize cmd)
            (decodeRoot env jsize.toNat parsed.1, parsed.2) := by
  match cmd with
  | [] => rfl
  | [_] => rfl
  | [_, _] => rfl
  | esc :: lo :: hi :: rest =>
      simp only [parseCmdIn, header]
      split_ifs <;> simp_all [frameText]

theorem parseCmdIn_slice {jsize : Int} (h : header env.platform b = .slice jsize)
    (hmin : ¬ jsize < 3) : parseCmdIn env erange b =
      (decodeRoot env jsize.toNat (Tokener.parseIn env.strtod erange (frameText jsize b)).1,
        (Tokener.parseIn env.strtod erange (frameText jsize b)).2) := by
  rw [parseCmdIn_eq, h]
  exact if_neg hmin

theorem parseCmdIn_clear (h : (parseCmdIn env erange b).2 = false) :
    erange = false ∧ (parseCmdIn env erange b).1 = parseCmd env b := by
  rw [parseCmd_eq]
  cases hheader : header env.platform b with
  | bufsize =>
      rw [parseCmdIn_eq, hheader] at h ⊢
      exact ⟨h, rfl⟩
  | esc =>
      rw [parseCmdIn_eq, hheader] at h ⊢
      exact ⟨h, rfl⟩
  | slice jsize =>
      by_cases hmin : jsize < 3
      · rw [parseCmdIn_eq, hheader] at h ⊢
        dsimp only at h ⊢
        rw [if_pos hmin] at h
        rw [if_pos hmin, if_pos hmin]
        exact ⟨h, rfl⟩
      · rw [parseCmdIn_slice hheader hmin] at h ⊢
        obtain ⟨hbefore, hparse⟩ := Tokener.parseIn_clear h
        dsimp only
        rw [if_neg hmin, hparse]
        exact ⟨hbefore, rfl⟩

theorem parseCmdIn_append (u : Uninit) (h : header env.platform b ≠ .bufsize) (t : Bytes) :
    parseCmdIn { env with uninit := u } erange (b ++ t) =
      parseCmdIn { env with uninit := u } erange b := by
  rw [parseCmdIn_eq, parseCmdIn_eq]
  dsimp only
  rw [header_append h]
  split
  · rfl
  · rfl
  · rename_i jsize hslice
    rw [frameText_append (length_of_slice hslice)]

theorem lookforMap_limits (uninit : Uninit) {v : Json} (h : v.type = .int) :
    lookforMap uninit (objectGetInt v.limits) = none := by
  obtain ⟨i, rfl⟩ := type_eq_int_iff.mp h
  have hclip : objectGetInt (Json.int i).limits = -2 ^ 31 ∨
      objectGetInt (Json.int i).limits = 2 ^ 31 - 1 := by
    rw [Json.limits, objectGetInt, limit]
    split
    · exact Or.inl (by decide)
    · exact Or.inr (by decide)
  rcases hclip with hmin | hmax
  · rw [hmin]
    rfl
  · rw [hmax]
    rfl

theorem decodeRoot_limits (env : Env) (u : Uninit) (jsize : Nat)
    (parsed : Except TokenerError Json) :
    decodeRoot { env with uninit := u } jsize (parsed.map Json.limits) =
      (decodeRoot env jsize parsed).refused := by
  cases parsed with
  | error err => rfl
  | ok root =>
      simp only [Except.map, decodeRoot, objectGet_limits, type_limits]
      split_ifs with hroot hmember
      · rfl
      · rfl
      · simp only [not_or, not_not] at hmember
        rw [lookforMap_limits u hmember.2.2]
        cases lookforMap env.uninit (objectGetInt (objectGet root (lit "cmd"))) with
        | none => rfl
        | some jobj =>
            cases hobj : objectGet root (lit "obj") with
            | object entries =>
                simp only [YYJ.serializeObject]
                cases jobj.serializeEntries env.ssl entries <;> rfl
            | _ => rfl

theorem parseCmdIn_erange (env : Env) (u : Uninit) (erange : Bool) (cmd : Bytes) :
    parseCmdIn { env with uninit := u } true cmd =
      ((parseCmdIn env erange cmd).1.refused, true) := by
  rw [parseCmdIn_eq, parseCmdIn_eq]
  dsimp only
  split
  · rfl
  · rfl
  · split_ifs
    · rfl
    · rw [Tokener.parseIn_limits env.strtod erange, decodeRoot_limits env u]

theorem refused_ne_success (r : ParseResult) (offset : Nat) (jcmd : YYJ) :
    r.refused ≠ .success offset jcmd := by
  cases r with
  | fault f => cases f <;> simp [ParseResult.refused]
  | _ => simp [ParseResult.refused]

/-- With `errno` at ERANGE no command is accepted. -/
theorem parseCmdIn_ne_success (env : Env) (cmd : Bytes) (offset : Nat) (jcmd : YYJ) :
    (parseCmdIn env true cmd).1 ≠ .success offset jcmd := by
  rw [parseCmdIn_erange env env.uninit true]
  exact refused_ne_success _ offset jcmd

end Errno

section Memory

variable {env : Env} {jsize : Nat} {parsed : Except TokenerError Json}

theorem serializeEntry_isSome (ssl : OpenSSL) (c : YYJ) (key : Bytes) (val : Json) :
    (c.serializeEntry ssl key val).isSome = true := by
  cases c with
  | login c =>
      simp only [YYJ.serializeEntry, YYJsonLogin.serializeEntry, YYSSL.base64decode]
      split_ifs <;> rfl
  | loginRes c =>
      simp only [YYJ.serializeEntry, YYJsonLoginRes.serializeEntry, YYSSL.base64decode]
      split_ifs <;> rfl
  | _ => rfl

theorem serializeEntries_isSome (ssl : OpenSSL) (c : YYJ) (entries : Entries) :
    (c.serializeEntries ssl entries).isSome = true := by
  induction entries generalizing c with
  | nil => rfl
  | cons e es ih =>
      obtain ⟨d, hd⟩ := Option.isSome_iff_exists.mp (serializeEntry_isSome ssl c e.1 e.2)
      have hcons : c.serializeEntries ssl (e :: es) = d.serializeEntries ssl es := by
        simp [YYJ.serializeEntries, hd]
      rw [hcons]
      exact ih d

theorem decodeRoot_uninit (u : Uninit) (h : ∀ offset jcmd,
    decodeRoot env jsize parsed ≠ .success offset jcmd) :
    decodeRoot { env with uninit := u } jsize parsed = decodeRoot env jsize parsed := by
  cases parsed with
  | error err => rfl
  | ok root =>
      simp only [decodeRoot] at h ⊢
      split_ifs at h ⊢ with hroot hmember
      · rfl
      · rfl
      · have hsome := lookforMap_isSome u env.uninit (objectGetInt (objectGet root (lit "cmd")))
        cases hid : lookforMap env.uninit (objectGetInt (objectGet root (lit "cmd"))) with
        | none =>
            rw [hid, Option.isSome_none, Option.isSome_eq_false_iff, Option.isNone_iff_eq_none]
              at hsome
            rw [hsome]
        | some jobj =>
            rw [hid] at hsome h
            obtain ⟨jobj', hid'⟩ := Option.isSome_iff_exists.mp hsome
            rw [hid']
            cases hobj : objectGet root (lit "obj") with
            | object entries =>
                obtain ⟨c, hc⟩ :=
                  Option.isSome_iff_exists.mp (serializeEntries_isSome env.ssl jobj entries)
                simp [hobj, YYJ.serializeObject, hc] at h
            | _ => rfl

end Memory

/-- What a frame holds that `ParseCmd` accepts: the id, the members of `obj`, and whether
reading it sets `errno` to ERANGE. -/
structure FrameRead where
  jsize : Nat
  id : Int
  entries : Entries
  erange : Bool

/-- The frame that a buffer begins with, read in a thread whose `errno` is not ERANGE, if
its id is one of those in `LookforMap` and its `obj` is an object. -/
def readFrame (env : Env) (b : Bytes) : Option FrameRead :=
  match header env.platform b with
  | .slice jsize =>
      if jsize < 3 then none
      else
        match Tokener.parseIn env.strtod false (frameText jsize b) with
        | (.ok root, erange) =>
            match objectGet root (lit "obj") with
            | .object entries =>
                if Registered root then
                  some ⟨jsize.toNat, objectGetInt (objectGet root (lit "cmd")), entries, erange⟩
                else none
            | _ => none
        | _ => none
  | _ => none

/-- Reading the frame leaves `errno` alone, and it fills all fields that no constructor
fills. -/
def Reproducible (env : Env) (b : Bytes) : Prop :=
  ∀ f ∈ readFrame env b, f.erange = false ∧ EveryFieldSet f.id f.entries

instance (env : Env) (b : Bytes) : Decidable (Reproducible env b) :=
  inferInstanceAs (Decidable (∀ f ∈ readFrame env b, _))

section Twice

variable {env : Env} {erange : Bool} {b : Bytes}

theorem type_ne_null_of_registered {root : Json} (h : Registered root) : root.type ≠ .null := by
  intro hnull
  have hcmd := h.1
  cases root with
  | null => simp [objectGet, Json.type] at hcmd
  | _ => simp [Json.type] at hnull

theorem parseCmdIn_of_readFrame {f : FrameRead} (h : readFrame env b = some f) (u : Uninit) :
    ∃ jcmd, filled env.ssl f.id f.entries u = some jcmd ∧
      parseCmdIn { env with uninit := u } false b = (.success f.jsize jcmd, f.erange) := by
  unfold readFrame at h
  split at h
  · rename_i jsize hslice
    split_ifs at h with hmin
    · split at h
      · rename_i root erange hparse
        split at h
        · rename_i entries hobj
          split_ifs at h with hid
          rw [← Option.some.inj h]
          have hmember : ¬ ((objectGet root (lit "cmd")).type = .null ∨
              (objectGet root (lit "obj")).type = .null ∨
              (objectGet root (lit "cmd")).type ≠ .int) := by
            rw [hid.1, hobj]
            simp [Json.type]
          have hsome := hid.2
          rw [lookforMap_isSome default u] at hsome
          obtain ⟨jobj, hjobj⟩ := Option.isSome_iff_exists.mp hsome
          obtain ⟨jcmd, hjcmd⟩ :=
            Option.isSome_iff_exists.mp (serializeEntries_isSome env.ssl jobj entries)
          refine ⟨jcmd, ?_, ?_⟩
          · rw [filled, hjobj, Option.bind_some, hjcmd]
          · have hcall : parseCmdIn { env with uninit := u } false b = _ :=
              parseCmdIn_slice hslice hmin
            rw [hcall]
            simp only [hparse, decodeRoot]
            rw [if_neg (type_ne_null_of_registered hid), if_neg hmember, hjobj]
            simp only [hobj, YYJ.serializeObject, hjcmd]
        · simp at h
      · simp at h
  · simp at h

theorem readFrame_of_success {u : Uninit} {offset : Nat} {jcmd : YYJ}
    (h : (parseCmdIn { env with uninit := u } false b).1 = .success offset jcmd) :
    ∃ f, readFrame env b = some f := by
  rw [parseCmdIn_eq] at h
  dsimp only at h
  unfold readFrame
  split at h
  · simp at h
  · simp at h
  · rename_i jsize hslice
    rw [hslice]
    dsimp only
    split_ifs at h ⊢
    · have hdecoded := decodedRoot { env with uninit := u } jsize.toNat
        (Tokener.parseIn env.strtod false (frameText jsize b)).1
      dsimp only at h
      rw [h] at hdecoded
      cases hdecoded with
      | accepted root jobj entries jcmd hparse hcmd hid hobj hfields =>
          have hregistered : Registered root := by
            refine ⟨hcmd, ?_⟩
            rw [lookforMap_isSome default u, hid]
            rfl
          generalize Tokener.parseIn env.strtod false (frameText jsize b) = parsed at hparse
          obtain ⟨r, erange⟩ := parsed
          obtain rfl : r = .ok root := hparse
          simp only [hobj, if_pos hregistered]
          exact ⟨_, rfl⟩

theorem parseCmdIn_again (u u' : Uninit)
    (h : ∀ offset jcmd, (parseCmdIn { env with uninit := u } erange b).1 ≠ .success offset jcmd) :
    (parseCmdIn { env with uninit := u' } (parseCmdIn { env with uninit := u } erange b).2 b).1 =
        (parseCmdIn { env with uninit := u } erange b).1 ∨
      (parseCmdIn { env with uninit := u' } (parseCmdIn { env with uninit := u } erange b).2 b).1 =
        (parseCmdIn { env with uninit := u } erange b).1.refused := by
  cases herrno : (parseCmdIn { env with uninit := u } erange b).2 with
  | true =>
      right
      rw [parseCmdIn_erange { env with uninit := u } u' erange]
  | false =>
      left
      obtain ⟨rfl, -⟩ := parseCmdIn_clear herrno
      rw [parseCmdIn_eq] at h ⊢
      rw [parseCmdIn_eq]
      dsimp only at h ⊢
      split
      · rfl
      · rfl
      · rename_i jsize hslice
        rw [hslice] at h
        dsimp only at h
        split_ifs at h ⊢
        · rfl
        · exact decodeRoot_uninit u' h

theorem success_of_again {u u' : Uninit} {offset : Nat} {jcmd : YYJ}
    (h : (parseCmdIn { env with uninit := u' }
      (parseCmdIn { env with uninit := u } erange b).2 b).1 = .success offset jcmd) :
    ∃ offset jcmd, (parseCmdIn { env with uninit := u } erange b).1 = .success offset jcmd := by
  apply Classical.byContradiction
  intro hnone
  have hnot : ∀ offset jcmd,
      (parseCmdIn { env with uninit := u } erange b).1 ≠ .success offset jcmd :=
    fun offset jcmd hfirst => hnone ⟨offset, jcmd, hfirst⟩
  rcases parseCmdIn_again u u' hnot with hsame | hrefused
  · exact hnot offset jcmd (by rw [← hsame, h])
  · exact refused_ne_success _ offset jcmd (by rw [← hrefused, h])

/-- A thread that makes the call again gets the same command. -/
def ParsesAgain (env : Env) (erange : Bool) (b : Bytes) : Prop :=
  ∀ u u' offset jcmd,
    (parseCmdIn { env with uninit := u } erange b).1 = .success offset jcmd →
      (parseCmdIn { env with uninit := u' }
        (parseCmdIn { env with uninit := u } erange b).2 b).1 = .success offset jcmd

theorem parsesAgain_of_reproducible (h : Reproducible env b) : ParsesAgain env false b := by
  intro u u' offset jcmd hfirst
  obtain ⟨f, hf⟩ : ∃ f, readFrame env b = some f := readFrame_of_success hfirst
  obtain ⟨herrno, hset⟩ := h f hf
  obtain ⟨c, hc, hcall⟩ := parseCmdIn_of_readFrame hf u
  obtain ⟨c', hc', hcall'⟩ := parseCmdIn_of_readFrame hf u'
  have hsame := (filled_fixed_iff env.ssl f.id f.entries).mpr hset u u'
  rw [hc, hc', Option.some.injEq] at hsame
  rw [hcall] at hfirst ⊢
  dsimp only at hfirst ⊢
  rw [herrno, hcall', ← hsame]
  exact hfirst

theorem reproducible_of_parsesAgain (h : ParsesAgain env false b) : Reproducible env b := by
  intro f hf
  have hcall := parseCmdIn_of_readFrame hf
  have herrno : f.erange = false := by
    obtain ⟨c, -, hc⟩ := hcall default
    have hagain := h default default f.jsize c (by rw [hc])
    rw [hc] at hagain
    cases hset : f.erange with
    | false => rfl
    | true =>
        dsimp only at hagain
        rw [hset] at hagain
        exact absurd hagain (parseCmdIn_ne_success _ b _ _)
  refine ⟨herrno, (filled_fixed_iff env.ssl f.id f.entries).mp ?_⟩
  intro u u'
  obtain ⟨c, hfill, hc⟩ := hcall u
  obtain ⟨c', hfill', hc'⟩ := hcall u'
  have hagain := h u u' f.jsize c (by rw [hc])
  rw [hc] at hagain
  dsimp only at hagain
  rw [herrno, hc'] at hagain
  rw [hfill, hfill', (ParseResult.success.inj hagain).2]

/-- The two calls agree about every command exactly when nothing is accepted, because
`errno` is ERANGE already, or the frame decides everything itself. -/
theorem parsesAgain_iff : ParsesAgain env erange b ↔ erange = true ∨ Reproducible env b := by
  cases erange with
  | true =>
      refine iff_of_true ?_ (Or.inl rfl)
      intro u u' offset jcmd hfirst
      exact absurd hfirst (parseCmdIn_ne_success _ b offset jcmd)
  | false =>
      rw [or_iff_right Bool.false_ne_true]
      exact ⟨reproducible_of_parsesAgain, parsesAgain_of_reproducible⟩

theorem parseCmdIn_error_again {err : YYMMSJSONError} (u u' : Uninit)
    (h : (parseCmdIn { env with uninit := u } erange b).1 = .error err) :
    (parseCmdIn { env with uninit := u' }
      (parseCmdIn { env with uninit := u } erange b).2 b).1 = .error err := by
  have hnot : ∀ offset jcmd,
      (parseCmdIn { env with uninit := u } erange b).1 ≠ .success offset jcmd := by
    intro offset jcmd
    rw [h]
    exact ParseResult.noConfusion
  rcases parseCmdIn_again u u' hnot with hsame | hrefused
  · rw [hsame, h]
  · rw [hrefused, h]
    rfl

end Twice

section Call

/-- The variables of the caller that `ParseCmd` gets references to. -/
structure ParseVars where
  offset : Nat
  jcmd : Option YYJ
deriving DecidableEq, Repr

/-- A call of `ParseCmd`: the code it returns, where `none` is `YYMMSJSON_ERROR_SUCCESS`,
the variables of the caller afterwards, and whether `errno` is ERANGE then. -/
def parseCmdCall (env : Env) (erange : Bool) (cmd : Bytes) (vars : ParseVars) :
    Except Fault (Option YYMMSJSONError × ParseVars) × Bool :=
  match header env.platform cmd with
  | .bufsize => (.ok (some .bufsize, vars), erange)
  | .esc => (.ok (some .esc, vars), erange)
  | .slice jsize =>
      if jsize < 3 then (.error .lengthError, erange)
      else
        match Tokener.parseIn env.strtod erange (frameText jsize cmd) with
        | (.error _, erange) => (.ok (some .json, vars), erange)
        | (.ok root, erange) =>
            let cmd := objectGet root (lit "cmd")
            let obj := objectGet root (lit "obj")
            if root.type = .null then (.error .wildPointer, erange)
            else if cmd.type = .null ∨ obj.type = .null ∨ cmd.type ≠ .int then
              (.ok (some .json, vars), erange)
            else
              match lookforMap env.uninit (objectGetInt cmd) with
              | none => (.ok (some .unknowed, vars), erange)
              | some jobj =>
                  match jobj.serializeObject env.ssl obj with
                  | .error f => (.error f, erange)
                  | .ok none => (.ok (some .unknowed, vars), erange)
                  | .ok (some jobj) =>
                      (.ok (none, { offset := vars.offset + jsize.toNat, jcmd := some jobj }),
                        erange)

def ParseResult.call (r : ParseResult) (vars : ParseVars) :
    Except Fault (Option YYMMSJSONError × ParseVars) :=
  match r with
  | .success offset jcmd => .ok (none, { offset := vars.offset + offset, jcmd := some jcmd })
  | .error err => .ok (some err, vars)
  | .fault f => .error f

variable {env : Env} {erange : Bool} {b : Bytes}

theorem parseCmdCall_eq (env : Env) (erange : Bool) (cmd : Bytes) (vars : ParseVars) :
    parseCmdCall env erange cmd vars =
      ((parseCmdIn env erange cmd).1.call vars, (parseCmdIn env erange cmd).2) := by
  rw [parseCmdIn_eq]
  unfold parseCmdCall
  split
  · rfl
  · rfl
  · rename_i jsize _
    split
    · rfl
    · generalize Tokener.parseIn env.strtod erange (frameText jsize cmd) = parsed
      obtain ⟨r, erange'⟩ := parsed
      cases r with
      | error err => rfl
      | ok root =>
          dsimp only [decodeRoot]
          split_ifs
          · rfl
          · rfl
          · cases lookforMap env.uninit (objectGetInt (objectGet root (lit "cmd"))) with
            | none => rfl
            | some jobj =>
                dsimp only
                cases jobj.serializeObject env.ssl (objectGet root (lit "obj")) with
                | error f => rfl
                | ok jcmd => cases jcmd <;> rfl

theorem frame_of_success {offset : Nat} {jcmd : YYJ}
    (h : (parseCmdIn env erange b).1 = .success offset jcmd) :
    lengthField env.platform b = some (offset : Int) ∧ 3 < offset ∧ offset ≤ b.length ∧
      ∃ root, (Tokener.parseIn env.strtod erange (frameText offset b)).1 = .ok root ∧
        objectGet root (lit "cmd") = .int jcmd.id ∧
        (lookforMap env.uninit jcmd.id).isSome = true := by
  rw [parseCmdIn_eq] at h
  split at h
  · simp at h
  · simp at h
  · rename_i jsize hslice
    obtain ⟨-, hfield, hle⟩ := header_slice_iff.mp hslice
    dsimp only at h
    split at h
    · simp at h
    · rename_i hmin
      have hsize : (jsize.toNat : Int) = jsize := by omega
      have hdecoded := decodedRoot env jsize.toNat
        (Tokener.parseIn env.strtod erange (frameText jsize b)).1
      dsimp only at h
      rw [h] at hdecoded
      cases hdecoded with
      | accepted root jobj entries jcmd hparse hcmd hid hobj hfields =>
          obtain ⟨i, hi⟩ := type_eq_int_iff.mp hcmd
          have hjobj := lookforMap_id _ _ _ hid
          have hjcmd := serializeEntries_id hfields
          rw [hi] at hid hjobj
          have heq : i = jcmd.id := eq_id_of_objectGetInt (by rw [hjcmd, hjobj])
          have hne : jsize.toNat ≠ 3 := by
            intro hthree
            rw [frameText, hthree, Nat.sub_self, List.take_zero] at hparse
            simp [Tokener.parseIn, cstr, Tokener.init, Tokener.eofIn, Tokener.eof] at hparse
          rw [hsize]
          refine ⟨hfield, by omega, by omega, root, hparse, by rw [hi, heq], ?_⟩
          rw [hjcmd, hjobj, hid]
          rfl

/-- A thread calls `ParseCmd` on `b` and, unless it has asked for more bytes, on `b ++ t`. -/
structure PrefixDetermined (env : Env) (erange : Bool) (b t : Bytes) : Prop where
  same : ∀ u u' vars result erange',
    parseCmdCall { env with uninit := u } erange b vars = (.ok result, erange') →
      result.1 ≠ some .bufsize →
        (parseCmdCall { env with uninit := u' } erange' (b ++ t) vars).1 = .ok result
  success : ∀ u vars vars' erange',
    parseCmdCall { env with uninit := u } erange b vars = (.ok (none, vars'), erange') →
      ∃ (n : Nat) (jcmd : YYJ), vars' = { offset := vars.offset + n, jcmd := some jcmd } ∧
        lengthField env.platform b = some (n : Int) ∧ 3 < n ∧ n ≤ b.length ∧
        ∃ root, (Tokener.parseIn env.strtod erange (frameText n b)).1 = .ok root ∧
          objectGet root (lit "cmd") = .int jcmd.id ∧ (lookforMap u jcmd.id).isSome = true
  error : ∀ u vars err vars' erange',
    parseCmdCall { env with uninit := u } erange b vars = (.ok (some err, vars'), erange') →
      vars' = vars

theorem parseCmdCall_success {vars vars' : ParseVars} {erange' : Bool}
    (h : parseCmdCall env erange b vars = (.ok (none, vars'), erange')) :
    ∃ offset jcmd, (parseCmdIn env erange b).1 = .success offset jcmd ∧
      vars' = { offset := vars.offset + offset, jcmd := some jcmd } := by
  rw [parseCmdCall_eq, Prod.mk.injEq] at h
  generalize (parseCmdIn env erange b).1 = r at h
  cases r with
  | success offset jcmd =>
      simp only [ParseResult.call, Except.ok.injEq, Prod.mk.injEq, true_and] at h
      exact ⟨offset, jcmd, rfl, h.1.symm⟩
  | error err => simp [ParseResult.call] at h
  | fault f => simp [ParseResult.call] at h

theorem parseCmdCall_error {vars vars' : ParseVars} {err : YYMMSJSONError} {erange' : Bool}
    (h : parseCmdCall env erange b vars = (.ok (some err, vars'), erange')) :
    (parseCmdIn env erange b).1 = .error err ∧ vars' = vars := by
  rw [parseCmdCall_eq, Prod.mk.injEq] at h
  generalize (parseCmdIn env erange b).1 = r at h
  cases r with
  | success offset jcmd => simp [ParseResult.call] at h
  | error err' =>
      simp only [ParseResult.call, Except.ok.injEq, Prod.mk.injEq, Option.some.injEq] at h
      exact ⟨by rw [h.1.1], h.1.2.symm⟩
  | fault f => simp [ParseResult.call] at h

theorem header_ne_bufsize (u : Uninit)
    (h : (parseCmdIn { env with uninit := u } erange b).1 ≠ .error .bufsize) :
    header env.platform b ≠ .bufsize := by
  intro hheader
  rw [parseCmdIn_eq, hheader] at h
  exact h rfl

theorem parsesAgain_of_prefixDetermined {t : Bytes} (h : PrefixDetermined env erange b t) :
    ParsesAgain env erange b := by
  intro u u' offset jcmd hfirst
  have hheader := header_ne_bufsize u (by rw [hfirst]; exact ParseResult.noConfusion)
  have hcall := parseCmdCall_eq { env with uninit := u } erange b ⟨0, none⟩
  rw [hfirst] at hcall
  have hagain := h.same u u' ⟨0, none⟩ _ _ hcall (by simp)
  rw [parseCmdCall_eq, parseCmdIn_append u' hheader] at hagain
  dsimp only at hagain
  generalize (parseCmdIn { env with uninit := u' } _ b).1 = r at hagain ⊢
  cases r with
  | success offset' jcmd' =>
      simp only [ParseResult.call, Except.ok.injEq, Prod.mk.injEq, ParseVars.mk.injEq, true_and,
        Nat.zero_add, Option.some.injEq] at hagain
      rw [hagain.1, hagain.2]
  | error err => simp [ParseResult.call] at hagain
  | fault f => simp [ParseResult.call] at hagain

theorem prefixDetermined_of_parsesAgain (h : ParsesAgain env erange b) (t : Bytes) :
    PrefixDetermined env erange b t := by
  refine ⟨?_, ?_, ?_⟩
  · rintro u u' vars ⟨code, vars'⟩ erange' hcall hcode
    cases code with
    | none =>
        obtain ⟨offset, jcmd, hfirst, rfl⟩ := parseCmdCall_success hcall
        have hheader := header_ne_bufsize u (by rw [hfirst]; exact ParseResult.noConfusion)
        have hagain := h u u' offset jcmd hfirst
        rw [parseCmdCall_eq, Prod.mk.injEq] at hcall
        rw [parseCmdCall_eq, parseCmdIn_append u' hheader, ← hcall.2, hagain]
        rfl
    | some err =>
        obtain ⟨hfirst, rfl⟩ := parseCmdCall_error hcall
        have hheader := header_ne_bufsize u (by
          rw [hfirst]
          rintro hbufsize
          rw [ParseResult.error.inj hbufsize] at hcode
          exact hcode rfl)
        have hagain := parseCmdIn_error_again u u' hfirst
        rw [parseCmdCall_eq, Prod.mk.injEq] at hcall
        rw [parseCmdCall_eq, parseCmdIn_append u' hheader, ← hcall.2, hagain]
        rfl
  · intro u vars vars' erange' hcall
    obtain ⟨offset, jcmd, hfirst, rfl⟩ := parseCmdCall_success hcall
    exact ⟨offset, jcmd, rfl, frame_of_success hfirst⟩
  · intro u vars err vars' erange' hcall
    exact (parseCmdCall_error hcall).2

/-- What `ParseCmd` makes of a buffer, unless it asks for more bytes, is settled by that
buffer exactly when `errno` is ERANGE already or the frame leaves it alone and fills all
fields of its command. -/
theorem parseCmd_prefix_determined_iff (env : Env) (erange : Bool) (b t : Bytes) :
    PrefixDetermined env erange b t ↔ erange = true ∨ Reproducible env b := by
  rw [← parsesAgain_iff]
  exact ⟨parsesAgain_of_prefixDetermined, fun h => prefixDetermined_of_parsesAgain h t⟩

/-- A LOGOUT with one member that `Serialize` passes over. -/
def logoutWith (number : String) : Bytes :=
  let text := lit "\x7b\"cmd\":1015,\"obj\":\x7b\"yyID\":1,\"x\":" ++ lit number ++ lit "\x7d\x7d"
  preChar :: wordBytes (text.length + 3) ++ text

/-- A number out of range, one that does not print as it was written, and a field that is
left to the memory. -/
theorem parseCmd_not_prefix_determined :
    ¬ PrefixDetermined default false (logoutWith "99999999999999999999") [] ∧
      ¬ PrefixDetermined default false (logoutWith "0-") [] ∧
      ¬ PrefixDetermined default false emptyLogout [] := by
  refine ⟨?_, ?_, ?_⟩
  · intro h
    have hagain := h.same default default ⟨0, none⟩ (none, ⟨57, some (.logout ⟨1⟩)⟩) true
      (by decide +kernel) (by decide)
    revert hagain
    decide +kernel
  · intro h
    have hagain := h.same default default ⟨0, none⟩ (none, ⟨39, some (.logout ⟨1⟩)⟩) true
      (by decide +kernel) (by decide)
    revert hagain
    decide +kernel
  · intro h
    have hagain := h.same ⟨1, 0, 0⟩ ⟨2, 0, 0⟩ ⟨0, none⟩ (none, ⟨24, some (.logout ⟨1⟩)⟩) false
      (by decide +kernel) (by decide)
    revert hagain
    decide +kernel

end Call

end MmsSvr
