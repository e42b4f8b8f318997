import MmsSvr.DecodeBudget
import MmsSvr.MmsExec

/-!
Which commands survive encoding and decoding.

The texts of `Serialize(std::string &)` hold the strings of a command as they are.
A string with a quotation mark can end its own member and start others; that no
such text decodes to the command it was made from is a matter of counting.
-/

namespace MmsSvr

open JsonC JsonC.Tokener YYJson YYmmsJson

section Unsigned

theorem parse_decimal {n : Nat} (hn : n < 2 ^ 63) : parse (decimal n) = .ok (.int n) := by
  have hdigits := decimal_isDigit n
  have hparse := parseNumber_decimal hn
  have hnul : (0 : UInt8) ∉ decimal n := zero_notMem_decimal n
  rw [parse, cstr_of_nulFree hnul]
  cases htext : decimal n with
  | nil => exact absurd htext (decimal_ne_nil n)
  | cons c s =>
      rw [htext] at hdigits hparse
      have hc := hdigits c (by simp)
      have hstart : step init c = ⟨[], .number [c]⟩ := by
        change eatws [] .start c = _
        rw [eatws, if_neg (by simp [isSpace_of_isDigit hc]),
          if_neg (ne_of_isDigit hc (by decide)), resume, start_digit [] hc]
      rw [List.foldl_cons, hstart, foldl_number [] [c] s fun d hd =>
        isNumberChar_of_isDigit (hdigits d (by simp [hd]))]
      simp [eof, hparse, eofFinish]

/-- What becomes of an unsigned field that is printed on its own and read back. -/
def readUnsigned (v : UInt32) : Except TokenerError UInt32 :=
  (parse (tosUnsigned v)).map getUnsigned

theorem readUnsigned_eq (v : UInt32) : readUnsigned v = .ok (clip v) := by
  have hv := v.toNat_lt
  rw [readUnsigned, tosUnsigned, parse_decimal (by omega)]
  rfl

/-- An identifier survives printing and reading exactly below 2^31, alone and in
every command whose strings are plain; all identifiers from 2^31 - 1 on are read as
one. -/
theorem unsigned_read_back_iff (env : Env) :
    (∀ v, readUnsigned v = .ok v ↔ v.toNat < 2 ^ 31) ∧
      (∀ v w, readUnsigned v = readUnsigned w ↔
        v = w ∨ 2 ^ 31 - 1 ≤ v.toNat ∧ 2 ^ 31 - 1 ≤ w.toNat) ∧
      ∀ c : YYJ, c.Plain →
        (reread env c = .ok (some c) ↔ ∀ v ∈ c.unsigneds, v.toNat < 2 ^ 31) := by
  refine ⟨fun v => ?_, fun v w => ?_, fun c hc => ?_⟩
  · rw [readUnsigned_eq, Except.ok.injEq, clip_eq_self_iff]
  · rw [readUnsigned_eq, readUnsigned_eq, Except.ok.injEq, clip_eq_clip_iff]
  · rw [reread_of_plain env hc, Except.ok.injEq, Option.some.injEq,
      YYJ.mapUnsigned_eq_self_iff]
    simp only [clip_eq_self_iff]

theorem unsigned_read_back_logout :
    (YYJ.logout ⟨7⟩).Plain ∧ reread default (.logout ⟨7⟩) = .ok (some (.logout ⟨7⟩)) :=
  ⟨by decide, ((unsigned_read_back_iff default).2.2 (.logout ⟨7⟩) (by decide)).mpr
    (by simp [YYJ.unsigneds])⟩

/-- Users 2^31 - 1 and 2^32 - 1 are read as the same user, and the second not as
itself. -/
theorem readUnsigned_collapses :
    readUnsigned 4294967295 ≠ .ok 4294967295 ∧
      readUnsigned 4294967295 = readUnsigned 2147483647 := by
  decide +kernel

end Unsigned

section Raw

namespace FieldValue

/-- What a field that contains no quotation mark may be read as: a string as any
string, though as itself only when it is clean, and everything else as it is. -/
def ReadAs : FieldValue → FieldValue → Prop
  | .text s, .text s' => s' = s → Clean s
  | .text _, _ => False
  | v, w => w = v

end FieldValue

/-- A name and a field read under it. -/
def FieldReadAs (f g : String × FieldValue) : Prop := g.1 = f.1 ∧ f.2.ReadAs g.2

theorem foldl_field {f : String × FieldValue} (hname : Plain (lit f.1)) (hrange : f.2.InRange)
    (hraw : ∀ s ∈ f.2.texts, dquote ∉ s) (entries : Entries) {c : UInt8} (hc : IsDelim c) :
    Strays ((fieldMember f).print ++ [c]) ⟨[], .eatws (.objectFieldStart entries)⟩ ∨
      ∃ g, FieldReadAs f g ∧
        ((fieldMember f).print ++ [c]).foldl step ⟨[], .eatws (.objectFieldStart entries)⟩ =
          objectSep [] (objectAdd entries (lit g.1) g.2.value) c := by
  obtain ⟨name, value⟩ := f
  have hdepth : ([] : List Level).length + 1 ≤ maxDepth := by decide
  have hplain : value.texts = [] → _ := fun htexts =>
    foldl_member (m := fieldMember (name, value)) ⟨hname.1, hname.2,
      valueText_print value (by simp [FieldValue.Plain, htexts]) hrange⟩ hdepth entries hc
  cases value with
  | text s =>
      have hs := hraw s (by simp [FieldValue.texts])
      rcases foldl_raw_member hname.1 hname.2 hs hdepth entries hc with h | ⟨s', h, hself⟩
      · exact Or.inl h
      · exact Or.inr ⟨(name, .text s'), ⟨rfl, hself⟩, h⟩
  | coded b => exact Or.inr ⟨(name, .coded b), ⟨rfl, rfl⟩, hplain rfl⟩
  | number i => exact Or.inr ⟨(name, .number i), ⟨rfl, rfl⟩, hplain rfl⟩
  | bool b => exact Or.inr ⟨(name, .bool b), ⟨rfl, rfl⟩, hplain rfl⟩

theorem foldl_fields {fs : List (String × FieldValue)} (hne : fs ≠ [])
    (hname : ∀ f ∈ fs, Plain (lit f.1)) (hrange : ∀ f ∈ fs, f.2.InRange)
    (hraw : ∀ f ∈ fs, ∀ s ∈ f.2.texts, dquote ∉ s) (entries : Entries) :
    Strays (printMembers (fs.map fieldMember) ++ [125])
        ⟨[], .eatws (.objectFieldStart entries)⟩ ∨
      ∃ gs, List.Forall₂ FieldReadAs fs gs ∧
        (printMembers (fs.map fieldMember) ++ [125]).foldl step
            ⟨[], .eatws (.objectFieldStart entries)⟩ =
          ⟨[], .eatws (.finish (.object (addMembers entries (gs.map fieldMember))))⟩ := by
  induction fs generalizing entries with
  | nil => exact absurd rfl hne
  | cons f fs ih =>
      rw [List.forall_mem_cons] at hname hrange hraw
      have hfield := fun c => foldl_field (c := c) hname.1 hrange.1 hraw.1 entries
      cases fs with
      | nil =>
          rcases hfield 125 (Or.inr rfl) with h | ⟨g, hg, h⟩
          · exact Or.inl h
          · exact Or.inr ⟨[g], .cons hg .nil, h⟩
      | cons f' fs =>
          have hsplit : printMembers ((f :: f' :: fs).map fieldMember) ++ [125] =
              ((fieldMember f).print ++ [44]) ++
                (printMembers ((f' :: fs).map fieldMember) ++ [125]) := by
            simp [printMembers]
          rw [hsplit]
          rcases hfield 44 (Or.inl rfl) with h | ⟨g, hg, h⟩
          · exact Or.inl (h.append _)
          · have hstep : ((fieldMember f).print ++ [44]).foldl step
                ⟨[], .eatws (.objectFieldStart entries)⟩ =
                  ⟨[], .eatws (.objectFieldStart (objectAdd entries (lit g.1) g.2.value))⟩ := h
            rcases ih (by simp) hname.2 hrange.2 hraw.2
                (objectAdd entries (lit g.1) g.2.value) with hrest | ⟨gs, hgs, hrest⟩
            · exact Or.inl (Strays.of_suffix _ (by rw [hstep]; exact hrest))
            · refine Or.inr ⟨g :: gs, .cons hg hgs, ?_⟩
              rw [List.foldl_append, hstep, hrest]
              rfl

theorem clean_of_fieldReadAs {fs gs : List (String × FieldValue)}
    (h : List.Forall₂ FieldReadAs fs gs)
    (htexts : (gs.flatMap fun g => g.2.texts) = fs.flatMap fun f => f.2.texts) :
    ∀ s ∈ fs.flatMap fun f => f.2.texts, Clean s := by
  induction h with
  | nil => simp
  | @cons f g fs gs hfg _ ih =>
      obtain ⟨name, value⟩ := f
      obtain ⟨name', value'⟩ := g
      cases value with
      | text s =>
          cases value' with
          | text s' =>
              simp only [List.flatMap_cons, FieldValue.texts, List.singleton_append,
                List.cons.injEq] at htexts
              simp only [List.flatMap_cons, FieldValue.texts, List.singleton_append,
                List.forall_mem_cons]
              exact ⟨hfg.2 htexts.1, ih htexts.2⟩
          | _ => exact absurd hfg.2 id
      | _ =>
          obtain rfl := hfg.2
          exact ih htexts

theorem fieldReadAs_text {name : String} {s : Bytes} {g : String × FieldValue} :
    FieldReadAs (name, .text s) g ↔ ∃ s', g = (name, .text s') ∧ (s' = s → Clean s) := by
  obtain ⟨name', value⟩ := g
  cases value <;> simp [FieldReadAs, FieldValue.ReadAs]

theorem fieldReadAs_coded {name : String} {b : Bytes} {g : String × FieldValue} :
    FieldReadAs (name, .coded b) g ↔ g = (name, .coded b) := by
  obtain ⟨name', value⟩ := g
  simp [FieldReadAs, FieldValue.ReadAs]

theorem fieldReadAs_number {name : String} {i : Int} {g : String × FieldValue} :
    FieldReadAs (name, .number i) g ↔ g = (name, .number i) := by
  obtain ⟨name', value⟩ := g
  simp [FieldReadAs, FieldValue.ReadAs]

theorem fieldReadAs_bool {name : String} {b : Bool} {g : String × FieldValue} :
    FieldReadAs (name, .bool b) g ↔ g = (name, .bool b) := by
  obtain ⟨name', value⟩ := g
  simp [FieldReadAs, FieldValue.ReadAs]

theorem exists_of_fieldReadAs {c : YYJ} {gs : List (String × FieldValue)}
    (h : List.Forall₂ FieldReadAs c.fields gs) : ∃ c' : YYJ, c'.id = c.id ∧ c'.fields = gs := by
  cases c <;>
    simp only [YYJ.fields, List.forall₂_cons_left_iff, List.forall₂_nil_left_iff,
      fieldReadAs_text, fieldReadAs_coded, fieldReadAs_number, fieldReadAs_bool] at h
  case compRSA c =>
    obtain ⟨_, _, rfl, ⟨_, _, ⟨s, rfl, _⟩, rfl, rfl⟩, rfl⟩ := h
    exact ⟨.compRSA { c with serString := s }, rfl, rfl⟩
  case compAES c =>
    obtain ⟨_, _, rfl, ⟨_, _, ⟨s, rfl, _⟩, rfl, rfl⟩, rfl⟩ := h
    exact ⟨.compAES { c with serString := s }, rfl, rfl⟩
  case login c =>
    obtain ⟨_, _, rfl, ⟨_, _, ⟨s, rfl, _⟩, ⟨_, _, rfl, rfl, rfl⟩, rfl⟩, rfl⟩ := h
    exact ⟨.login { c with token := s }, rfl, rfl⟩
  case login1 c =>
    obtain ⟨_, _, ⟨s, rfl, _⟩, ⟨_, _, rfl, ⟨_, _, ⟨t, rfl, _⟩, rfl, rfl⟩, rfl⟩, rfl⟩ := h
    exact ⟨.login1 { c with user := s, pwd := t }, rfl, rfl⟩
  case openUrl c =>
    obtain ⟨_, _, ⟨s, rfl, _⟩, ⟨_, _, rfl, ⟨_, _, rfl, rfl, rfl⟩, rfl⟩, rfl⟩ := h
    exact ⟨.openUrl { c with url := s }, rfl, rfl⟩
  case openUrlRes c =>
    obtain ⟨_, _, rfl, ⟨_, _, ⟨s, rfl, _⟩, rfl, rfl⟩, rfl⟩ := h
    exact ⟨.openUrlRes { c with url := s }, rfl, rfl⟩
  case mmsOpenUrl c =>
    obtain ⟨_, _, rfl, ⟨_, _, rfl, ⟨_, _, ⟨s, rfl, _⟩, ⟨_, _, ⟨t, rfl, _⟩,
      ⟨_, _, rfl, ⟨_, _, rfl, ⟨_, _, ⟨u, rfl, _⟩, rfl, rfl⟩, rfl⟩, rfl⟩, rfl⟩, rfl⟩, rfl⟩,
      rfl⟩ := h
    exact ⟨.mmsOpenUrl { c with user := s, tick := t, url := u }, rfl, rfl⟩
  case loginRes c =>
    obtain ⟨_, _, rfl, ⟨_, _, rfl, rfl, rfl⟩, rfl⟩ := h
    exact ⟨.loginRes c, rfl, rfl⟩
  case svrInit c =>
    obtain ⟨_, _, rfl, ⟨_, _, rfl, rfl, rfl⟩, rfl⟩ := h
    exact ⟨.svrInit c, rfl, rfl⟩
  case login1Res c =>
    obtain ⟨_, _, rfl, rfl, rfl⟩ := h
    exact ⟨.login1Res c, rfl, rfl⟩
  case logout c =>
    obtain ⟨_, _, rfl, rfl, rfl⟩ := h
    exact ⟨.logout c, rfl, rfl⟩
  case logoutRes c =>
    obtain ⟨_, _, rfl, rfl, rfl⟩ := h
    exact ⟨.logoutRes c, rfl, rfl⟩
  case mmsStopPlay c =>
    obtain ⟨_, _, rfl, rfl, rfl⟩ := h
    exact ⟨.mmsStopPlay c, rfl, rfl⟩
  case mmsStopPlayRes c =>
    obtain ⟨_, _, rfl, rfl, rfl⟩ := h
    exact ⟨.mmsStopPlayRes c, rfl, rfl⟩
  case mmsExit c =>
    obtain ⟨_, _, rfl, rfl, rfl⟩ := h
    exact ⟨.mmsExit c, rfl, rfl⟩

end Raw

section Counting

theorem texts_mapUnsigned (f : UInt32 → UInt32) (c : YYJ) : (c.mapUnsigned f).texts = c.texts := by
  cases c <;> rfl

theorem quoteBase_of_light {s : Bytes} (hs : ∀ c ∈ s, Light c) : quoteBase s = 0 := by
  have hcost := quoteCost_of_light hs
  rw [quoteCost] at hcost
  omega

theorem light_of_isDigit {c : UInt8} (hc : isDigit c = true) : Light c := by
  have hne := fun d hd => ne_of_isDigit (d := d) hc hd
  exact ⟨by simp [quoteWeight, hne 92 rfl, hne 39 rfl], hne 34 rfl⟩

/-- Only the raw strings of a text weigh anything. -/
theorem quoteBase_print (v : FieldValue) : quoteBase v.print = (v.texts.map quoteBase).sum := by
  have hquote : quoteBase [dquote] = 0 := by decide
  have hdecimal : ∀ n, quoteBase (decimal n) = 0 := fun n =>
    quoteBase_of_light fun c hc => light_of_isDigit (decimal_isDigit n c hc)
  cases v with
  | text s =>
      rw [FieldValue.print, ← List.singleton_append, quoteBase_append, quoteBase_append, hquote]
      simp [FieldValue.texts]
  | coded b =>
      have hb : quoteBase (Base64.encode b) = 0 := quoteBase_of_light fun c hc => by
        have hne := Base64.isText_ne (Base64.encode_isText b c hc)
        exact ⟨by simp [quoteWeight, hne], hne.2.1⟩
      rw [FieldValue.print, ← List.singleton_append, quoteBase_append, quoteBase_append, hquote, hb]
      simp [FieldValue.texts]
  | number i =>
      have hminus : ∀ s, quoteBase (45 :: s) = quoteBase s := by
        intro s
        have hzero : quoteWeight 45 = 0 := by decide
        simp [quoteBase, hzero]
      simp only [FieldValue.print, FieldValue.texts, tosInt]
      split
      · simp [hminus, hdecimal]
      · simp [hdecimal]
  | bool b => cases b <;> decide

theorem quoteBase_names (c : YYJ) : ∀ f ∈ c.fields, quoteBase (lit f.1) = 0 := by
  cases c <;> simp only [YYJ.fields, List.forall_mem_cons] <;> simp +decide

theorem quoteBase_printMembers {fs : List (String × FieldValue)}
    (hname : ∀ f ∈ fs, quoteBase (lit f.1) = 0) :
    quoteBase (printMembers (fs.map fieldMember)) =
      ((fs.flatMap fun f => f.2.texts).map quoteBase).sum := by
  have hquote : quoteBase [dquote] = 0 := by decide
  have hcolon : quoteBase [dquote, 58] = 0 := by decide
  have hcomma : quoteBase [44] = 0 := by decide
  have hprint : ∀ f, quoteBase (lit f.1) = 0 →
      quoteBase (fieldMember f).print = (f.2.texts.map quoteBase).sum := by
    intro f hf
    rw [Member.print, ← List.singleton_append, quoteBase_append, quoteBase_append,
      quoteBase_append, hquote, hcolon]
    simp only [fieldMember, hf, quoteBase_print]
    omega
  induction fs with
  | nil => rfl
  | cons f fs ih =>
      rw [List.forall_mem_cons] at hname
      cases fs with
      | nil => simp [printMembers, hprint f hname.1]
      | cons f' fs =>
          have hrest := ih hname.2
          have hsplit : printMembers ((f :: f' :: fs).map fieldMember) =
              (fieldMember f).print ++ ([44] ++ printMembers ((f' :: fs).map fieldMember)) := by
            simp [printMembers]
          rw [hsplit, quoteBase_append, quoteBase_append, hprint f hname.1, hrest, hcomma]
          simp

theorem dquote_notMem_of_cost_le (ss : List Bytes)
    (h : (ss.map quoteCost).sum ≤ (ss.map quoteBase).sum) : ∀ s ∈ ss, dquote ∉ s := by
  have hle : ∀ ts : List Bytes, (ts.map quoteBase).sum ≤ (ts.map quoteCost).sum := fun ts =>
    List.sum_le_sum fun s _ => by rw [quoteCost]; omega
  induction ss with
  | nil => simp
  | cons s ss ih =>
      have hrest := hle ss
      simp only [List.map_cons, List.sum_cons, quoteCost] at h hrest
      rw [List.forall_mem_cons]
      refine ⟨fun hs => ?_, ih ?_⟩
      · rw [if_pos hs] at h
        omega
      · split at h <;> omega

theorem textWeight_members (c : YYJ) :
    quoteBudget.textWeight (printMembers c.members ++ [125]) = (c.texts.map quoteBase).sum := by
  rw [Budget.textWeight_append]
  exact quoteBase_printMembers (quoteBase_names c)

theorem textWeight_printObject (c : YYJ) :
    quoteBudget.textWeight (printObject c.members) = (c.texts.map quoteBase).sum := by
  rw [printObject, List.cons_append, ← List.singleton_append, Budget.textWeight_append,
    textWeight_members]
  exact Nat.zero_add _

/-- A parse that yields as much as the strings of the command cost has read each
member on its own. -/
theorem parse_members_cases {c : YYJ} (hnul : c.NulFree) (hraw : ∀ s ∈ c.texts, dquote ∉ s)
    {v : Json} (hv : parse (printObject c.members) = .ok v) :
    quoteBudget.valueCost v + 1 ≤ (c.texts.map quoteBase).sum ∨
      ∃ c' : YYJ, c'.id = c.id ∧ v = .object (memberEntries c'.members) ∧
        (c'.texts = c.texts → ∀ s ∈ c.texts, Clean s) := by
  have hopen : step init 123 = ⟨[], .eatws (.objectFieldStart [])⟩ := rfl
  have htext : printObject c.members = 123 :: (printMembers c.members ++ [125]) := rfl
  rw [parse, cstr_of_nulFree (zero_notMem_printObject hnul.members), htext, List.foldl_cons,
    hopen] at hv
  have hfields : c.fields ≠ [] := fun h => fields_ne_nil c (by rw [YYJ.members, h]; rfl)
  rcases foldl_fields hfields (fields_names c) (fields_inRange c)
      (fun f hf s hs => hraw s (List.mem_flatMap.mpr ⟨f, hf, hs⟩)) [] with
    hstray | ⟨gs, hgs, hread⟩
  · left
    have heof := hstray.eof hv
    have hzero : quoteBudget.tokenerCost ⟨[], .eatws (.objectFieldStart [])⟩ = 0 := by
      simp [Budget.tokenerCost, Budget.stackCost, Budget.stateCost, Budget.savedCost,
        Budget.entriesCost]
    have hweight := textWeight_members c
    rw [YYJ.members] at hweight
    omega
  · right
    obtain ⟨c', hid, rfl⟩ := exists_of_fieldReadAs hgs
    rw [YYJ.members, hread] at hv
    refine ⟨c', hid, ?_, clean_of_fieldReadAs hgs⟩
    rw [← addMembers_members]
    exact (Except.ok.inj hv).symm

end Counting

theorem reread_eq_some {env : Env} {c d : YYJ} (h : reread env c = .ok (some d)) :
    ∃ jobj v, lookforMap env.uninit c.id = some jobj ∧
      parse (printObject c.members) = .ok v ∧ jobj.serializeObject env.ssl v = .ok (some d) := by
  rw [reread, serialize_eq] at h
  split at h
  · rename_i jobj hstr hjobj
    simp only [Option.some.injEq] at hstr
    subst hstr
    split at h
    · cases h
    · rename_i v hv
      exact ⟨jobj, v, hjobj, hv, h⟩
  · cases h

/-- Whatever is decoded back unchanged had nothing in its strings to escape. -/
theorem clean_of_reread {env : Env} {c : YYJ} (hnul : c.NulFree)
    (h : reread env c = .ok (some c)) : ∀ s ∈ c.texts, Clean s := by
  obtain ⟨jobj, v, hjobj, hv, hdecode⟩ := reread_eq_some h
  have hcost : (c.texts.map quoteCost).sum ≤ quoteBudget.valueCost v :=
    serializeObject_cost (B := quoteBudget) (by decide) hjobj hdecode
  have hparse := quoteBudget.parse_cost _ v hv
  rw [textWeight_printObject] at hparse
  have hraw := dquote_notMem_of_cost_le c.texts (hcost.trans hparse)
  have hbase : (c.texts.map quoteCost).sum = (c.texts.map quoteBase).sum := by
    refine congrArg List.sum (List.map_congr_left fun s hs => ?_)
    rw [quoteCost, if_neg (hraw s hs), Nat.add_zero]
  rcases parse_members_cases hnul hraw hv with hshort | ⟨c', hid, rfl, hclean⟩
  · omega
  · refine hclean ?_
    obtain ⟨jobj', hjobj', hentries⟩ := serializeEntries_members env.uninit env.ssl c'
    rw [hid, hjobj, Option.some.injEq] at hjobj'
    subst hjobj'
    simp only [YYJ.serializeObject, hentries, Except.ok.injEq, Option.some.injEq] at hdecode
    rw [← texts_mapUnsigned clip c', hdecode]

/-- A command decodes to itself exactly when no string of it contains a quotation
mark or a backslash and every unsigned field is below 2^31; so does the session that
`openURL` relays. -/
theorem string_fields_survive_iff (env : Env) :
    (∀ c : YYJ, c.NulFree →
      (reread env c = .ok (some c) ↔
        (∀ s ∈ c.texts, Clean s) ∧ ∀ v ∈ c.unsigneds, v.toNat < 2 ^ 31)) ∧
      ∀ state : ItemData, (0 : UInt8) ∉ state.account → (0 : UInt8) ∉ state.pwd →
        (0 : UInt8) ∉ state.url →
        (reread env (.mmsOpenUrl (relayed state)) = .ok (some (.mmsOpenUrl (relayed state))) ↔
          (Clean state.account ∧ Clean state.pwd ∧ Clean state.url) ∧
            state.uid.toNat < 2 ^ 31 ∧ state.yyID.toNat < 2 ^ 31 ∧
            state.channelID.toNat < 2 ^ 31 ∧ state.subChannelID.toNat < 2 ^ 31) := by
  have hcommands : ∀ c : YYJ, c.NulFree →
      (reread env c = .ok (some c) ↔
        (∀ s ∈ c.texts, Clean s) ∧ ∀ v ∈ c.unsigneds, v.toNat < 2 ^ 31) := by
    intro c hnul
    constructor
    · intro h
      have hclean := clean_of_reread hnul h
      rw [reread_of_plain env fun s hs => ⟨hclean s hs, hnul s hs⟩, Except.ok.injEq,
        Option.some.injEq, YYJ.mapUnsigned_eq_self_iff] at h
      exact ⟨hclean, fun v hv => (clip_eq_self_iff v).mp (h v hv)⟩
    · rintro ⟨hclean, hsmall⟩
      rw [reread_of_plain env fun s hs => ⟨hclean s hs, hnul s hs⟩,
        (YYJ.mapUnsigned_eq_self_iff clip c).mpr fun v hv =>
          (clip_eq_self_iff v).mpr (hsmall v hv)]
  refine ⟨hcommands, fun state haccount hpwd hurl => ?_⟩
  rw [hcommands (.mmsOpenUrl (relayed state))
    (by simp [YYJ.NulFree, YYJ.texts, YYJ.fields, FieldValue.texts, relayed, haccount, hpwd,
      hurl])]
  simp [YYJ.texts, YYJ.fields, FieldValue.texts, relayed, YYJ.unsigneds]

theorem string_fields_survive_login1 :
    (YYJ.login1 ⟨7, lit "user", lit "it's"⟩).NulFree ∧
      reread default (.login1 ⟨7, lit "user", lit "it's"⟩) =
        .ok (some (.login1 ⟨7, lit "user", lit "it's"⟩)) :=
  ⟨by decide, ((string_fields_survive_iff default).1 _ (by decide)).mpr
    ⟨by decide, by simp [YYJ.unsigneds]⟩⟩

/-- A URL that ends its own member and goes on with another `yyID`. -/
def injectedUrl : Bytes := lit "x\",\"yyID\":9,\"url\":\"x"

/-- The frame with which a client sends that URL, its quotation marks escaped. -/
def injectedFrame : Bytes :=
  let text := lit ("\x7b\"cmd\":1020,\"obj\":\x7b\"url\":\"x\\\",\\\"yyID\\\":9,\\\"url\\\":\\\"x\"," ++
    "\"channelID\":1,\"subChannelID\":2\x7d\x7d")
  preChar :: wordBytes (text.length + 3) ++ text

/-- The session of user 5, after that frame, is relayed as a session of user 9. -/
theorem openURL_relays_injected_user :
    parseCmd default injectedFrame = .success injectedFrame.length (.openUrl ⟨1, 2, injectedUrl⟩) ∧
      (0 : UInt8) ∉ injectedUrl ∧
      reread default (.mmsOpenUrl (relayed
          { ItemData.init with yyID := 5, channelID := 1, subChannelID := 2, url := injectedUrl })) =
        .ok (some (.mmsOpenUrl
          { uid := 0, yyID := 9, channelID := 1, subChannelID := 2, url := lit "x", user := [],
            tick := [] })) ∧
      reread default (.mmsOpenUrl (relayed
          { ItemData.init with yyID := 5, channelID := 1, subChannelID := 2, url := injectedUrl })) ≠
        .ok (some (.mmsOpenUrl (relayed
          { ItemData.init with yyID := 5, channelID := 1, subChannelID := 2, url := injectedUrl }))) := by
  decide +kernel

end MmsSvr
