import MmsSvr.Fields

/-!
What a decoder reads back from the text a command was encoded to, as long as its
strings contain nothing that JSON would have had to escape.
-/

namespace MmsSvr

open JsonC JsonC.Tokener YYJson YYSSL YYmmsJson

def Plain (s : Bytes) : Prop := Clean s ∧ (0 : UInt8) ∉ s

instance (s : Bytes) : Decidable (Plain s) := inferInstanceAs (Decidable (_ ∧ _))

/-- What an unsigned field holds after its decimal text has gone through
`json_object_get_int`. -/
def clip (v : UInt32) : UInt32 := getUnsigned (.int v.toNat)

namespace FieldValue

def Plain (v : FieldValue) : Prop := ∀ s ∈ v.texts, MmsSvr.Plain s

end FieldValue

namespace YYJ

def Plain (c : YYJ) : Prop := ∀ s ∈ c.texts, MmsSvr.Plain s

instance (c : YYJ) : Decidable c.Plain := inferInstanceAs (Decidable (∀ s ∈ c.texts, _))

/-- No string field contains a NUL, as no string that came out of the tokener does. -/
def NulFree (c : YYJ) : Prop := ∀ s ∈ c.texts, (0 : UInt8) ∉ s

instance (c : YYJ) : Decidable c.NulFree := inferInstanceAs (Decidable (∀ s ∈ c.texts, _))

def unsigneds : YYJ → List UInt32
  | .login c => [c.yyID]
  | .login1 c => [c.uid]
  | .logout c | .logoutRes c | .mmsStopPlay c | .mmsStopPlayRes c | .mmsExit c => [c.yyID]
  | .openUrl c => [c.channelID, c.subChannelID]
  | .mmsOpenUrl c => [c.uid, c.yyID, c.channelID, c.subChannelID]
  | .svrInit c => [c.yyID]
  | .compRSA _ | .compAES _ | .loginRes _ | .login1Res _ | .openUrlRes _ => []

def mapUnsigned (f : UInt32 → UInt32) : YYJ → YYJ
  | .login c => .login { c with yyID := f c.yyID }
  | .login1 c => .login1 { c with uid := f c.uid }
  | .logout c => .logout ⟨f c.yyID⟩
  | .logoutRes c => .logoutRes ⟨f c.yyID⟩
  | .openUrl c => .openUrl { c with channelID := f c.channelID, subChannelID := f c.subChannelID }
  | .mmsOpenUrl c => .mmsOpenUrl
      { c with
        uid := f c.uid
        yyID := f c.yyID
        channelID := f c.channelID
        subChannelID := f c.subChannelID }
  | .mmsStopPlay c => .mmsStopPlay ⟨f c.yyID⟩
  | .mmsStopPlayRes c => .mmsStopPlayRes ⟨f c.yyID⟩
  | .mmsExit c => .mmsExit ⟨f c.yyID⟩
  | .svrInit c => .svrInit { c with yyID := f c.yyID }
  | c => c

theorem mapUnsigned_eq_self_iff (f : UInt32 → UInt32) (c : YYJ) :
    c.mapUnsigned f = c ↔ ∀ v ∈ c.unsigneds, f v = v := by
  rcases c with c | c | c | c | c | c | c | c | c | c | c | c | c | c | c <;> cases c <;>
    simp [mapUnsigned, unsigneds]

end YYJ

theorem toNat_clip (v : UInt32) : (clip v).toNat = min v.toNat (2 ^ 31 - 1) := by
  have hv := v.toNat_lt
  have hclip : objectGetInt (.int v.toNat) = ((min v.toNat (2 ^ 31 - 1) : Nat) : Int) := by
    rw [objectGetInt]
    omega
  rw [clip, getUnsigned, hclip, UInt32.ofInt, UInt32.toNat_ofNat']
  omega

theorem clip_eq_self_iff (v : UInt32) : clip v = v ↔ v.toNat < 2 ^ 31 := by
  rw [← UInt32.toNat_inj, toNat_clip]
  omega

theorem clip_eq_clip_iff (v w : UInt32) :
    clip v = clip w ↔ v = w ∨ (2 ^ 31 - 1 ≤ v.toNat ∧ 2 ^ 31 - 1 ≤ w.toNat) := by
  rw [← UInt32.toNat_inj, toNat_clip, toNat_clip, ← UInt32.toNat_inj]
  omega

section Text

theorem valueText_tosInt {i : Int} (hi : i.natAbs < 2 ^ 63) :
    ValueText 1 (tosInt i) (.int i) := by
  unfold tosInt
  split
  · rename_i hneg
    have htext := valueText_negative i.natAbs hi.le
    rwa [show -(i.natAbs : Int) = i by omega] at htext
  · rename_i hpos
    have htext := valueText_decimal i.natAbs hi
    rwa [show (i.natAbs : Int) = i by omega] at htext

theorem valueText_encode (b : Bytes) :
    ValueText 1 (dquote :: Base64.encode b ++ [dquote]) (.string (Base64.encode b)) := by
  have hne := fun c hc => Base64.isText_ne (Base64.encode_isText b c hc)
  refine valueText_string _ ⟨fun h => ?_, fun h => ?_⟩ fun h => ?_
  · exact (hne _ h).2.1 rfl
  · exact (hne _ h).2.2.1 rfl
  · exact (hne _ h).1 rfl

theorem valueText_print (v : FieldValue) (hv : v.Plain) (hr : v.InRange) :
    ValueText 1 v.print v.value := by
  cases v with
  | text s =>
      have hs := hv s (by simp [FieldValue.texts])
      exact valueText_string s hs.1 hs.2
  | coded b => exact valueText_encode b
  | number i => exact valueText_tosInt hr
  | bool b =>
      cases b
      · exact valueText_false
      · exact valueText_true

end Text

section Members

variable (c : YYJ)

theorem fields_ne_nil : c.members ≠ [] := by
  cases c <;> simp [YYJ.members, YYJ.fields]

theorem fields_names : ∀ f ∈ c.fields, Plain (lit f.1) := by
  cases c <;> simp only [YYJ.fields, List.forall_mem_cons] <;>
    simp +decide

theorem fields_inRange : ∀ f ∈ c.fields, f.2.InRange := by
  have hunsigned : ∀ v : UInt32, (FieldValue.number v.toNat).InRange := by
    intro v
    have hv := v.toNat_lt
    simp only [FieldValue.InRange]
    omega
  have hint : ∀ v : Int32, (FieldValue.number v.toInt).InRange := by
    intro v
    have hlo := v.le_toInt
    have hhi := v.toInt_lt
    simp only [FieldValue.InRange]
    omega
  have htext : ∀ s : Bytes, (FieldValue.text s).InRange := fun _ => trivial
  have hcoded : ∀ b : Bytes, (FieldValue.coded b).InRange := fun _ => trivial
  have hbool : ∀ b : Bool, (FieldValue.bool b).InRange := fun _ => trivial
  cases c <;> simp [YYJ.fields, hunsigned, hint, htext, hcoded, hbool]

theorem members_nodup : (c.members.map Member.key).Nodup := by
  cases c <;> simp +decide [YYJ.members, YYJ.fields, fieldMember]

variable {c}

theorem YYJ.Plain.field (hc : c.Plain) {f : String × FieldValue} (hf : f ∈ c.fields) :
    f.2.Plain :=
  fun s hs => hc s (List.mem_flatMap.mpr ⟨f, hf, hs⟩)

theorem YYJ.Plain.reads (hc : c.Plain) : ∀ m ∈ c.members, m.Reads 1 := by
  intro m hm
  obtain ⟨f, hf, rfl⟩ := List.mem_map.mp hm
  have hname := fields_names c f hf
  exact ⟨hname.1, hname.2, valueText_print f.2 (hc.field hf) (fields_inRange c f hf)⟩

end Members

section NulFree

theorem zero_ne_dquote : (0 : UInt8) ≠ dquote := by decide

theorem zero_notMem_decimal (n : Nat) : (0 : UInt8) ∉ decimal n := fun h =>
  absurd (decimal_isDigit n 0 h) (by decide)

theorem zero_notMem_tosInt (i : Int) : (0 : UInt8) ∉ tosInt i := by
  unfold tosInt
  split <;> simp [zero_notMem_decimal]

theorem zero_notMem_print (v : FieldValue) (hv : ∀ s ∈ v.texts, (0 : UInt8) ∉ s) :
    (0 : UInt8) ∉ v.print := by
  cases v with
  | text s =>
      have hs := hv s (by simp [FieldValue.texts])
      simp [FieldValue.print, hs, zero_ne_dquote]
  | coded b =>
      have hb : (0 : UInt8) ∉ Base64.encode b := fun h =>
        (Base64.isText_ne (Base64.encode_isText b 0 h)).1 rfl
      simp [FieldValue.print, hb, zero_ne_dquote]
  | number i => exact zero_notMem_tosInt i
  | bool b => cases b <;> decide

theorem zero_notMem_printMembers (ms : List Member)
    (hms : ∀ m ∈ ms, (0 : UInt8) ∉ m.key ∧ (0 : UInt8) ∉ m.text) :
    (0 : UInt8) ∉ printMembers ms := by
  induction ms using printMembers.induct with
  | case1 => simp [printMembers]
  | case2 m =>
      have hm := hms m (by simp)
      simp [printMembers, Member.print, hm, zero_ne_dquote]
  | case3 m n ms ih =>
      have hm := hms m (by simp)
      have hrest := ih fun k hk => hms k (List.mem_cons_of_mem m hk)
      simp [printMembers, Member.print, hm, hrest, zero_ne_dquote]

theorem zero_notMem_printObject {ms : List Member}
    (hms : ∀ m ∈ ms, (0 : UInt8) ∉ m.key ∧ (0 : UInt8) ∉ m.text) :
    (0 : UInt8) ∉ printObject ms := by
  have hmembers := zero_notMem_printMembers ms hms
  simp [printObject, hmembers]

theorem YYJ.Plain.nulFree {c : YYJ} (hc : c.Plain) : c.NulFree := fun s hs => (hc s hs).2

theorem YYJ.NulFree.members {c : YYJ} (hc : c.NulFree) :
    ∀ m ∈ c.members, (0 : UInt8) ∉ m.key ∧ (0 : UInt8) ∉ m.text := by
  intro m hm
  obtain ⟨f, hf, rfl⟩ := List.mem_map.mp hm
  exact ⟨(fields_names c f hf).2, zero_notMem_print f.2 fun s hs =>
    hc s (List.mem_flatMap.mpr ⟨f, hf, hs⟩)⟩

end NulFree

/-- The value of an object whose members have different names. -/
def memberEntries (ms : List Member) : Entries := ms.map fun m => (m.key, m.value)

theorem addMembers_members (c : YYJ) : addMembers [] c.members = memberEntries c.members := by
  rw [addMembers_of_nodup [] _ (by simpa using members_nodup c), List.nil_append]
  rfl

theorem parse_members {c : YYJ} (hc : c.Plain) :
    parse (printObject c.members) = .ok (.object (memberEntries c.members)) := by
  rw [← addMembers_members]
  exact parse_printObject (by decide) _ (fields_ne_nil c) hc.reads
    (zero_notMem_printObject hc.nulFree.members)

theorem ofInt_objectGetInt (v : Int32) : Int32.ofInt (objectGetInt (.int v.toInt)) = v := by
  have hlo := v.le_toInt
  have hhi := v.toInt_lt
  have hget : objectGetInt (.int v.toInt) = v.toInt := by
    rw [objectGetInt]
    omega
  rw [hget, Int32.ofInt_toInt]

theorem serializeEntries_members (uninit : Uninit) (ssl : OpenSSL) (c : YYJ) :
    ∃ jobj, lookforMap uninit c.id = some jobj ∧
      jobj.serializeEntries ssl (memberEntries c.members) = some (c.mapUnsigned clip) := by
  cases c <;> refine ⟨_, rfl, ?_⟩ <;>
    simp +decide [memberEntries, YYJ.members, YYJ.fields, fieldMember, FieldValue.value,
      YYJ.serializeEntries, YYJ.serializeEntry, YYJ.mapUnsigned, isKey, Json.type,
      YYJsonComp.serializeEntry, YYJsonLogin.serializeEntry, YYJsonLoginRes.serializeEntry,
      YYJsonLogin1.serializeEntry, YYJsonLogin1Res.serializeEntry, YYJsonYyID.serializeEntry,
      YYJsonOpenUrl.serializeEntry, YYJsonOpenUrlRes.serializeEntry,
      YYJsonMMSOpenUrl.serializeEntry, YYJsonSvrInit.serializeEntry, objectGetString,
      objectGetBoolean, base64decode_encode, clip, ofInt_objectGetInt]

/-- Parsing the text of `Serialize(std::string &)` and handing the value to
`Serialize(json_object *)` of a new object of the same class. -/
def reread (env : Env) (c : YYJ) : Except Fault (Option YYJ) :=
  match c.serialize env.ssl, lookforMap env.uninit c.id with
  | some str, some jobj =>
      match parse str with
      | .error _ => .ok none
      | .ok obj => jobj.serializeObject env.ssl obj
  | _, _ => .ok none

theorem reread_of_plain (env : Env) {c : YYJ} (hc : c.Plain) :
    reread env c = .ok (some (c.mapUnsigned clip)) := by
  obtain ⟨jobj, hjobj, hentries⟩ := serializeEntries_members env.uninit env.ssl c
  simp [reread, serialize_eq, hjobj, parse_members hc, YYJ.serializeObject, hentries]

section Command

def cmdMembers (c : YYJ) : List Member :=
  [⟨lit "cmd", tosInt c.id, .int c.id⟩,
    ⟨lit "obj", printObject c.members, .object (memberEntries c.members)⟩]

theorem cmdText_eq (c : YYJ) :
    cmdText c (printObject c.members) = printObject (cmdMembers c) := by
  have hobj : lit ",\"obj\":" = 44 :: dquote :: lit "obj" ++ [dquote, 58] := rfl
  simp [cmdText, cmdMembers, printObject, printMembers, Member.print, toCmdInt, hobj,
    lit_brace, lit_close, lit_quote, lit_colon]

theorem objectGetInt_id (c : YYJ) : objectGetInt (.int c.id) = c.id := by
  cases c <;> rfl

theorem natAbs_id_lt (c : YYJ) : c.id.natAbs < 2 ^ 63 := by
  cases c <;> simp [YYJ.id]

theorem plain_cmd : Plain (lit "cmd") := by decide

theorem plain_obj : Plain (lit "obj") := by decide

theorem YYJ.Plain.cmdReads {c : YYJ} (hc : c.Plain) : ∀ m ∈ cmdMembers c, m.Reads 2 := by
  have hobj := valueText_object c.members (fields_ne_nil c) hc.reads
  rw [addMembers_members] at hobj
  have hid := valueText_tosInt (natAbs_id_lt c)
  simp only [cmdMembers, List.forall_mem_cons]
  refine ⟨⟨plain_cmd.1, plain_cmd.2, ?_⟩, ⟨plain_obj.1, plain_obj.2, hobj⟩, by simp⟩
  intro stack entries key d hroom hd
  exact hid stack entries key d (by omega) hd

theorem YYJ.Plain.cmdNulFree {c : YYJ} (hc : c.Plain) :
    ∀ m ∈ cmdMembers c, (0 : UInt8) ∉ m.key ∧ (0 : UInt8) ∉ m.text := by
  simp only [cmdMembers, List.forall_mem_cons]
  exact ⟨⟨plain_cmd.2, zero_notMem_tosInt _⟩,
    ⟨plain_obj.2, zero_notMem_printObject hc.nulFree.members⟩, by simp⟩

theorem parse_cmdText {c : YYJ} (hc : c.Plain) :
    parse (cmdText c (printObject c.members)) =
      .ok (.object [(lit "cmd", .int c.id), (lit "obj", .object (memberEntries c.members))]) := by
  have hadd : addMembers [] (cmdMembers c) = memberEntries (cmdMembers c) := by
    rw [addMembers_of_nodup [] _ (by simp +decide [cmdMembers]), List.nil_append]
    rfl
  rw [cmdText_eq, parse_printObject (by decide) _ (by simp [cmdMembers]) hc.cmdReads
    (zero_notMem_printObject hc.cmdNulFree), hadd]
  rfl

theorem parseBody_cmdText (env : Env) (jsize : Nat) {c : YYJ} (hc : c.Plain) :
    parseBody env jsize (cmdText c (printObject c.members)) =
      .success jsize (c.mapUnsigned clip) := by
  obtain ⟨jobj, hjobj, hentries⟩ := serializeEntries_members env.uninit env.ssl c
  have hcmd : objectGet (.object [(lit "cmd", .int c.id),
      (lit "obj", .object (memberEntries c.members))]) (lit "cmd") = .int c.id := by
    simp [objectGet]
  have hobj : objectGet (.object [(lit "cmd", .int c.id),
      (lit "obj", .object (memberEntries c.members))]) (lit "obj") =
        .object (memberEntries c.members) := by
    simp +decide [objectGet, List.find?]
  simp [parseBody, decodeRoot, parse_cmdText hc, hcmd, hobj, Json.type, objectGetInt_id, hjobj,
    YYJ.serializeObject, hentries]

end Command

end MmsSvr
