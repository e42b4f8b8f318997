import MmsSvr.Lib.Fold
import MmsSvr.Parsing

/-!
The fields of a decoded command, and what the memory of the command object held before.
-/

namespace MmsSvr

open JsonC YYmmsJson
open Lib

/-- The object has a member `name` of type int. -/
def HasInt (entries : Entries) (name : String) : Prop :=
  ∃ e ∈ entries, isKey e.1 e.2 name .int = true

instance (entries : Entries) (name : String) : Decidable (HasInt entries name) := by
  unfold HasInt
  infer_instance

/-- The object has what is needed to fill the fields that no constructor fills. -/
def EveryFieldSet (id : Int) (entries : Entries) : Prop :=
  (id = 1015 ∨ id = 1016 → HasInt entries "yyID") ∧
    (id = 1020 → HasInt entries "channelID" ∧ HasInt entries "subChannelID")

instance (id : Int) (entries : Entries) : Decidable (EveryFieldSet id entries) := by
  unfold EveryFieldSet
  infer_instance

/-- The members of `obj` in the frame of `jsize` bytes that a buffer begins with. -/
def frameEntries (jsize : Nat) (cmd : Bytes) : Entries :=
  match Tokener.parse (frameText jsize cmd) with
  | .error _ => []
  | .ok root =>
      match objectGet root (lit "obj") with
      | .object entries => entries
      | _ => []

section Classes

/-- The loop of `Serialize` for the classes whose only field is `yyID`. -/
def fillYyID (c : YYJsonYyID) (e : Bytes × Json) : YYJsonYyID := c.serializeEntry e.1 e.2

def fillOpenUrl (c : YYJsonOpenUrl) (e : Bytes × Json) : YYJsonOpenUrl := c.serializeEntry e.1 e.2

theorem isKey_unique {key : Bytes} {val : Json} {a b : String} {t t' : JsonType}
    (hne : lit a ≠ lit b) (h : isKey key val a t = true) : isKey key val b t' = false := by
  rw [isKey_iff] at h
  simp [isKey, h.1, hne]

theorem yyID_filled :
    FilledBy fillYyID YYJsonYyID.yyID fun e => isKey e.1 e.2 "yyID" .int = true := by
  constructor
  · intro e he
    exact ⟨getUnsigned e.2, fun c => by simp [fillYyID, YYJsonYyID.serializeEntry, he]⟩
  · intro e he c
    simp [fillYyID, YYJsonYyID.serializeEntry, he]

theorem channelID_filled :
    FilledBy fillOpenUrl YYJsonOpenUrl.channelID
      fun e => isKey e.1 e.2 "channelID" .int = true := by
  constructor
  · intro e he
    exact ⟨getUnsigned e.2, fun c => by simp [fillOpenUrl, YYJsonOpenUrl.serializeEntry, he]⟩
  · intro e he c
    simp only [fillOpenUrl, YYJsonOpenUrl.serializeEntry, if_neg he]
    split_ifs <;> rfl

theorem subChannelID_filled :
    FilledBy fillOpenUrl YYJsonOpenUrl.subChannelID
      fun e => isKey e.1 e.2 "subChannelID" .int = true := by
  constructor
  · intro e he
    have hother : isKey e.1 e.2 "channelID" .int = false := isKey_unique (by decide) he
    refine ⟨getUnsigned e.2, fun c => ?_⟩
    simp [fillOpenUrl, YYJsonOpenUrl.serializeEntry, he, hother]
  · intro e he c
    simp only [fillOpenUrl, YYJsonOpenUrl.serializeEntry, if_neg he]
    split_ifs <;> rfl

theorem url_fixed (entries : Entries) (m n m' n' : UInt32) :
    (entries.foldl fillOpenUrl ⟨m, n, []⟩).url = (entries.foldl fillOpenUrl ⟨m', n', []⟩).url := by
  have hurl : FilledBy fillOpenUrl YYJsonOpenUrl.url
      fun e => isKey e.1 e.2 "url" .string = true := by
    constructor
    · intro e he
      have hchannel : isKey e.1 e.2 "channelID" .int = false := isKey_unique (by decide) he
      have hsub : isKey e.1 e.2 "subChannelID" .int = false := isKey_unique (by decide) he
      refine ⟨objectGetString e.2, fun c => ?_⟩
      simp [fillOpenUrl, YYJsonOpenUrl.serializeEntry, he, hchannel, hsub]
    · intro e he c
      simp only [fillOpenUrl, YYJsonOpenUrl.serializeEntry, if_neg he]
      split_ifs <;> rfl
  exact hurl.foldl_congr entries rfl

end Classes

section Fill

variable (ssl : OpenSSL) (id : Int) (entries : Entries)

/-- The command object as `Serialize` leaves it, when its memory held `uninit`. -/
def filled (uninit : Uninit) : Option YYJ :=
  (lookforMap uninit id).bind fun jobj => jobj.serializeEntries ssl entries

theorem filled_logout (uninit : Uninit) :
    filled ssl 1015 entries uninit =
      some (.logout (entries.foldl fillYyID ⟨uninit.logoutYyID⟩)) :=
  foldlM_eq_some YYJ.logout (fun _ _ => rfl) entries _

theorem filled_logoutRes (uninit : Uninit) :
    filled ssl 1016 entries uninit =
      some (.logoutRes (entries.foldl fillYyID ⟨uninit.logoutYyID⟩)) :=
  foldlM_eq_some YYJ.logoutRes (fun _ _ => rfl) entries _

theorem filled_openUrl (uninit : Uninit) :
    filled ssl 1020 entries uninit =
      some (.openUrl (entries.foldl fillOpenUrl ⟨uninit.channelID, uninit.subChannelID, []⟩)) :=
  foldlM_eq_some YYJ.openUrl (fun _ _ => rfl) entries _

theorem yyID_fixed_iff {mk : YYJsonYyID → YYJ} (hmk : Function.Injective mk)
    (hfilled : ∀ uninit, filled ssl id entries uninit =
      some (mk (entries.foldl fillYyID ⟨uninit.logoutYyID⟩))) :
    (∀ u u', filled ssl id entries u = filled ssl id entries u') ↔ HasInt entries "yyID" := by
  have hiff := yyID_filled.forall_eq_iff (fun u : Uninit => (⟨u.logoutYyID⟩ : YYJsonYyID))
    ⟨0, 0, 0⟩ ⟨1, 0, 0⟩ (by decide) entries
  rw [HasInt, ← hiff]
  refine forall_congr' fun u => forall_congr' fun u' => ?_
  rw [hfilled, hfilled, Option.some.injEq, hmk.eq_iff, YYJsonYyID.mk.injEq]

theorem openUrl_fixed_iff :
    (∀ u u', filled ssl 1020 entries u = filled ssl 1020 entries u') ↔
      HasInt entries "channelID" ∧ HasInt entries "subChannelID" := by
  have hchannel := channelID_filled.forall_eq_iff
    (fun u : Uninit => (⟨u.channelID, u.subChannelID, []⟩ : YYJsonOpenUrl))
    ⟨0, 0, 0⟩ ⟨0, 1, 0⟩ (by decide) entries
  have hsub := subChannelID_filled.forall_eq_iff
    (fun u : Uninit => (⟨u.channelID, u.subChannelID, []⟩ : YYJsonOpenUrl))
    ⟨0, 0, 0⟩ ⟨0, 0, 1⟩ (by decide) entries
  rw [HasInt, HasInt, ← hchannel, ← hsub]
  constructor
  · intro h
    constructor
    · intro u u'
      have heq := h u u'
      rw [filled_openUrl, filled_openUrl, Option.some.injEq, YYJ.openUrl.injEq] at heq
      rw [heq]
    · intro u u'
      have heq := h u u'
      rw [filled_openUrl, filled_openUrl, Option.some.injEq, YYJ.openUrl.injEq] at heq
      rw [heq]
  · rintro ⟨hchannel, hsub⟩ u u'
    rw [filled_openUrl, filled_openUrl, Option.some.injEq, YYJ.openUrl.injEq,
      YYJsonOpenUrl.mk.injEq]
    exact ⟨hchannel u u', hsub u u', url_fixed entries _ _ _ _⟩

theorem lookforMap_fixed {id : Int} (hlogout : id ≠ 1015) (hlogoutRes : id ≠ 1016)
    (hopenUrl : id ≠ 1020) (u u' : Uninit) : lookforMap u id = lookforMap u' id := by
  simp only [lookforMap, if_neg hlogout, if_neg hlogoutRes, if_neg hopenUrl]

theorem filled_fixed_iff :
    (∀ u u', filled ssl id entries u = filled ssl id entries u') ↔ EveryFieldSet id entries := by
  by_cases hlogout : id = 1015
  · subst hlogout
    rw [yyID_fixed_iff ssl 1015 entries (fun _ _ => YYJ.logout.inj) (filled_logout ssl entries)]
    simp [EveryFieldSet]
  by_cases hlogoutRes : id = 1016
  · subst hlogoutRes
    rw [yyID_fixed_iff ssl 1016 entries (fun _ _ => YYJ.logoutRes.inj)
      (filled_logoutRes ssl entries)]
    simp [EveryFieldSet]
  by_cases hopenUrl : id = 1020
  · subst hopenUrl
    rw [openUrl_fixed_iff]
    simp [EveryFieldSet]
  · refine iff_of_true ?_ ?_
    · intro u u'
      rw [filled, filled, lookforMap_fixed hlogout hlogoutRes hopenUrl u u']
    · simp [EveryFieldSet, hlogout, hlogoutRes, hopenUrl]

end Fill

section Frame

variable {env : Env} {cmd : Bytes} {offset : Nat} {jcmd : YYJ}

theorem parseCmd_uninit (h : parseCmd env cmd = .success offset jcmd) (u : Uninit) :
    parseCmd { env with uninit := u } cmd =
      match filled env.ssl jcmd.id (frameEntries offset cmd) u with
      | none => .error .unknowed
      | some c => .success offset c := by
  rw [parseCmd_eq] at h
  split at h
  · simp at h
  · simp at h
  · rename_i jsize hslice
    split at h
    · simp at h
    · rename_i hmin
      have hdecoded := decoded env jsize.toNat (frameText jsize cmd)
      rw [h] at hdecoded
      cases hdecoded with
      | accepted root jobj entries jcmd hparse hcmd hid hobj hfields =>
          have hroot : root.type ≠ .null := by
            intro hnull
            cases root with
            | null => simp [objectGet, Json.type] at hcmd
            | _ => simp [Json.type] at hnull
          have hentries : frameEntries jsize.toNat cmd = entries := by
            have hsize : ((jsize.toNat : Nat) : Int) = jsize := by omega
            rw [frameEntries, hsize, hparse]
            simp only [hobj]
          have hjcmd : objectGetInt (objectGet root (lit "cmd")) = jcmd.id := by
            rw [serializeEntries_id hfields, lookforMap_id _ _ _ hid]
          have hmember : ¬ ((objectGet root (lit "cmd")).type = .null ∨
              (objectGet root (lit "obj")).type = .null ∨
              (objectGet root (lit "cmd")).type ≠ .int) := by
            simp [hcmd, type_eq_object_iff.mpr ⟨entries, hobj⟩]
          rw [hobj] at hmember
          rw [parseCmd_eq, hslice, hentries, filled, ← hjcmd]
          simp only [if_neg hmin, parseBody, decodeRoot, hparse, if_neg hroot, if_neg hmember, hobj]
          cases lookforMap u (objectGetInt (objectGet root (lit "cmd"))) with
          | none => rfl
          | some jobj' =>
              simp only [YYJ.serializeObject, Option.bind_some]
              cases jobj'.serializeEntries env.ssl entries <;> rfl

/-- Two runs of `ParseCmd` on an accepted frame decode it alike whatever memory they get,
exactly when the frame fills every field that no constructor fills. -/
theorem decoded_by_frame_iff (env : Env) (cmd : Bytes) (offset : Nat) (jcmd : YYJ)
    (hparse : parseCmd env cmd = .success offset jcmd) :
    (∀ u u' : Uninit, parseCmd { env with uninit := u } cmd =
        parseCmd { env with uninit := u' } cmd) ↔
      EveryFieldSet jcmd.id (frameEntries offset cmd) := by
  rw [← filled_fixed_iff env.ssl]
  refine forall_congr' fun u => forall_congr' fun u' => ?_
  rw [parseCmd_uninit hparse u, parseCmd_uninit hparse u']
  cases filled env.ssl jcmd.id (frameEntries offset cmd) u with
  | none => cases filled env.ssl jcmd.id (frameEntries offset cmd) u' <;> simp
  | some c => cases filled env.ssl jcmd.id (frameEntries offset cmd) u' <;> simp

theorem decoded_by_frame_logout :
    parseCmd { (default : Env) with uninit := ⟨1, 0, 0⟩ } (frame (.logout ⟨1⟩)) =
      parseCmd { (default : Env) with uninit := ⟨2, 0, 0⟩ } (frame (.logout ⟨1⟩)) :=
  (decoded_by_frame_iff default (frame (.logout ⟨1⟩)) 32 (.logout ⟨1⟩) (by decide +kernel)).mpr
    (by decide +kernel) _ _

/-- A LOGOUT whose `obj` is empty. -/
def emptyLogout : Bytes :=
  preChar :: wordBytes 24 ++ lit "\x7b\"cmd\":1015,\"obj\":\x7b\x7d\x7d"

/-- It is accepted, and its `yyID` is whatever the memory held. -/
theorem logout_decodes_memory :
    parseCmd { (default : Env) with uninit := ⟨1, 0, 0⟩ } emptyLogout =
        .success 24 (.logout ⟨1⟩) ∧
      parseCmd { (default : Env) with uninit := ⟨2, 0, 0⟩ } emptyLogout =
        .success 24 (.logout ⟨2⟩) := by
  constructor
  · decide +kernel
  · decide +kernel

end Frame

end MmsSvr
