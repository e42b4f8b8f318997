import MmsSvr.Framing
import MmsSvr.JsonC.Raw

/-!
Budgets of decoded commands: the strings of a command never cost more than the
text it was decoded from.
-/

namespace MmsSvr

open JsonC JsonC.Tokener YYmmsJson

variable (B : Budget)

/-- The cost of the string fields of a command. -/
def textsCost (c : YYJ) : Nat := (c.texts.map B.cost).sum

section Entry

variable {B} {key : Bytes} {val : Json}

theorem isKey_iff {a : String} {t : JsonType} :
    isKey key val a t = true ↔ key = lit a ∧ val.type = t := by
  simp [isKey]

theorem cost_objectGetString (h : val.type = .string) :
    B.cost (objectGetString val) = B.valueCost val := by
  cases val with
  | string s => simp [objectGetString, Budget.valueCost]
  | _ => cases h

theorem serializeEntry_cost (ssl : OpenSSL) {c c' : YYJ}
    (h : c.serializeEntry ssl key val = some c') :
    textsCost B c' ≤ textsCost B c + B.valueCost val := by
  have hget : val.type = .string → B.cost (objectGetString val) = B.valueCost val :=
    cost_objectGetString
  cases c with
  | login c =>
      obtain ⟨d, hd, rfl⟩ := Option.map_eq_some_iff.mp h
      unfold YYJsonLogin.serializeEntry at hd
      split_ifs at hd with h1 h2 h3
      · simp only [Option.some.injEq] at hd
        simp [← hd, textsCost, YYJ.texts, YYJ.fields, FieldValue.texts]
      · simp only [Option.some.injEq] at hd
        simp [← hd, textsCost, YYJ.texts, YYJ.fields, FieldValue.texts, hget (isKey_iff.mp h2).2]
      · obtain ⟨rsakey, _, rfl⟩ := Option.map_eq_some_iff.mp hd
        simp [textsCost, YYJ.texts, YYJ.fields, FieldValue.texts]
      · simp only [Option.some.injEq] at hd
        simp [← hd]
  | loginRes c =>
      obtain ⟨d, _, rfl⟩ := Option.map_eq_some_iff.mp h
      simp [textsCost, YYJ.texts, YYJ.fields, FieldValue.texts]
  | _ =>
      simp only [YYJ.serializeEntry, Option.some.injEq] at h
      subst h
      simp only [YYJsonComp.serializeEntry, YYJsonLogin1.serializeEntry,
        YYJsonLogin1Res.serializeEntry, YYJsonYyID.serializeEntry,
        YYJsonOpenUrl.serializeEntry, YYJsonOpenUrlRes.serializeEntry,
        YYJsonMMSOpenUrl.serializeEntry, YYJsonSvrInit.serializeEntry]
      split_ifs <;> simp only [isKey_iff] at * <;>
        simp_all [textsCost, YYJ.texts, YYJ.fields, FieldValue.texts] <;> omega

theorem serializeEntries_cost (ssl : OpenSSL) {c c' : YYJ} {entries : Entries}
    (h : c.serializeEntries ssl entries = some c') :
    textsCost B c' ≤ textsCost B c + B.entriesCost entries := by
  induction entries generalizing c with
  | nil =>
      simp only [YYJ.serializeEntries, List.foldlM_nil, Option.pure_def,
        Option.some.injEq] at h
      simp [h]
  | cons e es ih =>
      obtain ⟨key, val⟩ := e
      simp only [YYJ.serializeEntries, List.foldlM_cons, Option.bind_eq_bind,
        Option.bind_eq_some_iff] at h
      obtain ⟨d, hd, hrest⟩ := h
      have hentry := serializeEntry_cost (B := B) ssl hd
      have hes := ih hrest
      simp only [Budget.entriesCost, Budget.entryCost]
      omega

end Entry

section Decode

theorem forall_ite_some {α : Type} {p : Prop} [Decidable p] {P : α → Prop} {a : α}
    {r : Option α} (ha : p → P a) (hr : ∀ x, r = some x → P x) :
    ∀ x, (if p then some a else r) = some x → P x := by
  intro x hx
  split at hx
  · rename_i hp
    rw [← Option.some.inj hx]
    exact ha hp
  · exact hr x hx

theorem lookforMap_texts (uninit : Uninit) (id : Int) :
    ∀ jobj, lookforMap uninit id = some jobj → ∀ s ∈ jobj.texts, s = [] := by
  unfold lookforMap
  iterate 15
    refine forall_ite_some (fun _ => by simp [YYJ.texts, YYJ.fields, FieldValue.texts]) ?_
  simp

theorem valueCost_objectGet_le (v : Json) (key : Bytes) :
    B.valueCost (objectGet v key) ≤ B.valueCost v := by
  have hnull : B.valueCost .null = 0 := by simp [Budget.valueCost]
  cases v with
  | object entries =>
      simp only [objectGet, Budget.valueCost]
      induction entries with
      | nil => simp [hnull]
      | cons e es ih =>
          obtain ⟨k, v⟩ := e
          simp only [List.find?_cons, Budget.entriesCost, Budget.entryCost]
          split
          · simp
          · omega
  | _ => simp [objectGet, hnull]

variable {B} (hnil : B.cost [] = 0)
include hnil

theorem serializeObject_cost {ssl : OpenSSL} {uninit : Uninit} {id : Int} {jobj c : YYJ}
    {obj : Json} (hjobj : lookforMap uninit id = some jobj)
    (h : jobj.serializeObject ssl obj = .ok (some c)) : textsCost B c ≤ B.valueCost obj := by
  have hfresh : textsCost B jobj = 0 := by
    rw [textsCost, List.sum_eq_zero]
    intro n hn
    obtain ⟨s, hs, rfl⟩ := List.mem_map.mp hn
    rw [lookforMap_texts uninit id jobj hjobj s hs, hnil]
  cases obj with
  | object entries =>
      simp only [YYJ.serializeObject, Except.ok.injEq] at h
      have hentries := serializeEntries_cost (B := B) ssl h
      simp only [Budget.valueCost]
      omega
  | _ => cases h

theorem parseBody_cost {env : Env} {jsize offset : Nat} {js : Bytes} {c : YYJ}
    (h : parseBody env jsize js = .success offset c) : textsCost B c ≤ B.textWeight js := by
  unfold parseBody decodeRoot at h
  split at h
  · exact nomatch h
  · rename_i root hroot
    have hparse := B.parse_cost js root hroot
    have hget := valueCost_objectGet_le B root (lit "obj")
    dsimp only at h
    split_ifs at h
    split at h
    · exact nomatch h
    · rename_i jobj hjobj
      split at h
      · exact nomatch h
      · exact nomatch h
      · rename_i jcmd hdecoded
        rw [ParseResult.success.injEq] at h
        have hcost := serializeObject_cost hnil hjobj hdecoded
        rw [← h.2]
        omega

end Decode

end MmsSvr
