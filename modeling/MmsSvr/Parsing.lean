import MmsSvr.DecodeBudget

/-!
`ParseCmd` on bytes that no `FormatCmd` has produced: what it reads of them, how it can
end, and what more bytes behind them change.
-/

namespace MmsSvr

open JsonC YYmmsJson

section Header

/-- How the checks of the first three bytes end: with an error, or with `js` about to be
cut out of a frame of `jsize` bytes. -/
inductive Header where
  | bufsize
  | esc
  | slice (jsize : Int)
deriving DecidableEq, Repr

def header (platform : Platform) (cmd : Bytes) : Header :=
  match cmd with
  | esc :: lo :: hi :: _ =>
      if esc ≠ preChar then .esc
      else if (cmd.length : Int) < readWord platform lo hi then .bufsize
      else .slice (readWord platform lo hi)
  | _ => .bufsize

/-- `js`, when it can be cut out. -/
def frameText (jsize : Int) (cmd : Bytes) : Bytes := (cmd.drop 3).take (jsize.toNat - 3)

variable {env : Env} {cmd : Bytes} {jsize : Int}

theorem parseCmd_eq (env : Env) (cmd : Bytes) :
    parseCmd env cmd =
      match header env.platform cmd with
      | .bufsize => .error .bufsize
      | .esc => .error .esc
      | .slice jsize =>
          if jsize < 3 then .fault .lengthError
          else parseBody env jsize.toNat (frameText jsize cmd) := by
  match cmd with
  | [] => rfl
  | [_] => rfl
  | [_, _] => rfl
  | esc :: lo :: hi :: rest =>
      simp only [parseCmd, header]
      split_ifs <;> simp_all [frameText]

theorem header_slice_iff {platform : Platform} :
    header platform cmd = .slice jsize ↔
      cmd.head? = some preChar ∧ lengthField platform cmd = some jsize ∧ jsize ≤ cmd.length := by
  match cmd with
  | [] => simp [header]
  | [_] => simp [header, lengthField]
  | [_, _] => simp [header, lengthField]
  | esc :: lo :: hi :: rest =>
      simp only [header, lengthField, List.head?_cons, Option.some.injEq]
      split_ifs with hesc hsize
      · simp [hesc]
      · simp only [false_iff, not_and]
        rintro - rfl
        omega
      · rw [Header.slice.injEq]
        constructor
        · rintro rfl
          exact ⟨not_not.mp hesc, rfl, by omega⟩
        · rintro ⟨-, rfl, -⟩
          rfl

end Header

section Body

/-- The value of `id` that `ParseCmd` looks up, if it gets that far and knows it. -/
def Registered (root : Json) : Prop :=
  (objectGet root (lit "cmd")).type = .int ∧
    (lookforMap default (objectGetInt (objectGet root (lit "cmd")))).isSome = true

instance (root : Json) : Decidable (Registered root) := by
  unfold Registered
  infer_instance

/-- The ways in which what json-c has read from a frame can be taken. -/
inductive Decoded (env : Env) (jsize : Nat) (parsed : Except TokenerError Json) :
    ParseResult → Prop where
  | notJson (err : TokenerError) (hparse : parsed = .error err) :
      Decoded env jsize parsed (.error .json)
  | null (hparse : parsed = .ok .null) : Decoded env jsize parsed (.fault .wildPointer)
  | missing (root : Json) (hparse : parsed = .ok root) (hroot : root.type ≠ .null)
      (hmember : (objectGet root (lit "cmd")).type ≠ .int ∨
        (objectGet root (lit "obj")).type = .null) :
      Decoded env jsize parsed (.error .json)
  | unknown (root : Json) (hparse : parsed = .ok root) (hroot : root.type ≠ .null)
      (hid : ¬ Registered root) : Decoded env jsize parsed (.error .unknowed)
  | notObject (root : Json) (hparse : parsed = .ok root) (hroot : root.type ≠ .null)
      (hid : Registered root) (hnull : (objectGet root (lit "obj")).type ≠ .null)
      (hobj : (objectGet root (lit "obj")).type ≠ .object) :
      Decoded env jsize parsed (.fault .nullDereference)
  | refused (root : Json) (entries : Entries) (hparse : parsed = .ok root)
      (hroot : root.type ≠ .null) (hobj : objectGet root (lit "obj") = .object entries) :
      Decoded env jsize parsed (.error .unknowed)
  | accepted (root : Json) (jobj : YYJ) (entries : Entries) (jcmd : YYJ)
      (hparse : parsed = .ok root)
      (hcmd : (objectGet root (lit "cmd")).type = .int)
      (hid : lookforMap env.uninit (objectGetInt (objectGet root (lit "cmd"))) = some jobj)
      (hobj : objectGet root (lit "obj") = .object entries)
      (hfields : jobj.serializeEntries env.ssl entries = some jcmd) :
      Decoded env jsize parsed (.success jsize jcmd)

theorem isSome_ite_congr {α : Type} {p : Prop} [Decidable p] {a b : α} {r s : Option α}
    (h : r.isSome = s.isSome) :
    (if p then some a else r).isSome = (if p then some b else s).isSome := by
  split
  · rfl
  · exact h

theorem lookforMap_isSome (uninit uninit' : Uninit) (id : Int) :
    (lookforMap uninit id).isSome = (lookforMap uninit' id).isSome := by
  unfold lookforMap
  iterate 15 apply isSome_ite_congr
  rfl

theorem type_eq_object_iff {v : Json} : v.type = .object ↔ ∃ entries, v = .object entries := by
  cases v <;> simp [Json.type]

theorem type_eq_int_iff {v : Json} : v.type = .int ↔ ∃ i, v = .int i := by
  cases v <;> simp [Json.type]

theorem decodedRoot (env : Env) (jsize : Nat) (parsed : Except TokenerError Json) :
    Decoded env jsize parsed (decodeRoot env jsize parsed) := by
  cases parsed with
  | error err => exact .notJson err rfl
  | ok root =>
      simp only [decodeRoot]
      split_ifs with hroot hmember
      · cases root with
        | null => exact .null rfl
        | _ => simp [Json.type] at hroot
      · refine .missing root rfl hroot ?_
        rcases hmember with hcmd | hobj | hcmd
        · exact Or.inl (by simp [hcmd])
        · exact Or.inr hobj
        · exact Or.inl hcmd
      · simp only [not_or, not_not] at hmember
        obtain ⟨-, hnull, hcmd⟩ := hmember
        split
        · rename_i hid
          refine .unknown root rfl hroot ?_
          rintro ⟨-, hsome⟩
          rw [lookforMap_isSome default env.uninit, hid] at hsome
          simp at hsome
        · rename_i jobj hid
          have hregistered : Registered root := by
            refine ⟨hcmd, ?_⟩
            rw [lookforMap_isSome default env.uninit, hid]
            rfl
          cases hobj : objectGet root (lit "obj") with
          | object entries =>
              simp only [YYJ.serializeObject]
              cases hfields : jobj.serializeEntries env.ssl entries with
              | none => exact .refused root entries rfl hroot hobj
              | some jcmd => exact .accepted root jobj entries jcmd rfl hcmd hid hobj hfields
          | _ => exact .notObject root rfl hroot hregistered hnull (by simp [hobj, Json.type])

theorem decoded (env : Env) (jsize : Nat) (js : Bytes) :
    Decoded env jsize (Tokener.parse js) (parseBody env jsize js) :=
  decodedRoot env jsize (Tokener.parse js)

end Body

section Ids

theorem lookforMap_id (uninit : Uninit) (id : Int) :
    ∀ jobj, lookforMap uninit id = some jobj → jobj.id = id := by
  unfold lookforMap
  iterate 15 refine forall_ite_some (fun hid => hid.symm) ?_
  simp

theorem serializeEntry_id {ssl : OpenSSL} {c c' : YYJ} {key : Bytes} {val : Json}
    (h : c.serializeEntry ssl key val = some c') : c'.id = c.id := by
  cases c with
  | login c =>
      obtain ⟨d, -, rfl⟩ := Option.map_eq_some_iff.mp h
      rfl
  | loginRes c =>
      obtain ⟨d, -, rfl⟩ := Option.map_eq_some_iff.mp h
      rfl
  | _ =>
      rw [YYJ.serializeEntry, Option.some.injEq] at h
      rw [← h]
      rfl

theorem serializeEntries_id {ssl : OpenSSL} {c c' : YYJ} {entries : Entries}
    (h : c.serializeEntries ssl entries = some c') : c'.id = c.id := by
  induction entries generalizing c with
  | nil =>
      simp only [YYJ.serializeEntries, List.foldlM_nil, Option.pure_def, Option.some.injEq] at h
      rw [h]
  | cons e es ih =>
      simp only [YYJ.serializeEntries, List.foldlM_cons, Option.bind_eq_bind,
        Option.bind_eq_some_iff] at h
      obtain ⟨d, hd, hrest⟩ := h
      rw [ih hrest, serializeEntry_id hd]

theorem eq_id_of_objectGetInt {c : YYJ} {i : Int} (h : objectGetInt (.int i) = c.id) :
    i = c.id := by
  have hrange : 0 < c.id ∧ c.id < 4000 := by
    cases c <;> simp [YYJ.id]
  rw [objectGetInt] at h
  omega

end Ids

section Append

variable {env : Env} {b cmd : Bytes} {jsize : Int}

theorem length_of_slice {platform : Platform} (h : header platform b = .slice jsize) :
    jsize ≤ b.length := (header_slice_iff.mp h).2.2

theorem frameText_append (h : jsize ≤ b.length) (t : Bytes) :
    frameText jsize (b ++ t) = frameText jsize b := by
  rw [frameText, frameText]
  by_cases hlen : b.length < 3
  · have hzero : jsize.toNat - 3 = 0 := by omega
    rw [hzero, List.take_zero, List.take_zero]
  · rw [List.drop_append_of_le_length (by omega), List.take_append_of_le_length]
    rw [List.length_drop]
    omega

theorem header_append {platform : Platform} (h : header platform b ≠ .bufsize) (t : Bytes) :
    header platform (b ++ t) = header platform b := by
  match b with
  | [] => exact absurd rfl h
  | [_] => exact absurd rfl h
  | [_, _] => exact absurd rfl h
  | esc :: lo :: hi :: rest =>
      simp only [header, List.cons_append, List.length_cons, List.length_append] at h ⊢
      by_cases hesc : esc ≠ preChar
      · rw [if_pos hesc, if_pos hesc]
      · rw [if_neg hesc] at h ⊢
        rw [if_neg hesc]
        have hsize : ¬ ((rest.length + 1 + 1 + 1 : Nat) : Int) < readWord platform lo hi := by
          intro hlt
          rw [if_pos hlt] at h
          exact h rfl
        rw [if_neg hsize, if_neg (by omega)]

end Append

end MmsSvr
