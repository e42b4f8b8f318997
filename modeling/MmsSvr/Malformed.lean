import MmsSvr.Parsing

/-!
Frames that end a call of `ParseCmd` in another way than with one of its codes.
-/

namespace MmsSvr

open JsonC YYmmsJson

section Body

/-- `root` has members that can be looked up, and where a command of a known class is
filled from `obj`, it is filled from an object. -/
def WellTyped (root : Json) : Prop :=
  root.type ≠ .null ∧
    (Registered root → (objectGet root (lit "obj")).type = .null ∨
      (objectGet root (lit "obj")).type = .object)

variable {env : Env} {jsize : Nat} {js : Bytes} {root : Json}

theorem parseBody_of_not_wellTyped (env : Env) (jsize : Nat) (hparse : Tokener.parse js = .ok root)
    (h : ¬ WellTyped root) : ∃ f, parseBody env jsize js = .fault f := by
  have hdecoded := decoded env jsize js
  revert hdecoded
  generalize parseBody env jsize js = r
  intro hdecoded
  have hroot : ∀ root', Tokener.parse js = .ok root' → root' = root := by
    intro root' hroot'
    rw [hparse, Except.ok.injEq] at hroot'
    exact hroot'.symm
  cases hdecoded with
  | notJson err herr => simp [hparse] at herr
  | null => exact ⟨_, rfl⟩
  | notObject => exact ⟨_, rfl⟩
  | missing root' hparse' hnull hmember =>
      rw [hroot root' hparse'] at hnull hmember
      refine absurd ⟨hnull, ?_⟩ h
      intro hregistered
      rcases hmember with hcmd | hobj
      · exact absurd hregistered.1 hcmd
      · exact Or.inl hobj
  | unknown root' hparse' hnull hid =>
      rw [hroot root' hparse'] at hnull hid
      exact absurd ⟨hnull, fun hregistered => absurd hregistered hid⟩ h
  | refused root' entries hparse' hnull hobj =>
      rw [hroot root' hparse'] at hnull hobj
      exact absurd ⟨hnull, fun _ => Or.inr (type_eq_object_iff.mpr ⟨entries, hobj⟩)⟩ h
  | accepted root' jobj entries jcmd hparse' hcmd hid hobj hfields =>
      rw [hroot root' hparse'] at hcmd hobj
      refine absurd ⟨?_, fun _ => Or.inr (type_eq_object_iff.mpr ⟨entries, hobj⟩)⟩ h
      intro hnull
      cases root with
      | null => simp [objectGet, Json.type] at hcmd
      | _ => simp [Json.type] at hnull

theorem wellTyped_of_fault {f : Fault} (hparse : Tokener.parse js = .ok root)
    (h : parseBody env jsize js = .fault f) : ¬ WellTyped root := by
  have hdecoded := decoded env jsize js
  rw [h] at hdecoded
  rintro ⟨hnull, hobj⟩
  cases hdecoded with
  | null hparse' =>
      rw [hparse, Except.ok.injEq] at hparse'
      rw [hparse'] at hnull
      exact hnull rfl
  | notObject root' hparse' hroot hid hnull' hobj' =>
      rw [hparse, Except.ok.injEq] at hparse'
      rw [← hparse'] at hid hnull' hobj'
      rcases hobj hid with hnone | hobject
      · exact hnull' hnone
      · exact hobj' hobject

theorem parseBody_fault_iff :
    (∃ f, parseBody env jsize js = .fault f) ↔
      ∃ root, Tokener.parse js = .ok root ∧ ¬ WellTyped root := by
  constructor
  · rintro ⟨f, hf⟩
    have hdecoded := decoded env jsize js
    rw [hf] at hdecoded
    cases hdecoded with
    | null hparse => exact ⟨_, hparse, wellTyped_of_fault hparse hf⟩
    | notObject root hparse => exact ⟨root, hparse, wellTyped_of_fault hparse hf⟩
  · rintro ⟨root, hparse, hroot⟩
    exact parseBody_of_not_wellTyped env jsize hparse hroot

end Body

section Inside

/-- What `ParseCmd` takes of a buffer, piece by piece: where a piece starts, and how many
bytes it has. -/
def takes (platform : Platform) (cmd : Bytes) : List (Int × Int) :=
  if cmd.length < 3 then []
  else
    (0, 1) ::
      if cmd.head? ≠ some preChar then []
      else
        (1, 2) ::
          match header platform cmd with
          | .slice jsize => [(3, jsize - 3)]
          | _ => []

def StaysInside (platform : Platform) (cmd : Bytes) : Prop :=
  ∀ piece ∈ takes platform cmd, 0 ≤ piece.1 ∧ 0 ≤ piece.2 ∧ piece.1 + piece.2 ≤ cmd.length

variable {env : Env} {cmd : Bytes} {jsize : Int}

theorem staysInside_of_slice {platform : Platform} (h : header platform cmd = .slice jsize) :
    StaysInside platform cmd ↔ 3 ≤ jsize := by
  obtain ⟨hesc, hfield, hle⟩ := header_slice_iff.mp h
  have hlen : ¬ cmd.length < 3 := by
    match cmd with
    | [] => simp [lengthField] at hfield
    | [_] => simp [lengthField] at hfield
    | [_, _] => simp [lengthField] at hfield
    | _ :: _ :: _ :: _ => simp
  simp only [StaysInside, takes, if_neg hlen, hesc, h, ne_eq, not_true_eq_false, if_false,
    List.forall_mem_cons, List.not_mem_nil, false_implies, implies_true, and_true]
  omega

theorem staysInside_of_ne {platform : Platform}
    (h : ∀ jsize, header platform cmd ≠ .slice jsize) : StaysInside platform cmd := by
  intro piece hpiece
  unfold takes at hpiece
  split at hpiece
  · simp at hpiece
  · rename_i hlen
    have hpieces : piece = (0, 1) ∨ piece = (1, 2) := by
      split at hpiece
      · exact Or.inl (by simpa using hpiece)
      · split at hpiece
        · rename_i jsize hslice
          exact absurd hslice (h jsize)
        · simpa using hpiece
    rcases hpieces with rfl | rfl <;> dsimp only <;> omega

/-- A call takes bytes of its buffer only and returns one of the codes exactly when the
length field it goes by is at least three and the text is not ill typed. -/
theorem parseCmd_inside_iff (env : Env) (cmd : Bytes) :
    (StaysInside env.platform cmd ∧ ∀ f, parseCmd env cmd ≠ .fault f) ↔
      ∀ jsize, header env.platform cmd = .slice jsize →
        3 ≤ jsize ∧ ∀ root, Tokener.parse (frameText jsize cmd) = .ok root → WellTyped root := by
  constructor
  · rintro ⟨hinside, hreturns⟩ jsize hslice
    have hmin := (staysInside_of_slice hslice).mp hinside
    refine ⟨hmin, ?_⟩
    intro root hparse
    by_contra hroot
    obtain ⟨f, hf⟩ :=
      parseBody_of_not_wellTyped env jsize.toNat hparse hroot
    refine hreturns f ?_
    rw [parseCmd_eq, hslice]
    dsimp only
    rw [if_neg (by omega), hf]
  · intro h
    cases hheader : header env.platform cmd with
    | slice jsize =>
        obtain ⟨hmin, htyped⟩ := h jsize hheader
        refine ⟨(staysInside_of_slice hheader).mpr hmin, ?_⟩
        intro f hf
        rw [parseCmd_eq, hheader] at hf
        dsimp only at hf
        rw [if_neg (by omega)] at hf
        obtain ⟨root, hparse, hroot⟩ := parseBody_fault_iff.mp ⟨f, hf⟩
        exact hroot (htyped root hparse)
    | bufsize =>
        refine ⟨staysInside_of_ne (by simp [hheader]), ?_⟩
        simp [parseCmd_eq, hheader]
    | esc =>
        refine ⟨staysInside_of_ne (by simp [hheader]), ?_⟩
        simp [parseCmd_eq, hheader]

/-- Three bytes with the length field two. -/
theorem parseCmd_short_length_throws :
    parseCmd default [preChar, 2, 0] = .fault .lengthError ∧
      ¬ StaysInside (default : Env).platform [preChar, 2, 0] := by
  have hslice : header (default : Env).platform [preChar, 2, 0] = .slice 2 := by decide +kernel
  refine ⟨by decide +kernel, ?_⟩
  rw [staysInside_of_slice hslice]
  decide

end Inside

section IllTyped

/-- The value that `json_object_object_foreach` goes over, when `Serialize` is reached. -/
def foreachOver (root : Json) : Option Json :=
  if root.type ≠ .null ∧ Registered root ∧ (objectGet root (lit "obj")).type ≠ .null then
    some (objectGet root (lit "obj"))
  else none

/-- The value carried in a well-framed payload is rejected, or its `obj` is an object that
the command is filled from, exactly when it is well typed. -/
theorem ill_typed_rejected_iff (env : Env) (cmd : Bytes) (jsize : Int) (root : Json)
    (hheader : header env.platform cmd = .slice jsize) (hmin : 3 ≤ jsize)
    (hparse : Tokener.parse (frameText jsize cmd) = .ok root) :
    (((∃ offset jcmd, parseCmd env cmd = .success offset jcmd ∧
          (objectGet root (lit "obj")).type = .object) ∨
        ∃ err, parseCmd env cmd = .error err) ∧
      ∀ obj, foreachOver root = some obj → obj.type = .object) ↔ WellTyped root := by
  have hcmd : parseCmd env cmd = parseBody env jsize.toNat (frameText jsize cmd) := by
    rw [parseCmd_eq, hheader]
    dsimp only
    rw [if_neg (by omega)]
  rw [hcmd]
  constructor
  · rintro ⟨hreturns, -⟩
    by_contra hroot
    obtain ⟨f, hf⟩ :=
      parseBody_of_not_wellTyped env jsize.toNat hparse hroot
    simp [hf] at hreturns
  · intro hroot
    constructor
    · cases hbody : parseBody env jsize.toNat (frameText jsize cmd) with
      | fault f => exact absurd hroot (wellTyped_of_fault hparse hbody)
      | error err => exact Or.inr ⟨err, rfl⟩
      | success offset jcmd =>
          have hdecoded := decoded env jsize.toNat (frameText jsize cmd)
          rw [hbody] at hdecoded
          cases hdecoded with
          | accepted root' jobj entries jcmd hparse' hcmd' hid hobj hfields =>
              rw [hparse, Except.ok.injEq] at hparse'
              rw [← hparse'] at hobj
              exact Or.inl ⟨_, _, rfl, type_eq_object_iff.mpr ⟨entries, hobj⟩⟩
    · intro obj hobj
      simp only [foreachOver, Option.ite_none_right_eq_some, Option.some.injEq] at hobj
      obtain ⟨⟨-, hregistered, hnull⟩, rfl⟩ := hobj
      rcases hroot.2 hregistered with hnone | hobject
      · exact absurd hnone hnull
      · exact hobject

/-- An empty array is rejected. -/
theorem ill_typed_rejected_array :
    (∃ err, parseCmd default (preChar :: wordBytes 5 ++ lit "[]") = .error err) ∧
      foreachOver (.array []) = none := by
  have hroot : WellTyped (.array []) := by
    refine ⟨by simp [Json.type], ?_⟩
    rintro ⟨hcmd, -⟩
    simp [objectGet, Json.type] at hcmd
  obtain ⟨hreturns, hforeach⟩ := (ill_typed_rejected_iff default
    (preChar :: wordBytes 5 ++ lit "[]") 5 (.array []) (by decide +kernel) (by decide)
    rfl).mpr hroot
  constructor
  · rcases hreturns with ⟨offset, jcmd, -, hobj⟩ | herror
    · simp [objectGet, Json.type] at hobj
    · exact herror
  · cases hobj : foreachOver (.array []) with
    | none => rfl
    | some obj => simp [foreachOver, objectGet, Json.type] at hobj

def illTypedLogout : Bytes :=
  preChar :: wordBytes 23 ++ lit "\x7b\"cmd\":1015,\"obj\":5\x7d"

theorem ill_typed_dereferenced :
    ∃ root, header (default : Env).platform illTypedLogout = .slice 23 ∧
      Tokener.parse (frameText 23 illTypedLogout) = .ok root ∧
      foreachOver root = some (.int 5) ∧
      parseCmd default illTypedLogout = .fault .nullDereference := by
  refine ⟨.object [(lit "cmd", .int 1015), (lit "obj", .int 5)], by decide +kernel, ?_, ?_,
    by decide +kernel⟩
  · rfl
  · have hregistered : Registered (.object [(lit "cmd", .int 1015), (lit "obj", .int 5)]) := by
      decide +kernel
    have hobj : objectGet (.object [(lit "cmd", .int 1015), (lit "obj", .int 5)]) (lit "obj") =
        .int 5 := rfl
    rw [foreachOver, if_pos ⟨by simp [Json.type], hregistered, by simp [hobj, Json.type]⟩, hobj]

end IllTyped

end MmsSvr
