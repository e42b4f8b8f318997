import Mathlib.Data.List.Basic

/-!
Parsers of a stream that comes in pieces: what they make of the part that is there, and a buffer
that keeps the part they have not used.
-/

namespace MmsSvr.Lib

/-- What a parser says of the part of a stream that has come. -/
inductive Parsed (ε α ρ : Type) where
  /-- There is too little of it. -/
  | more
  | bad (e : ε)
  | ok (r : ρ) (rest : List α)
deriving Repr

namespace Parsed

variable {ε α ρ τ : Type}

def bind : Parsed ε α ρ → (ρ → List α → Parsed ε α τ) → Parsed ε α τ
  | more, _ => more
  | bad e, _ => bad e
  | ok r rest, f => f r rest

def map (g : ρ → τ) (x : Parsed ε α ρ) : Parsed ε α τ := x.bind fun r rest => ok (g r) rest

@[simp]
theorem bind_more (f : ρ → List α → Parsed ε α τ) : (more : Parsed ε α ρ).bind f = more := rfl

@[simp]
theorem bind_bad (e : ε) (f : ρ → List α → Parsed ε α τ) :
    (bad e : Parsed ε α ρ).bind f = bad e := rfl

@[simp]
theorem bind_ok (r : ρ) (rest : List α) (f : ρ → List α → Parsed ε α τ) :
    (ok r rest : Parsed ε α ρ).bind f = f r rest := rfl

theorem bind_assoc {υ : Type} (x : Parsed ε α ρ) (f : ρ → List α → Parsed ε α τ)
    (g : τ → List α → Parsed ε α υ) : (x.bind f).bind g = x.bind fun r rest => (f r rest).bind g := by
  cases x with
  | more => rfl
  | bad e => rfl
  | ok r rest => rfl

theorem bind_eq_ok_iff {x : Parsed ε α ρ} {f : ρ → List α → Parsed ε α τ} {t : τ} {rest : List α} :
    x.bind f = ok t rest ↔ ∃ r rest', x = ok r rest' ∧ f r rest' = ok t rest := by
  cases x with
  | more => simp
  | bad e => simp
  | ok r rest' => simp

theorem map_eq_ok_iff {x : Parsed ε α ρ} {g : ρ → τ} {t : τ} {rest : List α} :
    x.map g = ok t rest ↔ ∃ r, x = ok r rest ∧ g r = t := by
  rw [map, bind_eq_ok_iff]
  constructor
  · rintro ⟨r, rest', hx, heq⟩
    rw [ok.injEq] at heq
    exact ⟨r, by rw [hx, heq.2], heq.1⟩
  · rintro ⟨r, hx, heq⟩
    exact ⟨r, rest, hx, by rw [heq]⟩

end Parsed

section Parser

variable {ε α ρ τ : Type}

/-- What comes later changes nothing of what has been read. -/
structure Stable (p : List α → Parsed ε α ρ) : Prop where
  ok : ∀ {b rest : List α} {r : ρ} (y : List α), p b = .ok r rest → p (b ++ y) = .ok r (rest ++ y)
  bad : ∀ {b : List α} {e : ε} (y : List α), p b = .bad e → p (b ++ y) = .bad e

/-- Reading uses up at least one element. -/
def Uses (p : List α → Parsed ε α ρ) : Prop :=
  ∀ {b rest : List α} {r : ρ}, p b = .ok r rest → rest.length < b.length

/-- `p` reads `r` off its encoding, whatever follows. -/
def Reads (p : List α → Parsed ε α ρ) (encoding : List α) (r : ρ) : Prop :=
  ∀ rest, p (encoding ++ rest) = .ok r rest

theorem stable_ok (r : ρ) : Stable fun b : List α => (.ok r b : Parsed ε α ρ) where
  ok y h := by
      rw [Parsed.ok.injEq] at h ⊢
      exact ⟨h.1, by rw [h.2]⟩
  bad _ h := nomatch h

theorem stable_bad (e : ε) : Stable fun _ : List α => (.bad e : Parsed ε α ρ) where
  ok _ h := nomatch h
  bad _ h := h

theorem Stable.bind {p : List α → Parsed ε α ρ} {f : ρ → List α → Parsed ε α τ} (hp : Stable p)
    (hf : ∀ r, Stable (f r)) : Stable fun b => (p b).bind f where
  ok {b rest t} y h := by
      obtain ⟨r, rest', hr, ht⟩ := Parsed.bind_eq_ok_iff.mp h
      rw [hp.ok y hr, Parsed.bind_ok]
      exact (hf r).ok y ht
  bad {b e} y h := by
      cases hpb : p b with
      | more =>
          rw [hpb] at h
          exact nomatch h
      | bad e' =>
          rw [hpb, Parsed.bind_bad] at h
          rw [hp.bad y hpb, Parsed.bind_bad]
          exact h
      | ok r rest =>
          rw [hpb, Parsed.bind_ok] at h
          rw [hp.ok y hpb, Parsed.bind_ok]
          exact (hf r).bad y h

theorem Stable.map {p : List α → Parsed ε α ρ} (hp : Stable p) (g : ρ → τ) :
    Stable fun b => (p b).map g :=
  hp.bind fun r => stable_ok (g r)

theorem Reads.bind {p : List α → Parsed ε α ρ} {f : ρ → List α → Parsed ε α τ} {a b : List α}
    {r : ρ} {t : τ} (hp : Reads p a r) (hf : Reads (f r) b t) :
    Reads (fun x => (p x).bind f) (a ++ b) t := by
  intro rest
  change (p (a ++ b ++ rest)).bind f = _
  rw [List.append_assoc, hp, Parsed.bind_ok, hf]

def many (p : List α → Parsed ε α ρ) : Nat → List α → Parsed ε α (List ρ)
  | 0, b => .ok [] b
  | n + 1, b => (p b).bind fun r rest => (many p n rest).map (r :: ·)

theorem Stable.many {p : List α → Parsed ε α ρ} (hp : Stable p) (n : Nat) : Stable (many p n) := by
  induction n with
  | zero => exact stable_ok []
  | succ n ih => exact hp.bind fun r => ih.map (r :: ·)

theorem Reads.many {p : List α → Parsed ε α ρ} {encode : ρ → List α} {rs : List ρ}
    (h : ∀ r ∈ rs, Reads p (encode r) r) : Reads (many p rs.length) (rs.flatMap encode) rs := by
  induction rs with
  | nil => exact fun rest => rfl
  | cons r rs ih =>
      rw [List.forall_mem_cons] at h
      intro rest
      rw [List.flatMap_cons, List.append_assoc, List.length_cons, Lib.many, h.1, Parsed.bind_ok,
        ih h.2]
      rfl

theorem length_le_of_many {p : List α → Parsed ε α ρ} (hp : Uses p) {n : Nat} {b rest : List α}
    {rs : List ρ} (h : many p n b = .ok rs rest) : rest.length ≤ b.length := by
  induction n generalizing b rs with
  | zero =>
      rw [many, Parsed.ok.injEq] at h
      exact Nat.le_of_eq (congrArg List.length h.2.symm)
  | succ n ih =>
      obtain ⟨r, rest', hr, hrs⟩ := Parsed.bind_eq_ok_iff.mp h
      obtain ⟨rs', hrs', -⟩ := Parsed.map_eq_ok_iff.mp hrs
      have hlt := hp hr
      have hle := ih hrs'
      omega

end Parser

section Items

variable {ε α ρ : Type}

/-- All that can be read off a stream one after the other, and why no more: what is left is too
little, or wrong. -/
def items (p : List α → Parsed ε α ρ) (b : List α) : List ρ × Except ε (List α) :=
  match p b with
  | .more => ([], .ok b)
  | .bad e => ([], .error e)
  | .ok r rest =>
      if rest.length < b.length then (r :: (items p rest).1, (items p rest).2) else ([r], .ok rest)
termination_by b.length

def endError : Except ε (List α) → Option ε
  | .ok _ => none
  | .error e => some e

variable {p : List α → Parsed ε α ρ} {b rest : List α}

theorem items_of_more (h : p b = .more) : items p b = ([], .ok b) := by
  rw [items, h]

theorem items_of_bad {e : ε} (h : p b = .bad e) : items p b = ([], .error e) := by
  rw [items, h]

theorem items_of_ok (hp : Uses p) {r : ρ} (h : p b = .ok r rest) :
    items p b = (r :: (items p rest).1, (items p rest).2) := by
  rw [items, h]
  exact if_pos (hp h)

theorem items_flatMap {encode : ρ → List α} (hp : Uses p) {rs : List ρ}
    (h : ∀ r ∈ rs, Reads p (encode r) r) (tail : List α) :
    items p (rs.flatMap encode ++ tail) = (rs ++ (items p tail).1, (items p tail).2) := by
  induction rs with
  | nil => rfl
  | cons r rs ih =>
      rw [List.forall_mem_cons] at h
      rw [List.flatMap_cons, List.append_assoc, items_of_ok hp (h.1 _), ih h.2]
      rfl

theorem items_append (hstable : Stable p) (hp : Uses p) (b y : List α) :
    items p (b ++ y) =
      match (items p b).2 with
      | .ok rest => ((items p b).1 ++ (items p (rest ++ y)).1, (items p (rest ++ y)).2)
      | .error e => ((items p b).1, .error e) := by
  obtain ⟨n, hn⟩ : ∃ n, b.length ≤ n := ⟨_, Nat.le_refl _⟩
  induction n generalizing b with
  | zero =>
      obtain rfl := List.eq_nil_of_length_eq_zero (Nat.le_zero.mp hn)
      cases hnil : p [] with
      | more =>
          rw [items_of_more hnil]
          rfl
      | bad e =>
          rw [items_of_bad hnil, items_of_bad (hstable.bad y hnil)]
      | ok r rest => exact absurd (hp hnil) (Nat.not_lt_zero _)
  | succ n ih =>
      cases hb : p b with
      | more =>
          rw [items_of_more hb]
          rfl
      | bad e =>
          rw [items_of_bad hb, items_of_bad (hstable.bad y hb)]
      | ok r rest =>
          have hlt := hp hb
          rw [items_of_ok hp hb, items_of_ok hp (hstable.ok y hb), ih rest (by omega)]
          cases (items p rest).2 with
          | ok last => rfl
          | error e => rfl

theorem items_rest (hstable : Stable p) (hp : Uses p) {rs : List ρ}
    (h : items p b = (rs, .ok rest)) : items p rest = ([], .ok rest) := by
  have hsplit := items_append hstable hp b []
  rw [List.append_nil, h] at hsplit
  change (rs, .ok rest) = (rs ++ (items p (rest ++ [])).1, (items p (rest ++ [])).2) at hsplit
  rw [List.append_nil] at hsplit
  obtain ⟨hrs, hlast⟩ := Prod.mk.inj hsplit
  exact Prod.ext (List.self_eq_append_right.mp hrs) hlast.symm

/-- What can be read off the beginning of a stream of encodings are the first of them. -/
theorem items_of_begin {encode : ρ → List α} (hstable : Stable p) (hp : Uses p) (hnil : p [] = .more)
    {rs : List ρ} (h : ∀ r ∈ rs, Reads p (encode r) r) {b y : List α}
    (hb : b ++ y = rs.flatMap encode) :
    ∃ k rest, items p b = (rs.take k, .ok rest) ∧ k ≤ rs.length ∧ (y = [] → k = rs.length) := by
  have hall := items_flatMap hp h []
  rw [items_of_more hnil, List.append_nil, List.append_nil, ← hb] at hall
  cases hlast : (items p b).2 with
  | error e =>
      rw [items_append hstable hp, hlast] at hall
      exact nomatch hall
  | ok rest =>
      have hsplit := items_append hstable hp b y
      rw [hlast, hall] at hsplit
      obtain ⟨hrs, -⟩ := Prod.mk.inj hsplit
      refine ⟨(items p b).1.length, rest, ?_, ?_, ?_⟩
      · rw [hrs, List.take_left, ← hlast]
      · rw [hrs, List.length_append]
        exact Nat.le_add_right _ _
      · rintro rfl
        rw [List.append_nil] at hall
        rw [hall]

end Items

section Buffered

variable {ε α ρ : Type}

/-- A reader with a buffer: what has come and is not used, what it has read, and the error that
has ended it. -/
structure Buffered (ε α ρ : Type) where
  pending : List α
  out : List ρ
  failed : Option ε
deriving DecidableEq, Repr

inductive BufferedAction (α : Type) where
  | feed (piece : List α)
  /-- Try to read once. -/
  | get
deriving DecidableEq, Repr

namespace Buffered

variable (p : List α → Parsed ε α ρ)

def init : Buffered ε α ρ := ⟨[], [], none⟩

def step (s : Buffered ε α ρ) (a : BufferedAction α) : Buffered ε α ρ :=
  match s.failed, a with
  | some _, _ => s
  | none, .feed piece => { s with pending := s.pending ++ piece }
  | none, .get =>
      match p s.pending with
      | .more => s
      | .bad e => { s with failed := some e }
      | .ok r rest => { s with pending := rest, out := s.out ++ [r] }

def tries : Nat → List (BufferedAction α)
  | 0 => []
  | n + 1 => .get :: tries n

def fed : List (BufferedAction α) → List α :=
  List.flatMap fun
    | .feed piece => piece
    | .get => []

/-- What the reader would come to with these elements behind its buffer. -/
def future (s : Buffered ε α ρ) (y : List α) : List ρ × Except ε (List α) :=
  match s.failed with
  | some e => (s.out, .error e)
  | none => (s.out ++ (items p (s.pending ++ y)).1, (items p (s.pending ++ y)).2)

variable {p}

theorem future_feed (s : Buffered ε α ρ) (piece y : List α) :
    (s.step p (.feed piece)).future p y = s.future p (piece ++ y) := by
  obtain ⟨pending, out, failed⟩ := s
  cases failed with
  | some e => rfl
  | none =>
      change (out ++ (items p (pending ++ piece ++ y)).1, (items p (pending ++ piece ++ y)).2) = _
      rw [List.append_assoc]
      rfl

theorem step_get_of_ok {s : Buffered ε α ρ} (hs : s.failed = none) {r : ρ} {rest : List α}
    (h : p s.pending = .ok r rest) :
    s.step p .get = { s with pending := rest, out := s.out ++ [r] } := by
  simp [step, hs, h]

theorem step_get_of_bad {s : Buffered ε α ρ} (hs : s.failed = none) {e : ε}
    (h : p s.pending = .bad e) : s.step p .get = { s with failed := some e } := by
  simp [step, hs, h]

theorem step_get_of_more {s : Buffered ε α ρ} (hs : s.failed = none) (h : p s.pending = .more) :
    s.step p .get = s := by
  simp [step, hs, h]

theorem future_get (hp : Stable p) (huses : Uses p) (s : Buffered ε α ρ) (y : List α) :
    (s.step p .get).future p y = s.future p y := by
  cases hfailed : s.failed with
  | some e => simp [step, hfailed]
  | none =>
      cases hpending : p s.pending with
      | more => rw [step_get_of_more hfailed hpending]
      | bad e =>
          have hitems := items_of_bad (hp.bad y hpending)
          rw [step_get_of_bad hfailed hpending]
          simp [future, hfailed, hitems]
      | ok r rest =>
          have hitems := items_of_ok huses (hp.ok y hpending)
          rw [step_get_of_ok hfailed hpending]
          simp [future, hfailed, hitems]

theorem future_run (hp : Stable p) (huses : Uses p) (as : List (BufferedAction α))
    (s : Buffered ε α ρ) (y : List α) :
    (as.foldl (step p) s).future p y = s.future p (fed as ++ y) := by
  induction as generalizing s with
  | nil => rfl
  | cons a as ih =>
      rw [List.foldl_cons, ih]
      cases a with
      | feed piece =>
          rw [future_feed]
          congr 1
          exact (List.append_assoc piece (fed as) y).symm
      | get => exact future_get hp huses s (fed as ++ y)

theorem foldl_of_failed (as : List (BufferedAction α)) {s : Buffered ε α ρ} {e : ε}
    (hs : s.failed = some e) : as.foldl (step p) s = s := by
  induction as with
  | nil => rfl
  | cons a as ih =>
      have hstep : s.step p a = s := by simp [step, hs]
      rw [List.foldl_cons, hstep, ih]

theorem run_gets (huses : Uses p) (n : Nat) (s : Buffered ε α ρ) (hs : s.failed = none)
    (hn : (items p s.pending).1.length < n) :
    ((tries n).foldl (step p) s).out = s.out ++ (items p s.pending).1 ∧
      ((tries n).foldl (step p) s).failed =
        endError (items p s.pending).2 := by
  induction n generalizing s with
  | zero => exact absurd hn (Nat.not_lt_zero _)
  | succ n ih =>
      rw [tries, List.foldl_cons]
      cases hpending : p s.pending with
      | more =>
          have hstay : (tries n).foldl (step p) s = s := by
            clear hn ih
            induction n with
            | zero => rfl
            | succ n ih =>
                rw [tries, List.foldl_cons, step_get_of_more hs hpending, ih]
          rw [step_get_of_more hs hpending, hstay, items_of_more hpending, List.append_nil]
          exact ⟨rfl, hs⟩
      | bad e =>
          rw [step_get_of_bad hs hpending, foldl_of_failed _ rfl, items_of_bad hpending,
            List.append_nil]
          exact ⟨rfl, rfl⟩
      | ok r rest =>
          rw [step_get_of_ok hs hpending]
          rw [items_of_ok huses hpending] at hn ⊢
          have hih := ih { s with pending := rest, out := s.out ++ [r] } hs (Nat.lt_of_succ_lt_succ hn)
          rw [hih.1, hih.2, List.append_assoc]
          exact ⟨rfl, rfl⟩

theorem fed_append (as bs : List (BufferedAction α)) : fed (as ++ bs) = fed as ++ fed bs :=
  List.flatMap_append

theorem fed_tries (n : Nat) : fed (tries n : List (BufferedAction α)) = [] := by
  induction n with
  | zero => rfl
  | succ n ih => exact ih

/-- However feeding and reading are mixed: when it has been tried often enough, all that is in the
stream has come out, and the error that is in it has come. -/
theorem run_all (hp : Stable p) (huses : Uses p) (as : List (BufferedAction α)) {n : Nat}
    (hn : (items p (fed as)).1.length < n) :
    ((as ++ tries n).foldl (step p) init).out = (items p (fed as)).1 ∧
      ((as ++ tries n).foldl (step p) init).failed =
        endError (items p (fed as)).2 := by
  have hfuture : (as.foldl (step p) init).future p [] =
      ((items p (fed as)).1, (items p (fed as)).2) := by
    have hrun := future_run hp huses as init []
    rw [List.append_nil] at hrun
    exact hrun
  rw [List.foldl_append]
  cases hfailed : (as.foldl (step p) init).failed with
  | some e =>
      rw [future, hfailed, Prod.mk.injEq] at hfuture
      rw [foldl_of_failed _ hfailed, ← hfuture.2]
      exact ⟨hfuture.1, hfailed⟩
  | none =>
      rw [future, hfailed, List.append_nil, Prod.mk.injEq] at hfuture
      obtain ⟨hout, hend⟩ := hfuture
      have hlt : (items p (as.foldl (step p) init).pending).1.length < n := by
        have hlen := congrArg List.length hout
        rw [List.length_append] at hlen
        omega
      have hgets := run_gets huses n _ hfailed hlt
      rw [hgets.1, hgets.2, hout, hend]
      exact ⟨rfl, rfl⟩

end Buffered

end Buffered

end MmsSvr.Lib
