import MmsSvr.StaleSession
import MmsSvr.Transparency

/-!
The server whose workers each have an `errno`.

json-c never resets it, so that a number out of range in one frame changes what the worker
makes of all later ones, those of other clients included.  As long as no turn leaves
`errno` at ERANGE, the runs are those of the server without it.
-/

namespace MmsSvr

open YYSSL YYmmsJson
open Lib

section Turns

/-- `NextRun` in a thread whose `errno` is ERANGE or not, and whether it is afterwards. -/
def nextRunIn (env : Env) (aes : YYAES) :
    Nat → Bool → YYJ → Option (Except Fault (Option YYJ) × Bool)
  | 0, _, _ => none
  | fuel + 1, erange, .compAES c =>
      match c.unFormatAESIn env erange aes with
      | (.error f, erange) => some (.error f, erange)
      | (.ok none, erange) => some (.ok none, erange)
      | (.ok (some realobj), erange) => nextRunIn env aes fuel erange realobj
  | _ + 1, erange, jobj => some (.ok (some jobj), erange)

def commandTurnIn (env : ServerEnv) (erange : Bool) (fd : Fd) (srv : Server) (l : Locals)
    (offset : Nat) (jobj : YYJ) : Option (Except Fault (Turn × Bool)) :=
  match l.state with
  | none => some (.ok (⟨srv, [], l⟩, erange))
  | some p =>
      let state := srv.heap p
      let rest := { l with buf := l.buf.drop offset }
      match nextRunIn env.toEnv state.aes (l.buf.length + 1) erange jobj with
      | none => none
      | some (.error f, _) => some (.error f)
      | some (.ok none, erange) => some (.ok (⟨srv, [], rest⟩, erange))
      | some (.ok (some cmd), erange) =>
          some ((dispatch env fd p state cmd).map fun effects => (⟨srv, effects, rest⟩, erange))

def jsonTurnIn (env : ServerEnv) (erange : Bool) (fd : Fd) (srv : Server) (l : Locals) :
    Option (Except Fault (Turn × Bool)) :=
  match parseCmdIn env.toEnv erange l.buf with
  | (.fault f, _) => some (.error f)
  | (.error _, erange) => some (.ok (⟨srv, closefd fd, { l with buf := [] }⟩, erange))
  | (.success offset (.login login), erange) =>
      let (p, effects) := handleLogin env srv fd l.state login
      some (.ok (⟨{ srv with logins := srv.logins + 1 }, effects,
        ⟨some p, l.buf.drop offset⟩⟩, erange))
  | (.success offset jobj, erange) => commandTurnIn env erange fd srv l offset jobj

def mmsExecTurnIn (env : ServerEnv) (erange : Bool) (fd : Fd) (srv : Server) (buf : Bytes) :
    Except Fault ((List Effect × Bytes) × Bool) :=
  match parseCmdIn env.toEnv erange buf with
  | (.fault f, _) => .error f
  | (.error _, erange) => .ok (([], []), erange)
  | (.success offset (.svrInit c), erange) =>
      .ok ((svrInit env.ssl srv fd c.yyID, buf.drop offset), erange)
  | (.success offset _, erange) => .ok (([], buf.drop offset), erange)

def workTurnIn (env : ServerEnv) (erange : Bool) (srv : Server) (job : Job) (l : Locals) :
    Option (Turn × Bool) :=
  if job.port = env.mangport then
    match mmsExecTurnIn env erange job.fd srv l.buf with
    | .ok ((effects, rest), erange) => some (⟨srv, effects, { l with buf := rest }⟩, erange)
    | .error _ => none
  else
    match jsonTurnIn env erange job.fd srv l with
    | some (.ok turn) => some turn
    | _ => none

end Turns

section Clear

variable {erange : Bool}

theorem unFormatAESIn_clear {env : Env} {aes : YYAES} {c : YYJsonComp}
    (h : (c.unFormatAESIn env erange aes).2 = false) :
    erange = false ∧ (c.unFormatAESIn env erange aes).1 = c.unFormatAES env aes := by
  unfold YYJsonComp.unFormatAESIn YYJsonComp.unFormatAES at *
  split_ifs at h ⊢ with hempty
  · exact ⟨h, rfl⟩
  · cases hout : YYSSL.base64decode env.ssl c.serString with
    | none =>
        rw [hout] at h
        exact ⟨h, rfl⟩
    | some out =>
        rw [hout] at h
        dsimp only at h ⊢
        cases hplain : aes.aesDecrypt env.ssl out with
        | error f =>
            rw [hplain] at h
            exact ⟨h, rfl⟩
        | ok plain =>
            cases plain with
            | none =>
                rw [hplain] at h
                exact ⟨h, rfl⟩
            | some decryStr =>
                rw [hplain] at h
                obtain ⟨hbefore, hparse⟩ := parseCmdIn_clear h
                refine ⟨hbefore, ?_⟩
                dsimp only
                rw [hparse]
                cases parseCmd env decryStr <;> rfl

theorem nextRunIn_clear {env : Env} {aes : YYAES} {fuel : Nat} {jobj : YYJ}
    {r : Except Fault (Option YYJ)} (h : nextRunIn env aes fuel erange jobj = some (r, false)) :
    erange = false ∧ nextRun env aes fuel jobj = some r := by
  induction fuel generalizing erange jobj with
  | zero => simp [nextRunIn] at h
  | succ fuel ih =>
      cases jobj with
      | compAES c =>
          rw [nextRunIn] at h
          rw [nextRun]
          have hopen : (c.unFormatAESIn env erange aes).2 = false → _ := unFormatAESIn_clear
          generalize c.unFormatAESIn env erange aes = opened at h hopen
          obtain ⟨result, erange'⟩ := opened
          rcases result with f | _ | realobj
          · simp only [Option.some.injEq, Prod.mk.injEq] at h
            obtain ⟨hbefore, hplain⟩ := hopen h.2
            rw [← hplain, ← h.1]
            exact ⟨hbefore, rfl⟩
          · simp only [Option.some.injEq, Prod.mk.injEq] at h
            obtain ⟨hbefore, hplain⟩ := hopen h.2
            rw [← hplain, ← h.1]
            exact ⟨hbefore, rfl⟩
          · obtain ⟨hclear, hrest⟩ := ih h
            obtain ⟨hbefore, hplain⟩ := hopen hclear
            rw [← hplain]
            exact ⟨hbefore, hrest⟩
      | _ =>
          simp only [nextRunIn, Option.some.injEq, Prod.mk.injEq] at h
          exact ⟨h.2, by rw [nextRun, ← h.1]; exact fun _ => YYJ.noConfusion⟩

variable {env : ServerEnv} {fd : Fd} {srv : Server} {l : Locals} {turn : Turn}

theorem commandTurnIn_clear {offset : Nat} {jobj : YYJ}
    (h : commandTurnIn env erange fd srv l offset jobj = some (.ok (turn, false))) :
    erange = false ∧ commandTurn env fd srv l offset jobj = some (.ok turn) := by
  unfold commandTurnIn at h
  unfold commandTurn
  cases hstate : l.state with
  | none =>
      rw [hstate] at h
      simp only [Option.some.injEq, Except.ok.injEq, Prod.mk.injEq] at h
      exact ⟨h.2, by rw [← h.1]⟩
  | some p =>
      rw [hstate] at h
      dsimp only at h ⊢
      cases hnext : nextRunIn env.toEnv (srv.heap p).aes (l.buf.length + 1) erange jobj with
      | none => simp [hnext] at h
      | some r =>
          obtain ⟨r, erange'⟩ := r
          rw [hnext] at h
          rcases r with f | _ | cmd
          · simp at h
          · simp only [Option.some.injEq, Except.ok.injEq, Prod.mk.injEq] at h
            obtain ⟨hturn, rfl⟩ := h
            obtain ⟨hbefore, hplain⟩ := nextRunIn_clear hnext
            rw [hplain, ← hturn]
            exact ⟨hbefore, rfl⟩
          · dsimp only at h
            cases hdispatch : dispatch env fd p (srv.heap p) cmd with
            | error f => simp [hdispatch, Except.map] at h
            | ok effects =>
                simp only [hdispatch, Except.map, Option.some.injEq, Except.ok.injEq,
                  Prod.mk.injEq] at h
                obtain ⟨hturn, rfl⟩ := h
                obtain ⟨hbefore, hplain⟩ := nextRunIn_clear hnext
                rw [hplain, ← hturn]
                exact ⟨hbefore, by simp only [hdispatch, Except.map]⟩

theorem jsonTurnIn_clear (h : jsonTurnIn env erange fd srv l = some (.ok (turn, false))) :
    erange = false ∧ jsonTurn env fd srv l = some (.ok turn) := by
  unfold jsonTurnIn at h
  unfold jsonTurn
  have hparse : (parseCmdIn env.toEnv erange l.buf).2 = false → _ := parseCmdIn_clear
  generalize parseCmdIn env.toEnv erange l.buf = r at h hparse
  obtain ⟨r, erange'⟩ := r
  cases r with
  | fault f => simp at h
  | error err =>
      simp only [Option.some.injEq, Except.ok.injEq, Prod.mk.injEq] at h
      obtain ⟨hturn, rfl⟩ := h
      obtain ⟨hbefore, hplain⟩ := hparse rfl
      rw [← hplain, ← hturn]
      exact ⟨hbefore, rfl⟩
  | success offset jobj =>
      have hcommand : ∀ erange' jobj,
          commandTurnIn env erange' fd srv l offset jobj = some (.ok (turn, false)) →
            erange' = false ∧ commandTurn env fd srv l offset jobj = some (.ok turn) :=
        fun _ _ => commandTurnIn_clear
      cases jobj with
      | login login =>
          simp only [Option.some.injEq, Except.ok.injEq, Prod.mk.injEq] at h
          obtain ⟨hturn, rfl⟩ := h
          obtain ⟨hbefore, hplain⟩ := hparse rfl
          rw [← hplain, ← hturn]
          exact ⟨hbefore, rfl⟩
      | _ =>
          obtain ⟨rfl, hturn⟩ := hcommand _ _ h
          obtain ⟨hbefore, hplain⟩ := hparse rfl
          rw [← hplain]
          exact ⟨hbefore, hturn⟩

theorem mmsExecTurnIn_clear {buf : Bytes} {r : List Effect × Bytes}
    (h : mmsExecTurnIn env erange fd srv buf = .ok (r, false)) :
    erange = false ∧ mmsExecTurn env fd srv buf = .ok r := by
  unfold mmsExecTurnIn at h
  unfold mmsExecTurn
  have hparse : (parseCmdIn env.toEnv erange buf).2 = false → _ := parseCmdIn_clear
  generalize parseCmdIn env.toEnv erange buf = parsed at h hparse
  obtain ⟨parsed, erange'⟩ := parsed
  cases parsed with
  | fault f => simp at h
  | error err =>
      simp only [Except.ok.injEq, Prod.mk.injEq] at h
      obtain ⟨hr, rfl⟩ := h
      obtain ⟨hbefore, hplain⟩ := hparse rfl
      rw [← hplain]
      exact ⟨hbefore, congrArg _ hr⟩
  | success offset jobj =>
      cases jobj <;>
      · simp only [Except.ok.injEq, Prod.mk.injEq] at h
        obtain ⟨hr, rfl⟩ := h
        obtain ⟨hbefore, hplain⟩ := hparse rfl
        rw [← hplain]
        exact ⟨hbefore, congrArg _ hr⟩

theorem workTurnIn_clear {job : Job} (h : workTurnIn env erange srv job l = some (turn, false)) :
    erange = false ∧ System.workTurn env srv job l = some turn := by
  unfold workTurnIn at h
  unfold System.workTurn
  split_ifs at h ⊢
  · split at h
    · rename_i effects rest erange' hturn
      simp only [Option.some.injEq, Prod.mk.injEq] at h
      obtain ⟨heq, rfl⟩ := h
      obtain ⟨hbefore, hplain⟩ := mmsExecTurnIn_clear hturn
      rw [hplain, ← heq]
      exact ⟨hbefore, rfl⟩
    · simp at h
  · split at h
    · rename_i turn' hturn
      rw [Option.some.injEq] at h
      rw [h] at hturn
      obtain ⟨hbefore, hplain⟩ := jsonTurnIn_clear hturn
      rw [hplain]
      exact ⟨hbefore, rfl⟩
    · simp at h

end Clear

/-- The server, and whether `errno` is ERANGE in each worker. -/
structure Threads where
  sys : System
  erange : Nat → Bool

namespace Threads

def init : Threads := ⟨System.init, fun _ => false⟩

variable (env : ServerEnv) (threadnum : Nat)

/-- Only the turns of workers parse anything. -/
def step (s : Threads) (a : Action) : Option Threads :=
  match a with
  | .turn w =>
      match s.sys.workers w with
      | some ⟨job, l, []⟩ =>
          if l.buf = [] then none
          else
            (workTurnIn env (s.erange w) s.sys.srv job l).map fun (turn, erange) =>
              { sys := { s.sys with srv := turn.srv }.setWorker w
                  (some ⟨job, turn.locals, turn.effects⟩)
                erange := Function.update s.erange w erange }
      | _ => none
  | a => (System.step env threadnum s.sys a).map fun t => { s with sys := t }

/-- Nothing that the worker reads in its turn sets `errno` to ERANGE. -/
def ReadsInRange (s : Threads) : Action → Prop
  | .turn w => ∀ b ∈ s.sys.workers w,
      ∀ r ∈ workTurnIn env (s.erange w) s.sys.srv b.job b.locals, r.2 = false
  | _ => True

instance (s : Threads) (a : Action) : Decidable (s.ReadsInRange env a) := by
  cases a <;>
  · unfold ReadsInRange
    infer_instance

variable {env threadnum} {s t : Threads} {a : Action}

theorem step_plain (hclear : ∀ w, s.erange w = false) (hread : s.ReadsInRange env a)
    (h : step env threadnum s a = some t) :
    System.step env threadnum s.sys a = some t.sys ∧ ∀ w, t.erange w = false := by
  cases a with
  | turn w =>
      simp only [step] at h
      split at h
      · rename_i job l hbusy
        simp only [Option.ite_none_left_eq_some, Option.map_eq_some_iff] at h
        obtain ⟨hbuf, ⟨turn, erange⟩, hturn, rfl⟩ := h
        obtain rfl : erange = false := hread ⟨job, l, []⟩ hbusy (turn, erange) hturn
        obtain ⟨-, hplain⟩ := workTurnIn_clear hturn
        refine ⟨?_, ?_⟩
        · simp only [System.step, hbusy, if_neg hbuf, hplain, Option.map_some]
        · intro w'
          by_cases hw : w' = w
          · rw [hw]
            exact Function.update_self ..
          · exact (Function.update_of_ne hw ..).trans (hclear w')
      · simp at h
  | _ =>
      obtain ⟨u, hu, rfl⟩ := Option.map_eq_some_iff.mp h
      exact ⟨hu, hclear⟩

end Threads

/-- The server whose workers have an `errno`. -/
def mmsThreads (env : ServerEnv) (threadnum : Nat) : Transition Threads Action where
  init := Threads.init
  step := Threads.step env threadnum

section Stale

variable {env : ServerEnv} {threadnum : Nat}

/-- Closes are settled, and no worker comes to read a number out of range. -/
def StaysSettled (env : ServerEnv) (threadnum : Nat) (s : Threads) (a : Action) : Prop :=
  ClosesSettled env threadnum s.sys a ∧ s.ReadsInRange env a

instance (s : Threads) (a : Action) : Decidable (StaysSettled env threadnum s a) :=
  inferInstanceAs (Decidable (_ ∧ _))

theorem reachable_plain {s : Threads}
    (h : (mmsThreads env threadnum).Reachable (StaysSettled env threadnum) s) :
    (mmsServer env threadnum).Reachable (ClosesSettled env threadnum) s.sys ∧
      ∀ w, s.erange w = false := by
  induction h with
  | init => exact ⟨.init, fun _ => rfl⟩
  | step hs hguard hstep ih =>
      obtain ⟨hplain, hclear⟩ := Threads.step_plain ih.2 hguard.2 hstep
      exact ⟨.step ih.1 hguard.1 hplain, hclear⟩

/-- When a worker takes up a buffer for `JsonProcess`, the session registered for its
descriptor was created by the connection the buffer came from, in every run that
closes no descriptor between the arrival of a LOGIN and its registration, and in which
no worker reads a number out of range. -/
theorem session_not_stale (env : ServerEnv) (threadnum : Nat) (hports : env.port ≠ env.mangport)
    (s : Threads) (h : (mmsThreads env threadnum).Reachable (StaysSettled env threadnum) s)
    (w : Nat) (job : Job) (rest : List Job) (hidle : s.sys.workers w = none)
    (hjobs : s.sys.jobs w = job :: rest) (hport : job.port ≠ env.mangport)
    (hregistered : s.sys.srv.fdIndex.getState job.fd ≠ none) :
    s.sys.registrant job.fd = job.conn :=
  registrant_of_reachable hports (reachable_plain h).1 hidle hjobs hport hregistered

/-- One buffer and all that the worker does with it. -/
def handled (fd : Fd) (buf : Bytes) (accesses : Nat) : List Action :=
  [Action.receive fd buf, .start 0, .turn 0] ++ List.replicate accesses (Action.effect 0) ++
    [Action.finish 0]

/-- Two clients log in, one of them twice, and go, one with a LOGOUT and one without; a third
gets the descriptor of the second, logs in and sends a LOGIN1. -/
def settledRun : List Action :=
  [Action.accept 5 6789, .accept 6 6789] ++ handled 5 (frame (.login ⟨1, [], []⟩)) 5 ++
    handled 5 (frame (.login ⟨1, [], []⟩)) 2 ++ handled 6 (frame (.login ⟨2, [], []⟩)) 5 ++
    handled 6 (frame (.logout ⟨2⟩)) 3 ++ [Action.dispatch, .shutdown 5, .start 0, .turn 0] ++
    List.replicate 3 (Action.effect 0) ++ [Action.finish 0, .dispatch, .accept 5 6789] ++
    handled 5 (frame (.login ⟨3, [], []⟩)) 5 ++
    [Action.receive 5 (frame (.login1 ⟨1, [], []⟩))]

theorem session_not_stale_reused :
    ∃ s job, (mmsThreads default 1).run settledRun Threads.init = some s ∧
      s.sys.jobs 0 = [job] ∧ job.fd = 5 ∧ job.conn = 2 ∧
      s.sys.srv.fdIndex.getState 5 = some 3 ∧ s.sys.registrant 5 = job.conn := by
  have hrun : ((mmsThreads default 1).run settledRun Threads.init).map (fun s =>
      (s.sys.jobs 0, s.sys.srv.fdIndex.getState 5, (s.sys.workers 0).isNone)) =
      some ([⟨5, frame (.login1 ⟨1, [], []⟩), 6789, 2⟩], some 3, true) := by decide +kernel
  have hguard : (mmsThreads default 1).Guarded (StaysSettled default 1) settledRun
      Threads.init := by decide +kernel
  obtain ⟨s, hs, hstate⟩ := Option.map_eq_some_iff.mp hrun
  simp only [Prod.mk.injEq, Option.isNone_iff_eq_none] at hstate
  obtain ⟨hjobs, hindex, hidle⟩ := hstate
  refine ⟨s, _, hs, hjobs, rfl, rfl, hindex, ?_⟩
  exact session_not_stale default 1 (by decide) s (.of_guarded .init hguard hs) 0 _ [] hidle
    hjobs (by decide) (by simp [hindex])

/-- A client sends a LOGIN and is closed before a worker takes it up. -/
def closedEarly : List Action :=
  [Action.accept 5 6789, .receive 5 (frame (.login ⟨1, [], []⟩)), .shutdown 5, .accept 5 6789,
    .receive 5 (frame (.login1 ⟨1, [], []⟩)), .start 0, .turn 0] ++
    List.replicate 5 (Action.effect 0) ++ [Action.finish 0]

/-- A frame with a number out of range. -/
def hugeFrame : Bytes :=
  preChar :: wordBytes 31 ++ lit "\x7b\"cmd\":99999999999999999999\x7d"

/-- A client logs in and sends the number, for which it is closed; the worker no longer reads
the LOGOUT of the close. -/
def closedOutOfRange : List Action :=
  [Action.accept 5 6789] ++ handled 5 (frame (.login ⟨1, [], []⟩)) 5 ++
    handled 5 hugeFrame 1 ++ [Action.dispatch, .accept 5 6789,
    .receive 5 (frame (.login1 ⟨1, [], []⟩)), .start 0, .turn 0, .effect 0, .finish 0]

/-- In both runs the next client with the descriptor finds the session of the first; in the
second all closes were settled. -/
theorem session_stale_after_close :
    (∀ as ∈ [closedEarly, closedOutOfRange],
      ∃ s job, (mmsThreads default 1).run as Threads.init = some s ∧
        s.sys.workers 0 = none ∧ s.sys.jobs 0 = [job] ∧ job.fd = 5 ∧ job.conn = 1 ∧
        s.sys.srv.fdIndex.getState 5 = some 0 ∧ s.sys.registrant 5 = 0) ∧
    (mmsThreads default 1).Guarded (fun s a => ClosesSettled default 1 s.sys a)
      closedOutOfRange Threads.init := by
  refine ⟨?_, by decide +kernel⟩
  intro as has
  have hrun : ∀ as ∈ [closedEarly, closedOutOfRange],
      ((mmsThreads default 1).run as Threads.init).map (fun s =>
        ((s.sys.workers 0).isNone, s.sys.jobs 0, s.sys.srv.fdIndex.getState 5,
          s.sys.registrant 5)) =
        some (true, [⟨5, frame (.login1 ⟨1, [], []⟩), 6789, 1⟩], some 0, 0) := by decide +kernel
  obtain ⟨s, hs, hstate⟩ := Option.map_eq_some_iff.mp (hrun as has)
  simp only [Prod.mk.injEq, Option.isNone_iff_eq_none] at hstate
  obtain ⟨hidle, hjobs, hindex, hregistrant⟩ := hstate
  exact ⟨s, _, hs, hidle, hjobs, rfl, rfl, hindex, hregistrant⟩

end Stale

end MmsSvr
