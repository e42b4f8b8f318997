import MmsSvr.JsonTurn

/-!
When the loop of `JsonProcess` ends.
-/

namespace MmsSvr

open JsonC YYmmsJson
open Lib

variable {env : ServerEnv} {fd : Fd}

/-- The buffer starts with a frame that only a session could handle. -/
def OpensWithCommand (env : Env) (buf : Bytes) : Prop :=
  ∃ offset jobj, parseCmd env buf = .success offset jobj ∧ NotLogin jobj

/-- A state in which a turn makes progress. -/
def Live (env : ServerEnv) (s : Server × Locals) : Prop :=
  s.2.buf ≠ [] ∧ (s.2.state ≠ none ∨ ¬ OpensWithCommand env.toEnv s.2.buf)

theorem live_turn {s t : Server × Locals} (hs : Live env s)
    (h : (jsonLoop env fd).body s = some (.ok t)) :
    t.2.buf.length < s.2.buf.length ∧ (t.2.buf ≠ [] → Live env t) := by
  obtain ⟨turn, hturn, rfl⟩ := jsonLoop_body_ok.mp h
  obtain ⟨hne, hlive⟩ := hs
  have hpos : 0 < s.2.buf.length := List.length_pos_iff.mpr hne
  have hdrop : ∀ {offset jobj}, parseCmd env.toEnv s.2.buf = .success offset jobj →
      (s.2.buf.drop offset).length < s.2.buf.length := by
    intro offset jobj hparse
    have hoffset := parseCmd_offset_le hparse
    rw [List.length_drop]
    omega
  cases jsonTurn_cases hturn with
  | rejected err hparse => exact ⟨by simpa using hpos, fun h => absurd rfl h⟩
  | login offset login hparse => exact ⟨hdrop hparse, fun h => ⟨h, Or.inl (by simp)⟩⟩
  | ignored offset jobj hparse hlogin hstate =>
      rcases hlive with hstate' | hcommand
      · exact absurd hstate hstate'
      · exact absurd ⟨offset, jobj, hparse, hlogin⟩ hcommand
  | unopened offset jobj p hparse => exact ⟨hdrop hparse, fun h => ⟨h, Or.inl (by simp)⟩⟩
  | command offset jobj p cmd effects hparse =>
      exact ⟨hdrop hparse, fun h => ⟨h, Or.inl (by simp)⟩⟩

theorem live_visits {s t : Server × Locals} (hs : Live env s)
    (h : (jsonLoop env fd).Visits s t) : Live env t := by
  refine h.invariant (Live env) ?_ hs
  rintro u v hu ⟨hbody, hagain⟩
  exact (live_turn hu hbody).2 (by simpa [jsonLoop] using hagain)

theorem body_ne_none (s : Server × Locals) : (jsonLoop env fd).body s ≠ none := by
  intro h
  simp only [jsonLoop, Option.map_eq_none_iff] at h
  exact jsonTurn_ne_none env fd s.1 s.2 h

theorem run_of_live {s : Server × Locals} (hs : Live env s) :
    ∃ r, (jsonLoop env fd).run (s.2.buf.length + 1) s = some r := by
  refine DoWhile.run_of_measure (Live env) (fun s => s.2.buf.length)
    (fun s _ => body_ne_none s) ?_ hs
  rintro u v hu ⟨hbody, hagain⟩
  obtain ⟨hlt, hlive⟩ := live_turn hu hbody
  exact ⟨hlive (by simpa [jsonLoop] using hagain), hlt⟩

theorem stuck_turn {srv : Server} {l : Locals} (hstate : l.state = none)
    (h : OpensWithCommand env.toEnv l.buf) : (jsonLoop env fd).Turn (srv, l) (srv, l) := by
  obtain ⟨offset, jobj, hparse, hlogin⟩ := h
  constructor
  · rw [jsonLoop_body_ok]
    refine ⟨⟨srv, [], l⟩, ?_, rfl⟩
    rw [jsonTurn_success hparse hlogin, commandTurn, hstate]
  · have hpos := parseCmd_offset_le hparse
    simp only [jsonLoop, ne_eq, decide_not, Bool.not_eq_eq_eq_not, Bool.not_true,
      decide_eq_false_iff_not]
    intro hnil
    rw [hnil] at hpos
    simp only [List.length_nil] at hpos
    omega

theorem jsonBegin_buf_ne_nil (srv : Server) (fd : Fd) {readbuffer : Bytes}
    (hbuf : readbuffer ≠ []) : (jsonBegin srv fd readbuffer).2.buf ≠ [] := by
  unfold jsonBegin
  split <;> simp [hbuf]

theorem live_jsonBegin_iff (srv : Server) {readbuffer : Bytes} (hbuf : readbuffer ≠ []) :
    Live env (jsonBegin srv fd readbuffer) ↔
      srv.fdIndex.getState fd ≠ none ∨ ¬ OpensWithCommand env.toEnv readbuffer := by
  have hne := jsonBegin_buf_ne_nil srv fd hbuf
  simp only [Live, hne, ne_eq, not_false_eq_true, true_and]
  unfold jsonBegin
  split <;> simp [*]

theorem turn_progress {s t : Server × Locals} (h : (jsonLoop env fd).Turn s t) :
    t.2.buf.length < s.2.buf.length ∨ t = s := by
  by_cases hlive : s.2.state ≠ none ∨ ¬ OpensWithCommand env.toEnv s.2.buf
  · by_cases hnil : s.2.buf = []
    · obtain ⟨turn, hturn, rfl⟩ := jsonLoop_body_ok.mp h.1
      have herror : parseCmd env.toEnv s.2.buf = .error .bufsize := by
        rw [hnil]
        rfl
      have hagain := h.2
      simp only [jsonTurn, herror, Option.some.injEq, Except.ok.injEq] at hturn
      subst hturn
      simp [jsonLoop] at hagain
    · exact Or.inl (live_turn ⟨hnil, hlive⟩ h.1).1
  · simp only [ne_eq, not_or, not_not] at hlive
    obtain ⟨srv, l⟩ := s
    have hstuck : (jsonLoop env fd).Turn (srv, l) (srv, l) := stuck_turn hlive.1 hlive.2
    have hbody := h.1
    rw [hstuck.1, Option.some.injEq, Except.ok.injEq] at hbody
    exact Or.inr hbody.symm

theorem jsonProcess_eq_none_iff (env : ServerEnv) (srv : Server) {fd : Fd} (hfd : fd ≠ 0)
    (readbuffer : Bytes) :
    jsonProcess env srv fd readbuffer = none ↔
      ¬ (jsonLoop env fd).Ends (jsonBegin srv fd readbuffer) := by
  simp only [jsonProcess, if_neg hfd, Option.map_eq_none_iff]
  constructor
  · rintro hnone ⟨fuel, r, hr⟩
    have hbound := DoWhile.run_of_ends (m := fun s => s.2.buf.length)
      (fun s t => turn_progress) hr
    rw [hnone] at hbound
    simp at hbound
  · intro hends
    by_contra hsome
    obtain ⟨r, hr⟩ := Option.ne_none_iff_exists'.mp hsome
    exact hends ⟨_, r, hr⟩

theorem jsonProcess_eq_some_iff (env : ServerEnv) (srv srv' : Server) {fd : Fd} (hfd : fd ≠ 0)
    (readbuffer : Bytes) :
    jsonProcess env srv fd readbuffer = some (.ok srv') ↔
      ∃ l, (jsonLoop env fd).Yields (jsonBegin srv fd readbuffer) (.ok (srv', l)) := by
  simp only [jsonProcess, if_neg hfd, Option.map_eq_some_iff]
  constructor
  · rintro ⟨r, hr, hmap⟩
    obtain ⟨s, rfl, rfl⟩ := map_eq_ok_iff.mp hmap
    exact ⟨s.2, _, hr⟩
  · rintro ⟨l, fuel, hr⟩
    have hbound := DoWhile.run_of_ends (m := fun s => s.2.buf.length)
      (fun s t => turn_progress) hr
    exact ⟨_, hbound, rfl⟩

/-- The loop ends, with every turn taking bytes from the buffer, exactly when the
connection has a session or the buffer does not start with a command that needs one. -/
theorem jsonProcess_ends_iff (env : ServerEnv) (srv : Server) (fd : Fd) (readbuffer : Bytes)
    (hbuf : readbuffer ≠ []) :
    ((jsonLoop env fd).Ends (jsonBegin srv fd readbuffer) ∧
      ∀ s t, (jsonLoop env fd).Visits (jsonBegin srv fd readbuffer) s →
        (jsonLoop env fd).body s = some (.ok t) → t.2.buf.length < s.2.buf.length) ↔
      srv.fdIndex.getState fd ≠ none ∨ ¬ OpensWithCommand env.toEnv readbuffer := by
  constructor
  · rintro ⟨hends, -⟩
    by_contra hstuck
    simp only [ne_eq, not_or, not_not] at hstuck
    obtain ⟨hindex, hcommand⟩ := hstuck
    have hbegin : jsonBegin srv fd readbuffer = (srv, ⟨none, readbuffer⟩) := by
      rw [jsonBegin, hindex]
    rw [hbegin] at hends
    exact DoWhile.not_ends_of_stuck (stuck_turn rfl hcommand) hends
  · intro h
    have hlive := (live_jsonBegin_iff srv hbuf).mpr h
    constructor
    · obtain ⟨r, hr⟩ := run_of_live hlive
      exact ⟨_, r, hr⟩
    · intro s t hvisit hbody
      exact (live_turn (live_visits hlive hvisit) hbody).1

theorem jsonProcess_ends_login :
    frame (.login ⟨1, [], []⟩) ≠ [] ∧
      (jsonLoop default 5).Ends (jsonBegin Server.init 5 (frame (.login ⟨1, [], []⟩))) := by
  refine ⟨by decide +kernel, ?_⟩
  refine ((jsonProcess_ends_iff default Server.init 5 _ (by decide +kernel)).mpr ?_).1
  right
  rintro ⟨offset, jobj, hparse, hlogin⟩
  have hframe : parseCmd default (frame (.login ⟨1, [], []⟩)) =
      .success 52 (.login ⟨1, [], []⟩) := by decide +kernel
  have heq := hparse.symm.trans hframe
  simp only [ParseResult.success.injEq] at heq
  exact hlogin _ heq.2

/-- A client logs in and out; the logout that `fd_close` had queued for it meanwhile
is then processed forever. -/
theorem jsonProcess_late_logout_never_ends :
    ∃ srv₁ srv₂ synthetic,
      jsonCalls default Server.init [(5, frame (.login ⟨1, [], []⟩))] = some srv₁ ∧
      fdClose default srv₁ 5 = some synthetic ∧ synthetic ≠ [] ∧
      jsonCalls default srv₁ [(5, frame (.logout ⟨1⟩))] = some srv₂ ∧
      ¬ (jsonLoop default 5).Ends (jsonBegin srv₂ 5 synthetic) := by
  have hrun : (jsonCalls default Server.init [(5, frame (.login ⟨1, [], []⟩))]).map
      (fun srv => (fdClose default srv 5, (jsonCalls default srv [(5, frame (.logout ⟨1⟩))]).map
        fun srv => srv.fdIndex.getState 5)) =
      some (some (frame (.logout ⟨1⟩)), some none) := by decide +kernel
  obtain ⟨srv₁, h₁, hclose⟩ := Option.map_eq_some_iff.mp hrun
  rw [Prod.mk.injEq] at hclose
  obtain ⟨srv₂, h₂, hindex⟩ := Option.map_eq_some_iff.mp hclose.2
  refine ⟨srv₁, srv₂, _, h₁, hclose.1, by decide +kernel, h₂, ?_⟩
  have hcommand : OpensWithCommand default (frame (.logout ⟨1⟩)) :=
    ⟨32, .logout ⟨1⟩, by decide +kernel, fun login => by simp⟩
  have hbegin : jsonBegin srv₂ 5 (frame (.logout ⟨1⟩)) = (srv₂, ⟨none, frame (.logout ⟨1⟩)⟩) := by
    rw [jsonBegin, hindex]
  rw [hbegin]
  exact DoWhile.not_ends_of_stuck (stuck_turn rfl hcommand)

end MmsSvr
