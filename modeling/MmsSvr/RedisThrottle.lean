import MmsSvr.Lib.Transition
import MmsSvr.YYRedis

/-!
The delay of `Connect`: how long it is since the last attempt and since the last disconnect,
in ticks of 32 bits.
-/

namespace MmsSvr

open Lib

/-- A call of `redisAsyncConnect`, and when the two events were that it has to keep away from. -/
structure RedisAttempt where
  now : UInt32
  lastAttempt : Option UInt32
  lastDisconnect : Option UInt32
deriving DecidableEq, Repr

structure RedisClock where
  redis : YYRedis
  lastAttempt : Option UInt32
  lastDisconnect : Option UInt32
  /-- The last of the two was the disconnect. -/
  disconnected : Bool
  attempts : List RedisAttempt
deriving DecidableEq, Repr

inductive ClockAction where
  | connect (call : ConnectCall)
  | connectCallback (ok : Bool)
  | disconnectCallback (tick : UInt32)
deriving DecidableEq, Repr

namespace RedisClock

def init (delayConnectTime : UInt32) : RedisClock :=
  { redis := YYRedis.new.Init delayConnectTime, lastAttempt := none, lastDisconnect := none,
    disconnected := false, attempts := [] }

variable (s : RedisClock)

/-- The first tick that `Connect` reads; without a stamp there is nothing to test. -/
def now (call : ConnectCall) : UInt32 :=
  if s.redis.delayDisconnect ≠ 0 then call.tested else call.stamped

def later : Option UInt32 := if s.disconnected then s.lastDisconnect else s.lastAttempt

def earlier : Option UInt32 := if s.disconnected then s.lastAttempt else s.lastDisconnect

def attempted (call : ConnectCall) : RedisClock :=
  { redis := (s.redis.Connect call).1
    lastAttempt := some call.stamped
    lastDisconnect := s.lastDisconnect
    disconnected := false
    attempts := s.attempts ++ [⟨s.now call, s.lastAttempt, s.lastDisconnect⟩] }

def step : ClockAction → RedisClock
  | .connect call =>
      if s.redis.Attempts call then s.attempted call
      else { s with redis := (s.redis.Connect call).1 }
  | .connectCallback ok => { s with redis := s.redis.connectCallback ok }
  | .disconnectCallback tick =>
      { s with
          redis := s.redis.disconnectCallback tick
          lastDisconnect := some tick
          disconnected := true }

end RedisClock

def redisClock (delayConnectTime : UInt32) : Transition RedisClock ClockAction where
  init := .init delayConnectTime
  step := fun s action => some (s.step action)

/-- As many ticks have passed since both events as the delay says. -/
def RedisAttempt.Waited (delay : UInt32) (a : RedisAttempt) : Prop :=
  (∀ t ∈ a.lastAttempt, delay ≤ a.now - t) ∧ ∀ t ∈ a.lastDisconnect, delay ≤ a.now - t

namespace RedisClock

variable {delay : UInt32} {s : RedisClock}

def Throttled (delay : UInt32) (s : RedisClock) : Prop := ∀ a ∈ s.attempts, a.Waited delay

/-- At an attempt, the later event is not at tick 0 with the delay still to come, and the earlier
one is less than a turn of the counter back, or more by the delay. -/
def Measured (delay : UInt32) (s : RedisClock) : ClockAction → Prop
  | .connect call => s.redis.Attempts call →
      (∀ t ∈ s.later, t ≠ 0 ∨ delay ≤ s.now call) ∧
      ∀ t ∈ s.later, ∀ t' ∈ s.earlier,
        (s.now call - t).toNat + (t - t').toNat < 2 ^ 32 ∨
          2 ^ 32 + delay.toNat ≤ (s.now call - t).toNat + (t - t').toNat
  | _ => True

theorem sub_toNat (now t t' : UInt32) :
    (now - t').toNat = ((now - t).toNat + (t - t').toNat) % 2 ^ 32 := by
  have hnow := now.toNat_lt
  have ht := t.toNat_lt
  have ht' := t'.toNat_lt
  rw [UInt32.toNat_sub, UInt32.toNat_sub, UInt32.toNat_sub]
  omega

theorem waited_earlier_iff {now t t' : UInt32} (h : delay ≤ now - t) :
    delay ≤ now - t' ↔ (now - t).toNat + (t - t').toNat < 2 ^ 32 ∨
      2 ^ 32 + delay.toNat ≤ (now - t).toNat + (t - t').toNat := by
  have hlater := (now - t).toNat_lt
  have hearlier := (t - t').toNat_lt
  rw [UInt32.le_iff_toNat_le] at h ⊢
  rw [sub_toNat now t t']
  omega

/-- The stamp is that of the later event. -/
structure Stamped (delay : UInt32) (s : RedisClock) : Prop where
  delayConnectTime : s.redis.delayConnectTime = delay
  delayDisconnect : s.redis.delayDisconnect = s.later.getD 0
  earlier : s.later = none → s.earlier = none

theorem init_stamped : (init delay).Stamped delay := ⟨rfl, rfl, fun _ => rfl⟩

theorem connect_stamped (h : s.Stamped delay) (call : ConnectCall) :
    (s.step (.connect call)).Stamped delay := by
  rw [step]
  split
  · rename_i hattempts
    rw [attempted, YYRedis.Connect_of_attempts hattempts]
    exact ⟨h.delayConnectTime, rfl, fun hnone => absurd hnone (Option.some_ne_none _)⟩
  · rename_i hattempts
    rw [YYRedis.Connect_of_not_attempts hattempts]
    exact h

theorem step_stamped (h : s.Stamped delay) (action : ClockAction) :
    (s.step action).Stamped delay := by
  cases action with
  | connect call => exact connect_stamped h call
  | connectCallback ok =>
      rw [step, YYRedis.connectCallback]
      cases ok with
      | true => exact ⟨h.delayConnectTime, h.delayDisconnect, h.earlier⟩
      | false => exact ⟨h.delayConnectTime, h.delayDisconnect, h.earlier⟩
  | disconnectCallback tick =>
      exact ⟨h.delayConnectTime, rfl, fun hnone => absurd hnone (Option.some_ne_none _)⟩

theorem waited_iff (s : RedisClock) (now : UInt32) :
    (RedisAttempt.mk now s.lastAttempt s.lastDisconnect).Waited delay ↔
      (∀ t ∈ s.later, delay ≤ now - t) ∧ ∀ t ∈ s.earlier, delay ≤ now - t := by
  rw [RedisAttempt.Waited, later, earlier]
  cases s.disconnected with
  | true => exact and_comm
  | false => exact Iff.rfl

theorem waited_later_iff (h : s.Stamped delay) {call : ConnectCall}
    (hattempts : s.redis.Attempts call) {t : UInt32} (ht : s.later = some t) :
    delay ≤ s.now call - t ↔ t ≠ 0 ∨ delay ≤ s.now call := by
  have hstamp := h.delayDisconnect
  rw [ht, Option.getD_some] at hstamp
  by_cases hzero : t = 0
  · rw [hzero, UInt32.sub_zero]
    exact ⟨Or.inr, fun h => h.resolve_left fun hne => hne rfl⟩
  · refine ⟨fun _ => .inl hzero, fun _ => ?_⟩
    have hearly := hattempts.2
    rw [YYRedis.TooEarly, hstamp, h.delayConnectTime] at hearly
    rw [now, hstamp, if_pos hzero, ← UInt32.not_lt]
    exact fun hlt => hearly ⟨hzero, hlt⟩

theorem attempt_waited_iff (h : s.Stamped delay) {call : ConnectCall}
    (hattempts : s.redis.Attempts call) :
    (RedisAttempt.mk (s.now call) s.lastAttempt s.lastDisconnect).Waited delay ↔
      s.Measured delay (.connect call) := by
  rw [waited_iff, Measured]
  cases hlater : s.later with
  | none =>
      rw [h.earlier hlater]
      constructor
      · rintro - -
        exact ⟨fun t ht => (Option.not_mem_none t ht).elim,
          fun t ht => (Option.not_mem_none t ht).elim⟩
      · rintro -
        exact ⟨fun t ht => (Option.not_mem_none t ht).elim,
          fun t ht => (Option.not_mem_none t ht).elim⟩
  | some t =>
      have hwaited := waited_later_iff h hattempts hlater
      simp only [Option.mem_def, Option.some.injEq, forall_eq', hattempts, true_imp_iff, hwaited]
      constructor
      · rintro ⟨ht, hearlier⟩
        exact ⟨ht, fun t' ht' => (waited_earlier_iff (hwaited.mpr ht)).mp (hearlier t' ht')⟩
      · rintro ⟨ht, hearlier⟩
        exact ⟨ht, fun t' ht' => (waited_earlier_iff (hwaited.mpr ht)).mpr (hearlier t' ht')⟩

theorem step_throttled_iff (h : s.Stamped delay) (hthrottled : s.Throttled delay)
    (action : ClockAction) : (s.step action).Throttled delay ↔ s.Measured delay action := by
  cases action with
  | connect call =>
      rw [step]
      split
      · rename_i hattempts
        rw [← attempt_waited_iff h hattempts, Throttled, attempted, List.forall_mem_append,
          List.forall_mem_singleton]
        exact and_iff_right hthrottled
      · rename_i hattempts
        exact ⟨fun _ hnot => absurd hnot hattempts, fun _ => hthrottled⟩
  | connectCallback ok => exact ⟨fun _ => trivial, fun _ => hthrottled⟩
  | disconnectCallback tick => exact ⟨fun _ => trivial, fun _ => hthrottled⟩

/-- `Connect` keeps to the delay in exactly the runs whose attempts are measured. -/
theorem throttled_iff (delay : UInt32) (actions : List ClockAction) :
    (∃ s, (redisClock delay).run actions (redisClock delay).init = some s) ∧
      ((redisClock delay).Always (Throttled delay) actions (redisClock delay).init ↔
        (redisClock delay).Guarded (Measured delay) actions (redisClock delay).init) := by
  have hrun : ∃ s, (redisClock delay).run actions (redisClock delay).init = some s := by
    have hstep : ∀ s action, True → ∃ t, (redisClock delay).step s action = some t ∧ True :=
      fun s action _ => ⟨s.step action, rfl, trivial⟩
    exact Transition.exists_run hstep actions trivial
  refine ⟨hrun, ?_⟩
  obtain ⟨u, hu⟩ := hrun
  have hholds : ∀ s, Stamped delay s ∧ Throttled delay s → Throttled delay s := fun _ h => h.2
  have hkeep : ∀ s action t, Stamped delay s ∧ Throttled delay s → s.Measured delay action →
      (redisClock delay).step s action = some t → Stamped delay t ∧ Throttled delay t := by
    intro s action t h hmeasured hstep
    cases hstep
    exact ⟨step_stamped h.1 action, (step_throttled_iff h.1 h.2 action).mpr hmeasured⟩
  have hbreak : ∀ s action t, Stamped delay s ∧ Throttled delay s → ¬ s.Measured delay action →
      (redisClock delay).step s action = some t → ¬ Throttled delay t := by
    intro s action t h hmeasured hstep
    cases hstep
    exact fun hthrottled => hmeasured ((step_throttled_iff h.1 h.2 action).mp hthrottled)
  exact Transition.always_iff_guarded_of hholds hkeep hbreak
    ⟨init_stamped, List.forall_mem_nil _⟩ hu

/-- An attempt at tick 0 leaves the stamp that stands for none. -/
theorem not_throttled :
    ((redisClock 10000).run [.connect ⟨false, 0, 0, false⟩, .connect ⟨false, 1, 1, false⟩]
        (redisClock 10000).init).map RedisClock.attempts =
      some [⟨0, none, none⟩, ⟨1, some 0, none⟩] ∧
    ¬ (redisClock 10000).Always (Throttled 10000)
      [.connect ⟨false, 0, 0, false⟩, .connect ⟨false, 1, 1, false⟩] (redisClock 10000).init := by
  refine ⟨by decide +kernel, ?_⟩
  intro hall
  have hwaited := (hall.of_run rfl) ⟨1, some 0, none⟩ (by decide)
  exact absurd (hwaited.1 0 rfl) (by decide)

end RedisClock

end MmsSvr
