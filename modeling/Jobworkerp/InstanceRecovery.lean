/-
Jobworkerp/InstanceRecovery.lean

The heartbeat of a worker instance and its recovery
(`worker_instance/redis.rs`, `instance_registrar.rs`, `instance_session.rs`).

Redis stores the time of the last heartbeat of the instance and, during a
recovery, a lock.  An instance may be locked when its heartbeat is older than
the instance timeout.  The worker has its own notion of being alive: its
session is fresh for the same timeout after the last answer to a heartbeat.

All parties read one clock, in ticks; Redis counts whole milliseconds.  Every
script of Redis and every function of the session is a single step.  Between the
execution of a heartbeat and its answer any time may pass.

* `RecoveryStep.heartbeat_refused`: no heartbeat succeeds while the lock exists.
* `RecoveryStep.stale`: while nothing can be recorded, a session that is out of
  date stays so, if the answers are prompt.
* `no_start_under_recovery`: what follows for a run with prompt answers.
* `delayedRun_starts`: a run with a late answer that starts an attempt.
-/
import Jobworkerp.InstanceSession
import Mathlib.Algebra.Order.Ring.Nat

namespace Jobworkerp

open Interleaving

/-! ### Redis -/

/-- The key of the recovery lock: its value and when it expires. -/
structure RecoveryLock where
  recoveryId : String
  expiresAt : ℕ
  deriving DecidableEq, Repr

/-- What Redis stores of one instance: its field of the registry, its field of
the heartbeats and its lock. -/
structure InstanceStore where
  record : Option (List UInt8)
  heartbeat : Option ℕ
  lock : Option RecoveryLock
  deriving DecidableEq, Repr

/-- `ExpiredWorkerInstance`, as it was observed. -/
structure ExpiredWorkerInstance where
  registryValue : List UInt8
  observedHeartbeat : ℕ
  deriving DecidableEq, Repr

namespace InstanceStore

variable (s : InstanceStore)

/-- The lock exists and has not expired. -/
def locked (now : ℕ) : Prop :=
  ∃ lock ∈ s.lock, now < lock.expiresAt
  deriving Decidable

/-- The lock exists and is the one of this recovery. -/
def ownedBy (now : ℕ) (recoveryId : String) : Prop :=
  ∃ lock ∈ s.lock, now < lock.expiresAt ∧ lock.recoveryId = recoveryId
  deriving Decidable

/-- The instance is still as it was observed, and its heartbeat is too old. -/
def expired (e : ExpiredWorkerInstance) (timeout now : ℕ) : Prop :=
  s.record = some e.registryValue ∧ s.heartbeat = some e.observedHeartbeat ∧
    e.observedHeartbeat + timeout ≤ now
  deriving Decidable

/-- The script of `upsert`. -/
def upsert (data : List UInt8) (now : ℕ) : InstanceStore × ℤ :=
  if s.record.isSome then (s, 0)
  else if s.locked now then (s, -1)
  else ({ s with record := some data, heartbeat := some now }, 1)

/-- The script of `update_heartbeat`. -/
def updateHeartbeat (now : ℕ) : InstanceStore × ℤ :=
  if s.record.isNone then (s, 0)
  else if s.heartbeat.isNone then (s, 0)
  else if s.locked now then (s, -1)
  else ({ s with heartbeat := some now }, 1)

/-- The script of `try_lock_expired`. -/
def tryLockExpired (e : ExpiredWorkerInstance) (timeout : ℕ)
    (recoveryId : String) (lockTtl now : ℕ) : InstanceStore × Bool :=
  if s.expired e timeout now then
    if s.locked now then (s, false)
    else ({ s with lock := some ⟨recoveryId, now + lockTtl⟩ }, true)
  else (s, false)

/-- The script of `refresh_recovery_lock`. -/
def refreshRecoveryLock (recoveryId : String) (lockTtl now : ℕ) :
    InstanceStore × Bool :=
  if s.ownedBy now recoveryId then
    ({ s with lock := some ⟨recoveryId, now + lockTtl⟩ }, true)
  else (s, false)

/-- The script of `release_recovery_lock`. -/
def releaseRecoveryLock (recoveryId : String) (now : ℕ) :
    InstanceStore × Bool :=
  if s.ownedBy now recoveryId then ({ s with lock := none }, true) else (s, false)

/-- The script of `delete_expired_owned`. -/
def deleteExpiredOwned (e : ExpiredWorkerInstance) (timeout : ℕ)
    (recoveryId : String) (now : ℕ) : InstanceStore × Bool :=
  if s.ownedBy now recoveryId ∧ s.expired e timeout now then (⟨none, none, none⟩, true)
  else (s, false)

end InstanceStore

/-! ### The heartbeat loop -/

/-- Where the heartbeat loop is: it waits for its interval, a request is on its
way to Redis, or Redis has executed it and the answer is on its way back. -/
inductive HeartbeatLoop
  | waiting
  | sent
  | executed (answer : ℤ) (time : ℕ)
  | stopped
  deriving DecidableEq, Repr

/-- The settings of the worker and of the recovery, with the ticks of the clock
in a millisecond.  Both sides use the one instance timeout. -/
structure RecoveryConfig where
  ticks : ℕ
  instanceTimeout : ℕ
  startPermitTimeout : ℕ
  heartbeatFailureThreshold : ℕ
  heartbeatFailureTimeout : ℕ
  deriving Repr

/-- One worker instance and what Redis stores of it. -/
structure RecoverySystem where
  clock : ℕ
  store : InstanceStore
  worker : SessionSystem
  loop : HeartbeatLoop
  /-- `register` has returned. -/
  registered : Bool
  consecutiveFailures : ℕ
  firstFailureAt : Option ℕ
  /-- Heartbeat requests the worker gave up before Redis executed them. -/
  abandoned : ℕ
  deriving DecidableEq, Repr

/-- What is seen of a step. -/
inductive RecoveryEvent
  | heartbeat (answer : ℤ)
  | answer
  | acquire (permit : Option ExecutionStartPermit)
  | confirm (permit : ExecutionStartPermit) (started : Bool)
  | tryLock (recoveryId : String) (locked : Bool)
  | internal
  deriving DecidableEq, Repr

namespace RecoverySystem

variable (cfg : RecoveryConfig)

variable (c : RecoverySystem)

/-- The time Redis reads. -/
def millis : ℕ := c.clock / cfg.ticks

/-- `record_heartbeat_success`, at the answer to a heartbeat or to `register`. -/
def succeed : RecoverySystem :=
  { c with
    worker.session := c.worker.session.recordHeartbeatSuccess c.clock
    loop := .waiting, registered := true, consecutiveFailures := 0, firstFailureAt := none }

/-- The answer that the instance is gone or locked. -/
def disown : RecoverySystem :=
  { c with worker.session := c.worker.session.beginIsolation, loop := .stopped }

/-- `should_isolate`, with the failure counted. -/
def shouldIsolate : Bool :=
  cfg.heartbeatFailureThreshold ≤ c.consecutiveFailures + 1 ||
    cfg.heartbeatFailureTimeout ≤ c.clock - c.firstFailureAt.getD c.clock

/-- A request that failed or timed out.  A failed `register` ends the worker. -/
def giveUp : RecoverySystem :=
  if c.registered = false then { c with loop := .stopped }
  else if c.shouldIsolate cfg then c.disown
  else
    { c with
      loop := .waiting, consecutiveFailures := c.consecutiveFailures + 1
      firstFailureAt := some (c.firstFailureAt.getD c.clock) }

end RecoverySystem

/-- The state right after Redis has executed the `upsert` of `register`. -/
def registering (cfg : RecoveryConfig) (created : ℕ) (instanceId : ℤ) (data : List UInt8)
    (now : ℕ) : RecoverySystem where
  clock := now
  store := (InstanceStore.upsert ⟨none, none, none⟩ data (now / cfg.ticks)).1
  worker := ⟨.new created instanceId (cfg.instanceTimeout * cfg.ticks)
    (cfg.startPermitTimeout * cfg.ticks), []⟩
  loop := .executed (InstanceStore.upsert ⟨none, none, none⟩ data (now / cfg.ticks)).2 now
  registered := false
  consecutiveFailures := 0
  firstFailureAt := none
  abandoned := 0

inductive RecoveryStep (cfg : RecoveryConfig) :
    RecoverySystem → RecoveryEvent → RecoverySystem → Prop
  | tick {c : RecoverySystem} (n : ℕ) :
      RecoveryStep cfg c .internal { c with clock := c.clock + n }
  -- the heartbeat loop, and Redis executing its requests
  | send {c : RecoverySystem} (h : c.loop = .waiting) :
      RecoveryStep cfg c .internal { c with loop := .sent }
  | execute {c : RecoverySystem} (h : c.loop = .sent) :
      RecoveryStep cfg c (.heartbeat (c.store.updateHeartbeat (c.millis cfg)).2)
        { c with
          store := (c.store.updateHeartbeat (c.millis cfg)).1
          loop := .executed (c.store.updateHeartbeat (c.millis cfg)).2 c.clock }
  | executeAbandoned {c : RecoverySystem} {n : ℕ} (h : c.abandoned = n + 1) :
      RecoveryStep cfg c (.heartbeat (c.store.updateHeartbeat (c.millis cfg)).2)
        { c with store := (c.store.updateHeartbeat (c.millis cfg)).1, abandoned := n }
  | succeed {c : RecoverySystem} {t : ℕ} (h : c.loop = .executed 1 t) :
      RecoveryStep cfg c .answer c.succeed
  | disown {c : RecoverySystem} {answer : ℤ} {t : ℕ} (h : c.loop = .executed answer t)
      (hanswer : answer ≠ 1) : RecoveryStep cfg c .answer c.disown
  | failSent {c : RecoverySystem} (h : c.loop = .sent) :
      RecoveryStep cfg c .internal
        (RecoverySystem.giveUp cfg { c with abandoned := c.abandoned + 1 })
  | failExecuted {c : RecoverySystem} {answer : ℤ} {t : ℕ} (h : c.loop = .executed answer t) :
      RecoveryStep cfg c .internal (c.giveUp cfg)
  | shutdown {c : RecoverySystem} (h : c.loop = .waiting) :
      RecoveryStep cfg c .internal { c with loop := .stopped }
  -- `unregister` removes the two fields one after the other
  | unregister {c : RecoverySystem} :
      RecoveryStep cfg c .internal { c with store.record := none }
  | unregisterHeartbeat {c : RecoverySystem} (h : c.store.record = none) :
      RecoveryStep cfg c .internal { c with store.heartbeat := none }
  -- the session, which dispatchers get from a worker that has registered
  | acquire {c : RecoverySystem} (h : c.registered = true) :
      RecoveryStep cfg c (.acquire (c.worker.session.acquireStartPermit c.clock c.clock).2)
        { c with
          worker := ⟨(c.worker.session.acquireStartPermit c.clock c.clock).1,
            (c.worker.session.acquireStartPermit c.clock c.clock).2.toList ++ c.worker.live⟩ }
  | confirm {c : RecoverySystem} {permit : ExecutionStartPermit}
      (hlive : permit ∈ c.worker.live) :
      RecoveryStep cfg c
        (.confirm permit (c.worker.session.confirmStart permit c.clock c.clock)) c
  | drop {c : RecoverySystem} {permit : ExecutionStartPermit} (hlive : permit ∈ c.worker.live) :
      RecoveryStep cfg c .internal
        { c with worker := ⟨c.worker.session.releasePermit, c.worker.live.erase permit⟩ }
  | look {c : RecoverySystem} :
      RecoveryStep cfg c .internal { c with worker.session := c.worker.session.lookIsolated.1 }
  -- the recovery
  | tryLock {c : RecoverySystem} (e : ExpiredWorkerInstance) (recoveryId : String)
      (lockTtl : ℕ) (httl : 0 < lockTtl) :
      RecoveryStep cfg c
        (.tryLock recoveryId (c.store.tryLockExpired e cfg.instanceTimeout recoveryId lockTtl
          (c.millis cfg)).2)
        { c with
          store := (c.store.tryLockExpired e cfg.instanceTimeout recoveryId lockTtl
            (c.millis cfg)).1 }
  | refresh {c : RecoverySystem} (recoveryId : String) (lockTtl : ℕ) :
      RecoveryStep cfg c .internal
        { c with store := (c.store.refreshRecoveryLock recoveryId lockTtl (c.millis cfg)).1 }
  | release {c : RecoverySystem} (recoveryId : String) :
      RecoveryStep cfg c .internal
        { c with store := (c.store.releaseRecoveryLock recoveryId (c.millis cfg)).1 }
  | deleteOwned {c : RecoverySystem} (e : ExpiredWorkerInstance) (recoveryId : String) :
      RecoveryStep cfg c .internal
        { c with
          store := (c.store.deleteExpiredOwned e cfg.instanceTimeout recoveryId
            (c.millis cfg)).1 }

/-! ### What a step does -/

/-- The lock of the instance exists. -/
def RecoverySystem.locked (cfg : RecoveryConfig) (c : RecoverySystem) : Prop :=
  c.store.locked (c.millis cfg)

/-- A step that neither stores nor records a heartbeat. -/
structure Unrecorded (c c' : RecoverySystem) : Prop where
  clock : c.clock ≤ c'.clock
  record : c'.store.record = none ∨ c'.store.record = c.store.record
  heartbeat : c'.store.heartbeat = none ∨ c'.store.heartbeat = c.store.heartbeat
  registered : c'.registered = c.registered
  recorded : c'.worker.session.lastHeartbeatSuccess = c.worker.session.lastHeartbeatSuccess
  timeout : c'.worker.session.instanceTimeout = c.worker.session.instanceTimeout
  active : c'.worker.session.state = .active → c.worker.session.state = .active
  live : c.registered = false → c.worker.live = [] → c'.worker.live = []
  answers : ∀ t, c'.loop = .executed 1 t → c.loop = .executed 1 t

section Steps

variable {cfg : RecoveryConfig} {c c' : RecoverySystem} {e : RecoveryEvent}

theorem Unrecorded.refl (c : RecoverySystem) : Unrecorded c c :=
  ⟨le_rfl, .inr rfl, .inr rfl, rfl, rfl, rfl, id, fun _ => id, fun _ => id⟩

/-- A function of the session that records nothing and does not make it active. -/
def RecordsNothing (s s' : SessionEpochState) : Prop :=
  s'.lastHeartbeatSuccess = s.lastHeartbeatSuccess ∧ s'.instanceTimeout = s.instanceTimeout ∧
    (s'.state = .active → s.state = .active)

theorem recordsNothing_beginIsolation (s : SessionEpochState) :
    RecordsNothing s s.beginIsolation := by
  unfold SessionEpochState.beginIsolation
  split_ifs
  · exact ⟨rfl, rfl, nofun⟩
  · exact ⟨rfl, rfl, id⟩

/-- What the session functions that dispatchers call leave alone. -/
theorem recordsNothing_acquireStartPermit (s : SessionEpochState) (now later : ℕ) :
    RecordsNothing s (s.acquireStartPermit now later).1 := by
  rcases acquireStartPermit_cases s now later with h | ⟨-, permit, h⟩
  · rw [h]
    exact ⟨rfl, rfl, nofun⟩
  · rw [h]
    exact ⟨rfl, rfl, id⟩

theorem recordsNothing_lookIsolated (s : SessionEpochState) :
    RecordsNothing s s.lookIsolated.1 := by
  unfold SessionEpochState.lookIsolated
  split_ifs
  · exact ⟨rfl, rfl, nofun⟩
  · exact ⟨rfl, rfl, id⟩

theorem unrecorded_disown (c : RecoverySystem) : Unrecorded c c.disown where
  clock := le_rfl
  record := .inr rfl
  heartbeat := .inr rfl
  registered := rfl
  recorded := (recordsNothing_beginIsolation _).1
  timeout := (recordsNothing_beginIsolation _).2.1
  active := (recordsNothing_beginIsolation _).2.2
  live := fun _ h => h
  answers := nofun

theorem unrecorded_giveUp (cfg : RecoveryConfig) (c : RecoverySystem) :
    Unrecorded c (c.giveUp cfg) := by
  unfold RecoverySystem.giveUp
  split_ifs
  · exact { Unrecorded.refl c with answers := nofun }
  · exact unrecorded_disown c
  · exact { Unrecorded.refl c with answers := nofun }

theorem unrecorded_store (hrecord : s.record = none ∨ s.record = c.store.record)
    (hheartbeat : s.heartbeat = none ∨ s.heartbeat = c.store.heartbeat) :
    Unrecorded c { c with store := s } :=
  { Unrecorded.refl c with record := hrecord, heartbeat := hheartbeat }

theorem updateHeartbeat_cases (s : InstanceStore) (now : ℕ) :
    (s.updateHeartbeat now).1 = s ∧ (s.updateHeartbeat now).2 ≠ 1 ∨
      s.record ≠ none ∧ s.heartbeat ≠ none ∧ ¬ s.locked now ∧
        s.updateHeartbeat now = ({ s with heartbeat := some now }, 1) := by
  unfold InstanceStore.updateHeartbeat
  by_cases hrecord : s.record.isNone
  · rw [if_pos hrecord]
    exact .inl ⟨rfl, zero_ne_one⟩
  rw [if_neg hrecord]
  by_cases hheartbeat : s.heartbeat.isNone
  · rw [if_pos hheartbeat]
    exact .inl ⟨rfl, zero_ne_one⟩
  rw [if_neg hheartbeat]
  by_cases hlocked : s.locked now
  · rw [if_pos hlocked]
    have hanswer : (-1 : ℤ) ≠ 1 := by decide
    exact .inl ⟨rfl, hanswer⟩
  rw [if_neg hlocked]
  rw [Option.isNone_iff_eq_none] at hrecord hheartbeat
  exact .inr ⟨hrecord, hheartbeat, hlocked, rfl⟩

theorem tryLockExpired_cases (s : InstanceStore) (e : ExpiredWorkerInstance) (timeout : ℕ)
    (recoveryId : String) (lockTtl now : ℕ) :
    s.tryLockExpired e timeout recoveryId lockTtl now = (s, false) ∨
      s.heartbeat = some e.observedHeartbeat ∧ e.observedHeartbeat + timeout ≤ now ∧
        s.tryLockExpired e timeout recoveryId lockTtl now =
          ({ s with lock := some ⟨recoveryId, now + lockTtl⟩ }, true) := by
  unfold InstanceStore.tryLockExpired
  by_cases hexpired : s.expired e timeout now
  · rw [if_pos hexpired]
    by_cases hlocked : s.locked now
    · rw [if_pos hlocked]
      exact .inl rfl
    · rw [if_neg hlocked]
      exact .inr ⟨hexpired.2.1, hexpired.2.2, rfl⟩
  · rw [if_neg hexpired]
    exact .inl rfl

/-- **What a step does**: it leaves the heartbeats alone, or it stores a heartbeat, or it records
one. -/
theorem RecoveryStep.kinds (h : RecoveryStep cfg c e c') : Unrecorded c c' ∧ e ≠ .heartbeat 1 ∨
      (e = .heartbeat 1 ∧ c.store.record ≠ none ∧ c.store.heartbeat ≠ none ∧ ¬ c.locked cfg ∧
        ∃ loop n, (loop = c.loop ∨ loop = .executed 1 c.clock) ∧
          c' = { c with
            store.heartbeat := some (c.millis cfg), loop := loop, abandoned := n }) ∨
      e = .answer ∧ c' = c.succeed ∧ ∃ t, c.loop = .executed 1 t := by
  cases h with
  | tick n => exact .inl ⟨{ Unrecorded.refl c with clock := Nat.le_add_right _ _ }, nofun⟩
  | send | shutdown => exact .inl ⟨{ Unrecorded.refl c with answers := nofun }, nofun⟩
  | execute =>
    rcases updateHeartbeat_cases c.store (c.millis cfg) with
      ⟨hstore, hanswer⟩ | ⟨hrecord, hheartbeat, hlocked, heq⟩
    · refine .inl ⟨?_, fun he => hanswer (RecoveryEvent.heartbeat.inj he)⟩
      rw [hstore]
      refine { Unrecorded.refl c with answers := fun t ht => ?_ }
      exact absurd (HeartbeatLoop.executed.inj ht).1 hanswer
    · rw [heq]
      exact .inr (.inl ⟨rfl, hrecord, hheartbeat, hlocked, _, c.abandoned, .inr rfl, rfl⟩)
  | @executeAbandoned n =>
    rcases updateHeartbeat_cases c.store (c.millis cfg) with
      ⟨hstore, hanswer⟩ | ⟨hrecord, hheartbeat, hlocked, heq⟩
    · refine .inl ⟨?_, fun he => hanswer (RecoveryEvent.heartbeat.inj he)⟩
      rw [hstore]
      exact { Unrecorded.refl c with }
    · rw [heq]
      exact .inr (.inl ⟨rfl, hrecord, hheartbeat, hlocked, _, n, .inl rfl, rfl⟩)
  | succeed hloop => exact .inr (.inr ⟨rfl, rfl, _, hloop⟩)
  | disown => exact .inl ⟨unrecorded_disown c, nofun⟩
  | failSent =>
    have h := unrecorded_giveUp cfg { c with abandoned := c.abandoned + 1 }
    exact .inl ⟨⟨h.clock, h.record, h.heartbeat, h.registered, h.recorded, h.timeout,
      h.active, h.live, h.answers⟩, nofun⟩
  | failExecuted => exact .inl ⟨unrecorded_giveUp cfg c, nofun⟩
  | unregister => exact .inl ⟨unrecorded_store (.inl rfl) (.inr rfl), nofun⟩
  | unregisterHeartbeat => exact .inl ⟨unrecorded_store (.inr rfl) (.inl rfl), nofun⟩
  | acquire hregistered =>
    have hsession := recordsNothing_acquireStartPermit c.worker.session c.clock c.clock
    refine .inl ⟨{ Unrecorded.refl c with
      recorded := hsession.1, timeout := hsession.2.1, active := hsession.2.2, live := ?_ },
      nofun⟩
    intro hnot
    rw [hregistered] at hnot
    cases hnot
  | confirm => exact .inl ⟨Unrecorded.refl c, nofun⟩
  | drop hlive =>
    refine .inl ⟨{ Unrecorded.refl c with
      recorded := rfl, timeout := rfl, active := id, live := ?_ }, nofun⟩
    intro _ hnil
    rw [hnil] at hlive
    cases hlive
  | look =>
    have hsession := recordsNothing_lookIsolated c.worker.session
    exact .inl ⟨{ Unrecorded.refl c with
      recorded := hsession.1, timeout := hsession.2.1, active := hsession.2.2 }, nofun⟩
  | tryLock expired recoveryId lockTtl httl =>
    refine .inl ⟨?_, nofun⟩
    rcases tryLockExpired_cases c.store expired cfg.instanceTimeout recoveryId lockTtl
      (c.millis cfg) with heq | ⟨-, -, heq⟩
    · rw [heq]
      exact Unrecorded.refl c
    · rw [heq]
      exact unrecorded_store (.inr rfl) (.inr rfl)
  | refresh recoveryId lockTtl =>
    refine .inl ⟨unrecorded_store (.inr ?_) (.inr ?_), nofun⟩
    all_goals unfold InstanceStore.refreshRecoveryLock; split_ifs <;> rfl
  | release recoveryId =>
    refine .inl ⟨unrecorded_store (.inr ?_) (.inr ?_), nofun⟩
    all_goals unfold InstanceStore.releaseRecoveryLock; split_ifs <;> rfl
  | deleteOwned expired recoveryId =>
    refine .inl ⟨?_, nofun⟩
    unfold InstanceStore.deleteExpiredOwned
    split_ifs
    · exact unrecorded_store (.inl rfl) (.inl rfl)
    · exact Unrecorded.refl c

/-- The heartbeat in Redis is too old. -/
def RecoverySystem.expired (cfg : RecoveryConfig) (c : RecoverySystem) : Prop :=
  ∃ h, c.store.heartbeat = some h ∧ h + cfg.instanceTimeout ≤ c.millis cfg

theorem millis_le_of_clock (h : c.clock ≤ c'.clock) : c.millis cfg ≤ c'.millis cfg :=
  Nat.div_le_div_right h

/-- Only an instance whose heartbeat is too old gets a lock. -/
theorem RecoveryStep.expired_of_locked (h : RecoveryStep cfg c e c') (hlocked : c'.locked cfg) :
    c.locked cfg ∨ c.expired cfg := by
  cases h with
  | tick n =>
    obtain ⟨lock, hlock, hlt⟩ := hlocked
    exact .inl ⟨lock, hlock, (millis_le_of_clock (Nat.le_add_right _ _)).trans_lt hlt⟩
  | execute | executeAbandoned =>
    refine .inl ?_
    rcases updateHeartbeat_cases c.store (c.millis cfg) with ⟨heq, -⟩ | ⟨-, -, -, heq⟩
    · rw [heq] at hlocked
      exact hlocked
    · rw [heq] at hlocked
      exact hlocked
  | failSent | failExecuted =>
    unfold RecoverySystem.giveUp at hlocked
    split_ifs at hlocked <;> exact .inl hlocked
  | tryLock expired recoveryId lockTtl httl =>
    rcases tryLockExpired_cases c.store expired cfg.instanceTimeout recoveryId lockTtl
      (c.millis cfg) with heq | ⟨hheartbeat, hold, -⟩
    · rw [heq] at hlocked
      exact .inl hlocked
    · exact .inr ⟨_, hheartbeat, hold⟩
  | refresh recoveryId lockTtl =>
    unfold InstanceStore.refreshRecoveryLock at hlocked
    split_ifs at hlocked with howned
    · obtain ⟨lock, hlock, hlt, -⟩ := howned
      exact .inl ⟨lock, hlock, hlt⟩
    · exact .inl hlocked
  | release recoveryId =>
    unfold InstanceStore.releaseRecoveryLock at hlocked
    split_ifs at hlocked
    · obtain ⟨lock, hlock, -⟩ := hlocked
      cases hlock
    · exact .inl hlocked
  | deleteOwned expired recoveryId =>
    unfold InstanceStore.deleteExpiredOwned at hlocked
    split_ifs at hlocked
    · obtain ⟨lock, hlock, -⟩ := hlocked
      cases hlock
    · exact .inl hlocked
  | send | succeed | disown | shutdown | unregister | unregisterHeartbeat | acquire | confirm
  | drop | look => exact .inl hlocked

/-- A lock that was taken is the lock of an instance that was too old. -/
theorem RecoveryStep.expired_of_tryLock
    (h : RecoveryStep cfg c (.tryLock recoveryId true) c') : c.expired cfg ∧ c'.locked cfg := by
  generalize he : RecoveryEvent.tryLock recoveryId true = e at h
  cases h with
  | tryLock expired recoveryId lockTtl httl =>
    rcases tryLockExpired_cases c.store expired cfg.instanceTimeout recoveryId lockTtl
      (c.millis cfg) with heq | ⟨hheartbeat, hold, heq⟩
    · rw [heq] at he
      cases he
    · refine ⟨⟨_, hheartbeat, hold⟩, ?_⟩
      rw [heq]
      exact ⟨_, rfl, Nat.lt_add_of_pos_right httl⟩
  | _ => cases he

/-- **No heartbeat succeeds while the lock exists.** -/
theorem RecoveryStep.heartbeat_refused (h : RecoveryStep cfg c e c') (hlocked : c.locked cfg) :
    e ≠ .heartbeat 1 := by
  rcases h.kinds with ⟨-, he⟩ | ⟨-, -, -, hnot, -⟩ | ⟨rfl, -⟩
  · exact he
  · exact absurd hlocked hnot
  · exact nofun

/-! ### The two notions of being alive -/

/-- An answer that a heartbeat succeeded is recorded no later than at the time
that Redis stored for the heartbeat. -/
def Prompt (cfg : RecoveryConfig) (c : RecoverySystem) (e : RecoveryEvent) : Prop :=
  e = .answer → ∀ t, c.loop = .executed 1 t → c.clock ≤ t / cfg.ticks * cfg.ticks

/-- The worker takes itself for alive no longer than Redis does. -/
structure Alive (cfg : RecoveryConfig) (c : RecoverySystem) : Prop where
  past : ∀ h, c.store.heartbeat = some h → h ≤ c.millis cfg
  pending : ∀ t h, c.loop = .executed 1 t → c.store.heartbeat = some h → t / cfg.ticks ≤ h
  recorded : ∀ h, c.registered = true → c.worker.session.state = .active →
    c.store.heartbeat = some h → c.worker.session.lastHeartbeatSuccess ≤ h * cfg.ticks
  live : c.registered = false → c.worker.live = []
  timeout : c.worker.session.instanceTimeout = cfg.instanceTimeout * cfg.ticks

theorem registering_alive (cfg : RecoveryConfig) (created : ℕ) (instanceId : ℤ)
    (data : List UInt8) (now : ℕ) : Alive cfg (registering cfg created instanceId data now) := by
  have hupsert : InstanceStore.upsert ⟨none, none, none⟩ data (now / cfg.ticks) =
      (⟨some data, some (now / cfg.ticks), none⟩, 1) := by
    simp [InstanceStore.upsert, InstanceStore.locked]
  unfold registering
  rw [hupsert]
  refine ⟨?_, ?_, nofun, fun _ => rfl, rfl⟩
  · rintro h ⟨⟩
    exact le_rfl
  · rintro t h ⟨⟩ ⟨⟩
    exact le_rfl

theorem Unrecorded.alive (hquiet : Unrecorded c c') (h : Alive cfg c) : Alive cfg c' := by
  have hstored (t : ℕ) (ht : c'.store.heartbeat = some t) : c.store.heartbeat = some t := by
    rcases hquiet.heartbeat with hnone | hsame
    · rw [hnone] at ht
      cases ht
    · rw [← hsame, ht]
  refine ⟨fun t ht => ?_, fun t s ht hs => ?_, fun t hreg hactive ht => ?_, fun hreg => ?_, ?_⟩
  · exact (h.past t (hstored t ht)).trans (millis_le_of_clock hquiet.clock)
  · exact h.pending t s (hquiet.answers t ht) (hstored s hs)
  · rw [hquiet.recorded]
    exact h.recorded t (hquiet.registered ▸ hreg) (hquiet.active hactive) (hstored t ht)
  · rw [hquiet.registered] at hreg
    exact hquiet.live hreg (h.live hreg)
  · rw [hquiet.timeout, h.timeout]

theorem recordHeartbeatSuccess_cases (s : SessionEpochState) (now : ℕ) :
    (s.recordHeartbeatSuccess now).instanceTimeout = s.instanceTimeout ∧
      ((s.recordHeartbeatSuccess now).lastHeartbeatSuccess = now ∨
        s.recordHeartbeatSuccess now = s ∧ s.state ≠ .active) := by
  unfold SessionEpochState.recordHeartbeatSuccess
  split_ifs with hactive
  · exact ⟨rfl, .inl rfl⟩
  · exact ⟨rfl, .inr ⟨rfl, hactive⟩⟩

/-- **The worker takes itself for alive no longer than Redis does**, if the
answers are prompt. -/
theorem RecoveryStep.alive (hstep : RecoveryStep cfg c e c') (hprompt : Prompt cfg c e)
    (h : Alive cfg c) : Alive cfg c' := by
  rcases hstep.kinds with ⟨hquiet, -⟩ | ⟨-, -, hsome, -, loop, n, hloop, rfl⟩ | ⟨rfl, rfl, t, ht⟩
  · exact hquiet.alive h
  · -- a heartbeat is stored, no earlier than the one before it
    obtain ⟨old, hold⟩ := Option.ne_none_iff_exists'.mp hsome
    have hnewer : old ≤ c.millis cfg := h.past old hold
    refine ⟨?_, ?_, ?_, h.live, h.timeout⟩
    · rintro s ⟨⟩
      exact le_rfl
    · rintro t s ht ⟨⟩
      rcases hloop with rfl | rfl
      · exact (h.pending t old ht hold).trans hnewer
      · cases ht
        exact le_rfl
    · rintro s hreg hactive ⟨⟩
      exact (h.recorded old hreg hactive hold).trans (Nat.mul_le_mul_right _ hnewer)
  · -- the answer to the heartbeat of `t` is recorded
    have hsession := recordHeartbeatSuccess_cases c.worker.session c.clock
    refine ⟨h.past, nofun, fun s _ hactive hs => ?_, nofun, hsession.1.trans h.timeout⟩
    rcases hsession.2 with hnow | ⟨hsame, hinactive⟩
    · calc (c.worker.session.recordHeartbeatSuccess c.clock).lastHeartbeatSuccess
        _ = c.clock := hnow
        _ ≤ t / cfg.ticks * cfg.ticks := hprompt rfl t ht
        _ ≤ s * cfg.ticks := Nat.mul_le_mul_right _ (h.pending t s ht hs)
    · refine absurd ?_ hinactive
      rw [← hsame]
      exact hactive

/-- The session is out of date, and no answer that is on its way will change
that. -/
structure Stale (cfg : RecoveryConfig) (c : RecoverySystem) : Prop where
  recorded : c.registered = true → c.worker.session.state = .active →
    c.worker.session.lastHeartbeatSuccess + cfg.instanceTimeout * cfg.ticks ≤ c.clock
  pending : ∀ t, c.loop = .executed 1 t →
    (t / cfg.ticks + cfg.instanceTimeout) * cfg.ticks ≤ c.clock

/-- A worker that Redis takes for dead takes itself for dead. -/
theorem Alive.stale (h : Alive cfg c) (hexpired : c.expired cfg) : Stale cfg c := by
  obtain ⟨s, hs, hold⟩ := hexpired
  have hclock : (s + cfg.instanceTimeout) * cfg.ticks ≤ c.clock :=
    (Nat.mul_le_mul_right _ hold).trans (Nat.div_mul_le_self _ _)
  constructor
  · intro hreg hactive
    have hlast := h.recorded s hreg hactive hs
    rw [Nat.add_mul] at hclock
    omega
  · intro t ht
    have hstored := h.pending t s ht hs
    exact (Nat.mul_le_mul_right _ (Nat.add_le_add_right hstored _)).trans hclock

theorem Unrecorded.stale (hquiet : Unrecorded c c') (h : Stale cfg c) : Stale cfg c' := by
  refine ⟨fun hreg hactive => ?_, fun t ht => ?_⟩
  · rw [hquiet.recorded]
    exact (h.recorded (hquiet.registered ▸ hreg) (hquiet.active hactive)).trans hquiet.clock
  · exact (h.pending t (hquiet.answers t ht)).trans hquiet.clock

/-- No heartbeat can succeed. -/
def Barred (cfg : RecoveryConfig) (c : RecoverySystem) : Prop :=
  c.locked cfg ∨ c.store.record = none ∨ c.store.heartbeat = none

section

variable (hstep : RecoveryStep cfg c e c')

include hstep

theorem RecoveryStep.not_heartbeat_of_barred (h : Barred cfg c) : e ≠ .heartbeat 1 := by
  rintro rfl
  rcases hstep.kinds with ⟨-, he⟩ | ⟨-, hrecord, hheartbeat, hlocked, -⟩ | ⟨he, -⟩
  · exact he rfl
  · rcases h with h | h | h
    · exact hlocked h
    · exact hrecord h
    · exact hheartbeat h
  · cases he

/-- **While no heartbeat can succeed, a session that is out of date stays so**,
if the answers are prompt. -/
theorem RecoveryStep.stale (hprompt : Prompt cfg c e)
    (hbarred : Barred cfg c) (h : Stale cfg c) : Stale cfg c' := by
  have hnot := hstep.not_heartbeat_of_barred hbarred
  rcases hstep.kinds with ⟨hquiet, -⟩ | ⟨he, -⟩ | ⟨rfl, rfl, t, ht⟩
  · exact hquiet.stale h
  · exact absurd he hnot
  · -- the answer is recorded at a time that has passed long ago
    refine ⟨fun _ hactive => ?_, nofun⟩
    have hlate := h.pending t ht
    have hearly := hprompt rfl t ht
    rw [Nat.add_mul] at hlate
    rcases (recordHeartbeatSuccess_cases c.worker.session c.clock).2 with
      hnow | ⟨hsame, hinactive⟩
    · show (c.worker.session.recordHeartbeatSuccess c.clock).lastHeartbeatSuccess + _ ≤ c.clock
      rw [hnow]
      omega
    · refine absurd ?_ hinactive
      rw [← hsame]
      exact hactive

/-- Only a session that is up to date confirms a start. -/
theorem RecoveryStep.not_confirm_of_stale (halive : Alive cfg c)
    (h : Stale cfg c) (permit : ExecutionStartPermit) : e ≠ .confirm permit true := by
  intro he
  cases hstep with
  | @confirm permit' hlive =>
    have hconfirm : c.worker.session.confirmStart permit' c.clock c.clock = true := by
      injection he
    simp only [SessionEpochState.confirmStart, SessionEpochState.fresh, Bool.and_eq_true,
      decide_eq_true_eq] at hconfirm
    obtain ⟨⟨⟨hactive, -⟩, hfresh⟩, -⟩ := hconfirm
    have hregistered : c.registered = true := by
      cases hreg : c.registered with
      | true => rfl
      | false =>
        rw [halive.live hreg] at hlive
        cases hlive
    have hstale := h.recorded hregistered hactive
    rw [halive.timeout] at hfresh
    omega
  | _ => cases he

/-! ### Runs -/

/-- A step with a prompt answer, if it is one. -/
def PromptStep (cfg : RecoveryConfig) (c : RecoverySystem) (e : RecoveryEvent)
    (c' : RecoverySystem) : Prop :=
  RecoveryStep cfg c e c' ∧ Prompt cfg c e

/-- The lock is given up or expires only after the instance has been removed. -/
def KeepsLock (cfg : RecoveryConfig) (c c' : RecoverySystem) : Prop :=
  c.locked cfg → Barred cfg c'

theorem RecoveryStep.barred (hkeeps : KeepsLock cfg c c') (h : Barred cfg c) : Barred cfg c' := by
  have hnot := hstep.not_heartbeat_of_barred h
  rcases h with h | h | h
  · exact hkeeps h
  · rcases hstep.kinds with ⟨hquiet, -⟩ | ⟨he, -⟩ | ⟨-, rfl, -⟩
    · exact .inr (.inl (hquiet.record.elim id (·.trans h)))
    · exact absurd he hnot
    · exact .inr (.inl h)
  · rcases hstep.kinds with ⟨hquiet, -⟩ | ⟨he, -⟩ | ⟨-, rfl, -⟩
    · exact .inr (.inr (hquiet.heartbeat.elim id (·.trans h)))
    · exact absurd he hnot
    · exact .inr (.inr h)

end

/-- A locked instance has a session that is out of date. -/
theorem PromptStep.stale_of_locked (hstep : PromptStep cfg c e c')
    (h : Alive cfg c ∧ (c.locked cfg → Stale cfg c)) :
    Alive cfg c' ∧ (c'.locked cfg → Stale cfg c') := by
  refine ⟨hstep.1.alive hstep.2 h.1, fun hlocked' => ?_⟩
  by_cases hlocked : c.locked cfg
  · exact hstep.1.stale hstep.2 (.inl hlocked) (h.2 hlocked)
  · -- the lock is new: the step has recorded nothing
    have hexpired := (hstep.1.expired_of_locked hlocked').resolve_left hlocked
    have hstale := h.1.stale hexpired
    rcases hstep.1.kinds with ⟨hquiet, -⟩ | ⟨-, -, -, -, loop, n, -, rfl⟩ | ⟨-, rfl, -⟩
    · exact hquiet.stale hstale
    · exact absurd hlocked' hlocked
    · exact absurd hlocked' hlocked

theorem PromptStep.stale_of_barred (hstep : PromptStep cfg c e c') (hkeeps : KeepsLock cfg c c')
    (h : Alive cfg c ∧ Barred cfg c ∧ Stale cfg c) : Alive cfg c' ∧ Barred cfg c' ∧ Stale cfg c' :=
  ⟨hstep.1.alive hstep.2 h.1, hstep.1.barred hkeeps h.2.1, hstep.1.stale hstep.2 h.2.1 h.2.2⟩

end Steps

section Runs

variable {cfg : RecoveryConfig} {created : ℕ} {instanceId : ℤ} {data : List UInt8} {now : ℕ}
  {τ : List RecoveryEvent} {c c' : RecoverySystem} {recoveryId : String}

/-- **No start under recovery, if the answers are prompt.**  While the lock
exists no heartbeat succeeds and no start is confirmed; and if the lock is not
lost before the instance is removed, neither happens ever after. -/
theorem no_start_under_recovery
    (hrun : Run (PromptStep cfg) (registering cfg created instanceId data now) τ c)
    (hlock : PromptStep cfg c (.tryLock recoveryId true) c') :
    (∀ c₁ e c₂, RecoveryStep cfg c₁ e c₂ → c₁.locked cfg → e ≠ .heartbeat 1) ∧
    (∀ τ' c₁ e c₂, Run (PromptStep cfg) c' τ' c₁ → RecoveryStep cfg c₁ e c₂ → c₁.locked cfg →
      ∀ permit, e ≠ .confirm permit true) ∧
    ∀ τ' c₁, Run (fun c e c' => PromptStep cfg c e c' ∧ KeepsLock cfg c c') c' τ' c₁ →
      .heartbeat 1 ∉ τ' ∧ ∀ permit, .confirm permit true ∉ τ' := by
  have hstep (c : RecoverySystem) (e : RecoveryEvent) (c' : RecoverySystem)
      (h : PromptStep cfg c e c') := h.stale_of_locked
  have hbefore := hrun.invariant hstep
    ⟨registering_alive cfg created instanceId data now, fun hlocked => ?_⟩
  · have hc' := hlock.stale_of_locked hbefore
    have hlocked' := hlock.1.expired_of_tryLock.2
    refine ⟨fun _ _ _ h => h.heartbeat_refused, ?_, fun τ' c₁ hafter => ?_⟩
    · intro τ' c₁ e c₂ hafter hnext hlocked
      have hc1 := hafter.invariant hstep hc'
      exact hnext.not_confirm_of_stale hc1.1 (hc1.2 hlocked)
    · have hinv (c : RecoverySystem) (e : RecoveryEvent) (c' : RecoverySystem)
          (h : PromptStep cfg c e c' ∧ KeepsLock cfg c c') := h.1.stale_of_barred h.2
      have hstart : Alive cfg c' ∧ Barred cfg c' ∧ Stale cfg c' :=
        ⟨hc'.1, .inl hlocked', hc'.2 hlocked'⟩
      refine ⟨fun hmem => ?_, fun permit hmem => ?_⟩
      · obtain ⟨c₂, c3, hc2, hnext⟩ := hafter.mem_step hinv hstart hmem
        exact hnext.1.1.not_heartbeat_of_barred hc2.2.1 rfl
      · obtain ⟨c₂, c3, hc2, hnext⟩ := hafter.mem_step hinv hstart hmem
        exact hnext.1.1.not_confirm_of_stale hc2.1 hc2.2.2 permit rfl
  · -- a new instance has no lock
    obtain ⟨lock, hmem, -⟩ := hlocked
    simp [registering, InstanceStore.upsert, InstanceStore.locked] at hmem

end Runs

/-! ### Two runs -/

/-- A clock in milliseconds, and an instance timeout of ten of them. -/
def tenMillis : RecoveryConfig where
  ticks := 1
  instanceTimeout := 10
  startPermitTimeout := 100
  heartbeatFailureThreshold := 3
  heartbeatFailureTimeout := 60

/-- The worker has registered at 0, recorded the answer at `answered` and given
out a permit. -/
def permitted (answered now : ℕ) : RecoverySystem where
  clock := now
  store := ⟨some [], some 0, none⟩
  worker := ⟨⟨.active, 7, 0, answered, 1, 10, 100⟩, [⟨7, 0, answered + 100⟩]⟩
  loop := .waiting
  registered := true
  consecutiveFailures := 0
  firstFailureAt := none
  abandoned := 0

/-- It was locked at 10. -/
def lockedAfter (answered now : ℕ) : RecoverySystem :=
  { permitted answered now with store := ⟨some [], some 0, some ⟨"recovery", 40⟩⟩ }

/-- A worker whose registration was answered at once does not start after it was
locked. -/
theorem promptRun_refuses :
    ∃ τ c, Run (PromptStep tenMillis) (registering tenMillis 0 7 [] 0) τ c ∧
      PromptStep tenMillis c (.tryLock "recovery" true) (lockedAfter 0 10) ∧
      (lockedAfter 0 10).worker.live = [⟨7, 0, 100⟩] ∧
      ∀ permit c', ¬ RecoveryStep tenMillis (lockedAfter 0 10) (.confirm permit true) c' := by
  let c0 := registering tenMillis 0 7 [] 0
  have hanswer : PromptStep tenMillis c0 .answer c0.succeed := by
    refine ⟨.succeed (t := 0) rfl, fun _ t ht => ?_⟩
    show 0 ≤ t / 1 * 1
    exact Nat.zero_le _
  have hacquire : PromptStep tenMillis c0.succeed (.acquire (some ⟨7, 0, 100⟩))
      (permitted 0 0) := ⟨.acquire rfl, nofun⟩
  have htick : PromptStep tenMillis (permitted 0 0) .internal (permitted 0 10) :=
    ⟨.tick 10, nofun⟩
  have hlock : PromptStep tenMillis (permitted 0 10) (.tryLock "recovery" true)
      (lockedAfter 0 10) := ⟨.tryLock ⟨[], 0⟩ "recovery" 30 (by decide), nofun⟩
  have hrun : Run (PromptStep tenMillis) c0 [.answer, .acquire (some ⟨7, 0, 100⟩), .internal] _ :=
    ⟨_, hanswer, _, hacquire, _, htick, rfl⟩
  refine ⟨_, _, hrun, hlock, rfl, fun permit c' hstep => ?_⟩
  have hlocked : (lockedAfter 0 10).locked tenMillis := ⟨_, rfl, by decide⟩
  exact (no_start_under_recovery hrun hlock).2.1 [] _ _ _ rfl hstep hlocked permit rfl

/-- **A start on a locked instance.**  The registration takes effect at 0 and is
answered at 5.  Redis lets the instance be locked at 10, and the worker confirms
a start at 12. -/
theorem delayedRun_starts :
    ∃ τ τ' c, Run (RecoveryStep tenMillis) (registering tenMillis 0 7 [] 0)
        (τ ++ .tryLock "recovery" true :: τ') c ∧
      c.locked tenMillis ∧ .confirm ⟨7, 0, 105⟩ true ∈ τ' := by
  let c0 := registering tenMillis 0 7 [] 0
  have hdelay : RecoveryStep tenMillis c0 .internal _ := .tick 5
  have hanswer : RecoveryStep tenMillis { c0 with clock := 5 } .answer _ := .succeed (t := 0) rfl
  have hacquire : RecoveryStep tenMillis (RecoverySystem.succeed { c0 with clock := 5 })
      (.acquire (some ⟨7, 0, 105⟩)) (permitted 5 5) := .acquire rfl
  have htick : RecoveryStep tenMillis (permitted 5 5) .internal (permitted 5 10) := .tick 5
  have hlock : RecoveryStep tenMillis (permitted 5 10) (.tryLock "recovery" true)
      (lockedAfter 5 10) := .tryLock ⟨[], 0⟩ "recovery" 30 (by decide)
  have hlater : RecoveryStep tenMillis (lockedAfter 5 10) .internal (lockedAfter 5 12) := .tick 2
  have hconfirm : RecoveryStep tenMillis (lockedAfter 5 12) (.confirm ⟨7, 0, 105⟩ true)
      (lockedAfter 5 12) := .confirm List.mem_cons_self
  refine ⟨[.internal, .answer, .acquire (some ⟨7, 0, 105⟩), .internal],
    [.internal, .confirm ⟨7, 0, 105⟩ true], lockedAfter 5 12, ?_, ?_, by simp⟩
  · exact ⟨_, hdelay, _, hanswer, _, hacquire, _, htick, _, hlock, _, hlater, _, hconfirm, rfl⟩
  · exact ⟨_, rfl, by decide⟩

end Jobworkerp
