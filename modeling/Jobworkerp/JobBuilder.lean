/-
Jobworkerp/JobBuilder.lean

What is computed from a finished attempt alone: the resolved execution
settings (`app/job.rs`), and the next job of a retry or of a periodic chain
(`JobBuilder` of `app.rs`).

`build_next_periodic_job` reads the clock; the reading is an argument here.
The exponential interval of a retry policy is single-precision arithmetic,
`(interval as f32 * basis.powf(n as f32)).round() as u32`; it enters as the
parameter `expo` and nothing is assumed about it.

* `buildRetryJob_eq_some`: a retry is built exactly for an `ErrorAndRetry`
  result with a policy that has budget left, and it carries the next attempt.
* `retried_succ_of_buildRetryJob`: the next attempt does not wrap around.
* `le_calcNextRunAfterTime`: a periodic occurrence is never scheduled in the past.
-/
import Jobworkerp.Proto
import Mathlib.Algebra.Order.Group.Unbundled.Int
import Mathlib.Tactic.Linarith

namespace Jobworkerp

/-! ### Resolved execution settings -/

structure ResolvedJobParams where
  responseType : ℤ
  storeSuccess : Bool
  storeFailure : Bool
  broadcastResults : Bool
  retryPolicy : Option RetryPolicy
  deriving DecidableEq, Repr

/-- Each override field, when present, replaces the worker default. -/
def resolveJobParams (worker : WorkerData) :
    Option JobExecutionOverrides → ResolvedJobParams
  | none =>
    { responseType := worker.responseType
      storeSuccess := worker.storeSuccess
      storeFailure := worker.storeFailure
      broadcastResults := worker.broadcastResults
      retryPolicy := worker.retryPolicy }
  | some o =>
    { responseType := o.responseType.getD worker.responseType
      storeSuccess := o.storeSuccess.getD worker.storeSuccess
      storeFailure := o.storeFailure.getD worker.storeFailure
      broadcastResults := o.broadcastResults.getD worker.broadcastResults
      retryPolicy := o.retryPolicy <|> worker.retryPolicy }

/-- The settings of a result, recorded as the overrides of the job built from it. -/
def snapshotOverrides (dat : JobResultData) : JobExecutionOverrides :=
  { responseType := some dat.responseType
    storeSuccess := some dat.storeSuccess
    storeFailure := some dat.storeFailure
    broadcastResults := some dat.broadcastResults
    retryPolicy := dat.resolvedRetryPolicy }

/-! ### Retry -/

section Retry

variable (expo : UInt32 → UInt32 → UInt32 → UInt32)

/-- `RetryPolicyExt::calculate_next_interval`. -/
def RetryPolicy.calculateNextInterval (policy : RetryPolicy) (retryCount : UInt32) :
    Option UInt32 :=
  let clamp (raw : UInt32) : UInt32 :=
    if policy.maxInterval > 0 then min raw policy.maxInterval else raw
  match RetryType.ofI32 policy.type with
  | .none => none
  | .constant => some (clamp policy.interval)
  | .linear => some (clamp (policy.interval * (retryCount + 1)))
  | .exponential => some (clamp (expo policy.interval policy.basis retryCount))

/-- The policy a retry follows: the one resolved for the attempt, or the
worker's for results recorded without one. -/
def retryPolicyOf (dat : JobResultData) (worker : WorkerData) : Option RetryPolicy :=
  dat.resolvedRetryPolicy <|> worker.retryPolicy

/-- When the retry may start: the end of the attempt plus the interval. -/
def retryRunAfterTime (dat : JobResultData) (policy : RetryPolicy) : ℤ :=
  match policy.calculateNextInterval expo dat.retried with
  | some n => dat.endTime + n.toNat
  | none => 0

/-- `JobBuilder::build_retry_job`. -/
def buildRetryJob (dat : JobResultData) (worker : WorkerData) (metadata : Metadata) :
    Option Job :=
  if dat.status ≠ ResultStatus.errorAndRetry.toI32 then none
  else
    match retryPolicyOf dat worker with
    | none => none
    | some policy =>
      if policy.type = RetryType.none.toI32 ∨ dat.retried ≥ policy.maxRetry then none
      else
        some
          { id := dat.jobId
            data := some
              { workerId := dat.workerId
                args := dat.args
                uniqKey := dat.uniqKey
                enqueueTime := dat.enqueueTime
                grabbedUntilTime := none
                runAfterTime := retryRunAfterTime expo dat policy
                retried := dat.retried + 1
                priority := dat.priority
                timeout := dat.timeout
                streamingType := dat.streamingType
                usingMethod := dat.usingMethod
                overrides := some (snapshotOverrides dat) }
            metadata := metadata }

variable {expo} {dat : JobResultData} {worker : WorkerData} {metadata : Metadata} {j : Job}

/-- **When a retry is built, and what it is.** -/
theorem buildRetryJob_eq_some (h : buildRetryJob expo dat worker metadata = some j) :
    dat.status = ResultStatus.errorAndRetry.toI32 ∧
    ∃ policy, retryPolicyOf dat worker = some policy ∧ dat.retried < policy.maxRetry ∧
      ∃ d, j = ⟨dat.jobId, some d, metadata⟩ ∧ d.workerId = dat.workerId ∧
        d.retried = dat.retried + 1 ∧ d.grabbedUntilTime = none ∧
        d.runAfterTime = retryRunAfterTime expo dat policy ∧
        d.streamingType = dat.streamingType ∧
        d.overrides = some (snapshotOverrides dat) := by
  unfold buildRetryJob at h
  split at h
  · cases h
  · rename_i hstatus
    split at h
    · cases h
    · rename_i policy hpolicy
      split at h
      · cases h
      · rename_i hbudget
        rw [not_or, ge_iff_le, UInt32.not_le] at hbudget
        cases h
        exact ⟨not_not.mp hstatus, policy, hpolicy, hbudget.2,
          _, rfl, rfl, rfl, rfl, rfl, rfl, rfl⟩

/-- **The attempt number of a retry does not wrap around**: a retry is only
built below `max_retry`, itself a `u32`. -/
theorem retried_succ_of_buildRetryJob (h : buildRetryJob expo dat worker metadata = some j) :
    ∃ d, j.data = some d ∧ d.retried = dat.retried + 1 ∧
      d.retried.toNat = dat.retried.toNat + 1 := by
  obtain ⟨-, policy, -, hlt, d, rfl, -, hd, -⟩ := buildRetryJob_eq_some h
  refine ⟨d, rfl, hd, ?_⟩
  have hlt' : dat.retried.toNat < policy.maxRetry.toNat := UInt32.lt_iff_toNat_lt.mp hlt
  have hmax : policy.maxRetry.toNat < 2 ^ 32 := policy.maxRetry.toNat_lt
  rw [hd, UInt32.toNat_add]
  simp only [UInt32.reduceToNat]
  omega

end Retry

/-! ### Periodic occurrences -/

/-- `JobBuilder::_calc_next_run_after_time`; `now` is its reading of the clock. -/
def calcNextRunAfterTime (now startTime oldRunAfterTime periodicInterval : ℤ) : ℤ :=
  let runAfterTime := if oldRunAfterTime = 0 then startTime else oldRunAfterTime
  let next := runAfterTime + periodicInterval
  if now > next then
    -- skip the occurrences that are already past
    ((now - next) / periodicInterval) * periodicInterval + next + periodicInterval
  else next

/-- `JobBuilder::build_next_periodic_job`. -/
def buildNextPeriodicJob (now : ℤ) (dat : JobResultData) (worker : WorkerData) :
    Option JobData :=
  if worker.periodicInterval = 0 then none
  else
    some
      { workerId := dat.workerId
        args := dat.args
        uniqKey := dat.uniqKey
        enqueueTime := dat.enqueueTime
        grabbedUntilTime := none
        runAfterTime :=
          calcNextRunAfterTime now dat.startTime dat.runAfterTime
            worker.periodicInterval.toNat
        retried := dat.retried + 1
        priority := dat.priority
        timeout := dat.timeout
        streamingType := dat.streamingType
        usingMethod := dat.usingMethod
        overrides := some (snapshotOverrides dat) }

theorem periodicInterval_pos {w : WorkerData} (hperiodic : w.periodicInterval ≠ 0) :
    (0 : ℤ) < w.periodicInterval.toNat := by
  have hne : w.periodicInterval.toNat ≠ 0 := fun h => hperiodic (UInt32.toNat_inj.mp h)
  omega

/-- **An occurrence is never scheduled in the past.** -/
theorem le_calcNextRunAfterTime (hpos : 0 < interval) :
    now ≤ calcNextRunAfterTime now startTime oldRunAfterTime interval := by
  simp only [calcNextRunAfterTime]
  generalize (if oldRunAfterTime = 0 then startTime else oldRunAfterTime) + interval = next
  by_cases hlate : now > next
  · have hmod := Int.emod_add_mul_ediv (now - next) interval
    have hlt := Int.emod_lt_of_pos (now - next) hpos
    have hcomm := mul_comm ((now - next) / interval) interval
    simp only [if_pos hlate]
    linarith
  · simp only [if_neg hlate]
    linarith

end Jobworkerp
