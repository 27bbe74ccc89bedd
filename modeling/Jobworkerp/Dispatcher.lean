/-
Jobworkerp/Dispatcher.lean

What a dispatcher does to the live status record around an execution.

Before it runs a delivery it claims the attempt, PENDING to RUNNING, or finds
the delivery stale or cancelled (`check_cancellation_status`).  The RDB
dispatcher runs the same check, except that a job without a live record is
executed: its row is visible before its record is published.  A claimed
attempt whose runner did not start is given back, RUNNING to PENDING, unless a
cancellation has won in the meantime.  After a run the record moves on to
WAIT_RESULT.
-/
import Jobworkerp.Status

namespace Jobworkerp

open Interleaving Prog

def cancelledBeforeExecution : String := "Job was cancelled before execution"

inductive DispatchEligibility
  | execute
  | cancelled (result : JobResult)
  | skip
  deriving DecidableEq, Repr, Inhabited

/-- What a dispatcher knows of the delivery it checks. -/
structure Delivery where
  jobId : JobId
  workerId : WorkerId
  worker : WorkerData
  metadata : Metadata
  data : JobData
  deriving DecidableEq, Repr, Inhabited

variable (app : App) (d : Delivery)

/-- `cancelled_dispatch_eligibility`: the result of a job that never ran. -/
def cancelledDispatchEligibility : M DispatchEligibility := do
  let resolved := resolveJobParams d.worker d.data.overrides
  let startTime ← invoke .now
  let endTime ← invoke .now
  let id ← invoke .generateId
  return .cancelled
    { id := some ⟨id⟩
      data := some
        { jobId := some d.jobId
          workerId := some d.workerId
          workerName := d.worker.name
          args := d.data.args
          uniqKey := d.data.uniqKey
          status := ResultStatus.cancelled.toI32
          output := some (bytesOf cancelledBeforeExecution)
          retried := d.data.retried
          maxRetry := 0
          priority := d.data.priority
          timeout := d.data.timeout
          streamingType := d.data.streamingType
          enqueueTime := d.data.enqueueTime
          runAfterTime := d.data.runAfterTime
          startTime := startTime
          endTime := endTime
          responseType := resolved.responseType
          storeSuccess := resolved.storeSuccess
          storeFailure := resolved.storeFailure
          usingMethod := d.data.usingMethod
          broadcastResults := resolved.broadcastResults
          resolvedRetryPolicy := resolved.retryPolicy
          error := some (cancelledByWorker cancelledBeforeExecution) }
      metadata := d.metadata }

/-- A lost claim: the attempt may have been cancelled in the meantime. -/
def claimConflict : Option JobProcessingStatusRecord → M DispatchEligibility
  | some conflict =>
    if conflict.status = .cancelling ∧ conflict.retried = d.data.retried then
      cancelledDispatchEligibility d
    else pure .skip
  | none => pure .skip

/-- The claim itself, once the record is known to be PENDING for this attempt. -/
def claimAttempt : M DispatchEligibility := do
  match ← compareAndSetStatus app (some ⟨.pending, d.data.retried⟩)
      (some ⟨.running, d.data.retried⟩) with
  | .applied => pure .execute
  | .conflict current => claimConflict d current

def checkCancellationStatusWithMissingStatus
    (executeWhenStatusMissing : Bool) : M DispatchEligibility := do
  match ← findStatusRecord with
  | none => if executeWhenStatusMissing then pure .execute else pure .skip
  | some record =>
    if record.retried = d.data.retried then
      match record.status with
      | .pending => claimAttempt app d
      | .cancelling => cancelledDispatchEligibility d
      | .running | .waitResult | .unknown => pure .skip
    else pure .skip

/-- `check_cancellation_status`, for queue deliveries. -/
def checkCancellationStatus : M DispatchEligibility :=
  checkCancellationStatusWithMissingStatus app d false

/-- `check_rdb_cancellation_status`, for rows of the RDB job table. -/
def checkRdbCancellationStatus : M DispatchEligibility :=
  checkCancellationStatusWithMissingStatus app d true

/-! ### Giving an unstarted attempt back -/

inductive RequeueRestoreOutcome
  | restored
  | cancelled (result : JobResult)
  | skip
  deriving DecidableEq, Repr, Inhabited

/-- `restore_pending_attempt_for_requeue` of the Redis dispatcher. -/
def restorePendingAttemptForRequeue : M RequeueRestoreOutcome := do
  match ← compareAndSetStatus app (some ⟨.running, d.data.retried⟩)
      (some ⟨.pending, d.data.retried⟩) with
  | .applied => pure .restored
  | .conflict current =>
    if current = some ⟨.cancelling, d.data.retried⟩ then
      match ← checkCancellationStatus app d with
      | .cancelled result => pure (.cancelled result)
      | .skip => pure .skip
      | .execute => fail (.runtimeError
          s!"job {d.jobId.value} unexpectedly became executable while cancelling")
    else
      fail (.runtimeError
        s!"lost RUNNING status ownership before isolated job requeue: {d.jobId.value}")

inductive UnstartedRdbDispatchRestoreOutcome
  | restored | cancellationWon | ownershipLost
  deriving DecidableEq, Repr, Inhabited

def restorePendingAfterUnstartedRdbDispatch (retried : UInt32) :
    M UnstartedRdbDispatchRestoreOutcome := do
  match ← compareAndSetStatus app (some ⟨.running, retried⟩) (some ⟨.pending, retried⟩) with
  | .applied => pure .restored
  | .conflict current =>
    if current = some ⟨.cancelling, retried⟩ then pure .cancellationWon
    else pure .ownershipLost

/-! ### After a run -/

/-- The RUNNING to WAIT_RESULT change of the queue dispatchers' `process_job`.
Direct jobs keep RUNNING, and a lost race is ignored. -/
def markWaitResult (responseType : ℤ) (retried : UInt32) : M Unit :=
  when (responseType ≠ ResponseType.direct.toI32)
    (compareAndSetStatus app (some ⟨.running, retried⟩) (some ⟨.waitResult, retried⟩)).discard

/-- `should_delete_job_status`: errors after which the job can never run. -/
def JobWorkerError.shouldDeleteJobStatus : JobWorkerError → Bool
  | .invalidParameter _ | .notFound _ | .workerNotFound _ => true
  | _ => false

def cleanupFailedJobStatus : M Unit := do
  deleteStatus.ignore
  bestEffortIndex app .markIndexDeleted

end Jobworkerp
