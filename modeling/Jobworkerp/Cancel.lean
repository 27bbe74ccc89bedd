/-
Jobworkerp/Cancel.lean

User-initiated cancellation: `JobCancellationLifecycle` of `app/job.rs`, with
the hooks both applications give it.

`cancel_job_lifecycle` moves the live record to CANCELLING with a
compare-and-set and retries a bounded number of times when it loses the race.
A job that was still PENDING is removed from the RDB table; if the RDB was its
only queue nothing will ever deliver it, so the cancellation is finished at
once and the record deleted.  A job without a live record may be an RDB job
whose record has not been published yet, and is removed from the table only.
-/
import Jobworkerp.Status

namespace Jobworkerp

open Interleaving Prog

/-- `is_run_after_job_data`: not to be dispatched within the fetch interval. -/
def isRunAfterJobData (app : App) (data : JobData) : M Bool := do
  let now ← invoke .now
  pure (data.runAfterTime > now + app.fetchInterval.toNat)

inductive PendingCancellationDisposition
  | awaitQueuedDelivery | finalizedWithoutDelivery
  deriving DecidableEq, Repr

/-- Does the worker's queue consist of RDB rows only? -/
def WorkerData.isRdbOnly (worker : WorkerData) : Bool :=
  worker.periodicInterval > 0 || worker.queueType = QueueType.dbOnly.toI32

def isRdbOnlyPendingJob (data : JobData) (isRunAfter : Bool) : M Bool :=
  if isRunAfter then pure true
  else
    match data.workerId with
    | none => pure false
    | some _ => do
        match ← invoke .findWorker with
        | some worker => pure worker.isRdbOnly
        | none => pure false

/-- Is the row, if there is one, the job's only queue entry? -/
def isRdbOnlyRow (app : App) (row : Option JobData) : M Bool :=
  match row with
  | some data => do isRdbOnlyPendingJob data (← isRunAfterJobData app data)
  | none => pure false

def removePendingRdbJob (app : App) : M PendingCancellationDisposition := do
  let row ← invoke .findRow
  let rdbOnly ← isRdbOnlyRow app row
  match ← (invoke .deleteRow).attempt with
  | .ok deleted =>
    if deleted ∧ rdbOnly then pure .finalizedWithoutDelivery
    else pure .awaitQueuedDelivery
  | .error _ => pure .awaitQueuedDelivery

def removeUnpublishedRdbOnlyJob (app : App) : M Bool := do
  let row ← invoke .findRow
  if ← isRdbOnlyRow app row then invoke .deleteRow else pure false

def maxCancellationStatusTransitionAttempts : ℕ := 3

/-- What follows a compare-and-set that turned `record` into CANCELLING. -/
def afterCancelling (app : App) (record : JobProcessingStatusRecord) : M Unit := do
  bestEffortIndex app (.updateIndexStatus .cancelling)
  if record.status = .pending then
    let disposition ← removePendingRdbJob app
    when (disposition = .finalizedWithoutDelivery) do
      bestEffortIndex app .markIndexDeleted
      deleteStatus.discard
  else invoke .broadcastCancellation

/-- The loop of `cancel_job_lifecycle`, with the number of attempts left. -/
def cancelAttempts (app : App) : ℕ → JobProcessingStatusRecord → M Bool
  | 0, _ => do
      match ← findStatusRecord with
      | some record => pure (record.status = .cancelling)
      | none => pure false
  | n + 1, record =>
    if record.status = .unknown then pure false
    else if record.status = .cancelling then pure true
    else do
      match ← compareAndSetStatus app (some record) (some ⟨.cancelling, record.retried⟩) with
      | .applied =>
        afterCancelling app record
        pure true
      | .conflict (some current) => cancelAttempts app n current
      | .conflict none => pure false

/-- `cancel_job_lifecycle`, the body of `cancel_job` and `delete_job`. -/
def cancelJobLifecycle (app : App) : M Bool := do
  match ← findStatusRecord with
  | none => removeUnpublishedRdbOnlyJob app
  | some record =>
    if record.status = .unknown then pure false
    else cancelAttempts app maxCancellationStatusTransitionAttempts record

end Jobworkerp
