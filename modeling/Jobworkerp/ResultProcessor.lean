/-
Jobworkerp/ResultProcessor.lean

What happens with the result of an attempt (`ResultProcessorImpl`).

A retryable failure with budget left claims the next attempt on the live
record, then re-enqueues it; every other result completes the job and, for a
periodic worker, enqueues the next occurrence under the same job id.  The
result data is mutable on the Rust side: a retry that finds its attempt
cancelled turns into a Cancelled result, which is what is stored and
published.
-/
import Jobworkerp.JobApp

namespace Jobworkerp

open Interleaving Prog

inductive RetryTransitionDecision
  | requeue | completeCancelled | completeWithoutClaim | ignoreStale
  deriving DecidableEq, Repr

def retryAttemptIsCurrent (current : JobProcessingStatusRecord) (result : JobResultData) : Bool :=
  current.retried = result.retried

def retryAttemptOwnershipDecision (current : JobProcessingStatusRecord)
    (result : JobResultData) : Option RetryTransitionDecision :=
  if !retryAttemptIsCurrent current result then some .ignoreStale
  else if current.status = .cancelling then some .completeCancelled
  else none

def markRetryCancelled (data : JobResultData) : JobResultData :=
  let message := "Job was cancelled while retrying"
  { data with
    status := ResultStatus.cancelled.toI32
    output := some (bytesOf message)
    error := some (cancelledByWorker message)
    maxRetry := 0 }

def cancelRetryableResultIfRequested (data : JobResultData) : M JobResultData :=
  if data.status ≠ ResultStatus.errorAndRetry.toI32 then pure data
  else
    match data.jobId with
    | none => pure data
    | some _ => do
        if (← findStatusRecord) = some ⟨.cancelling, data.retried⟩ then
          pure (markRetryCancelled data)
        else pure data

/-- `transition_retry_to_pending_or_cancel`, with the data it leaves. -/
def transitionRetryToPendingOrCancel (app : App) (data : JobResultData) (retryJob : Job) :
    M (RetryTransitionDecision × JobResultData) :=
  match data.jobId, retryJob.data with
  | some _, some nextData => do
      match ← findStatusRecord with
      | none => pure (.completeWithoutClaim, data)
      | some current =>
        match retryAttemptOwnershipDecision current data with
        | some .completeCancelled => pure (.completeCancelled, markRetryCancelled data)
        | some decision => pure (decision, data)
        | none =>
          match ← compareAndSetStatus app (some current)
              (some ⟨.pending, nextData.retried⟩) with
          | .applied => pure (.requeue, data)
          | .conflict (some record) =>
            if record.status = .cancelling ∧ record.retried = data.retried then
              pure (.completeCancelled, markRetryCancelled data)
            else pure (.ignoreStale, data)
          | .conflict none => pure (.completeWithoutClaim, data)
  | _, _ => pure (.requeue, data)

/-- The request that enqueues the next occurrence, under the same job id.  The
attempt number of `pj` is not passed on. -/
def nextOccurrenceRequest (dat : JobResultData) (metadata : Metadata) (pj : JobData) :
    EnqueueRequest :=
  { metadata := metadata
    args := pj.args
    uniqKey := pj.uniqKey
    runAfterTime := pj.runAfterTime
    priority := pj.priority
    timeout := pj.timeout
    reservedJobId := dat.jobId
    streamingType := .ofI32 pj.streamingType
    usingMethod := pj.usingMethod
    overrides := pj.overrides }

/-- Enqueue the next occurrence of a periodic job, if it is one. -/
def enqueueNextOccurrence (app : App) (dat : JobResultData) (worker : WorkerData)
    (metadata : Metadata) : M Unit :=
  if worker.periodicInterval = 0 then pure ()
  else do
    let now ← invoke .now
    match buildNextPeriodicJob now dat worker with
    | none => pure ()
    | some pj =>
      (enqueueJob app pj.workerId (nextOccurrenceRequest dat metadata pj)).discard

/-- Delete the temporary worker of a finished job; a failure is only logged. -/
def deleteTempWorker (dat : JobResultData) (worker : WorkerData) : M Unit :=
  when (!worker.useStatic && dat.workerId.isSome) (invoke .deleteTempWorker).ignore

/-- The finished branch of `process_complete_or_retry_condition`: the error of
`complete_job` is kept until the next occurrence has been enqueued. -/
def processComplete (app : App) (id : JobResultId) (dat : JobResultData) (stream : Bool)
    (worker : WorkerData) (metadata : Metadata) : M Unit := do
  let completeResult ← (completeJob app id dat stream).attempt
  enqueueNextOccurrence app dat worker metadata
  deleteTempWorker dat worker
  match completeResult with
  | .ok _ => pure ()
  | .error e => fail e

/-- `process_complete_or_retry_condition`: the data it leaves, and its result. -/
def processCompleteOrRetryCondition (app : App) (id : JobResultId) (dat : JobResultData)
    (stream : Bool) (worker : WorkerData) (metadata : Metadata) :
    M (JobResultData × Except JobWorkerError Unit) :=
  match buildRetryJob app.expo dat worker metadata with
  | some j => do
      match ← (transitionRetryToPendingOrCancel app dat j).attempt with
      | .error e => pure (dat, .error e)
      | .ok (.requeue, dat) => return (dat, ← (updateJob app j).attempt)
      | .ok (.ignoreStale, dat) => pure (dat, .ok ())
      | .ok (_, dat) =>
        match ← (completeJob app id dat stream).attempt with
        | .ok _ => pure (dat, .ok ())
        | .error e => pure (dat, .error e)
  | none => return (dat, ← (processComplete app id dat stream worker metadata).attempt)

/-- `process_result_inner`.  A load-only result only answers its caller; any
other one is retried or completed first and stored afterwards. -/
def processResultInner (app : App) (jr : JobResult) (stream : Bool) (w : WorkerData)
    (loadOnly : Bool) : M JobResult :=
  match jr.id, jr.data with
  | some id, some data => do
      let data ← cancelRetryableResultIfRequested data
      if loadOnly then
        (completeJob app id data stream).discard
        pure { jr with data := some data }
      else
        let r ← processCompleteOrRetryCondition app id data stream w jr.metadata
        (invoke (.createJobResult id r.1 r.1.broadcastResults)).discard
        match r.2 with
        | .ok _ => pure { jr with data := some r.1 }
        | .error e => fail e
  | _, _ => fail (.notFound "job result without id or data")

def processResult (app : App) (jr : JobResult) (stream : Bool) (w : WorkerData) : M JobResult :=
  processResultInner app jr stream w false

end Jobworkerp
