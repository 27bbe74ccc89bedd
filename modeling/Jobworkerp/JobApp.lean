/-
Jobworkerp/JobApp.lean

Re-enqueueing, completing and cleaning up a job, for both applications, and
the background tasks these leave behind.

`update_job` writes the retry to the RDB table, to the queue, or to both, and
merges the two outcomes with `Result::or`.  `complete_job` publishes the
result and cleans the job up: at once, or, when there is an output stream,
in the background task that publishes the stream.
-/
import Jobworkerp.Enqueue

namespace Jobworkerp

open Interleaving Prog

/-! ### Re-enqueueing -/

def findDataByOpt (workerId : Option WorkerId) : M (Option WorkerData) :=
  match workerId with
  | some _ => invoke .findWorker
  | none => pure none

variable (app : App)

/-- `restore_jobs_by` of the hybrid application, for the job of the store: a
row that is not scheduled for later and whose job is in no list of the queue is
published again. -/
def Hybrid.restoreJobsBy (jobId : JobId) : M Unit := do
  let queued ← invoke .findMultiFromQueue
  match (← invoke .findRow).filter fun _ => queued.isEmpty with
  | none => pure ()
  | some data =>
    if ← isRunAfterJobData app data then pure ()
    else
      match ← (findDataByOpt data.workerId).attempt with
      | .ok (some w) =>
        if w.periodicInterval > 0 then pure ()
        else if (resolveJobParams w data.overrides).responseType = ResponseType.direct.toI32 then
          pure ()
        else
          (enqueueJobToRedisWithWaitIfNeeded app ⟨some jobId, some data, []⟩ w .none false
            .newEnqueue).discard
      | _ => pure ()

/-- Is the job written to the RDB table on a retry? -/
def useRdbQueue (isRunAfter : Bool) (w : WorkerData) : Bool :=
  isRunAfter || w.periodicInterval > 0 || w.queueType = QueueType.dbOnly.toI32 ||
    w.queueType = QueueType.withBackup.toI32

/-- Is the job published to the Redis list or the channel on a retry? -/
def useInstantQueue (isRunAfter : Bool) (w : WorkerData) : Bool :=
  !isRunAfter && w.periodicInterval = 0 &&
    (w.queueType = QueueType.normal.toI32 || w.queueType = QueueType.withBackup.toI32)

/-- `Result::or`. -/
def resultOr {ε α : Type} (x y : Except ε α) : Except ε α :=
  match x with
  | .ok a => .ok a
  | .error _ => y

/-- The RDB half of `update_job`: write the row, or only reset the index. -/
def updateRdbQueue (data : JobData) (use : Bool) :
    M (Except JobWorkerError Bool) :=
  if use then (invoke (.upsertRow data app.indexing)).attempt
  else do
    bestEffortIndex app .resetIndexToPending
    pure (.ok false)

/-- The queue half of `update_job`. -/
def updateInstantQueue (publish : M Unit) (use : Bool) : M (Except JobWorkerError Bool) :=
  if use then do
    match ← publish.attempt with
    | .ok _ => pure (.ok true)
    | .error e => pure (.error e)
  else pure (.ok false)

/-- The common body of the two `update_job`s; `publish` is the application's
own queue. -/
def updateJobWith (publish : Job → JobData → WorkerData → M Unit) (job : Job) :
    M Unit :=
  match job.id, job.data with
  | some _, some data => do
      let isRunAfter ← isRunAfterJobData app data
      match ← (findDataByOpt data.workerId).attempt with
      | .ok (some w) =>
        let resDb ← updateRdbQueue app data (useRdbQueue isRunAfter w)
        let resQueue ←
          updateInstantQueue (publish job data w) (useInstantQueue isRunAfter w)
        match resultOr resQueue resDb with
        | .ok _ => pure ()
        | .error e => fail e
      | _ => fail (.workerNotFound "in re-enqueue job: ")
  | _, _ => fail (.notFound "illegal re-enqueue job: ")

/-- `HybridJobAppImpl::update_job`: the queue is the client's enqueue path. -/
def Hybrid.updateJob (job : Job) : M Unit :=
  updateJobWith app (fun job data w =>
    (enqueueJobToRedisWithWaitIfNeeded app job w (.ofI32 data.streamingType) false
      .retry).discard) job

/-- `RdbChanJobAppImpl::update_job`. -/
def RdbChan.updateJob (job : Job) : M Unit :=
  updateJobWith app (fun job _ _ => enqueueJobSyncEnqueueOnly app job false .retry) job

/-- `JobApp::update_job`. -/
def updateJob (job : Job) : M Unit :=
  match app.storage with
  | .scalable => Hybrid.updateJob app job
  | .standalone => RdbChan.updateJob app job

/-! ### Clean-up -/

/-- `HybridJobAppImpl::cleanup_job`. -/
def Hybrid.cleanupJob : M Unit := do
  bestEffortIndex app .markIndexDeleted
  (invoke .deleteRow).ignore
  (invoke .deleteKey).ignore
  deleteStatus.discard

/-- `RdbChanJobAppImpl::cleanup_job`. -/
def RdbChan.cleanupJob : M Unit := do
  bestEffortIndex app .markIndexDeleted
  (invoke .deleteRow).ignore
  deleteStatus.discard

def cleanupJob : M Unit :=
  match app.storage with
  | .scalable => Hybrid.cleanupJob app
  | .standalone => RdbChan.cleanupJob app

/-! ### Completion -/

def publishResult (id : JobResultId) (data : JobResultData) (toListen : Bool) : M Bool :=
  match data.workerId with
  | none => fail (.invalidParameter "worker_id not found")
  | some _ => invoke (.publishResult id data toListen)

/-- `spawn_end_marker_if_needed`: is there an End to publish? -/
def endMarkerNeeded (data : JobResultData) : Bool :=
  data.streamingType ≠ StreamingType.none.toI32 && data.status ≠ ResultStatus.success.toI32

/-- The end of `complete_job`: with a stream the clean-up is left to the task
that publishes it. -/
def finishCompletion (data : JobResultData) (stream : Bool) : M Unit :=
  if stream then invoke (.spawn .publishStreamThenCleanup)
  else do
    when (endMarkerNeeded data) (invoke (.spawn .publishEndMarker))
    cleanupJob app

/-- `HybridJobAppImpl::complete_job`; a Direct result is pushed to the job's
result list. -/
def Hybrid.completeJob (id : JobResultId) (data : JobResultData) (stream : Bool) :
    M Bool :=
  match data.jobId with
  | none => pure false
  | some _ =>
    match ResponseType.tryFrom data.responseType with
    | some .direct => do
        let res ← (invoke (.pushResult ⟨some id, some data, []⟩)).attempt
        (publishResult id data true).ignore
        finishCompletion app data stream
        match res with
        | .ok b => pure b
        | .error e => fail e
    | some .noResult => do
        let res ← (publishResult id data data.broadcastResults).attempt
        finishCompletion app data stream
        match res with
        | .ok b => pure b
        | .error e => fail e
    | none => do
        cleanupJob app
        pure false

/-- `RdbChanJobAppImpl::complete_job`. -/
def RdbChan.completeJob (id : JobResultId) (data : JobResultData) (stream : Bool) :
    M Bool :=
  match data.jobId with
  | none => pure false
  | some _ =>
    match ResponseType.tryFrom data.responseType with
    | some responseType => do
        let toListen := if responseType = .direct then true else data.broadcastResults
        let res ← (publishResult id data toListen).attempt
        finishCompletion app data stream
        match res with
        | .ok b => pure b
        | .error e => fail e
    | none => do
        cleanupJob app
        pure false

/-- `JobApp::complete_job`. -/
def completeJob (id : JobResultId) (data : JobResultData) (stream : Bool) : M Bool :=
  match app.storage with
  | .scalable => Hybrid.completeJob app id data stream
  | .standalone => RdbChan.completeJob app id data stream

/-! ### Background tasks -/

/-- The body of a spawned task. -/
def runTask : Task → M Unit
  | .publishStreamThenCleanup => do
      (invoke .publishStream).ignore
      (cleanupJob app).ignore
  | .publishEndMarker => (invoke .publishStream).ignore
  | .indexStatus status update => (invoke (.indexStatus status update)).ignore

/-- A thread of the runtime that runs one of the spawned tasks. -/
def taskRunner : M Unit := do
  runTask app (← invoke .takeTask)

end Jobworkerp
