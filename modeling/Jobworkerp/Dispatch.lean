/-
Jobworkerp/Dispatch.lean

The three dispatchers' `process_job`: from a delivery or a fetched row, over
the claim of the attempt and the start of the runner, to the result processor.

All three claim the live record first.  The queue dispatchers take the lease
of the RDB row only for WithBackup jobs, the RDB dispatcher always.  A worker
that belongs to an instance session needs a start permit before the lease and
its confirmation right before the runner starts; without either the attempt is
given back.
-/
import Jobworkerp.Dispatcher
import Jobworkerp.ResultProcessor

namespace Jobworkerp

open Interleaving Prog

/-! ### Running a job -/

/-- `DEFAULT_RETRY_POLICY.max_retry`. -/
def defaultMaxRetry : UInt32 := 0

/-- `build_job_result`: everything but the outcome is copied from the job. -/
def buildJobResult (id : JobResultId) (job : Job) (dat : JobData) (worker : WorkerData)
    (o : RunOutcome) : JobResult :=
  let resolved := resolveJobParams worker dat.overrides
  { id := some id
    data := some
      { jobId := job.id
        workerId := dat.workerId
        workerName := worker.name
        args := dat.args
        uniqKey := dat.uniqKey
        status := o.status.toI32
        output := o.output
        retried := dat.retried
        maxRetry := (resolved.retryPolicy.map (·.maxRetry)).getD defaultMaxRetry
        priority := dat.priority
        timeout := dat.timeout
        streamingType := dat.streamingType
        enqueueTime := dat.enqueueTime
        runAfterTime := dat.runAfterTime
        startTime := o.startTime
        endTime := o.endTime
        responseType := resolved.responseType
        storeSuccess := resolved.storeSuccess
        storeFailure := resolved.storeFailure
        usingMethod := dat.usingMethod
        broadcastResults := resolved.broadcastResults
        resolvedRetryPolicy := resolved.retryPolicy
        error := o.error }
    metadata := o.metadata }

/-- The identifier of a result: `generate_id().unwrap_or_default()`. -/
def generateResultId : M JobResultId := do
  match ← (invoke .generateId).attempt with
  | .ok n => pure ⟨n⟩
  | .error _ => pure ⟨0⟩

/-- `run_job`: the result, and whether there is a stream to publish. -/
def runJob (job : Job) (dat : JobData) (worker : WorkerData) : M (JobResult × Bool) := do
  let o ← invoke (.runJob job)
  return (buildJobResult (← generateResultId) job dat worker o, o.stream)

def preloadRunner (job : Job) (dat : JobData) (worker : WorkerData) : M JobResult := do
  let o ← invoke (.loadRunner job)
  return buildJobResult (← generateResultId) job dat worker o

/-! ### Preflight -/

variable (app : App)

def processCancelledDispatchResult (result : JobResult) (worker : WorkerData) :
    M JobResult :=
  processResult app result false worker

inductive DispatchPreflight
  | execute
  | skip
  | completed (result : JobResult)
  deriving DecidableEq, Repr

def resolveDispatchPreflight (eligibility : DispatchEligibility)
    (worker : WorkerData) : M DispatchPreflight :=
  match eligibility with
  | .execute => pure .execute
  | .skip => pure .skip
  | .cancelled result => do
      return .completed (← processCancelledDispatchResult app result worker)

def findByOpt (workerId : Option WorkerId) : M (Option (WorkerId × WorkerData)) :=
  match workerId with
  | none => pure none
  | some wid => do
      match ← invoke .findWorker with
      | some w => pure (some (wid, w))
      | none => pure none

variable (session : Option ℤ)

/-- `acquire_start_permit`, for a worker that belongs to instance `session`. -/
def acquireStartPermit : M (Option ℤ) :=
  match session with
  | none => pure none
  | some instanceId => do
      if ← invoke .ask then pure (some instanceId) else pure none

/-- `permit.confirm_start()`; a worker without a session has no permit. -/
def confirmStart (permit : Option ℤ) : M Bool :=
  match permit with
  | none => pure true
  | some _ => invoke .ask

variable (d : Delivery)

/-- The index row a dispatcher writes when it starts a job. -/
def runningIndexUpdate (workerInstanceId : Option ℤ) : StatusIndexUpdate :=
  { workerId := d.workerId
    channel := d.worker.channel
    priority := d.data.priority
    enqueueTime := d.data.enqueueTime
    isStreamable := d.data.streamingType ≠ 0
    broadcastResults := (resolveJobParams d.worker d.data.overrides).broadcastResults
    workerInstanceId := workerInstanceId }

def Delivery.job : Job := ⟨some d.jobId, some d.data, d.metadata⟩

/-- Does the queue dispatcher hold the lease of the job's backup row? -/
def Delivery.usesBackup : Bool :=
  (resolveJobParams d.worker d.data.overrides).responseType ≠ ResponseType.direct.toI32 &&
    d.worker.queueType = QueueType.withBackup.toI32

/-! ### Queue dispatchers -/

/-- From the end of the run to the result processor, for both queues. -/
def finishQueueJob (result : JobResult) (stream : Bool) :
    M (Option JobResult) := do
  let responseType := (resolveJobParams d.worker d.data.overrides).responseType
  markWaitResult app responseType d.data.retried
  when (responseType ≠ ResponseType.direct.toI32)
    (bestEffortIndex app (.indexStatus .waitResult (runningIndexUpdate d none)))
  return some (← processResult app result stream d.worker)

/-- The lookups every queue dispatcher starts with, the load-only branch, and
the preflight; `start` is what follows an Execute verdict. -/
def processQueueJob (job : Job) (loadOnly : Bool)
    (start : Delivery → M (Option JobResult)) : M (Option JobResult) :=
  match job.id, job.data with
  | some jid, some jdat => do
      match ← findByOpt jdat.workerId with
      | none => fail (.notFound "worker is not found.")
      | some (wid, wdat) =>
        match ← invoke .findRunner with
        | none => fail (.notFound "runner_data is not found.")
        | some _ =>
          if loadOnly then
            let result ← preloadRunner job jdat wdat
            return some (← processResultInner app result false wdat true)
          else
            let d : Delivery := ⟨jid, wid, wdat, job.metadata, jdat⟩
            match ← resolveDispatchPreflight app (← checkCancellationStatus app d) wdat with
            | .execute => start d
            | .skip => pure none
            | .completed result => pure (some result)
  | _, _ => fail (.invalidParameter "job is incomplete data.")

/-- The run of a claimed delivery of the channel. -/
def Chan.runClaimed : M (Option JobResult) := do
  bestEffortIndex app (.indexStatus .running (runningIndexUpdate d none))
  let (result, stream) ← runJob d.job d.data d.worker
  finishQueueJob app d result stream

/-- From an Execute verdict to the start of the runner. -/
def Chan.startClaimed : M (Option JobResult) :=
  if d.usesBackup then do
    match ← invoke (.grabRow d.data.timeout (d.data.grabbedUntilTime.getD 0)) with
    | some _ => Chan.runClaimed app d
    | none => fail (.alreadyExists "already grabbed: ")
  else Chan.runClaimed app d

/-- `ChanJobDispatcher::process_job`. -/
def Chan.processJob (job : Job) (loadOnly : Bool) : M (Option JobResult) :=
  processQueueJob app job loadOnly (Chan.startClaimed app)

/-- Give a claimed attempt back and put its delivery at the head of the queue;
`release` undoes what was taken after the claim. -/
def Redis.requeueUnstarted (release : M Unit) (message : String) :
    M (Option JobResult) := do
  match ← restorePendingAttemptForRequeue app d with
  | .cancelled result => return some (← processCancelledDispatchResult app result d.worker)
  | .skip => pure none
  | .restored =>
    release
    invoke (.pushJobFront ⟨d.job, false⟩)
    fail (.runtimeError message)

/-- Release the lease of a backup row. -/
def Redis.releaseLease (lease : Option ℤ) : M Unit :=
  match lease with
  | some grabbedUntil => do
      if ← invoke (.resetGrabbedUntilTime grabbedUntil) then pure ()
      else fail (.runtimeError
        s!"lost WithBackup RDB grab before isolated job requeue: {d.jobId.value}")
  | none => pure ()

/-- Return the RUNNING index row of this worker instance to PENDING. -/
def Redis.releaseIndex (permit : ℤ) : M Unit :=
  when app.indexing do
    if (← invoke (.resetRunningIndexByOwner permit)) = .ownedByOther then
      fail (.runtimeError
        s!"lost RUNNING status index ownership before isolated job requeue: {d.jobId.value}")
    else pure ()

/-- Undo the lease and the index row of an isolated worker's unstarted job. -/
def Redis.releaseUnstarted (lease : Option ℤ) (permit : ℤ) :
    M Unit := do
  Redis.releaseLease d lease
  Redis.releaseIndex app d permit

/-- The run of a claimed delivery of Redis, once the start is confirmed. -/
def Redis.runClaimed (permit lease : Option ℤ) :
    M (Option JobResult) := do
  when app.indexing
    (invoke (.spawn (.indexStatus .running (runningIndexUpdate d permit))))
  if ← confirmStart permit then
    let (result, stream) ← runJob d.job d.data d.worker
    finishQueueJob app d result stream
  else
    Redis.requeueUnstarted app d (Redis.releaseUnstarted app d lease (permit.getD 0))
      "worker instance was isolated before runner start; job was requeued"

/-- From an Execute verdict to the start of the runner. -/
def Redis.startClaimed (d : Delivery) :
    M (Option JobResult) := do
  let permit ← acquireStartPermit session
  if session.isSome ∧ permit.isNone then
    Redis.requeueUnstarted app d (pure ()) "worker instance is isolated; job was requeued"
  else if d.usesBackup then
    match ← invoke (.grabRow d.data.timeout (d.data.grabbedUntilTime.getD 0)) with
    | some lease => Redis.runClaimed app d permit (some lease)
    | none => fail (.alreadyExists "already grabbed: ")
  else Redis.runClaimed app d permit none

/-- `RedisJobDispatcher::process_job`. -/
def Redis.processJob (job : Job) (loadOnly : Bool) :
    M (Option JobResult) :=
  processQueueJob app job loadOnly (Redis.startClaimed app session)

/-- `process_deque_job`: a permanent error deletes the job's status. -/
def processDequeJob (process : M (Option JobResult)) (job : Job) :
    M (Option JobResult) := do
  match ← process.attempt with
  | .ok result => pure result
  | .error e =>
    when (job.id.isSome && e.shouldDeleteJobStatus) (cleanupFailedJobStatus app)
    fail e

/-- A queue dispatcher taking one delivery. -/
def dispatchQueueJob (job : Job) (loadOnly : Bool) :
    M (Option JobResult) :=
  processDequeJob app
    (match app.storage with
      | .scalable => Redis.processJob app session job loadOnly
      | .standalone => Chan.processJob app job loadOnly)
    job

/-! ### RDB dispatcher -/

def restoreOrFinalizeUnstartedRdbDispatch : M (Option JobResult) := do
  match ← restorePendingAfterUnstartedRdbDispatch app d.data.retried with
  | .restored => pure none
  | .cancellationWon =>
    match ← checkRdbCancellationStatus app d with
    | .cancelled result => return some (← processCancelledDispatchResult app result d.worker)
    | .skip => pure none
    | .execute => fail (.runtimeError
        s!"job {d.jobId.value} unexpectedly became executable while restoring an unstarted RDB dispatch")
  | .ownershipLost => pure none

/-- Give an unstarted attempt back: its cancellation result, or an error. -/
def Rdb.giveBack (message : String) : M (Option JobResult) := do
  match ← restoreOrFinalizeUnstartedRdbDispatch app d with
  | some result => pure (some result)
  | none => fail (.runtimeError message)

def Delivery.dispatchStart (instanceId : ℤ) : RdbDispatchStart :=
  { workerId := d.workerId
    workerInstanceId := instanceId
    channel := d.worker.channel
    priority := d.data.priority
    enqueueTime := d.data.enqueueTime
    isStreamable := d.data.streamingType ≠ 0
    broadcastResults := (resolveJobParams d.worker d.data.overrides).broadcastResults
    timeout := d.data.timeout
    originalGrabbedUntilTime := d.data.grabbedUntilTime.getD 0 }

/-- The run of a grabbed row, to the end of the result processor. -/
def Rdb.runGrabbed : M (Option JobResult) := do
  let (result, stream) ← runJob d.job d.data d.worker
  return some (← processResult app result stream d.worker)

/-- From an Execute verdict to the start of the runner. -/
def Rdb.startClaimed (d : Delivery) : M (Option JobResult) := do
  let permit ← acquireStartPermit session
  match session, permit with
  | some _, none =>
    Rdb.giveBack app d "worker instance is isolated; RDB job remains pending"
  | _, some instanceId =>
    match ← invoke (.grabAndMarkRunning (d.dispatchStart instanceId)) with
    | none => pure none
    | some execution =>
      if ← confirmStart permit then Rdb.runGrabbed app d
      else
        match ← invoke (.releaseUnstartedDispatch execution) with
        | .conflict => fail (.runtimeError
            s!"lost RDB execution before releasing isolated job: {d.jobId.value}")
        | .claimed =>
          Rdb.giveBack app d
            "worker instance was isolated before RDB runner start; RDB job was requeued"
  | none, none =>
    match ← invoke (.grabRow d.data.timeout (d.data.grabbedUntilTime.getD 0)) with
    | some _ => Rdb.runGrabbed app d
    | none => pure none

/-- `RdbJobDispatcher::_process_job`, of a fetched row. -/
def Rdb.processJob (job : Job) : M (Option JobResult) :=
  match job.id, job.data with
  | some jid, some jdat => do
      match ← findByOpt jdat.workerId with
      | none => fail (.notFound "failed to get worker: ")
      | some (wid, wdat) =>
        match ← invoke .findRunner with
        | none => fail (.notFound "failed to get runner data for job: ")
        | some _ =>
          let d : Delivery := ⟨jid, wid, wdat, job.metadata, jdat⟩
          match ← resolveDispatchPreflight app (← checkRdbCancellationStatus app d) wdat with
          | .execute => Rdb.startClaimed app session d
          | .skip => pure none
          | .completed result => pure (some result)
  | _, _ => fail (.invalidParameter "job data is strange: ")

/-- One fetch of the RDB dispatcher, and the dispatch of the row it returns. -/
def dispatchRdbJob (jobId : JobId) : M (Option JobResult) := do
  match ← invoke (.fetchRow app.fetchInterval) with
  | none => pure none
  | some data => Rdb.processJob app session ⟨some jobId, some data, []⟩

end Jobworkerp
