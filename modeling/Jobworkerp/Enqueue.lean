/-
Jobworkerp/Enqueue.lean

The enqueue paths of the two applications: `HybridJobAppImpl` over Redis and
an RDB, and `RdbChanJobAppImpl` over in-memory channels and an RDB.

Both resolve the job's settings, build the job, and then choose a path by the
response type, the schedule and the worker's queue type:

* a Direct job goes to the queue, and the caller waits for its result;
* a periodic or scheduled job becomes a row of the RDB job table;
* otherwise WithBackup writes the row and the queue, DbOnly the row, Normal
  the queue.

The live PENDING record is written before the job reaches a queue, but after
its row has been created.  The DbOnly path of the standalone application
writes no live record at all.
-/
import Jobworkerp.Cancel

namespace Jobworkerp

open Interleaving Prog

/-- The arguments of `enqueue_job`, except the worker. -/
structure EnqueueRequest where
  metadata : Metadata
  args : Bytes
  uniqKey : Option String
  runAfterTime : ℤ
  priority : ℤ
  timeout : UInt64
  reservedJobId : Option JobId
  streamingType : StreamingType
  usingMethod : Option String
  overrides : Option JobExecutionOverrides
  deriving DecidableEq, Repr, Inhabited

/-! ### Checks before a job is built -/

def validateResponseQueueType (queueType responseType : ℤ) : M Unit :=
  if responseType = ResponseType.direct.toI32 ∧ queueType = QueueType.dbOnly.toI32 then
    fail (.invalidParameter "response_type=Direct is not supported for queue_type=DbOnly")
  else pure ()

/-- `check_worker_data_streaming`, without a client-stream requirement. -/
def checkWorkerDataStreaming (requestStreaming : Bool) : M Unit := do
  match ← invoke .findRunner with
  | none => fail (.invalidParameter "runner not found")
  | some runner =>
    match runner.outputType with
    | some .streaming =>
      if requestStreaming then pure ()
      else fail (.invalidParameter "runner does not support non-streaming")
    | some .nonStreaming =>
      if requestStreaming then fail (.invalidParameter "runner does not support streaming")
      else pure ()
    | some .both => pure ()
    | none => fail (.invalidParameter "runner does not support streaming mode")

/-- `check_worker_streaming`: the worker is looked up again. -/
def checkWorkerStreaming (requestStreaming : Bool) : M Unit := do
  match ← invoke .findWorker with
  | none => fail (.notFound "worker not found")
  | some _ => checkWorkerDataStreaming requestStreaming

/-! ### Building the job -/

def EnqueueRequest.toJobData (req : EnqueueRequest) (wid : WorkerId) (enqueueTime : ℤ) :
    JobData :=
  { workerId := some wid
    args := req.args
    uniqKey := req.uniqKey
    enqueueTime := enqueueTime
    grabbedUntilTime := none
    runAfterTime := req.runAfterTime
    retried := 0
    priority := req.priority
    timeout := req.timeout
    streamingType := req.streamingType.toI32
    usingMethod := req.usingMethod
    overrides := req.overrides }

variable (app : App)

/-- The job an enqueue request becomes.  A row of the RDB queue must have a
positive `run_after_time` to be fetched, so it gets the current time. -/
def prepareJob (wid : WorkerId) (w : WorkerData) (req : EnqueueRequest) :
    M (JobId × JobData) := do
  let resolved := resolveJobParams w req.overrides
  let jobData := req.toJobData wid (← invoke .now)
  if req.runAfterTime > 0 ∧ resolved.responseType = ResponseType.direct.toI32 then
    fail (.invalidParameter (match app.storage with
      | .scalable => "run_after_time must be 0 for worker response_type=Direct. job: "
      | .standalone => "run_after_time must be 0 for worker response_type=Direct: "))
  else
    -- an identifier is generated even when one is reserved
    let generated ← invoke .generateId
    let jid := req.reservedJobId.getD ⟨generated⟩
    if w.isRdbOnly ∧ jobData.runAfterTime = 0 then
      return (jid, { jobData with runAfterTime := ← invoke .now })
    else return (jid, jobData)

/-- `index_job_status_async`: spawned, and its failure only logged. -/
def indexJobStatusAsync (wid : WorkerId) (w : WorkerData) (data : JobData)
    (isStreamable : Bool) : M Unit :=
  when app.indexing (invoke (.spawn (.indexStatus .pending
    { workerId := wid
      channel := w.channel
      priority := data.priority
      enqueueTime := data.enqueueTime
      isStreamable := isStreamable
      broadcastResults := (resolveJobParams w data.overrides).broadcastResults
      workerInstanceId := none })))

/-! ### The Redis queue -/

/-- `PendingStatusPublication`: a retry has already claimed PENDING. -/
inductive PendingStatusPublication
  | newEnqueue | retry
  deriving DecidableEq, Repr, Inhabited

def PendingStatusPublication.createsStatus : PendingStatusPublication → Bool
  | newEnqueue => true
  | retry => false

variable (job : Job)

def isRunAfterJob : M Bool :=
  match job.data with
  | some data => isRunAfterJobData app data
  | none => pure false

def shouldSubscribeResultStreamBeforeEnqueue (loadOnly : Bool) (responseType : ℤ)
    (streamingType : StreamingType) (isRunAfterJob : Bool) (worker : WorkerData) : Bool :=
  !loadOnly && responseType = ResponseType.direct.toI32 && streamingType = .response &&
    !isRunAfterJob && worker.periodicInterval = 0 &&
    (worker.queueType = QueueType.normal.toI32 ||
      worker.queueType = QueueType.withBackup.toI32)

/-- `settle_failed_redis_enqueue`: release the PENDING record unless the job
may have reached the queue after all. -/
def settleFailedRedisEnqueue (jobId : Option JobId) (error : JobWorkerError)
    (pendingRecorded : Bool) : M JobWorkerError :=
  if error = .outcomeUnknown then pure (.jobEnqueueOutcomeUnknown jobId)
  else do
    when pendingRecorded deleteStatus.ignore
    pure error

/-- `wait_for_result_queue_for_response`: `BLPOP` on the job's result list. -/
def waitForResultQueueForResponse (requestStreaming : Bool) : M JobResult := do
  when requestStreaming (invoke .subscribeStream).ignore
  invoke .waitResult

/-- What follows a successful push of a job that is not a load request:
the index hook of a new job, and the TTL key of a queue-only job. -/
def afterRedisPush (worker : WorkerData) (streamingType : StreamingType)
    (publication : PendingStatusPublication) : M Unit :=
  match job.data with
  | none => pure ()
  | some data => do
      when publication.createsStatus
        (match data.workerId with
          | some wid => indexJobStatusAsync app wid worker data (streamingType = .response)
          | none => pure ())
      when (worker.queueType = QueueType.normal.toI32) (invoke (.createKey data)).ignore

/-- `add_run_after_job`: unlike those of a push, its errors are never marked as
of unknown outcome. -/
def addRunAfterJob : M Unit := do
  match ← (invoke (.addRunAfterJob job)).attempt with
  | .ok _ => pure ()
  | .error _ => fail .storageError

/-- Publish a job to the Redis list, or to the run-after set. -/
def pushToRedis (loadOnly : Bool) : M Unit := do
  if ← isRunAfterJob app job then addRunAfterJob job
  else invoke (.pushJob ⟨job, loadOnly⟩)

/-- The end of an enqueue: a Direct caller waits for the result, except for
Internal streaming, where it collects the stream itself. -/
def waitIfDirect (responseType : ℤ) (streamingType : StreamingType) (subscribed : Bool) :
    M (Option JobResult) :=
  if responseType = ResponseType.direct.toI32 ∧ streamingType ≠ .internal then do
    let result ← waitForResultQueueForResponse (streamingType = .response && !subscribed)
    pure (some result)
  else pure none

/-- `enqueue_job_to_redis_with_wait_if_needed`: the result of a Direct job, or
`none`. -/
def enqueueJobToRedisWithWaitIfNeeded (worker : WorkerData)
    (streamingType : StreamingType) (loadOnly : Bool)
    (publication : PendingStatusPublication) : M (Option JobResult) := do
  let resolved := resolveJobParams worker (job.data.bind (·.overrides))
  let subscribed := shouldSubscribeResultStreamBeforeEnqueue loadOnly resolved.responseType
    streamingType (← isRunAfterJob app job) worker
  when subscribed (invoke .subscribeStream)
  let shouldRecordPending := !loadOnly && publication.createsStatus
  when shouldRecordPending (upsertStatus app .pending).discard
  match ← (pushToRedis app job loadOnly).attempt with
  | .error error => fail (← settleFailedRedisEnqueue job.id error shouldRecordPending)
  | .ok _ =>
    when (!loadOnly) (afterRedisPush app job worker streamingType publication)
    waitIfDirect resolved.responseType streamingType subscribed

/-! ### The channel queue -/

def enqueueJobSyncEnqueueOnly (loadOnly : Bool)
    (publication : PendingStatusPublication) : M Unit := do
  if ← isRunAfterJob app job then
    fail (.invalidParameter "run_after_time is not supported in rdb_chan mode")
  else
    let creates := !loadOnly && publication.createsStatus
    when creates (upsertStatus app .pending).discard
    match ← (invoke (.pushJob ⟨job, loadOnly⟩)).attempt with
    | .ok _ => pure ()
    | .error error =>
      when creates deleteStatus.ignore
      fail error

/-- `enqueue_job_sync`: a Direct caller subscribes before the job is visible. -/
def enqueueJobSync (worker : WorkerData) : M (Option JobResult) := do
  let resolved := resolveJobParams worker (job.data.bind (·.overrides))
  if resolved.responseType = ResponseType.direct.toI32 then
    match job.id with
    | none => fail (.invalidParameter "job id is missing")
    | some _ =>
      when (job.data.any (·.streamingType ≠ 0)) (invoke .subscribeStream)
      enqueueJobSyncEnqueueOnly app job false .newEnqueue
      let result ← invoke .awaitPublished
      pure (some result)
  else
    enqueueJobSyncEnqueueOnly app job false .newEnqueue
    pure none

/-! ### Choosing the path -/

/-- Create the row of a job whose only queue is the RDB table. -/
def createRdbOnly (data : JobData) (publish : M Unit) : M (Option JobResult) := do
  if ← invoke (.createRow data) then
    publish
    pure none
  else fail (.runtimeError "cannot create record: ")

/-- The live PENDING record of a new RDB job. -/
def publishPending : M Unit := (upsertStatus app .pending).discard

/-- `w.periodic_interval > 0 || self.is_run_after_job_data(&data)`. -/
def isPeriodicOrRunAfter (w : WorkerData) (data : JobData) : M Bool :=
  if w.periodicInterval > 0 then pure true else isRunAfterJobData app data

namespace Hybrid

/-- The paths of `HybridJobAppImpl::enqueue_job_with_worker`; `index` is what
each entry point does about the status index of an RDB job. -/
def enqueuePath (app : App) (w : WorkerData) (req : EnqueueRequest) (jid : JobId)
    (data : JobData) (index : M Unit) : M (Option JobResult) := do
  let resolved := resolveJobParams w req.overrides
  let job : Job := ⟨some jid, some data, req.metadata⟩
  let toRedis := enqueueJobToRedisWithWaitIfNeeded app job w req.streamingType false .newEnqueue
  if resolved.responseType = ResponseType.direct.toI32 then toRedis
  else if ← isPeriodicOrRunAfter app w data then
    createRdbOnly data do
      publishPending app
      index
  else if w.queueType = QueueType.withBackup.toI32 then
    (invoke (.createRow data)).discard
    toRedis
  else if w.queueType = QueueType.dbOnly.toI32 then
    createRdbOnly data do
      publishPending app
      index
  else toRedis

def enqueueJobWithWorker (app : App) (wid : WorkerId) (w : WorkerData) (req : EnqueueRequest) :
    M (JobId × Option JobResult) := do
  let requestStreaming := decide (req.streamingType ≠ .none)
  checkWorkerDataStreaming requestStreaming
  validateResponseQueueType w.queueType (resolveJobParams w req.overrides).responseType
  let (jid, data) ← prepareJob app wid w req
  let result ← enqueuePath app w req jid data
    (indexJobStatusAsync app wid w data requestStreaming)
  pure (jid, result)

/-- `enqueue_job`: RDB jobs are not indexed here. -/
def enqueueJob (app : App) (workerId : Option WorkerId) (req : EnqueueRequest) :
    M (JobId × Option JobResult) :=
  match workerId with
  | none => fail (.workerNotFound "worker_id or worker_name is required")
  | some wid => do
      match ← invoke .findWorker with
      | none => fail (.workerNotFound "name: None")
      | some w =>
        checkWorkerStreaming (decide (req.streamingType ≠ .none))
        validateResponseQueueType w.queueType (resolveJobParams w req.overrides).responseType
        let (jid, data) ← prepareJob app wid w req
        let result ← enqueuePath app w req jid data (pure ())
        pure (jid, result)

end Hybrid

namespace RdbChan

/-- The paths of `RdbChanJobAppImpl::enqueue_job_with_worker`.  The DbOnly path
creates the row and indexes it, but writes no live record. -/
def enqueuePath (app : App) (wid : WorkerId) (w : WorkerData) (req : EnqueueRequest)
    (jid : JobId) (data : JobData) : M (Option JobResult) := do
  let resolved := resolveJobParams w req.overrides
  let job : Job := ⟨some jid, some data, req.metadata⟩
  let index := indexJobStatusAsync app wid w data (decide (req.streamingType ≠ .none))
  let toChan : M (Option JobResult) := do
    let result ← enqueueJobSync app job w
    index
    pure result
  if resolved.responseType = ResponseType.direct.toI32 then toChan
  else if ← isPeriodicOrRunAfter app w data then
    createRdbOnly data do
      publishPending app
      index
  else if w.queueType = QueueType.withBackup.toI32 then
    (invoke (.createRow data)).discard
    toChan
  else if w.queueType = QueueType.dbOnly.toI32 then
    createRdbOnly data index
  else toChan

def enqueueJobWithWorker (app : App) (wid : WorkerId) (w : WorkerData) (req : EnqueueRequest) :
    M (JobId × Option JobResult) := do
  checkWorkerDataStreaming (decide (req.streamingType ≠ .none))
  validateResponseQueueType w.queueType (resolveJobParams w req.overrides).responseType
  let (jid, data) ← prepareJob app wid w req
  let result ← enqueuePath app wid w req jid data
  pure (jid, result)

def enqueueJob (app : App) (workerId : Option WorkerId) (req : EnqueueRequest) :
    M (JobId × Option JobResult) :=
  match workerId with
  | none => fail (.workerNotFound "worker_id or worker_name is required")
  | some wid => do
      match ← invoke .findWorker with
      | none => fail (.workerNotFound "name: None")
      | some w => enqueueJobWithWorker app wid w req

end RdbChan

/-- `JobApp::enqueue_job`. -/
def enqueueJob (app : App) (workerId : Option WorkerId) (req : EnqueueRequest) :
    M (JobId × Option JobResult) :=
  match app.storage with
  | .scalable => Hybrid.enqueueJob app workerId req
  | .standalone => RdbChan.enqueueJob app workerId req

end Jobworkerp
