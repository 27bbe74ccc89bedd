/-
Jobworkerp/Store.lean

The storage of one job.

`Store` is the slice of the shared storage that belongs to one job id: its
live status record (Redis hash or in-memory map), its row of the RDB job
table, its row of the RDB status index, its deliveries in the Redis list or
channel, its Redis TTL key, its result list, its worker, and the background
tasks spawned for it.  Every call an asynchronous function makes on the
storage is one `Op`, with `Resp` the type of its answer; what the calls do is
the subject of `Effect.lean`.

The environment takes part in every call through a `Choice`: how much time
has passed (the clock never goes back), whether the call fails, and the
answers of components outside the slice (identifiers, session permits, the
runner's result).
-/
import Jobworkerp.JobBuilder

namespace Jobworkerp

/-! ### Records of the status storage -/

/-- `JobProcessingStatusRecord`: the state of one queue attempt. -/
structure JobProcessingStatusRecord where
  status : JobProcessingStatus
  retried : UInt32
  deriving DecidableEq, Repr, Inhabited

inductive StatusTransitionResult
  | applied
  | conflict (current : Option JobProcessingStatusRecord)
  deriving DecidableEq, Repr, Inhabited

/-- A row of `job_processing_status`, the recovery and search index. -/
structure StatusIndexRow where
  status : JobProcessingStatus
  workerId : WorkerId
  channel : String
  priority : ℤ
  enqueueTime : ℤ
  startTime : Option ℤ
  pendingTime : Option ℤ
  isStreamable : Bool
  broadcastResults : Bool
  workerInstanceId : Option ℤ
  version : ℤ
  updatedAt : ℤ
  deletedAt : Option ℤ
  deriving DecidableEq, Repr, Inhabited

/-- `StatusIndexUpdate` without the job id and the status. -/
structure StatusIndexUpdate where
  workerId : WorkerId
  channel : Option String
  priority : ℤ
  enqueueTime : ℤ
  isStreamable : Bool
  broadcastResults : Bool
  workerInstanceId : Option ℤ
  deriving DecidableEq, Repr, Inhabited

/-- `RdbDispatchStart`: what the RDB dispatcher captures before its durable claim. -/
structure RdbDispatchStart where
  workerId : WorkerId
  workerInstanceId : ℤ
  channel : Option String
  priority : ℤ
  enqueueTime : ℤ
  isStreamable : Bool
  broadcastResults : Bool
  timeout : UInt64
  originalGrabbedUntilTime : ℤ
  deriving DecidableEq, Repr, Inhabited

structure RdbDispatchExecution where
  workerInstanceId : ℤ
  statusVersion : ℤ
  grabbedUntilTime : ℤ
  deriving DecidableEq, Repr, Inhabited

/-- A RUNNING index row which belongs to one worker instance. -/
structure RunningStatusCandidate where
  jobId : ℤ
  workerId : ℤ
  workerInstanceId : ℤ
  version : ℤ
  startTime : Option ℤ
  updatedAt : ℤ
  deriving DecidableEq, Repr, Inhabited

structure RecoveryClaim where
  candidate : RunningStatusCandidate
  claimedVersion : ℤ
  deletedAt : ℤ
  deriving DecidableEq, Repr, Inhabited

inductive ClaimOutcome
  | claimed | conflict
  deriving DecidableEq, Repr, Inhabited

inductive ResetRunningOutcome
  | reset | missing | ownedByOther
  deriving DecidableEq, Repr, Inhabited

/-- `JobInternal`: what lies on a queue. -/
structure JobInternal where
  job : Job
  loadOnly : Bool
  deriving DecidableEq, Repr, Inhabited

/-- What `check_worker_data_streaming` reads of the runner: the output type of
the called method, `none` for a number outside the enumeration. -/
structure RunnerData where
  outputType : Option StreamingOutputType
  deriving DecidableEq, Repr, Inhabited

/-- A task spawned with `tokio::spawn` and not awaited by its parent. -/
inductive Task
  /-- Publish the result stream, then `cleanup_job`. -/
  | publishStreamThenCleanup
  /-- Publish the End marker of a stream that never started. -/
  | publishEndMarker
  /-- Write a status to the RDB index. -/
  | indexStatus (status : JobProcessingStatus) (update : StatusIndexUpdate)
  deriving DecidableEq, Repr, Inhabited

/-! ### The store -/

structure Store where
  jobId : JobId
  /-- `datetime::now_millis`. -/
  clock : ℤ
  /-- The live status record, the source of truth for the job's state. -/
  live : Option JobProcessingStatusRecord
  /-- The job's row of the RDB job table, with its overrides. -/
  row : Option JobData
  index : Option StatusIndexRow
  worker : Option WorkerData
  /-- The worker exists only for this job (`create_temp`). -/
  tempWorker : Bool
  runner : Option RunnerData
  /-- The job's deliveries in the Redis list or the channel. -/
  queue : List JobInternal
  /-- The Redis set of run-after jobs. -/
  runAfter : List Job
  /-- The Redis TTL key of a queued or running job. -/
  key : Option JobData
  /-- The Redis result list of a Direct job. -/
  results : List JobResult
  /-- The results published to the job's listeners. -/
  published : List JobResult
  tasks : List Task
  deriving DecidableEq, Repr, Inhabited

inductive JobWorkerError
  | invalidParameter (message : String)
  | notFound (message : String)
  | workerNotFound (message : String)
  | alreadyExists (message : String)
  | runtimeError (message : String)
  /-- The storage refused the call. -/
  | storageError
  /-- The call may have been carried out (`RedisEnqueueOutcomeUnknown`). -/
  | outcomeUnknown
  /-- `JobEnqueueOutcomeUnknown`: the context added for the callers of an enqueue. -/
  | jobEnqueueOutcomeUnknown (jobId : Option JobId)
  deriving DecidableEq, Repr, Inhabited

/-- How a call fails, if it does. -/
inductive Fault
  | none
  | refused
  | unanswered (carriedOut : Bool)
  deriving DecidableEq, Repr, Inhabited

/-- What a runner leaves behind: the part of a job result that is not copied
from the job, and whether there is a stream to publish. -/
structure RunOutcome where
  status : ResultStatus
  output : Option Bytes
  error : Option StreamError
  startTime : ℤ
  endTime : ℤ
  metadata : Metadata
  stream : Bool
  deriving DecidableEq, Repr, Inhabited

/-- What the environment decides about one call. -/
structure Choice where
  fault : Fault
  /-- Milliseconds since the previous call. -/
  tick : ℕ
  /-- A freshly generated identifier, or the number of the task that runs. -/
  number : ℤ
  /-- The yes or no of a component outside the slice. -/
  flag : Bool
  outcome : RunOutcome
  deriving DecidableEq, Repr, Inhabited

/-! ### Calls -/

/-- One call on the storage, or on a component outside it. -/
inductive Op
  | now
  | generateId
  /-- A yes or no question to the worker session or the instance registry. -/
  | ask
  -- live status record
  | getStatus
  | putStatus (record : JobProcessingStatusRecord)
  | deleteStatus
  | compareAndSetEntry (expected next : Option JobProcessingStatusRecord)
  | compareAndSetScript (expected next : Option JobProcessingStatusRecord)
  -- RDB job table
  | findRow
  | fetchRow (merginMsec : UInt32)
  | createRow (data : JobData)
  | upsertRow (data : JobData) (resetIndex : Bool)
  | upsertRowWithClaim (claim : RecoveryClaim) (data : JobData)
  | deleteRow
  | grabRow (timeout : UInt64) (original : ℤ)
  | resetGrabbedUntilTime (old : ℤ)
  | grabAndMarkRunning (start : RdbDispatchStart)
  | releaseUnstartedDispatch (execution : RdbDispatchExecution)
  -- RDB status index
  | indexStatus (status : JobProcessingStatus) (update : StatusIndexUpdate)
  | updateIndexStatus (status : JobProcessingStatus)
  | resetIndexToPending
  | resetRunningIndexByOwner (owner : ℤ)
  | markIndexDeleted
  | findRunning (instanceId afterJobId : ℤ)
  | claimRunning (candidate : RunningStatusCandidate)
  | restoreRunning (claim : RecoveryClaim)
  | resetClaimToPending (claim : RecoveryClaim)
  | restorePendingClaimToRunning (claim : RecoveryClaim)
  -- worker and runner
  | findWorker
  | findRunner
  | deleteTempWorker
  -- Redis list or channel, Redis keys
  | pushJob (payload : JobInternal)
  | pushJobFront (payload : JobInternal)
  | popJob
  | findMultiFromQueue
  | addRunAfterJob (job : Job)
  | createKey (data : JobData)
  | findKey
  | deleteKey
  -- results
  | pushResult (result : JobResult)
  | waitResult
  | publishResult (id : JobResultId) (data : JobResultData) (toListen : Bool)
  | awaitPublished
  | subscribeStream
  | publishStream
  | broadcastCancellation
  | createJobResult (id : JobResultId) (data : JobResultData) (broadcastResults : Bool)
  | findRecoveryResult (data : JobResultData)
  -- worker instance registry
  | refreshRecoveryLock
  -- background tasks and the runner
  | spawn (task : Task)
  | takeTask
  | runJob (job : Job)
  | loadRunner (job : Job)
  deriving DecidableEq, Repr, Inhabited

/-- The type of a call's answer. -/
@[reducible] def Resp : Op → Type
  | .now => ℤ
  | .generateId => ℤ
  | .ask => Bool
  | .getStatus => Option JobProcessingStatusRecord
  | .putStatus _ => Bool
  | .deleteStatus => Bool
  | .compareAndSetEntry _ _ => StatusTransitionResult
  | .compareAndSetScript _ _ => Bool
  | .findRow => Option JobData
  | .fetchRow _ => Option JobData
  | .createRow _ => Bool
  | .upsertRow _ _ => Bool
  | .upsertRowWithClaim _ _ => Bool
  | .deleteRow => Bool
  | .grabRow _ _ => Option ℤ
  | .resetGrabbedUntilTime _ => Bool
  | .grabAndMarkRunning _ => Option RdbDispatchExecution
  | .releaseUnstartedDispatch _ => ClaimOutcome
  | .indexStatus _ _ => Unit
  | .updateIndexStatus _ => Unit
  | .resetIndexToPending => Unit
  | .resetRunningIndexByOwner _ => ResetRunningOutcome
  | .markIndexDeleted => Unit
  | .findRunning _ _ => List RunningStatusCandidate
  | .claimRunning _ => Option RecoveryClaim
  | .restoreRunning _ => ClaimOutcome
  | .resetClaimToPending _ => ClaimOutcome
  | .restorePendingClaimToRunning _ => ClaimOutcome
  | .findWorker => Option WorkerData
  | .findRunner => Option RunnerData
  | .deleteTempWorker => Bool
  | .pushJob _ => Unit
  | .pushJobFront _ => Unit
  | .popJob => JobInternal
  | .findMultiFromQueue => List JobInternal
  | .addRunAfterJob _ => Unit
  | .createKey _ => Unit
  | .findKey => Option JobData
  | .deleteKey => Unit
  | .pushResult _ => Bool
  | .waitResult => JobResult
  | .publishResult _ _ _ => Bool
  | .awaitPublished => JobResult
  | .subscribeStream => Unit
  | .publishStream => Unit
  | .broadcastCancellation => Unit
  | .createJobResult _ _ _ => Unit
  | .findRecoveryResult _ => Bool
  | .refreshRecoveryLock => Bool
  | .spawn _ => Unit
  | .takeTask => Task
  | .runJob _ => RunOutcome
  | .loadRunner _ => RunOutcome

end Jobworkerp
