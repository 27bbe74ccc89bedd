/-
Jobworkerp/Proto.lean

The protobuf messages the job lifecycle reads and writes.

Enumerations are inductive types with their wire numbers (`toI32`).  A
message field of enum type is an open `i32` on the Rust side: it holds
whatever number was received, and the code compares it with `X as i32` or
converts it with `X::try_from`.  Those fields are therefore integers here too,
and an unknown number is a value like any other.

Widths: `u32` counters (`retried`, `max_retry`, intervals) are `UInt32`;
`i64` times and identifiers are `Int`; `bytes` are lists of `UInt8`; the
`float` basis of a retry policy is kept as its bit pattern, since no modelled
function looks inside it.
-/
import Mathlib.Data.Int.Notation

namespace Jobworkerp

/-! ### Enumerations -/

/-- `JobProcessingStatus` of `common.proto`. -/
inductive JobProcessingStatus
  | unknown | pending | running | waitResult | cancelling
  deriving DecidableEq, Repr, Inhabited

def JobProcessingStatus.toI32 : JobProcessingStatus → ℤ
  | unknown => 0
  | pending => 1
  | running => 2
  | waitResult => 3
  | cancelling => 4

inductive QueueType
  | normal | withBackup | dbOnly
  deriving DecidableEq, Repr, Inhabited

def QueueType.toI32 : QueueType → ℤ
  | normal => 0
  | withBackup => 1
  | dbOnly => 2

inductive ResponseType
  | noResult | direct
  deriving DecidableEq, Repr, Inhabited

def ResponseType.toI32 : ResponseType → ℤ
  | noResult => 0
  | direct => 1

def ResponseType.tryFrom (n : ℤ) : Option ResponseType :=
  if n = 0 then some noResult else if n = 1 then some direct else none

inductive ResultStatus
  | success | errorAndRetry | fatalError | abort | maxRetry | otherError | cancelled
  deriving DecidableEq, Repr, Inhabited

def ResultStatus.toI32 : ResultStatus → ℤ
  | success => 0
  | errorAndRetry => 1
  | fatalError => 2
  | abort => 3
  | maxRetry => 4
  | otherError => 5
  | cancelled => 6

inductive StreamingType
  | none | response | internal
  deriving DecidableEq, Repr, Inhabited

def StreamingType.toI32 : StreamingType → ℤ
  | none => 0
  | response => 1
  | internal => 2

/-- `StreamingType::try_from(n).unwrap_or(StreamingType::None)`. -/
def StreamingType.ofI32 (n : ℤ) : StreamingType :=
  if n = 1 then response else if n = 2 then internal else none

/-- What a runner's method can produce. -/
inductive StreamingOutputType
  | streaming | nonStreaming | both
  deriving DecidableEq, Repr, Inhabited

inductive RetryType
  | none | exponential | linear | constant
  deriving DecidableEq, Repr, Inhabited

def RetryType.toI32 : RetryType → ℤ
  | none => 0
  | exponential => 1
  | linear => 2
  | constant => 3

/-- `RetryType::try_from(n).unwrap_or(RetryType::None)`. -/
def RetryType.ofI32 (n : ℤ) : RetryType :=
  if n = 1 then exponential else if n = 2 then linear else if n = 3 then constant else none

inductive StreamErrorCode
  | unspecified | executionFailed | timeout | cancelled | transportFailed
  | invalidArgument | providerStreamFailed
  deriving DecidableEq, Repr, Inhabited

def StreamErrorCode.toI32 : StreamErrorCode → ℤ
  | unspecified => 0
  | executionFailed => 1
  | timeout => 2
  | cancelled => 3
  | transportFailed => 4
  | invalidArgument => 5
  | providerStreamFailed => 6

/-! ### Identifiers -/

structure JobId where
  value : ℤ
  deriving DecidableEq, Repr, Inhabited

structure WorkerId where
  value : ℤ
  deriving DecidableEq, Repr, Inhabited

structure JobResultId where
  value : ℤ
  deriving DecidableEq, Repr, Inhabited

/-! ### Messages -/

abbrev Bytes := List UInt8

/-- `str::as_bytes`. -/
def bytesOf (s : String) : Bytes := s.toUTF8.toList

abbrev Metadata := List (String × String)

structure RetryPolicy where
  type : ℤ
  interval : UInt32
  maxInterval : UInt32
  maxRetry : UInt32
  /-- The bits of the `float` field. -/
  basis : UInt32
  deriving DecidableEq, Repr, Inhabited

structure JobExecutionOverrides where
  responseType : Option ℤ
  storeSuccess : Option Bool
  storeFailure : Option Bool
  broadcastResults : Option Bool
  retryPolicy : Option RetryPolicy
  deriving DecidableEq, Repr, Inhabited

structure JobData where
  workerId : Option WorkerId
  args : Bytes
  uniqKey : Option String
  enqueueTime : ℤ
  grabbedUntilTime : Option ℤ
  runAfterTime : ℤ
  retried : UInt32
  priority : ℤ
  timeout : UInt64
  streamingType : ℤ
  usingMethod : Option String
  overrides : Option JobExecutionOverrides
  deriving DecidableEq, Repr, Inhabited

structure Job where
  id : Option JobId
  data : Option JobData
  metadata : Metadata
  deriving DecidableEq, Repr, Inhabited

/-- Structured error of a failed component. -/
structure ProblemDetails where
  type : String
  status : ℤ
  title : Option String
  detail : Option String
  inst : Option String
  deriving DecidableEq, Repr, Inhabited

structure StreamError where
  code : ℤ
  message : String
  origin : String
  problem : Option ProblemDetails
  deriving DecidableEq, Repr, Inhabited

structure JobResultData where
  jobId : Option JobId
  workerId : Option WorkerId
  workerName : String
  args : Bytes
  uniqKey : Option String
  status : ℤ
  output : Option Bytes
  retried : UInt32
  maxRetry : UInt32
  priority : ℤ
  timeout : UInt64
  streamingType : ℤ
  enqueueTime : ℤ
  runAfterTime : ℤ
  startTime : ℤ
  endTime : ℤ
  responseType : ℤ
  storeSuccess : Bool
  storeFailure : Bool
  usingMethod : Option String
  broadcastResults : Bool
  resolvedRetryPolicy : Option RetryPolicy
  error : Option StreamError
  deriving DecidableEq, Repr, Inhabited

structure JobResult where
  id : Option JobResultId
  data : Option JobResultData
  metadata : Metadata
  deriving DecidableEq, Repr, Inhabited

/-- The fields of `WorkerData` that the job lifecycle reads. -/
structure WorkerData where
  name : String
  retryPolicy : Option RetryPolicy
  periodicInterval : UInt32
  channel : Option String
  queueType : ℤ
  responseType : ℤ
  storeSuccess : Bool
  storeFailure : Bool
  useStatic : Bool
  broadcastResults : Bool
  deriving DecidableEq, Repr, Inhabited

/-! ### Classified errors -/

/-- Origin for failures detected outside a runner. -/
def workerOrigin : String := "WORKER"

/-- `stream_error::cancelled_by_worker`, for messages within the size bound. -/
def cancelledByWorker (message : String) : StreamError :=
  ⟨StreamErrorCode.cancelled.toI32, message, workerOrigin, none⟩

end Jobworkerp
