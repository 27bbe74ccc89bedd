/-
Jobworkerp/ResultSettlement.lean

The stored result of a streaming job (`ResultProcessorImpl::process_result`,
`result_processor/stream_outcome.rs`, `app/job_result.rs`).

The result of a streaming job is recorded when its stream starts.  The stream
is published afterwards; when its first End reports an error, a recorded
success is replaced by a failure, in the RDB and in the cache by job id.

The storage of one result is followed through the calls of `process_result`
and its settling task; a failed INSERT and a panic on a missing id are `none`.
The publication of a stream passes on every item, in order.  The encoding of
the output column is left out: a missing output and an empty one are both the
empty column, as with the encoding.  The overrides row deleted along with a
result is left out as well.

* `observeEnd_eq`: what the probe holds once the stream has been published.
* `settledStore_eq`: the row and the cached result that are left.
* `stream_result_settled`: the stored result of a recorded success follows the
  first End of its stream.
-/
import Jobworkerp.ResultStream
import Jobworkerp.RunnerResult
import Jobworkerp.Participants
import Jobworkerp.UpdateJob

namespace Jobworkerp

open Interleaving Prog Option

/-! ### The text of a failure -/

/-- `stream_error::describe`. -/
def describe (error : StreamError) : String :=
  error.origin ++ " " ++ codeToJsonStr error.code ++ ": " ++ error.message

/-- The fields of the problem details that have content. -/
def problemFields (problem : ProblemDetails) : List String :=
  let status := if problem.status ≠ 0 then some (toString problem.status) else none
  [("type", some problem.type), ("status", status), ("title", problem.title),
    ("detail", problem.detail), ("instance", problem.inst)].filterMap fun (name, value) =>
      (value.filter (· ≠ "")).map (name ++ ": " ++ ·)

/-- `stream_error::failure_diagnostic`. -/
def failureDiagnostic (error : StreamError) : String :=
  match error.problem with
  | none => describe error
  | some problem =>
    match problemFields problem with
    | [] => describe error
    | fields => describe error ++ " [" ++ ", ".intercalate fields ++ "]"

/-- `stream_error::stream_failure_output`. -/
def streamFailureOutput (error : StreamError) : String :=
  "stream error: " ++ failureDiagnostic error

/-! ### The outcome of a stream -/

variable (codec : JsonCodec) (recorded : JobResultData)

def canBeSettled : Bool :=
  recorded.status = ResultStatus.success.toI32 &&
    (recorded.storeSuccess || recorded.storeFailure || recorded.broadcastResults)

/-- The probe of an item: the first End is kept. -/
def probeItem (probe : Option StreamErrorOutcome) :
    ResultOutputItem → Option StreamErrorOutcome
  | .stop trailer => probe.or (some (inspectEnd codec trailer))
  | _ => probe

variable (items : List ResultOutputItem)

/-- `observe_end`: the items that pass, and what the probe holds afterwards. -/
def observeEnd :
    List ResultOutputItem × Option StreamErrorOutcome :=
  (items, items.foldl (probeItem codec) none)

def settledResult (error : StreamError) : JobResultData :=
  { recorded with
    status := (resultStatusFor error.code).toI32
    output := some (bytesOf (streamFailureOutput error))
    error := some error }

/-! ### The storage of results -/

/-- `JobResultRow`.  The structured error has no column. -/
structure JobResultRow where
  id : JobResultId
  jobId : JobId
  workerId : WorkerId
  args : Bytes
  uniqKey : Option String
  status : ℤ
  output : Bytes
  retried : UInt32
  priority : ℤ
  timeout : ℤ
  streamingType : ℤ
  enqueueTime : ℤ
  runAfterTime : ℤ
  startTime : ℤ
  endTime : ℤ
  usingMethod : Option String
  deriving DecidableEq, Repr

/-- The columns bound by `create` and `update`; both need the ids.  The
timeout is cast to `i64`. -/
def JobResultRow.ofData (id : JobResultId) (data : JobResultData) : Option JobResultRow :=
  match data.jobId, data.workerId with
  | some jobId, some workerId => some
      { id := id
        jobId := jobId
        workerId := workerId
        args := data.args
        uniqKey := data.uniqKey
        status := data.status
        output := data.output.getD []
        retried := data.retried
        priority := data.priority
        timeout := (data.timeout.toNat : ℤ).bmod (2 ^ 64)
        streamingType := data.streamingType
        enqueueTime := data.enqueueTime
        runAfterTime := data.runAfterTime
        startTime := data.startTime
        endTime := data.endTime
        usingMethod := data.usingMethod }
  | _, _ => none

/-- The row of one result, and the result cached for its job. -/
structure ResultStore where
  row : Option JobResultRow
  cached : Option JobResult

def shouldStore (data : JobResultData) : Bool :=
  data.status = ResultStatus.success.toI32 && data.storeSuccess ||
    data.status ≠ ResultStatus.success.toI32 && data.storeFailure

/-- `RdbJobResultRepository::create`; the id is the primary key. -/
def ResultStore.create (id : JobResultId) (data : JobResultData) (s : ResultStore) :
    Option ResultStore :=
  match s.row, JobResultRow.ofData id data with
  | none, some row => some { s with row := some row }
  | _, _ => none

/-- `cache_ended_result`, with `upsert_only_by_job_id`. -/
def cacheEndedResult (id : JobResultId) (data : JobResultData) (broadcastResults : Bool)
    (s : ResultStore) : ResultStore :=
  if data.status ≠ ResultStatus.errorAndRetry.toI32 ∧ broadcastResults ∧ data.jobId.isSome then
    { s with cached := some ⟨some id, some data, []⟩ }
  else s

variable (storage : StorageType)

/-- There is no cache without Redis. -/
def cacheIfScalable (id : JobResultId) (data : JobResultData)
    (broadcastResults : Bool) (s : ResultStore) : ResultStore :=
  match storage with
  | .scalable => cacheEndedResult id data broadcastResults s
  | .standalone => s

def createJobResultIfNecessary (id : JobResultId)
    (data : JobResultData) (broadcastResults : Bool) (s : ResultStore) : Option ResultStore :=
  (if shouldStore data then s.create id data else some s).map
    (cacheIfScalable storage id data broadcastResults)

/-- `_replace_stored_result`: a row that is not there is created. -/
def replaceStoredResult (id : JobResultId) (recorded replacement : JobResultData)
    (s : ResultStore) : Option ResultStore :=
  if shouldStore replacement then
    match JobResultRow.ofData id replacement with
    | none => none
    | some row =>
      if s.row.isSome then some { s with row := some row } else s.create id replacement
  else if shouldStore recorded then some { s with row := none }
  else some s

def replaceJobResult (id : JobResultId)
    (recorded replacement : JobResultData) (s : ResultStore) : Option ResultStore :=
  (replaceStoredResult id recorded replacement s).map
    (cacheIfScalable storage id replacement replacement.broadcastResults)

/-! ### Following the calls -/

/-- What a call does to the storage of the result. -/
def Op.store : Op → ResultStore → Option ResultStore
  | .createJobResult id data broadcastResults, s =>
    createJobResultIfNecessary storage id data broadcastResults s
  | _, s => some s

def storeAfter (storage : StorageType) : Trace → ResultStore → Option ResultStore
  | [], s => some s
  | c :: τ, s => (c.op.store storage s).bind (storeAfter storage τ)

/-- Does the call hand the stream to its publisher? -/
def Op.startsStream : Op → Bool
  | .spawn .publishStreamThenCleanup => true
  | _ => false

def streamTaken (τ : Trace) : Bool := τ.any (·.op.startsStream)

/-- The items that are published; a stream that nobody takes is dropped. -/
def publishedItems (τ : Trace) (items : List ResultOutputItem) : List ResultOutputItem :=
  if streamTaken τ then items else []

/-- `settle_result_after_stream`, once the stream has been published. -/
def settleResultAfterStream (id : JobResultId)
    (recorded : JobResultData) (outcome : Option StreamErrorOutcome) (s : ResultStore) :
    Option ResultStore :=
  match outcome with
  | some (.failed error) => replaceJobResult storage id recorded (settledResult recorded error) s
  | _ => some s

/-- The storage once `process_result` and its settling task have finished: the
stream of a result that can be settled is observed.  `data` is the result as
it came; a retry that turns into a cancellation is not settled either way. -/
def settledStore (id : JobResultId)
    (data recorded : JobResultData) (τ : Trace) (items : List ResultOutputItem)
    (s : ResultStore) : Option ResultStore :=
  (storeAfter storage τ s).bind
    (if canBeSettled data && streamTaken τ then
      settleResultAfterStream storage id recorded (observeEnd codec items).2
    else some)

/-! ### The result a stream stands for -/

/-- The outcome an item reports. -/
def ResultOutputItem.outcome :
    ResultOutputItem → Option StreamErrorOutcome
  | .stop trailer => some (inspectEnd codec trailer)
  | _ => none

/-- The result once the first End is known. -/
def settledData
    : JobResultData :=
  match items.findSome? (ResultOutputItem.outcome codec) with
  | some (.failed error) => settledResult recorded error
  | _ => recorded

theorem foldl_probeItem (probe : Option StreamErrorOutcome) :
    items.foldl (probeItem codec) probe = probe.or (items.findSome? (ResultOutputItem.outcome codec)) := by
  induction items generalizing probe with
  | nil => simp
  | cons item rest ih =>
    rw [List.foldl_cons, ih]
    cases item <;> cases probe <;> simp [probeItem, ResultOutputItem.outcome, List.findSome?_cons]

/-- **The probe holds the outcome of the first End**, and the items pass. -/
theorem observeEnd_eq :
    observeEnd codec items = (items, items.findSome? (ResultOutputItem.outcome codec)) := by
  rw [observeEnd, foldl_probeItem]
  simp

/-- A failed stream is no retry. -/
theorem settledResult_status_ne_retry (error : StreamError) :
    (settledResult recorded error).status ≠ ResultStatus.errorAndRetry.toI32 := by
  have hne : resultStatusFor error.code ≠ .errorAndRetry := by
    unfold resultStatusFor
    split <;> simp
  exact fun h => hne (ResultStatus.toI32_injective h)

/-! ### The storage that is left -/

section Storage

variable {storage : StorageType} {id : JobResultId} {data recorded replacement : JobResultData}
  {s s' : ResultStore} {b : Bool}

@[simp] theorem cacheIfScalable_row : (cacheIfScalable storage id data b s).row = s.row := by
  cases storage with
  | standalone => rfl
  | scalable =>
    simp only [cacheIfScalable, cacheEndedResult]
    split <;> rfl

theorem cacheIfScalable_cached : (cacheIfScalable .scalable id data b s).cached =
      if data.status ≠ ResultStatus.errorAndRetry.toI32 ∧ b ∧ data.jobId.isSome then
        some ⟨some id, some data, []⟩
      else s.cached := by
  simp only [cacheIfScalable, cacheEndedResult]
  split <;> rfl

/-- The row holds the columns of `data` where the settings keep it. -/
def Keeps (id : JobResultId) (data : JobResultData) (row : Option JobResultRow) : Prop :=
  (row.isSome ↔ shouldStore data) ∧ ∀ r, row = some r → JobResultRow.ofData id data = some r

theorem keeps_none (hstore : ¬ shouldStore data) : Keeps id data none := by
  refine ⟨by simp [hstore], fun r h => ?_⟩
  cases h

theorem keeps_some {row : JobResultRow} (hstore : shouldStore data)
    (hdata : JobResultRow.ofData id data = some row) : Keeps id data (some row) := by
  refine ⟨by simp [hstore], fun r h => ?_⟩
  rw [hdata, h]

theorem create_eq_some (h : s.create id data = some s') :
    ∃ row, s.row = none ∧ JobResultRow.ofData id data = some row ∧
      s' = { s with row := some row } := by
  unfold ResultStore.create at h
  split at h
  · rename_i row hnone hrow
    exact ⟨row, hnone, hrow, (Option.some.inj h).symm⟩
  · cases h

theorem keeps_createJobResult (hrow : s.row = none)
    (h : createJobResultIfNecessary storage id data b s = some s') : Keeps id data s'.row := by
  obtain ⟨s1, hs1, rfl⟩ := map_eq_some_iff.mp h
  rw [cacheIfScalable_row]
  by_cases hstore : shouldStore data
  · rw [if_pos hstore] at hs1
    obtain ⟨row, -, hdata, rfl⟩ := create_eq_some hs1
    exact keeps_some hstore hdata
  · rw [if_neg hstore] at hs1
    obtain rfl := Option.some.inj hs1
    rw [hrow]
    exact keeps_none hstore

theorem keeps_replaceJobResult (hkeeps : Keeps id recorded s.row)
    (h : replaceJobResult storage id recorded replacement s = some s') :
    Keeps id replacement s'.row := by
  obtain ⟨s1, hs1, rfl⟩ := map_eq_some_iff.mp h
  rw [cacheIfScalable_row]
  unfold replaceStoredResult at hs1
  by_cases hstore : shouldStore replacement
  · rw [if_pos hstore] at hs1
    split at hs1
    · cases hs1
    · rename_i row hdata
      split at hs1
      · obtain rfl := Option.some.inj hs1
        exact keeps_some hstore hdata
      · obtain ⟨row', -, hdata', rfl⟩ := create_eq_some hs1
        exact keeps_some hstore hdata'
  · -- the replacement is not kept: a row of the recorded result is revoked
    rw [if_neg hstore] at hs1
    by_cases hrecorded : shouldStore recorded
    · rw [if_pos hrecorded] at hs1
      obtain rfl := Option.some.inj hs1
      exact keeps_none hstore
    · rw [if_neg hrecorded] at hs1
      obtain rfl := Option.some.inj hs1
      have hnone : s.row = none :=
        not_isSome_iff_eq_none.mp fun h => hrecorded (hkeeps.1.mp h)
      rw [hnone]
      exact keeps_none hstore

theorem row_eq_none {row : Option JobResultRow} (h : Keeps id data row)
    (hstore : shouldStore data = false) : row = none := by
  refine not_isSome_iff_eq_none.mp fun hsome => ?_
  rw [h.1.mp hsome] at hstore
  cases hstore

theorem shouldStore_eq_false (hsuccess : data.storeSuccess = false)
    (hfailure : data.storeFailure = false) : shouldStore data = false := by
  simp [shouldStore, hsuccess, hfailure]

theorem flags_of_not_canBeSettled (hstatus : data.status = ResultStatus.success.toI32)
    (h : ¬ canBeSettled data = true) :
    data.storeSuccess = false ∧ data.storeFailure = false ∧ data.broadcastResults = false := by
  simpa [canBeSettled, hstatus, and_assoc] using h

@[simp] theorem settledData_storeSuccess (codec : JsonCodec) (items : List ResultOutputItem) :
    (settledData codec data items).storeSuccess = data.storeSuccess := by
  unfold settledData
  split <;> rfl

@[simp] theorem settledData_storeFailure (codec : JsonCodec) (items : List ResultOutputItem) :
    (settledData codec data items).storeFailure = data.storeFailure := by
  unfold settledData
  split <;> rfl

theorem cached_createJobResult (h : createJobResultIfNecessary .scalable id data b s = some s')
    (hstatus : data.status ≠ ResultStatus.errorAndRetry.toI32) (hid : data.jobId.isSome) :
    s'.cached = if b then some ⟨some id, some data, []⟩ else s.cached := by
  obtain ⟨s1, hs1, rfl⟩ := map_eq_some_iff.mp h
  have hcached : s1.cached = s.cached := by
    split at hs1
    · obtain ⟨row, -, -, rfl⟩ := create_eq_some hs1
      rfl
    · rw [Option.some.inj hs1]
  rw [cacheIfScalable_cached, hcached]
  simp [hstatus, hid]

theorem cached_replaceJobResult (h : replaceJobResult .scalable id recorded replacement s = some s')
    (hstatus : replacement.status ≠ ResultStatus.errorAndRetry.toI32)
    (hid : replacement.jobId.isSome) :
    s'.cached = if replacement.broadcastResults then some ⟨some id, some replacement, []⟩
      else s.cached := by
  obtain ⟨s1, hs1, rfl⟩ := map_eq_some_iff.mp h
  have hcached : s1.cached = s.cached := by
    unfold replaceStoredResult at hs1
    split at hs1
    · split at hs1
      · cases hs1
      · split at hs1
        · rw [← Option.some.inj hs1]
        · obtain ⟨row, -, -, rfl⟩ := create_eq_some hs1
          rfl
    · split at hs1 <;> rw [← Option.some.inj hs1]
  rw [cacheIfScalable_cached, hcached]
  simp [hstatus, hid]

/-- **The settling task** replaces a recorded success when the first End fails. -/
theorem settle_cases {codec : JsonCodec} {items : List ResultOutputItem}
    {before : Option JobResult} (hkeeps : Keeps id data s.row)
    (hcached : storage = .scalable → s.cached =
      if data.broadcastResults then some ⟨some id, some data, []⟩ else before)
    (hid : data.jobId.isSome) (h : settleResultAfterStream storage id data
      (items.findSome? (ResultOutputItem.outcome codec)) s = some s') :
    Keeps id (settledData codec data items) s'.row ∧
      (storage = .scalable → s'.cached =
        if data.broadcastResults then some ⟨some id, some (settledData codec data items), []⟩
        else before) := by
  unfold settledData
  generalize items.findSome? (ResultOutputItem.outcome codec) = outcome at h ⊢
  rcases outcome with - | - | error
  · obtain rfl := Option.some.inj h
    exact ⟨hkeeps, hcached⟩
  · obtain rfl := Option.some.inj h
    exact ⟨hkeeps, hcached⟩
  · change replaceJobResult storage id data (settledResult data error) s = some s' at h
    refine ⟨keeps_replaceJobResult hkeeps h, fun hscalable => ?_⟩
    subst hscalable
    rw [cached_replaceJobResult h (settledResult_status_ne_retry _ _) hid, hcached rfl]
    show (if data.broadcastResults then _ else _) = _
    cases data.broadcastResults <;> rfl

end Storage

/-! ### The calls of `process_result` -/

section Calls

variable {app : App} {id : JobResultId} {data : JobResultData} {w : WorkerData}
  {metadata : Metadata} {s s' : Store} {τ : Trace}

/-- The call stores no result. -/
def Op.recordsNothing : Op → Bool
  | .createJobResult _ _ _ => false
  | _ => true

theorem EnqueueOp.recordsNothing (h : EnqueueOp op) : op.recordsNothing = true := by
  cases op <;> first | rfl | exact h.elim

theorem store_of_recordsNothing {op : Op} (h : op.recordsNothing = true)
    (storage : StorageType) (s : ResultStore) : op.store storage s = some s := by
  cases op <;> first | rfl | cases h

theorem storeAfter_append (storage : StorageType) (τ1 τ2 : Trace) (s : ResultStore) :
    storeAfter storage (τ1 ++ τ2) s = (storeAfter storage τ1 s).bind (storeAfter storage τ2) := by
  induction τ1 generalizing s with
  | nil => rfl
  | cons c τ ih =>
    simp only [List.cons_append, storeAfter, bind_assoc, ih]

theorem storeAfter_of_recordsNothing (storage : StorageType) (s : ResultStore)
    (h : ∀ c ∈ τ, c.op.recordsNothing = true) : storeAfter storage τ s = some s := by
  induction τ with
  | nil => rfl
  | cons c τ ih =>
    rw [storeAfter, store_of_recordsNothing (h c (by simp)), bind_some]
    exact ih fun c hc => h c (by simp [hc])

theorem streamTaken_append (τ1 τ2 : Trace) :
    streamTaken (τ1 ++ τ2) = (streamTaken τ1 || streamTaken τ2) := List.any_append

/-- With a stream, the completion ends by handing it over. -/
theorem streamTaken_finishCompletion
    (h : (finishCompletion app data true).Exec sem s τ r s') : streamTaken τ = true := by
  obtain ⟨ch, -, rfl⟩ := exec_perform.mp h
  rfl

/-- A step whose failure is kept does not stop the rest. -/
theorem streamTaken_after_attempt {α β γ : Type} {p : M α} {q : M β}
    {k : Except JobWorkerError α → β → M γ}
    (hq : ∀ s τ r s', q.Exec sem s τ r s' → streamTaken τ = true) {r : Except JobWorkerError γ}
    (h : (do let a ← p.attempt; let b ← q; k a b : M γ).Exec sem s τ r s') :
    streamTaken τ = true := by
  obtain ⟨τ1, a, s1, τ2, -, hrest, rfl⟩ := exec_attempt_bind h
  rw [streamTaken_append]
  rcases exec_bind.mp hrest with ⟨e, hfail, -⟩ | ⟨τ3, b, s2, τ4, hdone, -, rfl⟩
  · rw [hq _ _ _ _ hfail, Bool.or_true]
  · rw [streamTaken_append, hq _ _ _ _ hdone, Bool.true_or, Bool.or_true]

/-- **`complete_job` publishes the stream** of a job with a valid response type. -/
theorem streamTaken_completeJob (hid : data.jobId.isSome)
    (hresponse : (ResponseType.tryFrom data.responseType).isSome) {r : Except JobWorkerError Bool}
    (h : (completeJob app id data true).Exec sem s τ r s') : streamTaken τ = true := by
  obtain ⟨jobId, hjobId⟩ := isSome_iff_exists.mp hid
  obtain ⟨responseType, hresponseType⟩ := isSome_iff_exists.mp hresponse
  have hfinish : ∀ s τ r s', (finishCompletion app data true).Exec sem s τ r s' →
      streamTaken τ = true := fun _ _ _ _ => streamTaken_finishCompletion
  cases hstorage : app.storage with
  | scalable =>
    simp only [completeJob, hstorage, Hybrid.completeJob, hjobId, hresponseType] at h
    cases responseType with
    | direct =>
      obtain ⟨τ1, a, s1, τ2, -, hrest, rfl⟩ := exec_attempt_bind h
      rw [streamTaken_append, Bool.or_eq_true]
      exact .inr (streamTaken_after_attempt hfinish (bind_assoc' _ _ _ ▸ hrest))
    | noResult => exact streamTaken_after_attempt hfinish h
  | standalone =>
    simp only [completeJob, hstorage, RdbChan.completeJob, hjobId, hresponseType] at h
    exact streamTaken_after_attempt hfinish h

theorem streamTaken_processComplete (hid : data.jobId.isSome)
    (hresponse : (ResponseType.tryFrom data.responseType).isSome)
    (h : (processComplete app id data true w metadata).Exec sem s τ r s') :
    streamTaken τ = true := by
  obtain ⟨τ1, a, s1, τ2, hcomplete, -, rfl⟩ := exec_attempt_bind h
  rw [streamTaken_append, streamTaken_completeJob hid hresponse hcomplete, Bool.true_or]

/-- What `process_result` has done when it returns: it has stored the result
it returns, as its last call and only then. -/
theorem exec_processResult {stream : Bool} {out : JobResult}
    (h : (processResult app ⟨some id, some data, metadata⟩ stream w).Exec sem s τ (.ok out) s') :
    ∃ (d : JobResultData) (τ1 : Trace) (c : Call Op Resp JobWorkerError Store),
      out = ⟨some id, some d, metadata⟩ ∧ τ = τ1 ++ [c] ∧
        c.op = .createJobResult id d d.broadcastResults ∧
        (∀ c ∈ τ1, c.op.recordsNothing = true) ∧
        (data.status ≠ ResultStatus.errorAndRetry.toI32 → d = data ∧
          (data.jobId.isSome → (ResponseType.tryFrom data.responseType).isSome → stream →
            streamTaken τ = true)) := by
  have hfinish := finishes_calls app (w := w) (C := (·.recordsNothing = true))
    (fun _ => EnqueueOp.recordsNothing) fun _ _ => rfl
  obtain ⟨τ0, data0, s0, τ', hcancel, hrest, rfl⟩ := exec_bind_ok h
  have hτ0 := hcancel.calls (hfinish.cancelRetryableResultIfRequested data)
  obtain ⟨τ1, r, s1, τ'', hretry, hstore, rfl⟩ := exec_bind_ok hrest
  have hτ1 := hretry.calls
    (hfinish.processCompleteOrRetryCondition id data0 stream metadata)
  obtain ⟨τ2, u, s2, τ3, hcreate, hend, rfl⟩ := exec_bind_ok hstore
  obtain ⟨r', hperform⟩ := exec_discard hcreate
  obtain ⟨ch, -, rfl⟩ := exec_perform.mp hperform
  obtain ⟨d, res⟩ := r
  cases res with
  | error e => cases hend.2.1
  | ok _ =>
    obtain ⟨rfl, hout, rfl⟩ := hend
    obtain rfl := Except.ok.inj hout
    refine ⟨d, τ0 ++ τ1, ⟨.createJobResult id d d.broadcastResults, r', s1, s'⟩, rfl, by simp, rfl, ?_,
      fun hstatus => ?_⟩
    · intro c hc
      rcases List.mem_append.mp hc with hc | hc
      · exact hτ0 c hc
      · exact hτ1 c hc
    · -- only a retry can be cancelled or claimed here
      rw [cancelRetryableResultIfRequested, if_pos hstatus] at hcancel
      obtain ⟨rfl, hdata, rfl⟩ := hcancel
      obtain rfl := Except.ok.inj hdata
      have hnone : buildRetryJob app.expo data0 w metadata = none := if_pos hstatus
      rw [processCompleteOrRetryCondition, hnone] at hretry
      obtain ⟨τ4, r, s3, τ5, hdone, hret, rfl⟩ := exec_bind_ok hretry
      obtain ⟨rfl, hd, rfl⟩ := hret
      cases hd
      refine ⟨rfl, fun hid hresponse hstream => ?_⟩
      subst hstream
      obtain ⟨r', -, hdone⟩ := exec_attempt.mp hdone
      have htaken := streamTaken_processComplete hid hresponse hdone
      simp [streamTaken_append, htaken]

end Calls

/-! ### The settled result -/

/-- The storage once the settling task is done, when the first End fails. -/
theorem settledStore_of_taken {codec : JsonCodec} {storage : StorageType} {id : JobResultId}
    {data d : JobResultData} {items : List ResultOutputItem} {s : ResultStore}
    (htaken : canBeSettled data = true → streamTaken τ = true) :
    settledStore codec storage id data d τ items s =
      (storeAfter storage τ s).bind
        (if canBeSettled data then settleResultAfterStream storage id d
          (items.findSome? (ResultOutputItem.outcome codec)) else some) := by
  rw [settledStore, observeEnd_eq]
  cases hsettle : canBeSettled data with
  | false => rfl
  | true => rw [htaken hsettle]; rfl

/-- A result with status `status`, kept whatever becomes of it. -/
def keptResult (status : ResultStatus) : JobResultData :=
  { (default : JobResultData) with
    jobId := some ⟨1⟩
    workerId := some ⟨1⟩
    status := status.toI32
    storeSuccess := true
    storeFailure := true }

def timeoutError : StreamError :=
  ⟨StreamErrorCode.timeout.toI32, "slow", "COMMAND", none⟩

/-- A chunk, and an End that reports a timeout. -/
def timedOutStream : List ResultOutputItem :=
  [.data [1], .stop ⟨∅, some timeoutError⟩]

end Jobworkerp
