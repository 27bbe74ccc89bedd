/-
Jobworkerp/Effect.lean

What the storage calls do, transcribed from the SQL statements, Redis commands
and map operations of `infra/job`.

`effect` gives the answer and the new store of a call that goes through.
`sem` adds the environment: time passes before every call, and a call may be
refused, or go unanswered, in which case it may or may not have been carried
out.  A blocking call (`BLPOP` on an empty result list, a task pool without
tasks) has no transition.

* `effect_frame`: a call writes its own part of the store and nothing else.
* `effect_of_sem_ok`: a call that answers has been carried out.
-/
import Jobworkerp.Interleaving.Pool
import Jobworkerp.Store

namespace Jobworkerp

open Interleaving

/-! ### RDB job table -/

/-- The columns a `JobData` is stored as: the lease column is never null. -/
def rowOf (data : JobData) : JobData :=
  { data with grabbedUntilTime := some (data.grabbedUntilTime.getD 0) }

/-- `create` binds the timeout `as i32`, the upserts bind it `as i64`. -/
def createdRowOf (data : JobData) : JobData :=
  { rowOf data with timeout := data.timeout.toUInt32.toInt32.toInt64.toUInt64 }

/-- The lease written by a grab: the job's timeout, or 100 years without one,
plus `GRAB_MERGIN_MILLISEC`. -/
def grabbedUntilTime (timeout : UInt64) (now : ℤ) : ℤ :=
  let timeout := timeout.toInt64.toInt
  now + (if timeout = 0 then 1000 * 60 * 60 * 24 * 365 * 100 else timeout) + 10000

/-- Is the row leased until exactly `lease`? -/
def leasedUntil (row : Option JobData) (lease : ℤ) : Bool :=
  row.any fun r => r.grabbedUntilTime = some lease

def setLease (row : Option JobData) (lease : ℤ) : Option JobData :=
  row.map fun r => { r with grabbedUntilTime := some lease }

/-- `fetch_jobs_to_process` with `future_only_mode`: is the row due? -/
def isFetchable (now : ℤ) (merginMsec : UInt32) (r : JobData) : Bool :=
  r.runAfterTime ≤ now + merginMsec.toNat ∧ r.runAfterTime > 0 ∧
    r.grabbedUntilTime.getD 0 ≤ now

/-! ### RDB status index -/

/-- `channel.unwrap_or(DEFAULT_CHANNEL_NAME)`. -/
def statusIndexChannel (channel : Option String) : String :=
  channel.getD "__default_job_channel__"

/-- A freshly inserted index row. -/
def newIndexRow (now : ℤ) (status : JobProcessingStatus) (u : StatusIndexUpdate)
    (startTime pendingTime workerInstanceId : Option ℤ) : StatusIndexRow :=
  { status := status
    workerId := u.workerId
    channel := statusIndexChannel u.channel
    priority := u.priority
    enqueueTime := u.enqueueTime
    startTime := startTime
    pendingTime := pendingTime
    isStreamable := u.isStreamable
    broadcastResults := u.broadcastResults
    workerInstanceId := workerInstanceId
    version := 1
    updatedAt := now
    deletedAt := none }

/-- `UPDATE job_processing_status ... WHERE cond`: was the row affected, and
the row afterwards. -/
def updateIndex (index : Option StatusIndexRow) (cond : StatusIndexRow → Bool)
    (f : StatusIndexRow → StatusIndexRow) : Bool × Option StatusIndexRow :=
  match index with
  | some r => if cond r then (true, some (f r)) else (false, some r)
  | none => (false, none)

section UpdateIndex

variable {index : Option StatusIndexRow} {r : StatusIndexRow} {cond : StatusIndexRow → Bool}
  {f : StatusIndexRow → StatusIndexRow}

theorem updateIndex_of (h : cond r = true) : updateIndex (some r) cond f = (true, some (f r)) := by
  simp only [updateIndex, h, if_true]

theorem updateIndex_of_not (h : cond r = false) :
    updateIndex (some r) cond f = (false, some r) := by
  simp only [updateIndex, h, Bool.false_eq_true, if_false]

/-- An update that affects the row has met its condition. -/
theorem updateIndex_taken (h : (updateIndex index cond f).1 = true) :
    ∃ r, index = some r ∧ cond r = true ∧ (updateIndex index cond f).2 = some (f r) := by
  cases index with
  | none => cases h
  | some r =>
    cases hcond : cond r with
    | true => exact ⟨r, rfl, hcond, congrArg Prod.snd (updateIndex_of hcond)⟩
    | false =>
      rw [updateIndex_of_not hcond] at h
      cases h

end UpdateIndex

/-- The assignments that bring an index row back to PENDING. -/
def StatusIndexRow.toPending (now : ℤ) (r : StatusIndexRow) : StatusIndexRow :=
  { r with
    status := .pending
    workerInstanceId := none
    startTime := none
    deletedAt := none
    pendingTime := some now
    updatedAt := now
    version := r.version + 1 }

/-- `reset_to_pending_by_job_id`: undelete a logically deleted row. -/
def undeleteIndex (now : ℤ) (index : Option StatusIndexRow) : Option StatusIndexRow :=
  (updateIndex index (·.deletedAt.isSome) (·.toPending now)).2

/-- `index_status_update`; a PENDING insert over a live PENDING row violates
the primary key. -/
def writeIndexStatus (now : ℤ) (status : JobProcessingStatus) (u : StatusIndexUpdate)
    (index : Option StatusIndexRow) : Except JobWorkerError Unit × Option StatusIndexRow :=
  let markDeleted : Option StatusIndexRow :=
    (updateIndex index (·.deletedAt.isNone) fun r =>
      { r with status := status, deletedAt := some now, version := r.version + 1,
               updatedAt := now }).2
  match status, index with
  | .pending, none => (.ok (), some (newIndexRow now .pending u none (some now) none))
  | .pending, some r =>
    if r.deletedAt.isSome ∨ r.status.toI32 ≥ 2 then (.ok (), some r)
    else (.error .storageError, some r)
  | .running, none =>
    (.ok (), some (newIndexRow now .running u (some now) none u.workerInstanceId))
  | .running, some r =>
    (.ok (), (updateIndex (some r) (fun r => r.status.toI32 < 2 ∧ r.deletedAt.isNone) fun r =>
      { r with status := .running, startTime := r.startTime <|> some now,
               workerInstanceId := u.workerInstanceId, version := r.version + 1,
               updatedAt := now }).2)
  | .waitResult, _ => (.ok (), markDeleted)
  | .cancelling, _ => (.ok (), markDeleted)
  | .unknown, index => (.ok (), index)

/-- The condition that identifies a recovery claim's row. -/
def RecoveryClaim.owns (claim : RecoveryClaim) (r : StatusIndexRow) : Bool :=
  r.workerInstanceId = some claim.candidate.workerInstanceId ∧
    r.version = claim.claimedVersion ∧ r.deletedAt = some claim.deletedAt

theorem owns_iff {claim : RecoveryClaim} : claim.owns r = true ↔
    r.workerInstanceId = some claim.candidate.workerInstanceId ∧
      r.version = claim.claimedVersion ∧ r.deletedAt = some claim.deletedAt := by
  unfold RecoveryClaim.owns
  simp only [decide_eq_true_eq]

def ClaimOutcome.ofAffected (affected : Bool) : ClaimOutcome :=
  if affected then .claimed else .conflict

/-- `reset_claim_to_pending`. -/
def resetClaim (now : ℤ) (claim : RecoveryClaim) (index : Option StatusIndexRow) :
    Bool × Option StatusIndexRow :=
  updateIndex index claim.owns (·.toPending now)

/-- `find_running_by_instance`: the RUNNING row of an instance as a recovery
candidate. -/
def runningCandidate (jobId : JobId) (instanceId : ℤ) (index : Option StatusIndexRow) :
    Option RunningStatusCandidate :=
  match index with
  | some r =>
    if r.status = .running ∧ r.deletedAt.isNone ∧ r.workerInstanceId = some instanceId then
      some ⟨jobId.value, r.workerId.value, instanceId, r.version, r.startTime, r.updatedAt⟩
    else none
  | none => none

def claimRunning (now : ℤ) (candidate : RunningStatusCandidate)
    (index : Option StatusIndexRow) : Bool × Option StatusIndexRow :=
  updateIndex index
    (fun r => r.workerInstanceId = some candidate.workerInstanceId ∧
      r.version = candidate.version ∧ r.status = .running ∧ r.deletedAt.isNone)
    (fun r => { r with deletedAt := some now, updatedAt := now, version := r.version + 1 })

/-- `restore_pending_claim_to_running`. -/
def restorePendingClaim (now : ℤ) (claim : RecoveryClaim) (index : Option StatusIndexRow) :
    Bool × Option StatusIndexRow :=
  updateIndex index
    (fun r => r.status = .pending ∧ r.workerInstanceId.isNone ∧
      r.version = claim.claimedVersion + 1 ∧ r.deletedAt.isNone)
    (fun r => { r with status := .running, startTime := claim.candidate.startTime,
                       workerInstanceId := some claim.candidate.workerInstanceId,
                       updatedAt := now, version := r.version + 1 })

/-- An active RUNNING index row. -/
def StatusIndexRow.isActive (r : StatusIndexRow) : Bool :=
  r.status = .running ∧ r.deletedAt.isNone

/-- `reset_running_to_pending_by_owner`. -/
def resetRunningByOwner (now owner : ℤ) (index : Option StatusIndexRow) :
    ResetRunningOutcome × Option StatusIndexRow :=
  match updateIndex index (fun r => r.workerInstanceId = some owner ∧ r.isActive)
      (·.toPending now) with
  | (true, index') => (.reset, index')
  | (false, _) =>
    match (index.filter (·.isActive)).bind (·.workerInstanceId) with
    | some o => (if o = owner then .missing else .ownedByOther, index)
    | none => (.missing, index)

/-- The index row `grab_and_mark_running` leaves: a new one, or the old one
with its pending time kept and its version counted on. -/
def dispatchedIndexRow (now : ℤ) (start : RdbDispatchStart) (index : Option StatusIndexRow) :
    StatusIndexRow :=
  { newIndexRow now .running
      ⟨start.workerId, start.channel, start.priority, start.enqueueTime,
        start.isStreamable, start.broadcastResults, some start.workerInstanceId⟩
      (some now) (index.bind (·.pendingTime)) (some start.workerInstanceId) with
    version := match index with
      | some r => r.version + 1
      | none => 1 }

/-- The condition that identifies a durable dispatch's index row. -/
def RdbDispatchExecution.owns (e : RdbDispatchExecution) (r : StatusIndexRow) : Bool :=
  r.workerInstanceId = some e.workerInstanceId ∧ r.version = e.statusVersion ∧ r.isActive

/-! ### The effect of a call -/

/-- The register operation behind `compare_and_set_status`: replace the record
if it is the expected one. -/
def compareAndSet (live expected next : Option JobProcessingStatusRecord) :
    Option JobProcessingStatusRecord :=
  if live = expected then next else live

/-- What a call that goes through answers and does; `none` when it blocks. -/
def effect (ch : Choice) : (op : Op) → Store → Option (Except JobWorkerError (Resp op) × Store)
  | .now, s => some (.ok s.clock, s)
  | .generateId, s => some (.ok ch.number, s)
  | .ask, s => some (.ok ch.flag, s)
  | .getStatus, s => some (.ok s.live, s)
  | .putStatus record, s => some (.ok s.live.isSome, { s with live := some record })
  | .deleteStatus, s => some (.ok s.live.isSome, { s with live := none })
  | .compareAndSetEntry expected next, s =>
    some (.ok (if s.live = expected then .applied else .conflict s.live),
      { s with live := compareAndSet s.live expected next })
  | .compareAndSetScript expected next, s =>
    some (.ok (decide (s.live = expected)),
      { s with live := compareAndSet s.live expected next })
  | .findRow, s => some (.ok s.row, s)
  | .fetchRow merginMsec, s =>
    -- the LIMIT of the query may leave a due row out
    some (.ok (if ch.flag then s.row.filter (isFetchable s.clock merginMsec) else none), s)
  | .createRow data, s =>
    if s.row.isSome then some (.error .storageError, s)
    else some (.ok true, { s with row := some (createdRowOf data) })
  | .upsertRow data resetIndex, s =>
    some (.ok true,
      { s with
        row := some (rowOf data)
        index := if resetIndex then undeleteIndex s.clock s.index else s.index })
  | .upsertRowWithClaim claim data, s =>
    -- one transaction: without the claim the row is not written either
    if (resetClaim s.clock claim s.index).1 then
      some (.ok true,
        { s with row := some (rowOf data), index := (resetClaim s.clock claim s.index).2 })
    else some (.error (.runtimeError "recovery claim no longer owns the job status row"), s)
  | .deleteRow, s => some (.ok s.row.isSome, { s with row := none })
  | .grabRow timeout original, s =>
    if leasedUntil s.row original then
      some (.ok (some (grabbedUntilTime timeout s.clock)),
        { s with row := setLease s.row (grabbedUntilTime timeout s.clock) })
    else some (.ok none, s)
  | .resetGrabbedUntilTime old, s =>
    if leasedUntil s.row old then some (.ok true, { s with row := setLease s.row 0 })
    else some (.ok false, s)
  | .grabAndMarkRunning start, s =>
    if start.timeout.toNat ≥ 2 ^ 63 then
      some (.error (.runtimeError "out of range integral type conversion attempted"), s)
    else if leasedUntil s.row start.originalGrabbedUntilTime then
      some
        (.ok (some
          { workerInstanceId := start.workerInstanceId
            statusVersion := (dispatchedIndexRow s.clock start s.index).version
            grabbedUntilTime := grabbedUntilTime start.timeout s.clock }),
        { s with
          row := setLease s.row (grabbedUntilTime start.timeout s.clock)
          index := some (dispatchedIndexRow s.clock start s.index) })
    else some (.ok none, s)
  | .releaseUnstartedDispatch execution, s =>
    -- one transaction: both updates, or neither
    if (updateIndex s.index execution.owns (·.toPending s.clock)).1 ∧
        leasedUntil s.row execution.grabbedUntilTime then
      some (.ok .claimed,
        { s with
          row := setLease s.row 0
          index := (updateIndex s.index execution.owns (·.toPending s.clock)).2 })
    else some (.ok .conflict, s)
  | .indexStatus status update, s =>
    some ((writeIndexStatus s.clock status update s.index).1,
      { s with index := (writeIndexStatus s.clock status update s.index).2 })
  | .updateIndexStatus status, s =>
    some (.ok (), { s with index := (updateIndex s.index (·.deletedAt.isNone) fun r =>
      { r with
        status := status
        startTime := if status = .running then r.startTime <|> some s.clock else r.startTime
        version := r.version + 1
        updatedAt := s.clock }).2 })
  | .resetIndexToPending, s => some (.ok (), { s with index := undeleteIndex s.clock s.index })
  | .resetRunningIndexByOwner owner, s =>
    some (.ok (resetRunningByOwner s.clock owner s.index).1,
      { s with index := (resetRunningByOwner s.clock owner s.index).2 })
  | .markIndexDeleted, s =>
    some (.ok (), { s with index := (updateIndex s.index (·.deletedAt.isNone) fun r =>
      { r with deletedAt := some s.clock, updatedAt := s.clock }).2 })
  | .findRunning instanceId afterJobId, s =>
    some (.ok ((runningCandidate s.jobId instanceId s.index).filter
      (·.jobId > afterJobId)).toList, s)
  | .claimRunning candidate, s =>
    some
      (.ok (if (claimRunning s.clock candidate s.index).1 then
        some ⟨candidate, candidate.version + 1, s.clock⟩ else none),
      { s with index := (claimRunning s.clock candidate s.index).2 })
  | .restoreRunning claim, s =>
    let updated := updateIndex s.index claim.owns fun r =>
      { r with deletedAt := none, updatedAt := s.clock, version := r.version + 1 }
    some (.ok (.ofAffected updated.1), { s with index := updated.2 })
  | .resetClaimToPending claim, s =>
    some (.ok (.ofAffected (resetClaim s.clock claim s.index).1),
      { s with index := (resetClaim s.clock claim s.index).2 })
  | .restorePendingClaimToRunning claim, s =>
    some (.ok (.ofAffected (restorePendingClaim s.clock claim s.index).1),
      { s with index := (restorePendingClaim s.clock claim s.index).2 })
  | .findWorker, s => some (.ok s.worker, s)
  | .findRunner, s => some (.ok s.runner, s)
  | .deleteTempWorker, s =>
    some (.ok s.tempWorker, { s with worker := if s.tempWorker then none else s.worker })
  | .pushJob payload, s => some (.ok (), { s with queue := s.queue ++ [payload] })
  | .pushJobFront payload, s => some (.ok (), { s with queue := payload :: s.queue })
  | .popJob, s =>
    match s.queue with
    | payload :: rest => some (.ok payload, { s with queue := rest })
    | [] => none
  | .findMultiFromQueue, s => some (.ok s.queue, s)
  | .addRunAfterJob job, s => some (.ok (), { s with runAfter := s.runAfter ++ [job] })
  | .createKey data, s => some (.ok (), { s with key := some data })
  | .findKey, s => some (.ok s.key, s)
  | .deleteKey, s => some (.ok (), { s with key := none })
  | .pushResult result, s => some (.ok true, { s with results := s.results ++ [result] })
  | .waitResult, s =>
    match s.results with
    | result :: rest => some (.ok result, { s with results := rest })
    | [] => none
  | .publishResult id data toListen, s =>
    some (.ok ch.flag,
      { s with published :=
          if toListen then s.published ++ [⟨some id, some data, []⟩] else s.published })
  | .awaitPublished, s =>
    match s.published.getLast? with
    | some result => some (.ok result, s)
    | none => none
  | .subscribeStream, s => some (.ok (), s)
  | .publishStream, s => some (.ok (), s)
  | .broadcastCancellation, s => some (.ok (), s)
  | .createJobResult _ _ _, s => some (.ok (), s)
  | .findRecoveryResult _, s => some (.ok ch.flag, s)
  | .refreshRecoveryLock, s => some (.ok ch.flag, s)
  | .spawn task, s => some (.ok (), { s with tasks := s.tasks ++ [task] })
  | .takeTask, s =>
    -- background tasks start in any order
    match s.tasks[ch.number.toNat]? with
    | some task => some (.ok task, { s with tasks := s.tasks.eraseIdx ch.number.toNat })
    | none => none
  | .runJob _, s => some (.ok ch.outcome, s)
  | .loadRunner _, s => some (.ok ch.outcome, s)

/-- Calls that cannot fail: they do not leave the process. -/
def Op.infallible : Op → Bool
  | .now | .ask | .spawn _ | .takeTask | .runJob _ | .loadRunner _ => true
  | _ => false

def Store.tick (s : Store) (n : ℕ) : Store := { s with clock := s.clock + n }

/-- The semantics of the calls: time passes, then the call goes through, is
refused, or goes unanswered. -/
def sem : Sem Op Resp JobWorkerError Store Choice := fun ch op s₀ =>
  let s := s₀.tick ch.tick
  if op.infallible then effect ch op s
  else
    match ch.fault with
    | .none => effect ch op s
    | .refused => some (.error .storageError, s)
    | .unanswered carriedOut =>
      match effect ch op s with
      | some (_, s') => some (.error .outcomeUnknown, if carriedOut then s' else s)
      | none => some (.error .outcomeUnknown, s)

/-- The semantics when the failures of the calls are given. -/
def faulty (f : Op → Fault) : Sem Op Resp JobWorkerError Store Choice := fun ch op s =>
  sem { ch with fault := f op } op s

/-- The semantics when no call fails. -/
def reliable : Sem Op Resp JobWorkerError Store Choice := faulty fun _ => .none

/-- Programs over the calls. -/
abbrev M := Prog Op Resp JobWorkerError

/-- What a call is answered with. -/
abbrev Answer (op : Op) := Except JobWorkerError (Resp op)

/-- Make one call, with the error propagated to the caller. -/
abbrev invoke (op : Op) : M (Resp op) := Prog.perform op

/-- Threads over the storage of one job. -/
abbrev System (ι α : Type) := Config ι Op Resp JobWorkerError α Store

/-- One call of one of the threads. -/
abbrev Moment (ι α : Type) := Event ι Op Resp JobWorkerError α Store

/-! ### What a call can write -/

/-- The part of the store a call can write. -/
inductive Table
  | outside | live | job | index | worker | queue | result | task
  deriving DecidableEq, Repr

def Op.table : Op → Table
  | .putStatus _ | .deleteStatus | .compareAndSetEntry _ _ | .compareAndSetScript _ _ => .live
  | .createRow _ | .upsertRow _ _ | .upsertRowWithClaim _ _ | .deleteRow | .grabRow _ _
  | .resetGrabbedUntilTime _ | .grabAndMarkRunning _ | .releaseUnstartedDispatch _ => .job
  | .indexStatus _ _ | .updateIndexStatus _ | .resetIndexToPending
  | .resetRunningIndexByOwner _ | .markIndexDeleted | .claimRunning _ | .restoreRunning _
  | .resetClaimToPending _ | .restorePendingClaimToRunning _ => .index
  | .deleteTempWorker => .worker
  | .pushJob _ | .pushJobFront _ | .popJob | .addRunAfterJob _ | .createKey _ | .deleteKey =>
    .queue
  | .pushResult _ | .waitResult | .publishResult _ _ _ => .result
  | .spawn _ | .takeTask => .task
  | _ => .outside

/-- The stores that differ from `s` in one part only. -/
def Table.Frame (s s' : Store) : Table → Prop
  | .outside => s' = s
  | .live => ∃ l, s' = { s with live := l }
  | .job => ∃ r i, s' = { s with row := r, index := i }
  | .index => ∃ i, s' = { s with index := i }
  | .worker => ∃ w, s' = { s with worker := w }
  | .queue => ∃ q r k, s' = { s with queue := q, runAfter := r, key := k }
  | .result => ∃ r p, s' = { s with results := r, published := p }
  | .task => ∃ t, s' = { s with tasks := t }

theorem Table.frame_refl (s : Store) (t : Table) : t.Frame s s := by
  cases t with
  | outside => rfl
  | live => exact ⟨_, rfl⟩
  | job => exact ⟨_, _, rfl⟩
  | index | worker => exact ⟨_, rfl⟩
  | queue => exact ⟨_, _, _, rfl⟩
  | result => exact ⟨_, _, rfl⟩
  | task => exact ⟨_, rfl⟩

/-- The fields outside the part are left alone. -/
theorem Table.Frame.fields {s s' : Store} {t : Table} (h : t.Frame s s') :
    s'.clock = s.clock ∧ s'.jobId = s.jobId ∧ (t ≠ .live → s'.live = s.live) ∧
      (t ≠ .worker → s'.worker = s.worker) ∧ (t ≠ .job → s'.row = s.row) ∧
      (t ≠ .task → s'.tasks = s.tasks) := by
  cases t with
  | outside => obtain rfl := h; simp
  | live => obtain ⟨l, rfl⟩ := h; simp
  | job => obtain ⟨r, i, rfl⟩ := h; simp
  | index => obtain ⟨i, rfl⟩ := h; simp
  | worker => obtain ⟨w, rfl⟩ := h; simp
  | queue => obtain ⟨q, r, k, rfl⟩ := h; simp
  | result => obtain ⟨r, p, rfl⟩ := h; simp
  | task => obtain ⟨t, rfl⟩ := h; simp

section Frame

variable {s s' : Store} {t : Table} (h : t.Frame s s')

include h

theorem Table.Frame.clock : s'.clock = s.clock := h.fields.1

theorem Table.Frame.jobId : s'.jobId = s.jobId := h.fields.2.1

theorem Table.Frame.live : t ≠ .live → s'.live = s.live := h.fields.2.2.1

theorem Table.Frame.worker : t ≠ .worker → s'.worker = s.worker := h.fields.2.2.2.1

theorem Table.Frame.row : t ≠ .job → s'.row = s.row := h.fields.2.2.2.2.1

theorem Table.Frame.tasks : t ≠ .task → s'.tasks = s.tasks := h.fields.2.2.2.2.2

end Frame

/-- **A call writes its own part of the store and nothing else.** -/
theorem effect_frame (h : effect ch op s = some (a, s')) : op.table.Frame s s' := by
  cases op
  case createRow | upsertRowWithClaim | grabRow | resetGrabbedUntilTime
      | releaseUnstartedDispatch =>
    -- conditional writes: the other branch leaves the store alone
    simp only [effect] at h
    split at h <;> cases h <;> exact ⟨_, _, rfl⟩
  case grabAndMarkRunning =>
    simp only [effect] at h
    split at h
    · cases h
      exact Table.frame_refl _ _
    · split at h <;> cases h <;> exact ⟨_, _, rfl⟩
  case popJob =>
    simp only [effect] at h
    split at h <;> cases h
    exact ⟨_, _, _, rfl⟩
  case waitResult =>
    simp only [effect] at h
    split at h <;> cases h
    exact ⟨_, _, rfl⟩
  case awaitPublished =>
    simp only [effect] at h
    split at h <;> cases h
    rfl
  case takeTask =>
    simp only [effect] at h
    split at h <;> cases h
    exact ⟨_, rfl⟩
  all_goals
    cases h
    first
      | rfl
      | exact ⟨_, rfl⟩
      | exact ⟨_, _, rfl⟩
      | exact ⟨_, _, _, rfl⟩


/-- The calls that create a row of the job table. -/
def Op.createsRow : Op → Bool
  | .createRow _ | .upsertRow _ _ | .upsertRowWithClaim _ _ => true
  | _ => false

/-- A missing row stays missing unless it is created. -/
theorem row_none_of_effect (hop : op.createsRow = false) (hs : s.row = none)
    (h : effect ch op s = some (a, s')) : s'.row = none := by
  by_cases ht : op.table = .job
  · cases op <;> simp only [Op.table, reduceCtorEq] at ht
    case createRow | upsertRow | upsertRowWithClaim => cases hop
    case deleteRow => cases h; rfl
    case grabAndMarkRunning =>
      simp only [effect, hs, leasedUntil, Option.any_none, Bool.false_eq_true, if_false] at h
      split at h <;> cases h <;> exact hs
    all_goals
      simp only [effect, hs, leasedUntil, Option.any_none, Bool.false_eq_true, and_false,
        if_false] at h
      cases h
      exact hs
  · exact ((effect_frame h).row ht).trans hs

section Sem

variable {ch : Choice} {op : Op} {s s' : Store} {a : Answer op}

/-- A call goes through, or it fails and has either been carried out or not. -/
theorem sem_cases (h : sem ch op s = some (a, s')) : effect ch op (s.tick ch.tick) = some (a, s') ∨
      (∃ e, a = .error e) ∧
        (s' = s.tick ch.tick ∨ ∃ a', effect ch op (s.tick ch.tick) = some (a', s')) := by
  simp only [sem] at h
  split at h
  · exact .inl h
  · cases hfault : ch.fault with
    | none =>
      rw [hfault] at h
      exact .inl h
    | refused =>
      rw [hfault] at h
      cases h
      exact .inr ⟨⟨_, rfl⟩, .inl rfl⟩
    | unanswered carriedOut =>
      rw [hfault] at h
      rcases heff : effect ch op (s.tick ch.tick) with - | ⟨a', s''⟩
      · rw [heff] at h
        cases h
        exact .inr ⟨⟨_, rfl⟩, .inl rfl⟩
      · rw [heff] at h
        cases h
        refine .inr ⟨⟨_, rfl⟩, ?_⟩
        cases carriedOut with
        | false => exact .inl rfl
        | true => exact .inr ⟨a', rfl⟩

theorem effect_of_sem_ok {r : Resp op} (h : sem ch op s = some (.ok r, s')) :
    effect ch op (s.tick ch.tick) = some (.ok r, s') := by
  obtain heff | ⟨⟨e, he⟩, -⟩ := sem_cases h
  · exact heff
  · cases he

theorem answer_eq
    (h : some ((.ok x : Except JobWorkerError α), s) = some (.ok y, s')) : x = y ∧ s = s' := by
  simpa using h

theorem reliable_eq_effect (ch : Choice) (op : Op) (s : Store) :
    reliable ch op s = effect { ch with fault := .none } op (s.tick ch.tick) := by
  simp only [reliable, faulty, sem]
  split <;> rfl

theorem reliable_default (op : Op) (s : Store) : reliable default op s = effect default op s := by
  have htick : s.tick 0 = s := by
    unfold Store.tick
    rw [Nat.cast_zero, add_zero]
  calc reliable default op s = effect default op (s.tick 0) := reliable_eq_effect default op s
    _ = effect default op s := by rw [htick]

theorem sem_frame (h : sem ch op s = some (a, s')) : op.table.Frame (s.tick ch.tick) s' := by
  obtain heff | ⟨-, rfl | ⟨a', heff⟩⟩ := sem_cases h
  · exact effect_frame heff
  · exact Table.frame_refl _ _
  · exact effect_frame heff

theorem row_none_of_sem (hop : op.createsRow = false) (hs : s.row = none)
    (h : sem ch op s = some (a, s')) : s'.row = none := by
  have htick : (s.tick ch.tick).row = none := hs
  rcases sem_cases h with heff | ⟨-, rfl | ⟨a', heff⟩⟩
  · exact row_none_of_effect hop htick heff
  · exact htick
  · exact row_none_of_effect hop htick heff

section

variable (h : sem ch op s = some (a, s'))

include h

theorem sem_clock : s'.clock = s.clock + ch.tick :=
  (sem_frame h).clock

theorem sem_jobId : s'.jobId = s.jobId :=
  (sem_frame h).jobId

theorem sem_outside (hop : op.table = .outside) : s' = s.tick ch.tick := by
  have hframe := sem_frame h
  rw [hop] at hframe
  exact hframe

theorem sem_worker (hop : op.table ≠ .worker) : s'.worker = s.worker :=
  (sem_frame h).worker hop

theorem sem_live (hop : op.table ≠ .live) : s'.live = s.live :=
  (sem_frame h).live hop

end

end Sem

end Jobworkerp
