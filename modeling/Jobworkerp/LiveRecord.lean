/-
Jobworkerp/LiveRecord.lean

What the application can do to a live status record.

Every function that changes the record reads it first and acts later, so the
only thing that can be said about a write is what its compare-and-set expects.
`Advance` lists the changes that are ever requested, and `LifecycleOp` says of
a call that it changes the record, if at all, by such a request, by publishing
PENDING for a new job, or by deleting the record.

* `live_of_sem`: what a lifecycle call does to the record.
* `calls_*`: every call of every modelled function is a lifecycle call; those
  of the claim, cancel, retry, restore and clean-up protocols never publish.
-/
import Jobworkerp.Dispatch

namespace Jobworkerp

open Interleaving Prog

theorem ownershipDecision_eq_none (h : retryAttemptOwnershipDecision current data = none) :
    current.retried = data.retried ∧ current.status ≠ .cancelling := by
  unfold retryAttemptOwnershipDecision retryAttemptIsCurrent at h
  split at h
  · cases h
  · rename_i hcurrent
    split at h
    · cases h
    · rename_i hstatus
      exact ⟨by simpa using hcurrent, hstatus⟩

/-! ### Changes of the record -/

/-- The changes a compare-and-set is ever used for. -/
inductive Advance : JobProcessingStatusRecord → JobProcessingStatusRecord → Prop
  | claim (r : UInt32) : Advance ⟨.pending, r⟩ ⟨.running, r⟩
  | waitResult (r : UInt32) : Advance ⟨.running, r⟩ ⟨.waitResult, r⟩
  | restore (r : UInt32) : Advance ⟨.running, r⟩ ⟨.pending, r⟩
  | cancel {st : JobProcessingStatus} (r : UInt32) (hst : st ≠ .cancelling) :
      Advance ⟨st, r⟩ ⟨.cancelling, r⟩
  | retry {st : JobProcessingStatus} {r r' : UInt32} (hst : st ≠ .cancelling)
      (hr : r'.toNat = r.toNat + 1) : Advance ⟨st, r⟩ ⟨.pending, r'⟩

/-- A cancelled attempt is never moved on. -/
theorem Advance.not_cancelling (h : Advance p q) : p.status ≠ .cancelling := by
  cases h with
  | claim | waitResult | restore => simp
  | cancel r hst => exact hst
  | retry hst hr => exact hst

/-- The attempt number never decreases. -/
theorem Advance.retried_le (h : Advance p q) : p.retried ≤ q.retried := by
  cases h with
  | claim | waitResult | restore | cancel => exact UInt32.le_refl _
  | retry hst hr =>
    rw [UInt32.le_iff_toNat_le, hr]
    exact Nat.le_succ _

/-! ### Lifecycle calls -/

/-- A compare-and-set that requests an `Advance`. -/
def AdvanceRequest (expected next : Option JobProcessingStatusRecord) : Prop :=
  ∃ p q, expected = some p ∧ next = some q ∧ Advance p q

theorem Advance.request (h : Advance p q) : AdvanceRequest (some p) (some q) := ⟨p, q, rfl, rfl, h⟩

/-- A call that changes the live record only in ways the application does. -/
def LifecycleOp : Op → Prop
  | .putStatus record => record.status = .pending
  | .compareAndSetEntry expected next => AdvanceRequest expected next
  | .compareAndSetScript expected next => AdvanceRequest expected next
  | _ => True

/-- A call that does not write the live record. -/
def Quiet : Op → Prop
  | .putStatus _ => False
  | .deleteStatus => False
  | .compareAndSetEntry _ _ => False
  | .compareAndSetScript _ _ => False
  | _ => True

/-- A call that neither writes the live record nor takes a lease. -/
def Inert : Op → Prop
  | .grabRow _ _ => False
  | .grabAndMarkRunning _ => False
  | op => Quiet op

/-- A lifecycle call that does not publish a new PENDING record. -/
def RegisterOp : Op → Prop
  | .putStatus _ => False
  | op => LifecycleOp op

variable {op : Op} {ch : Choice} {s s' : Store} {a : Answer op}

theorem RegisterOp.lifecycle (h : RegisterOp op) : LifecycleOp op := by
  cases op <;> first | exact h | exact h.elim

/-- A register call that claims no attempt and takes no lease. -/
def SettleOp : Op → Prop
  | .compareAndSetEntry expected next =>
    AdvanceRequest expected next ∧ ∀ r, next ≠ some ⟨.running, r⟩
  | .compareAndSetScript expected next =>
    AdvanceRequest expected next ∧ ∀ r, next ≠ some ⟨.running, r⟩
  | .grabRow _ _ => False
  | .grabAndMarkRunning _ => False
  | op => RegisterOp op

theorem SettleOp.register (h : SettleOp op) : RegisterOp op := by
  cases op <;> first | exact h | exact h.1 | exact h.elim

theorem Inert.quiet (h : Inert op) : Quiet op := by
  cases op <;> first | exact h | exact h.elim

/-- An inert call that stores no result. -/
def QueueOp : Op → Prop
  | .createJobResult _ _ _ => False
  | op => Inert op

theorem QueueOp.inert (h : QueueOp op) : Inert op := by
  cases op <;> first | exact h | exact h.elim

/-- A settling call that stores no result. -/
def EnqueueOp : Op → Prop
  | .createJobResult _ _ _ => False
  | op => SettleOp op

theorem EnqueueOp.settle (h : EnqueueOp op) : SettleOp op := by
  cases op <;> first | exact h | exact h.elim

theorem QueueOp.enqueue (h : QueueOp op) : EnqueueOp op := by
  cases op <;> first | exact h | exact h.elim

/-- The calls of a cancellation. -/
def CancelOp : Op → Prop
  | .compareAndSetEntry expected next => AdvanceRequest expected next
  | .compareAndSetScript expected next => AdvanceRequest expected next
  | .now | .findWorker | .findRow | .deleteRow | .getStatus | .deleteStatus => True
  | .updateIndexStatus _ | .markIndexDeleted | .broadcastCancellation => True
  | _ => False

/-- The calls that remove the row of a job. -/
def RemovalOp : Op → Prop
  | .now | .findWorker | .findRow | .deleteRow => True
  | _ => False

theorem RemovalOp.cancel (h : RemovalOp op) : CancelOp op := by
  cases op <;> first | exact h | exact h.elim

theorem CancelOp.register (h : CancelOp op) : RegisterOp op := by
  cases op <;> first | exact h | exact h.elim

/-- The calls of a clean-up. -/
def CleanupOp : Op → Prop
  | .markIndexDeleted | .deleteRow | .deleteKey | .deleteStatus => True
  | _ => False

/-- The calls of a completion. -/
def CompletionOp : Op → Prop
  | .publishResult _ _ _ | .pushResult _ | .spawn _ => True
  | op => CleanupOp op

/-- The calls of a background task. -/
def TaskOp : Op → Prop
  | .publishStream | .indexStatus _ _ => True
  | op => CleanupOp op

theorem CleanupOp.register (h : CleanupOp op) : RegisterOp op := by
  cases op <;> first | exact h | exact h.elim

theorem CleanupOp.completion (h : CleanupOp op) : CompletionOp op := by
  cases op <;> first | exact h | exact h.elim

theorem CleanupOp.task (h : CleanupOp op) : TaskOp op := by
  cases op <;> first | exact h | exact h.elim

theorem CompletionOp.enqueue (h : CompletionOp op) : EnqueueOp op := by
  cases op <;> first | exact h | exact h.elim

theorem CompletionOp.settle (h : CompletionOp op) : SettleOp op := h.enqueue.settle

theorem TaskOp.register (h : TaskOp op) : RegisterOp op := by
  cases op <;> first | exact h | exact h.elim

theorem Quiet.table_ne (h : Quiet op) : op.table ≠ .live := by
  cases op <;> first | exact h.elim | simp [Op.table]

/-- What a lifecycle call can leave of the record. -/
inductive LiveChange (op : Op) :
    Option JobProcessingStatusRecord → Option JobProcessingStatusRecord → Prop
  | same (l) : LiveChange op l l
  | deleted (l) : LiveChange op l none
  | advanced {p q} (h : Advance p q) : LiveChange op (some p) (some q)
  | published {l} {record} (hop : op = .putStatus record) (hst : record.status = .pending) :
      LiveChange op l (some record)

theorem liveChange_of_compareAndSet
    (h : AdvanceRequest e n) : LiveChange op l (compareAndSet l e n) := by
  obtain ⟨p, q, rfl, rfl, hpq⟩ := h
  unfold compareAndSet
  split
  · rename_i hl
    rw [hl]
    exact .advanced hpq
  · exact .same l

theorem liveChange_of_effect (hop : LifecycleOp op)
    (h : effect ch op s = some (a, s')) : LiveChange op s.live s'.live := by
  by_cases ht : op.table = .live
  · cases op <;> simp only [Op.table, reduceCtorEq] at ht
    case putStatus record =>
      cases h
      exact .published rfl hop
    case deleteStatus =>
      cases h
      exact .deleted _
    case compareAndSetEntry e n =>
      cases h
      exact liveChange_of_compareAndSet hop
    case compareAndSetScript e n =>
      cases h
      exact liveChange_of_compareAndSet hop
  · rw [(effect_frame h).live ht]
    exact .same _

/-- **What a lifecycle call does to the live record**, whether it is answered
or not. -/
theorem live_of_sem (hop : LifecycleOp op)
    (h : sem ch op s = some (a, s')) : LiveChange op s.live s'.live := by
  have hlive : (s.tick ch.tick).live = s.live := rfl
  rw [← hlive]
  obtain heff | ⟨-, rfl | ⟨a', heff⟩⟩ := sem_cases h
  · exact liveChange_of_effect hop heff
  · exact .same _
  · exact liveChange_of_effect hop heff

/-! ### The calls of the status repository -/

section Calls

variable {C : Op → Prop} {app : App}

theorem calls_findStatusRecord (h : C .getStatus) : findStatusRecord.Calls C :=
  .perform h

theorem calls_deleteStatus (h : C .deleteStatus) : deleteStatus.Calls C :=
  .perform h

theorem calls_bestEffortIndex (h : C op) : (bestEffortIndex app op).Calls C :=
  (Calls.perform h).ignore.when

theorem calls_compareAndSetStatus (hget : C .getStatus) (he : C (.compareAndSetEntry e n))
    (hs : C (.compareAndSetScript e n)) : (compareAndSetStatus app e n).Calls C := by
  unfold compareAndSetStatus
  split
  · exact .perform he
  · refine (Calls.perform hs).bind fun applied => ?_
    split
    · trivial
    · exact (calls_findStatusRecord hget).bind fun _ => trivial

end Calls

variable {app : App} {p q : JobProcessingStatusRecord}

/-- A compare-and-set for an `Advance` is a register call. -/
theorem calls_advance (h : Advance p q) :
    (compareAndSetStatus app (some p) (some q)).Calls RegisterOp :=
  calls_compareAndSetStatus trivial h.request h.request

/-- Unless it claims the attempt, it is a settling one. -/
theorem calls_settle (h : Advance p q) (hq : q.status ≠ .running) :
    (compareAndSetStatus app (some p) (some q)).Calls EnqueueOp := by
  have hnext : ∀ r, some q ≠ some ⟨.running, r⟩ := by
    rintro r ⟨⟩
    exact hq rfl
  exact calls_compareAndSetStatus trivial ⟨h.request, hnext⟩ ⟨h.request, hnext⟩

/-! ### The protocols around one attempt -/

section Protocols

variable (app : App)

theorem calls_isRunAfterJobData (data : JobData) : (isRunAfterJobData app data).Calls RemovalOp :=
  (Calls.perform trivial).bind fun _ => trivial

theorem calls_isRdbOnlyPendingJob (data : JobData) (isRunAfter : Bool) :
    (isRdbOnlyPendingJob data isRunAfter).Calls RemovalOp := by
  unfold isRdbOnlyPendingJob
  split
  · trivial
  · split
    · trivial
    · refine (Calls.perform trivial).bind fun worker => ?_
      split <;> trivial

theorem calls_isRdbOnlyRow (row : Option JobData) : (isRdbOnlyRow app row).Calls RemovalOp := by
  cases row with
  | none => trivial
  | some data =>
    exact (calls_isRunAfterJobData app data).bind fun _ => calls_isRdbOnlyPendingJob _ _

theorem calls_removePendingRdbJob : (removePendingRdbJob app).Calls RemovalOp := by
  refine (Calls.perform trivial).bind fun row => ?_
  refine (calls_isRdbOnlyRow app row).bind fun rdbOnly => ?_
  refine (Calls.perform trivial).attempt.bind fun deleted => ?_
  split
  · split <;> trivial
  · trivial

theorem calls_removeUnpublishedRdbOnlyJob : (removeUnpublishedRdbOnlyJob app).Calls RemovalOp := by
  refine (Calls.perform trivial).bind fun row => ?_
  refine (calls_isRdbOnlyRow app row).bind fun rdbOnly => ?_
  split
  · exact .perform trivial
  · trivial

theorem calls_afterCancelling (record : JobProcessingStatusRecord) :
    (afterCancelling app record).Calls CancelOp := by
  refine (calls_bestEffortIndex trivial).bind fun _ => ?_
  split
  · refine ((calls_removePendingRdbJob app).mono fun _ => RemovalOp.cancel).bind fun _ => ?_
    exact ((calls_bestEffortIndex trivial).bind fun _ =>
      (calls_deleteStatus trivial).discard).when
  · exact .perform trivial

theorem calls_cancelAttempts (n : ℕ) (record : JobProcessingStatusRecord) :
    (cancelAttempts app n record).Calls CancelOp := by
  induction n generalizing record with
  | zero =>
    refine (calls_findStatusRecord trivial).bind fun current => ?_
    split <;> trivial
  | succ n ih =>
    unfold cancelAttempts
    split
    · trivial
    · split
      · trivial
      · rename_i hcancelling
        have hrequest := (Advance.cancel record.retried hcancelling).request
        refine (calls_compareAndSetStatus trivial hrequest hrequest).bind fun result => ?_
        split
        · exact (calls_afterCancelling app record).bind fun _ => trivial
        · exact ih _
        · trivial

theorem calls_cancelJobLifecycle : (cancelJobLifecycle app).Calls CancelOp := by
  refine (calls_findStatusRecord trivial).bind fun record => ?_
  split
  · exact (calls_removeUnpublishedRdbOnlyJob app).mono fun _ => RemovalOp.cancel
  · split
    · trivial
    · exact calls_cancelAttempts app _ _

variable {app} (d : Delivery)

/-- The calls of a check: it reads, and it claims attempt `r`. -/
def ClaimOp (r : UInt32) : Op → Prop
  | .compareAndSetEntry e n => e = some ⟨.pending, r⟩ ∧ n = some ⟨.running, r⟩
  | .compareAndSetScript e n => e = some ⟨.pending, r⟩ ∧ n = some ⟨.running, r⟩
  | op => op.table = .outside

theorem ClaimOp.register (h : ClaimOp r op) : RegisterOp op := by
  cases op
  case compareAndSetEntry | compareAndSetScript =>
    obtain ⟨rfl, rfl⟩ := h
    exact (Advance.claim r).request
  case putStatus => exact absurd h (by simp [ClaimOp, Op.table])
  all_goals trivial

theorem calls_cancelledDispatchEligibility (r : UInt32) :
    (cancelledDispatchEligibility d).Calls (ClaimOp r) :=
  Calls.bind (.perform (by rfl)) fun _ => Calls.bind (.perform (by rfl)) fun _ =>
    Calls.bind (.perform (by rfl)) fun _ => by trivial

theorem calls_claimAttempt : (claimAttempt app d).Calls (ClaimOp d.data.retried) := by
  refine Calls.bind (calls_compareAndSetStatus rfl ⟨rfl, rfl⟩ ⟨rfl, rfl⟩) fun result => ?_
  split
  · trivial
  · unfold claimConflict
    split
    · split
      · exact calls_cancelledDispatchEligibility d _
      · trivial
    · trivial

theorem calls_check (executeWhenStatusMissing : Bool) :
    (checkCancellationStatusWithMissingStatus app d executeWhenStatusMissing).Calls
      (ClaimOp d.data.retried) := by
  refine Calls.bind (calls_findStatusRecord (by rfl)) fun record => ?_
  split
  · split <;> trivial
  · split
    · split
      · exact calls_claimAttempt d
      · exact calls_cancelledDispatchEligibility d _
      all_goals trivial
    · trivial

theorem calls_checkCancellationStatus (executeWhenStatusMissing : Bool) :
    (checkCancellationStatusWithMissingStatus app d executeWhenStatusMissing).Calls
      RegisterOp :=
  (calls_check d executeWhenStatusMissing).mono fun _ => ClaimOp.register

theorem calls_restorePendingAttemptForRequeue :
    (restorePendingAttemptForRequeue app d).Calls RegisterOp := by
  refine (calls_advance (.restore _)).bind fun result => ?_
  split
  · trivial
  · split
    · refine (calls_checkCancellationStatus d false).bind fun eligibility => ?_
      split <;> trivial
    · trivial

theorem calls_restorePendingAfterUnstartedRdbDispatch (retried : UInt32) :
    (restorePendingAfterUnstartedRdbDispatch app retried).Calls RegisterOp := by
  refine (calls_advance (.restore _)).bind fun result => ?_
  split
  · trivial
  · split <;> trivial

theorem calls_markWaitResult (responseType : ℤ) (retried : UInt32) :
    (markWaitResult app responseType retried).Calls RegisterOp := by
  exact (calls_advance (.waitResult _)).discard.when

end Protocols

/-! ### Completion and re-enqueueing -/

section JobApp

variable (app : App)

theorem Hybrid.calls_cleanupJob : (Hybrid.cleanupJob app).Calls CleanupOp :=
  (calls_bestEffortIndex trivial).bind fun _ => (Calls.perform trivial).ignore.bind fun _ =>
    (Calls.perform trivial).ignore.bind fun _ => (calls_deleteStatus trivial).discard

theorem RdbChan.calls_cleanupJob : (RdbChan.cleanupJob app).Calls CleanupOp :=
  (calls_bestEffortIndex trivial).bind fun _ => (Calls.perform trivial).ignore.bind fun _ =>
    (calls_deleteStatus trivial).discard

theorem calls_cleanupJob : (cleanupJob app).Calls CleanupOp := by
  unfold cleanupJob
  split
  · exact Hybrid.calls_cleanupJob app
  · exact RdbChan.calls_cleanupJob app

theorem calls_runTask (task : Task) : (runTask app task).Calls TaskOp := by
  cases task with
  | publishStreamThenCleanup =>
    exact (Calls.perform trivial).ignore.bind fun _ =>
      ((calls_cleanupJob app).mono fun _ => CleanupOp.task).ignore
  | publishEndMarker | indexStatus => exact (Calls.perform trivial).ignore

theorem calls_taskRunner (htake : C .takeTask) (hC : ∀ op, TaskOp op → C op) :
    (taskRunner app).Calls C :=
  (Calls.perform htake).bind fun task => (calls_runTask app task).mono hC

/-- The calls that look things up. -/
def Op.asks : Op → Bool
  | .now | .generateId | .findWorker | .findRunner => true
  | _ => false

/-- The calls of the queue half of `update_job`. -/
def Op.queues : Op → Bool
  | .now | .subscribeStream | .pushJob _ | .addRunAfterJob _ | .createKey _ | .waitResult => true
  | _ => false

/-- The calls that publish the PENDING record of a new job. -/
def Op.records : Op → Bool
  | .getStatus | .deleteStatus | .spawn _ => true
  | .putStatus record => record.status = .pending
  | _ => false

/-- Calls that leave the row of a released execution alone: only a deleted row
is reset. -/
def Op.keepsRelease : Op → Bool
  | .now | .findWorker | .subscribeStream | .pushJob _ | .addRunAfterJob _ | .createKey _ => true
  | .waitResult | .upsertRow _ _ | .resetIndexToPending => true
  | _ => false

theorem queueOp_of_queues (h : op.queues) : QueueOp op := by
  cases op <;> trivial

theorem Op.queues.keepsRelease (h : op.queues) : op.keepsRelease := by
  cases op <;> first | rfl | cases h

theorem queueOp_of_keepsRelease (h : op.keepsRelease) : QueueOp op := by
  cases op <;> trivial

theorem calls_checkWorkerDataStreaming (requestStreaming : Bool) :
    (checkWorkerDataStreaming requestStreaming).Calls (·.asks) := by
  refine (Calls.perform (by rfl)).bind fun runner => ?_
  split
  · trivial
  · split
    · split <;> trivial
    · split <;> trivial
    · trivial
    · trivial

theorem calls_checkWorkerStreaming (requestStreaming : Bool) :
    (checkWorkerStreaming requestStreaming).Calls (·.asks) := by
  refine (Calls.perform (by rfl)).bind fun worker => ?_
  split
  · trivial
  · exact calls_checkWorkerDataStreaming requestStreaming

theorem calls_prepareJob (wid : WorkerId) (w : WorkerData) (req : EnqueueRequest) :
    (prepareJob app wid w req).Calls (·.asks) := by
  refine (Calls.perform (by rfl)).bind fun now => ?_
  split
  · trivial
  · refine (Calls.perform (by rfl)).bind fun generated => ?_
    split
    · exact (Calls.perform (by rfl)).bind fun _ => by trivial
    · trivial

theorem calls_isPeriodicOrRunAfter (w : WorkerData) (data : JobData) :
    (isPeriodicOrRunAfter app w data).Calls (·.asks) := by
  unfold isPeriodicOrRunAfter
  split
  · trivial
  · exact (Calls.perform (by rfl)).bind fun _ => by trivial

variable {C : Op → Prop}

theorem calls_findDataByOpt (hfind : C .findWorker) (workerId : Option WorkerId) :
    (findDataByOpt workerId).Calls C := by
  unfold findDataByOpt
  split
  · exact .perform hfind
  · trivial

theorem calls_isRunAfterJob (hnow : C .now) (job : Job) : (isRunAfterJob app job).Calls C := by
  unfold isRunAfterJob
  split
  · exact (Calls.perform hnow).bind fun _ => by trivial
  · trivial

/-- Upserting the record, without the answer nobody looks at. -/
theorem upsertStatus_discard (status : JobProcessingStatus) :
    (upsertStatus app status).discard = findStatusRecord >>= fun record =>
      (invoke (.putStatus ⟨status, (record.map (·.retried)).getD 0⟩)).discard := by
  unfold upsertStatus Prog.discard
  rw [bind_assoc']
  congr 1
  funext record
  rw [bind_assoc']
  congr 1
  funext existed
  cases app.storage <;> rfl

theorem calls_upsertStatus (hget : C .getStatus)
    (hput : ∀ r, C (.putStatus ⟨status, r⟩)) : (upsertStatus app status).Calls C := by
  refine (calls_findStatusRecord hget).bind fun record => ?_
  refine (Calls.perform (hput _)).bind fun existed => ?_
  split <;> trivial

theorem calls_indexJobStatusAsync (hspawn : ∀ task, C (.spawn task)) (wid : WorkerId)
    (w : WorkerData) (data : JobData) (isStreamable : Bool) :
    (indexJobStatusAsync app wid w data isStreamable).Calls C :=
  (Calls.perform (hspawn _)).when

theorem calls_waitIfDirect (hsubscribe : C .subscribeStream) (hwait : C .waitResult)
    (responseType : ℤ) (streamingType : StreamingType) (subscribed : Bool) :
    (waitIfDirect responseType streamingType subscribed).Calls C := by
  unfold waitIfDirect
  split
  · refine Calls.bind ?_ fun _ => trivial
    exact (Calls.perform hsubscribe).ignore.when.bind fun _ => .perform hwait
  · trivial

theorem calls_afterRedisPush (hkey : ∀ data, C (.createKey data)) (job : Job) (worker : WorkerData)
    (streamingType : StreamingType) (publication : PendingStatusPublication)
    (hspawn : publication.createsStatus → ∀ task, C (.spawn task)) :
    (afterRedisPush app job worker streamingType publication).Calls C := by
  unfold afterRedisPush
  split
  · trivial
  · refine Calls.bind (.when_of fun h => ?_) fun _ => (Calls.perform (hkey _)).ignore.when
    split
    · exact calls_indexJobStatusAsync app (hspawn h) _ _ _ _
    · trivial

section Queues

variable (hC : ∀ op, op.queues → C op) (job : Job) (loadOnly : Bool)
  (publication : PendingStatusPublication)
  (hput : publication.createsStatus → ∀ op, op.records → C op)
include hC hput

/-- The enqueue to Redis publishes a PENDING record for a new job only. -/
theorem calls_enqueueJobToRedis (worker : WorkerData) (streamingType : StreamingType) :
    (enqueueJobToRedisWithWaitIfNeeded app job worker streamingType loadOnly
      publication).Calls C := by
  refine (calls_isRunAfterJob app (hC _ rfl) job).bind fun isRunAfter => ?_
  refine (Calls.perform (hC _ rfl)).when.bind fun _ => ?_
  have hput' (h : (!loadOnly && publication.createsStatus) = true) :=
    hput (Bool.and_eq_true_iff.mp h).2
  refine Calls.bind (.when_of fun h => (calls_upsertStatus app (hput' h _ rfl)
    fun _ => hput' h _ rfl).discard) fun _ => ?_
  refine Calls.bind (Calls.attempt ?_) fun pushed => ?_
  · refine (calls_isRunAfterJob app (hC _ rfl) job).bind fun _ => ?_
    split
    · refine (Calls.perform (hC _ rfl)).attempt.bind fun added => ?_
      split <;> trivial
    · exact .perform (hC _ rfl)
  split
  · refine Calls.bind ?_ fun _ => trivial
    unfold settleFailedRedisEnqueue
    split
    · trivial
    · exact Calls.bind (.when_of fun h => (calls_deleteStatus (hput' h _ rfl)).ignore)
        fun _ => by trivial
  · exact (calls_afterRedisPush app (fun _ => hC _ rfl) job worker streamingType publication
      fun h _ => hput h _ rfl).when.bind fun _ => calls_waitIfDirect (hC _ rfl) (hC _ rfl) _ _ _

theorem calls_enqueueJobSyncEnqueueOnly :
    (enqueueJobSyncEnqueueOnly app job loadOnly publication).Calls C := by
  refine (calls_isRunAfterJob app (hC _ rfl) job).bind fun isRunAfter => ?_
  split
  · trivial
  · have hput' (h : (!loadOnly && publication.createsStatus) = true) :=
      hput (Bool.and_eq_true_iff.mp h).2
    refine Calls.bind (.when_of fun h => (calls_upsertStatus app (hput' h _ rfl)
      fun _ => hput' h _ rfl).discard) fun _ => ?_
    refine (Calls.perform (hC _ rfl)).attempt.bind fun pushed => ?_
    split
    · trivial
    · exact Calls.bind (.when_of fun h => (calls_deleteStatus (hput' h _ rfl)).ignore)
        fun _ => by trivial

end Queues

variable {app} {job : Job}

theorem queues_enqueueToRedis :
    (enqueueJobToRedisWithWaitIfNeeded app job w streamingType false .retry).Calls (·.queues) :=
  calls_enqueueJobToRedis app (fun _ h => h) job false _ (fun h => absurd h (by decide)) w _

theorem queues_enqueueToChannel :
    (enqueueJobSyncEnqueueOnly app job false .retry).Calls (·.queues) :=
  calls_enqueueJobSyncEnqueueOnly app (fun _ h => h) job false _ fun h => absurd h (by decide)

/-- Re-enqueueing a retry does not touch the record, which has been claimed. -/
theorem calls_updateJob : (updateJob app job).Calls (·.keepsRelease) := by
  have hwith : ∀ publish : Job → JobData → WorkerData → M Unit,
      (∀ job data w, (publish job data w).Calls (·.queues)) →
        (updateJobWith app publish job).Calls (·.keepsRelease) := by
    intro publish hpublish
    unfold updateJobWith
    split
    · refine Calls.bind ((Calls.perform (by rfl)).bind fun _ => trivial) fun isRunAfter => ?_
      refine (calls_findDataByOpt (by rfl) _).attempt.bind fun found => ?_
      split
      · refine Calls.bind ?_ fun resDb => ?_
        · unfold updateRdbQueue
          split
          · exact (Calls.perform (by rfl)).attempt
          · exact (calls_bestEffortIndex (by rfl)).bind fun _ => trivial
        refine Calls.bind ?_ fun resQueue => ?_
        · unfold updateInstantQueue
          split
          · refine ((hpublish _ _ _).mono fun _ => Op.queues.keepsRelease).attempt.bind fun _ => ?_
            split <;> trivial
          · trivial
        split <;> trivial
      · trivial
    · trivial
  unfold updateJob
  split
  · exact hwith _ fun _ _ _ => queues_enqueueToRedis.discard
  · exact hwith _ fun _ _ _ => queues_enqueueToChannel

end JobApp

end Jobworkerp
