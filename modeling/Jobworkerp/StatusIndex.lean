/-
Jobworkerp/StatusIndex.lean

The RDB index of job statuses under delayed writes
(`infra/src/infra/job/status/rdb.rs`).

Apart from retries and recovery, the row of a job is written by
`index_status_update` (PENDING and RUNNING insert it, WAIT_RESULT and
CANCELLING delete it logically), `update_status_by_job_id` and
`mark_deleted_by_job_id`.  The writes are made by different tasks, so they
take effect in any order.

A row passes through three phases: absent, active, deleted.  A deletion finds
nothing to delete in an absent row and leaves no trace, so that an insert
behind it is not held back.

* `phase_apply`: the effect of one write on the phase.
* `no_active_row_iff`: the orders that leave no active row.
* `cancelled_job_left_active`: a run of the application that leaves one.
* `mysql_eq_sqlite`: the statements of the two databases leave the same row.
-/
import Jobworkerp.Retry

namespace Jobworkerp

open Interleaving Prog

/-! ### The writes -/

/-- The writes of a job's row, retries and recovery apart. -/
inductive IndexWrite
  | status (status : JobProcessingStatus) (update : StatusIndexUpdate)
  | statusByJobId (status : JobProcessingStatus)
  | markDeleted
  deriving DecidableEq, Repr

def IndexWrite.op : IndexWrite → Op
  | status st update => .indexStatus st update
  | statusByJobId st => .updateIndexStatus st
  | markDeleted => .markIndexDeleted

/-- The row after a write at time `now`. -/
def IndexWrite.apply (now : ℤ) (index : Option StatusIndexRow) :
    IndexWrite → Option StatusIndexRow
  | status st update => (writeIndexStatus now st update index).2
  | statusByJobId st =>
    (updateIndex index (·.deletedAt.isNone) fun r =>
      { r with
        status := st
        startTime := if st = .running then r.startTime <|> some now else r.startTime
        version := r.version + 1
        updatedAt := now }).2
  | markDeleted =>
    (updateIndex index (·.deletedAt.isNone) fun r =>
      { r with deletedAt := some now, updatedAt := now }).2

/-- A call of the application writes the row in this way, and nothing else. -/
theorem effect_indexWrite (w : IndexWrite) (ch : Choice) (s : Store) :
    (effect ch w.op s).map Prod.snd = some { s with index := w.apply s.clock s.index } := by
  cases w <;> rfl

variable (index : Option StatusIndexRow)

/-- The row once the writes have taken effect, each at its time. -/
def indexAfter (writes : List (ℤ × IndexWrite)) :
    Option StatusIndexRow :=
  writes.foldl (fun index w => w.2.apply w.1 index) index

/-- A row with `deleted_at` NULL. -/
def hasActiveRow : Bool := index.any (·.deletedAt.isNone)

/-! ### The phases of a row -/

inductive IndexPhase
  | absent | active | deleted
  deriving DecidableEq, Repr

/-- The phase of the row in the table. -/
def phaseOf : Option StatusIndexRow → IndexPhase
  | none => .absent
  | some r => if r.deletedAt.isNone then .active else .deleted

/-- A write that inserts the row where there is none. -/
def IndexWrite.inserts : IndexWrite → Bool
  | status .pending _ | status .running _ => true
  | _ => false

/-- A write that deletes the row where it is active. -/
def IndexWrite.deletes : IndexWrite → Bool
  | status .waitResult _ | status .cancelling _ | markDeleted => true
  | _ => false

/-- What a write does to the phase: there is no way back from `deleted`. -/
def IndexPhase.next : IndexPhase → IndexWrite → IndexPhase
  | absent, w => if w.inserts then active else absent
  | active, w => if w.deletes then deleted else active
  | deleted, _ => deleted

theorem hasActiveRow_iff : hasActiveRow index = true ↔ phaseOf index = .active := by
  cases index with
  | none | some => simp [hasActiveRow, phaseOf]

theorem phaseOf_active (h : r.deletedAt = none) : phaseOf (some r) = .active := by simp [phaseOf, h]

theorem phaseOf_deleted (h : r.deletedAt = some t) :
    phaseOf (some r) = .deleted := by simp [phaseOf, h]

/-- **One write**: the table follows the phases. -/
theorem phase_apply (now : ℤ) (index : Option StatusIndexRow) (w : IndexWrite) :
    phaseOf (w.apply now index) = (phaseOf index).next w := by
  cases index with
  | none =>
    cases w with
    | status st update => cases st <;> rfl
    | statusByJobId | markDeleted => rfl
  | some r =>
    cases hdeleted : r.deletedAt with
    | none =>
      rw [phaseOf_active hdeleted]
      cases w with
      | status st update =>
        cases st with
        | pending =>
          simp only [IndexWrite.apply, writeIndexStatus]
          split <;> exact phaseOf_active hdeleted
        | running =>
          simp only [IndexWrite.apply, writeIndexStatus, updateIndex]
          split <;> exact phaseOf_active hdeleted
        | waitResult => simp [IndexWrite.apply, writeIndexStatus, updateIndex, hdeleted,
            phaseOf, IndexPhase.next, IndexWrite.deletes]
        | cancelling => simp [IndexWrite.apply, writeIndexStatus, updateIndex, hdeleted,
            phaseOf, IndexPhase.next, IndexWrite.deletes]
        | unknown => exact phaseOf_active hdeleted
      | statusByJobId st =>
        simp [IndexWrite.apply, updateIndex, hdeleted, phaseOf, IndexPhase.next,
          IndexWrite.deletes]
      | markDeleted =>
        simp [IndexWrite.apply, updateIndex, hdeleted, phaseOf, IndexPhase.next,
          IndexWrite.deletes]
    | some t =>
      -- every write of a deleted row is held back by its condition
      have hsame : w.apply now (some r) = some r := by
        cases w with
        | status st update =>
          cases st <;> simp [IndexWrite.apply, writeIndexStatus, updateIndex, hdeleted]
        | statusByJobId | markDeleted => simp [IndexWrite.apply, updateIndex, hdeleted]
      rw [hsame, phaseOf_deleted hdeleted]
      rfl

/-! ### Whole orders -/

theorem phase_indexAfter (writes : List (ℤ × IndexWrite)) : phaseOf (indexAfter index writes) =
      (writes.map Prod.snd).foldl IndexPhase.next (phaseOf index) := by
  induction writes generalizing index with
  | nil => rfl
  | cons w rest ih =>
    show phaseOf (indexAfter (w.2.apply w.1 index) rest) = _
    rw [ih, phase_apply]
    rfl

variable (writes : List IndexWrite)

theorem foldl_next_deleted : writes.foldl IndexPhase.next .deleted = .deleted := by
  induction writes with
  | nil => rfl
  | cons w rest ih => exact ih

/-- An active row stays active until a deletion. -/
theorem foldl_next_active :
    writes.foldl IndexPhase.next .active = .active ↔ ∀ w ∈ writes, w.deletes = false := by
  induction writes with
  | nil => simp
  | cons w rest ih =>
    rw [List.foldl_cons, List.forall_mem_cons]
    cases hdeletes : w.deletes with
    | false =>
      have hnext : IndexPhase.next .active w = .active := by simp [IndexPhase.next, hdeletes]
      rw [hnext, ih]
      simp
    | true =>
      have hnext : IndexPhase.next .active w = .deleted := by simp [IndexPhase.next, hdeletes]
      rw [hnext, foldl_next_deleted]
      simp

/-- Some deletion takes effect behind an insert. -/
def DeletedAfterInsert : Prop :=
  ∃ before insert after, writes = before ++ insert :: after ∧ insert.inserts = true ∧
    ∃ w ∈ after, w.deletes = true

/-- A write that inserts nothing can be left out at the front. -/
theorem deletedAfterInsert_cons
    (h : w.inserts = false) : DeletedAfterInsert (w :: rest) ↔ DeletedAfterInsert rest := by
  constructor
  · rintro ⟨before, insert, after, heq, hinsert, hdelete⟩
    cases before with
    | nil =>
      obtain ⟨rfl, -⟩ := List.cons.inj heq
      rw [h] at hinsert
      cases hinsert
    | cons _ before => exact ⟨before, insert, after, (List.cons.inj heq).2, hinsert, hdelete⟩
  · rintro ⟨before, insert, after, rfl, hinsert, hdelete⟩
    exact ⟨w :: before, insert, after, rfl, hinsert, hdelete⟩

theorem foldl_next_absent : writes.foldl IndexPhase.next .absent ≠ .active ↔
      (∀ w ∈ writes, w.inserts = false) ∨ DeletedAfterInsert writes := by
  induction writes with
  | nil => simp
  | cons w rest ih =>
    rw [List.foldl_cons, List.forall_mem_cons]
    cases hinserts : w.inserts with
    | false =>
      have hnext : IndexPhase.next .absent w = .absent := by simp [IndexPhase.next, hinserts]
      rw [hnext, ih, deletedAfterInsert_cons hinserts]
      simp
    | true =>
      -- the first insert: from here on a deletion decides
      have hnext : IndexPhase.next .absent w = .active := by simp [IndexPhase.next, hinserts]
      rw [hnext, ne_eq, foldl_next_active]
      constructor
      · intro h
        push Not at h
        obtain ⟨d, hd, hdeletes⟩ := h
        exact .inr ⟨[], w, rest, rfl, hinserts, d, hd, by simpa using hdeletes⟩
      · rintro (⟨hno, -⟩ | ⟨before, insert, after, heq, -, d, hd, hdeletes⟩) h
        · cases hno
        · have hmem : d ∈ rest := by
            cases before with
            | nil => rwa [(List.cons.inj heq).2]
            | cons _ before =>
              rw [(List.cons.inj heq).2]
              simp [hd]
          rw [h d hmem] at hdeletes
          cases hdeletes

/-- **The orders that leave no active row** are those in which nothing inserts
the row, or some deletion takes effect behind an insert. -/
theorem no_active_row_iff (writes : List (ℤ × IndexWrite)) :
    hasActiveRow (indexAfter none writes) = false ↔
      (∀ w ∈ writes.map Prod.snd, w.inserts = false) ∨
        DeletedAfterInsert (writes.map Prod.snd) := by
  rw [← foldl_next_absent, ← Bool.not_eq_true, hasActiveRow_iff, phase_indexAfter]
  rfl

/-! ### The statements of the two databases -/

/-- The RUNNING update of SQLite, which is also the condition of each assignment of MySQL. -/
def StatusIndexRow.startable (r : StatusIndexRow) : Bool := r.status.toI32 < 2 ∧ r.deletedAt.isNone

namespace MySql

/-- The assignments of `ON DUPLICATE KEY UPDATE`.  Each one reads the row as those before it
have left it, so the status comes last. -/
def runningAssignments (now : ℤ) (u : StatusIndexUpdate) :
    List (StatusIndexRow → StatusIndexRow) :=
  [fun r => { r with startTime := if r.startable then r.startTime <|> some now else r.startTime },
    fun r => { r with updatedAt := if r.startable then now else r.updatedAt },
    fun r => { r with version := if r.startable then r.version + 1 else r.version },
    fun r => { r with
      workerInstanceId := if r.startable then u.workerInstanceId else r.workerInstanceId },
    fun r => { r with status := if r.startable then .running else r.status }]

/-- `INSERT ... ON DUPLICATE KEY UPDATE`. -/
def indexRunning (now : ℤ) (u : StatusIndexUpdate) :
    Option StatusIndexRow → Option StatusIndexRow
  | none => some (newIndexRow now .running u (some now) none u.workerInstanceId)
  | some r => some ((runningAssignments now u).foldl (fun r assign => assign r) r)

end MySql

namespace Sqlite

/-- `UPDATE`, and `INSERT ... WHERE NOT EXISTS` if no row is affected. -/
def indexRunning (now : ℤ) (u : StatusIndexUpdate) (index : Option StatusIndexRow) :
    Option StatusIndexRow :=
  let updated := updateIndex index (·.startable) fun r =>
    { r with status := .running, startTime := r.startTime <|> some now,
             workerInstanceId := u.workerInstanceId, version := r.version + 1, updatedAt := now }
  if updated.1 then updated.2
  else
    match updated.2 with
    | none => some (newIndexRow now .running u (some now) none u.workerInstanceId)
    | some r => some r

end Sqlite

/-- `index_status_update` with the RUNNING statement of a database; the statements of the
other statuses are the same for both. -/
def indexStatusUpdate (indexRunning : ℤ → StatusIndexUpdate → Option StatusIndexRow →
    Option StatusIndexRow) (now : ℤ) (status : JobProcessingStatus) (u : StatusIndexUpdate)
    (index : Option StatusIndexRow) : Option StatusIndexRow :=
  match status with
  | .running => indexRunning now u index
  | status => (writeIndexStatus now status u index).2

theorem mysql_indexRunning_eq (now : ℤ) (u : StatusIndexUpdate) (index : Option StatusIndexRow) :
    MySql.indexRunning now u index = Sqlite.indexRunning now u index := by
  cases index with
  | none => rfl
  | some r =>
    -- no assignment before that of the status changes the condition
    have hassigned : MySql.indexRunning now u (some r) = some
        { r with
          startTime := if r.startable then r.startTime <|> some now else r.startTime
          updatedAt := if r.startable then now else r.updatedAt
          version := if r.startable then r.version + 1 else r.version
          workerInstanceId := if r.startable then u.workerInstanceId else r.workerInstanceId
          status := if r.startable then .running else r.status } := rfl
    rw [hassigned, Sqlite.indexRunning]
    cases hstart : r.startable with
    | true =>
      rw [updateIndex_of hstart]
      rfl
    | false =>
      rw [updateIndex_of_not hstart]
      rfl

/-- The SQLite pair is the index write of the store. -/
theorem sqlite_indexStatusUpdate_eq (now : ℤ) (status : JobProcessingStatus) (u : StatusIndexUpdate)
    (index : Option StatusIndexRow) : indexStatusUpdate Sqlite.indexRunning now status u index =
      (writeIndexStatus now status u index).2 := by
  cases status with
  | running =>
    cases index with
    | none => rfl
    | some r =>
      show Sqlite.indexRunning now u (some r) = (updateIndex (some r) (·.startable) _).2
      unfold Sqlite.indexRunning
      cases hstart : r.startable with
      | true => simp only [updateIndex_of hstart, if_true]
      | false => simp only [updateIndex_of_not hstart, Bool.false_eq_true, if_false]
  | _ => rfl

/-- Redis with the status index. -/
def indexingApp : App := { (default : App) with storage := .scalable, indexing := true }

/-- Before a DbOnly job is enqueued. -/
def beforeEnqueue : Store :=
  { (default : Store) with
    jobId := ⟨1⟩
    clock := 1
    worker := some dbOnlyWorker
    runner := some ⟨some .both⟩ }

/-- **A delayed PENDING insert is not held back by the cancellation.**  The job
is enqueued and cancelled; its row, its record and the tasks are gone.  Then
the write of its PENDING status takes effect, and its index row stays active. -/
theorem cancelled_job_left_active : ∃ τ₁ τ₂ τ₃ r s₁ s₂ s₃,
    (Hybrid.enqueueJobWithWorker indexingApp ⟨1⟩ dbOnlyWorker
        { (default : EnqueueRequest) with reservedJobId := some ⟨1⟩ }).Exec sem
          beforeEnqueue τ₁ (.ok r) s₁ ∧
      (cancelJobLifecycle indexingApp).Exec sem s₁ τ₂ (.ok true) s₂ ∧
      (taskRunner indexingApp).Exec sem s₂ τ₃ (.ok ()) s₃ ∧
      s₃.row = none ∧ s₃.live = none ∧ s₃.tasks = [] ∧ s₃.queue = [] ∧
      hasActiveRow s₃.index = true := by
  have henqueue : (Hybrid.enqueueJobWithWorker indexingApp ⟨1⟩ dbOnlyWorker
      { (default : EnqueueRequest) with reservedJobId := some ⟨1⟩ }).Exec sem
        beforeEnqueue _ (.ok _) _ := exec_of_runWith default rfl
  refine ⟨_, _, _, _, _, _, _, henqueue, exec_of_runWith default rfl, exec_of_runWith default rfl,
    rfl, rfl, rfl, rfl, rfl⟩

end Jobworkerp
