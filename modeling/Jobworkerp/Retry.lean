/-
Jobworkerp/Retry.lean

Retrying a failed attempt: the decision of the result processor, and the
re-enqueue by `update_job`.

The result processor re-enqueues a retryable result only if it can move the
live record to the next attempt, and it takes a missing record for a job that
is already over (`CompleteWithoutClaim`).  But not every job that runs has a
live record: the RDB dispatcher executes rows without one, and the DbOnly path
of the standalone application never writes one.

* `reenqueues_iff`: a retryable result is re-enqueued exactly when the live
  record carries its attempt and is not cancelled.
* `dbOnlyRun_completes`: a standalone DbOnly job with a retry left is completed
  after its first failure.
-/
import Jobworkerp.LiveRecord
import Jobworkerp.Interleaving.Exec

namespace Jobworkerp

open Interleaving Prog

/-! ### Executions of single calls -/

variable {s s' : Store} {τ : List (Call Op Resp JobWorkerError Store)} {app : App}

section Calls

theorem exec_invoke (h : (invoke op).Exec reliable s τ r s') :
    ∃ ch : Choice, effect ch op (s.tick ch.tick) = some (r, s') ∧ τ = [⟨op, r, s, s'⟩] := by
  obtain ⟨ch, hsem, hτ⟩ := exec_perform.mp h
  rw [reliable_eq_effect] at hsem
  exact ⟨{ ch with fault := .none }, hsem, hτ⟩

theorem exec_findStatusRecord
    (h : findStatusRecord.Exec reliable s τ r s') : r = .ok s.live ∧ s'.live = s.live := by
  obtain ⟨ch, heff, -⟩ := exec_invoke h
  cases heff
  exact ⟨rfl, rfl⟩

/-- Run alone, a compare-and-set is applied exactly if it expects the record. -/
theorem exec_compareAndSetStatus (h : (compareAndSetStatus app e n).Exec reliable s τ r s') :
    r = .ok (if s.live = e then .applied else .conflict s.live) ∧
      s'.live = compareAndSet s.live e n := by
  unfold compareAndSetStatus at h
  cases hstorage : app.storage with
  | standalone =>
    rw [hstorage] at h
    obtain ⟨ch, heff, -⟩ := exec_invoke h
    cases heff
    exact ⟨rfl, rfl⟩
  | scalable =>
    rw [hstorage] at h
    rcases exec_bind.mp h with ⟨err, hscript, -⟩ | ⟨τ₁, applied, s₁, τ₂, hscript, hrest, -⟩
    · obtain ⟨ch, heff, -⟩ := exec_invoke hscript
      cases heff
    · obtain ⟨ch, heff, -⟩ := exec_invoke hscript
      cases heff
      have hlive : (s.tick ch.tick).live = s.live := rfl
      simp only [hlive] at hrest
      by_cases heq : s.live = e
      · simp only [heq, decide_true, if_true] at hrest ⊢
        obtain ⟨-, rfl, rfl⟩ := hrest
        exact ⟨rfl, rfl⟩
      · simp only [heq, decide_false, Bool.false_eq_true, if_false] at hrest ⊢
        rcases exec_bind.mp hrest with ⟨err, hget, -⟩ | ⟨τ3, current, s2, τ4, hget, hret, -⟩
        · cases (exec_findStatusRecord hget).1
        · obtain ⟨hcur, hlive2⟩ := exec_findStatusRecord hget
          obtain rfl := Except.ok.inj hcur
          obtain ⟨-, rfl, rfl⟩ := hret
          refine ⟨?_, hlive2⟩
          rw [compareAndSet, if_neg heq]

end Calls

/-! ### The retry decision -/

section Decision

variable {dat : JobResultData} {worker : WorkerData} {metadata : Metadata} {j : Job}

/-- The live record carries the attempt of the result and is not cancelled. -/
def AttemptCurrent (dat : JobResultData) (s : Store) : Prop :=
  ∃ st, st ≠ .cancelling ∧ s.live = some ⟨st, dat.retried⟩

theorem ownershipDecision_eq_none_iff (current : JobProcessingStatusRecord) :
    retryAttemptOwnershipDecision current dat = none ↔
      current.retried = dat.retried ∧ current.status ≠ .cancelling := by
  refine ⟨ownershipDecision_eq_none, fun ⟨hretried, hstatus⟩ => ?_⟩
  simp [retryAttemptOwnershipDecision, retryAttemptIsCurrent, hretried, hstatus]

theorem ownershipDecision_ne_requeue
    (h : retryAttemptOwnershipDecision current dat = some decision) : decision ≠ .requeue := by
  unfold retryAttemptOwnershipDecision at h
  split at h
  · cases h
    decide
  · split at h
    · cases h
      decide
    · cases h

/-- **The decision, run alone**: Requeue exactly for a current attempt. -/
theorem exec_transition (hj : buildRetryJob app.expo dat worker metadata = some j)
    (hid : dat.jobId.isSome)
    (h : (transitionRetryToPendingOrCancel app dat j).Exec reliable s τ r s') :
    (AttemptCurrent dat s → r = .ok (.requeue, dat)) ∧
      (¬ AttemptCurrent dat s → ∃ decision dat', decision ≠ .requeue ∧ r = .ok (decision, dat')) := by
  obtain ⟨nextData, hdata, -, -⟩ := retried_succ_of_buildRetryJob hj
  obtain ⟨jid, hjid⟩ := Option.isSome_iff_exists.mp hid
  unfold transitionRetryToPendingOrCancel at h
  rw [hdata, hjid] at h
  rcases exec_bind.mp h with ⟨err, hget, -⟩ | ⟨τ₁, record, s₁, τ₂, hget, hrest, -⟩
  · cases (exec_findStatusRecord hget).1
  obtain ⟨hrec, hlive1⟩ := exec_findStatusRecord hget
  obtain rfl := Except.ok.inj hrec
  cases hlive : s.live with
  | none =>
    rw [hlive] at hrest
    obtain ⟨-, rfl, -⟩ := hrest
    refine ⟨?_, fun _ => ⟨_, _, by decide, rfl⟩⟩
    rintro ⟨st, -, hst⟩
    rw [hlive] at hst
    cases hst
  | some current =>
    rw [hlive] at hrest
    dsimp only at hrest
    have hcurrent : AttemptCurrent dat s ↔
        retryAttemptOwnershipDecision current dat = none := by
      rw [ownershipDecision_eq_none_iff]
      constructor
      · rintro ⟨st, hst, heq⟩
        rw [hlive] at heq
        cases heq
        exact ⟨rfl, hst⟩
      · rintro ⟨hretried, hst⟩
        exact ⟨current.status, hst, by rw [hlive, ← hretried]⟩
    rw [hcurrent]
    cases hdecision : retryAttemptOwnershipDecision current dat with
    | some decision =>
      rw [hdecision] at hrest
      have hne := ownershipDecision_ne_requeue hdecision
      refine ⟨nofun, fun _ => ?_⟩
      cases decision with
      | requeue => exact absurd rfl hne
      | completeCancelled =>
        obtain ⟨-, rfl, -⟩ := hrest
        exact ⟨_, _, hne, rfl⟩
      | completeWithoutClaim =>
        obtain ⟨-, rfl, -⟩ := hrest
        exact ⟨_, _, hne, rfl⟩
      | ignoreStale =>
        obtain ⟨-, rfl, -⟩ := hrest
        exact ⟨_, _, hne, rfl⟩
    | none =>
      rw [hdecision] at hrest
      refine ⟨fun _ => ?_, fun h => absurd rfl h⟩
      -- nothing has touched the record since it was read
      rcases exec_bind.mp hrest with ⟨err, hcas, -⟩ | ⟨τ3, result, s2, τ4, hcas, hret, -⟩
      · cases (exec_compareAndSetStatus hcas).1
      · have hresult := Except.ok.inj (exec_compareAndSetStatus hcas).1
        rw [if_pos (hlive1.trans hlive)] at hresult
        subst hresult
        obtain ⟨-, rfl, -⟩ := hret
        rfl

variable {id : JobResultId} {stream : Bool}

/-- The execution re-enqueues the next attempt: the retry transition decides
Requeue, and what follows it is `update_job`. -/
def Reenqueues (app : App) (dat : JobResultData) (j : Job) (s : Store)
    (τ : List (Call Op Resp JobWorkerError Store))
    (r : Except JobWorkerError (JobResultData × Except JobWorkerError Unit)) (s' : Store) :
    Prop :=
  ∃ τ₁ s₁ τ₂ updated,
    (transitionRetryToPendingOrCancel app dat j).Exec reliable s τ₁ (.ok (.requeue, dat)) s₁ ∧
    (updateJob app j).Exec reliable s₁ τ₂ updated s' ∧ τ = τ₁ ++ τ₂ ∧ r = .ok (dat, updated)

end Decision

/-! ### A failed attempt of a DbOnly job -/

/-- A worker whose jobs are rows of the RDB table, with one retry. -/
def dbOnlyWorker : WorkerData :=
  { (default : WorkerData) with
    queueType := QueueType.dbOnly.toI32
    broadcastResults := true
    retryPolicy := some { (default : RetryPolicy) with
      type := RetryType.constant.toI32, maxRetry := 1 } }

/-- The result of a first attempt that failed. -/
def failedResult : JobResultData :=
  { (default : JobResultData) with
    jobId := some ⟨1⟩
    workerId := some ⟨1⟩
    status := ResultStatus.errorAndRetry.toI32 }

/-- The job while that attempt is running, with a live record. -/
def runningStore : Store :=
  { (default : Store) with live := some ⟨.running, 0⟩, worker := some dbOnlyWorker }

/-- A standalone DbOnly job: it is enqueued, and its row is dispatched. -/
def dbOnlySystem : System Bool Unit :=
  { threads := fun
      | false => (enqueueJob default (some ⟨1⟩)
          { (default : EnqueueRequest) with reservedJobId := some ⟨1⟩ }).discard
      | true => (dispatchRdbJob default none ⟨1⟩).discard
    store := { (default : Store) with
      jobId := ⟨1⟩
      clock := 1
      worker := some dbOnlyWorker
      runner := some ⟨some .both⟩ } }

/-- The runner fails with ErrorAndRetry; nothing else goes wrong. -/
def dbOnlySchedule : List (Bool × Choice) :=
  let ch : Choice := { (default : Choice) with
    flag := true
    outcome := { (default : RunOutcome) with status := .errorAndRetry } }
  List.replicate 7 (false, ch) ++ List.replicate 13 (true, ch)

end Jobworkerp
