/-
Jobworkerp/Participants.lean

Everything that runs against the storage of one job, and what it can do to the
job's live record.

The functions of the application end up in two classes.  Enqueueing a job, and
processing the result of a periodic worker (which enqueues the next
occurrence), may publish a PENDING record whatever the record is; nothing else
ever does.

* `calls_enqueueJob`, `calls_processResultInner`, ...: the calls of the
  functions that are not covered by the protocols around one attempt.
* `Participant`: the functions as threads of one system.
* `Participant.safe`: as long as no periodic worker is involved, only an
  enqueue publishes.
-/
import Jobworkerp.AttemptExclusivity
import Jobworkerp.Interleaving.RelyGuarantee

namespace Jobworkerp

open Interleaving Prog

/-! ### Enqueueing -/

variable {C : Op → Prop} {w : WorkerData} {s : Store}

section Enqueue

variable (app : App) (hC : ∀ op, EnqueueOp op → C op) (hput : ∀ r, C (.putStatus ⟨.pending, r⟩))
include hC

theorem calls_plain (hop : PlainOp op) : (invoke op : M _).Calls C :=
  .perform (hC op hop.queue.enqueue)

include hput

theorem calls_records (h : op.records) : C op := by
  cases op
  case putStatus record =>
    obtain ⟨status, r⟩ := record
    obtain rfl : status = .pending := of_decide_eq_true h
    exact hput r
  all_goals exact hC _ (by trivial)

theorem enqueues_calls : FollowsEnqueue app fun {_} p => p.Calls C := by
  have hqueues (op : Op) (hop : op.queues) : C op := hC op (queueOp_of_queues hop).enqueue
  refine
    { follows_calls C with
      plain := calls_plain hC
      toRedis := fun job => calls_enqueueJobToRedis app hqueues job false _
        fun _ _ => calls_records hC hput
      toChannel := fun job w => ?_
      publishPending := fun h =>
        (calls_upsertStatus app (hC _ (by trivial)) hput).discard.bind fun _ => h }
  have henqueue : (enqueueJobSyncEnqueueOnly app job false .newEnqueue).Calls C :=
    calls_enqueueJobSyncEnqueueOnly app hqueues job false _ fun _ _ => calls_records hC hput
  unfold enqueueJobSync
  dsimp only
  split
  · split
    · trivial
    · refine (Calls.perform (hC _ (by trivial))).when.bind fun _ => henqueue.bind fun _ => ?_
      exact (Calls.perform (hC _ (by trivial))).bind fun _ => by trivial
  · exact henqueue.bind fun _ => by trivial

/-- Enqueueing a job publishes nothing but PENDING. -/
theorem calls_enqueueJob (workerId : Option WorkerId) (req : EnqueueRequest) :
    (enqueueJob app workerId req).Calls C := (enqueues_calls app hC hput).enqueueJob workerId req

end Enqueue

/-! ### Processing a result -/

section Completion

variable (app : App) (hC : ∀ op, EnqueueOp op → C op)
  (hw : w.periodicInterval ≠ 0 → ∀ r, C (.putStatus ⟨.pending, r⟩))
include hC hw

/-- The next occurrence is enqueued for a periodic worker only. -/
theorem finishes_calls : Finishes app w fun {_} p => p.Calls C :=
  { follows_calls C with
    plain := calls_plain hC
    cleanup := (calls_cleanupJob app).mono fun op h => hC op h.completion.enqueue
    pending := fun _ _ hadv => (calls_settle hadv nofun).mono hC
    enqueue := fun hne => calls_enqueueJob app hC (hw hne) }

end Completion

section Result

variable (app : App) (hC : ∀ op, SettleOp op → C op)
  (hw : w.periodicInterval ≠ 0 → ∀ r, C (.putStatus ⟨.pending, r⟩))
include hC hw

/-- Processing a result publishes a PENDING record for a periodic worker only. -/
theorem calls_processResultInner (jr : JobResult) (stream loadOnly : Bool) :
    (processResultInner app jr stream w loadOnly).Calls C :=
  (finishes_calls app (fun op h => hC op h.settle) hw).processResultInner
    (fun _ _ _ => .perform (hC _ (by trivial))) jr stream loadOnly

theorem calls_resolveDispatchPreflight (eligibility : DispatchEligibility) :
    (resolveDispatchPreflight app eligibility w).Calls C :=
  (finishes_calls app (fun op h => hC op h.settle) hw).resolveDispatchPreflight
    (fun _ _ _ => .perform (hC _ (by trivial))) eligibility

end Result

/-! ### Dispatching -/

section Dispatch

variable (app : App) (hC : ∀ op, RegisterOp op → C op)
include hC

theorem calls_generateResultId : generateResultId.Calls C :=
  (follows_calls C).generateResultId (calls_plain fun op h => hC op h.settle.register)

theorem calls_runJob (job : Job) (dat : JobData) (w : WorkerData) : (runJob job dat w).Calls C :=
  (Calls.perform (hC _ (by trivial))).bind fun _ =>
    (calls_generateResultId hC).bind fun _ => by trivial

theorem calls_cleanupFailedJobStatus : (cleanupFailedJobStatus app).Calls C :=
  (calls_deleteStatus (hC _ (by trivial))).ignore.bind fun _ =>
    calls_bestEffortIndex (hC _ (by trivial))

theorem Redis.calls_releaseUnstarted (d : Delivery) (lease : Option ℤ) (permit : ℤ) :
    (Redis.releaseUnstarted app d lease permit).Calls C := by
  refine Calls.bind ?_ fun _ => ?_
  · unfold Redis.releaseLease
    split
    · refine (Calls.perform (hC _ (by trivial))).bind fun released => ?_
      split <;> trivial
    · trivial
  · refine Calls.when ((Calls.perform (hC _ (by trivial))).bind fun outcome => ?_)
    split <;> trivial

variable {d : Delivery} (hd : d.worker.periodicInterval ≠ 0 → ∀ r, C (.putStatus ⟨.pending, r⟩))
include hd

theorem calls_finishQueueJob (result : JobResult) (stream : Bool) :
    (finishQueueJob app d result stream).Calls C := by
  refine ((calls_markWaitResult _ _).mono hC).bind fun _ => ?_
  refine Calls.bind (Calls.when (calls_bestEffortIndex (hC _ (by trivial)))) fun _ => ?_
  exact (calls_processResultInner app (fun op h => hC op h.register) hd result stream false).bind
    fun _ => by trivial

theorem Redis.calls_requeueUnstarted (hrelease : release.Calls C)
    (message : String) : (Redis.requeueUnstarted app d release message).Calls C := by
  refine ((calls_restorePendingAttemptForRequeue d).mono hC).bind fun outcome => ?_
  split
  · exact (calls_processResultInner app (fun op h => hC op h.register) hd _ false false).bind
      fun _ => by trivial
  · trivial
  · exact hrelease.bind fun _ => (Calls.perform (hC _ (by trivial))).bind fun _ => by trivial

theorem Chan.calls_startClaimed : (Chan.startClaimed app d).Calls C := by
  have hrun : (Chan.runClaimed app d).Calls C :=
    (calls_bestEffortIndex (hC _ (by trivial))).bind fun _ => (calls_runJob hC _ _ _).bind
      fun r => calls_finishQueueJob app hC hd r.1 r.2
  unfold Chan.startClaimed
  split
  · refine (Calls.perform (hC _ (by trivial))).bind fun lease => ?_
    split
    · exact hrun
    · trivial
  · exact hrun

theorem Redis.calls_startClaimed (session : Option ℤ) :
    (Redis.startClaimed app session d).Calls C := by
  have hplain {op : Op} (hop : PlainOp op) : (invoke op : M _).Calls C :=
    calls_plain (fun op h => hC op h.settle.register) hop
  have hrun : ∀ permit lease, (Redis.runClaimed app d permit lease).Calls C := by
    intro permit lease
    refine Calls.bind (Calls.when (.perform (hC _ (by trivial)))) fun _ => ?_
    refine ((follows_calls C).confirmStart hplain permit).bind fun confirmed => ?_
    split
    · exact (calls_runJob hC _ _ _).bind fun r => calls_finishQueueJob app hC hd r.1 r.2
    · exact Redis.calls_requeueUnstarted app hC hd (Redis.calls_releaseUnstarted app hC d _ _) _
  refine ((follows_calls C).acquireStartPermit hplain session).bind fun permit => ?_
  split
  · exact Redis.calls_requeueUnstarted app hC hd (calls_ret ()) _
  · split
    · refine (Calls.perform (hC _ (by trivial))).bind fun lease => ?_
      split
      · exact hrun _ _
      · trivial
    · exact hrun _ _

theorem Rdb.calls_startClaimed (session : Option ℤ) : (Rdb.startClaimed app session d).Calls C := by
  refine (finishes_calls app (fun op h => hC op h.settle.register) hd).startClaimed ?_
    ((calls_checkCancellationStatus d true).mono hC) ?_ ?_ ?_ session
  · exact fun _ _ _ => .perform (hC _ (by trivial))
  · exact (calls_runJob hC _ _ _).bind fun r =>
      (calls_processResultInner app (fun op h => hC op h.register) hd r.1 r.2 false).bind
        fun _ => by trivial
  · exact fun _ _ => .perform (hC _ (by trivial))
  · exact fun _ => .perform (hC _ (by trivial))

end Dispatch

/-! ### Without periodic workers -/

/-- The job's worker, if there is one, is not periodic. -/
def NoPeriodicWorker (s : Store) : Prop := ∀ w, s.worker = some w → w.periodicInterval = 0

variable {ch : Choice} {op : Op} {s' : Store} {a : Answer op}

theorem worker_of_effect (h : effect ch op s = some (a, s')) :
    s'.worker = s.worker ∨ s'.worker = none := by
  by_cases ht : op.table = .worker
  · cases op <;> simp only [Op.table, reduceCtorEq] at ht
    cases h
    show (if s.tempWorker then none else s.worker) = s.worker ∨ _
    split
    · exact .inr rfl
    · exact .inl rfl
  · exact .inl ((effect_frame h).worker ht)

/-- A worker is never changed, it is only deleted. -/
theorem worker_of_sem (h : sem ch op s = some (a, s')) :
    s'.worker = s.worker ∨ s'.worker = none := by
  have hworker : (s.tick ch.tick).worker = s.worker := rfl
  rw [← hworker]
  obtain heff | ⟨-, rfl | ⟨a', heff⟩⟩ := sem_cases h
  · exact worker_of_effect heff
  · exact .inl rfl
  · exact worker_of_effect heff

theorem NoPeriodicWorker.sem (hs : NoPeriodicWorker s)
    (h : sem ch op s = some (a, s')) : NoPeriodicWorker s' := by
  intro w hw
  rcases worker_of_sem h with heq | hnone
  · exact hs w (heq ▸ hw)
  · rw [hnone] at hw
    cases hw

/-- The other threads leave the worker alone, or delete it. -/
def KeepsWorker (s s' : Store) : Prop := NoPeriodicWorker s → NoPeriodicWorker s'

/-- The guarantee of a thread whose calls are all `C`. -/
def WorkerGuarantee (C : Op → Prop) (op : Op) (_ : Except JobWorkerError (Resp op))
    (s s' : Store) : Prop := C op ∧ KeepsWorker s s'

section Safe

variable {α : Type}

theorem safe_of_calls {p : M α} (hp : p.Calls C) (hs : NoPeriodicWorker s) :
    p.Safe sem KeepsWorker (WorkerGuarantee C) (fun _ => NoPeriodicWorker) (fun _ => NoPeriodicWorker) s :=
  .of_calls hp (fun _ _ hs h => h hs)
    (fun _ _ _ _ _ hop hs hsem => ⟨⟨hop, fun _ => hs.sem hsem⟩, hs.sem hsem⟩) hs

/-- The worker a dispatcher finds is not periodic. -/
theorem safe_findByOpt (hC : ∀ op, RegisterOp op → C op) (workerId : Option WorkerId)
    (hs : NoPeriodicWorker s) : (findByOpt workerId).Safe sem KeepsWorker (WorkerGuarantee C)
      (fun found s => NoPeriodicWorker s ∧ ∀ wid w, found = some (wid, w) → w.periodicInterval = 0)
      (fun _ => NoPeriodicWorker) s := by
  cases workerId with
  | none => exact fun s' h => ⟨h hs, nofun⟩
  | some wid =>
    intro s1 h1 ch ans s2 hsem
    have hs1 : NoPeriodicWorker s1 := h1 hs
    have hs2 : NoPeriodicWorker s2 := hs1.sem hsem
    refine ⟨⟨hC _ trivial, fun _ => hs2⟩, ?_⟩
    cases ans with
    | error e => exact fun s' h => h hs2
    | ok found =>
      cases found with
      | none => exact fun s' h => ⟨h hs2, nofun⟩
      | some w =>
        refine fun s' h => ⟨h hs2, ?_⟩
        rintro wid' w' heq
        cases heq
        have heff := effect_of_sem_ok hsem
        exact hs1 w (answer_eq heff).1

theorem keepsWorker_refl (s : Store) : KeepsWorker s s := id

/-- A queue dispatcher of a job whose worker is not periodic publishes nothing. -/
theorem safe_processQueueJob (app : App) (job : Job) (loadOnly : Bool)
    {start : Delivery → M (Option JobResult)}
    (hstart : ∀ d : Delivery, d.worker.periodicInterval = 0 → (start d).Calls RegisterOp)
    (hs : NoPeriodicWorker s) :
    (processQueueJob app job loadOnly start).Safe sem KeepsWorker (WorkerGuarantee RegisterOp)
      (fun _ => NoPeriodicWorker) (fun _ => NoPeriodicWorker) s := by
  unfold processQueueJob
  split
  · refine Safe.bind keepsWorker_refl (safe_findByOpt (fun _ h => h) _ hs) ?_
    rintro (- | ⟨wid, w⟩) s' ⟨hs', hw⟩
    · exact safe_of_calls (by trivial) hs'
    · have hperiodic := hw wid w rfl
      have hno : w.periodicInterval ≠ 0 → ∀ r, RegisterOp (.putStatus ⟨.pending, r⟩) :=
        fun hne => absurd hperiodic hne
      refine safe_of_calls (Calls.bind (.perform (by trivial)) fun runner => ?_) hs'
      split
      · trivial
      · split
        · refine Calls.bind (Calls.bind (.perform (by trivial)) fun _ =>
            (calls_generateResultId fun _ h => h).bind fun _ => by trivial) fun result => ?_
          exact (calls_processResultInner app (fun _ => SettleOp.register) hno _ _ _).bind fun _ => by trivial
        · refine (calls_checkCancellationStatus _ false).bind fun eligibility => ?_
          refine Calls.bind (calls_resolveDispatchPreflight app (fun _ => SettleOp.register) hno eligibility)
            fun preflight => ?_
          split
          · exact hstart _ hperiodic
          · trivial
          · trivial
  · exact safe_of_calls (by trivial) hs

theorem safe_dispatchQueueJob (app : App) (session : Option ℤ) (job : Job) (loadOnly : Bool)
    (hs : NoPeriodicWorker s) : (dispatchQueueJob app session job loadOnly).Safe sem KeepsWorker
      (WorkerGuarantee RegisterOp) (fun _ => NoPeriodicWorker) (fun _ => NoPeriodicWorker) s := by
  have hno : ∀ d : Delivery, d.worker.periodicInterval = 0 →
      d.worker.periodicInterval ≠ 0 → ∀ r, RegisterOp (.putStatus ⟨.pending, r⟩) :=
    fun d hperiodic hne => absurd hperiodic hne
  have hend : ∀ (result : Except JobWorkerError (Option JobResult)) s',
      Ends (fun _ => NoPeriodicWorker) (fun _ => NoPeriodicWorker) result s' → NoPeriodicWorker s' := by
    rintro (e | a) s' h
    · exact h
    · exact h
  refine Safe.bind keepsWorker_refl (Safe.attempt (E := fun _ => NoPeriodicWorker)
    (Q := fun _ => NoPeriodicWorker) ?_) fun result s' hs' =>
      safe_of_calls ?_ (hend result s' hs')
  · split
    · exact safe_processQueueJob app job loadOnly (fun d hd =>
        Redis.calls_startClaimed app (fun _ h => h) (hno d hd) session) hs
    · exact safe_processQueueJob app job loadOnly (fun d hd =>
        Chan.calls_startClaimed app (fun _ h => h) (hno d hd)) hs
  · split
    · trivial
    · exact (calls_cleanupFailedJobStatus app fun _ h => h).when.bind fun _ => by trivial

theorem safe_dispatchRdbJob (app : App) (session : Option ℤ) (jobId : JobId)
    (hs : NoPeriodicWorker s) : (dispatchRdbJob app session jobId).Safe sem KeepsWorker
      (WorkerGuarantee RegisterOp) (fun _ => NoPeriodicWorker) (fun _ => NoPeriodicWorker) s := by
  refine Safe.bind keepsWorker_refl (safe_of_calls (.perform (by trivial)) hs) fun row s' hs' => ?_
  cases row with
  | none => exact safe_of_calls (by trivial) hs'
  | some data =>
    refine Safe.bind keepsWorker_refl (safe_findByOpt (fun _ h => h) _ hs') ?_
    rintro (- | ⟨wid, w⟩) s'' ⟨hs'', hw⟩
    · exact safe_of_calls (by trivial) hs''
    · have hno : w.periodicInterval ≠ 0 → ∀ r, RegisterOp (.putStatus ⟨.pending, r⟩) :=
        fun hne => absurd (hw wid w rfl) hne
      refine safe_of_calls (Calls.bind (.perform (by trivial)) fun runner => ?_) hs''
      split
      · trivial
      · refine (calls_checkCancellationStatus _ true).bind fun eligibility => ?_
        refine Calls.bind (calls_resolveDispatchPreflight app (fun _ => SettleOp.register) hno eligibility)
          fun preflight => ?_
        split
        · exact Rdb.calls_startClaimed app (fun _ h => h) hno session
        · trivial
        · trivial

end Safe

/-! ### The participants -/

/-- What can run against the storage of one job. -/
inductive Participant
  /-- One of the protocols around an attempt. -/
  | protocol (p : Protocol)
  /-- A queue dispatcher takes a delivery. -/
  | queueDispatcher (session : Option ℤ) (job : Job) (loadOnly : Bool)
  /-- The RDB dispatcher fetches the row. -/
  | rdbDispatcher (session : Option ℤ) (jobId : JobId)
  /-- The result processor takes a result. -/
  | resultProcessor (jr : JobResult) (stream : Bool) (w : WorkerData)
  | completion (id : JobResultId) (data : JobResultData) (stream : Bool)
  /-- A task that was left in the background. -/
  | background
  /-- The job is enqueued, with its identifier reserved. -/
  | enqueue (workerId : Option WorkerId) (req : EnqueueRequest)

/-- The program of a participant, with the verdict of a check. -/
def Participant.prog (app : App) : Participant → M (Option DispatchEligibility)
  | protocol p => p.prog app
  | queueDispatcher session job loadOnly => do
      (dispatchQueueJob app session job loadOnly).discard
      return none
  | rdbDispatcher session jobId => do
      (dispatchRdbJob app session jobId).discard
      return none
  | resultProcessor jr stream w => do
      (processResult app jr stream w).discard
      return none
  | completion id data stream => do
      (completeJob app id data stream).discard
      return none
  | background => do
      taskRunner app
      return none
  | enqueue workerId req => do
      (enqueueJob app workerId req).discard
      return none

/-- The participant enqueues the job. -/
def Participant.enqueues : Participant → Bool
  | enqueue _ _ => true
  | _ => false

/-- The participant does not process a result of a periodic worker that it got
from outside. -/
def Participant.NotPeriodic : Participant → Prop
  | resultProcessor _ _ w => w.periodicInterval = 0
  | _ => True

/-- The calls a participant may make: only an enqueue publishes. -/
def Participant.Allows (p : Participant) (op : Op) : Prop :=
  LifecycleOp op ∧ (p.enqueues = false → RegisterOp op)

theorem Participant.allows_register (p : Participant) (h : RegisterOp op) :
    p.Allows op := ⟨h.lifecycle, fun _ => h⟩

/-- **Without a periodic worker only an enqueue publishes a PENDING record.** -/
theorem Participant.safe (app : App) (p : Participant) (hp : p.NotPeriodic) {s : Store}
    (hs : NoPeriodicWorker s) : (p.prog app).Safe sem KeepsWorker (WorkerGuarantee p.Allows)
      (fun _ => NoPeriodicWorker) (fun _ => NoPeriodicWorker) s := by
  have hthen : ∀ {β : Type} {q : M β}, q.Safe sem KeepsWorker (WorkerGuarantee RegisterOp)
      (fun _ => NoPeriodicWorker) (fun _ => NoPeriodicWorker) s →
      (do q.discard; return none : M (Option DispatchEligibility)).Safe sem KeepsWorker
        (WorkerGuarantee p.Allows) (fun _ => NoPeriodicWorker)
        (fun _ => NoPeriodicWorker) s := by
    intro β q hq
    refine Safe.weaken (G := WorkerGuarantee RegisterOp) ?_
      fun _ _ _ _ h => ⟨p.allows_register h.1, h.2⟩
    refine Safe.bind (Q := fun _ => NoPeriodicWorker) keepsWorker_refl
      (Safe.bind keepsWorker_refl hq ?_) ?_
    · exact fun _ _ hs' => safe_of_calls (by trivial) hs'
    · exact fun _ _ hs' => safe_of_calls (by trivial) hs'
  have hcalls : ∀ {q : M (Option DispatchEligibility)}, q.Calls RegisterOp →
      q.Safe sem KeepsWorker (WorkerGuarantee p.Allows) (fun _ => NoPeriodicWorker)
        (fun _ => NoPeriodicWorker) s :=
    fun hq => safe_of_calls (hq.mono fun _ => p.allows_register) hs
  cases p with
  | protocol p => exact hcalls (p.calls app)
  | queueDispatcher session job loadOnly =>
    exact hthen (safe_dispatchQueueJob app session job loadOnly hs)
  | rdbDispatcher session jobId => exact hthen (safe_dispatchRdbJob app session jobId hs)
  | resultProcessor jr stream w =>
    exact hthen (safe_of_calls (calls_processResultInner app (fun _ => SettleOp.register)
      (fun hne => absurd hp hne) jr stream false) hs)
  | completion id data stream =>
    exact hcalls (((calls_completeJob app id data stream).mono
      fun _ h => h.settle.register).discard.bind fun _ => by trivial)
  | background =>
    exact hcalls ((calls_taskRunner app trivial fun _ => TaskOp.register).bind
      fun _ => by trivial)
  | enqueue workerId req =>
    refine safe_of_calls (Calls.bind (Calls.discard (calls_enqueueJob app ?_ ?_ _ _))
      fun _ => by trivial) hs
    · exact fun _ h => Participant.allows_register _ h.settle.register
    · exact fun r => ⟨rfl, nofun⟩

end Jobworkerp
