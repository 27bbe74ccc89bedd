/-
Jobworkerp/DirectWaiters.lean

Who waits for the result of a Direct job in the Redis application.

The client that enqueues a Direct job blocks on the job's result list, and
`complete_job` pushes one result to that list when the last attempt has ended.
In between every retried attempt is re-enqueued by `update_job`, which uses the
client's enqueue path: for a retry that goes to the Redis list at once, the
worker that processed the failed attempt waits for the result as well.

A waiter is a call of `BLPOP`.  Such a call may be interrupted, which is the
only failure considered here, so that an execution whose wait is never served
ends too.

* `waiters_enqueueToRedis`: an enqueue of a Direct job waits, except for
  Internal streaming.
* `directChain_waiters_le_iff`: over a whole chain of attempts there are no
  more waiters than results exactly if every retry stays out of the Redis list
  or the job streams internally.
-/
import Jobworkerp.Retry
import Jobworkerp.UpdateJob

namespace Jobworkerp

open Interleaving Prog List

/-! ### Waiters and results -/

def Op.isWait : Op → Bool
  | .waitResult => true
  | _ => false

def Op.isPush : Op → Bool
  | .pushResult _ => true
  | _ => false

/-- The waits for the job's result. -/
def waiters (τ : Trace) : ℕ := τ.countP fun c => c.op.isWait

/-- The results pushed to the job's result list. -/
def pushes (τ : Trace) : ℕ := τ.countP fun c => c.op.isPush

theorem waiters_append (τ1 τ2 : Trace) : waiters (τ1 ++ τ2) = waiters τ1 + waiters τ2 :=
  countP_append

theorem pushes_append (τ1 τ2 : Trace) : pushes (τ1 ++ τ2) = pushes τ1 + pushes τ2 :=
  countP_append

/-- A call that has nothing to do with the result list. -/
def Silent (op : Op) : Prop := op.isWait = false ∧ op.isPush = false

/-- Neither a wait nor a result. -/
def NoTraffic (τ : Trace) : Prop := waiters τ = 0 ∧ pushes τ = 0

theorem NoTraffic.append (h1 : NoTraffic τ1) (h2 : NoTraffic τ2) : NoTraffic (τ1 ++ τ2) := by
  rw [NoTraffic, waiters_append, pushes_append, h1.1, h1.2, h2.1, h2.2]
  exact ⟨rfl, rfl⟩

theorem noTraffic_of_silent {α : Type} {p : M α} {sem : Sem Op Resp JobWorkerError Store Choice}
    {s s' : Store} {τ : Trace} {r : Except JobWorkerError α} (h : p.Exec sem s τ r s')
    (hp : p.Calls Silent) : NoTraffic τ := by
  have hcalls := h.calls hp
  constructor
  · exact countP_eq_zero.mpr fun c hc => by simp [(hcalls c hc).1]
  · exact countP_eq_zero.mpr fun c hc => by simp [(hcalls c hc).2]

/-- No call fails, except that a wait may be interrupted. -/
def exceptWaits (g : Fault) : Sem Op Resp JobWorkerError Store Choice :=
  faulty fun op => if op.isWait then g else .none

variable {g : Fault} {s s' : Store} {τ : Trace} {α : Type} {p : M α} {app : App} {job : Job}
  {w : WorkerData} {data : JobData}

section Exec

theorem exceptWaits_eq_reliable (hop : Silent op) (ch : Choice) (s : Store) :
    exceptWaits g ch op s = reliable ch op s := by
  simp only [exceptWaits, reliable, faulty, hop.1]
  rfl

variable {r : Except JobWorkerError α}

theorem exec_clock_le (h : p.Exec (exceptWaits g) s τ r s') : s.clock ≤ s'.clock := by
  refine h.invariant (I := fun t => s.clock ≤ t.clock) (calls_of_forall (fun _ => trivial) p)
    (fun op ch ans t t' (_ : True) hsem ht => ht.trans ?_) (le_refl _)
  have hsem' : sem { ch with fault := if op.isWait then g else .none } op t = some (ans, t') :=
    hsem
  rw [sem_clock hsem']
  exact le_add_of_nonneg_right (Int.natCast_nonneg _)

/-- A program without waits runs as if no call failed. -/
theorem exec_reliable
    (h : p.Exec (exceptWaits g) s τ r s') (hp : p.Calls Silent) : p.Exec reliable s τ r s' :=
  h.congr hp fun _ hop ch s => exceptWaits_eq_reliable hop ch s

theorem exec_silent (hop : Silent op) {r : Answer op}
    (h : (invoke op).Exec (exceptWaits g) s τ r s') :
    ∃ ch : Choice, effect ch op (s.tick ch.tick) = some (r, s') ∧ τ = [⟨op, r, s, s'⟩] :=
  exec_invoke (exec_reliable h (.perform hop))

end Exec

/-- A program that has nothing to do with the result list and never fails. -/
structure Plain {α : Type} (p : M α) : Prop where
  silent : p.Calls Silent
  returns : ∀ g, p.NeverFails (exceptWaits g)

section Plain

variable {β : Type} {f : α → M β}

theorem plain_ret (a : α) : Plain (ret a : M α) := ⟨trivial, fun _ => neverFails_ret a⟩

theorem Plain.bind (hp : Plain p) (hf : ∀ a, Plain (f a)) : Plain (p >>= f) :=
  ⟨hp.silent.bind fun a => (hf a).silent, fun g => (hp.returns g).bind fun a => (hf a).returns g⟩

theorem Plain.when {p : M Unit} (hp : Plain p) : Plain (when c p) :=
  ⟨hp.silent.when, fun g => (hp.returns g).when⟩

theorem Plain.discard (hp : Plain p) : Plain p.discard :=
  ⟨hp.silent.discard, fun g => (hp.returns g).discard⟩

theorem plain_attempt (hp : p.Calls Silent) : Plain p.attempt :=
  ⟨hp.attempt, fun _ => neverFails_attempt p⟩

theorem plain_ignore (hp : p.Calls Silent) : Plain p.ignore :=
  ⟨hp.ignore, fun _ => neverFails_ignore p⟩

theorem plain_invoke (hop : Silent op)
    (heff : ∀ ch s a s', effect ch op s = some (a, s') → ∃ x, a = .ok x) : Plain (invoke op) := by
  refine ⟨.perform hop, fun g s τ r s' h => ?_⟩
  obtain ⟨ch, hcall, -⟩ := exec_silent hop h
  exact heff _ _ _ _ hcall

theorem Plain.neverFails (hp : Plain p) : p.NeverFails reliable := by
  have heq : exceptWaits .none = reliable := by
    unfold exceptWaits reliable
    simp only [ite_self]
  exact heq ▸ hp.returns .none

/-- A plain program is passed without traffic. -/
theorem Plain.exec_bind (hp : Plain p) {g : Fault} {s s' : Store} {τ : Trace}
    {r : Except JobWorkerError β} (h : (p >>= f).Exec (exceptWaits g) s τ r s') :
    ∃ τ1 a s1 τ2, p.Exec reliable s τ1 (.ok a) s1 ∧ NoTraffic τ1 ∧
      (f a).Exec (exceptWaits g) s1 τ2 r s' ∧ τ = τ1 ++ τ2 := by
  obtain ⟨τ1, a, s1, τ2, hexec, hk, rfl⟩ := (hp.returns g).exec_bind h
  exact ⟨τ1, a, s1, τ2, exec_reliable hexec hp.silent, noTraffic_of_silent hexec hp.silent, hk, rfl⟩

end Plain

/-! ### The enqueue path -/

section Enqueue

theorem plain_isRunAfterJobData (app : App) (data : JobData) :
    Plain (isRunAfterJobData app data) := by
  refine (plain_invoke ⟨rfl, rfl⟩ ?_).bind fun _ => plain_ret _
  rintro ch s a s' ⟨⟩
  exact ⟨_, rfl⟩

theorem plain_isRunAfterJob (app : App) (job : Job) : Plain (isRunAfterJob app job) := by
  unfold isRunAfterJob
  split
  · exact plain_isRunAfterJobData app _
  · exact plain_ret _

theorem plain_upsertStatus (app : App) (status : JobProcessingStatus) :
    Plain (upsertStatus app status) := by
  refine (plain_invoke ⟨rfl, rfl⟩ ?_).bind fun record => ?_
  · rintro ch s a s' ⟨⟩
    exact ⟨_, rfl⟩
  · refine (plain_invoke ⟨rfl, rfl⟩ ?_).bind fun existed => ?_
    · rintro ch s a s' ⟨⟩
      exact ⟨_, rfl⟩
    · split <;> exact plain_ret _

theorem plain_addRunAfterJob (job : Job) : Plain (addRunAfterJob job) := by
  have hsilent : Silent (.addRunAfterJob job) := ⟨rfl, rfl⟩
  have hadd : Plain (invoke (.addRunAfterJob job)) := by
    refine plain_invoke hsilent ?_
    rintro ch s a s' ⟨⟩
    exact ⟨_, rfl⟩
  refine ⟨(plain_attempt hadd.silent).silent.bind fun added => by split <;> trivial, ?_⟩
  intro g s τ r s' h
  obtain ⟨τ1, added, s1, τ2, hexec, hrest, -⟩ := exec_attempt_bind h
  obtain ⟨_, rfl⟩ := hadd.returns g _ _ _ _ hexec
  exact ⟨_, hrest.2.1⟩

theorem plain_pushToRedis (app : App) (job : Job) (loadOnly : Bool) :
    Plain (pushToRedis app job loadOnly) := by
  refine (plain_isRunAfterJob app job).bind fun isRunAfter => ?_
  split
  · exact plain_addRunAfterJob job
  · refine plain_invoke ⟨rfl, rfl⟩ ?_
    rintro ch s a s' ⟨⟩
    exact ⟨_, rfl⟩

theorem plain_afterRedisPush (streamingType : StreamingType)
    (publication : PendingStatusPublication) :
    Plain (afterRedisPush app job w streamingType publication) := by
  unfold afterRedisPush
  split
  · exact plain_ret _
  · refine Plain.bind (Plain.when ?_) fun _ =>
      (plain_ignore (Calls.perform ⟨rfl, rfl⟩)).when
    split
    · refine Plain.when (plain_invoke ⟨rfl, rfl⟩ ?_)
      rintro ch s a s' ⟨⟩
      exact ⟨_, rfl⟩
    · exact plain_ret _

/-- Does the caller of an enqueue wait for the result? -/
def waitsForResult (responseType : ℤ) (streamingType : StreamingType) : Bool :=
  responseType = ResponseType.direct.toI32 ∧ streamingType ≠ .internal

variable {streamingType : StreamingType} {r : Except JobWorkerError (Option JobResult)}

theorem waiters_waitIfDirect
    (h : (waitIfDirect responseType streamingType subscribed).Exec (exceptWaits g) s τ r s') :
    waiters τ = (if waitsForResult responseType streamingType then 1 else 0) ∧ pushes τ = 0 := by
  unfold waitIfDirect at h
  split at h
  · rename_i hwaits
    rw [waitsForResult, if_pos (decide_eq_true hwaits)]
    have hone : ∀ {τ s r s'}, (invoke .waitResult).Exec (exceptWaits g) s τ r s' →
        waiters τ = 1 ∧ pushes τ = 0 := by
      intro τ s r s' hwait
      obtain ⟨ch, -, rfl⟩ := exec_perform.mp hwait
      exact ⟨rfl, rfl⟩
    have hwait : ∀ {τ s r s'}, (waitForResultQueueForResponse
        (streamingType = .response && !subscribed)).Exec (exceptWaits g) s τ r s' →
        waiters τ = 1 ∧ pushes τ = 0 := by
      intro τ s r s' h
      have hsubscribe : Plain (invoke .subscribeStream).ignore :=
        plain_ignore (.perform ⟨rfl, rfl⟩)
      obtain ⟨τ1, -, s1, τ2, -, hno, hk, rfl⟩ := hsubscribe.when.exec_bind h
      rw [waiters_append, pushes_append, hno.1, hno.2, (hone hk).1, (hone hk).2]
      exact ⟨rfl, rfl⟩
    rcases exec_bind.mp h with ⟨e, hfail, -⟩ | ⟨τ1, a, s1, τ2, hok, ⟨rfl, -, -⟩, rfl⟩
    · exact hwait hfail
    · rw [append_nil]
      exact hwait hok
  · rename_i hwaits
    obtain ⟨rfl, -, -⟩ := h
    rw [waitsForResult, if_neg (by simpa using hwaits)]
    exact ⟨rfl, rfl⟩

/-- **An enqueue of a Direct job waits for the result once**, except for
Internal streaming; any other enqueue does not. -/
theorem waiters_enqueueToRedis
    (h : (enqueueJobToRedisWithWaitIfNeeded app job w streamingType false publication).Exec
      (exceptWaits g) s τ r s') :
    waiters τ = (if waitsForResult
      (resolveJobParams w (job.data.bind (·.overrides))).responseType streamingType
        then 1 else 0) ∧ pushes τ = 0 := by
  have hsubscribe : Plain (invoke .subscribeStream) := by
    refine plain_invoke ⟨rfl, rfl⟩ ?_
    rintro ch s a s' ⟨⟩
    exact ⟨_, rfl⟩
  obtain ⟨τ1, isRunAfter, s1, ρ1, -, hno1, h1, rfl⟩ := (plain_isRunAfterJob app job).exec_bind h
  obtain ⟨τ2, _, s2, ρ2, -, hno2, h2, rfl⟩ := hsubscribe.when.exec_bind h1
  obtain ⟨τ3, _, s3, ρ3, -, hno3, h3, rfl⟩ :=
    (plain_upsertStatus app .pending).discard.when.exec_bind h2
  obtain ⟨τ4, pushed, s4, ρ4, hpush, hno4, h4, rfl⟩ :=
    (plain_attempt (plain_pushToRedis app job false).silent).exec_bind h3
  -- the push is answered
  obtain ⟨pushed', heq, hpush⟩ := exec_attempt.mp hpush
  obtain rfl := Except.ok.inj heq
  obtain ⟨_, rfl⟩ := (plain_pushToRedis app job false).neverFails _ _ _ _ hpush
  obtain ⟨τ5, _, s5, τ6, -, hno5, h5, rfl⟩ :=
    (plain_afterRedisPush streamingType publication).when.exec_bind h4
  have hbefore := ((((hno1.append hno2).append hno3).append hno4).append hno5)
  have hwait := waiters_waitIfDirect h5
  rw [← hwait.1, ← hwait.2]
  simp only [← append_assoc] at hbefore ⊢
  rw [waiters_append, pushes_append, hbefore.1, hbefore.2, Nat.zero_add, Nat.zero_add]
  exact ⟨rfl, rfl⟩

end Enqueue

/-! ### Re-enqueueing -/

section UpdateJob

/-- The worker `update_job` finds. -/
def foundWorker (data : JobData) (s : Store) : Option WorkerData :=
  data.workerId.bind fun _ => s.worker

/-- The retry does not go to the Redis list: its worker's jobs are rows of the
RDB table, or it is not due within the fetch interval when the clock is read. -/
def StaysOut (app : App) (data : JobData) (s : Store) (τ : Trace) : Prop :=
  ∀ w, foundWorker data s = some w →
    w.periodicInterval ≠ 0 ∨
      (w.queueType ≠ QueueType.normal.toI32 ∧ w.queueType ≠ QueueType.withBackup.toI32) ∨
      ∀ c ∈ τ, c.op = .now → data.runAfterTime > c.post.clock + app.fetchInterval.toNat

theorem silent_findDataByOpt (workerId : Option WorkerId) :
    (findDataByOpt workerId).Calls fun op => Silent op ∧ op ≠ .now :=
  calls_findDataByOpt ⟨⟨rfl, rfl⟩, nofun⟩ workerId

theorem exec_findDataByOpt_reliable {r : Except JobWorkerError (Option WorkerData)}
    (h : (findDataByOpt data.workerId).Exec reliable s τ r s') : r = .ok (foundWorker data s) := by
  unfold findDataByOpt at h
  unfold foundWorker
  split at h
  · rename_i hid
    obtain ⟨ch, heff, -⟩ := exec_invoke h
    cases heff
    rw [hid]
    rfl
  · rename_i hid
    obtain ⟨-, rfl, -⟩ := h
    rw [hid]
    rfl

theorem silent_updateRdbQueue (app : App) (data : JobData) (use : Bool) :
    (updateRdbQueue app data use).Calls fun op => Silent op ∧ op ≠ .now := by
  unfold updateRdbQueue
  split
  · exact (Calls.perform ⟨⟨rfl, rfl⟩, nofun⟩).attempt
  · exact (calls_bestEffortIndex ⟨⟨rfl, rfl⟩, nofun⟩).bind fun _ => by trivial

theorem plain_updateRdbQueue (app : App) (data : JobData) (use : Bool) :
    Plain (updateRdbQueue app data use) := by
  refine ⟨(silent_updateRdbQueue app data use).mono fun _ h => h.1, fun g => ?_⟩
  unfold updateRdbQueue
  split
  · exact neverFails_attempt _
  · exact (neverFails_ignore _).when.bind fun _ => neverFails_ret _

/-- The queue half adds what the publication adds. -/
theorem exec_updateInstantQueue_calls {r : Except JobWorkerError (Except JobWorkerError Bool)}
    (h : (updateInstantQueue publish true).Exec (exceptWaits g) s τ r s') :
    ∃ r', publish.Exec (exceptWaits g) s τ r' s' := by
  obtain ⟨τ1, published, s1, τ2, hpub, hret, rfl⟩ := exec_attempt_bind h
  have hnil : τ2 = [] ∧ s' = s1 := by
    cases published with
    | ok | error => exact ⟨hret.1, hret.2.2⟩
  obtain ⟨rfl, rfl⟩ := hnil
  exact ⟨published, by simpa using hpub⟩

theorem neverFails_updateInstantQueue (publish : M Unit) (use : Bool) :
    (updateInstantQueue publish use).NeverFails (exceptWaits g) := by
  unfold updateInstantQueue
  split
  · refine (neverFails_attempt publish).bind fun published => ?_
    split <;> exact neverFails_ret _
  · exact neverFails_ret _

variable {now : ℤ}

/-- A job that is not published to the Redis list stays out of it. -/
theorem staysOut_of_not_instant (hw : foundWorker data s = some w)
    (huse : useInstantQueue (decide (data.runAfterTime > now + app.fetchInterval.toNat)) w = false)
    (hclock : ∀ c ∈ τ, c.op = .now → c.post.clock = now) : StaysOut app data s τ := by
  intro w' hw'
  obtain rfl := Option.some.inj (hw.symm.trans hw')
  by_cases hperiodic : w.periodicInterval = 0
  · by_cases hnormal : w.queueType = QueueType.normal.toI32 ∨
        w.queueType = QueueType.withBackup.toI32
    · refine .inr (.inr fun c hc hop => ?_)
      rw [hclock c hc hop]
      by_contra hdue
      simp only [useInstantQueue, hperiodic, hdue] at huse
      exact hnormal.elim (fun h => by simp [h] at huse) fun h => by simp [h] at huse
    · exact .inr (.inl (not_or.mp hnormal))
  · exact .inl hperiodic

/-- A job that is published to the Redis list at once does not. -/
theorem not_staysOut_of_instant (hw : foundWorker data s = some w)
    (huse : useInstantQueue (decide (data.runAfterTime > now + app.fetchInterval.toNat)) w = true)
    (hc : c ∈ τ) (hop : c.op = .now) (hclock : c.post.clock = now) : ¬ StaysOut app data s τ := by
  intro hout
  simp only [useInstantQueue, Bool.and_eq_true, Bool.or_eq_true, Bool.not_eq_true',
    decide_eq_true_eq, decide_eq_false_iff_not] at huse
  obtain ⟨⟨hdue, hperiodic⟩, hqueue⟩ := huse
  rcases hout w hw with hne | ⟨hnormal, hbackup⟩ | hlater
  · exact hne hperiodic
  · exact hqueue.elim hnormal hbackup
  · exact hdue (hclock ▸ hlater c hc hop)

/-- **Re-enqueueing a retry adds a waiter** exactly if the retry goes to the
Redis list and is Direct without Internal streaming. -/
theorem waiters_updateJob (hstorage : app.storage = .scalable) (hid : job.id.isSome)
    (hdata : job.data = some data) {r : Except JobWorkerError Unit}
    (h : (updateJob app job).Exec (exceptWaits g) s τ r s') :
    pushes τ = 0 ∧ (StaysOut app data s τ → waiters τ = 0) ∧
      (¬ StaysOut app data s τ → ∃ w, foundWorker data s = some w ∧
        waiters τ = if waitsForResult (resolveJobParams w data.overrides).responseType
          (.ofI32 data.streamingType) then 1 else 0) := by
  obtain ⟨jid, hid⟩ := Option.isSome_iff_exists.mp hid
  unfold updateJob Hybrid.updateJob updateJobWith at h
  rw [hstorage, hid, hdata] at h
  obtain ⟨τ1, isRunAfter, s1, ρ1, hafter, hno1, h1, rfl⟩ :=
    (plain_isRunAfterJobData app data).exec_bind h
  obtain ⟨now, hnow, rfl, hτ1, heq⟩ := exec_isRunAfterJobData hafter fun _ _ => rfl
  obtain rfl := Except.ok.inj heq
  obtain ⟨τ2, found, s2, ρ2, hfound, hno2, h2, rfl⟩ :=
    (plain_attempt ((silent_findDataByOpt data.workerId).mono fun _ h => h.1)).exec_bind h1
  obtain ⟨found', heq, hfound⟩ := exec_attempt.mp hfound
  obtain rfl := Except.ok.inj heq
  have hclock2 := hfound.calls (silent_findDataByOpt data.workerId)
  obtain rfl := exec_findDataByOpt_reliable hfound
  have hworker : foundWorker data { s with clock := now } = foundWorker data s := rfl
  rw [hworker] at h2
  cases hw : foundWorker data s with
  | none =>
    rw [hw] at h2
    obtain ⟨rfl, -, -⟩ := h2
    have hno := hno1.append (hno2.append (⟨rfl, rfl⟩ : NoTraffic []))
    refine ⟨hno.2, fun _ => hno.1, fun hin => absurd ?_ hin⟩
    intro w hw'
    rw [hw] at hw'
    cases hw'
  | some w =>
    rw [hw] at h2
    obtain ⟨τ3, resDb, s3, ρ3, hdb, hno3, h3, rfl⟩ :=
      (plain_updateRdbQueue app data _).exec_bind h2
    have hclock3 := hdb.calls (silent_updateRdbQueue app data _)
    obtain ⟨τ4, resQueue, s4, τ5, hqueue, hend, rfl⟩ :=
      (neverFails_updateInstantQueue _ _).exec_bind h3
    have hnil : τ5 = [] := by
      split at hend
      · exact hend.1
      · exact hend.1
    subst hnil
    cases huse : useInstantQueue
        (decide (data.runAfterTime > now + app.fetchInterval.toNat)) w with
    | false =>
      rw [huse] at hqueue
      obtain ⟨rfl, -, -⟩ := hqueue
      have hno := hno1.append (hno2.append (hno3.append (⟨rfl, rfl⟩ : NoTraffic [])))
      refine ⟨hno.2, fun _ => hno.1, fun hin => absurd ?_ hin⟩
      refine staysOut_of_not_instant hw huse fun c hc hop => ?_
      -- the clock is read once
      simp only [append_nil, mem_append] at hc
      rcases hc with hc | hc | hc
      · rw [hτ1, mem_singleton] at hc
        rw [hc]
      · exact absurd hop (hclock2 c hc).2
      · exact absurd hop (hclock3 c hc).2
    | true =>
      rw [huse] at hqueue
      obtain ⟨r', hpublish⟩ := exec_updateInstantQueue_calls hqueue
      obtain ⟨r'', henqueue⟩ := exec_discard hpublish
      have hwait := waiters_enqueueToRedis henqueue
      rw [hdata] at hwait
      have hno := hno1.append (hno2.append hno3)
      have hin : ¬ StaysOut app data s (τ1 ++ (τ2 ++ (τ3 ++ (τ4 ++ [])))) :=
        not_staysOut_of_instant (c := ⟨.now, .ok now, s, { s with clock := now }⟩) hw huse
          (by simp [hτ1]) rfl rfl
      have hτ : τ1 ++ (τ2 ++ (τ3 ++ (τ4 ++ []))) = (τ1 ++ (τ2 ++ τ3)) ++ τ4 := by simp
      refine ⟨?_, fun hout => absurd hout hin, fun _ => ⟨w, rfl, ?_⟩⟩
      · rw [hτ, pushes_append, hno.2, hwait.2]
      · rw [hτ, waiters_append, hno.1, hwait.1, Nat.zero_add]
        rfl

end UpdateJob

/-! ### The last attempt -/

section Complete

variable {dat : JobResultData}

theorem silent_cleanupJob (app : App) : (cleanupJob app).Calls Silent := by
  refine (calls_cleanupJob app).mono fun op h => ?_
  cases op <;> first | exact h.elim | exact ⟨rfl, rfl⟩

theorem silent_finishCompletion (app : App) (dat : JobResultData) (stream : Bool) :
    (finishCompletion app dat stream).Calls Silent := by
  unfold finishCompletion
  split
  · exact .perform ⟨rfl, rfl⟩
  · exact Calls.bind (Calls.when (.perform ⟨rfl, rfl⟩)) fun _ => silent_cleanupJob app

theorem silent_publishResult (id : JobResultId) (dat : JobResultData) (toListen : Bool) :
    (publishResult id dat toListen).Calls Silent := by
  unfold publishResult
  split
  · trivial
  · exact .perform ⟨rfl, rfl⟩

theorem pushes_completeJob (hstorage : app.storage = .scalable) (hid : dat.jobId.isSome)
    (hdirect : dat.responseType = ResponseType.direct.toI32) {id : JobResultId} {stream : Bool}
    {r : Except JobWorkerError Bool}
    (h : (completeJob app id dat stream).Exec (exceptWaits g) s τ r s') :
    waiters τ = 0 ∧ pushes τ = 1 := by
  obtain ⟨jid, hid⟩ := Option.isSome_iff_exists.mp hid
  unfold completeJob Hybrid.completeJob at h
  rw [hstorage, hid, hdirect] at h
  obtain ⟨τ1, res, s1, τ2, hpush, hrest, rfl⟩ := exec_attempt_bind h
  obtain ⟨ch, -, rfl⟩ := exec_perform.mp hpush
  have hno : NoTraffic τ2 := by
    refine noTraffic_of_silent hrest ((silent_publishResult id dat true).ignore.bind fun _ => ?_)
    refine (silent_finishCompletion app dat stream).bind fun _ => ?_
    split <;> trivial
  rw [waiters_append, pushes_append, hno.1, hno.2]
  exact ⟨rfl, rfl⟩

theorem silent_of_asks (h : op.asks) : Silent op := by
  cases op <;> first | exact ⟨rfl, rfl⟩ | cases h

variable {req : EnqueueRequest}

/-- A Direct job with a start time is refused. -/
theorem prepareJob_direct (hafter : req.runAfterTime > 0)
    (hdirect : (resolveJobParams w req.overrides).responseType = ResponseType.direct.toI32)
    (wid : WorkerId) : ∃ e, prepareJob app wid w req = invoke .now >>= fun _ => fail e := by
  unfold prepareJob
  simp only [if_pos (⟨hafter, hdirect⟩ : req.runAfterTime > 0 ∧ _)]
  exact ⟨_, rfl⟩

theorem silent_enqueueJob (hstorage : app.storage = .scalable) (hafter : req.runAfterTime > 0)
    (hdirect : ∀ w, (resolveJobParams w req.overrides).responseType = ResponseType.direct.toI32)
    (workerId : Option WorkerId) : (enqueueJob app workerId req).Calls Silent := by
  unfold enqueueJob Hybrid.enqueueJob
  rw [hstorage]
  dsimp only
  split
  · trivial
  · refine Calls.bind (.perform ⟨rfl, rfl⟩) fun worker => ?_
    split
    · trivial
    · rename_i w
      refine ((calls_checkWorkerStreaming _).mono fun _ => silent_of_asks).bind fun _ => Calls.bind ?_ fun _ => ?_
      · unfold validateResponseQueueType
        split <;> trivial
      · obtain ⟨e, hprepare⟩ := prepareJob_direct hafter (hdirect w) _
        rw [hprepare, bind_assoc']
        exact Calls.bind (.perform ⟨rfl, rfl⟩) fun _ => by trivial

/-- The next occurrence of a Direct job is never enqueued. -/
theorem noTraffic_enqueueNextOccurrence (hstorage : app.storage = .scalable)
    (hdirect : dat.responseType = ResponseType.direct.toI32) (hclock : 0 < s.clock)
    {metadata : Metadata} {r : Except JobWorkerError Unit}
    (h : (enqueueNextOccurrence app dat w metadata).Exec (exceptWaits g) s τ r s') :
    NoTraffic τ := by
  unfold enqueueNextOccurrence at h
  split at h
  · obtain ⟨rfl, -, -⟩ := h
    exact ⟨rfl, rfl⟩
  · rename_i hperiodic
    have hnow : Plain (invoke .now) := by
      refine plain_invoke ⟨rfl, rfl⟩ ?_
      rintro ch s a s' ⟨⟩
      exact ⟨_, rfl⟩
    obtain ⟨τ1, now, s1, τ2, hexec, hno, hk, rfl⟩ := hnow.exec_bind h
    refine hno.append ?_
    obtain ⟨ch, heff, -⟩ := exec_invoke hexec
    cases heff
    unfold buildNextPeriodicJob at hk
    rw [if_neg hperiodic] at hk
    refine noTraffic_of_silent hk (Calls.discard (silent_enqueueJob hstorage ?_ ?_ _))
    swap
    · exact fun _ => hdirect
    -- an occurrence is never scheduled in the past
    have hpos : (0 : ℤ) < w.periodicInterval.toNat := by
      have hne : w.periodicInterval.toNat ≠ 0 := fun h => hperiodic (UInt32.toNat_inj.mp h)
      omega
    have htick : s.clock ≤ (s.tick ch.tick).clock :=
      le_add_of_nonneg_right (Int.natCast_nonneg _)
    exact lt_of_lt_of_le hclock (htick.trans (le_calcNextRunAfterTime hpos))

end Complete

/-! ### Chains of attempts -/

/-- One attempt of a job: what was dispatched and how the run ended, the store
when the result is processed, and the calls that processing it makes. -/
structure Attempt where
  data : JobData
  worker : WorkerData
  id : JobResultId
  outcome : RunOutcome
  stream : Bool
  store : Store
  calls : Trace

/-- The result of the attempt. -/
def Attempt.result (jid : JobId) (a : Attempt) : JobResultData :=
  (buildJobResult a.id ⟨some jid, some a.data, []⟩ a.data a.worker a.outcome).data.getD default

/-- The retry that is built from the result. -/
def Attempt.retryJob (app : App) (jid : JobId) (a : Attempt) : Option Job :=
  buildRetryJob app.expo (a.result jid) a.worker a.outcome.metadata

/-- The calls are those of the result processor. -/
def Attempt.Processed (app : App) (g : Fault) (jid : JobId) (a : Attempt) : Prop :=
  ∃ r s', (processCompleteOrRetryCondition app a.id (a.result jid) a.stream a.worker
    a.outcome.metadata).Exec (exceptWaits g) a.store a.calls r s'

/-- The attempts of a job from `a` on: a retried one is re-enqueued under the
live record and the retry is dispatched next, with whatever lease; the last one
has no retry. -/
inductive RetryChain (app : App) (g : Fault) (jid : JobId) : Attempt → List Attempt → Prop
  | last {a : Attempt} (hprocessed : a.Processed app g jid) (hlast : a.retryJob app jid = none)
      (hclock : 0 < a.store.clock) : RetryChain app g jid a [a]
  | retried {a b : Attempt} {j : Job} {data : JobData} {lease : Option ℤ} {rest : List Attempt}
      (hprocessed : a.Processed app g jid) (hj : a.retryJob app jid = some j)
      (hcurrent : AttemptCurrent (a.result jid) a.store) (hdata : j.data = some data)
      (hb : b.data = { data with grabbedUntilTime := lease })
      (hrest : RetryChain app g jid b rest) : RetryChain app g jid a (a :: rest)

/-- The retry of the attempt, if there is one, does not go to the Redis list. -/
def Attempt.StaysOut (app : App) (jid : JobId) (a : Attempt) : Prop :=
  ∀ j data, a.retryJob app jid = some j → j.data = some data →
    Jobworkerp.StaysOut app data a.store a.calls

section Chain

variable {jid : JobId} {a : Attempt} {j : Job}

/-- The response type the attempt ran under. -/
def Attempt.IsDirect (a : Attempt) : Prop :=
  (resolveJobParams a.worker a.data.overrides).responseType = ResponseType.direct.toI32

/-- A retry keeps the streaming type and the response type. -/
theorem retryJob_data (hj : a.retryJob app jid = some j) (hdata : j.data = some data) :
    j.id = some jid ∧ data.streamingType = a.data.streamingType ∧
      ∀ w, (resolveJobParams w data.overrides).responseType =
        (resolveJobParams a.worker a.data.overrides).responseType := by
  obtain ⟨-, policy, -, -, d, rfl, -, -, -, -, hstreaming, hoverrides⟩ := buildRetryJob_eq_some hj
  obtain rfl := Option.some.inj hdata
  refine ⟨rfl, hstreaming, fun w => ?_⟩
  rw [hoverrides]
  rfl

theorem silent_transition (dat : JobResultData) (j : Job) :
    (transitionRetryToPendingOrCancel app dat j).Calls fun op =>
      Silent op ∧ op ≠ .now ∧ op.table ≠ .worker := by
  unfold transitionRetryToPendingOrCancel
  split
  · refine Calls.bind (calls_findStatusRecord ⟨⟨rfl, rfl⟩, nofun, nofun⟩) fun record => ?_
    split
    · trivial
    · split
      · trivial
      · trivial
      · refine Calls.bind (calls_compareAndSetStatus ⟨⟨rfl, rfl⟩, nofun, nofun⟩
          ⟨⟨rfl, rfl⟩, nofun, nofun⟩ ⟨⟨rfl, rfl⟩, nofun, nofun⟩) fun result => ?_
        split
        · trivial
        · split <;> trivial
        · trivial
  · trivial

/-- What precedes `update_job` does not matter for where the retry goes. -/
theorem staysOut_append (hworker : s2.worker = s1.worker) (hclock : ∀ c ∈ τ1, c.op ≠ .now) :
    Jobworkerp.StaysOut app data s1 (τ1 ++ τ2) ↔ Jobworkerp.StaysOut app data s2 τ2 := by
  have hfound : foundWorker data s2 = foundWorker data s1 := by
    unfold foundWorker
    rw [hworker]
  unfold Jobworkerp.StaysOut
  rw [hfound]
  refine forall₂_congr fun w _ => or_congr_right (or_congr_right ⟨fun h c hc => ?_, fun h c hc => ?_⟩)
  · exact h c (mem_append_right _ hc)
  · rcases mem_append.mp hc with hc | hc
    · exact fun hop => absurd hop (hclock c hc)
    · exact h c hc

section

variable (hstorage : app.storage = .scalable) (hdirect : a.IsDirect)

include hstorage hdirect

/-- A retried attempt pushes no result, and adds a waiter unless its retry
stays out of the Redis list or the job streams internally. -/
theorem waiters_of_retried (hprocessed : a.Processed app g jid) (hj : a.retryJob app jid = some j)
    (hcurrent : AttemptCurrent (a.result jid) a.store) (hdata : j.data = some data) :
    pushes a.calls = 0 ∧ (Jobworkerp.StaysOut app data a.store a.calls → waiters a.calls = 0) ∧
      (¬ Jobworkerp.StaysOut app data a.store a.calls → waiters a.calls =
        if StreamingType.ofI32 a.data.streamingType = .internal then 0 else 1) := by
  obtain ⟨hjid, hstreaming, hresponse⟩ := retryJob_data hj hdata
  obtain ⟨r, s', h⟩ := hprocessed
  unfold processCompleteOrRetryCondition at h
  rw [show buildRetryJob _ _ _ _ = some j from hj] at h
  obtain ⟨τ1, decision, s1, τ2, htransition, hno, hrest, hcalls⟩ :=
    (plain_attempt ((silent_transition _ j).mono fun _ h => h.1)).exec_bind h
  obtain ⟨decision', heq, htransition⟩ := exec_attempt.mp htransition
  obtain rfl := Except.ok.inj heq
  obtain rfl := (exec_transition hj rfl htransition).1 hcurrent
  have hworker : s1.worker = a.store.worker := by
    refine htransition.invariant (I := fun t => t.worker = a.store.worker)
      (silent_transition _ j) (fun op ch ans s s' hop hsem hs => ?_) rfl
    have hsem' : sem { ch with fault := .none } op s = some (ans, s') := hsem
    exact (sem_worker hsem' hop.2.2).trans hs
  have hclock : ∀ c ∈ τ1, c.op ≠ .now := fun c hc =>
    (htransition.calls (silent_transition _ j) c hc).2.1
  -- what is left is the re-enqueue
  obtain ⟨τ3, updated, s2, τ4, hupdate, ⟨rfl, -, -⟩, rfl⟩ := exec_attempt_bind hrest
  have hcount := waiters_updateJob hstorage (by rw [hjid]; rfl) hdata hupdate
  rw [append_nil] at hcalls
  rw [hcalls, staysOut_append hworker hclock, waiters_append, pushes_append, hno.1, hno.2,
    Nat.zero_add, Nat.zero_add]
  refine ⟨hcount.1, hcount.2.1, fun hin => ?_⟩
  obtain ⟨w, -, hwaiters⟩ := hcount.2.2 hin
  rw [hwaiters, hresponse w, hstreaming, hdirect]
  by_cases hinternal : StreamingType.ofI32 a.data.streamingType = .internal
  · simp [waitsForResult, hinternal]
  · simp [waitsForResult, hinternal]

/-- The last attempt pushes one result, and nobody waits in it. -/
theorem pushes_of_last (hprocessed : a.Processed app g jid) (hlast : a.retryJob app jid = none)
    (hclock : 0 < a.store.clock) : waiters a.calls = 0 ∧ pushes a.calls = 1 := by
  have hresult : (a.result jid).responseType = ResponseType.direct.toI32 := hdirect
  obtain ⟨r, s', h⟩ := hprocessed
  unfold processCompleteOrRetryCondition at h
  rw [show buildRetryJob _ _ _ _ = none from hlast] at h
  obtain ⟨τ1, _, s0, _, hcomplete, ⟨rfl, -, -⟩, hcalls⟩ := exec_attempt_bind h
  rw [hcalls, append_nil]
  obtain ⟨τ2, completed, s1, τ3, hpush, hrest, rfl⟩ := exec_attempt_bind hcomplete
  have hcount := pushes_completeJob hstorage (by rfl) hresult hpush
  have hclock1 : 0 < s1.clock := lt_of_lt_of_le hclock (exec_clock_le hpush)
  have hno : NoTraffic τ3 := by
    rcases exec_bind.mp hrest with ⟨e, hnext, -⟩ | ⟨τ4, u, s2, τ5, hnext, hend, rfl⟩
    · exact noTraffic_enqueueNextOccurrence hstorage hresult hclock1 hnext
    · refine (noTraffic_enqueueNextOccurrence hstorage hresult hclock1 hnext).append ?_
      refine noTraffic_of_silent hend (Calls.bind (.when (Calls.perform ⟨rfl, rfl⟩).ignore) ?_)
      intro _
      split <;> trivial
  rw [waiters_append, pushes_append, hcount.1, hcount.2, hno.1, hno.2]
  exact ⟨rfl, rfl⟩

theorem counts_of_chain
    (h : RetryChain app g jid a attempts) : (attempts.map fun b => pushes b.calls).sum = 1 ∧
      (StreamingType.ofI32 a.data.streamingType = .internal →
        (attempts.map fun b => waiters b.calls).sum = 0) ∧
      (StreamingType.ofI32 a.data.streamingType ≠ .internal →
        ((attempts.map fun b => waiters b.calls).sum = 0 ↔
          ∀ b ∈ attempts, b.StaysOut app jid)) := by
  induction h with
  | @last a hprocessed hlast hclock =>
    obtain ⟨hwaiters, hpushes⟩ := pushes_of_last hstorage hdirect hprocessed hlast hclock
    simp [hwaiters, hpushes, Attempt.StaysOut, hlast]
  | @retried a b j data lease rest hprocessed hj hcurrent hdata hb hrest ih =>
    obtain ⟨hpushes, hout, hin⟩ :=
      waiters_of_retried hstorage hdirect hprocessed hj hcurrent hdata
    obtain ⟨-, hstreaming, hresponse⟩ := retryJob_data hj hdata
    have hb' : b.data.streamingType = a.data.streamingType := by
      rw [hb]
      exact hstreaming
    have hdirect' : b.IsDirect := by
      unfold Attempt.IsDirect
      rw [hb]
      exact (hresponse b.worker).trans hdirect
    obtain ⟨ihp, ihi, ihn⟩ := ih hdirect'
    rw [hb'] at ihi ihn
    have hstays : a.StaysOut app jid ↔ Jobworkerp.StaysOut app data a.store a.calls := by
      refine ⟨fun h => h j data hj hdata, fun h j' data' hj' hdata' => ?_⟩
      obtain rfl := Option.some.inj (hj.symm.trans hj')
      obtain rfl := Option.some.inj (hdata.symm.trans hdata')
      exact h
    simp only [map_cons, sum_cons, forall_mem_cons, hpushes, ihp, Nat.zero_add,
      true_and]
    refine ⟨fun hinternal => ?_, fun hne => ?_⟩
    · rw [ihi hinternal, Nat.add_zero]
      by_cases hs : Jobworkerp.StaysOut app data a.store a.calls
      · exact hout hs
      · rw [hin hs, if_pos hinternal]
    · rw [Nat.add_eq_zero_iff, ihn hne, hstays]
      refine and_congr_left fun _ => ⟨fun hzero => ?_, hout⟩
      by_contra hs
      rw [hin hs, if_neg hne] at hzero
      cases hzero

end

/-- **One waiter per Direct result, as long as no retry goes to the Redis list.**
In the Redis application, for every Direct job and every chain of retried
attempts, with any retry policy and any intervals: the client and the attempts
together wait for at most as many results as are pushed if and only if the job
streams internally or `update_job` keeps every retry out of the Redis list. -/
theorem directChain_waiters_le_iff (hstorage : app.storage = .scalable)
    {attempts : List Attempt} (hchain : RetryChain app g jid a attempts) (hdirect : a.IsDirect)
    {metadata : Metadata} {s s' : Store} {client : Trace}
    {r : Except JobWorkerError (Option JobResult)}
    (hclient : (enqueueJobToRedisWithWaitIfNeeded app ⟨some jid, some a.data, metadata⟩ a.worker
      (.ofI32 a.data.streamingType) false .newEnqueue).Exec (exceptWaits g) s client r s') :
    waiters client + (attempts.map fun b => waiters b.calls).sum ≤
        pushes client + (attempts.map fun b => pushes b.calls).sum ↔
      StreamingType.ofI32 a.data.streamingType = .internal ∨
        ∀ b ∈ attempts, b.StaysOut app jid := by
  obtain ⟨hpushes, hinternal, hother⟩ := counts_of_chain hstorage hdirect hchain
  obtain ⟨hwait, hnone⟩ := waiters_enqueueToRedis hclient
  have hresponse : (resolveJobParams a.worker ((some a.data).bind (·.overrides))).responseType =
      ResponseType.direct.toI32 := hdirect
  rw [hresponse] at hwait
  by_cases hstreaming : StreamingType.ofI32 a.data.streamingType = .internal
  · simp [hinternal hstreaming, hwait, waitsForResult, hstreaming]
  · have hone : waiters client = 1 := by simp [hwait, waitsForResult, hstreaming]
    rw [hone, ← hother hstreaming]
    simp only [hstreaming, false_or]
    omega

end Chain

/-! A Direct job that fails once and is retried at once. -/

def redisApp : App := { (default : App) with storage := .scalable }

/-- A worker of the Redis list with Direct results and one retry. -/
def directWorker : WorkerData :=
  { (default : WorkerData) with
    responseType := ResponseType.direct.toI32
    retryPolicy := some { (default : RetryPolicy) with
      type := RetryType.constant.toI32, maxRetry := 1 } }

def directStore (retried : UInt32) : Store :=
  { (default : Store) with
    jobId := ⟨1⟩
    clock := 1
    live := some ⟨.running, retried⟩
    worker := some directWorker }

/-- An attempt with the calls that processing its result makes when every wait
is interrupted. -/
def processed (a : Attempt) : Attempt :=
  { a with calls := (((processCompleteOrRetryCondition redisApp a.id (a.result ⟨1⟩) a.stream
      a.worker a.outcome.metadata).runWith (exceptWaits .refused) default a.store).map
        (·.1)).getD [] }

def failedAttempt (streamingType : StreamingType) : Attempt :=
  processed
    { data := { (default : JobData) with
        workerId := some ⟨1⟩, streamingType := streamingType.toI32 }
      worker := directWorker
      id := ⟨1⟩
      outcome := { (default : RunOutcome) with status := .errorAndRetry }
      stream := false
      store := directStore 0
      calls := [] }

/-- The retry of the failed attempt, as it is dispatched. -/
def retryData (streamingType : StreamingType) : JobData :=
  (((failedAttempt streamingType).retryJob redisApp ⟨1⟩).bind (·.data)).getD default

def finalAttempt (streamingType : StreamingType) : Attempt :=
  processed
    { data := retryData streamingType
      worker := directWorker
      id := ⟨2⟩
      outcome := default
      stream := false
      store := directStore 1
      calls := [] }

def clientProgram (streamingType : StreamingType) : M (Option JobResult) :=
  enqueueJobToRedisWithWaitIfNeeded redisApp
    ⟨some ⟨1⟩, some (failedAttempt streamingType).data, []⟩ directWorker streamingType false
    .newEnqueue

def clientCalls (streamingType : StreamingType) : Trace :=
  (((clientProgram streamingType).runWith (exceptWaits .refused) default
    { directStore 0 with live := none }).map (·.1)).getD []

theorem retryChain_once (streamingType : StreamingType) :
    RetryChain redisApp .refused ⟨1⟩ (failedAttempt streamingType)
      [failedAttempt streamingType, finalAttempt streamingType] := by
  have hlast : RetryChain redisApp .refused ⟨1⟩ (finalAttempt streamingType)
      [finalAttempt streamingType] := by
    cases streamingType <;>
      exact .last ⟨_, _, exec_of_runWith default rfl⟩ rfl (by decide)
  have hdata : (finalAttempt streamingType).data =
      { retryData streamingType with grabbedUntilTime := none } := by
    cases streamingType <;> rfl
  cases streamingType <;>
    exact .retried ⟨_, _, exec_of_runWith default rfl⟩ rfl ⟨.running, by decide, rfl⟩ rfl hdata hlast

/-- **A retry from the worker adds a waiter**: the client and the worker wait,
and one result is pushed. -/
theorem instantRetry_two_waiters :
    ∃ r s', RetryChain redisApp .refused ⟨1⟩ (failedAttempt .none)
        [failedAttempt .none, finalAttempt .none] ∧ (failedAttempt .none).IsDirect ∧
      (clientProgram .none).Exec (exceptWaits .refused) { directStore 0 with live := none }
        (clientCalls .none) r s' ∧
      waiters (clientCalls .none) = 1 ∧ waiters (failedAttempt .none).calls = 1 ∧
      pushes (clientCalls .none) = 0 ∧ pushes (failedAttempt .none).calls = 0 ∧
      pushes (finalAttempt .none).calls = 1 :=
  ⟨_, _, retryChain_once .none, rfl, exec_of_runWith default rfl, rfl, rfl, rfl, rfl, rfl⟩

/-- With Internal streaming nobody waits. -/
theorem internalRetry_waiters_le :
    waiters (clientCalls .internal) + ([failedAttempt .internal, finalAttempt .internal].map
        fun b => waiters b.calls).sum ≤
      pushes (clientCalls .internal) + ([failedAttempt .internal, finalAttempt .internal].map
        fun b => pushes b.calls).sum := by
  have hclient : (clientProgram .internal).Exec (exceptWaits .refused)
      { directStore 0 with live := none } (clientCalls .internal) _ _ :=
    exec_of_runWith default rfl
  exact (directChain_waiters_le_iff rfl (retryChain_once .internal) rfl hclient).mpr (.inl rfl)

end Jobworkerp
