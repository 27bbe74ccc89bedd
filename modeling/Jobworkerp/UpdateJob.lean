/-
Jobworkerp/UpdateJob.lean

What `update_job` stores, and what it reports.

`update_job` writes the row of the RDB table, publishes to the queue, or both,
and merges the two results with `Result::or`: a half that was not used counts
as a success, so the failure of the other half is lost.

The failures of the calls are an argument `f` here: `f op` says how the call
`op` fails, if it does.

* `exec_updateJob`: what `update_job` leaves in the RDB table and in the queue,
  whatever it reports.
* `updateJob_stored_iff`: when it reports success, the job is stored in the
  queue its dispatcher reads exactly if the call that stores it there was
  carried out.
-/
import Jobworkerp.LiveRecord
import Jobworkerp.Interleaving.Exec

namespace Jobworkerp

open Interleaving Prog

/-- The calls of an execution. -/
abbrev Trace := List (Call Op Resp JobWorkerError Store)

/-! ### Calls with given failures -/

/-- Was the call carried out? -/
def Fault.carriedOut : Fault → Bool
  | .none => true
  | .refused => false
  | .unanswered carriedOut => carriedOut

variable {f : Op → Fault} {s s' : Store} {τ : List (Call Op Resp JobWorkerError Store)} {app : App}
  {data : JobData} {job : Job} {w : WorkerData}

section Faulty

variable {ch : Choice} {op : Op} {a : Answer op}

/-- A call that never blocks has its effect if it is carried out, and answers
if it does not fail. -/
theorem faulty_cases (g : Store → Answer op × Store) (hop : op.infallible = false)
    (heff : ∀ ch s, effect ch op s = some (g s)) (h : faulty f ch op s = some (a, s')) :
    s' = (if (f op).carriedOut then (g (s.tick ch.tick)).2 else s.tick ch.tick) ∧
      (f op = .none → a = (g (s.tick ch.tick)).1) ∧ (f op ≠ .none → ∃ e, a = .error e) := by
  simp only [faulty, sem, hop, heff] at h
  cases hf : f op with
  | none =>
    rw [hf] at h
    have hg : g (s.tick ch.tick) = (a, s') := Option.some.inj h
    rw [hg]
    exact ⟨rfl, fun _ => rfl, fun hne => absurd rfl hne⟩
  | refused =>
    rw [hf] at h
    cases h
    exact ⟨rfl, by rintro ⟨⟩, fun _ => ⟨_, rfl⟩⟩
  | unanswered carriedOut =>
    rw [hf] at h
    cases h
    exact ⟨rfl, by rintro ⟨⟩, fun _ => ⟨_, rfl⟩⟩

/-- A call that leaves the job's row and its queue alone. -/
def KeepsQueues (op : Op) : Prop :=
  ∀ ch a (s s' : Store), sem ch op s = some (a, s') → s'.row = s.row ∧ s'.queue = s.queue

theorem keepsQueues_of_outside (hop : op.table = .outside) : KeepsQueues op := by
  intro ch a s s' h
  rw [sem_outside h hop]
  exact ⟨rfl, rfl⟩

theorem keepsQueues_of_index (hop : op.table = .index) : KeepsQueues op := by
  intro ch a s s' h
  have hframe := sem_frame h
  rw [hop] at hframe
  obtain ⟨i, rfl⟩ := hframe
  exact ⟨rfl, rfl⟩

theorem keepsQueues_waitResult : KeepsQueues .waitResult := by
  intro ch a s s' h
  obtain ⟨r, p, rfl⟩ := sem_frame h
  exact ⟨rfl, rfl⟩

theorem keepsQueues_createKey (data : JobData) : KeepsQueues (.createKey data) := by
  intro ch a s s' h
  obtain heff | ⟨-, rfl | ⟨a', heff⟩⟩ := sem_cases h
  · cases heff
    exact ⟨rfl, rfl⟩
  · exact ⟨rfl, rfl⟩
  · cases heff
    exact ⟨rfl, rfl⟩

end Faulty

section Exec

variable {α : Type} {p : M α}

/-- What a program that leaves the queues alone leaves of them; and time passes. -/
theorem Exec.keepsQueues {r : Except JobWorkerError α} (h : p.Exec (faulty f) s τ r s')
    (hp : p.Calls KeepsQueues) : s'.row = s.row ∧ s'.queue = s.queue ∧ s.clock ≤ s'.clock := by
  refine h.invariant (I := fun t => t.row = s.row ∧ t.queue = s.queue ∧ s.clock ≤ t.clock) hp
    (fun op ch ans t t' hop hsem ht => ?_) ⟨rfl, rfl, le_refl _⟩
  obtain ⟨hrow, hqueue⟩ := hop _ _ _ _ hsem
  refine ⟨hrow.trans ht.1, hqueue.trans ht.2.1, ht.2.2.trans ?_⟩
  rw [sem_clock hsem]
  exact le_add_of_nonneg_right (Int.natCast_nonneg _)

variable {S : Sem Op Resp JobWorkerError Store Choice} {r : Except JobWorkerError Bool}

/-- A write to the index never fails. -/
theorem exec_bestEffortIndex {r : Except JobWorkerError Unit}
    (h : (bestEffortIndex app op).Exec S s τ r s') : r = .ok () := by
  unfold bestEffortIndex at h
  cases hindexing : app.indexing with
  | false =>
    rw [hindexing] at h
    exact h.2.1
  | true =>
    rw [hindexing] at h
    exact (exec_ignore.mp h).1

theorem exec_isRunAfterJobData (h : (isRunAfterJobData app data).Exec S s τ r s')
    (hS : ∀ ch s, S ch .now s = sem ch .now s) :
    ∃ now, s.clock ≤ now ∧ s' = { s with clock := now } ∧
      τ = [⟨.now, .ok now, s, s'⟩] ∧
      r = .ok (decide (data.runAfterTime > now + app.fetchInterval.toNat)) := by
  rcases exec_bind.mp h with ⟨e, hnow, -⟩ | ⟨τ1, now, s₁, τ2, hnow, hret, rfl⟩
  · obtain ⟨ch, hsem, -⟩ := exec_perform.mp hnow
    rw [hS] at hsem
    cases hsem
  · obtain ⟨ch, hsem, rfl⟩ := exec_perform.mp hnow
    obtain ⟨rfl, rfl, rfl⟩ := hret
    rw [hS] at hsem
    cases hsem
    exact ⟨_, le_add_of_nonneg_right (Int.natCast_nonneg _), rfl, rfl, rfl⟩

theorem exec_isRunAfterJob (hdata : job.data = some data)
    (hinstant : data.runAfterTime ≤ s.clock + app.fetchInterval.toNat)
    (h : (isRunAfterJob app job).Exec (faulty f) s τ r s') :
    r = .ok false ∧ s'.row = s.row ∧ s'.queue = s.queue ∧ s.clock ≤ s'.clock := by
  unfold isRunAfterJob at h
  rw [hdata] at h
  obtain ⟨now, hnow, rfl, -, rfl⟩ := exec_isRunAfterJobData h fun _ _ => rfl
  refine ⟨?_, rfl, rfl, hnow⟩
  rw [decide_eq_false (by linarith)]

end Exec

/-! ### The queue publication of a retry -/

section Publish

variable {r : Except JobWorkerError Unit}

theorem exec_pushJob
    (h : (invoke (.pushJob payload)).Exec (faulty f) s τ r s') : s'.row = s.row ∧ s'.queue =
      if (f (.pushJob payload)).carriedOut then s.queue ++ [payload] else s.queue := by
  obtain ⟨ch, hsem, -⟩ := exec_perform.mp h
  obtain ⟨rfl, -⟩ := faulty_cases
    (fun s => (.ok (), { s with queue := s.queue ++ [payload] })) rfl (fun _ _ => rfl) hsem
  split <;> exact ⟨rfl, rfl⟩

/-- Is the subscription that precedes the push needed, and did it fail? -/
def subscriptionFails (f : Op → Fault) (w : WorkerData) (data : JobData)
    (streamingType : StreamingType) : Bool :=
  shouldSubscribeResultStreamBeforeEnqueue false (resolveJobParams w data.overrides).responseType
    streamingType false w && f .subscribeStream ≠ .none

theorem exec_subscribe (h : (when c (invoke .subscribeStream)).Exec (faulty f) s τ r s') :
    (c && f .subscribeStream ≠ .none) = true ∧ (∃ e, r = .error e) ∨
      (c && f .subscribeStream ≠ .none) = false ∧ r = .ok () := by
  cases c with
  | false =>
    obtain ⟨-, rfl, -⟩ := h
    exact .inr ⟨rfl, rfl⟩
  | true =>
    obtain ⟨ch, hsem, -⟩ := exec_perform.mp h
    obtain ⟨-, hok, herr⟩ :=
      faulty_cases (fun s => (.ok (), s)) rfl (fun _ _ => rfl) hsem
    by_cases hf : f .subscribeStream = .none
    · exact .inr ⟨by simp [hf], hok hf⟩
    · exact .inl ⟨by simp [hf], herr hf⟩

/-- What follows the push of a retry leaves the queues alone. -/
theorem calls_settleFailedRedisEnqueue (jobId : Option JobId) (error : JobWorkerError) :
    (settleFailedRedisEnqueue jobId error false).Calls KeepsQueues := by
  unfold settleFailedRedisEnqueue
  split <;> trivial

section

variable (hdata : job.data = some data)
  (hinstant : data.runAfterTime ≤ s.clock + app.fetchInterval.toNat)

include hdata hinstant

/-- The push itself: an instant job goes to the list, not to the run-after set. -/
theorem exec_pushToRedis
    (h : (pushToRedis app job false).Exec (faulty f) s τ r s') : s'.row = s.row ∧ s'.queue =
      if (f (.pushJob ⟨job, false⟩)).carriedOut then s.queue ++ [⟨job, false⟩] else s.queue := by
  rcases exec_bind.mp h with ⟨e, hafter, -⟩ | ⟨τ1, isRunAfter, s₁, τ2, hafter, hpush, -⟩
  · cases (exec_isRunAfterJob hdata hinstant hafter).1
  obtain ⟨hfalse, hrow1, hqueue1, -⟩ := exec_isRunAfterJob hdata hinstant hafter
  obtain rfl := Except.ok.inj hfalse
  obtain ⟨hrow2, hqueue2⟩ := exec_pushJob hpush
  rw [hrow2, hqueue2, hrow1, hqueue1]
  exact ⟨rfl, rfl⟩

theorem exec_enqueueToRedis
    {r : Except JobWorkerError (Option JobResult)}
    (h : (enqueueJobToRedisWithWaitIfNeeded app job w streamingType false .retry).Exec
      (faulty f) s τ r s') : s'.row = s.row ∧ s'.queue =
      if !subscriptionFails f w data streamingType && (f (.pushJob ⟨job, false⟩)).carriedOut
      then s.queue ++ [⟨job, false⟩] else s.queue := by
  rcases exec_bind.mp h with ⟨e, hafter, -⟩ | ⟨τ1, isRunAfter, s₁, τ2, hafter, h, -⟩
  · cases (exec_isRunAfterJob hdata hinstant hafter).1
  obtain ⟨hfalse, hrow1, hqueue1, hclock1⟩ := exec_isRunAfterJob hdata hinstant hafter
  obtain rfl := Except.ok.inj hfalse
  rw [hdata] at h
  -- the subscription, when there is one, touches nothing
  rcases exec_bind.mp h with ⟨e, hsub, -⟩ | ⟨τ3, u, s2, τ4, hsub, h, -⟩
  · have hfails : subscriptionFails f w data streamingType = true := by
      rcases exec_subscribe hsub with ⟨hfails, -⟩ | ⟨-, hbad⟩
      · exact hfails
      · cases hbad
    obtain ⟨hrow2, hqueue2, -⟩ :=
      Exec.keepsQueues hsub (Calls.perform (keepsQueues_of_outside rfl)).when
    rw [hfails, hrow2, hqueue2, hrow1, hqueue1]
    exact ⟨rfl, rfl⟩
  · have hfails : subscriptionFails f w data streamingType = false := by
      rcases exec_subscribe hsub with ⟨-, e, hbad⟩ | ⟨hfails, -⟩
      · cases hbad
      · exact hfails
    obtain ⟨hrow2, hqueue2, hclock2⟩ :=
      Exec.keepsQueues hsub (Calls.perform (keepsQueues_of_outside rfl)).when
    have hinstant2 : data.runAfterTime ≤ s2.clock + app.fetchInterval.toNat := by linarith
    -- a retry does not record PENDING again
    obtain ⟨τ5, pushed, s4, τ6, hpush, h, -⟩ := exec_attempt_bind h
    obtain ⟨hrow4, hqueue4⟩ := exec_pushToRedis hdata hinstant2 hpush
    have hrest : s'.row = s4.row ∧ s'.queue = s4.queue := by
      cases pushed with
      | error e =>
        obtain ⟨hrow, hqueue, -⟩ := Exec.keepsQueues h
          ((calls_settleFailedRedisEnqueue _ e).bind fun _ => by trivial)
        exact ⟨hrow, hqueue⟩
      | ok _ =>
        obtain ⟨hrow, hqueue, -⟩ := Exec.keepsQueues h
          ((calls_afterRedisPush app keepsQueues_createKey _ _ _ _ fun h => absurd h (by decide)).when.bind
            fun _ => calls_waitIfDirect (keepsQueues_of_outside rfl) keepsQueues_waitResult _ _ _)
        exact ⟨hrow, hqueue⟩
    rw [hfails, hrest.1, hrest.2, hrow4, hqueue4, hrow2, hqueue2, hrow1, hqueue1]
    exact ⟨rfl, rfl⟩

theorem exec_enqueueToChannel
    (h : (enqueueJobSyncEnqueueOnly app job false .retry).Exec (faulty f) s τ r s') :
    s'.row = s.row ∧ s'.queue =
      if (f (.pushJob ⟨job, false⟩)).carriedOut then s.queue ++ [⟨job, false⟩] else s.queue := by
  rcases exec_bind.mp h with ⟨e, hafter, -⟩ | ⟨τ1, isRunAfter, s₁, τ2, hafter, h, -⟩
  · cases (exec_isRunAfterJob hdata hinstant hafter).1
  obtain ⟨hfalse, hrow1, hqueue1, -⟩ := exec_isRunAfterJob hdata hinstant hafter
  obtain rfl := Except.ok.inj hfalse
  obtain ⟨τ3, pushed, s3, τ4, hpush, h, -⟩ := exec_attempt_bind h
  obtain ⟨hrow3, hqueue3⟩ := exec_pushJob hpush
  have hrest : s' = s3 := by
    cases pushed with
    | error e =>
      rcases exec_bind.mp h with ⟨e', ⟨-, hbad, -⟩, -⟩ | ⟨τ7, u', s4, τ8, ⟨-, -, rfl⟩, h, -⟩
      · cases hbad
      · exact h.2.2
    | ok _ => exact h.2.2
  rw [hrest, hrow3, hqueue3, hrow1, hqueue1]
  exact ⟨rfl, rfl⟩

end

end Publish

/-! ### What `update_job` stores -/

section UpdateJob

/-- Is the call that puts an instant retry into the queue reached and carried out? -/
def queuePublishes (f : Op → Fault) (app : App) (w : WorkerData) (job : Job)
    (data : JobData) : Bool :=
  (app.storage = .standalone ||
    !subscriptionFails f w data (.ofI32 data.streamingType)) &&
    (f (.pushJob ⟨job, false⟩)).carriedOut

variable {r : Except JobWorkerError (Except JobWorkerError Bool)} {now : ℤ} {s₁ : Store}

theorem exec_updateRdbQueue (h : (updateRdbQueue app data use).Exec (faulty f) s τ r s') :
    (∃ res, r = .ok res) ∧ s'.queue = s.queue ∧ s.clock ≤ s'.clock ∧ s'.row =
      if use && (f (.upsertRow data app.indexing)).carriedOut then some (rowOf data)
      else s.row := by
  cases use with
  | true =>
    have hattempt : (invoke (.upsertRow data app.indexing)).attempt.Exec (faulty f) s τ r s' := h
    obtain ⟨res, hr, hupsert⟩ := exec_attempt.mp hattempt
    obtain ⟨ch, hsem, -⟩ := exec_perform.mp hupsert
    have hclock : s.clock ≤ s'.clock := by
      rw [sem_clock hsem]
      exact le_add_of_nonneg_right (Int.natCast_nonneg _)
    obtain ⟨rfl, -⟩ := faulty_cases (fun s => (.ok true,
      { s with
        row := some (rowOf data)
        index := if app.indexing then undeleteIndex s.clock s.index else s.index }))
      rfl (fun _ _ => rfl) hsem
    refine ⟨⟨res, hr⟩, ?_, hclock, ?_⟩
    · split <;> rfl
    · rw [Bool.true_and]
      split <;> rfl
  | false =>
    obtain ⟨hrow, hqueue, hclock⟩ := Exec.keepsQueues h
      ((calls_bestEffortIndex (keepsQueues_of_index rfl)).bind fun _ => by trivial)
    refine ⟨?_, hqueue, hclock, hrow⟩
    rcases exec_bind.mp h with ⟨e, hindex, -⟩ | ⟨τ1, u, s₁, τ2, -, hret, -⟩
    · cases exec_bestEffortIndex hindex
    · obtain ⟨-, rfl, -⟩ := hret
      exact ⟨_, rfl⟩

theorem exec_findDataByOpt (h : (findDataByOpt workerId).Exec (faulty f) s τ (.ok (some w)) s') :
    s.worker = some w ∧ s'.row = s.row ∧ s'.queue = s.queue ∧ s.clock ≤ s'.clock := by
  unfold findDataByOpt at h
  split at h
  · obtain ⟨hrow, hqueue, hclock⟩ :=
      Exec.keepsQueues h (.perform (keepsQueues_of_outside rfl))
    obtain ⟨ch, hsem, -⟩ := exec_perform.mp h
    have heff := effect_of_sem_ok hsem
    exact ⟨(answer_eq heff).1, hrow, hqueue, hclock⟩
  · obtain ⟨-, hbad, -⟩ := h
    cases hbad

theorem exec_updateInstantQueue {publish : M Unit} {use publishes : Bool}
    (hpublish : ∀ τ r s', use → publish.Exec (faulty f) s τ r s' → s'.row = s.row ∧ s'.queue =
      if publishes then s.queue ++ [⟨job, false⟩] else s.queue)
    (h : (updateInstantQueue publish use).Exec (faulty f) s τ r s') :
    s'.row = s.row ∧ s'.queue =
      if use && publishes then s.queue ++ [⟨job, false⟩] else s.queue := by
  cases use with
  | false =>
    obtain ⟨-, -, rfl⟩ := h
    exact ⟨rfl, rfl⟩
  | true =>
    obtain ⟨τ1, published, s₁, τ2, hpub, hret, -⟩ := exec_attempt_bind h
    have hs : s' = s₁ := by
      cases published with
      | ok | error => exact hret.2.2
    rw [hs]
    exact hpublish _ _ _ rfl hpub

theorem instant_of_useInstantQueue (h : useInstantQueue isRunAfter w) : isRunAfter = false := by
  unfold useInstantQueue at h
  simp only [Bool.and_eq_true, Bool.not_eq_true'] at h
  exact h.1.1

/-- The common body, for a queue whose publication is known. -/
theorem exec_updateJobWith {publish : Job → JobData → WorkerData → M Unit} {publishes : Bool}
    (hdata : job.data = some data) (hworker : s.worker = some w)
    (hpublish : ∀ s τ r s', data.runAfterTime ≤ s.clock + app.fetchInterval.toNat →
      (publish job data w).Exec (faulty f) s τ r s' → s'.row = s.row ∧ s'.queue =
        if publishes then s.queue ++ [⟨job, false⟩] else s.queue)
    (h : (updateJobWith app publish job).Exec (faulty f) s (⟨.now, .ok now, s, s₁⟩ :: τ)
      (.ok ()) s') :
    s'.row = (if useRdbQueue (decide (data.runAfterTime > now + app.fetchInterval.toNat)) w &&
        (f (.upsertRow data app.indexing)).carriedOut then some (rowOf data) else s.row) ∧
      s'.queue =
        if useInstantQueue (decide (data.runAfterTime > now + app.fetchInterval.toNat)) w &&
          publishes then s.queue ++ [⟨job, false⟩] else s.queue := by
  unfold updateJobWith at h
  rw [hdata] at h
  split at h
  case h_2 => cases h.2.1
  case h_1 _ _ heq =>
    obtain rfl := Option.some.inj heq
    obtain ⟨τ1, isRunAfter, t1, τ2, hafter, h1, hτ⟩ := exec_bind_ok h
    obtain ⟨now', hnow, rfl, rfl, hr⟩ := exec_isRunAfterJobData hafter fun _ _ => rfl
    obtain rfl := Except.ok.inj hr
    cases hτ
    obtain ⟨τ3, found, t2, τ4, hfound, h2, -⟩ := exec_attempt_bind h1
    rcases found with e | (- | w')
    · cases h2.2.1
    · cases h2.2.1
    obtain ⟨hw, hrow2, hqueue2, hclock2⟩ := exec_findDataByOpt hfound
    obtain rfl : w' = w := Option.some.inj (hw.symm.trans hworker)
    obtain ⟨τ5, resDb, t3, τ6, hdb, h3, -⟩ := exec_bind_ok h2
    obtain ⟨-, hqueue3, hclock3, hrow3⟩ := exec_updateRdbQueue hdb
    obtain ⟨τ7, resQueue, t4, τ8, hq, h4, -⟩ := exec_bind_ok h3
    -- an instant job stays one while time passes
    have hpub : ∀ τ r s',
        useInstantQueue (decide (data.runAfterTime > now + app.fetchInterval.toNat)) w' →
          (publish job data w').Exec (faulty f) t3 τ r s' → s'.row = t3.row ∧ s'.queue =
            if publishes then t3.queue ++ [⟨job, false⟩] else t3.queue := by
      intro τ r s' huse hpub
      refine hpublish t3 τ r s' ?_ hpub
      have hinstant := of_decide_eq_false (instant_of_useInstantQueue huse)
      have hnow2 : now ≤ t2.clock := hclock2
      linarith
    obtain ⟨hrow4, hqueue4⟩ := exec_updateInstantQueue hpub hq
    have hlast : s' = t4 := by
      split at h4
      · exact h4.2.2
      · exact h4.2.2
    rw [hlast, hrow4, hqueue4, hrow3, hqueue3, hrow2, hqueue2]
    exact ⟨rfl, rfl⟩

/-- **What `update_job` stores**, for both applications. -/
theorem exec_updateJob (hdata : job.data = some data) (hworker : s.worker = some w)
    (h : (updateJob app job).Exec (faulty f) s (⟨.now, .ok now, s, s₁⟩ :: τ) (.ok ()) s') :
    s'.row = (if useRdbQueue (decide (data.runAfterTime > now + app.fetchInterval.toNat)) w &&
        (f (.upsertRow data app.indexing)).carriedOut then some (rowOf data) else s.row) ∧
      s'.queue =
        if useInstantQueue (decide (data.runAfterTime > now + app.fetchInterval.toNat)) w &&
          queuePublishes f app w job data then s.queue ++ [⟨job, false⟩] else s.queue := by
  unfold updateJob at h
  cases hstorage : app.storage with
  | scalable =>
    rw [hstorage] at h
    refine exec_updateJobWith hdata hworker (fun s τ r s' hinstant hpub => ?_) h
    obtain ⟨r', hpub⟩ := exec_discard hpub
    rw [queuePublishes, hstorage]
    exact exec_enqueueToRedis hdata hinstant hpub
  | standalone =>
    rw [hstorage] at h
    refine exec_updateJobWith hdata hworker (fun s τ r s' hinstant hpub => ?_) h
    rw [queuePublishes, hstorage]
    exact exec_enqueueToChannel hdata hinstant hpub

/-- Is the RDB table the only queue of the job, at the time `now`? -/
def rdbOnlyAt (app : App) (w : WorkerData) (data : JobData) (now : ℤ) : Bool :=
  data.runAfterTime > now + app.fetchInterval.toNat || w.isRdbOnly

/-- The job is stored where a dispatcher takes it from: as a row the RDB
dispatcher fetches when it is run-after, periodic or DbOnly, in the Redis list
or the channel otherwise. -/
def Deliverable (app : App) (w : WorkerData) (job : Job) (data : JobData) (now : ℤ)
    (s : Store) : Prop :=
  if rdbOnlyAt app w data now then s.row = some (rowOf data) ∧ 0 < data.runAfterTime
  else ⟨job, false⟩ ∈ s.queue

/-- The call that stores the job there is made and carried out, unless the job
is there already; and a row can be fetched. -/
def StoreCarriedOut (f : Op → Fault) (app : App) (w : WorkerData) (job : Job) (data : JobData)
    (now : ℤ) (s : Store) : Prop :=
  if rdbOnlyAt app w data now then
    ((f (.upsertRow data app.indexing)).carriedOut ∨ s.row = some (rowOf data)) ∧
      0 < data.runAfterTime
  else
    (w.queueType = QueueType.normal.toI32 ∨ w.queueType = QueueType.withBackup.toI32) ∧
      queuePublishes f app w job data ∨ ⟨job, false⟩ ∈ s.queue

theorem useRdbQueue_of_rdbOnlyAt (h : rdbOnlyAt app w data now) :
    useRdbQueue (decide (data.runAfterTime > now + app.fetchInterval.toNat)) w = true := by
  unfold rdbOnlyAt WorkerData.isRdbOnly at h
  unfold useRdbQueue
  simp only [Bool.or_eq_true] at h ⊢
  rcases h with h | h | h
  · exact .inl (.inl (.inl h))
  · exact .inl (.inl (.inr h))
  · exact .inl (.inr h)

theorem useInstantQueue_of_not_rdbOnlyAt (h : ¬ rdbOnlyAt app w data now) :
    useInstantQueue (decide (data.runAfterTime > now + app.fetchInterval.toNat)) w =
      decide (w.queueType = QueueType.normal.toI32 ∨
        w.queueType = QueueType.withBackup.toI32) := by
  unfold rdbOnlyAt WorkerData.isRdbOnly at h
  simp only [Bool.or_eq_true, not_or] at h
  obtain ⟨hafter, hperiodic, -⟩ := h
  have hzero : w.periodicInterval = 0 := by
    by_contra hne
    exact hperiodic (decide_eq_true (UInt32.pos_iff_ne_zero.mpr hne))
  unfold useInstantQueue
  rw [Bool.eq_false_iff.mpr hafter, hzero, Bool.decide_or]
  rfl

/-- **When `update_job` reports success the job is stored exactly if the call
that stores it was carried out.**  `f` gives the failures of the calls, `now`
is the clock reading by which `update_job` decides whether the job is run-after. -/
theorem updateJob_stored_iff (hdata : job.data = some data) (hworker : s.worker = some w)
    {now : ℤ} {s₁ : Store}
    (h : (updateJob app job).Exec (faulty f) s (⟨.now, .ok now, s, s₁⟩ :: τ) (.ok ()) s') :
    Deliverable app w job data now s' ↔ StoreCarriedOut f app w job data now s := by
  obtain ⟨hrow, hqueue⟩ := exec_updateJob hdata hworker h
  unfold Deliverable StoreCarriedOut
  by_cases honly : rdbOnlyAt app w data now
  · rw [if_pos honly, if_pos honly, hrow, useRdbQueue_of_rdbOnlyAt honly, Bool.true_and]
    refine and_congr_left fun _ => ?_
    split
    · rename_i hcarried
      simp [hcarried]
    · rename_i hcarried
      simp [hcarried]
  · rw [if_neg honly, if_neg honly, hqueue, useInstantQueue_of_not_rdbOnlyAt honly]
    by_cases hpub : (w.queueType = QueueType.normal.toI32 ∨
        w.queueType = QueueType.withBackup.toI32) ∧ queuePublishes f app w job data
    · rw [if_pos (by rw [hpub.2, decide_eq_true hpub.1]; rfl)]
      simp [hpub]
    · rw [if_neg (by rw [Bool.and_eq_true, decide_eq_true_iff]; exact hpub)]
      exact (or_iff_right hpub).symm

end UpdateJob

/-! ### A retry that is lost -/

/-- A retry of a job of a DbOnly worker, due at time 1. -/
def dbOnlyRetry : JobData :=
  { (default : JobData) with workerId := some ⟨1⟩, runAfterTime := 1, retried := 1 }

def dbOnlyStore : Store :=
  { (default : Store) with
    worker := some { (default : WorkerData) with queueType := QueueType.dbOnly.toI32 } }

/-- The RDB refuses its writes. -/
def rdbDown : Op → Fault
  | .upsertRow _ _ => .refused
  | _ => .none

/-- With a working RDB the retry is stored. -/
theorem dbOnlyRetry_stored : ∃ s',
    Deliverable default { (default : WorkerData) with queueType := QueueType.dbOnly.toI32 }
      ⟨some ⟨1⟩, some dbOnlyRetry, []⟩ dbOnlyRetry 0 s' := by
  have hexec : (updateJob default ⟨some ⟨1⟩, some dbOnlyRetry, []⟩).Exec (faulty fun _ => .none)
      dbOnlyStore _ _ _ := exec_of_runWith default rfl
  exact ⟨_, (updateJob_stored_iff rfl rfl hexec).mpr ⟨.inl rfl, by decide⟩⟩

/-- **Success for a job that is stored nowhere**: the RDB refuses the row of a
DbOnly retry, and `update_job` returns Ok. -/
theorem dbOnlyRetry_lost : ∃ τ s',
    (updateJob default ⟨some ⟨1⟩, some dbOnlyRetry, []⟩).Exec (faulty rdbDown) dbOnlyStore
      τ (.ok ()) s' ∧ s'.row = none ∧ s'.queue = [] ∧ s'.runAfter = [] :=
  ⟨_, _, exec_of_runWith default rfl, rfl, rfl, rfl⟩

end Jobworkerp
