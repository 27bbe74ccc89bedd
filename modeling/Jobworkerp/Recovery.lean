/-
Jobworkerp/Recovery.lean

Recovery of the executions of an expired worker instance
(`WorkerInstanceRecoveryCoordinator::recover_locked`).

The coordinator reads the RUNNING rows of the instance from the status index
page by page.  For each it looks the job and the worker up, waits until the
old execution can no longer be running, claims the index row, records the
loss as an ErrorAndRetry result, and publishes the retry, to the RDB table in
one transaction with the claim or through `update_job`; without budget the
job is completed.

None of this touches the live status record, which is what a dispatcher
decides by.  The lost worker has left it at the lost attempt, so the retry,
which carries the next attempt, is never eligible.

* `recovered_retry_never_executes`: no delivery of the retry, and no fetched
  row of it, gets Execute, in any interleaving with the recovery.
-/
import Jobworkerp.AttemptExclusivity
import Jobworkerp.Interleaving.RelyGuarantee

namespace Jobworkerp

open Interleaving Prog

/-! ### The coordinator -/

/-- `i64::saturating_add`. -/
def saturatingAdd (a b : ℤ) : ℤ := max (-2 ^ 63) (min (a + b) (2 ^ 63 - 1))

/-- `u64::saturating_mul`. -/
def saturatingMul (a b : ℕ) : ℕ := min (a * b) (2 ^ 64 - 1)

/-- The expired instance, and the settings of its recovery. -/
structure ExpiredInstance where
  instanceId : ℤ
  observedHeartbeatMillis : ℤ
  instanceTimeoutMillis : ℤ
  unboundedExecutionRecoveryTimeoutSec : UInt64
  executionCompletionReserveSec : UInt64
  deriving DecidableEq, Repr, Inhabited

/-- `is_safe_to_recover`: can the lost execution no longer be running? -/
def isSafeToRecover (candidate : RunningStatusCandidate) (jobTimeoutMillis : UInt64)
    (completionReserveMillis : ℕ) (unboundedRecoveryAfterMillis nowMillis : ℤ) : Bool :=
  if jobTimeoutMillis = 0 then unboundedRecoveryAfterMillis ≤ nowMillis
  else
    match candidate.startTime with
    | none => false
    | some startTime =>
      jobTimeoutMillis.toNat < 2 ^ 63 ∧ completionReserveMillis < 2 ^ 63 ∧
        saturatingAdd (saturatingAdd startTime jobTimeoutMillis.toNat)
          completionReserveMillis ≤ nowMillis

/-- `HybridJobAppImpl::find_job`: a failing lookup counts as a miss, and a row
is cached under the job's Redis key. -/
def Hybrid.findJob : M (Option JobData) := do
  match ← (invoke .findKey).attempt with
  | .ok (some data) => pure (some data)
  | _ =>
    match ← (invoke .findRow).attempt with
    | .ok (some data) =>
      (invoke (.createKey data)).ignore
      pure (some data)
    | _ => pure none

variable (app : App)

/-- `JobApp::find_job`. -/
def findJob : M (Option JobData) :=
  match app.storage with
  | .scalable => Hybrid.findJob
  | .standalone => invoke .findRow

/-- The result that records a lost execution. -/
def lostResult (candidate : RunningStatusCandidate) (data : JobData) (w : WorkerData)
    (now : ℤ) : JobResultData :=
  let resolved := resolveJobParams w data.overrides
  { jobId := some ⟨candidate.jobId⟩
    workerId := some ⟨candidate.workerId⟩
    workerName := w.name
    args := data.args
    uniqKey := data.uniqKey
    status := ResultStatus.errorAndRetry.toI32
    output := some (bytesOf "worker instance was lost before job completion")
    retried := data.retried
    maxRetry := (resolved.retryPolicy.map (·.maxRetry)).getD 0
    priority := data.priority
    timeout := data.timeout
    streamingType := data.streamingType
    enqueueTime := data.enqueueTime
    runAfterTime := data.runAfterTime
    startTime := candidate.startTime.getD now
    endTime := now
    responseType := resolved.responseType
    storeSuccess := resolved.storeSuccess
    storeFailure := resolved.storeFailure
    usingMethod := data.usingMethod
    broadcastResults := resolved.broadcastResults
    resolvedRetryPolicy := resolved.retryPolicy
    error := none }

/-- Run a step of the recovery; when it fails the claim is undone. -/
def orRestoreRunning {α : Type} (claim : RecoveryClaim) (p : M α) : M α := do
  match ← p.attempt with
  | .ok a => pure a
  | .error e =>
    (invoke (.restoreRunning claim)).ignore
    fail e

/-- Publish a retry through the queue; the index is reset before the retry
becomes visible, and set back when the publication fails. -/
def publishToQueue (claim : RecoveryClaim) (job : Job) : M Unit := do
  match ← invoke (.resetClaimToPending claim) with
  | .conflict => fail (.runtimeError "lost recovery status claim before retry publication")
  | .claimed =>
    match ← (updateJob app job).attempt with
    | .ok _ => pure ()
    | .error e =>
      (invoke (.restorePendingClaimToRunning claim)).ignore
      fail e

/-- Publish the retry of a lost execution: to the RDB table only, or through
the queue, a backup row staying leased until the retry is consumed. -/
def publishRetry (claim : RecoveryClaim) (data : JobData) (w : WorkerData)
    (job : Job) : M Unit :=
  match job.id, job.data with
  | none, _ => fail (.runtimeError "recovery retry job has no ID")
  | some _, none => fail (.runtimeError "recovery retry job has no data")
  | some _, some retryData =>
    if retryData.runAfterTime > 0 ∨ w.isRdbOnly then
      orRestoreRunning claim (invoke (.upsertRowWithClaim claim retryData)).discard
    else if w.queueType = QueueType.withBackup.toI32 then do
      match ← invoke (.grabRow data.timeout (data.grabbedUntilTime.getD 0)) with
      | none =>
        (invoke (.restoreRunning claim)).ignore
        fail (.runtimeError
          s!"lost WithBackup job lease before retry publication: {claim.candidate.jobId}")
      | some reservedUntil =>
        publishToQueue app claim
          { job with data := some { retryData with grabbedUntilTime := some reservedUntil } }
    else publishToQueue app claim job

/-- Store the result of a lost execution, unless an earlier recovery has. -/
def saveLostResult (claim : RecoveryClaim) (id : JobResultId) (result : JobResultData)
    (alreadySaved : Bool) : M Unit :=
  when (!alreadySaved) (orRestoreRunning claim
    (invoke (.createJobResult id result result.broadcastResults)))

/-- What follows the claim of a lost execution. -/
def recoverClaimed (claim : RecoveryClaim) (data : JobData) (w : WorkerData)
    (metadata : Metadata) : M Unit := do
  let now ← invoke .now
  let result := lostResult claim.candidate data w now
  match buildRetryJob app.expo result w metadata with
  | some job =>
    let alreadySaved ← orRestoreRunning claim (invoke (.findRecoveryResult result))
    let id ← invoke .generateId
    saveLostResult claim ⟨id⟩ result alreadySaved
    publishRetry app claim data w job
  | none =>
    let id ← invoke .generateId
    saveLostResult claim ⟨id⟩ result false
    orRestoreRunning claim (completeJob app ⟨id⟩ result false).discard

/-- The body of the loop over the candidates; a stored job has no metadata. -/
def recoverCandidate (x : ExpiredInstance) (unboundedAfter : ℤ)
    (candidate : RunningStatusCandidate) : M Unit := do
  if ← invoke .refreshRecoveryLock then
    match ← findJob app with
    | none => pure ()
    | some data =>
      let now ← invoke .now
      if isSafeToRecover candidate data.timeout
          (saturatingMul x.executionCompletionReserveSec.toNat 1000) unboundedAfter now then
        match ← invoke .findWorker with
        | none => pure ()
        | some w =>
          match ← invoke (.claimRunning candidate) with
          | none => pure ()
          | some claim => recoverClaimed app claim data w []
      else pure ()
  else fail (.runtimeError s!"lost recovery lock for worker instance {x.instanceId}")

/-- The candidates of one page, with the cursor moved past each of them. -/
def recoverPage (app : App) (x : ExpiredInstance) (unboundedAfter : ℤ) :
    ℤ → List RunningStatusCandidate → M ℤ
  | cursor, [] => pure cursor
  | cursor, candidate :: rest => do
      recoverCandidate app x unboundedAfter candidate
      recoverPage app x unboundedAfter (max cursor candidate.jobId) rest

/-- The page loop, for at most `n` pages. -/
def recoverPages (app : App) (x : ExpiredInstance) (unboundedAfter : ℤ) : ℕ → ℤ → M Unit
  | 0, _ => pure ()
  | n + 1, cursor => do
      match ← invoke (.findRunning x.instanceId cursor) with
      | [] => pure ()
      | candidate :: rest =>
        let cursor ← recoverPage app x unboundedAfter cursor (candidate :: rest)
        recoverPages app x unboundedAfter n cursor

/-- `recover_locked`; the pages end when the instance has no further job. -/
def recoverLocked (x : ExpiredInstance) (pages : ℕ) : M Bool :=
  let unboundedTimeoutMillis :=
    saturatingMul x.unboundedExecutionRecoveryTimeoutSec.toNat 1000
  if unboundedTimeoutMillis < 2 ^ 63 then do
    let unboundedAfter :=
      saturatingAdd (saturatingAdd x.observedHeartbeatMillis x.instanceTimeoutMillis)
        unboundedTimeoutMillis
    recoverPages app x unboundedAfter pages 0
    if ← invoke .refreshRecoveryLock then
      return (← invoke (.findRunning x.instanceId 0)).isEmpty
    else fail (.runtimeError s!"lost recovery lock for worker instance {x.instanceId}")
  else fail (.runtimeError "out of range integral type conversion attempted")

/-! ### The calls of the recovery -/

variable {claim : RecoveryClaim}

theorem calls_orRestoreRunning
    (hp : p.Calls C) (hC : C (.restoreRunning claim)) : (orRestoreRunning claim p).Calls C := by
  refine hp.attempt.bind fun r => ?_
  split
  · trivial
  · exact (Calls.perform hC).ignore.bind fun _ => by trivial

theorem calls_publishToQueue (claim : RecoveryClaim) (job : Job) :
    (publishToQueue app claim job).Calls Quiet := by
  refine (Calls.perform trivial).bind fun outcome => ?_
  split
  · trivial
  · refine (calls_updateJob.mono fun _ h => (queueOp_of_keepsRelease h).inert.quiet).attempt.bind fun r => ?_
    split
    · trivial
    · exact Calls.bind (Calls.perform trivial).ignore fun _ => by trivial

theorem calls_publishRetry (claim : RecoveryClaim) (data : JobData)
    (w : WorkerData) (job : Job) : (publishRetry app claim data w job).Calls Quiet := by
  unfold publishRetry
  split
  · trivial
  · trivial
  · split
    · exact calls_orRestoreRunning (Calls.perform trivial).discard trivial
    · split
      · refine (Calls.perform trivial).bind fun lease => ?_
        split
        · exact Calls.bind (Calls.perform trivial).ignore fun _ => by trivial
        · exact calls_publishToQueue app claim _
      · exact calls_publishToQueue app claim job

/-- **A lost execution with a retry left is recovered without a write to its
live record.** -/
theorem calls_recoverClaimed {app : App} {data : JobData} {metadata : Metadata} (hretry : ∀ now,
      (buildRetryJob app.expo (lostResult claim.candidate data w now) w metadata).isSome) :
    (recoverClaimed app claim data w metadata).Calls Quiet := by
  refine (Calls.perform trivial).bind fun now => ?_
  obtain ⟨job, hjob⟩ := Option.isSome_iff_exists.mp (hretry now)
  simp only [hjob]
  refine (calls_orRestoreRunning (Calls.perform trivial) trivial).bind fun saved => ?_
  refine (Calls.perform trivial).bind fun id => ?_
  refine (calls_orRestoreRunning (Calls.perform trivial) trivial).when.bind fun _ => ?_
  exact calls_publishRetry app claim data w job

/-! ### The recovery among dispatchers -/

variable {app : App} {x : ExpiredInstance} {X : JobProcessingStatusRecord} {s : Store}

section Safety

variable {w : WorkerData} {r : UInt32} {jid : JobId}

/-- While the record is `X` the others let time pass, and nothing else. -/
def OnlyTime (X : JobProcessingStatusRecord) (s s' : Store) : Prop :=
  s.live = some X → ∃ n, s' = s.tick n

/-- The record stays `X`. -/
def KeepsRecord (X : JobProcessingStatusRecord) (s s' : Store) : Prop :=
  s.live = some X → s'.live = some X

theorem onlyTime_refl (s : Store) : OnlyTime X s s := fun _ => ⟨0, by simp [Store.tick]⟩

theorem onlyTime_trans (s1 s2 s3 : Store) (h : OnlyTime X s1 s2) (h' : OnlyTime X s2 s3) :
    OnlyTime X s1 s3 := by
  intro hX
  obtain ⟨n, rfl⟩ := h hX
  obtain ⟨m, rfl⟩ := h' hX
  exact ⟨n + m, by simp [Store.tick, add_assoc]⟩

/-- The job is at attempt `r`, and `build_retry_job` gives a retry for its loss. -/
def Retryable (app : App) (w : WorkerData) (r : UInt32) (data : JobData) : Prop :=
  data.retried = r ∧
    ∀ candidate now, (buildRetryJob app.expo (lostResult candidate data w now) w []).isSome

/-- The state of the job until its lost execution is recovered. -/
structure Lost (app : App) (w : WorkerData) (r : UInt32) (X : JobProcessingStatusRecord)
    (jid : JobId) (s : Store) : Prop where
  live : s.live = some X
  worker : s.worker = some w
  retryable : ∀ data, s.key = some data ∨ s.row = some data → Retryable app w r data
  jobId : s.jobId = jid

/-- What is left of it afterwards. -/
def Recovered (X : JobProcessingStatusRecord) (jid : JobId) (s : Store) : Prop :=
  s.live = some X ∧ s.jobId = jid

variable {α : Type} {p : M α} {candidate : RunningStatusCandidate}

theorem Lost.recovered (h : Lost app w r X jid s) : Recovered X jid s :=
  ⟨h.live, h.jobId⟩

theorem Lost.tick (h : Lost app w r X jid s) (n : ℕ) : Lost app w r X jid (s.tick n) :=
  ⟨h.live, h.worker, h.retryable, h.jobId⟩

theorem Lost.stable (s s' : Store) (h : Lost app w r X jid s) (hR : OnlyTime X s s') :
    Lost app w r X jid s' := by
  obtain ⟨n, rfl⟩ := hR h.live
  exact h.tick n

theorem Recovered.stable (s s' : Store) (h : Recovered X jid s) (hR : OnlyTime X s s') :
    Recovered X jid s' := by
  obtain ⟨n, rfl⟩ := hR h.1
  exact h

/-- A program that keeps the record `X`, among threads that let time pass. -/
abbrev Spared (X : JobProcessingStatusRecord) (p : M α) (Q : α → Store → Prop)
    (E : JobWorkerError → Store → Prop) (s : Store) : Prop :=
  p.Safe sem (OnlyTime X) (fun _ _ => KeepsRecord X) Q E s

abbrev StaysRecovered (X : JobProcessingStatusRecord) (jid : JobId) (p : M α) : Store → Prop :=
  Spared X p (fun _ => Recovered X jid) fun _ => Recovered X jid

/-- A look-up that finds a copy with a retry left, if it finds one. -/
abbrev FindsRetryable (app : App) (w : WorkerData) (r : UInt32) (X : JobProcessingStatusRecord)
    (jid : JobId) (p : M (Option JobData)) : Store → Prop :=
  Spared X p (fun found s => Lost app w r X jid s ∧ ∀ data ∈ found, Retryable app w r data)
    fun _ => Lost app w r X jid

/-- A program that does not write the record leaves the job recovered. -/
theorem safe_of_quiet (hp : p.Calls Quiet) (hs : Recovered X jid s) : StaysRecovered X jid p s := by
  refine .of_calls hp Recovered.stable (fun op ch ans s s' hop hs h => ?_) hs
  have hlive := sem_live h hop.table_ne
  exact ⟨fun hX => hlive.trans hX, hlive.trans hs.1, (sem_jobId h).trans hs.2⟩

/-- One call that leaves the job lost, and what its answer says. -/
theorem safe_lost (op : Op) {P : Resp op → Prop} (hs : Lost app w r X jid s)
    (hop : ∀ s1 ch ans s2, Lost app w r X jid s1 → sem ch op s1 = some (ans, s2) →
      Lost app w r X jid s2 ∧ ∀ a, ans = .ok a → P a) :
    Spared X (invoke op)
      (fun a s => Lost app w r X jid s ∧ P a) (fun _ => Lost app w r X jid) s := by
  refine .perform Lost.stable hs fun s1 ch ans s2 h1 hsem => ?_
  obtain ⟨h2, hP⟩ := hop s1 ch ans s2 h1 hsem
  refine ⟨fun _ => h2.live, fun s3 h3 => ?_⟩
  cases ans with
  | ok a => exact ⟨h2.stable _ _ h3, hP a rfl⟩
  | error e => exact h2.stable _ _ h3

theorem safe_read (op : Op) {P : Resp op → Prop} (hop : op.table = .outside)
    (hs : Lost app w r X jid s)
    (hP : ∀ s1 ch a s2, Lost app w r X jid s1 → sem ch op s1 = some (.ok a, s2) → P a) :
    Spared X (invoke op)
      (fun a s => Lost app w r X jid s ∧ P a) (fun _ => Lost app w r X jid) s := by
  refine safe_lost op hs fun s1 ch ans s2 h1 hsem => ⟨?_, fun a ha => ?_⟩
  · rw [sem_outside hsem hop]
    exact h1.tick _
  · subst ha
    exact hP s1 ch a s2 h1 hsem

theorem safe_findKey (hs : Lost app w r X jid s) :
    FindsRetryable app w r X jid (invoke .findKey) s := by
  refine safe_read .findKey rfl hs fun s1 ch found s2 h1 hsem data hdata => ?_
  cases effect_of_sem_ok hsem
  exact h1.retryable data (.inl hdata)

theorem safe_findRow (hs : Lost app w r X jid s) :
    FindsRetryable app w r X jid (invoke .findRow) s := by
  refine safe_read .findRow rfl hs fun s1 ch found s2 h1 hsem data hdata => ?_
  cases effect_of_sem_ok hsem
  exact h1.retryable data (.inr hdata)

theorem safe_createKey {data : JobData} (hdata : Retryable app w r data)
    (hs : Lost app w r X jid s) :
    Spared X (invoke (.createKey data))
      (fun _ => Lost app w r X jid) (fun _ => Lost app w r X jid) s := by
  refine (safe_lost (P := fun _ => True) (.createKey data) hs
    fun s1 ch ans s2 h1 hsem => ⟨?_, fun _ _ => trivial⟩).mono (fun _ _ h => h.1)
    (fun _ _ h => h)
  have hkey : ∀ a s2, effect ch (.createKey data) (s1.tick ch.tick) = some (a, s2) →
      Lost app w r X jid s2 := by
    intro a s2 heff
    cases heff
    refine ⟨h1.live, h1.worker, fun data' hdata' => ?_, h1.jobId⟩
    rcases hdata' with hkey | hrow
    · obtain rfl := Option.some.inj hkey
      exact hdata
    · exact h1.retryable data' (.inr hrow)
  obtain heff | ⟨-, rfl | ⟨a', heff⟩⟩ := sem_cases hsem
  · exact hkey _ _ heff
  · exact h1.tick _
  · exact hkey _ _ heff

/-- The fallback of a miss in Redis, or of a failing lookup there. -/
theorem safe_findRowCached (hs : Lost app w r X jid s) : FindsRetryable app w r X jid
    (do match ← (invoke .findRow).attempt with
        | .ok (some data) =>
          (invoke (.createKey data)).ignore
          pure (some data)
        | _ => pure none : M (Option JobData)) s := by
  refine Safe.bind onlyTime_refl (safe_findRow hs).attempt fun found s2 h2 => ?_
  rcases found with e | (- | data)
  · exact fun s3 h3 => ⟨h2.stable _ _ h3, by simp⟩
  · exact fun s3 h3 => ⟨h2.1.stable _ _ h3, by simp⟩
  · obtain ⟨hlost, hdata⟩ := h2
    have hdata := hdata data rfl
    refine Safe.bind onlyTime_refl (safe_createKey hdata hlost).ignore fun _ s3 h3 => ?_
    refine fun s4 h4 => ⟨h3.stable _ _ h4, fun data' hdata' => ?_⟩
    obtain rfl := Option.some.inj hdata'
    exact hdata

theorem safe_findJob (hs : Lost app w r X jid s) :
    FindsRetryable app w r X jid (findJob app) s := by
  unfold findJob
  split
  · refine Safe.bind onlyTime_refl (safe_findKey hs).attempt fun found s1 h1 => ?_
    rcases found with e | (- | data)
    · exact safe_findRowCached h1
    · exact safe_findRowCached h1.1
    · exact fun s2 h2 => ⟨h1.1.stable _ _ h2, h1.2⟩
  · exact safe_findRow hs

/-- A step of the recovery that may fail leaves the record alone. -/
theorem safe_weaken (h : Spared X p Q (fun _ => Lost app w r X jid) s) :
    Spared X p Q (fun _ => Recovered X jid) s :=
  h.mono (fun _ _ h => h) fun _ _ h => h.recovered

/-- The claim of the lost execution writes the index only. -/
theorem safe_claimRunning (candidate : RunningStatusCandidate) (hs : Lost app w r X jid s) :
    Spared X (invoke (.claimRunning candidate))
      (fun _ s => Lost app w r X jid s ∧ True) (fun _ => Lost app w r X jid) s := by
  refine safe_lost (.claimRunning candidate) hs
    fun s1 ch ans s2 h1 hsem => ⟨?_, fun _ _ => trivial⟩
  obtain ⟨i, rfl⟩ := sem_frame hsem
  exact ⟨h1.live, h1.worker, h1.retryable, h1.jobId⟩

/-- Recovering the lost execution does not touch its live record. -/
theorem safe_recoverCandidate (unboundedAfter : ℤ) (candidate : RunningStatusCandidate)
    (hs : Lost app w r X jid s) :
    StaysRecovered X jid (recoverCandidate app x unboundedAfter candidate) s := by
  have hret : ∀ s, Recovered X jid s → StaysRecovered X jid (pure () : M Unit) s :=
    fun s hs => safe_of_quiet trivial hs
  refine Safe.bind onlyTime_refl (safe_weaken
    (safe_read .refreshRecoveryLock (P := fun _ => True) rfl hs fun _ _ _ _ _ _ => trivial))
    fun locked s1 h1 => ?_
  split
  · refine Safe.bind onlyTime_refl (safe_weaken (safe_findJob h1.1)) fun found s2 h2 => ?_
    obtain ⟨hlost, hfound⟩ := h2
    split
    · exact hret _ hlost.recovered
    · rename_i data
      have hdata := hfound data rfl
      refine Safe.bind onlyTime_refl (safe_weaken
        (safe_read .now (P := fun _ => True) rfl hlost fun _ _ _ _ _ _ => trivial))
        fun now s3 h3 => ?_
      split
      · refine Safe.bind onlyTime_refl (safe_weaken
          (safe_read .findWorker (P := fun found => found = some w) rfl h3.1
            fun s1 ch found s2 h1 hsem => ?_)) fun found s4 h4 => ?_
        · cases effect_of_sem_ok hsem
          exact h1.worker
        obtain ⟨hlost', rfl⟩ := h4
        refine Safe.bind onlyTime_refl (safe_weaken (safe_claimRunning candidate hlost'))
          fun claim s5 h5 => ?_
        split
        · exact hret _ h5.1.recovered
        · exact safe_of_quiet (calls_recoverClaimed fun now => hdata.2 _ now) h5.1.recovered
      · exact hret _ h3.1.recovered
  · exact safe_of_quiet trivial h1.1.recovered

/-- A page of candidates holds the job only beyond the cursor. -/
theorem runningCandidate_jobId {jobId : JobId} {instanceId : ℤ} {index : Option StatusIndexRow}
    (h : runningCandidate jobId instanceId index = some candidate) :
    candidate.jobId = jobId.value := by
  unfold runningCandidate at h
  split at h
  · split at h
    · cases h
      rfl
    · cases h
  · cases h

theorem jobId_of_mem_findRunning {instanceId cursor : ℤ} {page : List RunningStatusCandidate}
    (h : sem ch (.findRunning instanceId cursor) s = some (.ok page, s')) (hc : candidate ∈ page) :
    candidate.jobId = s.jobId.value ∧ cursor < candidate.jobId ∧ page = [candidate] := by
  cases effect_of_sem_ok h
  rw [Option.mem_toList] at hc
  obtain ⟨hcand, hcursor⟩ := Option.filter_eq_some_iff.mp hc
  exact ⟨runningCandidate_jobId hcand, by simpa using hcursor, by rw [hc]; rfl⟩

/-- The pages after the one with the job do not have it. -/
theorem safe_recoverPages (unboundedAfter : ℤ) (n : ℕ) {cursor : ℤ} (hcursor : jid.value ≤ cursor)
    (hs : Recovered X jid s) :
    StaysRecovered X jid (recoverPages app x unboundedAfter n cursor) s := by
  cases n with
  | zero => exact safe_of_quiet trivial hs
  | succ n =>
    have hpage : Spared X (invoke (.findRunning x.instanceId cursor))
        (fun page s => page = [] ∧ Recovered X jid s)
        (fun _ => Recovered X jid) s := by
      intro s1 hR ch ans s2 hsem
      have h1 := hs.stable _ _ hR
      have h2 : Recovered X jid s2 := by
        rw [sem_outside hsem rfl]
        exact h1
      refine ⟨fun _ => h2.1, ?_⟩
      cases ans with
      | error e => exact fun s3 h3 => h2.stable _ _ h3
      | ok page =>
        refine fun s3 h3 => ⟨?_, h2.stable _ _ h3⟩
        refine List.eq_nil_iff_forall_not_mem.mpr fun candidate hc => ?_
        obtain ⟨hjob, hlt, -⟩ := jobId_of_mem_findRunning hsem hc
        rw [hjob, h1.2] at hlt
        exact absurd hcursor (not_le.mpr hlt)
    refine Safe.bind onlyTime_refl hpage fun page s1 h1 => ?_
    obtain ⟨rfl, hrec⟩ := h1
    exact safe_of_quiet trivial hrec

/-- **The recovery of the expired instance leaves the live record alone.** -/
theorem safe_recoverLocked (pages : ℕ) (hs : Lost app w r X jid s) :
    StaysRecovered X jid (recoverLocked app x pages) s := by
  have hfirst : ∀ unboundedAfter, StaysRecovered X jid (recoverPages app x unboundedAfter pages 0) s := by
    intro unboundedAfter
    cases pages with
    | zero => exact safe_of_quiet trivial hs.recovered
    | succ n =>
      refine Safe.bind onlyTime_refl (safe_weaken (safe_read (.findRunning x.instanceId 0)
        (P := fun page => ∀ candidate ∈ page,
          candidate.jobId = jid.value ∧ page = [candidate]) rfl hs
        fun s1 ch page s2 h1 hsem candidate hc => ?_)) fun page s1 h1 => ?_
      · obtain ⟨hjob, -, hpage⟩ := jobId_of_mem_findRunning hsem hc
        exact ⟨hjob.trans (congrArg JobId.value h1.jobId), hpage⟩
      obtain ⟨hlost, hpage⟩ := h1
      cases page with
      | nil => exact safe_of_quiet trivial hlost.recovered
      | cons candidate rest =>
        obtain ⟨hjob, heq⟩ := hpage candidate List.mem_cons_self
        obtain rfl := (List.cons.inj heq).2
        -- the job is the only candidate, and the cursor moves past it
        have hcursor : jid.value ≤ max 0 candidate.jobId := hjob ▸ le_max_right _ _
        have hfirstPage : Spared X (recoverPage app x unboundedAfter 0 [candidate])
            (fun cursor s => jid.value ≤ cursor ∧ Recovered X jid s)
            (fun _ => Recovered X jid) s1 :=
          Safe.bind onlyTime_refl (safe_recoverCandidate unboundedAfter candidate hlost)
            fun _ s2 h2 s3 h3 => ⟨hcursor, h2.stable _ _ h3⟩
        exact Safe.bind onlyTime_refl hfirstPage fun cursor s2 h2 =>
          safe_recoverPages unboundedAfter n h2.1 h2.2
  unfold recoverLocked
  dsimp only
  split
  · refine Safe.bind onlyTime_refl (hfirst _) fun _ s1 h1 => safe_of_quiet ?_ h1
    refine (Calls.perform trivial).bind fun locked => ?_
    split
    · exact Calls.bind (.perform trivial) fun _ => by trivial
    · trivial
  · exact safe_of_quiet trivial hs.recovered

end Safety

/-! ### The retry of a lost execution -/

/-- A dispatcher's check of a queue delivery, or of a fetched row. -/
structure RetryCheck where
  d : Delivery
  ofRow : Bool

def RetryCheck.check (app : App) (t : RetryCheck) : M DispatchEligibility :=
  if t.ofRow then checkRdbCancellationStatus app t.d else checkCancellationStatus app t.d

theorem RetryCheck.check_eq (app : App) (t : RetryCheck) :
    t.check app = checkCancellationStatusWithMissingStatus app t.d t.ofRow := by
  unfold RetryCheck.check
  cases t.ofRow <;> rfl

section System

variable {ι : Type} [DecidableEq ι]

/-- The coordinator (`none`) among any number of dispatchers. -/
def recoverySystem (app : App) (x : ExpiredInstance) (pages : ℕ) (checks : ι → RetryCheck)
    (s : Store) : System (Option ι) (Option DispatchEligibility) :=
  { threads := fun
      | none => do (recoverLocked app x pages).discard; return none
      | some i => do return some (← (checks i).check app)
    store := s }

variable {pages : ℕ} {checks : ι → RetryCheck}
  {τ : List (Moment (Option ι) (Option DispatchEligibility))}
  {c' : System (Option ι) (Option DispatchEligibility)}

/-- A check of a record that is not PENDING changes nothing. -/
theorem onlyTime_of_claimOp (hop : ClaimOp r op)
    (hX : X.status ≠ .pending) (h : sem ch op s = some (ans, s')) : OnlyTime X s s' := by
  intro hlive
  refine ⟨ch.tick, ?_⟩
  have hne : (s.tick ch.tick).live ≠ some ⟨.pending, r⟩ := by
    intro heq
    rw [show (s.tick ch.tick).live = s.live from rfl, hlive] at heq
    exact hX (by rw [Option.some.inj heq])
  have hentry : compareAndSet (s.tick ch.tick).live (some ⟨.pending, r⟩)
      (some ⟨.running, r⟩) = (s.tick ch.tick).live := if_neg hne
  by_cases hout : op.table = .outside
  · exact sem_outside h hout
  · -- a lost claim writes the record back as it is
    have hcas : ∀ a s', effect ch op (s.tick ch.tick) = some (a, s') → s' = s.tick ch.tick := by
      intro a s' heff
      cases op
      case compareAndSetEntry | compareAndSetScript =>
        obtain ⟨rfl, rfl⟩ := hop
        cases heff
        rw [hentry]
      all_goals exact absurd hop hout
    obtain heff | ⟨-, heq | ⟨a', heff⟩⟩ := sem_cases h
    · exact hcas _ _ heff
    · exact heq
    · exact hcas _ _ heff

/-- What the threads rely on, and what they guarantee: the coordinator keeps the
record, the dispatchers let time pass. -/
def recoveryRely (X : JobProcessingStatusRecord) : Option ι → Store → Store → Prop
  | none => OnlyTime X
  | some _ => KeepsRecord X

def recoveryGuarantee (X : JobProcessingStatusRecord) : Option ι → Store → Store → Prop
  | none => KeepsRecord X
  | some _ => OnlyTime X

omit [DecidableEq ι] in
theorem recoveryGuarantee_keeps (h : recoveryGuarantee X i s s') : KeepsRecord X s s' := by
  cases i with
  | none => exact h
  | some i =>
    intro hlive
    obtain ⟨n, rfl⟩ := h hlive
    exact hlive

/-- Along every run the live record stays where the lost worker left it. -/
theorem live_of_recoverySystem (hX : X.status ≠ .pending) (hs : Lost app w r X s.jobId s)
    (h : Run (Step sem) (recoverySystem app x pages checks s) τ c') :
    ∀ e ∈ τ, e.pre.live = some X := by
  have hsafe := h.safe
    (R := recoveryRely X) (G := fun i _ _ => recoveryGuarantee X i)
    (Q := fun _ _ _ => True) (E := fun _ _ _ => True) ?_ ?_ ?_ ?_
  · have hkeep : ∀ c1 e c2, e ∈ τ → Step sem c1 e c2 → c1.store.live = some X →
        c2.store.live = some X := by
      intro c1 e c2 he hstep hlive
      have hG := hsafe.1 e he
      rw [← hstep.pre_eq] at hlive
      rw [← hstep.post_eq]
      exact recoveryGuarantee_keeps hG hlive
    intro e he
    obtain ⟨c1, c2, hc1, hstep⟩ := h.mem_step_mem hkeep hs.live he
    rw [hstep.pre_eq]
    exact hc1
  · rintro (- | i) s
    · exact onlyTime_refl s
    · exact fun h => h
  · rintro (- | i) s1 s2 s3 h1 h2
    · exact onlyTime_trans s1 s2 s3 h1 h2
    · exact fun h => h2 (h1 h)
  · rintro (- | i) (- | j) hij op ans s1 s2 hG
    · exact absurd rfl hij
    · exact hG
    · exact hG
    · exact recoveryGuarantee_keeps hG
  · rintro (- | i)
    · refine Safe.bind onlyTime_refl (Q := fun _ _ => True) (Safe.bind onlyTime_refl
        (Q := fun _ _ => True) ((safe_recoverLocked pages hs).mono (fun _ _ _ => trivial)
          fun _ _ _ => trivial) fun _ _ _ _ _ => trivial) fun _ _ _ _ _ => trivial
    · refine (Safe.of_calls (C := ClaimOp (checks i).d.data.retried)
        (I := fun s => s.live = some X) ?_ (fun s s' h hR => hR h)
        (fun op ch ans s1 s2 hop hlive hsem => ?_) hs.live).mono
        (fun _ _ _ => trivial) fun _ _ _ => trivial
      · show (do return some (← (checks i).check app) : M _).Calls _
        rw [RetryCheck.check_eq]
        exact (calls_check _ _).bind fun _ => by trivial
      · have hR := onlyTime_of_claimOp hop hX hsem
        refine ⟨hR, ?_⟩
        obtain ⟨n, rfl⟩ := hR hlive
        exact hlive

/-- Behind a verdict of Execute is a claim, or a missing record. -/
theorem executes_of_recoverySystem (h : Run (Step sem) (recoverySystem app x pages checks s) τ c')
    (he : e ∈ τ) (hi : e.thread = some i) (hres : e.result = some (.ok (some .execute))) :
    Claims (checks i).d e.op e.ans ∨ Missing e.op e.ans := by
  refine h.all_events (P := fun j op ans result => ∀ i, j = some i →
    result = some (.ok (some .execute)) → Claims (checks i).d op ans ∨ Missing op ans)
    (fun j => ?_) e he i hi hres
  cases j with
  | none => exact all_of_forall (fun _ _ _ _ hj => nomatch hj) _
  | some j =>
    show (do return some (← (checks j).check app) : M _).All _
    rw [RetryCheck.check_eq]
    refine (all_check app (checks j).d (checks j).ofRow).bind (fun _ => trivial) ?_ ?_ ?_
    · exact fun _ _ _ _ _ hres => nomatch hres
    · exact fun _ _ _ _ _ _ hres => nomatch hres
    · rintro op ans verdict hverdict i hij hres
      cases hij
      cases hres
      exact (hverdict rfl).imp_right And.right

/-- **The retry of a lost execution is never executed.**  The lost worker has
left the live record at RUNNING or WAIT_RESULT for attempt `r`; every stored
copy of the job is at attempt `r` and has a retry left.  Then in every
interleaving of the recovery with any number of dispatchers, before and after
it publishes attempt `r + 1`, no check of attempt `r + 1` returns Execute,
neither of a queue delivery nor of a fetched row. -/
theorem recovered_retry_never_executes {w : WorkerData} {r : UInt32}
    {st : JobProcessingStatus} (hst : st = .running ∨ st = .waitResult)
    (hlive : s.live = some ⟨st, r⟩) (hworker : s.worker = some w)
    (hretry : ∀ data, s.key = some data ∨ s.row = some data → Retryable app w r data)
    (h : Run (Step sem) (recoverySystem app x pages checks s) τ c') :
    ∀ e ∈ τ, ∀ i, e.thread = some i → (checks i).d.data.retried = r + 1 →
      e.result ≠ some (.ok (some .execute)) := by
  intro e he i hi hretried hres
  have hX : (⟨st, r⟩ : JobProcessingStatusRecord).status ≠ .pending := by
    rcases hst with rfl | rfl <;> simp
  have hpre := live_of_recoverySystem hX ⟨hlive, hworker, hretry, rfl⟩ h e he
  obtain ⟨c1, c2, -, hstep⟩ := h.mem_step (I := fun _ => True) (fun _ _ _ _ _ => trivial)
    trivial he
  obtain ⟨ch, hsem⟩ := hstep.sem_eq
  rcases executes_of_recoverySystem h he hi hres with hclaim | hmiss
  · -- a claim needs the record of the next attempt
    obtain ⟨hpending, -⟩ := live_of_applied hclaim hsem
    rw [hpre] at hpending
    exact hX (by rw [Option.some.inj hpending])
  · have hnone := live_of_missing hmiss hsem
    rw [hpre] at hnone
    cases hnone

end System

/-! ### A lost execution -/

/-- A job with one retry left, running on an instance that is gone. -/
def lostStore : Store :=
  { (default : Store) with
    jobId := ⟨1⟩
    clock := 1
    live := some ⟨.running, 0⟩
    worker := some { (default : WorkerData) with
      retryPolicy := some { (default : RetryPolicy) with
        type := RetryType.constant.toI32, maxRetry := 1 } }
    key := some { (default : JobData) with workerId := some ⟨1⟩ }
    index := some { (default : StatusIndexRow) with
      status := .running, workerInstanceId := some 7 } }

/-- A dispatcher's check of the retry's row. -/
def lostCheck : RetryCheck :=
  { d := { (default : Delivery) with data := { (default : JobData) with retried := 1 } }
    ofRow := true }

def lostSystem : System (Option Unit) (Option DispatchEligibility) :=
  recoverySystem { (default : App) with storage := .scalable, indexing := true }
    { (default : ExpiredInstance) with instanceId := 7 } 2 (fun _ => lostCheck) lostStore

/-- The recovery runs to its end, then the dispatcher checks the retry. -/
def lostSchedule : List (Option Unit × Choice) :=
  List.replicate 13 (none, { (default : Choice) with flag := true }) ++ [(some (), default)]

theorem lostStore_retryable (data : JobData)
    (h : lostStore.key = some data ∨ lostStore.row = some data) :
    Retryable { (default : App) with storage := .scalable, indexing := true }
      { (default : WorkerData) with
        retryPolicy := some { (default : RetryPolicy) with
          type := RetryType.constant.toI32, maxRetry := 1 } } 0 data := by
  rcases h with hkey | hrow
  · obtain rfl := Option.some.inj hkey
    exact ⟨rfl, fun _ _ => rfl⟩
  · cases hrow

/-- In that run no verdict is Execute. -/
theorem lostSystem_never_executes : lostStore.live = some ⟨.running, 0⟩ ∧
    ∀ e ∈ (lostSystem.play sem lostSchedule).1,
      e.thread = some () → e.result ≠ some (.ok (some .execute)) := by
  refine ⟨rfl, fun e he hi => ?_⟩
  exact recovered_retry_never_executes (.inl rfl) rfl rfl lostStore_retryable (run_play _ _) e he
    () hi rfl

/-- The recovery publishes attempt 1 as a row and returns, and the dispatcher
skips it: the record is still at attempt 0. -/
theorem lostSystem_skips :
    let c := (lostSystem.play sem lostSchedule).2
    c.threads none = .ret none ∧ c.store.row.map (·.retried) = some 1 ∧
      c.store.live = some ⟨.running, 0⟩ ∧
      (c.threads (some ())).result = some (.ok (some .skip)) :=
  ⟨rfl, rfl, rfl, rfl⟩

end Jobworkerp
