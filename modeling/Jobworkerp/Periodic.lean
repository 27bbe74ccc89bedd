/-
Jobworkerp/Periodic.lean

The chain of occurrences of a periodic job.

When an occurrence has finished, the result processor completes it and
enqueues the next one under the same job id.  Completing deletes the row and
the live record of the job, enqueueing creates them anew, and the two must not
overlap.  They are in this order as long as `complete_job` cleans up itself; an
output stream moves the clean-up to a background task, which then deletes what
belongs to the next occurrence, or keeps it from being created.

* `processes_processResult`: with the clean-up in place, whatever the
  background tasks do, the processor leaves the row and the PENDING record of
  the next occurrence.
* `ahead_processResult`, `run_tasks`: otherwise the processor, followed by
  its tasks, leaves no row.
* `periodic_survives_iff`: the chain survives every interleaving exactly if the
  occurrence has no output stream and is not Direct.
-/
import Jobworkerp.Cancellation
import Jobworkerp.DirectWaiters

namespace Jobworkerp

open Interleaving Prog List

/-! ### What the background tasks leave alone -/

/-- No clean-up is left to a background task. -/
def NoCleanup (s : Store) : Prop := Task.publishStreamThenCleanup ∉ s.tasks

/-- What the background tasks leave alone: everything but the index, the task
list and the time. -/
structure Kept (s s' : Store) : Prop where
  row : s'.row = s.row
  live : s'.live = s.live
  worker : s'.worker = s.worker
  runner : s'.runner = s.runner
  clock : s.clock ≤ s'.clock
  tasks : NoCleanup s → NoCleanup s'

theorem Kept.refl (s : Store) : Kept s s := ⟨rfl, rfl, rfl, rfl, le_refl _, id⟩

theorem Kept.trans (s1 s2 s3 : Store) (h : Kept s1 s2) (h' : Kept s2 s3) : Kept s1 s3 :=
  ⟨h'.row.trans h.row, h'.live.trans h.live, h'.worker.trans h.worker, h'.runner.trans h.runner,
    h.clock.trans h'.clock, fun hs => h'.tasks (h.tasks hs)⟩

theorem kept_tick (s : Store) (n : ℕ) : Kept s (s.tick n) :=
  ⟨rfl, rfl, rfl, rfl, le_add_of_nonneg_right (Int.natCast_nonneg n), id⟩

/-- The parts of the store that the chain does not depend on. -/
def Table.IsNeutral : Table → Prop
  | .outside | .index | .queue | .result => True
  | _ => False

variable {s s' : Store} {w : WorkerData} {runner : RunnerData} {start : ℤ} {row : Option JobData}
  {live : Option JobProcessingStatusRecord} {task : Task} {E : JobWorkerError → Store → Prop}
  {op : Op} {app : App} {dat : JobResultData} {stream : Bool} {req : EnqueueRequest}
  {jr : JobResult} {id : JobResultId} {direct : Prop}

theorem kept_of_neutral {t : Table} (ht : t.IsNeutral) (h : t.Frame s s') : Kept s s' := by
  cases t with
  | live | job | worker | task => exact ht.elim
  | outside => obtain rfl := h; exact Kept.refl _
  | index => obtain ⟨i, rfl⟩ := h; exact ⟨rfl, rfl, rfl, rfl, le_refl _, id⟩
  | queue => obtain ⟨q, r, k, rfl⟩ := h; exact ⟨rfl, rfl, rfl, rfl, le_refl _, id⟩
  | result => obtain ⟨r, p, rfl⟩ := h; exact ⟨rfl, rfl, rfl, rfl, le_refl _, id⟩

/-- A call outside the row, the record, the worker and the tasks. -/
theorem kept_of_call {ch : Choice} {op : Op} {a : Answer op}
    (hop : op.table.IsNeutral) (h : reliable ch op s = some (a, s')) : Kept s s' := by
  rw [reliable_eq_effect] at h
  exact (kept_tick s ch.tick).trans _ _ _ (kept_of_neutral hop (effect_frame h))

/-- Does the runner's method stream as the request asks? -/
def RunnerData.accepts (runner : RunnerData) (requestStreaming : Bool) : Bool :=
  match runner.outputType with
  | some .streaming => requestStreaming
  | some .nonStreaming => !requestStreaming
  | some .both => true
  | none => false

/-- The row of the next occurrence: due at the first start after `now`, and not
attempted yet. -/
def nextRunAfterTime (dat : JobResultData) (w : WorkerData) (now : ℤ) : ℤ :=
  calcNextRunAfterTime now dat.startTime dat.runAfterTime w.periodicInterval.toNat

/-- A finished occurrence of a periodic job: its job and its worker are known,
its result has no retry to build, and the method of the worker's runner can be
called as the occurrence was. -/
structure FinishedOccurrence (app : App) (jr : JobResult) (id : JobResultId)
    (dat : JobResultData) (w : WorkerData) (runner : RunnerData) : Prop where
  id_eq : jr.id = some id
  data_eq : jr.data = some dat
  job : dat.jobId.isSome
  worker : dat.workerId.isSome
  periodic : w.periodicInterval ≠ 0
  finished : buildRetryJob app.expo dat w jr.metadata = none
  accepts : runner.accepts (decide (StreamingType.ofI32 dat.streamingType ≠ .none))

/-- Marking a retry as cancelled changes nothing of the occurrence. -/
theorem FinishedOccurrence.markRetryCancelled (h : FinishedOccurrence app jr id dat w runner) :
    FinishedOccurrence app { jr with data := some (markRetryCancelled dat) } id
      (markRetryCancelled dat) w runner :=
  ⟨h.id_eq, rfl, h.job, h.worker, h.periodic, rfl, h.accepts⟩

/-- The calls of this interleaving: none waits for another thread, and no row
is written except by the enqueue of a job that is not Direct. -/
def ChainOp (direct : Prop) : Op → Prop
  | .popJob | .waitResult | .awaitPublished | .takeTask => False
  | .upsertRow _ _ | .upsertRowWithClaim _ _ => False
  | .createRow _ => ¬ direct
  | _ => True

/-! ### Following the processor

The processor is followed twice: against its background tasks, and ahead of
them.  The way through its functions is the same in any logic with the rules
below. -/

/-- From every store with `I` the program ends with `Q` or fails with `F`, where
`W` says what a program does from one store. -/
abbrev Leads (W : {α : Type} → M α → (α → Store → Prop) → (Store → Prop) → Store → Prop)
    {α : Type} (I : Store → Prop) (p : M α) (Q : α → Store → Prop) (F : Store → Prop) : Prop :=
  ∀ s, I s → W p Q F s

/-- The rules of a logic, in which what is `Stable` holds on between the calls. -/
structure Rules (W : {α : Type} → M α → (α → Store → Prop) → (Store → Prop) → Store → Prop)
    (Stable : (Store → Prop) → Prop) : Prop where
  ret {α : Type} {I F : Store → Prop} {a : α} {Q : α → Store → Prop} (hI : Stable I)
    (hQ : ∀ s, I s → Q a s) : Leads W I (ret a) Q F
  fail {α : Type} {I : Store → Prop} {e : JobWorkerError} {Q : α → Store → Prop}
    (hI : Stable I) : Leads W I (fail e) Q I
  bind {α β : Type} {I F : Store → Prop} {p : M α} {f : α → M β} {Q : α → Store → Prop}
    {Q' : β → Store → Prop} (hp : Leads W I p Q F) (hf : ∀ a, Leads W (Q a) (f a) Q' F) :
    Leads W I (p >>= f) Q' F
  attempt {α : Type} {I J F : Store → Prop} {p : M α} (hp : Leads W I p (fun _ => J) J) :
    Leads W I p.attempt (fun _ => J) F
  neutral {I : Store → Prop} {op : Op} (hop : op.table.IsNeutral) (hop' : ChainOp True op)
    (hI : Stable I) : Leads W I (invoke op) (fun _ => I) I

namespace Rules

variable {W : {α : Type} → M α → (α → Store → Prop) → (Store → Prop) → Store → Prop}
  {Stable : (Store → Prop) → Prop} {α : Type} {I J K F : Store → Prop} {p : M α}
  (rules : Rules W Stable)

include rules

theorem done (hI : Stable I) {a : α} : Leads W I (Prog.ret a) (fun _ => I) F :=
  rules.ret hI fun _ h => h

theorem discard (hJ : Stable J) (hp : Leads W I p (fun _ => J) F) :
    Leads W I p.discard (fun _ => J) F :=
  rules.bind hp fun _ => rules.done hJ

theorem ignore (hJ : Stable J) (hp : Leads W I p (fun _ => J) J) :
    Leads W I p.ignore (fun _ => J) F := rules.discard hJ (rules.attempt hp)

theorem when {p : M Unit} (hI : Stable I) (hp : Leads W I p (fun _ => I) F) :
    Leads W I (when b p) (fun _ => I) F := by
  cases b with
  | false => exact rules.done hI
  | true => exact hp

theorem cleanupJob (hI : Stable I) (hJ : Stable J) (hK : Stable K)
    (hrow : Leads W I (invoke .deleteRow) (fun _ => J) J)
    (hstatus : Leads W J (invoke .deleteStatus) (fun _ => K) K) :
    Leads W I (cleanupJob app) (fun _ => K) K := by
  have hindex : Leads W I (bestEffortIndex app .markIndexDeleted) (fun _ => I) K :=
    rules.when hI (rules.ignore hI (rules.neutral trivial trivial hI))
  have hkey : Leads W J (invoke .deleteKey).ignore (fun _ => J) K :=
    rules.ignore hJ (rules.neutral trivial trivial hJ)
  unfold Jobworkerp.cleanupJob
  split
  · refine rules.bind hindex fun _ => rules.bind (rules.ignore hJ hrow) fun _ => ?_
    exact rules.bind hkey fun _ => rules.discard hK hstatus
  · refine rules.bind hindex fun _ => rules.bind (rules.ignore hJ hrow) fun _ => ?_
    exact rules.discard hK hstatus

theorem finishCompletion (hI : Stable I) (hstream : stream = true →
      Leads W I (invoke (.spawn .publishStreamThenCleanup)) (fun _ => K) K)
    (hmarker : Leads W I (invoke (.spawn .publishEndMarker)) (fun _ => I) K)
    (hclean : stream = false → Leads W I (Jobworkerp.cleanupJob app) (fun _ => K) K) :
    Leads W I (finishCompletion app dat stream) (fun _ => K) K := by
  cases stream with
  | true => exact hstream rfl
  | false => exact rules.bind (rules.when hI hmarker) fun _ => hclean rfl

/-- `complete_job` publishes, and then it finishes or only cleans up. -/
theorem completeJob (hI : Stable I) (hK : Stable K) (hjob : dat.jobId.isSome)
    (hfinish : (ResponseType.tryFrom dat.responseType).isSome →
      Leads W I (Jobworkerp.finishCompletion app dat stream) (fun _ => K) K)
    (hclean : ResponseType.tryFrom dat.responseType = none →
      Leads W I (Jobworkerp.cleanupJob app) (fun _ => K) K) :
    Leads W I (completeJob app id dat stream) (fun _ => K) K := by
  obtain ⟨jid, hjid⟩ := Option.isSome_iff_exists.mp hjob
  have hpublish : ∀ toListen, Leads W I (publishResult id dat toListen) (fun _ => I) I := by
    intro toListen
    unfold publishResult
    split
    · exact rules.fail hI
    · exact rules.neutral trivial trivial hI
  unfold Jobworkerp.completeJob
  unfold Jobworkerp.cleanupJob at hclean
  split
  · unfold Hybrid.completeJob
    simp only [hjid, ‹app.storage = _›] at hclean ⊢
    split
    · rename_i htype
      refine rules.bind (rules.attempt (rules.neutral trivial trivial hI)) fun res => ?_
      refine rules.bind (rules.ignore hI (hpublish true)) fun _ => ?_
      refine rules.bind (hfinish (htype ▸ rfl)) fun _ => ?_
      cases res <;> [exact rules.fail hK; exact rules.done hK]
    · rename_i htype
      refine rules.bind (rules.attempt (hpublish _)) fun res => ?_
      refine rules.bind (hfinish (htype ▸ rfl)) fun _ => ?_
      cases res <;> [exact rules.fail hK; exact rules.done hK]
    · exact rules.bind (hclean ‹_›) fun _ => rules.done hK
  · unfold RdbChan.completeJob
    simp only [hjid, ‹app.storage = _›] at hclean ⊢
    split
    · rename_i htype
      refine rules.bind (rules.attempt (hpublish _)) fun res => ?_
      refine rules.bind (hfinish (htype ▸ rfl)) fun _ => ?_
      cases res <;> [exact rules.fail hK; exact rules.done hK]
    · exact rules.bind (hclean ‹_›) fun _ => rules.done hK

/-- `enqueue_job` is asked for the next occurrence, at the first start after now. -/
theorem enqueueNextOccurrence (h : FinishedOccurrence app jr id dat w runner) (hK : Stable K)
    (metadata : Metadata) (hnow : Leads W I (invoke .now) P K)
    (hjob : ∀ now wid pj, pj.runAfterTime = nextRunAfterTime dat w now →
      (resolveJobParams w pj.overrides).responseType = dat.responseType →
      pj.streamingType = dat.streamingType →
      Leads W (P now) (enqueueJob app (some wid) (nextOccurrenceRequest dat metadata pj))
        (fun _ => K) K) : Leads W I (enqueueNextOccurrence app dat w metadata) (fun _ => K) K := by
  obtain ⟨wid, hwid⟩ := Option.isSome_iff_exists.mp h.worker
  unfold Jobworkerp.enqueueNextOccurrence
  rw [if_neg h.periodic]
  refine rules.bind hnow fun now => ?_
  unfold buildNextPeriodicJob
  rw [if_neg h.periodic, hwid]
  exact rules.discard hK (hjob now wid _ rfl rfl rfl)

/-- The finished branch: completed, enqueued again, and the outcome of the
completion reported. -/
theorem processComplete (hK : Stable K)
    (hcomplete : Leads W I (Jobworkerp.completeJob app id dat stream) (fun _ => J) J)
    (hnext : Leads W J (Jobworkerp.enqueueNextOccurrence app dat w metadata) (fun _ => K) K)
    (htemp : Leads W K (invoke .deleteTempWorker) (fun _ => K) K) :
    Leads W I (processComplete app id dat stream w metadata) (fun _ => K) K := by
  refine rules.bind (rules.attempt hcomplete) fun res => rules.bind hnext fun _ => ?_
  refine rules.bind (rules.when hK (rules.ignore hK htemp)) fun _ => ?_
  cases res <;> [exact rules.fail hK; exact rules.done hK]

/-- A pending cancellation only turns a retryable result into a cancelled one;
the result is stored after the finished branch. -/
theorem processResult (h : FinishedOccurrence app jr id dat w runner) (hI : Stable I)
    (hK : Stable K) (hstatus : Leads W I (invoke .getStatus) (fun _ => I) K)
    (hcomplete : ∀ d, d = dat ∨ d = markRetryCancelled dat →
      Leads W I (Jobworkerp.processComplete app id d stream w jr.metadata) (fun _ => K) K) :
    Leads W I (processResult app jr stream w) (fun _ => K) K := by
  obtain ⟨jid, data, metadata⟩ := jr
  obtain rfl : jid = some id := h.id_eq
  obtain rfl : data = some dat := h.data_eq
  have hcancel : Leads W I (cancelRetryableResultIfRequested dat)
      (fun d s => I s ∧ (d = dat ∨ d = markRetryCancelled dat)) K := by
    unfold cancelRetryableResultIfRequested
    split
    · exact rules.ret hI fun _ h => ⟨h, .inl rfl⟩
    · split
      · exact rules.ret hI fun _ h => ⟨h, .inl rfl⟩
      · refine rules.bind hstatus fun record => ?_
        split
        · exact rules.ret hI fun _ h => ⟨h, .inr rfl⟩
        · exact rules.ret hI fun _ h => ⟨h, .inl rfl⟩
  refine rules.bind hcancel fun d s ⟨hs, hd⟩ => ?_
  have hfinished : buildRetryJob app.expo d w metadata = none := by
    rcases hd with rfl | rfl
    · exact h.finished
    · exact h.markRetryCancelled.finished
  have hstore : Leads W I (processCompleteOrRetryCondition app id d stream w metadata)
      (fun _ => K) K := by
    unfold processCompleteOrRetryCondition
    rw [hfinished]
    exact rules.bind (rules.attempt (hcomplete d hd)) fun _ => rules.done hK
  refine rules.bind hstore (fun ⟨_, res⟩ => ?_) s hs
  refine rules.bind (rules.discard hK (rules.neutral trivial trivial hK)) fun _ => ?_
  cases res <;> [exact rules.fail hK; exact rules.done hK]

end Rules

/-! ### The processor, step by step -/

/-- The store between two calls of the processor: the worker and its runner are
there, no clean-up is left to a task, and the row and the record are known. -/
structure At (w : WorkerData) (runner : RunnerData) (start : ℤ) (row : Option JobData)
    (live : Option JobProcessingStatusRecord) (s : Store) : Prop where
  worker : s.worker = some w
  runner : s.runner = some runner
  clock : start ≤ s.clock
  tasks : NoCleanup s
  row : s.row = row
  live : s.live = live

/-- A program of the processor, against the background tasks. -/
abbrev Processes {α : Type} (p : M α) (Q : α → Store → Prop)
    (E : JobWorkerError → Store → Prop) (s : Store) : Prop :=
  p.Safe reliable Kept (fun _ _ s s' => NoCleanup s → NoCleanup s') Q E s

section Steps

theorem At.kept (h : At w runner start row live s) (hk : Kept s s') :
    At w runner start row live s' :=
  ⟨hk.worker.trans h.worker, hk.runner.trans h.runner, h.clock.trans hk.clock, hk.tasks h.tasks,
    hk.row.trans h.row, hk.live.trans h.live⟩

theorem At.stable (s s' : Store) (h : At w runner start row live s) (hk : Kept s s') :
    At w runner start row live s' := h.kept hk

theorem At.setRow (h : At w runner start row live s) (row' : Option JobData) :
    At w runner start row' live { s with row := row' } :=
  ⟨h.worker, h.runner, h.clock, h.tasks, rfl, h.live⟩

theorem At.setLive (h : At w runner start row live s) (live' : Option JobProcessingStatusRecord) :
    At w runner start row live' { s with live := live' } :=
  ⟨h.worker, h.runner, h.clock, h.tasks, h.row, rfl⟩

variable {J : Store → Prop} {requestStreaming : Bool}

theorem At.addTask (h : At w runner start row live s) (htask : task ≠ .publishStreamThenCleanup) :
    At w runner start row live { s with tasks := s.tasks ++ [task] } := by
  refine ⟨h.worker, h.runner, h.clock, fun hmem => ?_, h.row, h.live⟩
  rcases mem_append.mp hmem with hmem | hmem
  · exact h.tasks hmem
  · exact htask (mem_singleton.mp hmem).symm

theorem processes_invoke (hJ : ∀ s s', J s → Kept s s' → J s') (hs : J s)
    (hcall : ∀ ch s1 a s2, J s1 → effect ch op s1 = some (a, s2) →
      (NoCleanup s1 → NoCleanup s2) ∧ ∀ s3, Kept s2 s3 → Ends Q E a s3) :
    Processes (invoke op) Q E s := by
  refine Safe.perform hJ hs fun s1 ch a s2 h1 hsem => ?_
  rw [reliable_eq_effect] at hsem
  obtain ⟨htasks, hend⟩ := hcall _ _ a s2 (hJ _ _ h1 (kept_tick s1 ch.tick)) hsem
  exact ⟨htasks, hend⟩

/-- A neutral call; whether it fails does not matter. -/
theorem processes_neutral (hop : op.table.IsNeutral) (hJ : ∀ s s', J s → Kept s s' → J s')
    (hs : J s) : Processes (invoke op) (fun _ => J) (fun _ => J) s := by
  refine processes_invoke hJ hs fun ch s1 a s2 h1 heff => ?_
  have hkept := kept_of_neutral hop (effect_frame heff)
  refine ⟨hkept.tasks, fun s3 hk => ?_⟩
  have h3 := hJ s2 s3 (hJ s1 s2 h1 hkept) hk
  cases a with
  | ok | error => exact h3

theorem processes_rules : Rules (fun p Q F => Processes p Q fun _ => F)
    fun I => ∀ s s', I s → Kept s s' → I s' where
  ret hI hQ s hs s' hk := hQ s' (hI s s' hs hk)
  fail hI s hs s' hk := hI s s' hs hk
  bind hp hf s hs := Safe.bind Kept.refl (hp s hs) hf
  attempt hp s hs := (hp s hs).attempt.mono (fun _ _ h => h.of_const) fun _ _ h => h
  neutral hop _ hI _ hs := processes_neutral hop hI hs

theorem processes_answer {P : Resp op → Prop} (hs : At w runner start row live s)
    (hP : ∀ ch s1, At w runner start row live s1 → ∃ x, effect ch op s1 = some (.ok x, s1) ∧ P x) :
    Processes (invoke op) (fun x s => At w runner start row live s ∧ P x) E s := by
  refine processes_invoke At.stable hs fun ch s1 a s2 h1 heff => ?_
  obtain ⟨x, hx, hPx⟩ := hP ch s1 h1
  rw [hx] at heff
  cases heff
  exact ⟨id, fun s3 hk => ⟨h1.kept hk, hPx⟩⟩

theorem processes_spawn (htask : task ≠ .publishStreamThenCleanup)
    (hs : At w runner start row live s) :
    Processes (invoke (.spawn task)) (fun _ => At w runner start row live) E s := by
  refine processes_invoke At.stable hs fun ch s1 a s2 h1 heff => ?_
  cases heff
  have h2 := h1.addTask htask
  exact ⟨fun _ => h2.tasks, fun s3 hk => h2.kept hk⟩

theorem processes_ret {a : α} (hs : At w runner start row live s)
    (hQ : ∀ s', At w runner start row live s' → Q a s') : Processes (ret a) Q E s :=
  fun _ hk => hQ _ (hs.kept hk)

/-- **The clean-up deletes the row and the record.** -/
theorem processes_cleanupJob (app : App) (hs : At w runner start row live s) :
    Processes (cleanupJob app) (fun _ => At w runner start none none)
      (fun _ => At w runner start none none) s := by
  refine processes_rules.cleanupJob At.stable At.stable At.stable
    (J := At w runner start none live) (fun s hs => ?_) (fun s hs => ?_) s hs
  · refine processes_invoke At.stable hs fun ch s1 a s2 h1 heff => ?_
    cases heff
    exact ⟨id, fun s3 hk => (h1.setRow none).kept hk⟩
  · refine processes_invoke At.stable hs fun ch s1 a s2 h1 heff => ?_
    cases heff
    exact ⟨id, fun s3 hk => (h1.setLive none).kept hk⟩

/-- Does `complete_job` leave the clean-up to a background task? -/
def defersCleanup (dat : JobResultData) (stream : Bool) : Bool :=
  stream && (ResponseType.tryFrom dat.responseType).isSome

/-- **A completion that does not defer the clean-up leaves nothing of the job.** -/
theorem processes_completeJob (app : App) (id : JobResultId) (hjob : dat.jobId.isSome)
    (hdefers : defersCleanup dat stream = false) (hs : At w runner start row live s) :
    Processes (completeJob app id dat stream) (fun _ => At w runner start none none)
      (fun _ => At w runner start none none) s := by
  refine processes_rules.completeJob At.stable At.stable hjob (fun hsome => ?_)
    (fun _ _ => processes_cleanupJob app) s hs
  have hstream : stream = false := by
    unfold defersCleanup at hdefers
    rw [hsome, Bool.and_true] at hdefers
    exact hdefers
  exact processes_rules.finishCompletion At.stable (fun h => nomatch hstream.symm.trans h)
    (fun _ => processes_spawn nofun) fun _ _ => processes_cleanupJob app

/-! ### The next occurrence -/

theorem processes_now (hs : At w runner start row live s) :
    Processes (invoke .now) (fun n s => start ≤ n ∧ At w runner n row live s) E s := by
  refine processes_invoke At.stable hs fun ch s1 a s2 h1 heff => ?_
  cases heff
  refine ⟨id, fun s3 hk => ⟨h1.clock, ?_⟩⟩
  have h2 : At w runner s1.clock row live s1 :=
    ⟨h1.worker, h1.runner, le_refl _, h1.tasks, h1.row, h1.live⟩
  exact h2.kept hk

theorem processes_findWorker (hs : At w runner start row live s) :
    Processes (invoke .findWorker) (fun x s => At w runner start row live s ∧ x = some w) E s :=
  processes_answer hs fun _ s1 h1 => ⟨s1.worker, rfl, h1.worker⟩

theorem processes_checkWorkerDataStreaming (haccepts : runner.accepts requestStreaming)
    (hs : At w runner start row live s) : Processes (checkWorkerDataStreaming requestStreaming)
      (fun _ => At w runner start row live) E s := by
  refine Safe.bind Kept.refl
    (processes_answer (P := fun x => x = some runner) hs fun _ s1 h1 => ⟨s1.runner, rfl, h1.runner⟩)
    fun x s1 ⟨h1, hx⟩ => ?_
  subst hx
  unfold RunnerData.accepts at haccepts
  dsimp only
  rcases houtput : runner.outputType with - | output
  · rw [houtput] at haccepts
    cases haccepts
  · rw [houtput] at haccepts
    cases output with
    | streaming =>
      obtain rfl : requestStreaming = true := haccepts
      exact fun _ hk => h1.kept hk
    | nonStreaming =>
      obtain rfl : requestStreaming = false := by simpa using haccepts
      exact fun _ hk => h1.kept hk
    | both => exact fun _ hk => h1.kept hk

theorem processes_checkWorkerStreaming (haccepts : runner.accepts requestStreaming)
    (hs : At w runner start row live s) : Processes (checkWorkerStreaming requestStreaming)
      (fun _ => At w runner start row live) E s := by
  refine Safe.bind Kept.refl (processes_findWorker hs) fun x s1 ⟨h1, hx⟩ => ?_
  subst hx
  exact processes_checkWorkerDataStreaming haccepts h1

/-! ### Enqueueing -/

/-- Without a record an upsert starts at attempt 0. -/
theorem processes_publishPending (hs : At w runner start row none s) :
    Processes (publishPending app) (fun _ => At w runner start row (some ⟨.pending, 0⟩)) E s := by
  have hput : ∀ s, At w runner start row none s →
      Processes (invoke (.putStatus ⟨.pending, 0⟩))
        (fun _ => At w runner start row (some ⟨.pending, 0⟩)) E s := by
    intro s hs
    refine processes_invoke At.stable hs fun ch s1 a s2 h1 heff => ?_
    cases heff
    exact ⟨id, fun s3 hk => (h1.setLive _).kept hk⟩
  refine Safe.bind Kept.refl (Q := fun _ => At w runner start row (some ⟨.pending, 0⟩)) ?_
    fun _ s1 h1 => processes_ret h1 fun _ h => h
  refine Safe.bind Kept.refl
    (processes_answer (P := fun x => x = none) hs fun _ s1 h1 => ⟨s1.live, rfl, h1.live⟩)
    fun x s1 ⟨h1, hx⟩ => ?_
  subst hx
  refine Safe.bind Kept.refl (hput s1 h1) fun existed s2 h2 => ?_
  cases app.storage with
  | standalone | scalable => exact fun _ hk => h2.kept hk

/-- The row of the next occurrence is created, and its PENDING record. -/
theorem processes_createRdbOnly
    (hindex : ∀ s, At w runner start (some (createdRowOf data)) (some ⟨.pending, 0⟩) s →
      Processes index
        (fun _ => At w runner start (some (createdRowOf data)) (some ⟨.pending, 0⟩)) E s)
    (hs : At w runner start none none s) :
    Processes (createRdbOnly data do publishPending app; index)
      (fun _ => At w runner start (some (createdRowOf data)) (some ⟨.pending, 0⟩)) E s := by
  have hcreate : Processes (invoke (.createRow data))
      (fun created s => At w runner start (some (createdRowOf data)) none s ∧ created = true)
      E s := by
    refine processes_invoke At.stable hs fun ch s1 a s2 h1 heff => ?_
    simp only [effect, h1.row] at heff
    cases heff
    exact ⟨id, fun s3 hk => ⟨(h1.setRow _).kept hk, rfl⟩⟩
  refine Safe.bind Kept.refl hcreate ?_
  rintro _ s1 ⟨h1, rfl⟩
  refine Safe.bind Kept.refl (Q := fun _ => At w runner start _ (some ⟨.pending, 0⟩)) ?_
    fun _ s2 h2 => processes_ret h2 fun _ h => h
  refine Safe.bind Kept.refl ?_ fun _ s2 h2 => hindex s2 h2
  exact processes_publishPending h1

/-- The job built from the request of a periodic worker keeps its start time. -/
theorem processes_prepareJob {wid : WorkerId} {req : EnqueueRequest} (hafter : 0 < req.runAfterTime)
    (htype : (resolveJobParams w req.overrides).responseType ≠ ResponseType.direct.toI32)
    (hs : At w runner start row live s) : Processes (prepareJob app wid w req)
      (fun r s => At w runner start row live s ∧
        r.2.runAfterTime = req.runAfterTime ∧ r.2.retried = 0) E s := by
  refine Safe.bind Kept.refl (processes_answer (P := fun _ => True) hs fun _ s1 _ =>
    ⟨s1.clock, rfl, trivial⟩) fun enqueueTime s1 ⟨h1, _⟩ => ?_
  rw [if_neg fun h => htype h.2]
  refine Safe.bind Kept.refl (processes_answer (P := fun _ => True) h1 fun ch _ _ =>
    ⟨ch.number, rfl, trivial⟩) fun generated s2 ⟨h2, _⟩ => ?_
  split
  · rename_i hzero
    exact absurd hzero.2 hafter.ne'
  · exact fun _ hk => ⟨h2.kept hk, rfl, rfl⟩

theorem processes_validateResponseQueueType
    (htype : responseType ≠ ResponseType.direct.toI32) (hs : At w runner start row live s) :
    Processes (validateResponseQueueType queueType responseType)
      (fun _ => At w runner start row live) E s := by
  unfold validateResponseQueueType
  rw [if_neg fun h => htype h.1]
  exact fun _ hk => hs.kept hk

/-- What an enqueue of a periodic job leaves. -/
def Enqueued (w : WorkerData) (runner : RunnerData) (start runAfterTime : ℤ) (s : Store) : Prop :=
  ∃ row : JobData, At w runner start (some row) (some ⟨.pending, 0⟩) s ∧
    row.runAfterTime = runAfterTime ∧ row.retried = 0

theorem processes_indexJobStatusAsync (app : App) (wid : WorkerId) (data : JobData)
    (isStreamable : Bool) (hs : At w runner start row live s) :
    Processes (indexJobStatusAsync app wid w data isStreamable)
      (fun _ => At w runner start row live) E s := by
  have htask : ∀ update, Task.indexStatus .pending update ≠ .publishStreamThenCleanup := nofun
  unfold indexJobStatusAsync
  cases app.indexing with
  | false => exact fun _ hk => hs.kept hk
  | true => exact processes_spawn (htask _) hs

section Request

variable (hperiodic : w.periodicInterval ≠ 0) (hafter : 0 < req.runAfterTime)
  (htype : (resolveJobParams w req.overrides).responseType ≠ ResponseType.direct.toI32)

include hperiodic

/-- A periodic job goes to the RDB table, whatever the queue type. -/
theorem isPeriodicOrRunAfter_periodic (app : App) (data : JobData) :
    isPeriodicOrRunAfter app w data = pure true := by
  unfold isPeriodicOrRunAfter
  rw [if_pos (UInt32.pos_iff_ne_zero.mpr hperiodic)]

include htype

variable {jid : JobId} {data : JobData}

theorem Hybrid.processes_enqueuePath (hs : At w runner start none none s) :
    Processes (Hybrid.enqueuePath app w req jid data (pure ()))
      (fun _ => At w runner start (some (createdRowOf data)) (some ⟨.pending, 0⟩)) E s := by
  unfold Hybrid.enqueuePath
  rw [if_neg htype, isPeriodicOrRunAfter_periodic hperiodic]
  exact processes_createRdbOnly (fun _ h => processes_ret h fun _ h => h) hs

theorem RdbChan.processes_enqueuePath (hs : At w runner start none none s) :
    Processes (RdbChan.enqueuePath app wid w req jid data)
      (fun _ => At w runner start (some (createdRowOf data)) (some ⟨.pending, 0⟩)) E s := by
  unfold RdbChan.enqueuePath
  rw [if_neg htype, isPeriodicOrRunAfter_periodic hperiodic]
  exact processes_createRdbOnly
    (fun _ h => processes_indexJobStatusAsync app wid data _ h) hs

include hafter

/-- **The enqueue of a periodic job on a clean slate.** -/
theorem processes_enqueueJob (wid : WorkerId)
    (haccepts : runner.accepts (decide (req.streamingType ≠ .none)))
    (hs : At w runner start none none s) : Processes (enqueueJob app (some wid) req)
      (fun _ => Enqueued w runner start req.runAfterTime) E s := by
  unfold enqueueJob
  split
  · refine Safe.bind Kept.refl (processes_findWorker hs) fun x s1 ⟨h1, hx⟩ => ?_
    subst hx
    refine Safe.bind Kept.refl (processes_checkWorkerStreaming haccepts h1) fun _ s2 h2 => ?_
    refine Safe.bind Kept.refl (processes_validateResponseQueueType htype h2) fun _ s3 h3 => ?_
    refine Safe.bind Kept.refl (processes_prepareJob hafter htype h3)
      fun job s4 ⟨h4, hafter', hretried⟩ => ?_
    refine Safe.bind Kept.refl (Hybrid.processes_enqueuePath hperiodic htype h4) fun _ s5 h5 => ?_
    exact fun _ hk => ⟨_, h5.kept hk, hafter', hretried⟩
  · refine Safe.bind Kept.refl (processes_findWorker hs) fun x s1 ⟨h1, hx⟩ => ?_
    subst hx
    refine Safe.bind Kept.refl (processes_checkWorkerDataStreaming haccepts h1) fun _ s2 h2 => ?_
    refine Safe.bind Kept.refl (processes_validateResponseQueueType htype h2) fun _ s3 h3 => ?_
    refine Safe.bind Kept.refl (processes_prepareJob hafter htype h3)
      fun job s4 ⟨h4, hafter', hretried⟩ => ?_
    refine Safe.bind Kept.refl (RdbChan.processes_enqueuePath hperiodic htype h4)
      fun _ s5 h5 => ?_
    exact fun _ hk => ⟨_, h5.kept hk, hafter', hretried⟩

end Request

end Steps

/-! ### The result processor -/

/-- **The chain has survived**: the one row and the record are those of the next
occurrence, due at the first start after a moment since `start`. -/
def Survives (dat : JobResultData) (w : WorkerData) (start : ℤ) (s : Store) : Prop :=
  ∃ row now, s.row = some row ∧ start ≤ now ∧ now ≤ s.clock ∧
    row.runAfterTime = nextRunAfterTime dat w now ∧ row.retried = 0 ∧
    s.live = some ⟨.pending, 0⟩

theorem Survives.congr (h : Survives dat w start s) (hrow : s'.row = s.row)
    (hlive : s'.live = s.live) (hclock : s.clock ≤ s'.clock) : Survives dat w start s' := by
  obtain ⟨row, now, hr, hstart, hnow, hafter, hretried, hl⟩ := h
  exact ⟨row, now, hrow.trans hr, hstart, hnow.trans hclock, hafter, hretried, hlive.trans hl⟩

theorem Survives.stable (s s' : Store)
    (h : Survives dat w start s) (hk : Kept s s') : Survives dat w start s' :=
  h.congr hk.row hk.live hk.clock

section Processor

variable (h : FinishedOccurrence app jr id dat w runner)
  (htype : dat.responseType ≠ ResponseType.direct.toI32) (hstart : 0 < start)

include h htype hstart

/-- **The next occurrence is enqueued** once nothing of the last one is left. -/
theorem processes_enqueueNextOccurrence (metadata : Metadata) (hs : At w runner start none none s) :
    Processes (enqueueNextOccurrence app dat w metadata) (fun _ => Survives dat w start)
      (fun _ => Survives dat w start) s := by
  refine processes_rules.enqueueNextOccurrence h Survives.stable metadata
    (fun _ => processes_now) (fun now wid pj hafter hresponse hstreaming s1 ⟨hnow, h1⟩ => ?_) s hs
  have hpos : 0 < pj.runAfterTime := by
    rw [hafter]
    exact lt_of_lt_of_le hstart
      (hnow.trans (le_calcNextRunAfterTime (periodicInterval_pos h.periodic)))
  refine (processes_enqueueJob h.periodic hpos (hresponse.symm ▸ htype) wid ?_ h1).mono ?_
    fun _ _ h => h
  · simpa only [nextOccurrenceRequest, hstreaming] using h.accepts
  · rintro _ s2 ⟨row, h2, hrow, hretried⟩
    exact ⟨row, now, h2.row, hnow, h2.clock, hrow.trans hafter, hretried, h2.live⟩

theorem processes_processComplete (hdefers : defersCleanup dat stream = false)
    (metadata : Metadata) (hs : At w runner start row live s) :
    Processes (processComplete app id dat stream w metadata) (fun _ => Survives dat w start)
      (fun _ => Survives dat w start) s := by
  refine processes_rules.processComplete Survives.stable
    (fun _ => processes_completeJob app id h.job hdefers)
    (fun _ => processes_enqueueNextOccurrence h htype hstart metadata) (fun s hs => ?_) s hs
  refine processes_invoke Survives.stable hs fun ch s1 a s2 h1 heff => ?_
  cases heff
  have h2 : Survives dat w start
      { s1 with worker := if s1.tempWorker then none else s1.worker } :=
    h1.congr rfl rfl (le_refl _)
  exact ⟨fun hs => hs, fun s3 hk => Survives.stable _ _ h2 hk⟩

/-- **With the clean-up in place the processor leaves the next occurrence**,
whatever the background tasks do. -/
theorem processes_processResult (hdefers : defersCleanup dat stream = false)
    (hs : At w runner start row live s) :
    Processes (processResult app jr stream w) (fun _ => Survives dat w start)
      (fun _ => Survives dat w start) s := by
  refine processes_rules.processResult h At.stable Survives.stable
    (fun s hs => processes_invoke At.stable hs fun _ _ _ _ h1 heff => ?_) ?_ s hs
  · cases heff
    exact ⟨fun hs => hs, fun s3 hk => h1.kept hk⟩
  · rintro d (rfl | rfl) s1 h1
    · exact processes_processComplete h htype hstart hdefers jr.metadata h1
    · exact processes_processComplete h.markRetryCancelled htype hstart hdefers jr.metadata h1

end Processor

/-! ### The processor and its background tasks -/

/-- The processor of one result, and threads of the runtime for the tasks. -/
def chainSystem (app : App) (jr : JobResult) (stream : Bool) (w : WorkerData) (s : Store) :
    System (Option ℕ) Unit :=
  { threads := fun
      | none => (processResult app jr stream w).discard
      | some _ => taskRunner app
    store := s }

/-- `process_result` has returned and every task it spawned has ended. -/
structure Settled (app : App) (c : System (Option ℕ) Unit) : Prop where
  returned : (c.threads none).result.isSome
  tasks : c.store.tasks = []
  ended : ∀ n, c.threads (some n) = taskRunner app ∨ (c.threads (some n)).result.isSome

/-- What a thread relies on: the processor on `Kept`, a task on the absence of
clean-ups. -/
def chainRely : Option ℕ → Store → Store → Prop
  | none => Kept
  | some _ => fun s s' => NoCleanup s → NoCleanup s'

/-- What a thread guarantees. -/
def chainGuarantee : Option ℕ → (op : Op) → Except JobWorkerError (Resp op) →
    Store → Store → Prop
  | none => fun _ _ s s' => NoCleanup s → NoCleanup s'
  | some _ => fun _ _ => Kept

theorem chainRely_refl (i : Option ℕ) (s : Store) : chainRely i s s := by
  cases i with
  | none => exact Kept.refl s
  | some n => exact id

theorem chainRely_trans (i : Option ℕ) (s1 s2 s3 : Store) (h : chainRely i s1 s2)
    (h' : chainRely i s2 s3) : chainRely i s1 s3 := by
  cases i with
  | none => exact Kept.trans s1 s2 s3 h h'
  | some n => exact h' ∘ h

theorem chainRely_of_guarantee (i j : Option ℕ) (hij : i ≠ j) (op : Op)
    (a : Answer op) (s s' : Store) (h : chainGuarantee j op a s s') : chainRely i s s' := by
  cases i with
  | none =>
    cases j with
    | none => exact absurd rfl hij
    | some m => exact h
  | some n =>
    cases j with
    | none => exact h
    | some m => exact h.tasks

theorem effect_takeTask {a : Except JobWorkerError Task}
    (h : effect ch .takeTask s = some (a, s')) :
    ∃ task ∈ s.tasks, a = .ok task ∧
      s' = { s with tasks := s.tasks.eraseIdx ch.number.toNat } := by
  simp only [effect] at h
  split at h
  · rename_i task htask
    cases h
    exact ⟨task, mem_of_getElem? htask, rfl, rfl⟩
  · cases h

/-- A task other than a clean-up keeps what the processor relies on. -/
theorem safe_taskRunner (app : App) (hs : NoCleanup s) :
    (taskRunner app).Safe reliable (fun s s' => NoCleanup s → NoCleanup s') (fun _ _ => Kept)
      (fun _ _ => True) (fun _ _ => True) s := by
  have hneutral : ∀ op : Op, op.table.IsNeutral → ∀ s, NoCleanup s →
      (invoke op).ignore.Safe reliable (fun s s' => NoCleanup s → NoCleanup s')
        (fun _ _ => Kept) (fun _ _ => True) (fun _ _ => True) s := by
    intro op hop s hs
    refine Safe.ignore (Safe.perform (J := NoCleanup) (fun s s' h hR => hR h) hs ?_)
    intro s1 ch ans s2 _ hsem
    refine ⟨kept_of_call hop hsem, fun _ _ => ?_⟩
    cases ans <;> trivial
  refine Safe.bind (Q := fun task s => NoCleanup s ∧ task ≠ .publishStreamThenCleanup)
    (fun _ => id) (Safe.perform (J := NoCleanup) (fun s s' h hR => hR h) hs ?_) ?_
  · intro s1 ch ans s2 h1 hsem
    obtain ⟨task, hmem, rfl, rfl⟩ := effect_takeTask hsem
    have h2 : NoCleanup { s1.tick ch.tick with
        tasks := (s1.tick ch.tick).tasks.eraseIdx ch.number.toNat } :=
      fun h => h1 (mem_of_mem_eraseIdx h)
    refine ⟨⟨rfl, rfl, rfl, rfl, le_add_of_nonneg_right (Int.natCast_nonneg _), fun _ => h2⟩,
      fun s3 hR => ⟨hR h2, ?_⟩⟩
    rintro rfl
    exact h1 hmem
  · rintro task s1 ⟨h1, htask⟩
    cases task with
    | publishStreamThenCleanup => exact absurd rfl htask
    | publishEndMarker => exact hneutral .publishStream trivial s1 h1
    | indexStatus status update => exact hneutral (.indexStatus status update) trivial s1 h1

/-! ### The processor ahead of its tasks

In the interleaving in which the tasks only start when the processor has
returned, a deferred clean-up deletes whatever the processor has enqueued, and
a Direct occurrence has nothing enqueued at all.  No call on the way blocks. -/

/-- The chain is lost: a clean-up is due, or the row is gone for good. -/
def Doomed (direct : Prop) (s : Store) : Prop :=
  Task.publishStreamThenCleanup ∈ s.tasks ∨ direct ∧ s.row = none

/-- The worker is `w` as long as it is there, and the clock is past the epoch. -/
def Steady (w : WorkerData) (s : Store) : Prop := (∀ v, s.worker = some v → v = w) ∧ 0 < s.clock

section Doom

variable {ch : Choice} {a : Answer op}

theorem exists_effect (hop : ChainOp direct op) (ch : Choice) (s : Store) :
    ∃ a s', effect ch op s = some (a, s') := by
  cases op <;> first
    | exact hop.elim
    | exact ⟨_, _, rfl⟩
    | (simp only [effect]; split <;> exact ⟨_, _, rfl⟩)
    | (simp only [effect]; split <;> [exact ⟨_, _, rfl⟩; split <;> exact ⟨_, _, rfl⟩])

theorem Steady.effect (hs : Steady w s) (h : effect ch op s = some (a, s')) : Steady w s' := by
  refine ⟨?_, (effect_frame h).clock.symm ▸ hs.2⟩
  rcases worker_of_effect h with heq | hnone
  · rw [heq]
    exact hs.1
  · intro v hv
    rw [hnone] at hv
    cases hv

theorem ChainOp.createsRow (hop : ChainOp direct op) (hd : direct) : op.createsRow = false := by
  cases op <;> first | rfl | exact hop.elim | exact absurd hd hop

theorem Doomed.effect (hop : ChainOp direct op) (hs : Doomed direct s)
    (h : effect ch op s = some (a, s')) : Doomed direct s' := by
  rcases hs with hmem | ⟨hd, hrow⟩
  · refine .inl ?_
    by_cases ht : op.table = .task
    · cases op <;> simp only [Op.table, reduceCtorEq] at ht
      case spawn => cases h; exact mem_append_left _ hmem
      case takeTask => exact hop.elim
    · rwa [(effect_frame h).tasks ht]
  · exact .inr ⟨hd, row_none_of_effect (hop.createsRow hd) hrow h⟩

/-- What the calls of this interleaving preserve. -/
abbrev Preserved (direct : Prop) (I : Store → Prop) : Prop :=
  ∀ op ch s a s', ChainOp direct op → I s → Jobworkerp.effect ch op s = some (a, s') → I s'

/-- A program of the processor, with no other thread in between. -/
abbrev Ahead {α : Type} (p : M α) (Q : α → Store → Prop) (F : Store → Prop) (s : Store) : Prop :=
  p.Reaches reliable s (Ends Q fun _ => F)

variable {α : Type} {p : M α} {I : Store → Prop}

/-- What the calls preserve holds at the end of some execution. -/
theorem ahead_of_calls (hI : Preserved direct I) (hp : p.Calls (ChainOp direct)) (hs : I s) :
    Ahead p (fun _ => I) I s := by
  refine (Reaches.of_calls hp (fun op s hop hs => ?_) hs).mono fun r _ h => ?_
  · obtain ⟨a, s', h⟩ := exists_effect hop default s
    exact ⟨default, a, s', (reliable_default op s).trans h, hI op default s a s' hop hs h⟩
  · cases r with
    | ok | error => exact h

theorem ChainOp.of_true (h : ChainOp True op) : ChainOp direct op := by
  cases op <;> first | exact h | exact (h trivial).elim

theorem ahead_rules (direct : Prop) : Rules Ahead (Preserved direct) where
  ret _ hQ s hs := reaches_ret (hQ s hs)
  fail _ _ hs := reaches_fail hs
  bind hp hf s hs := (hp s hs).bind hf fun _ _ h => h
  attempt hp s hs := (hp s hs).attempt fun _ _ h => h.of_const
  neutral _ hop hI _ hs := ahead_of_calls hI (Calls.perform hop.of_true) hs

end Doom

/-! Each phase of the processor in this interleaving. -/

section Phases

/-- The chain is lost, with the worker of the occurrence. -/
def ChainLost (w : WorkerData) (direct : Prop) (s : Store) : Prop := Steady w s ∧ Doomed direct s

variable {α : Type} {p : M α}

theorem Steady.preserved : Preserved direct (Steady w) := fun _ _ _ _ _ _ hs h => hs.effect h

theorem ChainLost.preserved : Preserved direct (ChainLost w direct) :=
  fun _ _ _ _ _ hop hs h => ⟨hs.1.effect h, hs.2.effect hop h⟩

theorem ahead_lost (hp : p.Calls (ChainOp direct)) (s : Store) (hs : ChainLost w direct s) :
    Ahead p (fun _ => ChainLost w direct) (ChainLost w direct) s :=
  ahead_of_calls ChainLost.preserved hp hs

theorem TaskOp.chain (h : TaskOp op) : ChainOp direct op := by
  cases op <;> first | exact h.elim | trivial

theorem TaskOp.table_ne (h : TaskOp op) : op.table ≠ .task := by
  cases op <;> first | exact h.elim | exact nofun

theorem ahead_cleanupJob (hd : direct) (s : Store) (hs : Steady w s) :
    Ahead (cleanupJob app) (fun _ => ChainLost w direct) (ChainLost w direct) s :=
  (ahead_rules direct).cleanupJob Steady.preserved ChainLost.preserved ChainLost.preserved
    (fun s hs => reaches_perform default (reliable_default .deleteRow s) ⟨hs, .inr ⟨hd, rfl⟩⟩)
    (ahead_lost (Calls.perform (by trivial))) s hs

theorem ahead_spawn (hs : Steady w s) :
    Ahead (invoke (.spawn task)) (fun _ s' => Steady w s' ∧ task ∈ s'.tasks) F s :=
  reaches_perform default (reliable_default (.spawn task) s)
    ⟨hs, mem_append_right _ (mem_singleton.mpr rfl)⟩

/-- After a completion the chain of a Direct occurrence, or of one with an
output stream, is lost. -/
theorem ahead_completeJob (id : JobResultId) (hjob : dat.jobId.isSome)
    (htype : (ResponseType.tryFrom dat.responseType).isSome)
    (hdoom : stream = true ∨ direct) (s : Store) (hs : Steady w s) :
    Ahead (completeJob app id dat stream) (fun _ => ChainLost w direct) (ChainLost w direct) s := by
  refine (ahead_rules direct).completeJob Steady.preserved ChainLost.preserved hjob (fun _ => ?_)
    (fun hnone => by simp [hnone] at htype) s hs
  refine (ahead_rules direct).finishCompletion Steady.preserved (fun _ s hs => ?_) (fun s hs => ?_)
    fun hstream => ahead_cleanupJob (hdoom.resolve_left fun h => nomatch hstream.symm.trans h)
  · exact (ahead_spawn hs).mono fun r _ h => by
      cases r with
      | ok => exact ⟨h.1, .inl h.2⟩
      | error => exact h
  · exact (ahead_spawn hs).mono fun r _ h => by
      cases r with
      | ok => exact h.1
      | error => exact h

theorem chainOp_of_asks (h : op.asks) : ChainOp direct op := by
  cases op <;> trivial

theorem chain_createRdbOnly (hd : ¬ direct)
    (hindex : index.Calls (ChainOp direct)) :
    (createRdbOnly data do publishPending app; index).Calls (ChainOp direct) := by
  have hcreate : ChainOp direct (.createRow data) := hd
  have hput : ∀ r, ChainOp direct (.putStatus ⟨.pending, r⟩) := fun _ => trivial
  refine (Calls.perform hcreate).bind fun created => ?_
  split
  · exact Calls.bind ((calls_upsertStatus app (by trivial) hput).discard.bind fun _ => hindex)
      fun _ => by trivial
  · trivial

end Phases

section Enqueue

variable (hperiodic : w.periodicInterval ≠ 0) (hafter : 0 < req.runAfterTime)
  (htype : (resolveJobParams w req.overrides).responseType = ResponseType.direct.toI32 ↔ direct)

include htype

/-- A Direct job is not even prepared. -/
theorem ahead_prepareJob (hafter : 0 < req.runAfterTime) (wid : WorkerId) (s : Store)
    (hs : ChainLost w direct s) :
    Ahead (prepareJob app wid w req) (fun _ s' => ChainLost w direct s' ∧ ¬ direct)
      (ChainLost w direct) s := by
  by_cases hd : direct
  · have hnow : ChainOp direct .now := trivial
    obtain ⟨e, heq⟩ : ∃ e, prepareJob app wid w req = invoke .now >>= fun _ => fail e :=
      prepareJob_direct hafter (htype.mpr hd) wid
    rw [heq]
    exact (ahead_rules direct).bind (ahead_lost (Calls.perform hnow))
      (fun _ => (ahead_rules direct).fail ChainLost.preserved) s hs
  · have hcalls : (prepareJob app wid w req).Calls (ChainOp direct) :=
      (calls_prepareJob app wid w req).mono fun _ => chainOp_of_asks
    exact (ahead_lost hcalls s hs).mono fun r _ h => by
      cases r with
      | ok => exact ⟨h, hd⟩
      | error => exact h

/-- The common part of the two enqueues: the checks, the job and its path. -/
theorem ahead_enqueueChecked (hafter : 0 < req.runAfterTime) (wid : WorkerId) {check : M Unit}
    (hcheck : check.Calls (ChainOp direct)) {path : JobId → JobData → M (Option JobResult)}
    (hpath : ¬ direct → ∀ jid data, (path jid data).Calls (ChainOp direct)) :
    Leads Ahead (ChainLost w direct) (do
      check
      validateResponseQueueType w.queueType (resolveJobParams w req.overrides).responseType
      let (jid, data) ← prepareJob app wid w req
      let result ← path jid data
      pure (jid, result)) (fun _ => ChainLost w direct) (ChainLost w direct) := by
  refine (ahead_rules direct).bind (ahead_lost hcheck) fun _ => ?_
  refine (ahead_rules direct).bind (ahead_lost (calls_validateResponseQueueType _ _)) fun _ => ?_
  refine (ahead_rules direct).bind (ahead_prepareJob htype hafter wid) ?_
  rintro ⟨jid, data⟩ s ⟨hs, hd⟩
  exact ahead_lost ((hpath hd jid data).bind fun _ => by trivial) s hs

include hperiodic

theorem Hybrid.chain_enqueuePath (hd : ¬ direct) (jid : JobId) (data : JobData) :
    (Hybrid.enqueuePath app w req jid data (pure ())).Calls (ChainOp direct) := by
  unfold Hybrid.enqueuePath
  rw [if_neg fun h => hd (htype.mp h), isPeriodicOrRunAfter_periodic hperiodic]
  exact chain_createRdbOnly hd (by trivial)

theorem RdbChan.chain_enqueuePath (wid : WorkerId) (hd : ¬ direct) (jid : JobId)
    (data : JobData) : (RdbChan.enqueuePath app wid w req jid data).Calls (ChainOp direct) := by
  have hspawn : ∀ task, ChainOp direct (.spawn task) := fun _ => trivial
  unfold RdbChan.enqueuePath
  rw [if_neg fun h => hd (htype.mp h), isPeriodicOrRunAfter_periodic hperiodic]
  exact chain_createRdbOnly hd (Calls.perform (hspawn _)).when

include hafter

theorem ahead_enqueueJob (wid : WorkerId) :
    Leads Ahead (ChainLost w direct) (enqueueJob app (some wid) req)
      (fun _ => ChainLost w direct) (ChainLost w direct) := by
  have hfound : Leads Ahead (ChainLost w direct) (invoke .findWorker)
      (fun x s => ChainLost w direct s ∧ ∀ v, x = some v → v = w) (ChainLost w direct) :=
    fun s hs => reaches_perform default (reliable_default .findWorker s) ⟨hs, hs.1.1⟩
  unfold enqueueJob
  split
  · refine (ahead_rules direct).bind hfound fun found s1 ⟨h1, hfound⟩ => ?_
    cases found with
    | none => exact reaches_fail h1
    | some v =>
      obtain rfl := hfound v rfl
      exact ahead_enqueueChecked htype hafter wid
        ((calls_checkWorkerStreaming _).mono fun _ => chainOp_of_asks)
        (Hybrid.chain_enqueuePath hperiodic htype) s1 h1
  · refine (ahead_rules direct).bind hfound fun found s1 ⟨h1, hfound⟩ => ?_
    cases found with
    | none => exact reaches_fail h1
    | some v =>
      obtain rfl := hfound v rfl
      exact ahead_enqueueChecked htype hafter wid
        ((calls_checkWorkerDataStreaming _).mono fun _ => chainOp_of_asks)
        (RdbChan.chain_enqueuePath hperiodic htype wid) s1 h1

end Enqueue

section Failing

section Occurrence

variable (h : FinishedOccurrence app jr id dat w runner)
  (htype : (ResponseType.tryFrom dat.responseType).isSome)
  (hdoom : stream = true ∨ dat.responseType = ResponseType.direct.toI32)

include h htype hdoom

theorem ahead_processComplete (metadata : Metadata) :
    Leads Ahead (Steady w) (processComplete app id dat stream w metadata)
      (fun _ => ChainLost w (dat.responseType = ResponseType.direct.toI32))
      (ChainLost w (dat.responseType = ResponseType.direct.toI32)) := by
  refine (ahead_rules _).processComplete ChainLost.preserved
    (ahead_completeJob id h.job htype hdoom) ?_ (ahead_lost (Calls.perform (by trivial)))
  refine (ahead_rules _).enqueueNextOccurrence (P := fun now s => ChainLost w
      (dat.responseType = ResponseType.direct.toI32) s ∧ 0 < now) h
    ChainLost.preserved metadata (fun s hs => ?_)
    fun now wid pj hafter hresponse _ s ⟨hs, hnow⟩ => ?_
  · exact reaches_perform default (reliable_default .now s) ⟨hs, hs.1.2⟩
  · have hpos : 0 < pj.runAfterTime := by
      rw [hafter]
      exact lt_of_lt_of_le hnow (le_calcNextRunAfterTime (periodicInterval_pos h.periodic))
    exact ahead_enqueueJob h.periodic hpos (by rw [← hresponse]; rfl) wid s hs

/-- **The processor can leave the chain lost**: with a clean-up that waits for
the stream, or with nothing enqueued. -/
theorem ahead_processResult (hs : Steady w s) : Ahead (processResult app jr stream w)
      (fun _ => ChainLost w (dat.responseType = ResponseType.direct.toI32))
      (ChainLost w (dat.responseType = ResponseType.direct.toI32)) s := by
  refine (ahead_rules _).processResult h Steady.preserved ChainLost.preserved
    (fun s hs => reaches_perform default (reliable_default .getStatus s) hs) ?_ s hs
  rintro d (rfl | rfl)
  · exact ahead_processComplete h htype hdoom jr.metadata
  · exact ahead_processComplete h.markRetryCancelled htype hdoom jr.metadata

end Occurrence

/-- A task is a clean-up, or leaves the chain lost. -/
theorem ahead_runTask (hs : Steady w s) (hdoom : task = .publishStreamThenCleanup ∨ Doomed True s) :
    Ahead (runTask app task) (fun _ => ChainLost w True) (ChainLost w True) s := by
  have rules := ahead_rules True
  have hpublish : Leads Ahead (Steady w) (invoke .publishStream) (fun _ => Steady w) (Steady w) :=
    rules.neutral trivial trivial Steady.preserved
  rcases hdoom with rfl | hdoom
  · refine rules.bind (rules.ignore Steady.preserved hpublish) (fun _ => ?_) s hs
    exact rules.ignore ChainLost.preserved (ahead_cleanupJob trivial)
  · exact ahead_lost ((calls_runTask app task).mono fun _ => TaskOp.chain) s ⟨hs, hdoom⟩

/-- The first of the tasks runs. -/
theorem reaches_taskRunner (htasks : s.tasks = task :: rest)
    (hs : ChainLost w True s) : (taskRunner app).Reaches reliable s
      fun _ s' => ChainLost w True s' ∧ s'.tasks = rest := by
  have htake : reliable default .takeTask s = some (.ok task, { s with tasks := rest }) := by
    rw [reliable_default]
    simp only [effect, htasks]
    rfl
  refine Reaches.bind (Q := fun r s' => r = .ok task ∧ s' = { s with tasks := rest })
    (reaches_perform default htake ⟨rfl, rfl⟩) ?_ fun _ _ h => by cases h.1
  rintro _ s1 ⟨hr, rfl⟩
  cases hr
  have hdoom : task = .publishStreamThenCleanup ∨ Doomed True { s with tasks := rest } := by
    rcases hs.2 with hmem | hrow
    · rw [htasks, mem_cons] at hmem
      exact hmem.imp Eq.symm Or.inl
    · exact .inr (.inr hrow)
  have hsteady : Steady w { s with tasks := rest } := hs.1
  refine ((ahead_runTask hsteady hdoom).mono fun _ _ h => h.of_const).with_invariant
    (calls_runTask app task) ?_ rfl
  intro op ch ans s1 s2 hop hsem h1
  rw [reliable_eq_effect] at hsem
  exact ((effect_frame hsem).tasks hop.table_ne).trans h1

/-- **The remaining tasks can run to their ends**, one after the other, each on
a thread of its own. -/
theorem run_tasks {c : System (Option ℕ) Unit} {k : ℕ}
    (hfresh : ∀ n, k ≤ n → c.threads (some n) = taskRunner app)
    (hended : ∀ n, n < k → (c.threads (some n)).result.isSome) (hs : ChainLost w True c.store) :
    ∃ τ c', Run (Step reliable) c τ c' ∧ c'.threads none = c.threads none ∧
      c'.store.tasks = [] ∧ ChainLost w True c'.store ∧
      ∀ n, c'.threads (some n) = taskRunner app ∨ (c'.threads (some n)).result.isSome := by
  -- by induction on the tasks left
  obtain ⟨tasks, htasks⟩ : ∃ tasks, c.store.tasks = tasks := ⟨_, rfl⟩
  induction tasks generalizing c k with
  | nil =>
    refine ⟨[], c, rfl, rfl, htasks, hs, fun n => ?_⟩
    rcases Nat.lt_or_ge n k with hn | hn
    · exact .inr (hended n hn)
    · exact .inl (hfresh n hn)
  | cons task rest ih =>
    have htask : (taskRunner app).Reaches reliable c.store
        fun _ s' => ChainLost w True s' ∧ s'.tasks = rest := reaches_taskRunner htasks hs
    obtain ⟨τ, r, s1, hexec, hs1, hrest⟩ := htask
    obtain ⟨τ1, q, hrun, hq⟩ := hexec.run (hfresh k (le_refl k)) rfl
    have hfresh' : ∀ n, k + 1 ≤ n →
        Function.update c.threads (some k) q (some n) = taskRunner app := by
      intro n hn
      have hne : some n ≠ some k := fun h => by cases h; omega
      exact (Function.update_of_ne hne _ _).trans (hfresh n (by omega))
    have hended' : ∀ n, n < k + 1 →
        (Function.update c.threads (some k) q (some n)).result.isSome := by
      intro n hn
      by_cases hk : n = k
      · subst hk
        rw [Function.update_self, hq]
        rfl
      · have hne : some n ≠ some k := fun h => hk (Option.some.inj h)
        rw [Function.update_of_ne hne]
        exact hended n (by omega)
    obtain ⟨τ2, c', hrun', hnone, hempty, hlost, hall⟩ :=
      ih (c := ⟨Function.update c.threads (some k) q, s1⟩) hfresh' hended' hs1 hrest
    exact ⟨τ1 ++ τ2, c', run_append.mpr ⟨_, hrun, hrun'⟩, hnone, hempty, hlost, hall⟩

end Failing

section System

/-- **The chain survives every interleaving** if the clean-up is not deferred. -/
theorem survives_of_not_deferred (h : FinishedOccurrence app jr id dat w runner)
    (htype : dat.responseType ≠ ResponseType.direct.toI32)
    (hdefers : defersCleanup dat stream = false) (hs : At w runner s.clock s.row s.live s)
    (hclock : 0 < s.clock) (hrun : Run (Step reliable) (chainSystem app jr stream w s) τ c)
    (hc : Settled app c) : Survives dat w s.clock c.store := by
  have hsafe : ∀ i, ((chainSystem app jr stream w s).threads i).Safe reliable (chainRely i)
      (chainGuarantee i)
      (fun _ s' => i = none → Survives dat w s.clock s')
      (fun _ s' => i = none → Survives dat w s.clock s') s := by
    intro i
    cases i with
    | none =>
      refine Safe.bind Kept.refl (Q := fun _ => Survives dat w s.clock) ?_
        fun _ s1 h1 s2 hk _ => Survives.stable _ _ h1 hk
      exact (processes_processResult h htype hclock hdefers hs).mono
        (fun _ _ h => h) fun _ _ h _ => h
    | some n =>
      exact (safe_taskRunner app hs.tasks).mono (fun _ _ _ h => nomatch h)
        fun _ _ _ h => nomatch h
  obtain ⟨-, hend⟩ := hrun.safe chainRely_refl chainRely_trans chainRely_of_guarantee hsafe
  obtain ⟨r, hr⟩ := Option.isSome_iff_exists.mp hc.returned
  have hends := (hend none).ends (chainRely_refl none c.store) hr
  cases r with
  | ok | error => exact hends rfl

/-- The condition under which the clean-up comes too late or nothing is
enqueued. -/
theorem doomed_of_not
    (h : ¬ (dat.responseType ≠ ResponseType.direct.toI32 ∧ defersCleanup dat stream = false)) :
    (ResponseType.tryFrom dat.responseType).isSome ∧
      (stream = true ∨ dat.responseType = ResponseType.direct.toI32) := by
  by_cases hdirect : dat.responseType = ResponseType.direct.toI32
  · exact ⟨by rw [hdirect]; rfl, .inr hdirect⟩
  · have hdefers : defersCleanup dat stream = true := by
      cases hd : defersCleanup dat stream with
      | true => rfl
      | false => exact absurd ⟨hdirect, hd⟩ h
    unfold defersCleanup at hdefers
    rw [Bool.and_eq_true] at hdefers
    exact ⟨hdefers.2, .inl hdefers.1⟩

/-- **The periodic chain survives exactly without a deferred clean-up**: after
the processor has returned and every task it spawned has ended, whatever the
interleaving, the row and the record are those of the next occurrence, if and
only if the result is not Direct and there is no output stream (or its response
type is not one, and then there is nothing to publish). -/
theorem periodic_survives_iff (h : FinishedOccurrence app jr id dat w runner) (stream : Bool)
    (hworker : s.worker = some w) (hrunner : s.runner = some runner) (htasks : s.tasks = [])
    (hclock : 0 < s.clock) :
    (∀ τ c, Run (Step reliable) (chainSystem app jr stream w s) τ c → Settled app c →
      Survives dat w s.clock c.store) ↔
      dat.responseType ≠ ResponseType.direct.toI32 ∧ defersCleanup dat stream = false := by
  constructor
  · intro hall
    by_contra hcond
    obtain ⟨htype, hdoom⟩ := doomed_of_not hcond
    have hsteady : Steady w s := ⟨fun v hv => by cases hworker ▸ hv; rfl, hclock⟩
    -- the processor first, then its tasks
    have hprocessor : (processResult app jr stream w).discard.Reaches reliable s
        fun _ => ChainLost w (dat.responseType = ResponseType.direct.toI32) :=
      ((ahead_rules _).discard ChainLost.preserved
        (fun _ => ahead_processResult h htype hdoom) s hsteady).mono fun _ _ h => h.of_const
    obtain ⟨τ, r, s1, hexec, hlost⟩ := hprocessor
    obtain ⟨τ1, q, hrun, hq⟩ := hexec.run (c := chainSystem app jr stream w s) (i := none) rfl rfl
    have hlost' : ChainLost w True s1 := ⟨hlost.1, hlost.2.imp_right fun h => ⟨trivial, h.2⟩⟩
    obtain ⟨τ2, c, hrun', hnone, hempty, hc, hended⟩ :=
      run_tasks (k := 0) (c := ⟨Function.update (chainSystem app jr stream w s).threads none q, s1⟩)
        (fun n _ => rfl) (fun n hn => absurd hn (Nat.not_lt_zero n)) hlost'
    have hsettled : Settled app c := by
      refine ⟨?_, hempty, hended⟩
      simp only [hnone, Function.update_self, hq, Option.isSome_some]
    obtain ⟨row, now, hrow, -⟩ := hall _ c (run_append.mpr ⟨_, hrun, hrun'⟩) hsettled
    rcases hc.2 with hmem | ⟨-, hgone⟩
    · rw [hempty] at hmem
      cases hmem
    · rw [hgone] at hrow
      cases hrow
  · rintro ⟨htype, hdefers⟩ τ c hrun hc
    have hnone : NoCleanup s := fun hmem => by simp [htasks] at hmem
    exact survives_of_not_deferred h htype hdefers
      ⟨hworker, hrunner, le_refl _, hnone, rfl, rfl⟩ hclock hrun hc

end System

/-! An occurrence of a periodic job that has run once. -/

theorem finishedResult_finished : FinishedOccurrence default finishedResult ⟨1⟩
      { (default : JobResultData) with jobId := some ⟨1⟩, workerId := some ⟨1⟩, runAfterTime := 1 }
      periodicWorker ⟨some .both⟩ :=
  ⟨rfl, rfl, rfl, rfl, by decide, rfl, rfl⟩

/-- Without an output stream the next occurrence is always there. -/
theorem plainOccurrence_survives : periodicStore.worker = some periodicWorker ∧
    ∀ τ c, Run (Step reliable)
      (chainSystem default finishedResult false periodicWorker periodicStore) τ c →
      Settled default c →
      Survives { (default : JobResultData) with
        jobId := some ⟨1⟩, workerId := some ⟨1⟩, runAfterTime := 1 } periodicWorker 5 c.store :=
  ⟨rfl, (periodic_survives_iff finishedResult_finished false rfl rfl rfl (by decide)).mpr
    ⟨by decide, by decide⟩⟩

/-- The processor returns, and then the task of the stream runs. -/
def streamedSchedule : List (Option ℕ × Choice) :=
  List.replicate 9 (none, default) ++ List.replicate 4 (some 0, default)

/-- **An output stream ends the chain**: the old row keeps the next one from
being created, and the clean-up of the stream's task then deletes it and the
record. -/
theorem streamedOccurrence_lost :
    let run := (chainSystem default finishedResult true periodicWorker periodicStore).play
      reliable streamedSchedule
    Settled default run.2 ∧ run.2.store.row = none ∧ run.2.store.live = none := by
  refine ⟨⟨rfl, rfl, fun n => ?_⟩, rfl, rfl⟩
  cases n with
  | zero => exact .inr rfl
  | succ n => exact .inl rfl

end Jobworkerp
