/-
Jobworkerp/SyntaxDirected.lean

Properties of programs that follow their syntax, for the enqueue, the result
processor, the background tasks and the RDB dispatcher.

What has to be shown of these programs is often the same kind of thing: it
holds of a sequence if it holds of the parts, and it holds of the single calls
for a simple reason.  Sometimes a clean-up has to be looked at as a whole,
because its calls mean something together.  `Follows`, `FollowsEnqueue` and `Finishes`
collect the rules, and one traversal shows a property with these rules of
everything the programs are built from.

* `FollowsEnqueue.enqueueJob`, `Finishes.processResultInner`, `Finishes.startClaimed`:
  the traversal.
* `Closed`: the properties that ask nothing of what follows a new record.
-/
import Jobworkerp.LiveRecord

namespace Jobworkerp

open Interleaving Prog

/-! ### Properties that follow the syntax -/

/-- A property of programs that follows their syntax. -/
structure Follows (P : ∀ {α : Type}, M α → Prop) : Prop where
  ret : ∀ {α : Type} (a : α), P (ret a : M α)
  fail : ∀ {α : Type} (e : JobWorkerError), P (fail e : M α)
  bind : ∀ {α β : Type} {p : M α} {f : α → M β}, P p → (∀ a, P (f a)) → P (p >>= f)
  attempt : ∀ {α : Type} {p : M α}, P p → P p.attempt

theorem follows_calls (C : Op → Prop) : Follows fun {_} p => p.Calls C :=
  ⟨fun _ => trivial, fun _ => trivial, fun hp hf => hp.bind hf, fun hp => hp.attempt⟩

/-- A call that writes neither the record nor a lease nor a result, does not
delete the row and does not start the runner. -/
def PlainOp : Op → Prop
  | .deleteRow | .runJob _ => False
  | op => QueueOp op

theorem PlainOp.queue (h : PlainOp op) : QueueOp op := by
  cases op <;> first | exact h | exact h.elim

theorem plainOp_of_asks (h : op.asks) : PlainOp op := by
  cases op <;> trivial

theorem plainOp_of_keepsRelease (h : op.keepsRelease) : PlainOp op := by
  cases op <;> trivial

variable {app : App} {α : Type}

namespace Follows

variable {P : ∀ {α : Type}, M α → Prop} (h : Follows P)

include h

theorem discard (hp : P p) : P p.discard := h.bind hp fun _ => h.ret ()

theorem ignore (hp : P p) : P p.ignore := h.discard (h.attempt hp)

theorem when (hp : P p) : P (Prog.when c p) := by
  cases c with
  | false => exact h.ret ()
  | true => exact hp

theorem calls {C : Op → Prop} (hC : ∀ op, C op → P (invoke op)) {p : M α} (hp : p.Calls C) :
    P p := by
  induction p with
  | ret a => exact h.ret a
  | fail e => exact h.fail e
  | call op k ih =>
    have heq : (Prog.call op k : M α) = (invoke op).attempt >>= k := by
      show Prog.call op k = Prog.call op _
      congr 1
      funext a
      cases a with
      | ok | error => rfl
    rw [heq]
    exact h.bind (h.attempt (hC op hp.1)) fun a => ih a (hp.2 a)

theorem completeJob (hC : ∀ op, CompletionOp op → ¬ CleanupOp op → P (invoke op))
    (hclean : P (cleanupJob app)) (id : JobResultId) (data : JobResultData) (stream : Bool) :
    P (completeJob app id data stream) := by
  have hpublish : ∀ toListen, P (publishResult id data toListen) := by
    intro toListen
    unfold publishResult
    split
    · exact h.fail _
    · exact hC _ trivial nofun
  have hfinish : P (finishCompletion app data stream) := by
    unfold finishCompletion
    split
    · exact hC _ trivial nofun
    · exact h.bind (h.when (hC _ trivial nofun)) fun _ => hclean
  unfold cleanupJob at hclean
  unfold Jobworkerp.completeJob
  cases hstorage : app.storage with
  | scalable =>
    rw [hstorage] at hclean
    show P (Hybrid.completeJob app id data stream)
    unfold Hybrid.completeJob
    split
    · exact h.ret _
    · split
      · refine h.bind (h.attempt (hC _ trivial nofun)) fun res => ?_
        refine h.bind (h.ignore (hpublish _)) fun _ => h.bind hfinish fun _ => ?_
        split <;> apply_rules [h.ret, h.fail]
      · refine h.bind (h.attempt (hpublish _)) fun res => h.bind hfinish fun _ => ?_
        split <;> apply_rules [h.ret, h.fail]
      · exact h.bind hclean fun _ => h.ret _
  | standalone =>
    rw [hstorage] at hclean
    show P (RdbChan.completeJob app id data stream)
    unfold RdbChan.completeJob
    split
    · exact h.ret _
    · split
      · refine h.bind (h.attempt (hpublish _)) fun res => h.bind hfinish fun _ => ?_
        split <;> apply_rules [h.ret, h.fail]
      · exact h.bind hclean fun _ => h.ret _

theorem transitionRetryToPendingOrCancel (hj : buildRetryJob app.expo data worker metadata = some j)
    (hget : P (invoke .getStatus)) (hmove : ∀ p r, Advance p ⟨.pending, r⟩ →
      P (compareAndSetStatus app (some p) (some ⟨.pending, r⟩))) :
    P (transitionRetryToPendingOrCancel app data j) := by
  obtain ⟨nextData, hdata, -, hsucc⟩ := retried_succ_of_buildRetryJob hj
  unfold Jobworkerp.transitionRetryToPendingOrCancel
  rw [hdata]
  split
  · rename_i heq
    obtain rfl := Option.some.inj heq
    refine h.bind hget fun record => ?_
    split
    · exact h.ret _
    · split
      · exact h.ret _
      · exact h.ret _
      · -- the attempt is the current one and is not cancelled
        rename_i current _ hdecision
        obtain ⟨hcurrent, hstatus⟩ := ownershipDecision_eq_none hdecision
        rw [← hcurrent] at hsucc
        refine h.bind (hmove current _ (.retry hstatus hsucc)) fun result => ?_
        split
        · exact h.ret _
        · split <;> exact h.ret _
        · exact h.ret _
  · exact h.ret _

section

variable (hplain : ∀ {op : Op}, PlainOp op → P (invoke op))

include hplain

theorem acquireStartPermit (session : Option ℤ) : P (acquireStartPermit session) := by
  unfold Jobworkerp.acquireStartPermit
  split
  · exact h.ret _
  · refine h.bind (hplain trivial) fun granted => ?_
    split <;> exact h.ret _

theorem confirmStart (permit : Option ℤ) : P (confirmStart permit) := by
  cases permit with
  | none => exact h.ret _
  | some instanceId => exact hplain trivial

theorem generateResultId : P generateResultId := by
  refine h.bind (h.attempt (hplain trivial)) fun generated => ?_
  split <;> exact h.ret _

end

end Follows

theorem calls_completeJob (app : App) (id : JobResultId) (data : JobResultData) (stream : Bool) :
    (completeJob app id data stream).Calls CompletionOp :=
  (follows_calls CompletionOp).completeJob (fun _ hop _ => .perform hop)
    ((calls_cleanupJob app).mono fun _ => CleanupOp.completion) id data stream

theorem calls_transitionRetryToPendingOrCancel
    (hj : buildRetryJob app.expo data worker metadata = some j) :
    (transitionRetryToPendingOrCancel app data j).Calls EnqueueOp :=
  (follows_calls EnqueueOp).transitionRetryToPendingOrCancel hj (.perform trivial)
    fun _ _ h => calls_settle h nofun

/-! ### Enqueueing -/

theorem calls_validateResponseQueueType (queueType responseType : ℤ) :
    (validateResponseQueueType queueType responseType).Calls C := by
  unfold validateResponseQueueType
  split <;> trivial

/-- A property that follows the syntax, holds of plain calls, and of the
publication of a new job. -/
structure FollowsEnqueue (app : App) (P : ∀ {α : Type}, M α → Prop) : Prop extends Follows P where
  plain : ∀ {op : Op}, PlainOp op → P (invoke op)
  toRedis : ∀ job w streamingType,
    P (enqueueJobToRedisWithWaitIfNeeded app job w streamingType false .newEnqueue)
  toChannel : ∀ job w, P (enqueueJobSync app job w)
  publishPending : ∀ {index : M Unit}, P index → P (do publishPending app; index)

namespace FollowsEnqueue

variable {P : ∀ {α : Type}, M α → Prop} (h : FollowsEnqueue app P)

include h

theorem asks (hp : p.Calls (·.asks)) : P p :=
  h.calls (fun _ hop => h.plain (plainOp_of_asks hop)) hp

theorem createRdbOnly (data : JobData) (hpublish : P publish) :
    P (createRdbOnly data publish) := by
  refine h.bind (h.plain trivial) fun created => ?_
  split
  · exact h.bind hpublish fun _ => h.ret _
  · exact h.fail _

theorem hybridPath (w : WorkerData) (req : EnqueueRequest) (jid : JobId) (data : JobData) :
    P (Hybrid.enqueuePath app w req jid data (pure ())) := by
  have hrow := h.createRdbOnly data (h.publishPending (h.ret ()))
  unfold Hybrid.enqueuePath
  dsimp only
  split
  · exact h.toRedis _ w _
  · refine h.bind (h.asks (calls_isPeriodicOrRunAfter app w data)) fun periodic => ?_
    split
    · exact hrow
    · split
      · exact h.bind (h.discard (h.plain trivial)) fun _ => h.toRedis _ w _
      · split
        · exact hrow
        · exact h.toRedis _ w _

theorem rdbChanPath (wid : WorkerId) (w : WorkerData) (req : EnqueueRequest) (jid : JobId)
    (data : JobData) : P (RdbChan.enqueuePath app wid w req jid data) := by
  have hindex : ∀ streamable, P (indexJobStatusAsync app wid w data streamable) :=
    fun _ => h.when (h.plain trivial)
  have hchan : ∀ job streamable, P (do
      let result ← enqueueJobSync app job w
      indexJobStatusAsync app wid w data streamable
      pure result : M (Option JobResult)) := fun job streamable =>
    h.bind (h.toChannel job w) fun _ => h.bind (hindex streamable) fun _ => h.ret _
  unfold RdbChan.enqueuePath
  dsimp only
  split
  · exact hchan _ _
  · refine h.bind (h.asks (calls_isPeriodicOrRunAfter app w data)) fun periodic => ?_
    split
    · exact h.createRdbOnly data (h.publishPending (hindex _))
    · split
      · exact h.bind (h.discard (h.plain trivial)) fun _ => hchan _ _
      · split
        · exact h.createRdbOnly data (hindex _)
        · exact hchan _ _

/-- **An enqueue**, from its calls and the publication of the job. -/
theorem enqueueJob (workerId : Option WorkerId) (req : EnqueueRequest) :
    P (enqueueJob app workerId req) := by
  have hprepare : ∀ wid w, P (prepareJob app wid w req) := fun wid w =>
    h.asks (calls_prepareJob app wid w req)
  have hvalidate : ∀ queueType responseType,
      P (validateResponseQueueType queueType responseType) := fun _ _ =>
    h.asks (calls_validateResponseQueueType _ _)
  unfold Jobworkerp.enqueueJob
  split
  · unfold Hybrid.enqueueJob
    split
    · exact h.fail _
    · refine h.bind (h.plain trivial) fun worker => ?_
      split
      · exact h.fail _
      · refine h.bind (h.asks (calls_checkWorkerStreaming _)) fun _ => ?_
        refine h.bind (hvalidate _ _) fun _ => h.bind (hprepare _ _) fun prepared => ?_
        exact h.bind (h.hybridPath _ req _ _) fun _ => h.ret _
  · unfold RdbChan.enqueueJob
    split
    · exact h.fail _
    · refine h.bind (h.plain trivial) fun worker => ?_
      split
      · exact h.fail _
      · refine h.bind (h.asks (calls_checkWorkerDataStreaming _)) fun _ => ?_
        refine h.bind (hvalidate _ _) fun _ => h.bind (hprepare _ _) fun prepared => ?_
        exact h.bind (h.rdbChanPath _ _ req _ _) fun _ => h.ret _

end FollowsEnqueue

/-! ### Processing a result -/

/-- A property that follows the syntax and holds of what the processing of a
result is made of; only the result of a periodic worker `w` enqueues. -/
structure Finishes (app : App) (w : WorkerData) (P : ∀ {α : Type}, M α → Prop) : Prop extends
    Follows P where
  plain : ∀ {op : Op}, PlainOp op → P (invoke op)
  cleanup : P (cleanupJob app)
  pending : ∀ p r, Advance p ⟨.pending, r⟩ →
    P (compareAndSetStatus app (some p) (some ⟨.pending, r⟩))
  enqueue : w.periodicInterval ≠ 0 → ∀ wid req, P (enqueueJob app wid req)

namespace Finishes

variable {P : ∀ {α : Type}, M α → Prop} {w : WorkerData} (h : Finishes app w P)

include h

theorem cancelRetryableResultIfRequested (data : JobResultData) :
    P (cancelRetryableResultIfRequested data) := by
  unfold Jobworkerp.cancelRetryableResultIfRequested
  split
  · exact h.ret _
  · split
    · exact h.ret _
    · refine h.bind (h.plain trivial) fun record => ?_
      split <;> exact h.ret _

theorem complete (id : JobResultId) (data : JobResultData) (stream : Bool) :
    P (completeJob app id data stream) := by
  refine h.completeJob (fun op hop hclean => h.plain ?_) h.cleanup id data stream
  cases op <;> first | exact absurd hop hclean | trivial

theorem processComplete (id : JobResultId) (dat : JobResultData) (stream : Bool)
    (metadata : Metadata) : P (processComplete app id dat stream w metadata) := by
  refine h.bind (h.attempt (h.complete id dat stream)) fun completed => ?_
  refine h.bind ?_ fun _ => h.bind (h.when (h.ignore (h.plain trivial))) fun _ => ?_
  · unfold enqueueNextOccurrence
    split
    · exact h.ret _
    · rename_i hperiodic
      refine h.bind (h.plain trivial) fun now => ?_
      split
      · exact h.ret _
      · exact h.discard (h.enqueue hperiodic _ _)
  · split
    · exact h.ret _
    · exact h.fail _

theorem processCompleteOrRetryCondition (id : JobResultId) (dat : JobResultData) (stream : Bool)
    (metadata : Metadata) : P (processCompleteOrRetryCondition app id dat stream w metadata) := by
  unfold Jobworkerp.processCompleteOrRetryCondition
  split
  · rename_i j hj
    have hupdate : P (updateJob app j) :=
      h.calls (fun _ hop => h.plain (plainOp_of_keepsRelease hop)) calls_updateJob
    refine h.bind (h.attempt (h.transitionRetryToPendingOrCancel hj (h.plain trivial) h.pending))
      fun decision => ?_
    split
    · exact h.ret _
    · exact h.bind (h.attempt hupdate) fun _ => h.ret _
    · exact h.ret _
    · refine h.bind (h.attempt (h.complete id _ stream)) fun completed => ?_
      split <;> exact h.ret _
  · exact h.bind (h.attempt (h.processComplete id dat stream metadata)) fun _ => h.ret _

/-! ### The whole result processor, and the RDB dispatcher -/

variable (hresult : ∀ id d b, P (invoke (.createJobResult id d b)))

include hresult

/-- **The result processor**, from its calls and its clean-up. -/
theorem processResultInner (jr : JobResult) (stream loadOnly : Bool) :
    P (processResultInner app jr stream w loadOnly) := by
  unfold Jobworkerp.processResultInner
  split
  · refine h.bind (h.cancelRetryableResultIfRequested _) fun data => ?_
    split
    · exact h.bind (h.discard (h.complete _ data stream)) fun _ => h.ret _
    · refine h.bind (h.processCompleteOrRetryCondition _ data stream _) fun r => ?_
      refine h.bind (h.discard (hresult _ _ _)) fun _ => ?_
      split
      · exact h.ret _
      · exact h.fail _
  · exact h.fail _

/-- A cancelled delivery is completed before it runs. -/
theorem resolveDispatchPreflight (eligibility : DispatchEligibility) :
    P (resolveDispatchPreflight app eligibility w) := by
  cases eligibility with
  | execute | skip => exact h.ret _
  | cancelled result => exact h.bind (h.processResultInner hresult result false false) fun _ => h.ret _

end Finishes

section Dispatch

variable {P : ∀ {α : Type}, M α → Prop} {d : Delivery} (h : Finishes app d.worker P)
  (hresult : ∀ id d b, P (invoke (.createJobResult id d b)))
  (hcheck : P (checkCancellationStatusWithMissingStatus app d true))

include h hresult hcheck

theorem Finishes.giveBack (message : String) : P (Rdb.giveBack app d message) := by
  refine h.bind (h.bind (h.bind (h.pending _ _ (.restore _)) fun result => ?_)
    fun outcome => ?_) fun result => ?_
  · split
    · exact h.ret _
    · split <;> exact h.ret _
  · cases outcome with
    | restored | ownershipLost => exact h.ret _
    | cancellationWon =>
      refine h.bind hcheck fun eligibility => ?_
      cases eligibility with
      | cancelled result =>
        exact h.bind (h.processResultInner hresult result false false) fun _ => h.ret _
      | skip => exact h.ret _
      | execute => exact h.fail _
  · split
    · exact h.ret _
    · exact h.fail _

/-- **A fetched row is started**, from its leases and the run. -/
theorem Finishes.startClaimed (hrun : P (Rdb.runGrabbed app d))
    (hgrab : ∀ timeout original, P (invoke (.grabRow timeout original)))
    (hmark : ∀ start, P (invoke (.grabAndMarkRunning start))) (session : Option ℤ) :
    P (Rdb.startClaimed app session d) := by
  refine h.bind (h.acquireStartPermit h.plain session) fun permit => ?_
  split
  · exact h.giveBack hresult hcheck _
  · refine h.bind (hmark _) fun execution => ?_
    split
    · exact h.ret _
    · refine h.bind (h.confirmStart h.plain _) fun confirmed => ?_
      split
      · exact hrun
      · refine h.bind (h.plain trivial) fun outcome => ?_
        split
        · exact h.fail _
        · exact h.giveBack hresult hcheck _
  · refine h.bind (hgrab _ _) fun lease => ?_
    split
    · exact hrun
    · exact h.ret _

end Dispatch

/-! ### Properties that ask nothing of what follows a new record -/

/-- A compare-and-set of a dispatcher or of the result processor: it requests
an `Advance`, and not a cancellation. -/
def MovesOn (expected next : Option JobProcessingStatusRecord) : Prop :=
  ∃ p q, expected = some p ∧ next = some q ∧ Advance p q ∧ q.status ≠ .cancelling

theorem Advance.movesOn (h : Advance p q)
    (hq : q.status ≠ .cancelling) : MovesOn (some p) (some q) := ⟨p, q, rfl, rfl, h, hq⟩

/-- A call that deletes neither the row nor the record, cancels nothing, and
does not start the runner. -/
def TameOp : Op → Prop
  | .deleteRow | .deleteStatus | .runJob _ => False
  | .compareAndSetEntry expected next => MovesOn expected next
  | .compareAndSetScript expected next => MovesOn expected next
  | _ => True

theorem PlainOp.tame (h : PlainOp op) : TameOp op := by
  cases op <;> trivial

/-- A property of programs that follows their syntax, holds of the calls in
between and of a clean-up, and asks nothing of what follows a new record. -/
structure Closed (app : App) (P : ∀ {α : Type}, M α → Prop) : Prop extends Follows P where
  call : ∀ {op : Op}, TameOp op → P (invoke op)
  revive : ∀ {β : Type} (record : JobProcessingStatusRecord) (f : Bool → M β),
    P (invoke (.putStatus record) >>= f)
  cleanup : P (cleanupJob app)

namespace Closed

variable {P : ∀ {α : Type}, M α → Prop} {β : Type} (h : Closed app P)

include h

theorem plain (hop : PlainOp op) : P (invoke op) := h.call hop.tame

theorem compareAndSetStatus
    (hmove : MovesOn expected next) : P (compareAndSetStatus app expected next) :=
  h.calls (fun _ => h.call) (calls_compareAndSetStatus trivial hmove hmove)

/-- What comes after the publication of a new record does not matter. -/
theorem publishPending (f : Unit → M β) : P (publishPending app >>= f) := by
  unfold Jobworkerp.publishPending
  rw [upsertStatus_discard, bind_assoc']
  refine h.bind (h.call trivial) fun record => ?_
  unfold Prog.discard
  rw [bind_assoc']
  exact h.revive _ _

theorem toRedis (job : Job) (w : WorkerData) (streamingType : StreamingType) :
    P (enqueueJobToRedisWithWaitIfNeeded app job w streamingType false .newEnqueue) := by
  have hrunAfter : P (isRunAfterJob app job) :=
    h.calls (fun _ => h.call) (calls_isRunAfterJob app trivial job)
  refine h.bind hrunAfter fun _ => h.bind (h.when (h.call trivial)) fun _ => ?_
  exact h.publishPending _

theorem toChannel (job : Job) (w : WorkerData) : P (enqueueJobSync app job w) := by
  have hrunAfter : P (isRunAfterJob app job) :=
    h.calls (fun _ => h.call) (calls_isRunAfterJob app trivial job)
  have henqueue : P (enqueueJobSyncEnqueueOnly app job false .newEnqueue) := by
    refine h.bind hrunAfter fun isRunAfter => ?_
    cases isRunAfter with
    | true => exact h.fail _
    | false => exact h.publishPending _
  unfold enqueueJobSync
  dsimp only
  split
  · split
    · exact h.fail _
    · refine h.bind (h.when (h.call trivial)) fun _ => h.bind henqueue fun _ => ?_
      exact h.bind (h.call trivial) fun _ => h.ret _
  · exact h.bind henqueue fun _ => h.ret _

theorem enqueues : FollowsEnqueue app P :=
  { h with
    plain := h.plain
    toRedis := h.toRedis
    toChannel := h.toChannel
    publishPending := fun _ => h.publishPending _ }

theorem finishes (w : WorkerData) : Finishes app w P :=
  { h with
    plain := h.plain
    pending := fun _ _ hadv => h.compareAndSetStatus (hadv.movesOn nofun)
    enqueue := fun _ => h.enqueues.enqueueJob }

theorem result (id : JobResultId) (data : JobResultData) (b : Bool) :
    P (invoke (.createJobResult id data b)) := h.call trivial

theorem processResult (jr : JobResult) (stream : Bool) (w : WorkerData) :
    P (processResult app jr stream w) := (h.finishes w).processResultInner h.result jr stream false

theorem taskRunner : P (taskRunner app) := by
  refine h.bind (h.call trivial) fun task => ?_
  cases task with
  | publishStreamThenCleanup =>
    exact h.bind (h.ignore (h.call trivial)) fun _ => h.ignore h.cleanup
  | publishEndMarker => exact h.ignore (h.call trivial)
  | indexStatus status update => exact h.ignore (h.call trivial)

theorem cancelledDispatchEligibility (d : Delivery) : P (cancelledDispatchEligibility d) :=
  h.bind (h.call trivial) fun _ => h.bind (h.call trivial) fun _ =>
    h.bind (h.call trivial) fun _ => h.ret _

theorem claimConflict (d : Delivery) (current : Option JobProcessingStatusRecord) :
    P (claimConflict d current) := by
  unfold Jobworkerp.claimConflict
  split
  · split
    · exact h.cancelledDispatchEligibility d
    · exact h.ret _
  · exact h.ret _

theorem claimAttempt (d : Delivery) : P (claimAttempt app d) := by
  have hmove : MovesOn (some ⟨.pending, d.data.retried⟩) (some ⟨.running, d.data.retried⟩) :=
    Advance.movesOn (.claim _) nofun
  refine h.bind (h.compareAndSetStatus hmove) fun result => ?_
  split
  · exact h.ret _
  · exact h.claimConflict d _

theorem checkRdbCancellationStatus (d : Delivery) : P (checkRdbCancellationStatus app d) := by
  refine h.bind (h.call trivial) fun record => ?_
  split
  · exact h.ret _
  · split
    · split
      · exact h.claimAttempt d
      · exact h.cancelledDispatchEligibility d
      all_goals exact h.ret _
    · exact h.ret _

theorem giveBack (d : Delivery) (message : String) : P (Rdb.giveBack app d message) :=
  (h.finishes d.worker).giveBack h.result (h.checkRdbCancellationStatus d) message

theorem afterRun (d : Delivery) (o : RunOutcome) : P (do
    let r ← generateResultId
    return some (← Jobworkerp.processResult app (buildJobResult r d.job d.data d.worker o)
      o.stream d.worker)) :=
  h.bind (h.generateResultId h.plain) fun _ =>
    h.bind (h.processResult _ _ _) fun _ => h.ret _

theorem runGrabbed (hrun : ∀ job, P (invoke (.runJob job))) (d : Delivery) :
    P (Rdb.runGrabbed app d) := by
  unfold Rdb.runGrabbed runJob
  rw [bind_assoc']
  refine h.bind (hrun _) fun o => ?_
  rw [bind_assoc']
  exact h.afterRun d o

theorem startClaimed (hrun : ∀ job, P (invoke (.runJob job))) (session : Option ℤ)
    (d : Delivery) : P (Rdb.startClaimed app session d) :=
  (h.finishes d.worker).startClaimed h.result (h.checkRdbCancellationStatus d) (h.runGrabbed hrun d)
    (fun _ _ => h.call trivial) (fun _ => h.call trivial) session

theorem findByOpt (workerId : Option WorkerId) : P (findByOpt workerId) := by
  cases workerId with
  | none => exact h.ret _
  | some wid =>
    refine h.bind (h.call trivial) fun worker => ?_
    split
    · exact h.ret _
    · exact h.ret _

/-- **The RDB dispatcher**, from its calls, its clean-ups and the run. -/
theorem dispatchRdbJob (hrun : ∀ job, P (invoke (.runJob job))) (session : Option ℤ)
    (jobId : JobId) : P (dispatchRdbJob app session jobId) := by
  refine h.bind (h.call trivial) fun row => ?_
  cases row with
  | none => exact h.ret _
  | some data =>
    refine h.bind (h.findByOpt data.workerId) fun found => ?_
    rcases found with - | ⟨wid, w⟩
    · exact h.fail _
    · refine h.bind (h.call trivial) fun runner => ?_
      split
      · exact h.fail _
      · refine h.bind (h.checkRdbCancellationStatus _) fun eligibility => ?_
        refine h.bind ((h.finishes w).resolveDispatchPreflight h.result eligibility) fun preflight => ?_
        cases preflight with
        | execute => exact h.startClaimed hrun session _
        | skip => exact h.ret _
        | completed result => exact h.ret _

end Closed

end Jobworkerp
