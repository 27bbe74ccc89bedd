/-
Jobworkerp/EnqueueFailure.lean

What a failed enqueue leaves behind.

`enqueue_job_with_worker` marks the one failure whose outcome it does not know,
a push that Redis did not answer, and for a push that Redis rejected it takes
the PENDING record back.  Every other failure is reported as it is.  But a job
that has a row of the RDB table has been stored by then, and nothing deletes
the row: it is fetched by the RDB dispatcher, or published again by
`restore_jobs_by`, although its caller has been told that it does not exist.

* `Accounted`: after an error the store is as clean as the calls that were
  carried out allow; closed under sequential composition.
* `definite_failure_clean_iff`: nothing of the job is left exactly if no call
  that stores it was carried out, apart from a PENDING record that is taken
  back.
* `rejectedBackup_restored`: a WithBackup job whose push is rejected is
  published again.
-/
import Jobworkerp.UpdateJob

namespace Jobworkerp

open Interleaving Prog List

/-! ### What is left of a job -/

/-- Nothing of the job is stored that could lead to an execution. -/
def Clean (s : Store) : Prop :=
  s.row = none ∧ s.queue = [] ∧ s.runAfter = [] ∧ s.live = none

/-- An error that is not marked as of unknown outcome. -/
def JobWorkerError.definite : JobWorkerError → Bool
  | .jobEnqueueOutcomeUnknown _ => false
  | _ => true

/-- A call that stores the job for good: a row or a queue entry is never taken
back, and neither is a PENDING record whose write was not answered. -/
def Unsettled (f : Op → Fault) (op : Op) : Bool :=
  match op with
  | .createRow _ | .pushJob _ | .addRunAfterJob _ => (f op).carriedOut
  | .putStatus _ => f op = .unanswered true
  | _ => false

/-- The job has a row or a queue entry. -/
def Stored (s : Store) : Prop := s.row.isSome ∨ s.queue ≠ [] ∨ s.runAfter ≠ []

theorem Stored.not_clean (h : Stored s) : ¬ Clean s := by
  rintro ⟨hrow, hqueue, hafter, -⟩
  rcases h with h | h | h
  · rw [hrow] at h
    cases h
  · exact h hqueue
  · exact h hafter

/-- The row and the queues are the same. -/
def SameStorage (s s' : Store) : Prop :=
  s'.row = s.row ∧ s'.queue = s.queue ∧ s'.runAfter = s.runAfter

variable {s s' : Store} {f : Op → Fault} {β : Type} {τ : Trace} {app : App}

theorem Stored.same (h : Stored s) (hs : SameStorage s s') : Stored s' := by
  unfold Stored
  rw [hs.1, hs.2.1, hs.2.2]
  exact h

theorem SameStorage.trans (h : SameStorage s₁ s₂) (h' : SameStorage s₂ s3) : SameStorage s₁ s3 :=
  ⟨h'.1.trans h.1, h'.2.1.trans h.2.1, h'.2.2.trans h.2.2⟩

theorem Clean.same (h : Clean s) (hs : SameStorage s s') (hlive : s'.live = none) : Clean s' :=
  ⟨hs.1.trans h.1, hs.2.1.trans h.2.1, hs.2.2.trans h.2.2.1, hlive⟩

/-! ### Single calls -/

/-- Calls that touch neither the row, the queues nor the live record. -/
def Op.harmless : Op → Bool
  | .now | .generateId | .getStatus | .findWorker | .findRunner | .subscribeStream => true
  | .spawn _ | .createKey _ | .waitResult => true
  | _ => false

/-- The calls of an enqueue after its row has been created. -/
def Op.publishes : Op → Bool
  | .putStatus _ | .deleteStatus | .pushJob _ | .addRunAfterJob _ => true
  | op => op.harmless

section Calls

variable {ch : Choice} {op : Op} {a : Answer op}

theorem same_of_effect (hop : op.harmless) (h : effect ch op s = some (a, s')) :
    SameStorage s s' ∧ s'.live = s.live := by
  cases op <;> cases hop
  case waitResult =>
    simp only [effect] at h
    split at h <;> cases h
    exact ⟨⟨rfl, rfl, rfl⟩, rfl⟩
  all_goals
    cases h
    exact ⟨⟨rfl, rfl, rfl⟩, rfl⟩

theorem same_of_sem (hop : op.harmless) (h : sem ch op s = some (a, s')) :
    SameStorage s s' ∧ s'.live = s.live := by
  rcases sem_cases h with heff | ⟨-, rfl | ⟨a', heff⟩⟩
  · exact same_of_effect (s := s.tick ch.tick) hop heff
  · exact ⟨⟨rfl, rfl, rfl⟩, rfl⟩
  · exact same_of_effect (s := s.tick ch.tick) hop heff

theorem not_unsettled_of_harmless (hop : op.harmless) : ¬ Unsettled f op := by
  cases op <;> cases hop <;> exact Bool.false_ne_true

theorem stored_of_effect (hs : Stored s) (hop : op.publishes)
    (h : effect ch op s = some (a, s')) : Stored s' := by
  by_cases hharmless : op.harmless
  · exact hs.same (same_of_effect hharmless h).1
  cases op <;> first | exact absurd hop hharmless | skip
  case pushJob payload =>
    cases h
    exact .inr (.inl (append_ne_nil_of_right_ne_nil _ (cons_ne_nil _ _)))
  case addRunAfterJob job =>
    cases h
    exact .inr (.inr (append_ne_nil_of_right_ne_nil _ (cons_ne_nil _ _)))
  all_goals
    cases h
    exact hs

/-- What has been stored stays stored. -/
theorem Stored.publishes (hs : Stored s) (hop : op.publishes) (h : sem ch op s = some (a, s')) :
    Stored s' := by
  rcases sem_cases h with heff | ⟨-, rfl | ⟨a', heff⟩⟩
  · exact stored_of_effect (s := s.tick ch.tick) hs hop heff
  · exact hs
  · exact stored_of_effect (s := s.tick ch.tick) hs hop heff

/-- The calls that store a job. -/
def Op.stores : Op → Bool
  | .createRow _ | .pushJob _ | .addRunAfterJob _ => true
  | _ => false

theorem unsettled_of_stores (hop : op.stores) : Unsettled f op = (f op).carriedOut := by
  cases op <;> cases hop <;> rfl

theorem stored_of_stores (hop : op.stores) (h : effect ch op s = some (a, s')) : Stored s' := by
  cases op <;> cases hop
  case createRow data =>
    simp only [effect] at h
    split at h
    · rename_i hrow
      cases h
      exact .inl hrow
    · cases h
      exact .inl rfl
  case pushJob payload =>
    cases h
    exact .inr (.inl (append_ne_nil_of_right_ne_nil _ (cons_ne_nil _ _)))
  case addRunAfterJob job =>
    cases h
    exact .inr (.inr (append_ne_nil_of_right_ne_nil _ (cons_ne_nil _ _)))

theorem no_fault_of_ok (hop : op.infallible = false)
    (h : faulty f ch op s = some (.ok x, s')) : f op = .none := by
  simp only [faulty, sem, hop] at h
  split at h
  · rename_i hbad
    cases hbad
  · split at h
    · assumption
    · cases h
    · split at h <;> cases h

/-- A call that stores the job does so if it is carried out, and else leaves
everything as it is. -/
theorem stores_cases (hop : op.stores) (h : faulty f ch op s = some (a, s')) :
    ((f op).carriedOut → Stored s') ∧
      ((f op).carriedOut = false → SameStorage s s' ∧ s'.live = s.live) := by
  have hfallible : op.infallible = false := by
    cases op <;> cases hop <;> rfl
  have heffect : ∃ g : Store → Answer op × Store,
      ∀ ch s, effect ch op s = some (g s) := by
    cases op <;> cases hop
    case createRow data =>
      refine ⟨fun s => if s.row.isSome then (.error .storageError, s)
        else (.ok true, { s with row := some (createdRowOf data) }), fun ch s => ?_⟩
      simp only [effect]
      split <;> rfl
    case pushJob | addRunAfterJob => exact ⟨_, fun _ _ => rfl⟩
  obtain ⟨g, hg⟩ := heffect
  obtain ⟨hpost, -, -⟩ := faulty_cases g hfallible hg h
  constructor
  · intro hcarried
    rw [if_pos hcarried] at hpost
    rw [hpost]
    exact stored_of_stores hop (hg ch (s.tick ch.tick))
  · intro hcarried
    rw [if_neg (Bool.eq_false_iff.mp hcarried)] at hpost
    rw [hpost]
    exact ⟨⟨rfl, rfl, rfl⟩, rfl⟩

end Calls

/-! ### Parts of an enqueue -/

section Parts

variable {α : Type} {p : M α} {k : α → M β}

/-- A part of an enqueue that finds the store clean: if it fails, what is left
is what nothing takes back. -/
def Accounted (f : Op → Fault) (p : M α) : Prop :=
  ∀ s τ e s', Clean s → p.Exec (faulty f) s τ (.error e) s' → e.definite →
    (Clean s' ↔ ∀ c ∈ τ, ¬ Unsettled f c.op)

variable {res : Except JobWorkerError α}

theorem harmless_exec (hp : p.Calls (·.harmless)) (h : p.Exec (faulty f) s τ res s') :
    SameStorage s s' ∧ s'.live = s.live ∧ ∀ c ∈ τ, ¬ Unsettled f c.op := by
  have hsame := h.invariant (I := fun t => SameStorage s t ∧ t.live = s.live) hp
    (fun op ch ans t t' hop hsem ht =>
      ⟨ht.1.trans (same_of_sem hop hsem).1, (same_of_sem hop hsem).2.trans ht.2⟩)
    ⟨⟨rfl, rfl, rfl⟩, rfl⟩
  exact ⟨hsame.1, hsame.2, fun c hc => not_unsettled_of_harmless (h.calls hp c hc)⟩

theorem forall_append_iff {τ1 τ2 : Trace} (h : ∀ c ∈ τ1, ¬ Unsettled f c.op) :
    (∀ c ∈ τ1 ++ τ2, ¬ Unsettled f c.op) ↔ ∀ c ∈ τ2, ¬ Unsettled f c.op := by
  rw [forall_mem_append]
  exact ⟨And.right, fun h' => ⟨h, h'⟩⟩

theorem Accounted.after (hp : p.Calls (·.harmless)) (hk : ∀ a, Accounted f (k a)) :
    Accounted f (p >>= k) := by
  intro s τ e s' hs h he
  rcases exec_bind.mp h with ⟨e', hfail, -⟩ | ⟨τ1, a, s₁, τ2, hret, hrest, rfl⟩
  · obtain ⟨hsame, hlive, hcalls⟩ := harmless_exec hp hfail
    exact ⟨fun _ => hcalls, fun _ => hs.same hsame (hlive.trans hs.2.2.2)⟩
  · obtain ⟨hsame, hlive, hcalls⟩ := harmless_exec hp hret
    rw [hk a s₁ τ2 e s' (hs.same hsame (hlive.trans hs.2.2.2)) hrest he]
    exact (forall_append_iff hcalls).symm

theorem Accounted.map (hp : Accounted f p) (g : α → β) :
    Accounted f (p >>= fun a => ret (g a)) := by
  intro s τ e s' hs h he
  rcases exec_bind.mp h with ⟨e', hfail, heq⟩ | ⟨τ1, a, s₁, τ2, -, ⟨-, hbad, -⟩, -⟩
  · obtain rfl := Except.error.inj heq
    exact hp s τ _ s' hs hfail he
  · cases hbad

/-- Once the job is stored, it stays so. -/
theorem stored_exec
    (hp : p.Calls (·.publishes)) (h : p.Exec (faulty f) s τ res s') (hs : Stored s) : Stored s' :=
  h.invariant (I := Stored) hp (fun _ _ _ _ _ hop hsem ht => ht.publishes hop hsem) hs

/-- **A row is never taken back**: what follows its creation only publishes. -/
theorem accounted_createRow {k : Bool → M β}
    (hk : ∀ a, (k a).Calls (·.publishes)) : Accounted f (invoke (.createRow data) >>= k) := by
  intro s τ e s' hs h he
  rcases exec_bind.mp h with ⟨e', hfail, -⟩ | ⟨τ1, a, s₁, τ2, hret, hrest, rfl⟩
  · obtain ⟨ch, hsem, rfl⟩ := exec_perform.mp hfail
    obtain ⟨hstored, hsame⟩ := stores_cases rfl hsem
    constructor
    · intro hclean c hc
      obtain rfl := mem_singleton.mp hc
      exact fun hcarried => (hstored hcarried).not_clean hclean
    · intro hall
      obtain ⟨hsame, hlive⟩ := hsame (Bool.eq_false_iff.mpr (hall _ mem_cons_self))
      exact hs.same hsame (hlive.trans hs.2.2.2)
  · obtain ⟨ch, hsem, rfl⟩ := exec_perform.mp hret
    have hcarried : (f (.createRow data)).carriedOut := by
      rw [no_fault_of_ok rfl hsem]
      rfl
    have hstored : Stored s' :=
      stored_exec (hk a) hrest ((stores_cases rfl hsem).1 hcarried)
    constructor
    · exact fun hclean => absurd hclean hstored.not_clean
    · exact fun hall => absurd hcarried (hall _ mem_cons_self)

end Parts

/-! ### Publishing to Redis -/

section Redis

variable {job : Job}

/-- Nothing but the live record is there. -/
def Recorded (s : Store) : Prop := s.row = none ∧ s.queue = [] ∧ s.runAfter = []

theorem harmless_isRunAfterJob : (isRunAfterJob app job).Calls (·.harmless) :=
  calls_isRunAfterJob app (by rfl) job

/-- The job is stored for good, or nothing has happened and there is an error. -/
def AllOrNothing (f : Op → Fault) (s : Store) (τ : Trace) (res : Except JobWorkerError β)
    (s' : Store) : Prop :=
  (Stored s' ∧ ∃ c ∈ τ, Unsettled f c.op) ∨
    (SameStorage s s' ∧ (∀ c ∈ τ, ¬ Unsettled f c.op) ∧ ∃ e, res = .error e)

variable {res : Except JobWorkerError Unit}

theorem stores_exec (hop : op.stores)
    {res : Answer op} (h : (invoke op).Exec (faulty f) s τ res s') : AllOrNothing f s τ res s' := by
  obtain ⟨ch, hsem, rfl⟩ := exec_perform.mp h
  obtain ⟨hstored, hsame⟩ := stores_cases hop hsem
  have hunsettled : Unsettled f op = (f op).carriedOut := unsettled_of_stores hop
  cases hcarried : (f op).carriedOut with
  | true => exact .inl ⟨hstored hcarried, _, mem_cons_self, hunsettled.trans hcarried⟩
  | false =>
    refine .inr ⟨(hsame hcarried).1, fun c hc => ?_, ?_⟩
    · obtain rfl := mem_singleton.mp hc
      exact Bool.eq_false_iff.mp (hunsettled.trans hcarried)
    · cases res with
      | error e => exact ⟨e, rfl⟩
      | ok x =>
        have hfallible : op.infallible = false := by
          cases op <;> cases hop <;> rfl
        rw [no_fault_of_ok hfallible hsem] at hcarried
        cases hcarried

/-- A push stores the job for good, or fails and leaves everything as it was. -/
theorem push_cases (h : (pushToRedis app job false).Exec (faulty f) s τ res s') :
    AllOrNothing f s τ res s' := by
  rcases exec_bind.mp h with ⟨e, hfail, rfl⟩ | ⟨τ1, isRunAfter, s₁, τ2, hret, hrest, rfl⟩
  · obtain ⟨hsame, -, hcalls⟩ := harmless_exec harmless_isRunAfterJob hfail
    exact .inr ⟨hsame, hcalls, e, rfl⟩
  obtain ⟨hsame, -, hcalls⟩ := harmless_exec harmless_isRunAfterJob hret
  have hpush : AllOrNothing f s₁ τ2 res s' := by
    cases isRunAfter with
    | false => exact stores_exec rfl hrest
    | true =>
      obtain ⟨τ3, added, s₂, τ4, hadd, hend, rfl⟩ := exec_attempt_bind hrest
      have hadded : AllOrNothing f s₁ τ3 added s₂ := stores_exec rfl hadd
      cases added with
      | ok x =>
        obtain ⟨rfl, rfl, rfl⟩ := hend
        rw [append_nil]
        exact hadded
      | error e =>
        obtain ⟨rfl, rfl, rfl⟩ := hend
        rw [append_nil]
        exact hadded.imp_right fun h => ⟨h.1, h.2.1, _, rfl⟩
  rcases hpush with ⟨hstored, c, hc, hunsettled⟩ | ⟨hsame2, hcalls2, herr⟩
  · exact .inl ⟨hstored, c, mem_append_right _ hc, hunsettled⟩
  · exact .inr ⟨hsame.trans hsame2, (forall_append_iff hcalls).mpr hcalls2, herr⟩

theorem publishes_settleFailedRedisEnqueue (error : JobWorkerError) :
    (settleFailedRedisEnqueue job.id error true).Calls (·.publishes) := by
  unfold settleFailedRedisEnqueue
  split
  · trivial
  · exact (calls_deleteStatus (by rfl)).ignore.when.bind fun _ => by trivial

/-- Deleting the record of a job that is not stored. -/
theorem exec_deleteStatus_ignore (hdelete : f .deleteStatus = .none)
    (h : deleteStatus.ignore.Exec (faulty f) s τ res s') :
    SameStorage s s' ∧ s'.live = none ∧ ∀ c ∈ τ, ¬ Unsettled f c.op := by
  obtain ⟨-, res', h⟩ := exec_ignore.mp h
  obtain ⟨ch, hsem, rfl⟩ := exec_perform.mp h
  obtain ⟨hpost, -, -⟩ := faulty_cases
    (fun s => (.ok s.live.isSome, { s with live := none })) rfl (fun _ _ => rfl) hsem
  rw [hdelete] at hpost
  refine ⟨?_, ?_, fun c hc => ?_⟩
  · rw [hpost]
    exact ⟨rfl, rfl, rfl⟩
  · rw [hpost]
    rfl
  · obtain rfl := mem_singleton.mp hc
    exact Bool.false_ne_true

/-- A failed push of a new job, whose record is deleted again. -/
theorem push_settled {after : M β} (hdelete : f .deleteStatus = .none)
    (hafter : after.Calls (·.publishes)) {e : JobWorkerError} (hs : Recorded s) (he : e.definite)
    (h : (do
      match ← (pushToRedis app job false).attempt with
      | .error error => fail (← settleFailedRedisEnqueue job.id error true)
      | .ok _ => after : M β).Exec (faulty f) s τ (.error e) s') :
    Clean s' ↔ ∀ c ∈ τ, ¬ Unsettled f c.op := by
  obtain ⟨τ1, pushed, s₁, τ2, hpush, hrest, rfl⟩ := exec_attempt_bind h
  rcases push_cases hpush with ⟨hstored, c, hc, hunsettled⟩ | ⟨hsame, hcalls, e', rfl⟩
  · have hstored' : Stored s' := by
      cases pushed with
      | ok _ => exact stored_exec hafter hrest hstored
      | error e' =>
        exact stored_exec ((publishes_settleFailedRedisEnqueue e').bind fun _ => by trivial)
          hrest hstored
    constructor
    · exact fun hclean => absurd hclean hstored'.not_clean
    · exact fun hall => absurd hunsettled (hall c (mem_append_left _ hc))
  · rw [forall_append_iff hcalls]
    dsimp only at hrest
    unfold settleFailedRedisEnqueue at hrest
    split at hrest
    · -- an unanswered push is marked
      cases hrest.2.1
      cases he
    · rw [bind_assoc'] at hrest
      rcases exec_bind.mp hrest with ⟨e'', hfail, -⟩ | ⟨τ3, _, s₂, τ4, hdel, hend, rfl⟩
      · cases (exec_ignore.mp hfail).1
      obtain ⟨rfl, -, rfl⟩ := hend
      obtain ⟨hsame2, hlive, hcalls2⟩ := exec_deleteStatus_ignore hdelete hdel
      obtain ⟨hrow, hqueue, hafter'⟩ := hsame.trans hsame2
      rw [append_nil]
      exact ⟨fun _ => hcalls2,
        fun _ => ⟨hrow.trans hs.1, hqueue.trans hs.2.1, hafter'.trans hs.2.2, hlive⟩⟩

/-- Writing the PENDING record: an unanswered write is not taken back. -/
theorem accounted_putStatus {record : JobProcessingStatusRecord} {k : Bool → M β}
    (hk : ∀ a s τ e s', Recorded s → (k a).Exec (faulty f) s τ (.error e) s' → e.definite →
      (Clean s' ↔ ∀ c ∈ τ, ¬ Unsettled f c.op)) :
    Accounted f (invoke (.putStatus record) >>= k) := by
  intro s τ e s' hs h he
  have hput : ∀ {ch a s₁}, faulty f ch (.putStatus record) s = some (a, s₁) →
      SameStorage s s₁ ∧
        s₁.live = if (f (.putStatus record)).carriedOut then some record else none := by
    intro ch a s₁ hsem
    obtain ⟨hpost, -, -⟩ := faulty_cases
      (fun s => (.ok s.live.isSome, { s with live := some record })) rfl (fun _ _ => rfl) hsem
    rw [hpost]
    split
    · exact ⟨⟨rfl, rfl, rfl⟩, rfl⟩
    · exact ⟨⟨rfl, rfl, rfl⟩, hs.2.2.2⟩
  rcases exec_bind.mp h with ⟨e', hfail, -⟩ | ⟨τ1, a, s₁, τ2, hret, hrest, rfl⟩
  · obtain ⟨ch, hsem, rfl⟩ := exec_perform.mp hfail
    obtain ⟨hsame, hlive⟩ := hput hsem
    have hunsettled : (∀ c ∈ ([⟨.putStatus record, .error e', s, s'⟩] : Trace),
        ¬ Unsettled f c.op) ↔ f (.putStatus record) ≠ .unanswered true := by
      simp [Unsettled]
    rw [hunsettled]
    cases hf : f (.putStatus record) with
    | none =>
      -- the call would have been answered
      simp only [faulty, sem, hf] at hsem
      cases hsem
    | refused =>
      rw [hf] at hlive
      exact ⟨by simp, fun _ => hs.same hsame hlive⟩
    | unanswered carriedOut =>
      rw [hf] at hlive
      cases carriedOut with
      | false => exact ⟨by simp, fun _ => hs.same hsame hlive⟩
      | true =>
        refine ⟨fun hclean => ?_, fun hne => absurd rfl hne⟩
        rw [hclean.2.2.2] at hlive
        cases hlive
  · obtain ⟨ch, hsem, rfl⟩ := exec_perform.mp hret
    obtain ⟨hsame, -⟩ := hput hsem
    have hrecorded : Recorded s₁ :=
      ⟨hsame.1.trans hs.1, hsame.2.1.trans hs.2.1, hsame.2.2.trans hs.2.2.1⟩
    rw [hk a s₁ τ2 e s' hrecorded hrest he, forall_append_iff fun c hc => ?_]
    obtain rfl := mem_singleton.mp hc
    simp [Unsettled, no_fault_of_ok rfl hsem]

/-- **Publishing a new job to Redis.** -/
theorem accounted_toRedis (hdelete : f .deleteStatus = .none) (w : WorkerData)
    (streamingType : StreamingType) :
    Accounted f (enqueueJobToRedisWithWaitIfNeeded app job w streamingType false .newEnqueue) := by
  refine Accounted.after harmless_isRunAfterJob fun isRunAfter => ?_
  refine Accounted.after (Calls.when (.perform (by rfl))) fun _ => ?_
  show Accounted f ((upsertStatus app .pending).discard >>= _)
  rw [upsertStatus_discard, bind_assoc']
  refine Accounted.after (calls_findStatusRecord rfl) fun record => ?_
  unfold Prog.discard
  rw [bind_assoc']
  refine accounted_putStatus fun _ s τ e s' hs h he => push_settled hdelete ?_ hs he h
  exact (calls_afterRedisPush app (fun _ => rfl) job w streamingType .newEnqueue
    fun _ _ => rfl).when.bind fun _ => calls_waitIfDirect (by rfl) (by rfl) _ _ _

end Redis

/-! ### The paths of an enqueue -/

section Paths

variable {wid : WorkerId} {w : WorkerData} {req : EnqueueRequest}

theorem publishes_publishPending : (publishPending app).Calls (·.publishes) :=
  (calls_upsertStatus app (by rfl) fun _ => by rfl).discard

variable {data : JobData} {index : M Unit}

theorem accounted_createRdbOnly (hindex : index.Calls (·.publishes)) :
    Accounted f (createRdbOnly data do publishPending app; index) := by
  refine accounted_createRow fun created => ?_
  split
  · exact Calls.bind (publishes_publishPending.bind fun _ => hindex) fun _ => by trivial
  · trivial

theorem publishes_toRedis (job : Job) (streamingType : StreamingType) :
    (enqueueJobToRedisWithWaitIfNeeded app job w streamingType false .newEnqueue).Calls
      (·.publishes) := by
  refine calls_enqueueJobToRedis app (fun op h => ?_) job false _ (fun _ op h => ?_) w streamingType
  · cases op <;> first | rfl | cases h
  · cases op <;> first | rfl | cases h

theorem harmless_of_asks {op : Op} (h : op.asks) : op.harmless := by
  cases op <;> first | rfl | cases h

theorem accounted_enqueuePath (hdelete : f .deleteStatus = .none) (jid : JobId) (data : JobData)
    (hindex : index.Calls (·.publishes)) :
    Accounted f (Hybrid.enqueuePath app w req jid data index) := by
  unfold Hybrid.enqueuePath
  dsimp only
  split
  · exact accounted_toRedis hdelete w _
  · refine Accounted.after ((calls_isPeriodicOrRunAfter app w data).mono
      fun _ => harmless_of_asks) fun periodic => ?_
    split
    · exact accounted_createRdbOnly hindex
    · split
      · unfold Prog.discard
        rw [bind_assoc']
        exact accounted_createRow fun _ => publishes_toRedis _ _
      · split
        · exact accounted_createRdbOnly hindex
        · exact accounted_toRedis hdelete w _

theorem accounted_enqueueJobWithWorker (hdelete : f .deleteStatus = .none) :
    Accounted f (Hybrid.enqueueJobWithWorker app wid w req) := by
  refine Accounted.after ((calls_checkWorkerDataStreaming _).mono fun _ => harmless_of_asks)
    fun _ => ?_
  refine Accounted.after ?_ fun _ => ?_
  · unfold validateResponseQueueType
    split <;> trivial
  refine Accounted.after ((calls_prepareJob app wid w req).mono fun _ => harmless_of_asks)
    fun prepared => ?_
  obtain ⟨jid, data⟩ := prepared
  exact (accounted_enqueuePath hdelete jid data
    (calls_indexJobStatusAsync app (fun _ => by rfl) _ _ _ _)).map _

/-- **A definite failure leaves nothing to run** exactly if every call that
stores the job was not carried out, apart from a PENDING record that was
written with an answer and is taken back. -/
theorem definite_failure_clean_iff {s s' : Store} {τ : Trace} {e : JobWorkerError}
    (hs : Clean s) (hdelete : f .deleteStatus = .none)
    (h : (Hybrid.enqueueJobWithWorker app wid w req).Exec (faulty f) s τ (.error e) s')
    (he : e.definite) : Clean s' ↔ ∀ c ∈ τ, ¬ Unsettled f c.op :=
  accounted_enqueueJobWithWorker hdelete s τ e s' hs h he

end Paths

/-! ### A rejected push -/

/-- Redis rejects every push. -/
def queueFull : Op → Fault
  | .pushJob _ => .refused
  | _ => .none

def newStore (w : WorkerData) : Store :=
  { (default : Store) with worker := some w, runner := some ⟨some .both⟩ }

/-- A queue-only job whose push is rejected leaves nothing behind. -/
theorem rejectedNormal_clean : ∃ τ e s',
    (Hybrid.enqueueJobWithWorker default ⟨1⟩ default default).Exec (faulty queueFull)
      (newStore default) τ (.error e) s' ∧ e.definite ∧ Clean s' := by
  have hexec : (Hybrid.enqueueJobWithWorker default ⟨1⟩ default default).Exec (faulty queueFull)
      (newStore default) _ (.error .storageError) _ := exec_of_runWith default rfl
  exact ⟨_, _, _, hexec, rfl,
    (definite_failure_clean_iff ⟨rfl, rfl, rfl, rfl⟩ rfl hexec rfl).mpr (by decide)⟩

def backupWorker : WorkerData :=
  { (default : WorkerData) with queueType := QueueType.withBackup.toI32 }

/-- **A job its caller takes for failed**: the push of a WithBackup job is
rejected and the error is not marked, but its row stays, and the next
`restore_jobs_by` puts the job into the queue. -/
theorem rejectedBackup_restored : ∃ τ e s₁ τ' s₂,
    (Hybrid.enqueueJobWithWorker default ⟨1⟩ backupWorker default).Exec (faulty queueFull)
      (newStore backupWorker) τ (.error e) s₁ ∧ e.definite ∧ s₁.row.isSome ∧
    (Hybrid.restoreJobsBy default ⟨0⟩).Exec reliable s₁ τ' (.ok ()) s₂ ∧
      s₂.queue ≠ [] ∧ s₂.live = some ⟨.pending, 0⟩ :=
  ⟨_, .storageError, _, _, _, exec_of_runWith default rfl, rfl, rfl, exec_of_runWith default rfl,
    by decide, rfl⟩

end Jobworkerp
