/-
Jobworkerp/AttemptExclusivity.lean

The claim protocol: one attempt, one execution.

The live record of a job is a register that several protocols read and change
by compare-and-set: dispatchers checking deliveries, cancellations, the change
after a run, the claim of a retry, the restore of an unstarted dispatch and
the clean-up.  Any number of them run at once, in any order, and the
deliveries carry arbitrary attempt numbers.

The invariant is one-sided.  An attempt is *spent* (`Spent r`) once the record
has been claimed for it, or for a later one, or is gone; a claim needs an
unspent attempt and spends it, and the only step back is the restore of an
unstarted dispatch.

* `attempt_exclusivity`: two Execute verdicts for one attempt are separated by
  an applied restore, a stale delivery never gets Execute, and the recorded
  attempt never decreases.
-/
import Jobworkerp.SyntaxDirected

namespace Jobworkerp

open Interleaving Prog

/-! ### Applied compare-and-sets -/

/-- The call was a compare-and-set from `expected` to `next`, and was answered
as applied. -/
def Applied (expected next : Option JobProcessingStatusRecord) :
    (op : Op) → Except JobWorkerError (Resp op) → Prop
  | .compareAndSetEntry e n, .ok result => e = expected ∧ n = next ∧ result = .applied
  | .compareAndSetScript e n, .ok result => e = expected ∧ n = next ∧ result = true
  | _, _ => False

variable {ch : Choice} {op : Op} {s s' : Store} {ans : Answer op}
  {l l' : Option JobProcessingStatusRecord} {r : UInt32}

/-- **An applied compare-and-set found the expected record and left the next.** -/
theorem live_of_applied
    (happ : Applied expected next op ans) (h : sem ch op s = some (ans, s')) :
    s.live = expected ∧ s'.live = next := by
  have hlive : (s.tick ch.tick).live = s.live := rfl
  cases op <;> cases ans <;> simp only [Applied] at happ
  case compareAndSetEntry.ok e n result =>
    obtain ⟨rfl, rfl, rfl⟩ := happ
    have heff := effect_of_sem_ok h
    obtain ⟨hans, rfl⟩ := answer_eq heff
    rw [hlive] at hans ⊢
    by_cases heq : s.live = e
    · exact ⟨heq, if_pos heq⟩
    · rw [if_neg heq] at hans
      cases hans
  case compareAndSetScript.ok e n result =>
    obtain ⟨rfl, rfl, rfl⟩ := happ
    have heff := effect_of_sem_ok h
    obtain ⟨hans, rfl⟩ := answer_eq heff
    have heq : s.live = e := of_decide_eq_true hans
    exact ⟨heq, if_pos heq⟩

/-! ### Execute means an applied claim -/

theorem all_cancelledDispatchEligibility (d : Delivery) :
    (cancelledDispatchEligibility d).All fun _ _ result => result ≠ some (.ok .execute) := by
  rintro (e | startTime)
  · exact ⟨nofun, trivial⟩
  refine ⟨nofun, ?_⟩
  rintro (e | endTime)
  · exact ⟨nofun, trivial⟩
  refine ⟨nofun, ?_⟩
  rintro (e | id)
  · exact ⟨nofun, trivial⟩
  · exact ⟨nofun, trivial⟩

/-- The claim that stands behind an Execute verdict. -/
abbrev Claims (d : Delivery) (op : Op) (ans : Except JobWorkerError (Resp op)) : Prop :=
  Applied (some ⟨.pending, d.data.retried⟩) (some ⟨.running, d.data.retried⟩) op ans

/-- A lost claim never ends with Execute. -/
theorem all_claimConflict (d : Delivery) (current : Option JobProcessingStatusRecord) :
    (claimConflict d current).All (fun _ _ result => result ≠ some (.ok .execute)) ∧
      (claimConflict d current).result ≠ some (.ok .execute) := by
  unfold claimConflict
  split
  · split
    · exact ⟨all_cancelledDispatchEligibility d, nofun⟩
    · exact ⟨trivial, nofun⟩
  · exact ⟨trivial, nofun⟩

theorem all_claimAttempt (app : App) (d : Delivery) : (claimAttempt app d).All fun op ans result =>
      result = some (.ok .execute) → Claims d op ans := by
  have hconflict : ∀ current, (claimConflict d current).All fun op ans result =>
      result = some (.ok .execute) → Claims d op ans := fun current =>
    (all_claimConflict d current).1.mono fun _ _ _ hne h => absurd h hne
  unfold claimAttempt compareAndSetStatus
  cases app.storage with
  | standalone =>
    rintro (e | (- | current))
    · exact ⟨nofun, trivial⟩
    · exact ⟨fun _ => ⟨rfl, rfl, rfl⟩, trivial⟩
    · exact ⟨fun h => absurd h (all_claimConflict d current).2, hconflict current⟩
  | scalable =>
    rintro (e | (- | -))
    · exact ⟨nofun, trivial⟩
    · -- the conflicting record is read by a call of its own
      refine ⟨nofun, ?_⟩
      rintro (e | current)
      · exact ⟨nofun, trivial⟩
      · exact ⟨fun h => absurd h (all_claimConflict d current).2, hconflict current⟩
    · exact ⟨fun _ => ⟨rfl, rfl, rfl⟩, trivial⟩

/-- The call found no record. -/
def Missing : (op : Op) → Except JobWorkerError (Resp op) → Prop
  | .getStatus, .ok record => record = none
  | _, _ => False

theorem live_of_missing (hmiss : Missing op ans)
    (h : sem ch op s = some (ans, s')) : s.live = none := by
  cases op <;> cases ans <;> simp only [Missing] at hmiss
  case getStatus.ok record =>
    subst hmiss
    have heff := effect_of_sem_ok h
    exact (answer_eq heff).1

/-- **A delivery gets Execute only by an applied claim of its attempt**, or, as
a row of the RDB table, when there is no record. -/
theorem all_check (app : App) (d : Delivery) (executeWhenStatusMissing : Bool) :
    (checkCancellationStatusWithMissingStatus app d executeWhenStatusMissing).All
      fun op ans result => result = some (.ok .execute) →
        Claims d op ans ∨ executeWhenStatusMissing ∧ Missing op ans := by
  have hcancelled : (cancelledDispatchEligibility d).All fun op ans result =>
      result = some (.ok .execute) →
        Claims d op ans ∨ executeWhenStatusMissing ∧ Missing op ans :=
    (all_cancelledDispatchEligibility d).mono fun _ _ _ hne h => absurd h hne
  have hclaim : (claimAttempt app d).result = none := by
    unfold claimAttempt compareAndSetStatus
    cases app.storage <;> rfl
  rintro (e | (- | record))
  · exact ⟨nofun, trivial⟩
  · cases executeWhenStatusMissing with
    | false => exact ⟨nofun, trivial⟩
    | true => exact ⟨fun _ => .inr ⟨rfl, rfl⟩, trivial⟩
  · show (((if record.retried = d.data.retried then _ else _ : M _)).result = _ → _) ∧
      ((if record.retried = d.data.retried then _ else _ : M _)).All _
    split
    · split
      · exact ⟨by simp [hclaim], (all_claimAttempt app d).mono fun _ _ _ h hres => .inl (h hres)⟩
      · exact ⟨nofun, hcancelled⟩
      all_goals exact ⟨nofun, trivial⟩
    · exact ⟨nofun, trivial⟩

/-- A queue delivery gets Execute only by an applied claim of its attempt. -/
theorem all_checkCancellationStatus (app : App) (d : Delivery) :
    (checkCancellationStatus app d).All fun op ans result =>
      result = some (.ok .execute) → Claims d op ans := by
  refine (all_check app d false).mono fun op ans result h hres => ?_
  rcases h hres with hclaim | ⟨hfalse, -⟩
  · exact hclaim
  · cases hfalse

/-! ### The protocols -/

/-- The protocols that read and change the live record of one job. -/
inductive Protocol
  /-- A queue dispatcher checks a delivery. -/
  | check (d : Delivery)
  | cancel
  /-- The change after a run. -/
  | waitResult (responseType : ℤ) (retried : UInt32)
  /-- The result processor claims the next attempt of a retryable result. -/
  | retry (data : JobResultData) (worker : WorkerData) (metadata : Metadata)
  /-- The Redis dispatcher gives an unstarted delivery back. -/
  | requeue (d : Delivery)
  /-- The RDB dispatcher gives an unstarted row back. -/
  | releaseRow (retried : UInt32)
  | cleanup

/-- The claim of a retry, when there is one to build. -/
def retryTransition (app : App) (data : JobResultData) (worker : WorkerData)
    (metadata : Metadata) : M Unit :=
  match buildRetryJob app.expo data worker metadata with
  | some j => (transitionRetryToPendingOrCancel app data j).discard
  | none => pure ()

/-- The program of a protocol, with the verdict of a check. -/
def Protocol.prog (app : App) : Protocol → M (Option DispatchEligibility)
  | check d => do return some (← checkCancellationStatus app d)
  | cancel => do (cancelJobLifecycle app).discard; return none
  | waitResult responseType retried => do markWaitResult app responseType retried; return none
  | retry data worker metadata => do retryTransition app data worker metadata; return none
  | requeue d => do (restorePendingAttemptForRequeue app d).discard; return none
  | releaseRow retried => do
      (restorePendingAfterUnstartedRdbDispatch app retried).discard
      return none
  | cleanup => do cleanupJob app; return none

/-- No protocol publishes a new record. -/
theorem Protocol.calls (app : App) (p : Protocol) : (p.prog app).Calls RegisterOp := by
  cases p with
  | check d => exact (calls_checkCancellationStatus d false).bind fun _ => by trivial
  | cancel =>
    exact ((calls_cancelJobLifecycle app).mono fun _ => CancelOp.register).discard.bind
      fun _ => by trivial
  | waitResult responseType retried =>
    exact (calls_markWaitResult responseType retried).bind fun _ => by trivial
  | retry data worker metadata =>
    refine Calls.bind ?_ fun _ => by trivial
    unfold retryTransition
    split
    · rename_i hj
      exact ((calls_transitionRetryToPendingOrCancel hj).mono fun _ h => h.settle.register).discard
    · trivial
  | requeue d =>
    exact (calls_restorePendingAttemptForRequeue d).discard.bind fun _ => by trivial
  | releaseRow retried =>
    exact (calls_restorePendingAfterUnstartedRdbDispatch retried).discard.bind
      fun _ => by trivial
  | cleanup =>
    exact ((calls_cleanupJob app).mono fun _ => CleanupOp.register).bind fun _ => by trivial

/-! ### Spent attempts -/

/-- The record has been claimed for attempt `r` or a later one, or is gone. -/
def Spent (r : UInt32) : Option JobProcessingStatusRecord → Prop
  | some p => r < p.retried ∨ p.retried = r ∧ p.status ≠ .pending
  | none => True

theorem spent_running (r : UInt32) : Spent r (some ⟨.running, r⟩) :=
  .inr ⟨rfl, by simp⟩

theorem not_spent_pending (r : UInt32) : ¬ Spent r (some ⟨.pending, r⟩) := by
  rintro (hlt | ⟨-, hne⟩)
  · exact UInt32.lt_irrefl r hlt
  · exact hne rfl

/-- **Only the restore of an unstarted dispatch makes a spent attempt claimable
again.** -/
theorem LiveChange.restore_of_spent (h : LiveChange op l l') (hop : RegisterOp op) (hl : Spent r l)
    (hl' : ¬ Spent r l') : l = some ⟨.running, r⟩ ∧ l' = some ⟨.pending, r⟩ := by
  cases h with
  | same => exact absurd hl hl'
  | deleted => exact absurd trivial hl'
  | published hput hst =>
    subst hput
    exact hop.elim
  | @advanced p q hadv =>
    -- the attempt of the record stays `r`, so the change is not a retry
    have hle : r ≤ p.retried := by
      rcases hl with hlt | ⟨heq, -⟩
      · exact UInt32.le_of_lt hlt
      · exact UInt32.le_of_eq heq.symm
    have hq : ¬ r < q.retried ∧ (q.retried = r → q.status = .pending) := by
      refine ⟨fun hlt => hl' (.inl hlt), fun heq => ?_⟩
      by_contra hne
      exact hl' (.inr ⟨heq, hne⟩)
    have hqr : q.retried = r :=
      UInt32.le_antisymm (UInt32.not_lt.mp hq.1) (UInt32.le_trans hle hadv.retried_le)
    have hpr : p.retried = r :=
      UInt32.le_antisymm (hqr ▸ hadv.retried_le) hle
    have hpst : p.status ≠ .pending := by
      rcases hl with hlt | ⟨-, hne⟩
      · exact absurd (hpr ▸ hlt) (UInt32.lt_irrefl r)
      · exact hne
    have hqst := hq.2 hqr
    cases hadv with
    | claim | waitResult | cancel => cases hqst
    | restore r' =>
      obtain rfl : r' = r := hpr
      exact ⟨rfl, rfl⟩
    | retry hst hr =>
      simp only at hpr hqr
      rw [hpr, hqr] at hr
      omega

/-- The recorded attempt never decreases, and a deleted record stays deleted. -/
theorem LiveChange.le_retried (h : LiveChange op l l') (hop : RegisterOp op)
    (hl : ∀ p, l = some p → r ≤ p.retried) : ∀ q, l' = some q → r ≤ q.retried := by
  intro q hq
  cases h with
  | same => exact hl q hq
  | deleted => cases hq
  | published hput hst =>
    subst hput
    exact hop.elim
  | advanced hadv =>
    obtain rfl := Option.some.inj hq
    exact UInt32.le_trans (hl _ rfl) hadv.retried_le

/-! ### Attempt exclusivity -/

section System

variable {ι : Type} [DecidableEq ι]

/-- What a lifecycle call does to the record, along the steps of a system. -/
theorem liveChange_of_step {c c' : System ι α} (h : Step sem c e c') (hop : LifecycleOp e.op) :
    LiveChange e.op c.store.live c'.store.live := by
  obtain ⟨ch, hsem⟩ := h.sem_eq
  rw [← h.pre_eq, ← h.post_eq]
  exact live_of_sem hop hsem

/-- Every thread runs one of the protocols. -/
def protocolSystem (app : App) (protos : ι → Protocol) (s : Store) :
    System ι (Option DispatchEligibility) :=
  ⟨fun i => (protos i).prog app, s⟩

/-- The event is the Execute verdict of a delivery that carries attempt `r`. -/
def Executes (protos : ι → Protocol) (e : Moment ι (Option DispatchEligibility))
    (r : UInt32) : Prop :=
  ∃ d, protos e.thread = .check d ∧ d.data.retried = r ∧
    e.result = some (.ok (some .execute))

/-- The event is an applied restore of attempt `r`. -/
def Restores {α : Type} (e : Moment ι α) (r : UInt32) : Prop :=
  e.pre.live = some ⟨.running, r⟩ ∧ e.post.live = some ⟨.pending, r⟩

variable {app : App} {protos : ι → Protocol} {s : Store}
  {τ : List (Moment ι (Option DispatchEligibility))}
  {c' : System ι (Option DispatchEligibility)}

/-- Every call of every protocol is a register call, and behind every Execute
verdict is a claim. -/
theorem Protocol.all (app : App) (p : Protocol) :
    (p.prog app).All fun op ans result => RegisterOp op ∧
      ∀ d, p = .check d → result = some (.ok (some .execute)) → Claims d op ans := by
  refine (p.calls app).all.and ?_
  cases p with
  | check d =>
    refine (all_checkCancellationStatus app d).bind (fun _ => trivial) ?_ ?_ ?_
    · exact fun _ _ _ _ _ hres => nomatch hres
    · exact fun _ _ _ _ _ _ hres => nomatch hres
    · rintro op ans verdict hclaim d' hd hres
      cases hd
      cases hres
      exact hclaim rfl
  | _ => exact all_of_forall (fun _ _ _ _ hd => nomatch hd) _

theorem registerOp_of_mem (h : Run (Step sem) (protocolSystem app protos s) τ c') :
    ∀ e ∈ τ, RegisterOp e.op := fun e he =>
  (h.all_events (fun i => (protos i).all app) e he).1

/-- A verdict of Execute claims the attempt of the delivery. -/
theorem live_of_executes (h : Run (Step sem) (protocolSystem app protos s) τ c') (he : e ∈ τ)
    (hr : Executes protos e r) :
    e.pre.live = some ⟨.pending, r⟩ ∧ e.post.live = some ⟨.running, r⟩ := by
  obtain ⟨d, hd, rfl, hres⟩ := hr
  have hclaim := (h.all_events (fun i => (protos i).all app) e he).2 d hd hres
  obtain ⟨c₁, c2, -, hstep⟩ := h.mem_step (I := fun _ => True) (fun _ _ _ _ _ => trivial)
    trivial he
  obtain ⟨ch, hsem⟩ := hstep.sem_eq
  exact live_of_applied hclaim hsem

/-- **Attempt exclusivity.**  Whatever the record is at the start, (PENDING, 0)
for a new job, in every interleaving of the protocols: between two Execute
verdicts for one attempt lies an applied restore of that attempt; a delivery
gets Execute only when the record is PENDING for its own attempt; and the
recorded attempt never decreases while the record exists. -/
theorem attempt_exclusivity (h : Run (Step sem) (protocolSystem app protos s) τ c') :
    (∀ τ₁ e₁ τ₂ e₂ τ₃ r, τ = τ₁ ++ e₁ :: (τ₂ ++ e₂ :: τ₃) →
      Executes protos e₁ r → Executes protos e₂ r → ∃ e ∈ τ₂, Restores e r) ∧
    (∀ e ∈ τ, ∀ r, Executes protos e r → e.pre.live = some ⟨.pending, r⟩) ∧
    (∀ τ₁ τ₂ c₁, τ = τ₁ ++ τ₂ → Run (Step sem) (protocolSystem app protos s) τ₁ c₁ →
      Run (Step sem) c₁ τ₂ c' → ∀ p q, c₁.store.live = some p → c'.store.live = some q →
        p.retried ≤ q.retried) := by
  have hreg := registerOp_of_mem h
  refine ⟨?_, fun e he r hr => (live_of_executes h he hr).1, ?_⟩
  · rintro τ₁ e₁ τ₂ e₂ τ₃ r rfl hr1 hr2
    obtain ⟨-, hpost⟩ := live_of_executes h (e := e₁) (by simp) hr1
    obtain ⟨hpre, -⟩ := live_of_executes h (e := e₂) (by simp) hr2
    obtain ⟨c₁, -, c2, hs1, hrest⟩ := run_append.mp h
    obtain ⟨c3, hmid, c4, hs2, -⟩ := run_append.mp hrest
    rw [hs1.post_eq] at hpost
    rw [hs2.pre_eq] at hpre
    -- the attempt is spent after the first verdict and claimable before the second
    obtain ⟨d1, e, d2, he, hs, hspent, hclaimable⟩ := hmid.exists_leaves
      (P := fun c => Spent r c.store.live) (hpost ▸ spent_running r)
      (hpre ▸ not_spent_pending r)
    have hop : RegisterOp e.op := hreg e (by simp [he])
    obtain ⟨hl, hl'⟩ := (liveChange_of_step hs hop.lifecycle).restore_of_spent hop hspent hclaimable
    refine ⟨e, he, ?_, ?_⟩
    · rw [hs.pre_eq, hl]
    · rw [hs.post_eq, hl']
  · rintro τ₁ τ₂ c₁ rfl - h2 p q hp hq
    refine h2.invariant_mem (I := fun c => ∀ q, c.store.live = some q → p.retried ≤ q.retried)
      ?_ ?_ q hq
    · intro c e c'' he hs hle
      have hop : RegisterOp e.op := hreg e (by simp [he])
      exact (liveChange_of_step hs hop.lifecycle).le_retried hop hle
    · intro q' hq'
      rw [hp] at hq'
      obtain rfl := Option.some.inj hq'
      exact UInt32.le_refl _

end System

/-- Two deliveries of one attempt, and the restore of an unstarted dispatch. -/
def requeuedProtocols : Fin 3 → Protocol
  | 0 => .check default
  | 1 => .requeue default
  | 2 => .check default

/-- A new job, with its record published. -/
def pendingStore : Store := { (default : Store) with live := some ⟨.pending, 0⟩ }

/-- The first delivery is dispatched and given back, then the second one is
dispatched. -/
def requeuedSchedule : List (Fin 3 × Choice) :=
  [(0, default), (0, default), (1, default), (2, default), (2, default)]

def requeuedRun : List (Moment (Fin 3) (Option DispatchEligibility)) :=
  ((protocolSystem default requeuedProtocols pendingStore).play sem requeuedSchedule).1

theorem requeuedRun_restores : ∃ e ∈ (requeuedRun.drop 2).take 2, Restores e 0 := by
  have hrun : Run (Step sem) (protocolSystem default requeuedProtocols pendingStore)
      requeuedRun _ := run_play _ requeuedSchedule
  refine (attempt_exclusivity hrun).1 (requeuedRun.take 1) (requeuedRun.get ⟨1, by decide⟩) _
    (requeuedRun.get ⟨4, by decide⟩) [] 0 rfl ?_ ?_
  · exact ⟨default, rfl, rfl, rfl⟩
  · exact ⟨default, rfl, rfl, rfl⟩

end Jobworkerp
