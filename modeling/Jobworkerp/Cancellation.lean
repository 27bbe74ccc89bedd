/-
Jobworkerp/Cancellation.lean

What a cancellation achieves, and when it gives up.

A CANCELLING record is a state nobody moves on: every compare-and-set of the
application expects something else, so a cancellation that lands between
another thread's read and its write makes that write lose.  The one write that
is not a compare-and-set is the publication of a PENDING record by an enqueue,
and the result processor enqueues the next occurrence of a periodic worker.

* `cancellation_final`: without a periodic worker, a CANCELLING record can only
  be deleted, and no delivery is dispatched any more.
* `cancel_false_of_overtaken`: a cancellation that reports `false` has seen the
  job without a live record, or has been overtaken three times.
-/
import Jobworkerp.Participants

namespace Jobworkerp

open Interleaving Prog List

/-! ### Cancellation is final -/

section Final

variable {ι : Type} [DecidableEq ι]

/-- Every thread is one of the participants. -/
def participantSystem (app : App) (parts : ι → Participant) (s : Store) :
    System ι (Option DispatchEligibility) :=
  ⟨fun i => (parts i).prog app, s⟩

/-- The event publishes the PENDING record of a job that is enqueued anew. -/
def EnqueuesAnew (parts : ι → Participant) (e : Moment ι (Option DispatchEligibility)) : Prop :=
  (parts e.thread).enqueues ∧ ∃ record, e.op = .putStatus record

/-- A queue delivery gets Execute: the verdict of a check, or the claim behind
the verdict inside a dispatcher. -/
def GetsExecute (parts : ι → Participant) (e : Moment ι (Option DispatchEligibility)) : Prop :=
  (∃ d, parts e.thread = .protocol (.check d) ∧ e.result = some (.ok (some .execute))) ∨
    ∃ d : Delivery, Claims d e.op e.ans

/-- The record is CANCELLING for attempt `r`, or has been deleted. -/
def CancellingOrGone (r : UInt32) (l : Option JobProcessingStatusRecord) : Prop :=
  l = some ⟨.cancelling, r⟩ ∨ l = none

theorem registerOp_of_lifecycle (h : LifecycleOp op)
    (hput : ∀ record, op ≠ .putStatus record) : RegisterOp op := by
  cases op <;> first | exact h | exact absurd rfl (hput _)

/-- **A register call leaves a CANCELLING record alone or deletes it.** -/
theorem LiveChange.of_cancelling (h : LiveChange op l l') (hop : RegisterOp op)
    (hl : CancellingOrGone r l) : l' = l ∨ l' = none := by
  cases h with
  | same => exact .inl rfl
  | deleted => exact .inr rfl
  | published hput hst =>
    subst hput
    exact hop.elim
  | @advanced p q hadv =>
    rcases hl with hl | hl
    · cases hl
      exact absurd rfl hadv.not_cancelling
    · cases hl

variable {app : App} {parts : ι → Participant} {s : Store}
  {τ τ₁ τ₂ : List (Moment ι (Option DispatchEligibility))}
  {c₁ c₂ : System ι (Option DispatchEligibility)} {r : UInt32}

/-- Behind every verdict of Execute is a claim. -/
theorem claims_of_getsExecute (h : Run (Step sem) (participantSystem app parts s) τ c₂) (he : e ∈ τ)
    (hexec : GetsExecute parts e) : ∃ d : Delivery, Claims d e.op e.ans := by
  rcases hexec with ⟨d, hd, hres⟩ | hclaim
  · refine ⟨d, h.all_events (P := fun i op ans result =>
      ∀ d, parts i = .protocol (.check d) → result = some (.ok (some .execute)) →
        Claims d op ans) (fun i => ?_) e he d hd hres⟩
    show ((parts i).prog app).All _
    cases hi : parts i with
    | protocol p =>
      refine (p.all app).mono fun op ans result hp d hd => ?_
      cases hd
      exact hp.2 d rfl
    | _ => exact all_of_forall (fun _ _ _ _ hd => nomatch hd) _
  · exact hclaim

/-- **Cancellation is final**, as long as no periodic worker is involved.
Whatever the participants were doing when the record became CANCELLING for
attempt `r`, and however they go on: until the job is enqueued anew the record
stays as it is or is deleted, and no delivery gets Execute. -/
theorem cancellation_final (hs : NoPeriodicWorker s) (hparts : ∀ i, (parts i).NotPeriodic)
    (h₁ : Run (Step sem) (participantSystem app parts s) τ₁ c₁)
    (hlive : c₁.store.live = some ⟨.cancelling, r⟩) (h₂ : Run (Step sem) c₁ τ₂ c₂)
    (hnew : ∀ e ∈ τ₂, ¬ EnqueuesAnew parts e) :
    CancellingOrGone r c₂.store.live ∧
      (∀ e ∈ τ₂, e.post.live = e.pre.live ∨ e.post.live = none) ∧
      ∀ e ∈ τ₂, ¬ GetsExecute parts e := by
  have hrun := run_append.mpr ⟨c₁, h₁, h₂⟩
  -- outside an enqueue every call is a register call
  have hreg : ∀ e ∈ τ₂, RegisterOp e.op := by
    intro e he
    have hsafe := (hrun.safe (R := fun _ => KeepsWorker)
      (G := fun i => WorkerGuarantee (parts i).Allows) (fun _ => keepsWorker_refl)
      (fun _ _ _ _ h₁ h₂ hs => h₂ (h₁ hs)) (fun _ _ _ _ _ _ _ h => h.2)
      (fun i => (parts i).safe app (hparts i) hs)).1 e (mem_append_right _ he)
    obtain ⟨⟨hlife, hallow⟩, -⟩ := hsafe
    cases henq : (parts e.thread).enqueues with
    | false => exact hallow henq
    | true =>
      exact registerOp_of_lifecycle hlife fun record hput => hnew e he ⟨henq, record, hput⟩
  have hstep : ∀ c e c', e ∈ τ₂ → Step sem c e c' → CancellingOrGone r c.store.live →
      e.post.live = e.pre.live ∨ e.post.live = none := by
    intro c e c' he hs hc
    rw [hs.pre_eq, hs.post_eq]
    exact (liveChange_of_step hs (hreg e he).lifecycle).of_cancelling (hreg e he) hc
  have hinv : ∀ c e c', e ∈ τ₂ → Step sem c e c' → CancellingOrGone r c.store.live →
      CancellingOrGone r c'.store.live := by
    intro c e c' he hs hc
    have hpost := hstep c e c' he hs hc
    rw [hs.pre_eq, hs.post_eq] at hpost
    rcases hpost with heq | hnone
    · rw [heq]
      exact hc
    · exact .inr hnone
  refine ⟨h₂.invariant_mem hinv (.inl hlive), fun e he => ?_, fun e he hexec => ?_⟩
  · obtain ⟨c, c', hc, hs⟩ := h₂.mem_step_mem hinv (.inl hlive) he
    exact hstep c e c' he hs hc
  · obtain ⟨c, c', hc, hs⟩ := h₂.mem_step_mem hinv (.inl hlive) he
    obtain ⟨d, hclaim⟩ := claims_of_getsExecute hrun (mem_append_right _ he) hexec
    obtain ⟨ch, hsem⟩ := hs.sem_eq
    -- a claim finds PENDING
    have hpre := (live_of_applied hclaim hsem).1
    rw [hs.pre_eq] at hpre
    rcases hc with hc | hc
    · rw [hc] at hpre
      cases hpre
    · rw [hc] at hpre
      cases hpre

end Final

/-! A cancellation that lands between the read and the claim of a check. -/

def cancelledParts : Fin 2 → Participant
  | 0 => .protocol (.check default)
  | 1 => .protocol .cancel

/-- The check has read PENDING, and the cancellation has won the record. -/
def cancelledSystem : System (Fin 2) (Option DispatchEligibility) :=
  ((participantSystem default cancelledParts pendingStore).play sem
    [(0, default), (1, default), (1, default)]).2

/-- The rest of the check. -/
def lateClaim : List (Fin 2 × Choice) := List.replicate 4 (0, default)

theorem lateClaim_not_executed : cancelledSystem.store.live = some ⟨.cancelling, 0⟩ ∧
    ∀ e ∈ (cancelledSystem.play sem lateClaim).1, ¬ GetsExecute cancelledParts e := by
  have h₁ : Run (Step sem) (participantSystem default cancelledParts pendingStore) _
    cancelledSystem := run_play _ _
  have h₂ : Run (Step sem) cancelledSystem (cancelledSystem.play sem lateClaim).1 _ :=
    run_play _ _
  have hparts : ∀ i, (cancelledParts i).NotPeriodic := fun
    | 0 => trivial
    | 1 => trivial
  have hworker : NoPeriodicWorker pendingStore := by
    intro w hw
    cases hw
  have henq : ∀ i, (cancelledParts i).enqueues = false := by decide
  refine ⟨rfl, (cancellation_final hworker hparts h₁ rfl h₂ fun e _ h => ?_).2.2⟩
  rw [EnqueuesAnew, henq] at h
  exact nomatch h.1

/-! The result of a periodic job with an output stream, cancelled while it ran. -/

/-- A worker that runs its job every ten milliseconds. -/
def periodicWorker : WorkerData := { (default : WorkerData) with periodicInterval := 10 }

def finishedResult : JobResult :=
  { (default : JobResult) with
    id := some ⟨1⟩
    data := some { (default : JobResultData) with
      jobId := some ⟨1⟩, workerId := some ⟨1⟩, runAfterTime := 1 } }

def overwrittenParts : Fin 3 → Participant
  | 0 => .protocol .cancel
  | 1 => .resultProcessor finishedResult true periodicWorker
  | 2 => .background

/-- The job while its first occurrence is running. -/
def periodicStore : Store :=
  { (default : Store) with
    jobId := ⟨1⟩
    clock := 5
    live := some ⟨.running, 0⟩
    row := some { (default : JobData) with workerId := some ⟨1⟩, runAfterTime := 1 }
    worker := some periodicWorker
    runner := some ⟨some .both⟩ }

/-- The job is cancelled; the result is published, the background task deletes
the row, and the next occurrence is enqueued before the task deletes the
record. -/
def overwrittenSchedule : List (Fin 3 × Choice) :=
  let ch : Choice := { (default : Choice) with flag := true }
  List.replicate 3 (0, ch) ++ List.replicate 2 (1, ch) ++ List.replicate 3 (2, ch) ++
    List.replicate 8 (1, ch)

/-- **The result processor turns a CANCELLING record into PENDING**, when it
enqueues the next occurrence of a periodic job. -/
theorem overwrittenRun_pending :
    let τ := ((participantSystem default overwrittenParts periodicStore).play sem
      overwrittenSchedule).1
    ∃ e ∈ τ, e.thread = 1 ∧ e.pre.live = some ⟨.cancelling, 0⟩ ∧
      e.post.live = some ⟨.pending, 0⟩ := by
  refine ⟨(((participantSystem default overwrittenParts periodicStore).play sem
    overwrittenSchedule).1.get ⟨15, by decide⟩), get_mem _ _, rfl, rfl, rfl⟩

/-! ### Lost races -/

section Races

variable {ι : Type} [DecidableEq ι]

/-- There is no live record, or its status is unknown. -/
def NotLive : Option JobProcessingStatusRecord → Prop
  | some p => p.status = .unknown
  | none => True

instance : DecidablePred NotLive
  | some p => inferInstanceAs (Decidable (p.status = .unknown))
  | none => inferInstanceAs (Decidable True)

/-- Another thread than `i` changes the record. -/
def Overtakes (i : ι) (e : Moment ι Bool) : Prop :=
  e.thread ≠ i ∧ e.post.live ≠ e.pre.live

instance (i : ι) : DecidablePred (Overtakes i) := fun _ => inferInstanceAs (Decidable (_ ∧ _))

variable {c c' : System ι Bool} {τ τ' : List (Moment ι Bool)} {i : ι} {app : App}

/-- How often a thread is overtaken. -/
def overtakings (i : ι) (τ : List (Moment ι Bool)) : ℕ := τ.countP fun e => Overtakes i e

/-- If the record changes while a thread stands still, the thread is overtaken. -/
theorem overtakings_pos (h : Run (Step sem) c τ c') (hno : ∀ e ∈ τ, e.thread ≠ i)
    (hne : c'.store.live ≠ c.store.live) : 0 < overtakings i τ := by
  obtain ⟨c₁, e, c₂, he, hs, hc1, hc2⟩ := h.exists_leaves
    (P := fun c₁ => c₁.store.live = c.store.live) rfl hne
  refine countP_pos_iff.mpr ⟨e, he, decide_eq_true ⟨hno e he, ?_⟩⟩
  rw [hs.pre_eq, hs.post_eq, hc1]
  exact hc2

/-- A read of a thread that later returns: it goes on with the record it found. -/
theorem run_findStatusRecord (h : Run (Step sem) c τ c') (hi : c.threads i = findStatusRecord >>= f)
    (hres : (c'.threads i).result = some (.ok b)) :
    ∃ τ₁ e τ₂ c₁, τ = τ₁ ++ e :: τ₂ ∧ e.thread = i ∧ e.pre.live = c₁.store.live ∧
      c₁.threads i = f c₁.store.live ∧ Run (Step sem) c₁ τ₂ c' := by
  obtain ⟨τ₁, e, τ₂, c₁, c₂, ch, ans, rfl, he, hpre, -, -, hsem, hk, h₂⟩ := h.next_event hi hres
  cases ans with
  | error err =>
    rw [h₂.ended (hk ▸ rfl : (c₂.threads i).result = some (.error err))] at hres
    cases hres
  | ok record =>
    have hlive := sem_live hsem (by decide)
    have heff := effect_of_sem_ok hsem
    have hrecord : record = c₂.store.live := (answer_eq heff).1.symm.trans hlive.symm
    refine ⟨τ₁, e, τ₂, c₂, rfl, he, hpre ▸ hlive.symm, ?_, h₂⟩
    rw [hk, hrecord]
    rfl

/-- A compare-and-set of a thread that later returns: it is applied, or the
thread has been overtaken since it read the expected record, and goes on with
a record it finds instead. -/
theorem run_compareAndSetStatus {next : Option JobProcessingStatusRecord}
    (h : Run (Step sem) c τ c') (hi : c.threads i = compareAndSetStatus app (some p) next >>= f)
    (hlive : c.store.live = some p) (hres : (c'.threads i).result = some (.ok b)) :
    ∃ τ₁ τ₂ c₁, τ = τ₁ ++ τ₂ ∧ Run (Step sem) c₁ τ₂ c' ∧
      (c₁.threads i = f .applied ∨
        c₁.threads i = f (.conflict c₁.store.live) ∧ 0 < overtakings i τ₁ ∧
          ∃ e ∈ τ₁, e.thread = i ∧ e.pre.live = c₁.store.live) := by
  have hlost : ∀ {c₁ τ₁ τ₂}, Run (Step sem) c τ₁ c₁ → (∀ e ∈ τ₁, e.thread ≠ i) →
      c₁.store.live ≠ some p → 0 < overtakings i (τ₁ ++ τ₂) := fun h₁ hno hne =>
    Nat.lt_of_lt_of_le (overtakings_pos h₁ hno (hlive ▸ hne))
      (sublist_append_left _ _).countP_le
  unfold compareAndSetStatus at hi
  split at hi
  · obtain ⟨τ₁, e, τ₂, c₁, c₂, ch, ans, rfl, he, hpre, h₁, hno, hsem, hk, h₂⟩ :=
      h.next_event hi hres
    cases ans with
    | error err =>
      rw [h₂.ended (hk ▸ rfl : (c₂.threads i).result = some (.error err))] at hres
      cases hres
    | ok result =>
      refine ⟨τ₁ ++ [e], τ₂, c₂, by simp, h₂, ?_⟩
      have heff := effect_of_sem_ok hsem
      obtain ⟨hans, hstore⟩ := answer_eq heff
      change (if c₁.store.live = some p then _ else _) = result at hans
      by_cases heq : c₁.store.live = some p
      · rw [if_pos heq] at hans
        subst hans
        exact .inl hk
      · -- the answer carries the record, which is left as it is
        have hpost : c₂.store.live = c₁.store.live := by
          rw [← hstore]
          exact if_neg heq
        rw [if_neg heq] at hans
        subst hans
        refine .inr ⟨hpost ▸ hk, hlost h₁ hno heq, e, by simp, he, ?_⟩
        rw [hpre, hpost]
  · obtain ⟨τ₁, e, τ₂, c₁, c₂, ch, ans, rfl, he, hpre, h₁, hno, hsem, hk, h₂⟩ :=
      h.next_event hi hres
    cases ans with
    | error err =>
      rw [h₂.ended (hk ▸ rfl : (c₂.threads i).result = some (.error err))] at hres
      cases hres
    | ok applied =>
      have heff := effect_of_sem_ok hsem
      have hans : decide (c₁.store.live = some p) = applied := (answer_eq heff).1
      cases applied with
      | true => exact ⟨τ₁ ++ [e], τ₂, c₂, by simp, h₂, .inl hk⟩
      | false =>
        -- the record is read by a call of its own
        obtain ⟨τ₃, e', τ4, c3, rfl, he', hpre', hf, h4⟩ :=
          run_findStatusRecord h₂ (hk.trans (bind_assoc' findStatusRecord _ f)) hres
        exact ⟨τ₁ ++ (e :: τ₃ ++ [e']), τ4, c3, by simp, h4,
          .inr ⟨hf, hlost h₁ hno (of_decide_eq_false hans), e', by simp, he', hpre'⟩⟩

theorem overtakings_append (i : ι) (τ₁ τ₂ : List (Moment ι Bool)) :
    overtakings i (τ₁ ++ τ₂) = overtakings i τ₁ + overtakings i τ₂ :=
  countP_append

/-- The loop of a cancellation that reports `false` has read a record that is
not live, or has been overtaken once per attempt. -/
theorem overtaken_of_cancelAttempts
    (h : Run (Step sem) c τ c') (hi : c.threads i = cancelAttempts app n record)
    (hlive : c.store.live = some record) (hres : (c'.threads i).result = some (.ok false)) :
    record.status = .unknown ∨ (∃ e ∈ τ, e.thread = i ∧ NotLive e.pre.live) ∨
      ∃ τ₁ e τ₂, τ = τ₁ ++ e :: τ₂ ∧ e.thread = i ∧ n ≤ overtakings i τ₁ := by
  induction n generalizing c τ record with
  | zero =>
    obtain ⟨τ₁, e, τ₂, -, rfl, he, -⟩ := run_findStatusRecord h hi hres
    exact .inr (.inr ⟨τ₁, e, τ₂, rfl, he, Nat.zero_le _⟩)
  | succ n ih =>
    unfold cancelAttempts at hi
    split at hi
    · rename_i hunknown
      exact .inl hunknown
    · split at hi
      · -- a cancelled record is reported as such
        rw [h.ended (hi ▸ rfl : (c.threads i).result = some (.ok true))] at hres
        cases hres
      · obtain ⟨τ₁, τ₂, c₁, rfl, h₁, happlied | ⟨hconflict, hpos, e, he, hthread, hpre⟩⟩ :=
          run_compareAndSetStatus h hi hlive hres
        · have htrue : (c₁.threads i).Returns (· = true) := by
            rw [happlied]
            exact Returns.bind (Q := (· = true)) (f := fun _ => ret true) (fun _ => rfl) _
          cases (h₁.returns htrue).of_result hres
        · refine .inr ?_
          have hmem : e ∈ τ₁ ++ τ₂ := mem_append_left _ he
          cases hcurrent : c₁.store.live with
          | none => exact .inl ⟨e, hmem, hthread, by rw [hpre, hcurrent]; trivial⟩
          | some current =>
            rw [hcurrent] at hconflict hpre
            rcases ih h₁ hconflict hcurrent with hunknown | ⟨e', he', hlate⟩ |
              ⟨τ₃, e', τ4, rfl, he', hn⟩
            · exact .inl ⟨e, hmem, hthread, by rw [hpre]; exact hunknown⟩
            · exact .inl ⟨e', mem_append_right _ he', hlate⟩
            · refine .inr ⟨τ₁ ++ τ₃, e', τ4, by simp, he', ?_⟩
              rw [overtakings_append]
              omega

/-- **A cancellation that reports `false`** has at one of its own calls found
the job without a live record, or with an unknown status, or it has been
overtaken between its first and its last call as often as it tries: other
threads changed the record three times.  The other threads are arbitrary
programs. -/
theorem cancel_false_of_overtaken (h : Run (Step sem) c τ c')
    (hi : c.threads i = cancelJobLifecycle app)
    (hres : (c'.threads i).result = some (.ok false)) :
    (∃ e ∈ τ, e.thread = i ∧ NotLive e.pre.live) ∨
      ∃ τ₁ e₁ τ₂ e₂ τ₃, τ = τ₁ ++ e₁ :: (τ₂ ++ e₂ :: τ₃) ∧ e₁.thread = i ∧ e₂.thread = i ∧
        maxCancellationStatusTransitionAttempts ≤ overtakings i τ₂ := by
  obtain ⟨τ₁, e₁, τ₂, c₁, rfl, he1, hpre, hk, h₁⟩ := run_findStatusRecord h hi hres
  cases hlive : c₁.store.live with
  | none => exact .inl ⟨e₁, by simp, he1, by rw [hpre, hlive]; trivial⟩
  | some record =>
    rw [hlive] at hk hpre
    dsimp only at hk
    split at hk
    · rename_i hunknown
      exact .inl ⟨e₁, by simp, he1, by rw [hpre]; exact hunknown⟩
    · rcases overtaken_of_cancelAttempts h₁ hk hlive hres with hunknown | ⟨e, he, hlate⟩ |
        ⟨τ₃, e₂, τ4, rfl, he2, hn⟩
      · exact .inl ⟨e₁, by simp, he1, by rw [hpre]; exact hunknown⟩
      · exact .inl ⟨e, by simp [he], hlate⟩
      · exact .inr ⟨τ₁, e₁, τ₃, e₂, τ4, rfl, he1, he2, hn⟩

end Races

/-! A job with one retry that is cancelled while a dispatcher works on it. -/

/-- A worker of the queue with one retry. -/
def retryingWorker : WorkerData :=
  { (default : WorkerData) with
    retryPolicy := some { (default : RetryPolicy) with
      type := RetryType.constant.toI32, maxRetry := 1 } }

/-- A cancellation, and the dispatcher of the first attempt. -/
def racedSystem : System Bool Bool :=
  { threads := fun
      | false => cancelJobLifecycle default
      | true => do
          (dispatchQueueJob default none ⟨some ⟨1⟩, some { (default : JobData) with
            workerId := some ⟨1⟩ }, []⟩ false).discard
          return true
    store := { (default : Store) with
      jobId := ⟨1⟩
      live := some ⟨.pending, 0⟩
      worker := some retryingWorker
      runner := some ⟨some .both⟩ } }

/-- The cancellation reads the record, and each of its attempts loses: to the
claim, to the end of the run and to the retry. -/
def racedSchedule : List (Bool × Choice) :=
  let ch : Choice := { (default : Choice) with
    outcome := { (default : RunOutcome) with status := .errorAndRetry } }
  [(false, ch)] ++ List.replicate 4 (true, ch) ++ [(false, ch)] ++ List.replicate 3 (true, ch) ++
    [(false, ch)] ++ List.replicate 3 (true, ch) ++ List.replicate 2 (false, ch)

def racedRun : List (Moment Bool Bool) := (racedSystem.play sem racedSchedule).1

/-- **A live job is reported as not cancellable**: it has a live record at every
moment, never of unknown status, and is left PENDING. -/
theorem racedRun_not_cancelled :
    ((racedSystem.play sem racedSchedule).2.threads false).result = some (.ok false) ∧
      (racedSystem.play sem racedSchedule).2.store.live = some ⟨.pending, 1⟩ ∧
      ∀ e ∈ racedRun, ¬ NotLive e.pre.live :=
  ⟨rfl, rfl, by decide⟩

theorem racedRun_overtaken :
    ∃ τ₁ e₁ τ₂ e₂ τ₃, racedRun = τ₁ ++ e₁ :: (τ₂ ++ e₂ :: τ₃) ∧ e₁.thread = false ∧
      e₂.thread = false ∧ maxCancellationStatusTransitionAttempts ≤ overtakings false τ₂ := by
  have hrun : Run (Step sem) racedSystem racedRun _ := run_play _ racedSchedule
  exact (cancel_false_of_overtaken hrun rfl rfl).resolve_left (by decide)

end Jobworkerp
