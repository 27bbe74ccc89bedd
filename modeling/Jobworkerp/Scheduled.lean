/-
Jobworkerp/Scheduled.lean

A job whose only queue is the job table, enqueued, cancelled and dispatched at
the same time.

The enqueue creates the row and then publishes the PENDING record, without
looking at what has happened to the row in between.  A dispatcher and a
cancellation may act on the row before there is a record, and both treat the
missing record as harmless; the record that is published afterwards is left
behind.  A second gap is in the dispatcher, between its check of the record and
the start of the runner.

* `staleRun_pending`: the row is dispatched and completed before the record is
  published, and the record stays.
* `lateRun_starts`: a cancellation reports success and the job starts.
* `scheduled_safe`: in every run without these two overlaps, and without a
  second enqueue, of a job whose only queue is the table, a job that was
  cancelled with success is not started, and a job without a row is left
  without a record.
-/
import Jobworkerp.CleanupOrder
import Jobworkerp.ExpiredLease

namespace Jobworkerp

open Interleaving Prog List Option

/-! ### The participants -/

/-- The RDB path of an enqueue. -/
structure ScheduledEnqueue where
  data : JobData
  /-- The worker and whether the job is streamed, for the entry points that
  index RDB jobs. -/
  index : Option (WorkerId × WorkerData × Bool)

def ScheduledEnqueue.prog (app : App) (enq : ScheduledEnqueue) : M Bool := do
  (createRdbOnly enq.data do
    publishPending app
    match enq.index with
    | some (wid, w, isStreamable) => indexJobStatusAsync app wid w enq.data isStreamable
    | none => pure ()).discard
  return false

/-- What runs against the job besides its enqueue. -/
inductive ScheduledPart
  | cancel
  /-- The RDB dispatcher fetches the row, runs it and processes the result. -/
  | dispatcher (session : Option ℤ) (jobId : JobId)
  /-- A task that was left in the background. -/
  | background
  deriving DecidableEq

/-- The program of a participant; only the verdict of a cancellation is of
interest. -/
def ScheduledPart.prog (app : App) : ScheduledPart → M Bool
  | cancel => cancelJobLifecycle app
  | dispatcher session jobId => do
      (dispatchRdbJob app session jobId).discard
      return false
  | background => do
      taskRunner app
      return false

/-- The runner is started. -/
def Op.startsRunner : Op → Bool
  | .runJob _ => true
  | _ => false

/-- The program can start the runner without looking at the record again. -/
def StartsUnchecked {α : Type} : M α → Prop
  | ret _ => False
  | fail _ => False
  | call op k => op.startsRunner ∨ ¬ op.readsRecord ∧ ∃ a, StartsUnchecked (k a)

variable {ι : Type} {s : Store} {c c' : System (Option ι) Bool} {e : Moment (Option ι) Bool}
  {τ : List (Moment (Option ι) Bool)} {α β : Type} {p : M α}

section System

variable (app : App) (enq : ScheduledEnqueue) (parts : ι → ScheduledPart)

/-- The enqueue, as thread `none`, and the other participants. -/
def scheduledSystem (s : Store) : System (Option ι) Bool :=
  { threads := fun
      | none => enq.prog app
      | some i => (parts i).prog app
    store := s }

/-- A call that is in order: the others come after the enqueue and do not
enqueue the job again, the record is cancelled while no dispatcher is between
its check and the start of the runner, and the cancellation finds a job whose
only queue is the table. -/
structure Orderly (c : System (Option ι) Bool) (e : Moment (Option ι) Bool) : Prop where
  published : e.thread ≠ none → (c.threads none).result.isSome
  once : e.thread ≠ none → e.op.revives = false
  checked : e.pre.cancelling = false → e.post.cancelling = true →
    ∀ i session jobId, parts i = .dispatcher session jobId →
      ¬ StartsUnchecked (c.threads (some i))
  rdbOnly : ∀ i, e.thread = some i → parts i = .cancel → e.op.findsRdbOnly c.store

end System

/-- The job has not been enqueued yet. -/
structure Unqueued (s : Store) : Prop where
  row : s.row = none
  live : s.live = none

/-! A job of a DbOnly worker, with a cancellation and a dispatcher. -/

def dueEnqueue : ScheduledEnqueue :=
  { data := { (default : JobData) with workerId := some ⟨1⟩, runAfterTime := 1 }
    index := none }

def unqueuedStore : Store :=
  { (default : Store) with
    jobId := ⟨1⟩
    clock := 5
    worker := some dbOnlyWorker
    runner := some ⟨some .both⟩ }

def scheduledParts : Fin 2 → ScheduledPart
  | 0 => .cancel
  | 1 => .dispatcher none ⟨1⟩

/-- The environment's choice: a fetch returns the row, and the run succeeds. -/
def goodChoice : Choice := { (default : Choice) with flag := true }

/-- The row is created, fetched, run and completed, and then its record is
published. -/
def staleRun : List (Moment (Option (Fin 2)) Bool) × System (Option (Fin 2)) Bool :=
  (scheduledSystem default dueEnqueue scheduledParts unqueuedStore).play reliable
    ((none, goodChoice) :: (List.replicate 12 (some 1, goodChoice) ++
      List.replicate 2 (none, goodChoice)))

/-- **The record of a completed job is left behind.** -/
theorem staleRun_pending :
    Run (Step reliable) (scheduledSystem default dueEnqueue scheduledParts unqueuedStore)
      staleRun.1 staleRun.2 ∧
    staleRun.2.threads none = ret false ∧ staleRun.2.threads (some 1) = ret false ∧
      staleRun.2.store.tasks = [] ∧ staleRun.2.store.row = none ∧
      staleRun.2.store.live = some ⟨.pending, 0⟩ :=
  ⟨run_play _ _, rfl, rfl, rfl, rfl, rfl⟩

/-- The dispatcher has claimed the attempt when the cancellation comes, reports
success and is done. -/
def lateSystem : System (Option (Fin 2)) Bool :=
  ((scheduledSystem default dueEnqueue scheduledParts unqueuedStore).play reliable
    (List.replicate 3 (none, goodChoice) ++ List.replicate 5 (some 1, goodChoice) ++
      List.replicate 3 (some 0, goodChoice))).2

/-- **The job is started after its cancellation was reported.** -/
theorem lateRun_starts : lateSystem.threads (some 0) = ret true ∧
      ∃ e ∈ (lateSystem.play reliable (List.replicate 2 (some 1, goodChoice))).1,
        e.op.startsRunner :=
  ⟨rfl, (lateSystem.play reliable (List.replicate 2 (some 1, goodChoice))).1.get ⟨1, by decide⟩,
    get_mem _ _, rfl⟩

/-! ### The enqueue by itself -/

/-- The row is there, and its record is PENDING. -/
structure Queued (s : Store) : Prop where
  row : s.row ≠ none
  live : ∃ r, s.live = some ⟨.pending, r⟩

section Enqueue

variable {app : App} {enq : ScheduledEnqueue}

/-- A program that runs undisturbed and without failures. -/
abbrev Alone {α : Type} (p : M α) (Q : α → Store → Prop) (s : Store) : Prop :=
  p.Safe reliable Eq (fun _ _ _ _ => True) Q (fun _ _ => False) s

theorem alone_invoke
    (h : ∀ ch n a s', effect ch op (s.tick n) = some (a, s') → ∃ r, a = .ok r ∧ Q r s') :
    Alone (invoke op) Q s := by
  rintro _ rfl ch a s' hsem
  rw [reliable_eq_effect] at hsem
  obtain ⟨r, rfl, hQ⟩ := h _ _ _ _ hsem
  refine ⟨trivial, ?_⟩
  rintro _ rfl
  exact hQ

theorem alone_bind (hp : Alone p Q s) (hf : ∀ a s, Q a s → Alone (f a) Q' s) :
    Alone (p >>= f) Q' s :=
  Safe.bind (fun _ => rfl) hp hf

theorem alone_ret (h : Q a s) : Alone (ret a) Q s := by
  rintro _ rfl
  exact h

theorem alone_publishPending (hs : s.row ≠ none) :
    Alone (publishPending app) (fun _ => Queued) s := by
  unfold publishPending
  rw [upsertStatus_discard]
  refine alone_bind (Q := fun (_ : Resp .getStatus) s => s.row ≠ none) (alone_invoke ?_) ?_
  · intro ch n a s' h
    cases h
    exact ⟨_, rfl, hs⟩
  · intro record s1 h1
    refine alone_bind (Q := fun (_ : Resp (.putStatus _)) => Queued) (alone_invoke ?_)
      fun _ _ h => alone_ret h
    intro ch n a s' h
    cases h
    exact ⟨_, rfl, h1, _, rfl⟩

/-- **An enqueue that runs by itself leaves the row and the PENDING record.** -/
theorem alone_enqueue (hs : s.row = none) : Alone (enq.prog app) (fun _ => Queued) s := by
  refine alone_bind (Q := fun _ => Queued) (alone_bind (Q := fun _ => Queued) ?_
    fun _ _ h => alone_ret h) fun _ _ h => alone_ret h
  refine alone_bind (Q := fun (created : Resp (.createRow enq.data)) s =>
    created = true ∧ s.row ≠ none) (alone_invoke ?_) ?_
  · intro ch n a s' h
    have hrow : (s.tick n).row = none := hs
    simp only [effect, hrow, isSome_none, Bool.false_eq_true, if_false] at h
    cases h
    exact ⟨_, rfl, rfl, Option.some_ne_none _⟩
  · rintro _ s1 ⟨rfl, hrow⟩
    refine alone_bind (alone_bind (alone_publishPending hrow) fun _ s2 h2 => ?_)
      fun _ _ h => alone_ret h
    split
    · unfold indexJobStatusAsync
      cases app.indexing with
      | false => exact alone_ret h2
      | true =>
        refine alone_invoke fun ch n a s' h => ?_
        cases h
        exact ⟨_, rfl, h2.row, h2.live⟩
    · exact alone_ret h2

end Enqueue

section Phases

variable [DecidableEq ι] {app : App} {enq : ScheduledEnqueue} {parts : ι → ScheduledPart}

/-- A step that is in order. -/
abbrev OrderlyStep (parts : ι → ScheduledPart) (c : System (Option ι) Bool)
    (e : Moment (Option ι) Bool) (c' : System (Option ι) Bool) : Prop :=
  Step reliable c e c' ∧ Orderly parts c e

/-- A run in order is first the enqueue, then the others. -/
theorem enqueue_first (h : Run (OrderlyStep parts) c τ c') :
    ∃ τ1 τ2 c1, τ = τ1 ++ τ2 ∧ Run (OrderlyStep parts) c τ1 c1 ∧
      Run (OrderlyStep parts) c1 τ2 c' ∧ (∀ e ∈ τ1, e.thread = none) ∧
      (τ2 = [] ∨ (c1.threads none).result.isSome) := by
  induction τ generalizing c with
  | nil => exact ⟨[], [], c, rfl, rfl, h, by simp, .inl rfl⟩
  | cons e τ ih =>
    obtain ⟨c1, hs, hrest⟩ := h
    by_cases he : e.thread = none
    · obtain ⟨τ1, τ2, c2, rfl, h1, h2, hno, hended⟩ := ih hrest
      refine ⟨e :: τ1, τ2, c2, rfl, ⟨c1, hs, h1⟩, h2, ?_, hended⟩
      intro e' he'
      rcases mem_cons.mp he' with rfl | he'
      · exact he
      · exact hno e' he'
    · exact ⟨[], e :: τ, c, rfl, rfl, ⟨c1, hs, hrest⟩, by simp, .inr (hs.2.published he)⟩

/-- The others have not started while the enqueue runs, and the enqueue leaves
the job queued. -/
theorem enqueue_alone (hs : s.row = none)
    (h : Run (OrderlyStep parts) (scheduledSystem app enq parts s) τ c)
    (hτ : ∀ e ∈ τ, e.thread = none) : (∀ i, c.threads (some i) = (parts i).prog app) ∧
      ((c.threads none).result.isSome → Queued c.store) := by
  have hrun : Run (fun c e c' => OrderlyStep parts c e c' ∧ e.thread = none) _ τ c :=
    h.restrict (I := fun _ => True) (fun _ _ _ _ _ _ => trivial)
      (fun _ e _ he _ _ => hτ e he) trivial
  refine ⟨fun i => ?_, fun hended => ?_⟩
  · refine hrun.invariant (I := fun c => c.threads (some i) = (parts i).prog app) ?_ rfl
    intro c e c' hstep hc
    have hne : some i ≠ e.thread := by
      rw [hstep.2]
      exact nofun
    rw [hstep.1.1.other hne, hc]
  · have halone : Alone ((scheduledSystem app enq parts s).threads none) (fun _ => Queued)
        (scheduledSystem app enq parts s).store := alone_enqueue hs
    have hsafe := (hrun.safe_thread (i := none) (fun _ => rfl)
      (fun _ _ _ h h' => h.trans h') (fun _ _ _ h => h.1.1)
      (fun _ _ _ h _ => h.1.1.sem_eq) (fun _ _ _ h hne => absurd h.2 hne) halone).2
    obtain ⟨r, hr⟩ := isSome_iff_exists.mp hended
    have hend := hsafe.ends rfl hr
    cases r with
    | ok b => exact hend
    | error e => exact hend.elim

end Phases

/-! ### A cancellation while nothing is cancelled -/

/-- The job is not being cancelled, and without a record it has no row. -/
structure Uncancelled (s : Store) : Prop where
  live : s.cancelling = false
  row : Dead s → Gone s

theorem Uncancelled.stable (s s' : Store) (hs : Uncancelled s) (h : Uncancelling s s') :
    Uncancelled s' := by
  refine ⟨Bool.eq_false_iff.mpr fun hc => ?_, fun hdead => ?_⟩
  · exact absurd (h.2 hc) (Bool.eq_false_iff.mp hs.live)
  · by_cases hlive : s.live = none
    · exact h.1.gone (hs.row hlive)
    · exact h.1.deleted hlive hdead

theorem Uncancelled.tick (hs : Uncancelled s) (n : ℕ) : Uncancelled (s.tick n) :=
  ⟨hs.live, hs.row⟩

/-- The semantics of a cancellation that does not get hold of the record. -/
def overtaken : Sem Op Resp JobWorkerError Store Choice := fun ch op s =>
  (cancellingRdbOnly ch op s).filter fun r => !r.2.cancelling

/-- A program of a cancellation that does not get hold of the record, among
threads that cancel nothing. -/
abbrev Overtaken {α : Type} (p : M α) (Q : α → Store → Prop) (s : Store) : Prop :=
  p.Safe overtaken Uncancelling (fun _ _ _ _ => True) Q (fun _ _ => True) s

section Overtaken

variable {app : App}

theorem Uncancelling.refl (s : Store) : Uncancelling s s := ⟨Tidy.refl s, id⟩

theorem effect_of_overtaken (h : overtaken ch op s = some (a, s')) :
    s'.cancelling = false ∧ ∃ ch' n, effect ch' op (s.tick n) = some (a, s') := by
  obtain ⟨hsem, hcancelling⟩ := filter_eq_some_iff.mp h
  exact ⟨Bool.not_eq_true' _ ▸ hcancelling, (effect_of_restricted hsem).2⟩

/-- What is read of the record. -/
def ReadsUncancelled (found : Option JobProcessingStatusRecord) (s : Store) : Prop :=
  Uncancelled s ∧ (found = none → Gone s) ∧ ∀ p, found = some p → p.status ≠ .cancelling

theorem readsUncancelled (h1 : Uncancelled s1) (hR : Uncancelling s1 s2) :
    ReadsUncancelled s1.live s2 := by
  have h2 : Uncancelled s2 := Uncancelled.stable _ _ h1 hR
  refine ⟨h2, fun hnone => hR.1.gone (h1.row hnone), fun p hp hst => ?_⟩
  have hcancelling := Store.cancelling_of_some hp
  rw [h1.live, hst] at hcancelling
  cases hcancelling

theorem overtaken_findStatusRecord (hs : Uncancelled s) :
    Overtaken findStatusRecord ReadsUncancelled s := by
  refine Safe.perform (Q := fun (found : Resp .getStatus) => ReadsUncancelled found)
    Uncancelled.stable hs fun s1 ch a s2 h1 h => ⟨trivial, fun s3 hR => ?_⟩
  obtain ⟨-, ch', n, heff⟩ := effect_of_overtaken h
  cases heff
  exact readsUncancelled (h1.tick n) hR

/-- The compare-and-set of the cancellation loses. -/
theorem overtaken_compareAndSetStatus (hs : Uncancelled s) (expected : JobProcessingStatusRecord)
    (r : UInt32) : Overtaken (compareAndSetStatus app (some expected) (some ⟨.cancelling, r⟩))
      (fun result s => ∃ current, result = .conflict current ∧ ReadsUncancelled current s) s := by
  have hwon : ∀ {s1 s2 : Store} {n : ℕ}, s2.cancelling = false →
      s2 = { s1.tick n with
        live := compareAndSet s1.live (some expected) (some ⟨.cancelling, r⟩) } →
      s1.live ≠ some expected ∧ s2 = s1.tick n := by
    intro s1 s2 n hcancelling hs2
    by_cases hlive : s1.live = some expected
    · rw [hs2, Store.cancelling_of_some (if_pos hlive)] at hcancelling
      cases hcancelling
    · refine ⟨hlive, hs2.trans ?_⟩
      rw [show compareAndSet s1.live _ _ = s1.live from if_neg hlive]
      rfl
  unfold compareAndSetStatus
  split
  · refine Safe.perform (Q := fun (result : Resp (.compareAndSetEntry _ _)) s =>
      ∃ current, result = .conflict current ∧ ReadsUncancelled current s)
      Uncancelled.stable hs fun s1 ch a s2 h1 h => ⟨trivial, fun s3 hR => ?_⟩
    obtain ⟨hcancelling, ch', n, heff⟩ := effect_of_overtaken h
    simp only [effect, Option.some.injEq, Prod.mk.injEq] at heff
    obtain ⟨rfl, hs2⟩ := heff
    obtain ⟨hlost, rfl⟩ := hwon hcancelling hs2.symm
    exact ⟨(s1.tick n).live, if_neg hlost, readsUncancelled (h1.tick n) hR⟩
  · refine Safe.bind (Q := fun (won : Resp (.compareAndSetScript _ _)) s =>
      won = false ∧ Uncancelled s) Uncancelling.refl (Safe.perform Uncancelled.stable hs
        fun s1 ch a s2 h1 h => ⟨trivial, fun s3 hR => ?_⟩) ?_
    · obtain ⟨hcancelling, ch', n, heff⟩ := effect_of_overtaken h
      simp only [effect, Option.some.injEq, Prod.mk.injEq] at heff
      obtain ⟨rfl, hs2⟩ := heff
      obtain ⟨hlost, rfl⟩ := hwon hcancelling hs2.symm
      exact ⟨decide_eq_false hlost, Uncancelled.stable _ _ (h1.tick n) hR⟩
    · rintro _ s1 ⟨rfl, h1⟩
      refine Safe.bind Uncancelling.refl (overtaken_findStatusRecord h1) fun current s2 h2 => ?_
      exact fun s3 hR => ⟨current, rfl, Uncancelled.stable _ _ h2.1 hR,
        fun hnone => hR.1.gone (h2.2.1 hnone), h2.2.2⟩

theorem overtaken_cancelAttempts (n : ℕ) (record : JobProcessingStatusRecord)
    (hrecord : record.status ≠ .cancelling) (hs : Uncancelled s) :
    Overtaken (cancelAttempts app n record) (fun b _ => b = false) s := by
  induction n generalizing record s with
  | zero =>
    refine Safe.bind Uncancelling.refl (overtaken_findStatusRecord hs) fun found s1 h1 => ?_
    cases found with
    | none => exact fun _ _ => rfl
    | some current => exact fun _ _ => decide_eq_false (h1.2.2 current rfl)
  | succ n ih =>
    unfold cancelAttempts
    split
    · exact fun _ _ => rfl
    · refine Safe.bind Uncancelling.refl (overtaken_compareAndSetStatus hs record _) ?_
      rintro _ s1 ⟨current, rfl, h1, -, hcurrent⟩
      cases current with
      | none => exact fun _ _ => rfl
      | some current => exact ih current (hcurrent current rfl) h1

/-- Without a row there is nothing to remove. -/
theorem overtaken_removeUnpublishedRdbOnlyJob (hs : Gone s) :
    Overtaken (removeUnpublishedRdbOnlyJob app) (fun b _ => b = false) s := by
  refine Safe.bind (Q := fun (row : Resp .findRow) s => row = none ∧ Gone s) Uncancelling.refl
    (Safe.perform (fun _ _ hs hR => hR.1.gone hs) hs
      fun s1 ch a s2 (h1 : Gone s1) h => ⟨trivial, fun s3 hR => ?_⟩) ?_
  · obtain ⟨-, ch', n, heff⟩ := effect_of_overtaken h
    cases heff
    exact ⟨h1, hR.1.gone h1⟩
  · rintro _ s1 ⟨rfl, -⟩
    exact fun _ _ => rfl

/-- **A cancellation that reports success has found or made the record
CANCELLING**, once the record is published. -/
theorem overtaken_cancelJobLifecycle (hs : Uncancelled s) :
    Overtaken (cancelJobLifecycle app) (fun b _ => b = false) s := by
  refine Safe.bind Uncancelling.refl (overtaken_findStatusRecord hs) ?_
  rintro (- | record) s1 ⟨h1, hnone, hsome⟩
  · exact overtaken_removeUnpublishedRdbOnlyJob (hnone rfl)
  · show Overtaken (if record.status = .unknown then pure false else
      cancelAttempts app maxCancellationStatusTransitionAttempts record : M Bool) _ _
    split
    · exact fun _ _ => rfl
    · exact overtaken_cancelAttempts _ record (hsome record rfl) h1

end Overtaken

/-! ### A dispatcher of a cancelled job -/

/-- The job is cancelled: its record is CANCELLING, or it has been taken down. -/
def Cancelled (s : Store) : Prop := s.cancelling ∨ Dead s ∧ Gone s

theorem Cancelled.stable (s s' : Store) (hs : Cancelled s) (h : Tidy s s') : Cancelled s' := by
  rcases hs with hs | ⟨hdead, hgone⟩
  · rcases h.cancelled hs with heq | hnone
    · refine .inl ?_
      rw [Store.cancelling_of_eq heq]
      exact hs
    · have hlive : s.live ≠ none := by
        intro hnone'
        unfold Store.cancelling at hs
        rw [hnone'] at hs
        cases hs
      exact .inr ⟨hnone, h.deleted hlive hnone⟩
  · exact .inr ⟨h.dead hdead, h.gone hgone⟩

/-- A program that does not start the runner, up to a new enqueue. -/
abbrev NeverStarts {α : Type} (p : M α) : Prop :=
  p.CallsUntil (fun op => op.revives) fun op => op.startsRunner = false

theorem closed_neverStarts (app : App) : Closed app (NeverStarts) where
  ret a := trivial
  fail e := trivial
  bind hp hf := hp.bind hf
  attempt hp := hp.attempt
  call {op} hop := by
    refine Calls.until (.perform ?_)
    cases op <;> first | rfl | exact False.elim hop
  revive record f := ⟨rfl, fun h => absurd rfl h⟩
  cleanup := by
    refine Calls.until ((calls_cleanupJob app).mono fun op hop => ?_)
    cases op <;> first | rfl | exact False.elim hop

/-- The calls of a dispatcher from here on do not start the runner. -/
abbrev Unstarting {α : Type} (p : M α) (Q : α → Store → Prop) (s : Store) : Prop :=
  p.Safe finishing Tidy (fun op _ _ _ => op.startsRunner = false) Q (fun _ _ => True) s

section Unstarting

variable {app : App}

theorem Unstarting.bind (hp : Unstarting p Q s) (hf : ∀ a s, Q a s → Unstarting (f a) Q' s) :
    Unstarting (p >>= f) Q' s :=
  Safe.bind Tidy.refl hp hf

theorem unstarting_of_neverStarts (hp : NeverStarts p)
    (hJ : ∀ s s', J s → (Gone s → Gone s') → J s') (hs : J s) : Unstarting p (fun _ => J) s := by
  induction p generalizing s with
  | ret a => exact fun s' hR => hJ s s' hs hR.gone
  | fail e => exact fun _ _ => trivial
  | call op k ih =>
    intro s1 hR ch a s2 h
    obtain ⟨hmeets, ch', n, heff⟩ := effect_of_restricted h
    have hrevives : op.revives = false := Bool.not_eq_true' _ ▸ hmeets
    have hcreates : op.createsRow = false := by
      cases op <;> first | exact hrevives | rfl
    refine ⟨hp.1, ih a (hp.2 (Bool.eq_false_iff.mp hrevives) a) ?_⟩
    have hs1 : J s1 := hJ s s1 hs hR.gone
    refine hJ s1 s2 hs1 fun hgone => ?_
    have hrow : (s1.tick n).row = none := hgone
    exact row_none_of_effect hcreates hrow heff

theorem NeverStarts.unstarting (hp : NeverStarts p) (s : Store) :
    Unstarting p (fun _ _ => True) s :=
  unstarting_of_neverStarts hp (fun _ _ _ _ => trivial) trivial

theorem NeverStarts.unstarting_gone (hp : NeverStarts p) (hs : Gone s) :
    Unstarting p (fun _ => Gone) s :=
  unstarting_of_neverStarts hp (fun _ _ hs h => h hs) hs

/-- Without a row there is nothing to grab. -/
theorem unstarting_startClaimed (session : Option ℤ) (d : Delivery) (hs : Gone s) :
    Unstarting (Rdb.startClaimed app session d) (fun _ _ => True) s := by
  have hclosed := closed_neverStarts app
  have hgone (o : Op) {P : Resp o → Prop} : o.startsRunner = false →
      (∀ ch s a s', s.row = none → effect ch o s = some (.ok a, s') → P a) → ∀ s, Gone s →
      Unstarting (invoke o) (fun a _ => P a) s := by
    intro hop heff s hs
    refine Safe.perform (fun _ _ hs hR => hR.gone hs) hs
      fun s1 ch a s2 (h1 : Gone s1) h => ⟨hop, fun s3 hR => ?_⟩
    obtain ⟨-, ch', n, h⟩ := effect_of_restricted h
    cases a with
    | ok a => exact heff ch' (s1.tick n) a s2 h1 h
    | error e => trivial
  have hgrab (timeout : UInt64) (original : ℤ) := hgone (.grabRow timeout original)
    (P := (· = none)) rfl fun ch s a s' hrow h => by
      simp only [effect, hrow, leasedUntil, any_none, Bool.false_eq_true, if_false] at h
      cases h
      rfl
  have hmark (start : RdbDispatchStart) := hgone (.grabAndMarkRunning start)
    (P := (· = none)) rfl fun ch s a s' hrow h => by
      simp only [effect, hrow, leasedUntil, any_none, Bool.false_eq_true, if_false] at h
      split at h <;> cases h
      rfl
  refine Unstarting.bind ((hclosed.acquireStartPermit hclosed.plain session).unstarting_gone hs)
    fun permit s1 h1 => ?_
  split
  · exact (hclosed.giveBack d _).unstarting s1
  · refine Unstarting.bind (hmark _ _ h1) ?_
    rintro _ s2 rfl
    exact fun _ _ => trivial
  · refine Unstarting.bind (hgrab _ _ _ h1) ?_
    rintro _ s2 rfl
    exact fun _ _ => trivial

end Unstarting

/-- The program does not start the runner of a cancelled job. -/
def Guarded {α : Type} (p : M α) : Prop := ∀ s, Cancelled s → Unstarting p (fun _ _ => True) s

/-- At every moment the program is past its check of the record, or does not
start the runner of a cancelled job. -/
abbrev Watched {α : Type} (p : M α) : Prop :=
  p.Throughout (fun op => op.revives) fun q => StartsUnchecked q ∨ Guarded q

section Watched

variable {app : App}

theorem NeverStarts.guarded (hp : NeverStarts p) : Guarded p := fun s _ => hp.unstarting s

theorem NeverStarts.watched (hp : NeverStarts p) : Watched p :=
  Throughout.of_callsUntil hp fun _ hq => .inr (NeverStarts.guarded hq)

theorem StartsUnchecked.bind (hp : StartsUnchecked p) (f : α → M β) :
    StartsUnchecked (p >>= f) := by
  induction p with
  | ret | fail => exact hp.elim
  | call op k ih =>
    refine hp.imp_right ?_
    rintro ⟨hreads, a, ha⟩
    exact ⟨hreads, a, ih a ha⟩

/-- A watched program, followed by one that does not start the runner. -/
theorem Watched.bind (hp : Watched p) (hf : ∀ a, NeverStarts (f a)) : Watched (p >>= f) := by
  refine Throughout.bind (hp.mono fun q hq => ?_) fun a => (hf a).watched
  refine hq.imp (fun h => h.bind f) fun h s hs => ?_
  exact (h s hs).bind fun a s' _ => (hf a).unstarting s'

/-- A call that leads to the start of the runner with some answer. -/
theorem watched_perform (op : Op) {f : Resp op → M α} (hreads : op.readsRecord = false)
    {r : Resp op} (hr : StartsUnchecked (f r)) (hf : ∀ a, Watched (f a)) :
    Watched (invoke op >>= f) := by
  refine throughout_perform (.inl (.inr ⟨?_, .ok r, hr⟩)) (fun e => .inr (fun _ _ _ _ => trivial)) hf
  rw [hreads]
  exact Bool.false_ne_true

variable (session : Option ℤ) (d : Delivery)

theorem startsUnchecked_runGrabbed : StartsUnchecked (Rdb.runGrabbed app d) :=
  .inl rfl

theorem watched_runGrabbed : Watched (Rdb.runGrabbed app d) := by
  unfold Rdb.runGrabbed runJob
  rw [bind_assoc']
  refine throughout_perform (.inl (.inl rfl)) (fun e => .inr (fun _ _ _ _ => trivial)) fun o => ?_
  rw [bind_assoc']
  exact NeverStarts.watched ((closed_neverStarts app).afterRun d o)

theorem watched_startClaimed : Watched (Rdb.startClaimed app session d) := by
  have hclosed := closed_neverStarts app
  have hret : ∀ a : Option JobResult, Watched (ret a) := fun a =>
    NeverStarts.watched (hclosed.ret a)
  cases session with
  | none =>
    refine watched_perform (.grabRow d.data.timeout (d.data.grabbedUntilTime.getD 0))
      rfl (r := some 0) (startsUnchecked_runGrabbed d) fun lease => ?_
    cases lease with
    | none => exact hret none
    | some lease => exact watched_runGrabbed d
  | some instanceId =>
    have hfail : ∀ e, Watched (fail e : M (Option JobResult)) := fun e =>
      NeverStarts.watched (hclosed.fail e)
    -- the permit, the lease and the confirmation lead to the start
    have hconfirmed : ∀ {k : Except JobWorkerError Bool → M (Option JobResult)},
        k (.ok true) = Rdb.runGrabbed app d → StartsUnchecked (call .ask k) := fun hk =>
      .inr ⟨Bool.false_ne_true, .ok true, hk ▸ startsUnchecked_runGrabbed d⟩
    refine ⟨.inl (.inr ⟨Bool.false_ne_true, .ok true, .inr ⟨Bool.false_ne_true,
      .ok (some default), hconfirmed rfl⟩⟩), fun _ permit => ?_⟩
    rcases permit with e | (- | -)
    · exact hfail e
    · exact NeverStarts.watched (hclosed.giveBack d _)
    refine ⟨.inl (.inr ⟨Bool.false_ne_true, .ok (some default), hconfirmed rfl⟩),
      fun _ execution => ?_⟩
    rcases execution with e | (- | execution)
    · exact hfail e
    · exact hret none
    refine ⟨.inl (hconfirmed rfl), fun _ confirmed => ?_⟩
    rcases confirmed with e | (- | -)
    · exact hfail e
    · refine NeverStarts.watched ⟨rfl, fun _ (outcome : Except _ ClaimOutcome) => ?_⟩
      rcases outcome with e | outcome
      · exact hclosed.fail e
      · cases outcome with
        | conflict => exact hclosed.fail _
        | claimed => exact hclosed.giveBack d _
    · exact watched_runGrabbed d

/-- What follows the check of a fetched row. -/
def afterCheck (app : App) (session : Option ℤ) (d : Delivery) (eligibility : DispatchEligibility) :
    M (Option JobResult) := do
  match ← resolveDispatchPreflight app eligibility d.worker with
  | .execute => Rdb.startClaimed app session d
  | .skip => pure none
  | .completed result => pure (some result)

theorem neverStarts_afterCheck (h : eligibility ≠ .execute) :
    NeverStarts (afterCheck app session d eligibility) := by
  have hclosed := closed_neverStarts app
  cases eligibility with
  | execute => exact absurd rfl h
  | skip => exact hclosed.ret none
  | cancelled result =>
    unfold afterCheck resolveDispatchPreflight
    rw [bind_assoc']
    exact hclosed.bind (hclosed.processResult result false _) fun r => hclosed.ret (some r)

theorem neverStarts_conflict (current : Option JobProcessingStatusRecord) :
    NeverStarts (claimConflict d current >>= afterCheck app session d) :=
  ((closed_neverStarts app).claimConflict d current).bind_returns
    (returns_claimConflict current) fun _ h => neverStarts_afterCheck session d h

theorem neverStarts_cancelled :
    NeverStarts (cancelledDispatchEligibility d >>= afterCheck app session d) :=
  ((closed_neverStarts app).cancelledDispatchEligibility d).bind_returns
    returns_cancelledDispatchEligibility fun _ h => neverStarts_afterCheck session d h

/-- The record a dispatcher reads of a cancelled job. -/
theorem unstarting_findStatusRecord (hs : Cancelled s) :
    Unstarting findStatusRecord (fun record s =>
      (record = none → Gone s) ∧ ∀ p, record = some p → p.status = .cancelling) s := by
  refine Safe.perform (Q := fun (record : Resp .getStatus) s =>
    (record = none → Gone s) ∧ ∀ p, record = some p → p.status = .cancelling)
    Cancelled.stable hs fun s1 ch a s2 h1 h => ⟨rfl, fun s3 hR => ?_⟩
  obtain ⟨-, ch', n, heff⟩ := effect_of_restricted h
  cases heff
  refine ⟨fun hnone => ?_, fun p hp => ?_⟩
  · rcases h1 with hc | ⟨-, hgone⟩
    · unfold Store.cancelling at hc
      rw [show s1.live = none from hnone] at hc
      cases hc
    · exact hR.gone hgone
  · rcases h1 with hc | ⟨hdead, -⟩
    · rw [Store.cancelling_of_some (s := s1) hp] at hc
      exact of_decide_eq_true hc
    · cases hdead.symm.trans hp

/-- The claim of a cancelled job is lost. -/
theorem unstarting_claim (hs : Cancelled s) (r : UInt32) :
    Unstarting (compareAndSetStatus app (some ⟨.pending, r⟩) (some ⟨.running, r⟩))
      (fun result _ => result ≠ .applied) s := by
  have hlost : ∀ {s : Store} {n : ℕ}, Cancelled s → (s.tick n).live ≠ some ⟨.pending, r⟩ := by
    rintro s n (hc | ⟨hdead, -⟩) hlive
    · rw [Store.cancelling_of_some (s := s) hlive] at hc
      cases hc
    · cases hdead.symm.trans hlive
  unfold compareAndSetStatus
  split
  · refine Safe.perform (Q := fun (result : Resp (.compareAndSetEntry _ _)) _ =>
      result ≠ .applied) Cancelled.stable hs fun s1 ch a s2 h1 h => ⟨rfl, fun s3 hR => ?_⟩
    obtain ⟨-, ch', n, heff⟩ := effect_of_restricted h
    simp only [effect, if_neg (hlost h1), Option.some.injEq, Prod.mk.injEq] at heff
    obtain ⟨rfl, -⟩ := heff
    rintro ⟨⟩
  · refine Unstarting.bind (Q := fun (won : Resp (.compareAndSetScript _ _)) _ => won = false)
      (Safe.perform Cancelled.stable hs fun s1 ch a s2 h1 h => ⟨rfl, fun s3 hR => ?_⟩) ?_
    · obtain ⟨-, ch', n, heff⟩ := effect_of_restricted h
      simp only [effect, decide_eq_false (hlost h1), Option.some.injEq, Prod.mk.injEq] at heff
      obtain ⟨rfl, -⟩ := heff
      exact rfl
    · rintro _ s1 rfl
      refine Unstarting.bind (NeverStarts.unstarting (Calls.until (.perform rfl)) s1)
        fun current s2 _ => ?_
      rintro s3 - ⟨⟩

theorem watched_claimAttempt : Watched (claimAttempt app d >>= afterCheck app session d) := by
  have hstart : Watched (afterCheck app session d .execute) := watched_startClaimed session d
  have hconflict : ∀ current, Watched (claimConflict d current >>= afterCheck app session d) :=
    fun current => NeverStarts.watched (neverStarts_conflict session d current)
  have hfail : ∀ e, StartsUnchecked (fail e : M (Option JobResult)) ∨
      Guarded (fail e : M (Option JobResult)) := fun e => .inr fun _ _ _ _ => trivial
  have hguarded : Guarded (claimAttempt app d >>= afterCheck app session d) := by
    intro s hs
    unfold claimAttempt
    rw [bind_assoc']
    refine (unstarting_claim hs _).bind fun result s1 hresult => ?_
    cases result with
    | applied => exact absurd rfl hresult
    | conflict current => exact (neverStarts_conflict session d current).unstarting s1
  unfold claimAttempt at hguarded ⊢
  unfold compareAndSetStatus at hguarded ⊢
  cases hstorage : app.storage with
  | standalone =>
    rw [hstorage] at hguarded
    refine ⟨.inr hguarded, fun _ (result : Except _ StatusTransitionResult) => ?_⟩
    rcases result with e | (- | current)
    · exact hfail e
    · exact hstart
    · exact hconflict current
  | scalable =>
    rw [hstorage] at hguarded
    refine ⟨.inr hguarded, fun _ (won : Except _ Bool) => ?_⟩
    rcases won with e | (- | -)
    · exact hfail e
    · refine NeverStarts.watched ⟨rfl, fun _ current => ?_⟩
      cases current with
      | error e => trivial
      | ok current => exact neverStarts_conflict session d current
    · exact hstart

/-- A program that does not start the runner of a cancelled job, and is watched. -/
structure Screened (p : M α) : Prop where
  guarded : Guarded p
  watched : Watched p

theorem NeverStarts.screened (hp : NeverStarts p) : Screened p := ⟨hp.guarded, hp.watched⟩

theorem screened_perform (op : Op) {f : Resp op → M α} (hop : TameOp op)
    (hf : ∀ a, Screened (f a)) : Screened (invoke op >>= f) := by
  have hguarded : Guarded (invoke op >>= f) := by
    intro s hs
    refine Unstarting.bind (Q := fun _ => Cancelled) ?_ fun a s' hs' => (hf a).guarded s' hs'
    refine Safe.perform Cancelled.stable hs fun s1 ch a s2 h1 h => ?_
    obtain ⟨hmeets, ch', n, heff⟩ := effect_of_restricted h
    have htidy := (uncancelling_of_effect hop (Bool.not_eq_true' _ ▸ hmeets) heff).2.1
    refine ⟨?_, fun s3 hR => ?_⟩
    · cases op <;> first | rfl | exact False.elim hop
    · cases a with
      | ok a => exact Cancelled.stable _ _ (Cancelled.stable _ _ h1 htidy.of_tick) hR
      | error e => trivial
  exact ⟨hguarded, throughout_perform (.inr hguarded) (fun e => .inr fun _ _ _ _ => trivial)
    fun a => (hf a).watched⟩

theorem watched_checked (status : JobProcessingStatus) (r : UInt32) :
    Watched ((if r = d.data.retried then
      match status with
      | .pending => claimAttempt app d
      | .cancelling => cancelledDispatchEligibility d
      | .running | .waitResult | .unknown => pure .skip
      else pure .skip : M DispatchEligibility) >>= afterCheck app session d) := by
  have hskip : Watched (afterCheck app session d .skip) :=
    (neverStarts_afterCheck _ _ (by simp)).watched
  split
  · cases status with
    | pending => exact watched_claimAttempt session d
    | cancelling => exact (neverStarts_cancelled session d).watched
    | running | waitResult | unknown => exact hskip
  · exact hskip

theorem screened_check :
    Screened (checkRdbCancellationStatus app d >>= afterCheck app session d) := by
  have hskip : NeverStarts (afterCheck app session d .skip) := neverStarts_afterCheck _ _ nofun
  have hguarded : Guarded (checkRdbCancellationStatus app d >>= afterCheck app session d) := by
    intro s hs
    unfold checkRdbCancellationStatus checkCancellationStatusWithMissingStatus
    rw [bind_assoc']
    refine (unstarting_findStatusRecord hs).bind ?_
    rintro (- | ⟨status, retried⟩) s1 ⟨hnone, hsome⟩
    · exact unstarting_startClaimed session d (hnone rfl)
    · obtain rfl : status = .cancelling := hsome _ rfl
      show Unstarting ((if retried = d.data.retried then cancelledDispatchEligibility d
        else pure .skip : M DispatchEligibility) >>= afterCheck app session d) _ _
      split
      · exact (neverStarts_cancelled session d).unstarting s1
      · exact hskip.unstarting s1
  refine ⟨hguarded, ⟨.inr hguarded, fun _ (record : Except _ (Option _)) => ?_⟩⟩
  rcases record with e | (- | ⟨status, retried⟩)
  · exact .inr fun _ _ _ _ => trivial
  · exact watched_startClaimed session d
  · exact watched_checked session d status retried

/-- **A dispatcher does not start a cancelled job, unless it was past its check
when the job was cancelled.** -/
theorem screened_found (d : Delivery) :
    Screened (invoke .findRunner >>= fun runner => match runner with
      | none => fail (.notFound "failed to get runner data for job: ")
      | some _ => checkRdbCancellationStatus app d >>= afterCheck app session d) := by
  refine screened_perform .findRunner trivial fun runner => ?_
  cases runner with
  | none => exact NeverStarts.screened ((closed_neverStarts app).fail _)
  | some runner => exact screened_check session _

theorem screened_dispatchRdbJob (app : App) (session : Option ℤ) (jobId : JobId) :
    Screened (dispatchRdbJob app session jobId) := by
  have hclosed := closed_neverStarts app
  have hfail : ∀ e, Screened (fail e : M (Option JobResult)) := fun e =>
    NeverStarts.screened (hclosed.fail e)
  refine screened_perform (.fetchRow app.fetchInterval) trivial fun row => ?_
  cases row with
  | none => exact NeverStarts.screened (hclosed.ret none)
  | some data =>
    show Screened (findByOpt data.workerId >>= _)
    cases data.workerId with
    | none => exact hfail _
    | some wid =>
      show Screened ((invoke .findWorker >>= _) >>= _)
      rw [bind_assoc']
      refine screened_perform .findWorker trivial fun worker => ?_
      cases worker with
      | none => exact hfail _
      | some w => exact screened_found session ⟨jobId, wid, w, [], data⟩

end Watched

/-! ### The participants after the enqueue -/

/-- The semantics of a participant's calls. -/
def ScheduledPart.own : ScheduledPart → Sem Op Resp JobWorkerError Store Choice
  | cancel => cancellingRdbOnly
  | dispatcher _ _ => finishing
  | background => finishing

/-- How a participant changes the store. -/
def ScheduledPart.Leaves : ScheduledPart → Store → Store → Prop
  | cancel => Tidy
  | dispatcher _ _ => Uncancelling
  | background => Uncancelling

theorem ScheduledPart.Leaves.tidy {part : ScheduledPart} (h : part.Leaves s s') : Tidy s s' := by
  cases part with
  | cancel => exact h
  | dispatcher | background => exact h.1

section Parts

variable {app : App} {R : Store → Store → Prop} {J : Store → Prop}

/-- The run itself changes neither the row nor the record. -/
theorem maintains_runJob (hK : Keeping R J) (job : Job) :
    Maintains finishing R Uncancelling J (invoke (.runJob job)) := by
  refine hK.perform fun ch s a s' h => ?_
  obtain ⟨-, ch', n, heff⟩ := effect_of_restricted h
  have hop : RegisterOp (.runJob job) := trivial
  obtain ⟨hbetween, htidy⟩ := tidy_of_effect hop rfl ⟨nofun, nofun⟩ heff
  have hlive : s'.live = (s.tick n).live := (effect_frame heff).live nofun
  refine ⟨hbetween.of_tick, htidy.of_tick, fun hc => ?_⟩
  rwa [Store.cancelling_of_eq hlive] at hc

/-- **Every participant takes the job down in order.** -/
theorem ScheduledPart.maintains (app : App) (part : ScheduledPart) (hK : Keeping R J)
    (hgone : Keeping R Gone) (hdead : Keeping R Dead) (hJ : ∀ s, Dead s → J s) :
    Maintains part.own R part.Leaves J (part.prog app) := by
  have hclosed := closed_maintains app hK hgone hJ
  cases part with
  | cancel => exact maintains_cancelJobLifecycle app hK hgone hdead hJ
  | dispatcher session jobId =>
    exact hclosed.bind (hclosed.discard (hclosed.dispatchRdbJob (maintains_runJob hK) session jobId))
      fun _ => hclosed.ret false
  | background => exact hclosed.bind hclosed.taskRunner fun _ => hclosed.ret false

/-- A participant that is not a dispatcher never starts the runner. -/
theorem ScheduledPart.watched (part : ScheduledPart) :
    (part.prog app).Throughout (fun op => op.revives) fun q =>
      ((∃ session jobId, part = .dispatcher session jobId) ∧ StartsUnchecked q) ∨ Guarded q := by
  have hclosed := closed_neverStarts app
  cases part with
  | cancel =>
    have hcalls : NeverStarts (cancelJobLifecycle app) :=
      Calls.until ((calls_cancelJobLifecycle app).mono fun op hop => by
        cases op <;> first | rfl | exact hop.elim)
    exact Throughout.of_callsUntil hcalls fun q hq => .inr (NeverStarts.guarded hq)
  | dispatcher session jobId =>
    have hwatched := (screened_dispatchRdbJob app session jobId).watched
    refine ((hwatched.bind fun _ => hclosed.ret ()).bind fun _ => hclosed.ret false).mono ?_
    exact fun q hq => hq.imp_left fun h => ⟨⟨session, jobId, rfl⟩, h⟩
  | background =>
    have hcalls : NeverStarts (ScheduledPart.background.prog app) :=
      hclosed.bind hclosed.taskRunner fun _ => hclosed.ret false
    exact Throughout.of_callsUntil hcalls fun q hq => .inr (NeverStarts.guarded hq)

end Parts

section Later

variable [DecidableEq ι] {app : App} {parts : ι → ScheduledPart}

/-- A step that is in order, of a participant other than the enqueue. -/
abbrev LaterStep (parts : ι → ScheduledPart) (c : System (Option ι) Bool)
    (e : Moment (Option ι) Bool) (c' : System (Option ι) Bool) : Prop :=
  OrderlyStep parts c e c' ∧ ∃ i, e.thread = some i

/-- The enqueue is over, and the others have not started. -/
structure AfterEnqueue (app : App) (parts : ι → ScheduledPart) (c : System (Option ι) Bool) : Prop where
  ended : (c.threads none).result.isSome
  fresh : ∀ i, c.threads (some i) = (parts i).prog app

theorem later_steps (h : Run (OrderlyStep parts) c τ c') (hc : (c.threads none).result.isSome) :
    Run (LaterStep parts) c τ c' := by
  have hne : ∀ {c e c'}, OrderlyStep parts c e c' → (c.threads none).result.isSome →
      none ≠ e.thread := by
    intro c e c' hs hended
    obtain ⟨r, hr⟩ := isSome_iff_exists.mp hended
    exact hs.1.not_ended hr
  refine h.restrict (I := fun c => (c.threads none).result.isSome) ?_ ?_ hc
  · intro c e c' _ hs hended
    rw [hs.1.other (hne hs hended)]
    exact hended
  · intro c e c' _ hs hended
    exact ne_none_iff_exists'.mp (Ne.symm (hne hs hended))

/-- The semantics of the threads' calls. -/
def ownOf (parts : ι → ScheduledPart) : Option ι → Sem Op Resp JobWorkerError Store Choice
  | none => finishing
  | some i => (parts i).own

theorem restricted_eq_some (hmeets : meets op s)
    (h : reliable ch op s = some (a, s')) : restricted meets ch op s = some (a, s') :=
  (if_pos hmeets).trans h

theorem LaterStep.finishing (h : LaterStep parts c e c') :
    ∃ ch, finishing ch e.op e.pre = some (e.ans, e.post) := by
  obtain ⟨⟨hstep, horder⟩, i, hi⟩ := h
  obtain ⟨ch, hsem⟩ := hstep.sem_eq
  refine ⟨ch, restricted_eq_some ?_ hsem⟩
  rw [horder.once (by simp [hi])]
  rfl

theorem LaterStep.own (h : LaterStep parts c e c') :
    ∃ ch, ownOf parts e.thread ch e.op e.pre = some (e.ans, e.post) := by
  obtain ⟨⟨hstep, horder⟩, i, hi⟩ := h
  have hfinishing := LaterStep.finishing ⟨⟨hstep, horder⟩, i, hi⟩
  obtain ⟨ch, hsem⟩ := hstep.sem_eq
  rw [hi]
  show ∃ ch, (parts i).own ch e.op e.pre = some (e.ans, e.post)
  cases hpart : parts i with
  | cancel =>
    have hmeets := horder.rdbOnly i hi hpart
    rw [← hstep.pre_eq] at hmeets
    exact ⟨ch, restricted_eq_some hmeets hsem⟩
  | dispatcher | background => exact hfinishing

/-- How the threads change the store. -/
def leavesOf (parts : ι → ScheduledPart) : Option ι → Store → Store → Prop
  | none => Tidy
  | some i => (parts i).Leaves

omit [DecidableEq ι] in
theorem leavesOf_tidy (h : leavesOf parts t s s') : Tidy s s' := by
  cases t with
  | none => exact h
  | some i => exact ScheduledPart.Leaves.tidy h

/-- A step after the enqueue, and how it changes the store. -/
abbrev TidyStep (parts : ι → ScheduledPart) (c : System (Option ι) Bool)
    (e : Moment (Option ι) Bool) (c' : System (Option ι) Bool) : Prop :=
  LaterStep parts c e c' ∧ leavesOf parts e.thread e.pre e.post

/-- **After the enqueue every call is tidy**, and only cancellations cancel. -/
theorem later_leaves (h : Run (LaterStep parts) c τ c') (hc : AfterEnqueue app parts c) :
    ∀ e ∈ τ, leavesOf parts e.thread e.pre e.post := by
  have hsafe : ∀ t, (c.threads t).Safe (ownOf parts t) Tidy (fun _ _ => leavesOf parts t)
      (fun _ _ => True) (fun _ _ => True) c.store := by
    intro t
    cases t with
    | none =>
      obtain ⟨r, hr⟩ := isSome_iff_exists.mp hc.ended
      cases hprog : c.threads none with
      | ret | fail => exact fun _ _ => trivial
      | call op k =>
        rw [hprog] at hr
        cases hr
    | some i =>
      rw [hc.fresh i]
      exact (parts i).maintains app keeping_true keeping_gone keeping_dead
        (fun _ _ => trivial) c.store trivial
  exact (h.safe_own (fun _ => Tidy.refl) (fun _ _ _ _ h h' => h.trans h')
    (fun _ _ _ _ _ _ _ h => leavesOf_tidy h) (fun _ _ _ h => h.1.1) (fun _ _ _ h => h.own) hsafe).1

theorem tidySteps (h : Run (LaterStep parts) c τ c')
    (hleaves : ∀ e ∈ τ, leavesOf parts e.thread e.pre e.post) : Run (TidyStep parts) c τ c' :=
  h.restrict (I := fun _ => True) (fun _ _ _ _ _ _ => trivial)
    (fun _ e _ he _ _ => hleaves e he) trivial

/-- The record is taken to CANCELLING. -/
def Cancels (e : Moment (Option ι) Bool) : Prop :=
  e.pre.cancelling = false ∧ e.post.cancelling = true

/-- **A cancellation that reports success follows a call that takes the record
to CANCELLING.** -/
theorem exists_cancels (h : Run (TidyStep parts) c τ c') (hq : Queued c.store)
    (hpart : parts i = .cancel) (hfresh : c.threads (some i) = cancelJobLifecycle app)
    (hresult : (c'.threads (some i)).result = some (.ok true)) :
    ∃ τ1 e τ2 c1 c2, τ = τ1 ++ e :: τ2 ∧ Run (TidyStep parts) c τ1 c1 ∧
      TidyStep parts c1 e c2 ∧ Run (TidyStep parts) c2 τ2 c' ∧ Cancels e := by
  rcases h.all_or_fails (K := fun _ e _ => ¬ Cancels e) with hall | hsplit
  · exfalso
    obtain ⟨r, hr⟩ := hq.live
    have hstart : c.store.cancelling = false := Store.cancelling_of_some hr
    have huncancelled : Uncancelled c.store := by
      refine ⟨hstart, fun hdead => ?_⟩
      cases hdead.symm.trans hr
    have hstep : ∀ c e c', TidyStep parts c e c' ∧ ¬ Cancels e → c.store.cancelling = false →
        e.post.cancelling = false := by
      intro c e c' hs hc
      rw [← hs.1.1.1.1.pre_eq] at hc
      exact Bool.eq_false_iff.mpr fun hpost => hs.2 ⟨hc, hpost⟩
    have hrun := hall.restrict (I := fun c => c.store.cancelling = false)
      (K := fun _ e => e.post.cancelling = false)
      (fun c e c' _ hs hc => hs.1.1.1.1.post_eq ▸ hstep c e c' hs hc)
      (fun c e c' _ hs hc => hstep c e c' hs hc) hstart
    have hsafe : Overtaken (c.threads (some i)) (fun b _ => b = false) c.store := by
      rw [hfresh]
      exact overtaken_cancelJobLifecycle huncancelled
    have hend := (hrun.safe_thread (fun s => Uncancelling.refl s)
      (fun _ _ _ h h' => ⟨h.1.trans h'.1, fun hc => h.2 (h'.2 hc)⟩) (fun _ _ _ hs => hs.1.1.1.1.1)
      ?_ ?_ hsafe).2.ends (Uncancelling.refl _) hresult
    · exact Bool.noConfusion (show true = false from hend)
    · intro c e c' hs he
      obtain ⟨ch, hsem⟩ := hs.1.1.1.own
      rw [he] at hsem
      have hown : (parts i).own ch e.op e.pre = some (e.ans, e.post) := hsem
      rw [hpart] at hown
      exact ⟨ch, filter_eq_some_iff.mpr ⟨hown, by simp [hs.2]⟩⟩
    · intro c e c' hs he
      refine ⟨leavesOf_tidy hs.1.1.2, fun hpost => ?_⟩
      rw [hs.2] at hpost
      cases hpost
  · obtain ⟨τ1, e, τ2, c1, c2, hτ, h1, hs, h2, hn⟩ := hsplit
    exact ⟨τ1, e, τ2, c1, c2, hτ, h1, hs, h2, not_not.mp hn⟩

/-- What is left of every thread, in a run after the enqueue. -/
def WatchedThreads (parts : ι → ScheduledPart) (c : System (Option ι) Bool) : Prop :=
  ∀ t, (c.threads t).Throughout (fun op => op.revives) fun q =>
    (∃ i session jobId, t = some i ∧ parts i = .dispatcher session jobId ∧ StartsUnchecked q) ∨
      Guarded q

omit [DecidableEq ι] in
theorem AfterEnqueue.watched (hc : AfterEnqueue app parts c) : WatchedThreads parts c := by
  intro t
  cases t with
  | none =>
    obtain ⟨r, hr⟩ := isSome_iff_exists.mp hc.ended
    cases hprog : c.threads none with
    | ret | fail => exact .inr fun _ _ _ _ => trivial
    | call op k =>
      rw [hprog] at hr
      cases hr
  | some i =>
    rw [hc.fresh i]
    refine (parts i).watched.mono fun q hq => hq.imp_left ?_
    rintro ⟨⟨session, jobId, hpart⟩, hstarts⟩
    exact ⟨i, session, jobId, rfl, hpart, hstarts⟩

section

variable (hs : TidyStep parts c e c')

include hs

theorem WatchedThreads.step (hc : WatchedThreads parts c) : WatchedThreads parts c' := by
  obtain ⟨⟨⟨hstep, horder⟩, i, hi⟩, -⟩ := hs
  have hrevives : ¬ (fun op : Op => (op.revives : Prop)) e.op := by
    simp [horder.once (hi ▸ some_ne_none i)]
  exact fun t => hstep.throughout hrevives (hc t)

/-- Right after the record is taken to CANCELLING no thread starts the runner. -/
theorem guarded_of_cancels (hcancels : Cancels e)
    (hc : WatchedThreads parts c) (t : Option ι) : Guarded (c'.threads t) := by
  have hc' := hc.step hs
  obtain ⟨⟨⟨hstep, horder⟩, j, hj⟩, hleaves⟩ := hs
  by_cases ht : t = e.thread
  · -- the thread that cancels is no dispatcher
    rcases (hc' t).self with ⟨i, session, jobId, rfl, hpart, -⟩ | hguarded
    · rw [← ht] at hleaves
      have hleaves : (parts i).Leaves e.pre e.post := hleaves
      rw [hpart] at hleaves
      have hpre := hleaves.2 hcancels.2
      rw [hcancels.1] at hpre
      cases hpre
    · exact hguarded
  · rw [hstep.other ht]
    rcases (hc t).self with ⟨i, session, jobId, rfl, hpart, hstarts⟩ | hguarded
    · exact absurd hstarts (horder.checked hcancels.1 hcancels.2 i session jobId hpart)
    · exact hguarded

/-- **After a cancellation with success the job is not started.** -/
theorem not_started_of_cancels (hcancels : Cancels e)
    (hc : WatchedThreads parts c) {c'' : System (Option ι) Bool}
    (h : Run (TidyStep parts) c' τ c'') : ∀ e' ∈ τ, e'.op.startsRunner = false := by
  have hcancelled : Cancelled c'.store := by
    rw [← hs.1.1.1.post_eq]
    exact .inl hcancels.2
  intro e' he'
  have hguarded := guarded_of_cancels hs hcancels hc e'.thread c'.store hcancelled
  exact (h.safe_thread Tidy.refl (fun _ _ _ h h' => h.trans h') (fun _ _ _ hs => hs.1.1.1)
    (fun _ _ _ hs _ => hs.1.finishing) (fun _ _ _ hs _ => leavesOf_tidy hs.2) hguarded).1 e' he' rfl

/-! ### Taking the job down -/

/-- A step that leaves the row as it was, up to those of thread `i`. -/
theorem TidyStep.between
    (hrow : c'.store.row.isSome = c.store.row.isSome) : Between e.pre e.post := by
  obtain ⟨⟨⟨hstep, -⟩, -⟩, hleaves⟩ := hs
  rw [← hstep.pre_eq, ← hstep.post_eq] at hrow
  exact ⟨hrow, (leavesOf_tidy hleaves).dead⟩

theorem TidyStep.gone (hc : c.store.row = none) : c'.store.row = none := by
  obtain ⟨⟨⟨hstep, -⟩, -⟩, hleaves⟩ := hs
  rw [← hstep.pre_eq] at hc
  rw [← hstep.post_eq]
  exact (leavesOf_tidy hleaves).gone hc

end

/-- A run that loses the row is a run in which one thread takes the row away,
and the others leave it alone. -/
theorem exists_takes (h : Run (TidyStep parts) c τ c') (hc : c.store.row ≠ none)
    (hc' : c'.store.row = none) : ∃ i, (∃ e ∈ τ, e.thread = some i) ∧
      Run (fun c e c' => TidyStep parts c e c' ∧ (e.thread ≠ some i → Between e.pre e.post))
        c τ c' := by
  obtain ⟨τ1, e, τ2, c1, c2, rfl, h1, hs, h2, hrow1, hrow2⟩ :=
    h.split_leaves (P := fun c => c.store.row ≠ none) hc (not_not.mpr hc')
  obtain ⟨i, hi⟩ := hs.1.2
  refine ⟨i, ⟨e, by simp, hi⟩, run_append.mpr ⟨c1, ?_, c2, ⟨hs, fun hne => absurd hi hne⟩, ?_⟩⟩
  · -- before, the row is there all along
    obtain ⟨-, hall⟩ := h1.all_along (P := fun c => c.store.row ≠ none)
      (fun _ _ _ _ hs hn => not_not.mpr (hs.gone (not_not.mp hn))) hrow1
    refine hall.mono fun c e c' hs => ⟨hs.1, fun _ => hs.1.between ?_⟩
    rw [isSome_iff_ne_none.mpr hs.2.1, isSome_iff_ne_none.mpr hs.2.2]
  · -- afterwards, it is gone
    refine h2.restrict (I := fun c => c.store.row = none) (fun _ _ _ _ hs hc => hs.gone hc)
      (fun c e c' _ hs hc _ => hs.between ?_) (not_not.mp hrow2)
    rw [hc, hs.gone hc]

/-- **A job that loses its row has lost its record** once the thread that took
the row has ended. -/
theorem live_none_of_gone (h : Run (TidyStep parts) c τ c') (hc : AfterEnqueue app parts c)
    (hrow : c.store.row ≠ none) (hended : ∀ e ∈ τ, (c'.threads e.thread).result.isSome)
    (hrow' : c'.store.row = none) : c'.store.live = none := by
  obtain ⟨i, ⟨e, he, hi⟩, hrun⟩ := exists_takes h hrow hrow'
  have hstart : TakenDown c.store := fun hgone => absurd hgone hrow
  have hsafe := (parts i).maintains app keeping_takenDown keeping_gone_between
    keeping_dead_between takenDown_of_dead c.store hstart
  rw [← hc.fresh i] at hsafe
  have hfinal := (hrun.safe_thread Between.refl (fun _ _ _ h h' => h.trans h')
    (fun _ _ _ hs => hs.1.1.1.1) (fun _ _ _ hs he => ?_) (fun _ _ _ hs hne => hs.2 hne) hsafe).2
  · obtain ⟨r, hr⟩ := isSome_iff_exists.mp (hi ▸ hended e he)
    have hdown : TakenDown c'.store := (hfinal.ends (Between.refl _) hr).of_const
    exact hdown hrow'
  · have hown := hs.1.1.own
    rw [he] at hown
    exact hown

/-- **A job of the table is enqueued, cancelled and dispatched safely in every
run in order**: after a cancellation with success it is not started, and once
its row is gone and everything that has begun is over it has no record. -/
theorem scheduled_safe (app : App) (enq : ScheduledEnqueue) (parts : ι → ScheduledPart)
    {s : Store} (hs : Unqueued s)
    (h : Run (OrderlyStep parts) (scheduledSystem app enq parts s) τ c) :
    (∀ i, parts i = .cancel → (c.threads (some i)).result = some (.ok true) →
      ∀ τ' c', Run (OrderlyStep parts) c τ' c' → ∀ e ∈ τ', e.op.startsRunner = false) ∧
    ((∀ e ∈ τ, (c.threads e.thread).result.isSome) → c.store.row = none →
      c.store.live = none) := by
  obtain ⟨τ1, τ2, c1, rfl, h1, h2, hnone, hsplit⟩ := enqueue_first h
  obtain ⟨hfresh, hqueued⟩ := enqueue_alone hs.row h1 hnone
  rcases hsplit with rfl | hended
  · -- only the enqueue has run
    obtain rfl := run_nil.mp h2
    refine ⟨fun i hpart hresult => ?_, fun hall hrow => ?_⟩
    · rw [hfresh i, hpart] at hresult
      cases hresult
    · cases τ1 with
      | nil =>
        obtain rfl := run_nil.mp h1
        exact hs.live
      | cons e τ =>
        have hresult := hall e (by simp)
        rw [hnone e mem_cons_self] at hresult
        exact absurd hrow (hqueued hresult).row
  · have hafter : AfterEnqueue app parts c1 := ⟨hended, hfresh⟩
    refine ⟨fun i hpart hresult τ' c' h' => ?_, fun hall hrow => ?_⟩
    · have hended' : (c.threads none).result.isSome := by
        obtain ⟨r, hr⟩ := isSome_iff_exists.mp hended
        rw [(h2.mono fun _ _ _ hs => hs.1).ended hr]
        rfl
      have hnext := later_steps h' hended'
      have hleaves := later_leaves (run_append.mpr ⟨c, later_steps h2 hended, hnext⟩) hafter
      have htidy := tidySteps (later_steps h2 hended) fun e he =>
        hleaves e (mem_append_left _ he)
      have htidy' := tidySteps hnext fun e he => hleaves e (mem_append_right _ he)
      have hprog : c1.threads (some i) = cancelJobLifecycle app := by
        rw [hfresh i, hpart]
        rfl
      obtain ⟨τa, e, τb, ca, cb, -, ha, hstep, hb, hcancels⟩ :=
        exists_cancels htidy (hqueued hended) hpart hprog hresult
      have hwatched : WatchedThreads parts ca :=
        ha.invariant (fun _ _ _ hs hc => hc.step hs) hafter.watched
      intro e' he'
      exact not_started_of_cancels hstep hcancels hwatched (run_append.mpr ⟨c, hb, htidy'⟩) e'
        (mem_append_right _ he')
    · have hlater := later_steps h2 hended
      exact live_none_of_gone (tidySteps hlater (later_leaves hlater hafter)) hafter
        (hqueued hended).row (fun e he => hall e (mem_append_right _ he)) hrow

end Later

/-- A dispatcher that has not begun is in front of its check. -/
theorem not_startsUnchecked_dispatcher (app : App) (session : Option ℤ) (jobId : JobId) :
    ¬ StartsUnchecked ((ScheduledPart.dispatcher session jobId).prog app) := by
  rintro (hop | ⟨-, row, h⟩)
  · cases hop
  rcases row with e | (- | data)
  · exact h
  · exact h
  rcases data with ⟨_ | wid, _⟩
  · exact h
  rcases h with hop | ⟨-, worker, h⟩
  · cases hop
  rcases worker with e | (- | w)
  · exact h
  · exact h
  rcases h with hop | ⟨-, runner, h⟩
  · cases hop
  rcases runner with e | (- | runner)
  · exact h
  · exact h
  rcases h with hop | ⟨hreads, -⟩
  · cases hop
  · exact hreads rfl

/-- The enqueue, and then the cancellation. -/
def enqueuedRun : List (Moment (Option (Fin 2)) Bool) × System (Option (Fin 2)) Bool :=
  (scheduledSystem default dueEnqueue scheduledParts unqueuedStore).play reliable
    (List.replicate 3 (none, goodChoice))

def cancelledRun : List (Moment (Option (Fin 2)) Bool) × System (Option (Fin 2)) Bool :=
  enqueuedRun.2.play reliable (List.replicate 9 (some 0, goodChoice))

theorem run_enqueuedRun : Run (OrderlyStep scheduledParts)
    (scheduledSystem default dueEnqueue scheduledParts unqueuedStore) enqueuedRun.1
      enqueuedRun.2 := by
  have hrun : Run (Step reliable) (scheduledSystem default dueEnqueue scheduledParts unqueuedStore)
    enqueuedRun.1 enqueuedRun.2 := run_play _ _
  have hevents : ∀ e ∈ enqueuedRun.1, e.thread = none ∧ e.post.cancelling = false := by decide
  refine hrun.restrict (I := fun _ => True) (fun _ _ _ _ _ _ => trivial) ?_ trivial
  intro c e c' he hs _
  obtain ⟨hthread, hpost⟩ := hevents e he
  exact ⟨fun hne => absurd hthread hne, fun hne => absurd hthread hne,
    fun _ hc => absurd hc (Bool.eq_false_iff.mp hpost), fun i hi => nomatch hthread.symm.trans hi⟩

theorem run_cancelledRun :
    Run (OrderlyStep scheduledParts) enqueuedRun.2 cancelledRun.1 cancelledRun.2 := by
  have hrun : Run (Step reliable) enqueuedRun.2 cancelledRun.1 cancelledRun.2 := run_play _ _
  have hevents : ∀ e ∈ cancelledRun.1, e.thread = some 0 ∧ e.op.revives = false ∧
    e.op.findsRdbOnly e.pre := by decide
  refine hrun.restrict (I := fun c => c.threads none = ret false ∧
    c.threads (some 1) = (scheduledParts 1).prog default) ?_ ?_ ⟨rfl, rfl⟩
  · intro c e c' he hs hc
    have hthread := (hevents e he).1
    have hnone : none ≠ e.thread := by
      rw [hthread]
      exact nofun
    have hone : some 1 ≠ e.thread := by
      rw [hthread]
      decide
    rw [hs.other hnone, hs.other hone]
    exact hc
  · intro c e c' he hs hc
    obtain ⟨-, hrevives, hfinds⟩ := hevents e he
    refine ⟨fun _ => by rw [hc.1]; rfl, fun _ => hrevives, fun _ _ i session jobId hpart => ?_,
      fun _ _ _ => hs.pre_eq ▸ hfinds⟩
    match i with
    | 0 => cases hpart
    | 1 =>
      rw [hc.2]
      exact not_startsUnchecked_dispatcher _ _ _

/-- The job is cancelled right after its enqueue: it is not started any more,
and nothing is left of it. -/
theorem cancelledRun_safe :
    cancelledRun.2.threads (some 0) = ret true ∧ cancelledRun.2.store.row = none ∧
      (∀ τ' c', Run (OrderlyStep scheduledParts) cancelledRun.2 τ' c' →
        ∀ e ∈ τ', e.op.startsRunner = false) ∧ cancelledRun.2.store.live = none := by
  have hsafe := scheduled_safe default dueEnqueue scheduledParts (s := unqueuedStore) ⟨rfl, rfl⟩
    (run_append.mpr ⟨_, run_enqueuedRun, run_cancelledRun⟩)
  have hended : ∀ e ∈ enqueuedRun.1 ++ cancelledRun.1,
      (cancelledRun.2.threads e.thread).result.isSome := by
    have hthreads : ∀ e ∈ enqueuedRun.1 ++ cancelledRun.1, e.thread = none ∨ e.thread = some 0 := by
      decide
    intro e he
    rcases hthreads e he with ht | ht <;> rw [ht] <;> rfl
  exact ⟨rfl, rfl, hsafe.1 0 rfl rfl, hsafe.2 hended rfl⟩

end Jobworkerp
