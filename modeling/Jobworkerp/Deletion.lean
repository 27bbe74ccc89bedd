/-
Jobworkerp/Deletion.lean

Deleting a periodic job.

Deleting is cancelling: `delete_job` is `cancel_job_lifecycle`.  The chain of
occurrences lives in the row of the job table, and it is the result processor
of one occurrence that creates the row of the next.  A delete that removes the
row between two occurrences ends the chain.  A delete that lands on an
occurrence in flight only marks the record, and the result processor, which
never looks at the mark of a finished occurrence, creates the next row.

* `returnsUnless_cancelJobLifecycle`: a delete that finds the job waiting
  reports success only after it has called for the removal of the row.
* `no_occurrence_after_delete`: removed while nothing is in flight, the job is
  never enqueued again.
* `runningRun_continues`: deleted while it runs, it is.
-/
import Jobworkerp.Periodic

namespace Jobworkerp

open Interleaving Prog

/-! ### The participants -/

/-- What runs against a periodic job. -/
inductive ChainPart
  | delete
  /-- The RDB dispatcher fetches the row, runs it and processes the result. -/
  | dispatcher (session : Option ℤ) (jobId : JobId)
  /-- The result of an occurrence that was started before. -/
  | processor (jr : JobResult) (stream : Bool) (w : WorkerData)
  /-- A task that was left in the background. -/
  | background
  deriving DecidableEq

/-- The program of a participant; only the verdict of a delete is of interest. -/
def ChainPart.prog (app : App) : ChainPart → M Bool
  | delete => cancelJobLifecycle app
  | dispatcher session jobId => do
      (dispatchRdbJob app session jobId).discard
      return false
  | processor jr stream w => do
      (processResult app jr stream w).discard
      return false
  | background => do
      taskRunner app
      return false

section System

variable {ι : Type} (app : App) (parts : ι → ChainPart)

def deletionSystem (s : Store) : System ι Bool :=
  { threads := fun i => (parts i).prog app
    store := s }

/-- No occurrence is in flight: a dispatcher has not started or has ended, and
every other result has been processed. -/
def Quiescent (c : System ι Bool) : Prop :=
  ∀ i, match parts i with
    | .delete | .background => True
    | .dispatcher _ _ => c.threads i = (parts i).prog app ∨ (c.threads i).result.isSome
    | .processor _ _ _ => (c.threads i).result.isSome

/-- The record, if there is one, is that of a job that waits to be run. -/
def Waits (live : Option JobProcessingStatusRecord) : Prop :=
  ∀ p, live = some p → p.status = .pending ∨ p.status = .unknown

instance : DecidablePred Waits
  | some p => decidable_of_iff (p.status = .pending ∨ p.status = .unknown)
      ⟨fun h _ hp => Option.some.inj hp ▸ h, fun h => h p rfl⟩
  | none => isTrue fun _ h => nomatch h

/-- The calls that depend on the record. -/
def Op.readsRecord : Op → Bool
  | .getStatus | .compareAndSetEntry _ _ | .compareAndSetScript _ _ => true
  | _ => false

/-- A call of a delete that no occurrence disturbs: the record it meets is that
of a waiting job, and the row is removed while nothing is in flight. -/
structure Undisturbed (c : System ι Bool) (e : Moment ι Bool) : Prop where
  waits : e.op.readsRecord → Waits c.store.live
  removes : e.op = .deleteRow → Quiescent app parts c ∧ e.ans.isOk

end System

/-! ### A delete that finds the job waiting -/

/-- What such a delete is told about the record. -/
def WaitingAnswer : (op : Op) → Except JobWorkerError (Resp op) → Prop
  | .getStatus, .ok record => Waits record
  | .compareAndSetEntry _ _, .ok (.conflict current) => Waits current
  | _, _ => True

theorem waitingAnswer_of_sem (h : sem ch op s = some (a, s'))
    (hs : op.readsRecord → Waits s.live) : WaitingAnswer op a := by
  cases a with
  | error e => cases op <;> trivial
  | ok r =>
    have heff := effect_of_sem_ok h
    cases op <;> try trivial
    case getStatus =>
      cases heff
      exact hs rfl
    case compareAndSetEntry expected next =>
      obtain ⟨hr, -⟩ := answer_eq heff
      subst hr
      split
      · trivial
      · exact hs rfl

section Delete

variable {app : App}

/-- Reported without a call for the removal of the row. -/
abbrev WithoutRemoval {α : Type} (Q : α → Prop) (p : M α) : Prop :=
  p.ReturnsUnless WaitingAnswer (· = .deleteRow) Q

theorem withoutRemoval_findStatusRecord : WithoutRemoval Waits findStatusRecord :=
  returnsUnless_perform Op.getStatus fun _ h => h

theorem withoutRemoval_compareAndSetStatus (expected next : Option JobProcessingStatusRecord) :
    WithoutRemoval (fun r => ∀ current, r = .conflict current → Waits current)
      (compareAndSetStatus app expected next) := by
  unfold compareAndSetStatus
  split
  · refine returnsUnless_perform (Op.compareAndSetEntry expected next) fun r hr => ?_
    rintro current rfl
    exact hr
  · refine ReturnsUnless.bind (returnsUnless_true _) fun applied _ => ?_
    split
    · exact fun _ h => nomatch h
    · refine ReturnsUnless.bind withoutRemoval_findStatusRecord fun record hrecord => ?_
      rintro current ⟨⟩
      exact hrecord

/-- The row of a waiting job is called to be removed. -/
theorem withoutRemoval_removePendingRdbJob :
    WithoutRemoval (fun _ => False) (removePendingRdbJob app) := by
  refine ReturnsUnless.bind (returnsUnless_true _) fun row _ => ?_
  refine ReturnsUnless.bind (returnsUnless_true _) fun rdbOnly _ => ?_
  exact .inl rfl

theorem withoutRemoval_removeUnpublishedRdbOnlyJob :
    WithoutRemoval (· = false) (removeUnpublishedRdbOnlyJob app) := by
  refine ReturnsUnless.bind (returnsUnless_true _) fun row _ => ?_
  refine ReturnsUnless.bind (returnsUnless_true _) fun rdbOnly _ => ?_
  split
  · exact .inl rfl
  · rfl

theorem withoutRemoval_cancelAttempts (n : ℕ) (record : JobProcessingStatusRecord)
    (hrecord : record.status = .pending ∨ record.status = .unknown) :
    WithoutRemoval (· = false) (cancelAttempts app n record) := by
  induction n generalizing record with
  | zero =>
    refine ReturnsUnless.bind withoutRemoval_findStatusRecord fun found hfound => ?_
    cases found with
    | none => rfl
    | some current =>
      rcases hfound current rfl with h | h
      · exact decide_eq_false (by rw [h]; nofun)
      · exact decide_eq_false (by rw [h]; nofun)
  | succ n ih =>
    unfold cancelAttempts
    split
    · rfl
    · rename_i hknown
      have hpending : record.status = .pending := hrecord.resolve_right hknown
      split
      · rename_i hcancelling
        rw [hpending] at hcancelling
        cases hcancelling
      · refine ReturnsUnless.bind (withoutRemoval_compareAndSetStatus _ _) fun r hr => ?_
        split
        · refine ReturnsUnless.bind (P := fun _ => False) ?_ fun _ h => h.elim
          refine ReturnsUnless.bind (returnsUnless_true _) fun _ _ => ?_
          rw [if_pos hpending]
          exact withoutRemoval_removePendingRdbJob.bind fun _ h => h.elim
        · exact ih _ (hr _ rfl _ rfl)
        · rfl

/-- **A delete that finds the job waiting** reports success only after it has
called for the removal of the row. -/
theorem returnsUnless_cancelJobLifecycle : WithoutRemoval (· = false) (cancelJobLifecycle app) := by
  refine ReturnsUnless.bind withoutRemoval_findStatusRecord fun found hfound => ?_
  split
  · exact withoutRemoval_removeUnpublishedRdbOnlyJob
  · split
    · rfl
    · exact withoutRemoval_cancelAttempts _ _ (hfound _ rfl)

end Delete

/-! ### After the row is gone -/

/-- The calls that put the job into one of its queues. -/
def Enqueues : Op → Prop
  | .createRow _ | .upsertRow _ _ | .upsertRowWithClaim _ _ => True
  | .pushJob _ | .pushJobFront _ | .addRunAfterJob _ => True
  | _ => False

theorem createsRow_of_not_enqueues (h : ¬ Enqueues op) : op.createsRow = false := by
  cases op <;> first | rfl | exact absurd trivial h

/-- The job has no row. -/
def Gone (s : Store) : Prop := s.row = none

/-- The row stays away. -/
def StaysGone (s s' : Store) : Prop := Gone s → Gone s'

theorem Gone.stable (s s' : Store) (h : Gone s) (hR : StaysGone s s') : Gone s' := hR h

/-- Without the row, a program that enqueues nothing. -/
abbrev Barren {α : Type} (p : M α) (s : Store) : Prop :=
  p.Safe sem StaysGone (fun op _ s s' => ¬ Enqueues op ∧ StaysGone s s') (fun _ => Gone)
    (fun _ => Gone) s

section Gone

variable {s : Store} (hs : Gone s)

include hs

theorem barren_of_calls (hp : p.Calls fun op => ¬ Enqueues op) : Barren p s := by
  refine Safe.of_calls hp Gone.stable (fun op ch ans s s' hop hs hsem => ?_) hs
  have hs' : Gone s' := row_none_of_sem (createsRow_of_not_enqueues hop) hs hsem
  exact ⟨⟨hop, fun _ => hs'⟩, hs'⟩

/-- A dispatcher that starts now finds no row. -/
theorem barren_dispatchRdbJob (app : App) (session : Option ℤ) (jobId : JobId) :
    Barren (dispatchRdbJob app session jobId) s := by
  have hfetch : (invoke (.fetchRow app.fetchInterval)).Safe sem StaysGone
      (fun op _ s s' => ¬ Enqueues op ∧ StaysGone s s') (fun found s => found = none ∧ Gone s)
      (fun _ => Gone) s := by
    intro s1 hR ch ans s2 hsem
    have h1 : Gone s1 := hR hs
    have h2 : Gone s2 := row_none_of_sem rfl h1 hsem
    refine ⟨⟨id, fun _ => h2⟩, ?_⟩
    cases ans with
    | error e => exact fun s3 hR => hR h2
    | ok found =>
      have heff := effect_of_sem_ok hsem
      have hrow : (s1.tick ch.tick).row = none := h1
      simp only [effect, hrow, Option.filter_none, ite_self, Option.some.injEq, Prod.mk.injEq,
        Except.ok.injEq] at heff
      exact fun s3 hR => ⟨heff.1.symm, hR h2⟩
  refine Safe.bind (fun _ => id) hfetch ?_
  rintro _ s1 ⟨rfl, h1⟩
  exact fun _ hR => hR h1

end Gone

theorem CancelOp.not_enqueues (h : CancelOp op) : ¬ Enqueues op := by
  cases op <;> first | exact h.elim | exact id

theorem TaskOp.not_enqueues (h : TaskOp op) : ¬ Enqueues op := by
  cases op <;> first | exact h.elim | exact id

section Main

variable {ι : Type} {app : App} {parts : ι → ChainPart} {c c' : System ι Bool}
  {e : Moment ι Bool} {s : Store} {τ τ' : List (Moment ι Bool)} {i : ι}

/-- The calls a participant is restricted to: a delete and a background task
enqueue nothing. -/
def ChainPart.May : ChainPart → Op → Prop
  | delete, op | background, op => ¬ Enqueues op
  | _, _ => True

theorem ChainPart.calls (app : App) (part : ChainPart) : (part.prog app).Calls part.May := by
  cases part with
  | delete => exact (calls_cancelJobLifecycle app).mono fun _ => CancelOp.not_enqueues
  | background =>
    exact (calls_taskRunner app id fun _ => TaskOp.not_enqueues).bind fun _ => by trivial
  | dispatcher | processor => exact calls_of_forall (fun _ => trivial) _

/-- Once the row is gone and nothing is in flight, nobody enqueues. -/
theorem barren_of_quiescent (hcalls : ∀ j, (c.threads j).Calls (parts j).May)
    (hquiet : Quiescent app parts c) (hgone : Gone c.store) :
    ∀ j, Barren (c.threads j) c.store := by
  intro j
  have hj := hcalls j
  have hq := hquiet j
  have hended : (c.threads j).result.isSome → Barren (c.threads j) c.store :=
    fun h => Safe.of_result Gone.stable h hgone
  cases hpart : parts j with
  | delete | background => exact barren_of_calls hgone (by rwa [hpart] at hj)
  | processor jr stream w =>
    rw [hpart] at hq
    exact hended hq
  | dispatcher session jobId =>
    rw [hpart] at hq
    rcases hq with hfresh | hdone
    · rw [hfresh]
      refine Safe.bind (Q := fun _ => Gone) (fun _ => id)
        (Safe.bind (fun _ => id) (barren_dispatchRdbJob hgone app session jobId) ?_) ?_
      · exact fun _ _ h => fun _ hR => hR h
      · exact fun _ _ h => fun _ hR => hR h
    · exact hended hdone

variable [DecidableEq ι]

/-- A delete does not start an occurrence. -/
theorem Quiescent.step (hc : Quiescent app parts c) (h : Step sem c e c')
    (he : parts e.thread = .delete) : Quiescent app parts c' := by
  intro j
  have hj := hc j
  by_cases hne : j = e.thread
  · subst hne
    rw [he]
    trivial
  · rwa [h.other hne]

theorem gone_of_deleteRow (h : sem ch op s = some (a, s')) (ha : a.isOk)
    (hop : op = .deleteRow) : Gone s' := by
  subst hop
  cases a with
  | error e => cases ha
  | ok b =>
    cases effect_of_sem_ok h
    rfl

/-- **A delete between two occurrences ends the chain.**  If in a run every call
of the delete is undisturbed and it reports success, then nothing is enqueued
afterwards, by whatever dispatchers, result processors, tasks and further
deletes, with whatever failures of the storage. -/
theorem no_occurrence_after_delete (hi : parts i = .delete)
    (hrun : Run (fun c e c' => Step sem c e c' ∧
      (e.thread = i → Undisturbed app parts c e)) (deletionSystem app parts s) τ c)
    (hret : (c.threads i).result = some (.ok true)) (hafter : Run (Step sem) c τ' c') :
    ∀ e ∈ τ', ¬ Enqueues e.op := by
  have hstart : ((deletionSystem app parts s).threads i).ReturnsUnless WaitingAnswer
      (· = .deleteRow) (· = false) := by
    show ((parts i).prog app).ReturnsUnless _ _ _
    rw [hi]
    exact returnsUnless_cancelJobLifecycle
  obtain ⟨τ1, e, τ2, c1, c2, rfl, h1, hstep, hK, he, hop, h2⟩ :=
    hrun.exists_call (fun c e c' hs hK he => by
      obtain ⟨ch, hsem⟩ := hs.sem_eq
      exact waitingAnswer_of_sem hsem fun hreads => hs.pre_eq ▸ (hK he).waits hreads)
      hstart hret nofun
  obtain ⟨hquiet, hans⟩ := (hK he).removes hop
  have hgone : Gone c2.store := by
    obtain ⟨ch, hsem⟩ := hstep.sem_eq
    exact hstep.post_eq ▸ gone_of_deleteRow hsem hans hop
  have hcalls : ∀ j, (c1.threads j).Calls (parts j).May :=
    h1.invariant (I := fun c => ∀ j, (c.threads j).Calls (parts j).May)
      (fun c e c' hs hc => hs.1.calls hc) fun j => ChainPart.calls app (parts j)
  have hbarren := barren_of_quiescent (hstep.calls hcalls) (hquiet.step hstep (he ▸ hi)) hgone
  have hrest : Run (Step sem) c2 (τ2 ++ τ') c' :=
    run_append.mpr ⟨c, h2.mono fun _ _ _ h => h.1, hafter⟩
  obtain ⟨hevents, -⟩ := hrest.safe (R := fun _ => StaysGone) (fun _ _ => id)
    (fun _ _ _ _ h h' => h' ∘ h) (fun _ _ _ _ _ _ _ h => h.2) hbarren
  exact fun e he => (hevents e (List.mem_append_right _ he)).1

end Main

/-! A periodic job, a delete and the dispatcher. -/

def deletedParts : Fin 2 → ChainPart
  | 0 => .delete
  | 1 => .dispatcher none ⟨1⟩

/-- The first occurrence is due. -/
def waitingStore : Store := { periodicStore with
  live := some ⟨.pending, 0⟩
  row := some { (default : JobData) with
    workerId := some ⟨1⟩, runAfterTime := 1, grabbedUntilTime := some 0 } }

/-- The delete runs alone. -/
def deletedRun : List (Moment (Fin 2) Bool) × System (Fin 2) Bool :=
  (deletionSystem default deletedParts waitingStore).play sem (List.replicate 7 (0, default))

/-- The dispatcher comes after the delete, and finds nothing. -/
theorem deletedRun_over :
    deletedRun.2.threads 0 = ret true ∧
      ∀ e ∈ (deletedRun.2.play sem [(1, { (default : Choice) with flag := true })]).1,
        ¬ Enqueues e.op := by
  have hrun : Run (Step sem) (deletionSystem default deletedParts waitingStore) deletedRun.1
    deletedRun.2 := run_play _ _
  have hevents : ∀ e ∈ deletedRun.1, e.thread = 0 ∧ (e.op.readsRecord → Waits e.pre.live) ∧
    (e.op = .deleteRow → e.ans.isOk) := by decide
  refine ⟨rfl, no_occurrence_after_delete (i := 0) rfl (hrun.restrict
    (I := fun c => c.threads 1 = (deletedParts 1).prog default) ?_ ?_ rfl) rfl (run_play _ _)⟩
  · intro c e c' he hs hc
    have hne : (1 : Fin 2) ≠ e.thread := by rw [(hevents e he).1]; decide
    rw [hs.other hne, hc]
  · intro c e c' he hs hc _
    refine ⟨fun h => hs.pre_eq ▸ (hevents e he).2.1 h, fun h => ⟨fun j => ?_, (hevents e he).2.2 h⟩⟩
    match j with
    | 0 => trivial
    | 1 => exact .inl hc

/-- The dispatcher starts the run; the delete comes and reports success; then
the run ends. -/
def runningSystem : System (Fin 2) Bool :=
  let ch : Choice := { (default : Choice) with flag := true }
  ((deletionSystem default deletedParts waitingStore).play sem
    (List.replicate 7 (1, ch) ++ List.replicate 3 (0, ch))).2

/-- **The occurrence that ran when the job was deleted enqueues the next one.** -/
theorem runningRun_continues :
    runningSystem.threads 0 = ret true ∧
      ∃ e ∈ (runningSystem.play sem (List.replicate 10 (1, default))).1,
        Enqueues e.op ∧ e.pre.row = none ∧ e.post.row.isSome :=
  ⟨rfl, (runningSystem.play sem (List.replicate 10 (1, default))).1.get ⟨9, by decide⟩,
    List.get_mem _ _, trivial, rfl, rfl⟩

end Jobworkerp
