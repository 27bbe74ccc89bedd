/-
Jobworkerp/LostExecution.lean

What becomes of an execution that the recovery has claimed.

A claim hides the RUNNING row from `find_running_by_instance`, so a recovery
that fails afterwards has to undo it.  `recover_locked` does so after most of
its calls, by `restore_running` or `restore_pending_claim_to_running`; but the
identifier of the result, the lease of a WithBackup row and the reset of the
claim are awaited with a plain `?`, and `update_job` reports success for a
retry that has reached no queue.  In these cases nobody ever looks at the
execution again.

The calls fail without effect here, each in any way, and the calls that undo a
claim do not fail.

* `Recovers`: a part of the recovery that runs under the claim, with what its
  calls say about the outcome; closed under sequential composition.
* `lost_execution_handled_iff`: for every batch of candidates, a claimed
  execution is published, completed or visible again exactly if none of the
  unguarded calls failed and `update_job` did not drop the retry.
* `unnumbered_stranded`: without an identifier the execution is lost.
-/
import Jobworkerp.Recovery
import Jobworkerp.UpdateJob

namespace Jobworkerp

open Interleaving Prog List Option

/-! ### Failures -/

/-- The calls that undo a claim. -/
def Op.restores : Op → Bool
  | .restoreRunning _ | .restorePendingClaimToRunning _ => true
  | _ => false

/-- The semantics when a call that fails has no effect, and a claim can always
be undone. -/
def compensating : Sem Op Resp JobWorkerError Store Choice := fun ch op s =>
  sem { ch with fault := if op.restores ∨ ch.fault = .none then .none else .refused } op s

variable {ch : Choice} {op : Op} {s s' : Store} {a : Answer op}
  {claim : RecoveryClaim} {w : WorkerData} {τ : Trace} {app : App}

section Compensating

/-- A call goes through, or it is refused. -/
theorem compensating_cases (h : compensating ch op s = some (a, s')) :
    (∃ ch', effect ch' op (s.tick ch.tick) = some (a, s')) ∨
      op.restores = false ∧ op.infallible = false ∧ (∃ e, a = .error e) ∧
        s' = s.tick ch.tick := by
  simp only [compensating, sem] at h
  split at h
  · exact .inl ⟨_, h⟩
  · rename_i hfallible
    split at h
    · exact .inl ⟨_, h⟩
    · rename_i hfault
      split at hfault
      · cases hfault
      · rename_i hrestores
        cases h
        refine .inr ⟨?_, Bool.eq_false_iff.mpr hfallible, ⟨_, rfl⟩, rfl⟩
        exact Bool.eq_false_iff.mpr fun hr => hrestores (.inl hr)
    · rename_i hfault
      split at hfault <;> cases hfault

/-- An answered call went through. -/
theorem effect_of_compensating {x : Resp op} (h : compensating ch op s = some (.ok x, s')) :
    ∃ ch', effect ch' op (s.tick ch.tick) = some (.ok x, s') := by
  rcases compensating_cases h with heff | ⟨-, -, ⟨e, hbad⟩, -⟩
  · exact heff
  · cases hbad

end Compensating

/-! ### The outcome of a claim -/

/-- The calls after which an error is returned without undoing the claim. -/
def Op.unguarded : Op → Bool
  | .generateId | .grabRow _ _ | .resetClaimToPending _ => true
  | _ => false

/-- The calls that put a retry where a dispatcher takes it from. -/
def Op.publishesRetry : Op → Bool
  | .upsertRowWithClaim _ _ | .pushJob _ | .addRunAfterJob _ => true
  | _ => false

def Op.resetsClaim : Op → Bool
  | .resetClaimToPending _ => true
  | _ => false

/-- The row write of `update_job`: for a WithBackup worker a backup. -/
def Op.backsUp : Op → Bool
  | .upsertRow _ _ => true
  | _ => false

/-- The retry of the execution has been published. -/
def Published (τ : Trace) : Prop := ∃ c ∈ τ, c.op.publishesRetry ∧ c.answered
  deriving Decidable

/-- The execution has been completed: its live record is deleted. -/
def Completed (τ : Trace) : Prop := ∃ c ∈ τ, c.op = .deleteStatus ∧ c.answered
  deriving Decidable

/-- `find_running_by_instance` sees the execution. -/
def Visible (instanceId : ℤ) (s : Store) : Prop :=
  (runningCandidate s.jobId instanceId s.index).isSome
  deriving Decidable

/-- The execution has not been stranded. -/
def Handled (instanceId : ℤ) (τ : Trace) (s : Store) : Prop :=
  Published τ ∨ Completed τ ∨ Visible instanceId s
  deriving Decidable

/-- `update_job` drops the retry: it finds the worker, no queue takes the job,
and what it reports is the success of the half it does not use, or of the
backup row. -/
structure Dropped (worker : Option WorkerData) (τ : Trace) : Prop where
  reset : ∃ c ∈ τ, c.op.resetsClaim ∧ c.answered
  found : ¬ ∃ c ∈ τ, c.op = .findWorker ∧ ¬ c.answered
  backup : ∀ w ∈ worker, w.queueType = QueueType.withBackup.toI32 →
    ∃ c ∈ τ, c.op.backsUp ∧ c.answered
  unpublished : ¬ Published τ

/-- What strands a claimed execution. -/
def Stranding (worker : Option WorkerData) (τ : Trace) : Prop :=
  (∃ c ∈ τ, c.op.unguarded ∧ ¬ c.answered) ∨ Dropped worker τ

/-- The outcome of a claimed execution, read off its calls. -/
def Fate (claim : RecoveryClaim) (w : WorkerData) (τ : Trace) (s : Store) : Prop :=
  Handled claim.candidate.workerInstanceId τ s ↔ ¬ Stranding (some w) τ

/-- A call that decides nothing about the outcome. -/
def Neutral (c : Call Op Resp JobWorkerError Store) : Prop :=
  (c.op.publishesRetry || c.op.resetsClaim || c.op.backsUp || c.op = .deleteStatus) = false ∧
    (c.op.unguarded ∨ c.op = .findWorker → c.answered)

section Fate

variable {τ1 τ2 : Trace} {c : Call Op Resp JobWorkerError Store}

theorem exists_append_iff {P : Call Op Resp JobWorkerError Store → Prop}
    (h : ∀ c ∈ τ1, ¬ P c) : (∃ c ∈ τ1 ++ τ2, P c) ↔ ∃ c ∈ τ2, P c := by
  constructor
  · rintro ⟨c, hc, hP⟩
    rcases mem_append.mp hc with hc | hc
    · exact absurd hP (h c hc)
    · exact ⟨c, hc, hP⟩
  · rintro ⟨c, hc, hP⟩
    exact ⟨c, mem_append_right _ hc, hP⟩

theorem Neutral.not (h : Neutral c) :
    ¬ c.op.publishesRetry ∧ ¬ c.op.resetsClaim ∧ ¬ c.op.backsUp ∧ c.op ≠ .deleteStatus := by
  have hfalse := h.1
  simp only [Bool.or_eq_false_iff, decide_eq_false_iff_not, and_assoc] at hfalse
  simpa only [Bool.not_eq_true] using hfalse

section Append

variable (h : ∀ c ∈ τ1, Neutral c)
include h

theorem published_append : Published (τ1 ++ τ2) ↔ Published τ2 :=
  exists_append_iff fun c hc hP => (h c hc).not.1 hP.1

theorem found_append : (∃ c ∈ τ1 ++ τ2, c.op = .findWorker ∧ ¬ c.answered) ↔
    ∃ c ∈ τ2, c.op = .findWorker ∧ ¬ c.answered :=
  exists_append_iff fun c hc hP => hP.2 ((h c hc).2 (.inr hP.1))

theorem backup_append : (∃ c ∈ τ1 ++ τ2, c.op.backsUp ∧ c.answered) ↔
    ∃ c ∈ τ2, c.op.backsUp ∧ c.answered :=
  exists_append_iff fun c hc hP => (h c hc).not.2.2.1 hP.1

theorem dropped_append {worker : Option WorkerData} :
    Dropped worker (τ1 ++ τ2) ↔ Dropped worker τ2 := by
  have hreset : (∃ c ∈ τ1 ++ τ2, c.op.resetsClaim ∧ c.answered) ↔
      ∃ c ∈ τ2, c.op.resetsClaim ∧ c.answered :=
    exists_append_iff fun c hc hP => (h c hc).not.2.1 hP.1
  constructor
  · rintro ⟨h1, h2, h3, h4⟩
    exact ⟨hreset.mp h1, fun hf => h2 ((found_append h).mpr hf),
      fun v hv hq => (backup_append h).mp (h3 v hv hq), fun hp => h4 ((published_append h).mpr hp)⟩
  · rintro ⟨h1, h2, h3, h4⟩
    exact ⟨hreset.mpr h1, fun hf => h2 ((found_append h).mp hf),
      fun v hv hq => (backup_append h).mpr (h3 v hv hq), fun hp => h4 ((published_append h).mp hp)⟩

/-- Calls that decide nothing can be left out. -/
theorem fate_append : Fate claim w (τ1 ++ τ2) s ↔ Fate claim w τ2 s := by
  have hcompleted : Completed (τ1 ++ τ2) ↔ Completed τ2 :=
    exists_append_iff fun c hc hP => (h c hc).not.2.2.2 hP.1
  have hunguarded : (∃ c ∈ τ1 ++ τ2, c.op.unguarded ∧ ¬ c.answered) ↔
      ∃ c ∈ τ2, c.op.unguarded ∧ ¬ c.answered :=
    exists_append_iff fun c hc hP => hP.2 ((h c hc).2 (.inl hP.1))
  unfold Fate Handled Stranding
  rw [published_append h, hcompleted, hunguarded, dropped_append h]

end Append

theorem fate_cons (h : Neutral c) : Fate claim w ([c] ++ τ2) s ↔ Fate claim w τ2 s :=
  fate_append (forall_mem_singleton.mpr h)

/-- Without an unguarded failure and without a reset nothing strands. -/
theorem fate_of_handled (hh : Handled claim.candidate.workerInstanceId τ s)
    (hunguarded : ∀ c ∈ τ, c.op.unguarded → c.answered)
    (hdropped : ¬ Dropped (some w) τ) : Fate claim w τ s := by
  refine ⟨fun _ => ?_, fun _ => hh⟩
  rintro (⟨c, hc, hop, hfail⟩ | hd)
  · exact hfail (hunguarded c hc hop)
  · exact hdropped hd

theorem not_dropped_of_no_reset (h : ∀ c ∈ τ, c.op.resetsClaim = false) : ¬ Dropped (some w) τ := by
  rintro ⟨⟨c, hc, hop, -⟩, -, -, -⟩
  exact Bool.false_ne_true ((h c hc).symm.trans hop)

/-- An unguarded failure leaves the execution hidden. -/
theorem fate_of_failure (hop : c.op.unguarded) (hfail : ¬ c.answered)
    (hv : ¬ Visible claim.candidate.workerInstanceId s) : Fate claim w [c] s := by
  refine ⟨?_, fun hs => absurd (.inl ⟨c, mem_singleton_self c, hop, hfail⟩) hs⟩
  rintro (⟨c', hc, -, hans⟩ | ⟨c', hc, -, hans⟩ | hvisible)
  · exact absurd (mem_singleton.mp hc ▸ hans) hfail
  · exact absurd (mem_singleton.mp hc ▸ hans) hfail
  · exact absurd hvisible hv

end Fate

/-! ### The row of a claimed execution -/

/-- What the recovery knows while it holds the claim. -/
structure Held (claim : RecoveryClaim) (w : WorkerData) (s : Store) : Prop where
  index : ∃ r, s.index = some r ∧ r.status = .running ∧ claim.owns r
  worker : s.worker = some w
  clock : 0 ≤ s.clock

/-- What it knows after it has reset the claim. -/
structure Released (claim : RecoveryClaim) (w : WorkerData) (s : Store) : Prop where
  index : ∃ r, s.index = some r ∧ r.status = .pending ∧ r.workerInstanceId = none ∧
    r.version = claim.claimedVersion + 1 ∧ r.deletedAt = none
  worker : s.worker = some w
  clock : 0 ≤ s.clock

/-- Calls that leave the row of a claimed execution alone: a deletion mark is
not set twice. -/
def Op.keepsClaim : Op → Bool
  | .now | .generateId | .findWorker | .findRecoveryResult _ | .createJobResult _ _ _ => true
  | .publishResult _ _ _ | .pushResult _ | .spawn _ | .markIndexDeleted | .deleteRow => true
  | .deleteKey | .deleteStatus | .grabRow _ _ => true
  | _ => false

section Rows

theorem Held.congr (h : Held claim w s) (hindex : s'.index = s.index)
    (hworker : s'.worker = s.worker) (hclock : s.clock ≤ s'.clock) : Held claim w s' :=
  ⟨hindex ▸ h.index, hworker.trans h.worker, h.clock.trans hclock⟩

theorem Released.congr (h : Released claim w s) (hindex : s'.index = s.index)
    (hworker : s'.worker = s.worker) (hclock : s.clock ≤ s'.clock) : Released claim w s' :=
  ⟨hindex ▸ h.index, hworker.trans h.worker, h.clock.trans hclock⟩

theorem clock_le_of_sem (h : sem ch op s = some (a, s')) : s.clock ≤ s'.clock := by
  rw [sem_clock h]
  exact le_add_of_nonneg_right (Int.natCast_nonneg _)

variable {r : StatusIndexRow} {instanceId : ℤ} {b : Except JobWorkerError ClaimOutcome}

theorem index_of_effect_keepsClaim (hop : op.keepsClaim)
    (hr : s.index = some r) (hdel : r.deletedAt.isSome) (h : effect ch op s = some (a, s')) :
    s'.index = s.index ∧ s'.worker = s.worker := by
  cases op <;> cases hop
  case markIndexDeleted =>
    cases h
    have hcond : r.deletedAt.isNone = false := by
      rw [← not_isSome, hdel]
      rfl
    refine ⟨?_, rfl⟩
    simp only [hr]
    rw [updateIndex_of_not hcond]
  case grabRow =>
    simp only [effect] at h
    split at h <;> cases h <;> exact ⟨rfl, rfl⟩
  all_goals
    cases h
    exact ⟨rfl, rfl⟩

/-- What a call leaves alone whenever it goes through, it leaves alone. -/
theorem index_of_sem (hsem : sem ch op s = some (a, s'))
    (hkeep : ∀ a', effect ch op (s.tick ch.tick) = some (a', s') →
      s'.index = s.index ∧ s'.worker = s.worker) :
    s'.index = s.index ∧ s'.worker = s.worker := by
  rcases sem_cases hsem with heff | ⟨-, rfl | ⟨a', heff⟩⟩
  · exact hkeep a heff
  · exact ⟨rfl, rfl⟩
  · exact hkeep a' heff

/-- A claim is held through the calls that leave its row alone. -/
theorem Held.step (h : Held claim w s) (hop : op.keepsClaim)
    (hsem : sem ch op s = some (a, s')) : Held claim w s' := by
  obtain ⟨r, hr, -, howns⟩ := h.index
  have hdel : r.deletedAt.isSome := by
    rw [(owns_iff.mp howns).2.2]
    rfl
  obtain ⟨hindex, hworker⟩ := index_of_sem hsem fun _ heff =>
    index_of_effect_keepsClaim (s := s.tick ch.tick) hop hr hdel heff
  exact h.congr hindex hworker (clock_le_of_sem hsem)

theorem undeleteIndex_of_live (h : r.deletedAt = none) :
    undeleteIndex now (some r) = some r := by
  have hcond : r.deletedAt.isSome = false := by
    rw [h]
    rfl
  unfold undeleteIndex
  rw [updateIndex_of_not hcond]

theorem index_of_effect_keepsRelease (hop : op.keepsRelease)
    (hr : s.index = some r) (hdel : r.deletedAt = none) (h : effect ch op s = some (a, s')) :
    s'.index = s.index ∧ s'.worker = s.worker := by
  cases op <;> cases hop
  case waitResult =>
    simp only [effect] at h
    split at h <;> cases h
    exact ⟨rfl, rfl⟩
  case resetIndexToPending =>
    cases h
    refine ⟨?_, rfl⟩
    simp only [hr]
    exact undeleteIndex_of_live hdel
  case upsertRow data resetIndex =>
    cases h
    refine ⟨?_, rfl⟩
    cases resetIndex with
    | false => rfl
    | true =>
      simp only [hr, if_true]
      exact undeleteIndex_of_live hdel
  all_goals
    cases h
    exact ⟨rfl, rfl⟩

/-- A released row stays as it is while the retry is published. -/
theorem Released.step (h : Released claim w s) (hop : op.keepsRelease)
    (hsem : sem ch op s = some (a, s')) : Released claim w s' := by
  obtain ⟨r, hr, -, -, -, hdel⟩ := h.index
  obtain ⟨hindex, hworker⟩ := index_of_sem hsem fun _ heff =>
    index_of_effect_keepsRelease (s := s.tick ch.tick) hop hr hdel heff
  exact h.congr hindex hworker (clock_le_of_sem hsem)

theorem visible_iff : Visible instanceId s ↔
    ∃ r, s.index = some r ∧ r.status = .running ∧ r.deletedAt = none ∧
      r.workerInstanceId = some instanceId := by
  unfold Visible runningCandidate
  cases hindex : s.index with
  | none => simp
  | some r =>
    by_cases hr : r.status = .running ∧ r.deletedAt.isNone ∧ r.workerInstanceId = some instanceId
    · simp only [if_pos hr, isSome_some, true_iff]
      exact ⟨r, rfl, hr.1, isNone_iff_eq_none.mp hr.2.1, hr.2.2⟩
    · simp only [if_neg hr, isSome_none, Bool.false_eq_true, false_iff]
      rintro ⟨r', heq, h1, h2, h3⟩
      obtain rfl := Option.some.inj heq
      exact hr ⟨h1, isNone_iff_eq_none.mpr h2, h3⟩

theorem Held.not_visible (h : Held claim w s) : ¬ Visible instanceId s := by
  intro hv
  obtain ⟨r, hr, -, howns⟩ := h.index
  obtain ⟨r', hr', -, hdel, -⟩ := visible_iff.mp hv
  obtain rfl := Option.some.inj (hr.symm.trans hr')
  cases hdel.symm.trans (owns_iff.mp howns).2.2

theorem Released.not_visible (h : Released claim w s) : ¬ Visible instanceId s := by
  intro hv
  obtain ⟨r, hr, hstatus, -⟩ := h.index
  obtain ⟨r', hr', hrunning, -⟩ := visible_iff.mp hv
  obtain rfl := Option.some.inj (hr.symm.trans hr')
  cases hstatus.symm.trans hrunning

/-- **`restore_running` makes the execution visible again.** -/
theorem Held.restore (h : Held claim w s)
    (hsem : compensating ch (.restoreRunning claim) s = some (b, s')) :
    Visible claim.candidate.workerInstanceId s' := by
  obtain ⟨r, hr, hstatus, howns⟩ := h.index
  rcases compensating_cases hsem with ⟨ch', heff⟩ | ⟨hbad, -⟩
  · cases heff
    refine visible_iff.mpr ⟨
      { r with
        deletedAt := none
        updatedAt := s.clock + ch.tick
        version := r.version + 1 }, ?_, hstatus, rfl, (owns_iff.mp howns).1⟩
    show (updateIndex s.index claim.owns _).2 = _
    rw [hr, updateIndex_of howns]
    rfl
  · cases hbad

/-- **So does `restore_pending_claim_to_running`, after a reset.** -/
theorem Released.restore (h : Released claim w s)
    (hsem : compensating ch (.restorePendingClaimToRunning claim) s = some (b, s')) :
    Visible claim.candidate.workerInstanceId s' := by
  obtain ⟨r, hr, hstatus, howner, hversion, hdel⟩ := h.index
  rcases compensating_cases hsem with ⟨ch', heff⟩ | ⟨hbad, -⟩
  · cases heff
    refine visible_iff.mpr ⟨
      { r with
        status := .running
        startTime := claim.candidate.startTime
        workerInstanceId := some claim.candidate.workerInstanceId
        updatedAt := s.clock + ch.tick
        version := r.version + 1 }, ?_, rfl, hdel, rfl⟩
    show (updateIndex s.index _ _).2 = _
    rw [hr, updateIndex_of]
    · rfl
    · simp [hstatus, howner, hversion, hdel]
  · cases hbad

/-- The reset of a held claim succeeds. -/
theorem Held.reset (h : Held claim w s)
    (hsem : compensating ch (.resetClaimToPending claim) s = some (.ok outcome, s')) :
    outcome = .claimed ∧ Released claim w s' := by
  obtain ⟨r, hr, hstatus, howns⟩ := h.index
  have hclock : s.clock ≤ s'.clock := clock_le_of_sem hsem
  obtain ⟨ch', heff⟩ := effect_of_compensating hsem
  cases heff
  have hreset : resetClaim (s.tick ch.tick).clock claim (s.tick ch.tick).index =
      (true, some (r.toPending (s.tick ch.tick).clock)) := by
    show updateIndex s.index claim.owns _ = _
    rw [hr, updateIndex_of howns]
  rw [hreset]
  refine ⟨rfl, ⟨_, rfl, rfl, rfl, ?_, rfl⟩, h.worker, h.clock.trans hclock⟩
  rw [← (owns_iff.mp howns).2.1]
  rfl

end Rows

/-! ### Parts of the recovery -/

section Parts

variable {α β : Type} {p : M α} {k : α → M β}

/-- A part of the recovery that runs under the claim. -/
def Recovers (claim : RecoveryClaim) (w : WorkerData) (p : M α) : Prop :=
  ∀ s τ res s', Held claim w s → p.Exec compensating s τ res s' → Fate claim w τ s'

variable {e : JobWorkerError}

theorem not_answered_of_error :
    ¬ (⟨op, .error e, s, s'⟩ : Call Op Resp JobWorkerError Store).answered := Bool.false_ne_true

theorem held_exec {res : Except JobWorkerError α} (hp : p.Calls (·.keepsClaim))
    (hs : Held claim w s) (h : p.Exec compensating s τ res s') : Held claim w s' :=
  h.invariant hp (fun _ _ _ _ _ hop hsem ht => ht.step hop hsem) hs

theorem recovers_restore : Recovers claim w (do
      (invoke (.restoreRunning claim)).ignore
      fail e : M β) := by
  intro s τ res s' hs h
  obtain ⟨τ1, u, s1, τ2, hrestore, ⟨rfl, -, rfl⟩, rfl⟩ := (neverFails_ignore _).exec_bind h
  obtain ⟨-, ans, hrestore⟩ := exec_ignore.mp hrestore
  obtain ⟨ch, hsem, rfl⟩ := exec_perform.mp hrestore
  refine fate_of_handled (.inr (.inr (hs.restore hsem))) ?_ (not_dropped_of_no_reset ?_)
  · intro c hc hop
    obtain rfl := mem_singleton.mp (append_nil _ ▸ hc)
    cases hop
  · intro c hc
    obtain rfl := mem_singleton.mp (append_nil _ ▸ hc)
    rfl

/-- **A step that is undone when it fails.** -/
theorem Recovers.orRestore (hp : p.Calls fun op => op.keepsClaim ∧ ∀ c, c.op = op → Neutral c)
    (hk : ∀ a, Recovers claim w (k a)) : Recovers claim w (orRestoreRunning claim p >>= k) := by
  intro s τ res s' hs h
  unfold orRestoreRunning at h
  rw [bind_assoc'] at h
  obtain ⟨τ1, r, s1, τ2, hexec, hrest, rfl⟩ := exec_attempt_bind h
  have hs1 : Held claim w s1 := held_exec (hp.mono fun _ h => h.1) hs hexec
  have hneutral : ∀ c ∈ τ1, Neutral c := fun c hc => (hexec.calls hp c hc).2 c rfl
  rw [fate_append hneutral]
  cases r with
  | ok a => exact hk a s1 τ2 res s' hs1 hrest
  | error e =>
    rw [bind_assoc'] at hrest
    exact recovers_restore s1 τ2 res s' hs1 hrest

/-- **A step that is not.** -/
theorem Recovers.unguarded {k : Resp op → M β} (hop : op.unguarded)
    (hkeep : op.keepsClaim) (hneutral : ∀ x s s', Neutral ⟨op, .ok x, s, s'⟩)
    (hk : ∀ a, Recovers claim w (k a)) : Recovers claim w (invoke op >>= k) := by
  intro s τ res s' hs h
  rcases exec_bind.mp h with ⟨e, hfail, -⟩ | ⟨τ1, a, s1, τ2, hcall, hrest, rfl⟩
  · obtain ⟨ch, hsem, rfl⟩ := exec_perform.mp hfail
    exact fate_of_failure hop not_answered_of_error (hs.step hkeep hsem).not_visible
  · obtain ⟨ch, hsem, rfl⟩ := exec_perform.mp hcall
    rw [fate_cons (hneutral a s s1)]
    exact hk a s1 τ2 res s' (hs.step hkeep hsem) hrest

theorem Recovers.now {k : ℤ → M β} (hk : ∀ a, Recovers claim w (k a)) :
    Recovers claim w (invoke .now >>= k) := by
  intro s τ res s' hs h
  rcases exec_bind.mp h with ⟨e, hfail, -⟩ | ⟨τ1, a, s1, τ2, hcall, hrest, rfl⟩
  · obtain ⟨ch, hsem, -⟩ := exec_perform.mp hfail
    cases hsem
  · obtain ⟨ch, hsem, rfl⟩ := exec_perform.mp hcall
    rw [fate_cons ⟨rfl, fun _ => rfl⟩]
    exact hk a s1 τ2 res s' (hs.step rfl hsem) hrest

/-- **The last step, when it publishes or completes.** -/
theorem Recovers.final {p : M Unit}
    (hcalls : p.Calls fun op => op.unguarded = false ∧ op.resetsClaim = false)
    (hheld : ∀ s τ e s', Held claim w s → p.Exec compensating s τ (.error e) s' →
      Held claim w s')
    (hdone : ∀ s τ s', p.Exec compensating s τ (.ok ()) s' → Published τ ∨ Completed τ) :
    Recovers claim w (orRestoreRunning claim p) := by
  intro s τ res s' hs h
  have hcalls' : (orRestoreRunning claim p).Calls
      fun op => op.unguarded = false ∧ op.resetsClaim = false :=
    calls_orRestoreRunning hcalls ⟨rfl, rfl⟩
  have hfate (hh : Handled claim.candidate.workerInstanceId τ s') : Fate claim w τ s' := by
    refine fate_of_handled hh (fun c hc hop => ?_)
      (not_dropped_of_no_reset fun c hc => (h.calls hcalls' c hc).2)
    rw [(h.calls hcalls' c hc).1] at hop
    cases hop
  obtain ⟨τ1, r, s1, τ2, hexec, hrest, rfl⟩ := exec_attempt_bind h
  apply hfate
  cases r with
  | ok a =>
    obtain ⟨rfl, -, rfl⟩ := hrest
    rw [append_nil]
    exact (hdone s τ1 s' hexec).elim .inl fun hc => .inr (.inl hc)
  | error e =>
    obtain ⟨τ3, u, s2, τ4, hrestore, ⟨-, -, rfl⟩, -⟩ := (neverFails_ignore _).exec_bind hrest
    obtain ⟨-, ans, hrestore⟩ := exec_ignore.mp hrestore
    obtain ⟨ch, hsem, -⟩ := exec_perform.mp hrestore
    exact .inr (.inr ((hheld s τ1 e s1 hs hexec).restore hsem))

end Parts

/-! ### Without a queue: the RDB table, and completion -/

section Final

/-- An upsert that fails has written nothing. -/
theorem held_of_upsertRowWithClaim {data : JobData} (hs : Held claim w s)
    (h : compensating ch (.upsertRowWithClaim claim data) s = some (.error e, s')) :
    Held claim w s' := by
  have hclock : s.clock ≤ s'.clock := clock_le_of_sem h
  rcases compensating_cases h with ⟨ch', heff⟩ | ⟨-, -, -, rfl⟩
  · simp only [effect] at heff
    split at heff <;> cases heff
    exact hs.congr rfl rfl hclock
  · exact hs.congr rfl rfl hclock

theorem recovers_upsertRowWithClaim (data : JobData) : Recovers claim w
      (orRestoreRunning claim (invoke (.upsertRowWithClaim claim data)).discard) := by
  refine Recovers.final (Calls.perform ⟨rfl, rfl⟩).discard ?_ ?_
  · intro s τ e s' hs h
    rcases exec_bind.mp h with ⟨e', hfail, -⟩ | ⟨τ1, a, s1, τ2, -, ⟨-, hbad, -⟩, -⟩
    · obtain ⟨ch, hsem, -⟩ := exec_perform.mp hfail
      exact held_of_upsertRowWithClaim hs hsem
    · cases hbad
  · intro s τ s' h
    obtain ⟨τ1, a, s1, τ2, hcall, ⟨rfl, -, -⟩, rfl⟩ := exec_bind_ok h
    obtain ⟨ch, -, rfl⟩ := exec_perform.mp hcall
    exact .inl ⟨_, mem_cons_self, rfl, rfl⟩

/-- A program that returns only after it has deleted the live record. -/
abbrev Deletes {α : Type} (p : M α) : Prop :=
  p.ReturnsAfter compensating fun c => c.op = .deleteStatus ∧ c.answered

theorem deletes_deleteStatus : Deletes deleteStatus :=
  returnsAfter_perform fun _ _ _ => ⟨rfl, rfl⟩

theorem Hybrid.deletes_cleanupJob : Deletes (Hybrid.cleanupJob app) :=
  .after fun _ => .after fun _ => .after fun _ => deletes_deleteStatus.bind

theorem RdbChan.deletes_cleanupJob : Deletes (RdbChan.cleanupJob app) :=
  .after fun _ => .after fun _ => deletes_deleteStatus.bind

theorem deletes_cleanupJob : Deletes (cleanupJob app) := by
  unfold cleanupJob
  split
  · exact Hybrid.deletes_cleanupJob
  · exact RdbChan.deletes_cleanupJob

theorem deletes_finishCompletion (data : JobResultData) :
    Deletes (finishCompletion app data false) :=
  .after fun _ => deletes_cleanupJob

variable {id : JobResultId} {data : JobResultData}

/-- **A completed job has lost its live record.** -/
theorem deletes_completeJob
    (hid : data.jobId.isSome) : Deletes (completeJob app id data false) := by
  obtain ⟨jid, hjid⟩ := isSome_iff_exists.mp hid
  unfold completeJob
  split
  · unfold Hybrid.completeJob
    rw [hjid]
    dsimp only
    split
    · exact .after fun _ => .after fun _ => (deletes_finishCompletion data).bind
    · exact .after fun _ => (deletes_finishCompletion data).bind
    · exact Hybrid.deletes_cleanupJob.bind
  · unfold RdbChan.completeJob
    rw [hjid]
    dsimp only
    split
    · exact .after fun _ => (deletes_finishCompletion data).bind
    · exact RdbChan.deletes_cleanupJob.bind

theorem CompletionOp.keepsClaim (h : CompletionOp op) :
    op.keepsClaim ∧ op.unguarded = false ∧ op.resetsClaim = false := by
  cases op <;> first | exact ⟨rfl, rfl, rfl⟩ | exact h.elim

theorem recovers_completeJob (hid : data.jobId.isSome) :
    Recovers claim w (orRestoreRunning claim (completeJob app id data false).discard) := by
  have hcalls := (calls_completeJob app id data false).discard
  refine Recovers.final (hcalls.mono fun _ h => h.keepsClaim.2) ?_ ?_
  · intro s τ e s' hs h
    exact held_exec (hcalls.mono fun _ h => h.keepsClaim.1) hs h
  · intro s τ s' h
    exact .inr ((deletes_completeJob hid).bind s τ () s' h)

end Final

/-! ### Through a queue -/

section Queue

variable {job : Job} {data : JobData}

variable {streamingType : StreamingType} {use : Bool}
  {r : Except JobWorkerError (Except JobWorkerError Bool)} {res : Except JobWorkerError Unit}
  {publish : Job → JobData → WorkerData → M Unit} {jid : JobId} {wid : WorkerId}

/-- A program that returns only after it has published the retry. -/
abbrev Publishes {α : Type} (p : M α) : Prop :=
  p.ReturnsAfter compensating fun c => c.op.publishesRetry ∧ c.answered

theorem publishes_pushToRedis : Publishes (pushToRedis app job false) := by
  refine ReturnsAfter.after fun isRunAfter => ?_
  split
  · exact ReturnsAfter.attempt_bind (returnsAfter_perform fun _ _ _ => ⟨rfl, rfl⟩)
      fun e => returnsAfter_fail _
  · exact returnsAfter_perform fun _ _ _ => ⟨rfl, rfl⟩

theorem publishes_enqueueToRedis :
    Publishes (enqueueJobToRedisWithWaitIfNeeded app job w streamingType false .retry) := by
  refine ReturnsAfter.after fun isRunAfter => ReturnsAfter.after fun _ => ?_
  refine ReturnsAfter.after fun _ => publishes_pushToRedis.attempt_bind fun e => ?_
  exact ReturnsAfter.after fun _ => returnsAfter_fail _

theorem publishes_enqueueToChannel :
    Publishes (enqueueJobSyncEnqueueOnly app job false .retry) := by
  refine ReturnsAfter.after fun isRunAfter => ?_
  split
  · exact returnsAfter_fail _
  · refine ReturnsAfter.after fun _ => ?_
    exact (returnsAfter_perform fun _ _ _ => ⟨rfl, rfl⟩).attempt_bind fun e =>
      ReturnsAfter.after fun _ => returnsAfter_fail _

/-- What `update_job` reports: a success without a publication needs the
worker and, for a WithBackup worker, its row; an error needs that one of these
is missing. -/
structure Reported (w : WorkerData) (τ : Trace) (res : Except JobWorkerError Unit) : Prop where
  ok : res = .ok () → (¬ ∃ c ∈ τ, c.op = .findWorker ∧ ¬ c.answered) ∧
    (Published τ ∨ (w.queueType = QueueType.withBackup.toI32 → ∃ c ∈ τ, c.op.backsUp ∧ c.answered))
  error : ∀ e, res = .error e → Published τ ∨ (∃ c ∈ τ, c.op = .findWorker ∧ ¬ c.answered) ∨
    w.queueType = QueueType.withBackup.toI32 ∧ ¬ ∃ c ∈ τ, c.op.backsUp ∧ c.answered

theorem useRdbQueue_iff (hw : w.isRdbOnly = false) :
    useRdbQueue false w = true ↔ w.queueType = QueueType.withBackup.toI32 := by
  unfold WorkerData.isRdbOnly at hw
  rw [Bool.or_eq_false_iff] at hw
  unfold useRdbQueue
  rw [Bool.false_or, hw.1, hw.2, Bool.or_self, Bool.false_or, decide_eq_true_iff]

theorem useInstantQueue_of_backup (hw : w.isRdbOnly = false)
    (hq : w.queueType = QueueType.withBackup.toI32) : useInstantQueue false w = true := by
  unfold WorkerData.isRdbOnly at hw
  rw [Bool.or_eq_false_iff, decide_eq_false_iff_not] at hw
  have hperiodic : w.periodicInterval = 0 := by
    by_contra hne
    exact hw.1 (UInt32.pos_iff_ne_zero.mpr hne)
  simp [useInstantQueue, hperiodic, hq]

/-- The row half: it reports the backup row, or nothing. -/
theorem report_updateRdbQueue (h : (updateRdbQueue app data use).Exec compensating s τ r s') :
    ∃ resDb, r = .ok resDb ∧ (∀ c ∈ τ, c.op ≠ .findWorker) ∧
      (use = false → ∃ b, resDb = .ok b) ∧
      (use = true → ((∃ b, resDb = .ok b) ↔ ∃ c ∈ τ, c.op.backsUp ∧ c.answered)) := by
  cases use with
  | true =>
    have hattempt : (invoke (.upsertRow data app.indexing)).attempt.Exec compensating
      s τ r s' := h
    obtain ⟨res, rfl, hupsert⟩ := exec_attempt.mp hattempt
    obtain ⟨ch, -, rfl⟩ := exec_perform.mp hupsert
    refine ⟨res, rfl, ?_, nofun, fun _ => ?_⟩
    · intro c hc
      obtain rfl := mem_singleton.mp hc
      nofun
    · cases res with
      | ok b => exact ⟨fun _ => ⟨_, mem_cons_self, rfl, rfl⟩, fun _ => ⟨b, rfl⟩⟩
      | error e =>
        refine ⟨fun ⟨b, hbad⟩ => (nomatch hbad), fun ⟨c, hc, _, hans⟩ => ?_⟩
        obtain rfl := mem_singleton.mp hc
        cases hans
  | false =>
    have hcalls : (updateRdbQueue app data false).Calls (· ≠ .findWorker) :=
      (calls_bestEffortIndex nofun).bind fun _ => by trivial
    rcases exec_bind.mp h with ⟨e, hindex, -⟩ | ⟨τ1, u, s1, τ2, -, ⟨-, rfl, -⟩, -⟩
    · cases exec_bestEffortIndex hindex
    exact ⟨_, rfl, h.calls hcalls, fun _ => ⟨false, rfl⟩, nofun⟩

/-- The queue half: it reports a publication, or nothing. -/
theorem report_updateInstantQueue {publish : M Unit}
    (hcalls : publish.Calls (·.queues)) (hpublish : Publishes publish)
    (h : (updateInstantQueue publish use).Exec compensating s τ r s') :
    ∃ resQueue, r = .ok resQueue ∧ (∀ c ∈ τ, c.op.queues) ∧
      (use = true → (∃ b, resQueue = .ok b) → Published τ) := by
  cases use with
  | false =>
    obtain ⟨rfl, rfl, -⟩ := h
    exact ⟨_, rfl, fun _ hc => (nomatch hc), nofun⟩
  | true =>
    obtain ⟨τ1, published, s1, τ2, hexec, hret, rfl⟩ := exec_attempt_bind h
    cases published with
    | ok u =>
      obtain ⟨rfl, rfl, -⟩ := hret
      rw [append_nil]
      exact ⟨_, rfl, hexec.calls hcalls, fun _ _ => hpublish s τ1 u s1 hexec⟩
    | error e =>
      obtain ⟨rfl, rfl, -⟩ := hret
      rw [append_nil]
      exact ⟨_, rfl, hexec.calls hcalls, fun _ ⟨b, hbad⟩ => nomatch hbad⟩

theorem ne_of_queues (h : op.queues) : op ≠ .findWorker ∧ ¬ op.backsUp := by
  cases op <;> cases h <;> exact ⟨nofun, nofun⟩

theorem report_halves {publish : M Unit} (hcalls : publish.Calls (·.queues))
    (hpublish : Publishes publish) (hw : w.isRdbOnly = false) (h : (do
      let resDb ← updateRdbQueue app data (useRdbQueue false w)
      let resQueue ← updateInstantQueue publish (useInstantQueue false w)
      match resultOr resQueue resDb with
      | .ok _ => pure ()
      | .error e => fail e : M Unit).Exec compensating s τ res s') : Reported w τ res := by
  obtain ⟨τ1, resDb, s1, τ2, hdb, h1, rfl⟩ := NeverFails.exec_bind (fun _ _ _ _ h =>
    (report_updateRdbQueue h).imp fun _ h => h.1) h
  obtain ⟨resDb', heqDb, hother1, hunused, hbackup⟩ := report_updateRdbQueue hdb
  obtain rfl := Except.ok.inj heqDb
  obtain ⟨τ3, resQueue, s2, τ4, hq, h2, rfl⟩ := NeverFails.exec_bind (fun _ _ _ _ h =>
    (report_updateInstantQueue hcalls hpublish h).imp fun _ h => h.1) h1
  obtain ⟨resQueue', heqQueue, hother3, hpublished⟩ :=
    report_updateInstantQueue hcalls hpublish hq
  obtain rfl := Except.ok.inj heqQueue
  rw [useRdbQueue_iff hw] at hbackup
  have hlast : τ4 = [] := by
    rcases hor : resultOr resQueue resDb with e | b <;> rw [hor] at h2 <;> exact h2.1
  subst hlast
  rw [append_nil]
  constructor
  · intro hok
    refine ⟨?_, ?_⟩
    · rintro ⟨c, hc, hop, -⟩
      rcases mem_append.mp hc with hc | hc
      · exact hother1 c hc hop
      · exact (ne_of_queues (hother3 c hc)).1 hop
    rcases resQueue with e | b
    · -- the queue half failed, so the row half has been reported
      refine .inr fun hq => ?_
      rcases resDb with e' | b'
      · cases hok.symm.trans h2.2.1
      · obtain ⟨c, hc, hop⟩ := (hbackup hq).mp ⟨b', rfl⟩
        exact ⟨c, mem_append_left _ hc, hop⟩
    · by_cases hq : w.queueType = QueueType.withBackup.toI32
      · obtain ⟨c, hc, hop⟩ := hpublished (useInstantQueue_of_backup hw hq) ⟨b, rfl⟩
        exact .inl ⟨c, mem_append_right _ hc, hop⟩
      · exact .inr fun hq' => absurd hq' hq
  · intro e herror
    rcases resQueue with e' | b
    · rcases resDb with e'' | b'
      · refine .inr (.inr ?_)
        have hq : w.queueType = QueueType.withBackup.toI32 := by
          by_contra hne
          obtain ⟨b, hbad⟩ :=
            hunused (Bool.eq_false_iff.mpr fun huse => hne ((useRdbQueue_iff hw).mp huse))
          cases hbad
        refine ⟨hq, ?_⟩
        rintro ⟨c, hc, hop, hans⟩
        rcases mem_append.mp hc with hc | hc
        · obtain ⟨b, hbad⟩ := (hbackup hq).mpr ⟨c, hc, hop, hans⟩
          cases hbad
        · exact absurd hop (ne_of_queues (hother3 c hc)).2
      · cases herror.symm.trans h2.2.1
    · cases herror.symm.trans h2.2.1

theorem reported_cons (hc : Neutral c) (h : Reported w τ res) : Reported w ([c] ++ τ) res := by
  have hc := forall_mem_singleton.mpr hc
  constructor <;> rw [found_append hc, backup_append hc, published_append hc]
  · exact h.ok
  · exact h.error

theorem ne_of_keepsRelease (h : op.keepsRelease) : ¬ op.unguarded ∧ op ≠ .deleteStatus := by
  cases op <;> cases h <;> exact ⟨nofun, nofun⟩

/-- The outcome once the claim has been reset: `update_job` reports a success,
or its failure is undone. -/
theorem fate_of_report
    (hreset : reset.op.resetsClaim) (hanswered : reset.answered)
    (hcalls : ∀ c ∈ τ, c.op.keepsRelease) (hreport : Reported w τ res)
    (hok : res = .ok () → τ' = [] ∧ ¬ Visible claim.candidate.workerInstanceId s)
    (herror : ∀ e, res = .error e → (∀ c ∈ τ', c.op.restores) ∧
      Visible claim.candidate.workerInstanceId s) :
    Fate claim w ([reset] ++ (τ ++ τ')) s := by
  have hresetOp : ¬ reset.op.backsUp ∧ reset.op ≠ .findWorker ∧ reset.op ≠ .deleteStatus := by
    obtain ⟨op, ans, pre, post⟩ := reset
    cases op <;> cases hreset
    exact ⟨nofun, nofun, nofun⟩
  have hmem {c} : c ∈ [reset] ++ (τ ++ τ') ↔ c = reset ∨ c ∈ τ ∨ c ∈ τ' := by
    rw [mem_append, mem_append, mem_singleton]
  have hpublished : Published τ → Published ([reset] ++ (τ ++ τ')) :=
    fun ⟨c, hc, hop⟩ => ⟨c, hmem.mpr (.inr (.inl hc)), hop⟩
  cases res with
  | ok u =>
    obtain ⟨rfl, hv⟩ := hok rfl
    obtain ⟨hfound, hqueue⟩ := hreport.ok rfl
    have hunguarded : ¬ ∃ c ∈ [reset] ++ (τ ++ []), c.op.unguarded ∧ ¬ c.answered := by
      rintro ⟨c, hc, hop, hfail⟩
      rcases hmem.mp hc with rfl | hc | hc
      · exact hfail hanswered
      · exact absurd hop (ne_of_keepsRelease (hcalls c hc)).1
      · cases hc
    constructor
    · rintro (hp | ⟨c, hc, hop, -⟩ | hv')
      · exact fun hs => hs.elim hunguarded fun hd => hd.unpublished hp
      · rcases hmem.mp hc with rfl | hc | hc
        · exact absurd hop hresetOp.2.2
        · exact absurd hop (ne_of_keepsRelease (hcalls c hc)).2
        · cases hc
      · exact absurd hv' hv
    · intro hs
      by_contra hh
      have hunpublished : ¬ Published ([reset] ++ (τ ++ [])) := fun hp => hh (.inl hp)
      refine hs (.inr ⟨⟨reset, hmem.mpr (.inl rfl), hreset, hanswered⟩, ?_, ?_, hunpublished⟩)
      · rintro ⟨c, hc, hop, hfail⟩
        rcases hmem.mp hc with rfl | hc | hc
        · exact hresetOp.2.1 hop
        · exact hfound ⟨c, hc, hop, hfail⟩
        · cases hc
      · intro v hv hq
        obtain rfl := Option.some.inj hv
        obtain ⟨c, hc, hop⟩ := hqueue.resolve_left (fun hp => hunpublished (hpublished hp)) hq
        exact ⟨c, hmem.mpr (.inr (.inl hc)), hop⟩
  | error e =>
    obtain ⟨hrestores, hv⟩ := herror e rfl
    have hrestoreOp : ∀ c ∈ τ', ¬ c.op.unguarded ∧ ¬ c.op.backsUp := by
      intro c hc
      have hop := hrestores c hc
      obtain ⟨op, ans, pre, post⟩ := c
      cases op <;> cases hop <;> exact ⟨nofun, nofun⟩
    refine fate_of_handled (.inr (.inr hv)) ?_ ?_
    · intro c hc hop
      rcases hmem.mp hc with rfl | hc | hc
      · exact hanswered
      · exact absurd hop (ne_of_keepsRelease (hcalls c hc)).1
      · exact absurd hop (hrestoreOp c hc).1
    · rintro ⟨-, hfound, hbackup, hunpublished⟩
      rcases hreport.error e rfl with hp | ⟨c, hc, hop⟩ | ⟨hq, hrow⟩
      · exact hunpublished (hpublished hp)
      · exact hfound ⟨c, hmem.mpr (.inr (.inl hc)), hop⟩
      · obtain ⟨c, hc, hop, hans⟩ := hbackup w rfl hq
        rcases hmem.mp hc with rfl | hc | hc
        · exact hresetOp.1 hop
        · exact hrow ⟨c, hc, hop, hans⟩
        · exact (hrestoreOp c hc).2 hop

section Due

variable (hid : job.id = some jid) (hdata : job.data = some data)
  (hwid : data.workerId = some wid) (hdue : data.runAfterTime ≤ 0) (hw : w.isRdbOnly = false)

include hid hdata hwid hdue hw

/-- The common body of the two `update_job`s, for a retry that is due. -/
theorem report_updateJobWith (hcalls : ∀ job data w, (publish job data w).Calls (·.queues))
    (hpublish : ∀ job data w, Publishes (publish job data w)) (hs : Released claim w s)
    (h : (updateJobWith app publish job).Exec compensating s τ res s') : Reported w τ res := by
  unfold updateJobWith at h
  rw [hid, hdata] at h
  dsimp only at h
  rcases exec_bind.mp h with ⟨e, hafter, -⟩ | ⟨τ1, isRunAfter, s1, τ2, hafter, h1, rfl⟩
  · obtain ⟨_, _, _, _, hbad⟩ := exec_isRunAfterJobData hafter fun _ _ => rfl
    cases hbad
  obtain ⟨now, hnow, hs1, rfl, heq⟩ := exec_isRunAfterJobData hafter fun _ _ => rfl
  have hinstant : isRunAfter = false := by
    rw [Except.ok.inj heq, decide_eq_false_iff_not]
    have hclock := hs.clock
    have hinterval : 0 ≤ (app.fetchInterval.toNat : ℤ) := Int.natCast_nonneg _
    omega
  subst hinstant
  obtain ⟨τ3, found, s2, τ4, hfind, h2, rfl⟩ := exec_attempt_bind h1
  rw [hwid] at hfind
  obtain ⟨ch, hsem, rfl⟩ := exec_perform.mp hfind
  refine reported_cons ⟨rfl, fun _ => rfl⟩ ?_
  rcases found with e | worker
  · -- the lookup failed
    obtain ⟨rfl, rfl, -⟩ := h2
    exact ⟨nofun, fun _ _ => .inr (.inl ⟨_, mem_cons_self, rfl, nofun⟩)⟩
  · obtain rfl : worker = some w := by
      obtain ⟨ch', heff⟩ := effect_of_compensating hsem
      cases heff
      exact (congrArg Store.worker hs1).trans hs.worker
    exact reported_cons ⟨rfl, fun _ => rfl⟩ (report_halves (hcalls _ _ _) (hpublish _ _ _) hw h2)

/-- **What `update_job` reports about a retry that is due.** -/
theorem report_updateJob (hs : Released claim w s)
    (h : (updateJob app job).Exec compensating s τ res s') : Reported w τ res := by
  unfold updateJob at h
  split at h
  · exact report_updateJobWith hid hdata hwid hdue hw (fun _ _ _ => queues_enqueueToRedis.discard)
      (fun _ _ _ => publishes_enqueueToRedis.bind) hs h
  · exact report_updateJobWith hid hdata hwid hdue hw (fun _ _ _ => queues_enqueueToChannel)
      (fun _ _ _ => publishes_enqueueToChannel) hs h

/-- **The publication through a queue.** -/
theorem recovers_publishToQueue : Recovers claim w (publishToQueue app claim job) := by
  intro s τ res s' hs h
  rcases exec_bind.mp h with ⟨e, hfail, -⟩ | ⟨τ1, outcome, s1, τ2, hreset, h1, rfl⟩
  · obtain ⟨ch, hsem, rfl⟩ := exec_perform.mp hfail
    have hclock : s.clock ≤ s'.clock := clock_le_of_sem hsem
    have hheld : Held claim w s' := by
      rcases compensating_cases hsem with ⟨ch', heff⟩ | ⟨-, -, -, rfl⟩
      · cases heff
      · exact hs.congr rfl rfl hclock
    exact fate_of_failure rfl not_answered_of_error hheld.not_visible
  obtain ⟨ch, hsem, rfl⟩ := exec_perform.mp hreset
  obtain ⟨rfl, hs1⟩ := hs.reset hsem
  obtain ⟨τ3, r, s2, τ4, hupdate, h2, rfl⟩ := exec_attempt_bind h1
  have hs2 : Released claim w s2 := hupdate.invariant calls_updateJob
    (fun _ _ _ _ _ hop hsem ht => ht.step hop hsem) hs1
  refine fate_of_report rfl rfl (hupdate.calls calls_updateJob)
    (report_updateJob hid hdata hwid hdue hw hs1 hupdate) ?_ ?_
  · rintro rfl
    obtain ⟨rfl, -, rfl⟩ := h2
    exact ⟨rfl, hs2.not_visible⟩
  · rintro e rfl
    obtain ⟨τ5, u, s3, τ6, hrestore, ⟨rfl, -, rfl⟩, rfl⟩ := (neverFails_ignore _).exec_bind h2
    obtain ⟨-, ans, hrestore⟩ := exec_ignore.mp hrestore
    obtain ⟨ch', hsem', rfl⟩ := exec_perform.mp hrestore
    refine ⟨fun c hc => ?_, hs2.restore hsem'⟩
    obtain rfl := mem_singleton.mp (append_nil _ ▸ hc)
    rfl

end Due

end Queue

/-! ### The recovery of a claimed execution -/

section Claimed

variable {data : JobData}

theorem recovers_publishRetry {retryData : JobData} (hwid : retryData.workerId = some wid) :
    Recovers claim w (publishRetry app claim data w ⟨some jid, some retryData, md⟩) := by
  unfold publishRetry
  dsimp only
  split
  · exact recovers_upsertRowWithClaim retryData
  · rename_i hqueue
    rw [not_or, not_lt, Bool.not_eq_true] at hqueue
    split
    · refine Recovers.unguarded rfl rfl (fun _ _ _ => ⟨rfl, fun _ => rfl⟩) fun lease => ?_
      split
      · exact recovers_restore
      · exact recovers_publishToQueue rfl rfl hwid hqueue.1 hqueue.2
    · exact recovers_publishToQueue rfl rfl hwid hqueue.1 hqueue.2

theorem recovers_saveLostResult {id : JobResultId} {result : JobResultData}
    {saved : Bool} {k : Unit → M β} (hk : ∀ u, Recovers claim w (k u)) :
    Recovers claim w (saveLostResult claim id result saved >>= k) := by
  cases saved with
  | true => exact hk ()
  | false =>
    refine Recovers.orRestore (Calls.perform ⟨rfl, fun c hc => ?_⟩) hk
    rw [Neutral, hc]
    exact ⟨rfl, nofun⟩

/-- **Every claimed execution meets the fate its calls say.** -/
theorem recovers_recoverClaimed (md : Metadata) :
    Recovers claim w (recoverClaimed app claim data w md) := by
  refine Recovers.now fun now => ?_
  dsimp only
  split
  · rename_i job hjob
    obtain ⟨-, policy, -, -, retryData, rfl, hwid, -⟩ := buildRetryJob_eq_some hjob
    refine Recovers.orRestore (Calls.perform ⟨rfl, fun c hc => ?_⟩) fun saved => ?_
    · rw [Neutral, hc]
      exact ⟨rfl, nofun⟩
    refine Recovers.unguarded rfl rfl (fun _ _ _ => ⟨rfl, fun _ => rfl⟩) fun id => ?_
    exact recovers_saveLostResult fun _ => recovers_publishRetry hwid
  · refine Recovers.unguarded rfl rfl (fun _ _ _ => ⟨rfl, fun _ => rfl⟩) fun id => ?_
    exact recovers_saveLostResult fun _ => recovers_completeJob rfl

end Claimed

/-! ### The candidates of a batch -/

section Candidate

variable {x : ExpiredInstance} {unboundedAfter : ℤ} {candidate : RunningStatusCandidate}

/-- A call that claims an execution. -/
def takesClaim : Call Op Resp JobWorkerError Store → Bool
  | ⟨.claimRunning _, .ok (some _), _, _⟩ => true
  | _ => false

/-- The calls before the claim, except the look-up of the worker. -/
def Op.scouts : Op → Bool
  | .refreshRecoveryLock | .findKey | .findRow | .createKey _ | .now => true
  | _ => false

/-- What precedes the claim decides nothing. -/
theorem scout {α β : Type} {p : M α} {k : α → M β} {res : Except JobWorkerError β}
    (hp : p.Calls (·.scouts)) (h : (p >>= k).Exec compensating s τ res s')
    (hclaimed : ∃ c ∈ τ, takesClaim c) :
    ∃ τ1 a s1 τ2, (k a).Exec compensating s1 τ2 res s' ∧ τ = τ1 ++ τ2 ∧
      (∃ c ∈ τ2, takesClaim c) ∧ (∀ c ∈ τ1, Neutral c) ∧ s1.worker = s.worker ∧
      s.clock ≤ s1.clock := by
  have hC (c : Call Op Resp JobWorkerError Store) (hop : c.op.scouts) :
      ¬ takesClaim c ∧ Neutral c := by
    obtain ⟨op, ans, pre, post⟩ := c
    cases op <;> cases hop <;> exact ⟨Bool.false_ne_true, rfl, nofun⟩
  obtain ⟨τ1, a, s1, τ2, hexec, hrest, rfl, hlater⟩ :=
    h.past hp (fun c hop => (hC c hop).1) hclaimed
  have hkeep := hexec.invariant (I := fun t => t.worker = s.worker ∧ s.clock ≤ t.clock) hp
    (fun op ch ans t t' hop hsem ht => ?_) ⟨rfl, le_refl _⟩
  · exact ⟨τ1, a, s1, τ2, hrest, rfl, hlater, fun c hc => (hC c (hexec.calls hp c hc)).2,
      hkeep.1, hkeep.2⟩
  · have htable : op.table ≠ .worker := by
      cases op <;> cases hop <;> nofun
    exact ⟨(sem_worker hsem htable).trans ht.1, ht.2.trans (clock_le_of_sem hsem)⟩

theorem scouts_findJob : (findJob app).Calls (·.scouts) := by
  unfold findJob
  split
  · refine (Calls.perform (by rfl)).attempt.bind fun key => ?_
    split
    · trivial
    · refine (Calls.perform (by rfl)).attempt.bind fun row => ?_
      split
      · exact (Calls.perform (by rfl)).ignore.bind fun _ => by trivial
      · trivial
  · exact .perform (by rfl)

theorem held_of_claimRunning
    (hworker : s.worker = some w) (hclock : 0 ≤ s.clock)
    (h : compensating ch (.claimRunning candidate) s = some (.ok (some claim), s')) :
    claim.candidate = candidate ∧ Held claim w s' := by
  have hclock' : 0 ≤ s'.clock := hclock.trans (clock_le_of_sem h)
  obtain ⟨ch', heff⟩ := effect_of_compensating h
  obtain ⟨hclaim, rfl⟩ := answer_eq heff
  split at hclaim
  · rename_i htaken
    cases hclaim
    refine ⟨rfl, ?_, hworker, hclock'⟩
    obtain ⟨r, -, hcond, hafter⟩ := updateIndex_taken htaken
    rw [decide_eq_true_iff] at hcond
    exact ⟨_, hafter, hcond.2.2.1, owns_iff.mpr ⟨hcond.1, congrArg (· + 1) hcond.2.1, rfl⟩⟩
  · cases hclaim

theorem handled_of_claim {data : JobData} (hclock : 0 ≤ s.clock) (h : (do
      match ← invoke .findWorker with
      | none => pure ()
      | some w =>
        match ← invoke (.claimRunning candidate) with
        | none => pure ()
        | some claim => recoverClaimed app claim data w [] : M Unit).Exec compensating s τ res s')
    (hclaimed : ∃ c ∈ τ, takesClaim c) :
    ∃ claim w, claim.candidate = candidate ∧ s.worker = some w ∧ Fate claim w τ s' := by
  obtain ⟨τ1, worker, s1, τ2, hfind, h1, rfl, hlater⟩ :=
    h.past (.perform (C := (· = .findWorker)) rfl) (fun c hop htakes => by
      obtain ⟨op, ans, pre, post⟩ := c
      cases hop
      cases htakes) hclaimed
  obtain ⟨ch1, hsem1, rfl⟩ := exec_perform.mp hfind
  have hworker : s.worker = worker := by
    obtain ⟨ch', heff⟩ := effect_of_compensating hsem1
    exact (answer_eq heff).1
  cases worker with
  | none =>
    obtain ⟨rfl, -, -⟩ := h1
    exact absurd hlater (by simp)
  | some w =>
    rcases exec_bind.mp h1 with ⟨e, hfail, -⟩ | ⟨τ3, taken, s2, τ4, hclaim, h2, rfl⟩
    · obtain ⟨ch2, -, rfl⟩ := exec_perform.mp hfail
      exact absurd hlater (by simp [takesClaim])
    obtain ⟨ch2, hsem2, rfl⟩ := exec_perform.mp hclaim
    cases taken with
    | none =>
      obtain ⟨rfl, -, -⟩ := h2
      exact absurd hlater (by simp [takesClaim])
    | some claim =>
      have hworker1 : s1.worker = some w := (sem_worker hsem1 nofun).trans hworker
      have hclock1 : 0 ≤ s1.clock := hclock.trans (clock_le_of_sem hsem1)
      obtain ⟨hcandidate, hheld⟩ := held_of_claimRunning hworker1 hclock1 hsem2
      have hfate := recovers_recoverClaimed [] s2 τ4 res s' hheld h2
      refine ⟨claim, w, hcandidate, hworker, (fate_cons ⟨rfl, fun _ => rfl⟩).mpr ?_⟩
      exact (fate_cons ⟨rfl, fun _ => rfl⟩).mpr hfate

/-- **The fate of one candidate.** -/
theorem handled_of_candidate {res : Except JobWorkerError Unit} (hclock : 0 ≤ s.clock)
    (h : (recoverCandidate app x unboundedAfter candidate).Exec compensating s τ res s')
    (hclaimed : ∃ c ∈ τ, takesClaim c) :
    Handled candidate.workerInstanceId τ s' ↔ ¬ Stranding s.worker τ := by
  obtain ⟨τ1, locked, s1, τ2, h1, rfl, hlater1, hneutral1, hworker1, hclock1⟩ :=
    scout (.perform (by rfl)) h hclaimed
  cases locked with
  | false =>
    obtain ⟨rfl, -, -⟩ := h1
    exact absurd hlater1 (by simp)
  | true =>
    obtain ⟨τ3, found, s2, τ4, h2, rfl, hlater2, hneutral2, hworker2, hclock2⟩ :=
      scout scouts_findJob h1 hlater1
    cases found with
    | none =>
      obtain ⟨rfl, -, -⟩ := h2
      exact absurd hlater2 (by simp)
    | some data =>
      obtain ⟨τ5, now, s3, τ6, h3, rfl, hlater3, hneutral3, hworker3, hclock3⟩ :=
        scout (.perform (by rfl)) h2 hlater2
      split at h3
      · obtain ⟨claim, w, hcandidate, hworker, hfate⟩ :=
          handled_of_claim (hclock.trans (hclock1.trans (hclock2.trans hclock3))) h3 hlater3
        have hworker' : s.worker = some w :=
          (hworker1.symm.trans hworker2.symm).trans (hworker3.symm.trans hworker)
        have hfate' : Fate claim w (τ1 ++ (τ3 ++ (τ5 ++ τ6))) s' :=
          (fate_append hneutral1).mpr ((fate_append hneutral2).mpr
            ((fate_append hneutral3).mpr hfate))
        rw [hworker', ← hcandidate]
        exact hfate'
      · obtain ⟨rfl, -, -⟩ := h3
        exact absurd hlater3 (by simp)

/-- The loop of `recover_locked` over a batch of candidates, each with the
storage of its job: the first error ends it. -/
inductive RecoverBatch (app : App) (x : ExpiredInstance) (unboundedAfter : ℤ) :
    List (RunningStatusCandidate × Store) → List (Trace × Store) → Except JobWorkerError Unit →
    Prop
  | done : RecoverBatch app x unboundedAfter [] [] (.ok ())
  | next {candidate s τ s' batch ends res} :
      (recoverCandidate app x unboundedAfter candidate).Exec compensating s τ (.ok ()) s' →
      RecoverBatch app x unboundedAfter batch ends res →
      RecoverBatch app x unboundedAfter ((candidate, s) :: batch) ((τ, s') :: ends) res
  | stop {candidate s τ s' batch e} :
      (recoverCandidate app x unboundedAfter candidate).Exec compensating s τ (.error e) s' →
      RecoverBatch app x unboundedAfter ((candidate, s) :: batch) [(τ, s')] (.error e)

/-- **A claimed execution is published, completed or visible again exactly if
no unguarded call failed and the retry was not dropped**: for every candidate
of a batch that the loop has come to. -/
theorem lost_execution_handled_iff {batch : List (RunningStatusCandidate × Store)}
    {ends : List (Trace × Store)} {res : Except JobWorkerError Unit}
    (hclock : ∀ entry ∈ batch, 0 ≤ entry.2.clock)
    (h : RecoverBatch app x unboundedAfter batch ends res) :
    ∀ entry ∈ batch.zip ends, (∃ c ∈ entry.2.1, takesClaim c) →
      (Handled entry.1.1.workerInstanceId entry.2.1 entry.2.2 ↔
        ¬ Stranding entry.1.2.worker entry.2.1) := by
  induction h with
  | done => exact fun _ hentry => nomatch hentry
  | next hexec _ ih =>
    intro entry hentry
    rcases mem_cons.mp hentry with rfl | hentry
    · exact handled_of_candidate (hclock _ mem_cons_self) hexec
    · exact ih (fun e he => hclock e (mem_cons_of_mem _ he)) entry hentry
  | stop hexec =>
    intro entry hentry
    rcases mem_cons.mp hentry with rfl | hentry
    · exact handled_of_candidate (hclock _ mem_cons_self) hexec
    · rw [zipWith_nil_right] at hentry
      cases hentry

/-- An execution of instance 7 that can be retried. -/
def retryableStore : Store :=
  { (default : Store) with
    jobId := ⟨1⟩
    clock := 1000
    row := some { (default : JobData) with workerId := some ⟨1⟩, grabbedUntilTime := some 0 }
    index := some { (default : StatusIndexRow) with
      status := .running
      workerId := ⟨1⟩
      workerInstanceId := some 7
      version := 3 }
    worker := some { (default : WorkerData) with
      retryPolicy := some { (default : RetryPolicy) with type := 2, interval := 1, maxRetry := 5 } } }

def lostCandidate : RunningStatusCandidate :=
  { jobId := 1, workerId := 1, workerInstanceId := 7, version := 3, startTime := none, updatedAt := 0 }

/-- The calls answer, except the given ones. -/
def refusing (bad : Op → Bool) : Op → Choice := fun op =>
  { (default : Choice) with fault := if bad op then .refused else .none, flag := true }

/-- A retry whose row cannot be written is undone. -/
theorem unwritten_visible : ∃ τ s', RecoverBatch default default 0
    [(lostCandidate, retryableStore)] [(τ, s')] (.error .storageError) ∧
      (∃ c ∈ τ, takesClaim c) ∧ Handled 7 τ s' := by
  have hexec : (recoverCandidate default default 0 lostCandidate).Exec compensating
      retryableStore _ (.error .storageError) _ := exec_of_runBy (refusing Op.publishesRetry) rfl
  have hbatch : RecoverBatch default default 0 [(lostCandidate, retryableStore)] _ _ :=
    .stop hexec
  refine ⟨_, _, hbatch, by decide, ?_⟩
  refine (lost_execution_handled_iff (by decide) hbatch _ mem_cons_self (by decide)).mpr ?_
  rintro (hfail | hdropped)
  · exact absurd hfail (by decide)
  · exact absurd hdropped.reset (by decide)

/-- **An execution whose result gets no identifier is stranded**: the claim is
not undone. -/
theorem unnumbered_stranded : ∃ τ s', RecoverBatch default default 0
    [(lostCandidate, retryableStore)] [(τ, s')] (.error .storageError) ∧
      (∃ c ∈ τ, takesClaim c) ∧ ¬ Handled 7 τ s' := by
  have hexec : (recoverCandidate default default 0 lostCandidate).Exec compensating
      retryableStore _ (.error .storageError) _ := exec_of_runBy (refusing (· = .generateId)) rfl
  exact ⟨_, _, .stop hexec, by decide, by decide⟩

end Candidate

end Jobworkerp
