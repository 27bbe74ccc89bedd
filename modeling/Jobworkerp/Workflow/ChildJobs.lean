/-
Jobworkerp/Workflow/ChildJobs.lean

The child jobs of a workflow and their cancellation
(`execute/task.rs`, `ChildJobScope` of `execute/context.rs`).

A task that starts a child job registers it in its scope and in every enclosing
scope.  Cancelling a scope closes it and deletes the jobs that are registered in
it.  The check before the enqueue, the enqueue, the registration and the check
after it are separate steps, and the mutex of a scope covers one operation on
one scope, so that a cancellation can fall between any two of them.

* `startChild_safe`, `cancelChildJobs_safe`, `completeChild_safe`: what each
  participant does while the others run.
* `no_child_job_escapes`: when a cancellation and the starts are over, every job
  below the scope has been asked to be deleted, unless it has completed.
-/
import Jobworkerp.Interleaving.RelyGuarantee
import Mathlib.Data.List.Perm.Basic
import Mathlib.Data.List.Infix
import Mathlib.Data.List.Nodup
import Mathlib.Algebra.GroupWithZero.Nat

namespace Jobworkerp.Workflow

open Interleaving List

/-! ### Scopes -/

/-- A scope: the root, or a numbered child of its parent. -/
abbrev Scope := List ℕ

/-- The scope and its enclosing scopes. -/
def Scope.lineage (scope : Scope) : List Scope := scope.tails

/-- `ChildJobScopeState`, with what `close` has returned so far. -/
structure ChildJobScopeState where
  jobIds : List ℤ
  closed : Bool
  snapshots : List (List ℤ)
  deriving DecidableEq, Repr

/-- A job as it was enqueued: by whom, in which scope, and whether it is awaited. -/
structure StartedJob (ι : Type) where
  job : ℤ
  starter : ι
  scope : Scope
  tracked : Bool
  deriving DecidableEq, Repr

/-- The scopes of a workflow and the jobs it has enqueued, completed and asked
to be deleted. -/
structure ChildJobs (ι : Type) where
  cancelled : Bool
  scopes : Scope → ChildJobScopeState
  started : List (StartedJob ι)
  completed : List ℤ
  deleted : List ℤ

variable {ι : Type}

/-- Nothing has been started. -/
def ChildJobs.new : ChildJobs ι := ⟨false, fun _ => ⟨[], false, []⟩, [], [], []⟩

/-! ### Calls -/

/-- The steps the participants make on what they share. -/
inductive ChildOp (ι : Type)
  | isCancelled
  | isClosed (scope : Scope)
  | enqueue (starter : ι) (scope : Scope) (tracked : Bool)
  | insert (scope : Scope) (job : ℤ)
  | remove (scope : Scope) (job : ℤ)
  | close (scope : Scope)
  | deleteJob (job : ℤ)
  | awaitJob (job : ℤ)
  | pick (count : ℕ)
  | setCancelled

@[reducible] def ChildResp : ChildOp ι → Type
  | .isCancelled => Bool
  | .isClosed _ => Bool
  | .enqueue .. => ℤ
  | .close _ => List ℤ
  | .pick _ => ℕ
  | .insert .. | .remove .. | .deleteJob _ | .awaitJob _ | .setCancelled => Unit

inductive ChildError
  | cancelled
  | unavailable
  deriving DecidableEq, Repr

/-- What the environment decides: that a call fails, the id of a new job, the
order in which a set is listed, the future that goes on. -/
inductive ChildChoice
  | proceed
  | fails
  | newId (job : ℤ)
  | order (jobs : List ℤ)
  | next (n : ℕ)
  deriving DecidableEq, Repr

/-- One scope is changed under its mutex. -/
def ChildJobs.modify (s : ChildJobs ι) (scope : Scope)
    (f : ChildJobScopeState → ChildJobScopeState) : ChildJobs ι :=
  { s with scopes := Function.update s.scopes scope (f (s.scopes scope)) }

def childSem : Sem (ChildOp ι) ChildResp ChildError (ChildJobs ι) ChildChoice
  | _, .isCancelled, s => some (.ok s.cancelled, s)
  | _, .isClosed scope, s => some (.ok (s.scopes scope).closed, s)
  | ch, .enqueue starter scope tracked, s =>
    match ch with
    | .newId job =>
      if job ∈ s.started.map StartedJob.job then none
      else some (.ok job, { s with started := ⟨job, starter, scope, tracked⟩ :: s.started })
    | _ => some (.error .unavailable, s)
  | _, .insert scope job, s =>
    some (.ok (), s.modify scope fun st => { st with jobIds := st.jobIds.insert job })
  | _, .remove scope job, s =>
    some (.ok (), s.modify scope fun st => { st with jobIds := st.jobIds.filter (· ≠ job) })
  | ch, .close scope, s =>
    match ch with
    | .order jobs =>
      if jobs.Perm (s.scopes scope).jobIds then
        some (.ok jobs, s.modify scope fun st =>
          { st with closed := true, snapshots := jobs :: st.snapshots })
      else none
    | _ => none
  | ch, .deleteJob job, s =>
    some (if ch = .fails then .error .unavailable else .ok (),
      { s with deleted := job :: s.deleted })
  | _, .awaitJob job, s =>
    if job ∈ s.started.map StartedJob.job then
      some (.ok (), { s with completed := job :: s.completed })
    else none
  | ch, .pick count, s =>
    match ch with
    | .next n => if n < count then some (.ok n, s) else none
    | _ => none
  | _, .setCancelled, s => some (.ok (), { s with cancelled := true })

abbrev ChildProg (ι α : Type) := Prog (ChildOp ι) ChildResp ChildError α

/-! ### The functions -/

open Prog

/-- Make one call. -/
abbrev request (op : ChildOp ι) : ChildProg ι (ChildResp op) := perform op

/-- `is_closed` of a lineage. -/
def anyClosed : List Scope → ChildProg ι Bool
  | [] => ret false
  | scope :: lineage => do
      if ← request (.isClosed scope) then ret true else anyClosed lineage

/-- The loop of `guard` over a lineage. -/
def insertAll (job : ℤ) : List Scope → ChildProg ι Unit
  | [] => ret ()
  | scope :: lineage => do
      request (.insert scope job)
      insertAll job lineage

/-- The loop of `unregister` over a lineage. -/
def removeAll (job : ℤ) : List Scope → ChildProg ι Unit
  | [] => ret ()
  | scope :: lineage => do
      request (.remove scope job)
      removeAll job lineage

/-- `is_cancelled() || is_closed()`. -/
def cancelledOrClosed (scope : Scope) : ChildProg ι Bool := do
  if ← request .isCancelled then ret true else anyClosed scope.lineage

/-- `ensure_child_job_can_start`; without a scope the job belongs to the root. -/
def ensureChildJobCanStart (scope : Option Scope) : ChildProg ι Scope := do
  if ← cancelledOrClosed (scope.getD []) then fail .cancelled else ret (scope.getD [])

def registerStartedChildJob (scope : Scope) (job : ℤ) : ChildProg ι Unit := do
  insertAll job scope.lineage
  if ← cancelledOrClosed scope then
    removeAll job scope.lineage
    request (.deleteJob job)
    fail .cancelled
  else ret ()

def enqueueChildJob (starter : ι) (scope : Option Scope) (tracked : Bool) :
    ChildProg ι Unit := do
  let scope ← ensureChildJobCanStart scope
  let job ← request (.enqueue starter scope tracked)
  registerStartedChildJob scope job
  -- jobs that are not awaited are left running and are not registered
  if tracked then ret () else removeAll job scope.lineage

/-- The holder of a guard: when the wait for the job is over, `mark_completed`. -/
def completeChildJob (scope : Scope) (job : ℤ) : ChildProg ι Unit := do
  request (.awaitJob job)
  removeAll job scope.lineage

/-- What the future of one job of `cancel_child_jobs` still has to do. -/
inductive CancelStep
  | delete (job : ℤ)
  | remove (scope : Scope) (job : ℤ)
  deriving DecidableEq, Repr

/-- The future of one job: the job is unregistered if its deletion succeeds. -/
def cancelFuture (scope : Scope) (job : ℤ) : List CancelStep :=
  .delete job :: scope.lineage.map (.remove · job)

def childJobCancelConcurrency : ℕ := 16

/-- The future with the number `n` makes its next step, or is dropped because it
is over; then the others go on. -/
def futureTurn (goOn : List (List CancelStep) → ChildProg ι Unit)
    (futures : List (List CancelStep)) (n : ℕ) : ChildProg ι Unit :=
  match futures[n]? with
  | none => ret ()
  | some [] => goOn (futures.eraseIdx n)
  | some (.delete job :: rest) => do
      match ← (request (.deleteJob job)).attempt with
      | .ok _ => goOn (futures.set n rest)
      | .error _ => goOn (futures.eraseIdx n)
  | some (.remove scope job :: rest) => do
      request (.remove scope job)
      goOn (futures.set n rest)

/-- `for_each_concurrent`: any of the first futures that are not over goes on. -/
def forEachConcurrent : ℕ → List (List CancelStep) → ChildProg ι Unit
  | 0, _ => ret ()
  | fuel + 1, futures =>
    if futures.isEmpty then ret ()
    else do
      let n ← request (.pick (min childJobCancelConcurrency futures.length))
      futureTurn (forEachConcurrent fuel) futures n

/-- The turns that futures can take. -/
def turns (futures : List (List CancelStep)) : ℕ := (futures.map (·.length + 1)).sum

def cancelChildJobs (scope : Scope) : ChildProg ι Unit := do
  let jobs ← request (.close scope)
  let futures := jobs.map (cancelFuture scope)
  forEachConcurrent (turns futures) futures

/-- Who takes part. -/
inductive ChildParticipant
  | start (scope : Option Scope) (tracked : Bool)
  | complete (scope : Scope) (job : ℤ)
  | cancel (scope : Scope)
  | cancelWorkflow
  deriving DecidableEq, Repr

def ChildParticipant.prog (i : ι) : ChildParticipant → ChildProg ι Unit
  | .start scope tracked => enqueueChildJob i scope tracked
  | .complete scope job => completeChildJob scope job
  | .cancel scope => cancelChildJobs scope
  -- `WorkflowExecutor::cancel`
  | .cancelWorkflow => do
      request .setCancelled
      cancelChildJobs []

/-! ### What the participants rely on -/

variable {scope : Scope} {job : ℤ} {futures : List (List CancelStep)}

namespace ChildJobs

variable {s s' s'' : ChildJobs ι} {i k : ι}

/-- The job has completed, or has been asked to be deleted. -/
def isOver (s : ChildJobs ι) (job : ℤ) : Prop := job ∈ s.deleted ∨ job ∈ s.completed

/-- The job is registered in the scope, unless it is over. -/
def held (s : ChildJobs ι) (scope : Scope) (job : ℤ) : Prop :=
  s.isOver job ∨ job ∈ (s.scopes scope).jobIds

/-- The job is registered in the scope, and whoever closed the scope has seen
it, unless it is over. -/
def seen (s : ChildJobs ι) (scope : Scope) (job : ℤ) : Prop :=
  s.isOver job ∨ job ∈ (s.scopes scope).jobIds ∧ ∀ jobs ∈ (s.scopes scope).snapshots, job ∈ jobs

/-- The job was started in the scope or below it. -/
def below (s : ChildJobs ι) (scope : Scope) (job : ℤ) : Prop :=
  ∃ e ∈ s.started, e.job = job ∧ scope ∈ e.scope.lineage

/-- Job ids are not used twice, a scope has only jobs from below it, and only
closed scopes have been listed. -/
structure Kept (s : ChildJobs ι) : Prop where
  ids : (s.started.map StartedJob.job).Nodup
  registered : ∀ scope, ∀ job ∈ (s.scopes scope).jobIds, s.below scope job
  listed : ∀ scope, ∀ jobs ∈ (s.scopes scope).snapshots,
    (s.scopes scope).closed = true ∧ ∀ job ∈ jobs, s.below scope job

/-- What the others may do to what concerns participant `k`. -/
structure Spares (k : ι) (s s' : ChildJobs ι) : Prop where
  kept : s.Kept → s'.Kept
  started : ∀ e ∈ s.started, e ∈ s'.started
  own : ∀ e ∈ s'.started, e.starter = k → e ∈ s.started
  deleted : ∀ job ∈ s.deleted, job ∈ s'.deleted
  isOver : ∀ job, s.isOver job → s'.isOver job
  snapshots : ∀ scope, ∀ jobs ∈ (s.scopes scope).snapshots, jobs ∈ (s'.scopes scope).snapshots
  held : ∀ e ∈ s.started, e.starter = k → ∀ scope, s.held scope e.job → s'.held scope e.job
  seen : ∀ e ∈ s.started, e.starter = k → ∀ scope, s.seen scope e.job → s'.seen scope e.job

theorem Spares.refl (k : ι) (s : ChildJobs ι) : Spares k s s :=
  ⟨id, fun _ => id, fun _ h _ => h, fun _ => id, fun _ => id, fun _ _ => id,
    fun _ _ _ _ => id, fun _ _ _ _ => id⟩

theorem Spares.trans (h : Spares k s s') (h' : Spares k s' s'') : Spares k s s'' where
  kept := h'.kept ∘ h.kept
  started := fun e he => h'.started e (h.started e he)
  own := fun e he hk => h.own e (h'.own e he hk) hk
  deleted := fun job hjob => h'.deleted job (h.deleted job hjob)
  isOver := fun job hjob => h'.isOver job (h.isOver job hjob)
  snapshots := fun scope jobs hjobs => h'.snapshots scope jobs (h.snapshots scope jobs hjobs)
  held := fun e he hk scope hheld => h'.held e (h.started e he) hk scope (h.held e he hk scope hheld)
  seen := fun e he hk scope hseen => h'.seen e (h.started e he) hk scope (h.seen e he hk scope hseen)

theorem modify_scopes (s : ChildJobs ι) (scope : Scope)
    (f : ChildJobScopeState → ChildJobScopeState) (scope' : Scope) :
    (s.modify scope f).scopes scope' =
      if scope' = scope then f (s.scopes scope) else s.scopes scope' := by
  by_cases h : scope' = scope
  · subst h
    rw [if_pos rfl]
    exact Function.update_self ..
  · rw [if_neg h]
    exact Function.update_of_ne h ..

variable {f : ChildJobScopeState → ChildJobScopeState} {e : StartedJob ι}

/-- What a participant does to one scope spares the others if it keeps the scope
in order and drops none of their jobs. -/
theorem Spares.modify (hkept : s.Kept → (s.modify scope f).Kept)
    (hsnapshots : ∀ jobs ∈ (s.scopes scope).snapshots, jobs ∈ (f (s.scopes scope)).snapshots)
    (hjobs : ∀ e ∈ s.started, e.starter = k → ¬ s.isOver e.job →
      e.job ∈ (s.scopes scope).jobIds → e.job ∈ (f (s.scopes scope)).jobIds)
    (hlists : ∀ e ∈ s.started, e.job ∈ (s.scopes scope).jobIds →
      ∀ jobs ∈ (f (s.scopes scope)).snapshots,
        jobs ∈ (s.scopes scope).snapshots ∨ e.job ∈ jobs) :
    Spares k s (s.modify scope f) where
  kept := hkept
  started := fun _ => id
  own := fun _ h _ => h
  deleted := fun _ => id
  isOver := fun _ => id
  snapshots := by
    intro scope' jobs hmem
    rw [modify_scopes]
    split_ifs with h
    · exact hsnapshots jobs (h ▸ hmem)
    · exact hmem
  held := by
    rintro e he hk scope' (hover | hmem)
    · exact .inl hover
    · by_cases hover : s.isOver e.job
      · exact .inl hover
      · refine .inr ?_
        rw [modify_scopes]
        split_ifs with h
        · exact hjobs e he hk hover (h ▸ hmem)
        · exact hmem
  seen := by
    rintro e he hk scope' (hover | ⟨hmem, hall⟩)
    · exact .inl hover
    · by_cases hover : s.isOver e.job
      · exact .inl hover
      · refine .inr ?_
        rw [modify_scopes]
        split_ifs with h
        · subst h
          refine ⟨hjobs e he hk hover hmem, fun jobs hjobs' => ?_⟩
          exact (hlists e he hmem jobs hjobs').elim (hall jobs) id
        · exact ⟨hmem, hall⟩

theorem Kept.modify (h : s.Kept)
    (hregistered : ∀ job ∈ (f (s.scopes scope)).jobIds, s.below scope job)
    (hlisted : ∀ jobs ∈ (f (s.scopes scope)).snapshots,
      (f (s.scopes scope)).closed = true ∧ ∀ job ∈ jobs, s.below scope job) :
    (s.modify scope f).Kept where
  ids := h.ids
  registered := by
    intro scope' job hmem
    rw [modify_scopes] at hmem
    split_ifs at hmem with heq
    · exact heq ▸ hregistered job hmem
    · exact h.registered scope' job hmem
  listed := by
    intro scope' jobs hmem
    rw [modify_scopes] at hmem ⊢
    split_ifs at hmem ⊢ with heq
    · exact heq ▸ hlisted jobs hmem
    · exact h.listed scope' jobs hmem

theorem spares_insert (hbelow : s.below scope job) :
    Spares k s (s.modify scope fun st => { st with jobIds := st.jobIds.insert job }) := by
  refine .modify (fun h => h.modify ?_ (h.listed scope)) (fun _ => id) ?_ (fun _ _ _ _ => .inl)
  · intro job' hmem
    rcases mem_insert_iff.mp hmem with rfl | hmem
    · exact hbelow
    · exact h.registered scope job' hmem
  · intro e _ _ _ hmem
    exact mem_insert_of_mem hmem

theorem Kept.remove (h : s.Kept) (scope : Scope) (job : ℤ) :
    (s.modify scope fun st => { st with jobIds := st.jobIds.filter (· ≠ job) }).Kept :=
  h.modify (fun job' hmem => h.registered scope job' (mem_filter.mp hmem).1) (h.listed scope)

/-- A job that is over, or is no job of `k`, may be unregistered. -/
theorem spares_remove (hjob : ∀ e ∈ s.started, e.starter = k → ¬ s.isOver e.job → e.job ≠ job) :
    Spares k s (s.modify scope fun st => { st with jobIds := st.jobIds.filter (· ≠ job) }) := by
  refine .modify (fun h => h.remove scope job) (fun _ => id) ?_ (fun _ _ _ _ => .inl)
  intro e he hk hover hmem
  exact mem_filter.mpr ⟨hmem, decide_eq_true (hjob e he hk hover)⟩

theorem spares_close (hperm : jobs.Perm (s.scopes scope).jobIds) :
    Spares k s (s.modify scope fun st =>
      { st with closed := true, snapshots := jobs :: st.snapshots }) := by
  refine .modify (fun h => h.modify (h.registered scope) ?_)
    (fun _ => mem_cons_of_mem _) (fun _ _ _ _ => id) ?_
  · intro jobs' hmem
    refine ⟨rfl, ?_⟩
    rcases mem_cons.mp hmem with rfl | hmem
    · exact fun job hjob => h.registered scope job (hperm.mem_iff.mp hjob)
    · exact (h.listed scope jobs' hmem).2
  · intro e _ hmem jobs' hjobs'
    rcases mem_cons.mp hjobs' with rfl | hjobs'
    · exact .inr (hperm.mem_iff.mpr hmem)
    · exact .inl hjobs'

/-- A job that is deleted or completes is over; nothing else changes. -/
theorem spares_over (hscopes : s'.scopes = s.scopes)
    (hstarted : s'.started = s.started) (hdeleted : ∀ job ∈ s.deleted, job ∈ s'.deleted)
    (hcompleted : ∀ job ∈ s.completed, job ∈ s'.completed) : Spares k s s' := by
  have hover (job : ℤ) (h : s.isOver job) : s'.isOver job := h.imp (hdeleted job) (hcompleted job)
  have hbelow (scope : Scope) (job : ℤ) (h : s.below scope job) : s'.below scope job := by
    unfold below
    rw [hstarted]
    exact h
  refine ⟨fun h => ⟨?_, ?_, ?_⟩, ?_, ?_, hdeleted, hover, ?_, ?_, ?_⟩
  · rw [hstarted]
    exact h.ids
  · intro scope job hmem
    rw [hscopes] at hmem
    exact hbelow scope job (h.registered scope job hmem)
  · intro scope jobs hmem
    rw [hscopes] at hmem ⊢
    obtain ⟨hclosed, hjobs⟩ := h.listed scope jobs hmem
    exact ⟨hclosed, fun job hjob => hbelow scope job (hjobs job hjob)⟩
  · rw [hstarted]
    exact fun _ => id
  · rw [hstarted]
    exact fun _ h _ => h
  · rw [hscopes]
    exact fun _ _ => id
  · intro e _ _ scope
    unfold held
    rw [hscopes]
    exact Or.imp_left (hover _)
  · intro e _ _ scope
    unfold seen
    rw [hscopes]
    exact Or.imp_left (hover _)

theorem Kept.enqueue (h : s.Kept) (hfresh : e.job ∉ s.started.map StartedJob.job) :
    Kept { s with started := e :: s.started } := by
  have hbelow (scope : Scope) (job : ℤ) (h : s.below scope job) :
      below { s with started := e :: s.started } scope job := by
    obtain ⟨e', he', heq⟩ := h
    exact ⟨e', mem_cons_of_mem _ he', heq⟩
  refine ⟨nodup_cons.mpr ⟨hfresh, h.ids⟩, fun scope job hmem => ?_,
    fun scope jobs hmem => ?_⟩
  · exact hbelow scope job (h.registered scope job hmem)
  · obtain ⟨hclosed, hjobs⟩ := h.listed scope jobs hmem
    exact ⟨hclosed, fun job hjob => hbelow scope job (hjobs job hjob)⟩

theorem spares_enqueue (hne : e.starter ≠ k) (hfresh : e.job ∉ s.started.map StartedJob.job) :
    Spares k s { s with started := e :: s.started } := by
  refine ⟨fun h => h.enqueue hfresh, fun _ => mem_cons_of_mem _, ?_, fun _ => id,
    fun _ => id, fun _ _ => id, fun _ _ _ _ => id, fun _ _ _ _ => id⟩
  intro e' he' hk
  rcases mem_cons.mp he' with rfl | he'
  · exact absurd hk hne
  · exact he'

end ChildJobs

/-! ### Programs among others -/

open ChildJobs

/-- What a participant may do: which jobs it may delete, and whether it may
enqueue. -/
structure Rights (ι : Type) where
  delete : ℤ → ChildJobs ι → Prop
  enqueue : Prop

def Rights.permit (D : Rights ι) (s : ChildJobs ι) : ChildOp ι → Prop
  | .deleteJob job => D.delete job s
  | .enqueue .. => D.enqueue
  | _ => True

/-- What a participant promises: it spares the others and keeps to its rights. -/
def Sparing (i : ι) (D : Rights ι) (op : ChildOp ι) (_ : Except ChildError (ChildResp op))
    (s s' : ChildJobs ι) : Prop :=
  (∀ k, k ≠ i → Spares k s s') ∧ D.permit s op

/-- The program spares the others as long as they spare it, and returns with `Q`
or fails with `E`. -/
abbrev SafeChild (i : ι) (D : Rights ι) {α : Type} (Q : α → ChildJobs ι → Prop)
    (E : ChildError → ChildJobs ι → Prop) (p : ChildProg ι α) (s : ChildJobs ι) : Prop :=
  p.Safe childSem (Spares i) (Sparing i D) Q E s

/-- What the others leave alone. -/
def Stable (i : ι) (J : ChildJobs ι → Prop) : Prop := ∀ s s', J s → Spares i s s' → J s'

section Safe

variable {i k : ι} {D : Rights ι} {J : ChildJobs ι → Prop} {E : ChildError → ChildJobs ι → Prop}
  {s : ChildJobs ι}

theorem Stable.and (h : Stable i J) (h' : Stable i J') : Stable i fun s => J s ∧ J' s :=
  fun s1 s2 hJ hspares => ⟨h s1 s2 hJ.1 hspares, h' s1 s2 hJ.2 hspares⟩

theorem stable_kept : Stable i ChildJobs.Kept := fun _ _ h hspares => hspares.kept h

variable {op : ChildOp ι} {P : Scope → ChildJobs ι → Prop} {lineage : List Scope} {e : StartedJob ι}

theorem safe_request (hJ : Stable i J) (hQ : ∀ a, Stable i (Q a)) (hE : ∀ e, Stable i (E e))
    (h : ∀ s1 ch ans s2, J s1 → childSem ch op s1 = some (ans, s2) →
      Sparing i D op ans s1 s2 ∧ Ends Q E ans s2) (hs : J s) :
    SafeChild i D Q E (request op) s := by
  refine Safe.perform hJ hs fun s1 ch ans s2 hJ1 hsem => ?_
  obtain ⟨hG, hend⟩ := h s1 ch ans s2 hJ1 hsem
  refine ⟨hG, fun s3 hspares => ?_⟩
  cases ans with
  | ok a => exact hQ a s2 s3 hend hspares
  | error e => exact hE e s2 s3 hend hspares

theorem sparing_read (ans : Except ChildError (ChildResp op))
    (s : ChildJobs ι) (hop : D.permit s op) : Sparing i D op ans s s :=
  ⟨fun k _ => Spares.refl k s, hop⟩

section

variable (hE : ∀ e, Stable i (E e)) (hJ : Stable i J) (hP : ∀ a, Stable i fun s => J s ∧ P a s)

include hE hJ hP

/-- A lineage is read from the scope outwards.  What can be told of a scope that
was open at the time of reading is known at the end, if no scope was closed. -/
theorem anyClosed_safe (hread : ∀ a ∈ lineage, ∀ s, J s → (s.scopes a).closed = false → P a s)
    (hs : J s) : SafeChild i D (fun b s => J s ∧ (b = false → ∀ a ∈ lineage, P a s)) E
      (anyClosed lineage) s := by
  induction lineage generalizing J s with
  | nil => exact fun s' hspares => ⟨hJ s s' hs hspares, fun _ _ => nofun⟩
  | cons a lineage ih =>
    refine Safe.bind (Spares.refl i) (Q := fun b s => J s ∧ (b = false → P a s)) ?_ ?_
    · refine safe_request hJ (fun b s1 s2 h hspares => ?_) hE ?_ hs
      · refine ⟨hJ s1 s2 h.1 hspares, fun hb => ?_⟩
        exact (hP a s1 s2 ⟨h.1, h.2 hb⟩ hspares).2
      · rintro s1 ch ans s2 hJ1 ⟨⟩
        exact ⟨sparing_read _ s1 trivial, hJ1, hread a mem_cons_self s1 hJ1⟩
    · intro b s1 h1
      cases b with
      | true => exact fun s2 hspares => ⟨hJ s1 s2 h1.1 hspares, nofun⟩
      | false =>
        -- what is known of `a` goes along with `J`
        have hrest := ih (J := fun s => J s ∧ P a s) (s := s1) (hP a)
          (fun b s2 s3 h hspares => ?_) (fun b hb s2 h => ?_) ⟨h1.1, h1.2 rfl⟩
        · refine Safe.mono hrest (fun b s2 h => ⟨h.1.1, fun hb c hc => ?_⟩) fun _ _ => id
          rcases mem_cons.mp hc with rfl | hc
          · exact h.1.2
          · exact h.2 hb c hc
        · exact ⟨hP a s2 s3 h.1 hspares, (hP b s2 s3 ⟨h.1.1, h.2⟩ hspares).2⟩
        · exact hread b (mem_cons_of_mem _ hb) s2 h.1

theorem cancelledOrClosed_safe
    (hread : ∀ a ∈ scope.lineage, ∀ s, J s → (s.scopes a).closed = false → P a s) (hs : J s) :
    SafeChild i D (fun b s => J s ∧ (b = false → ∀ a ∈ scope.lineage, P a s)) E
      (cancelledOrClosed scope) s := by
  refine Safe.bind (Spares.refl i) (Q := fun _ => J) ?_ ?_
  · refine safe_request hJ (fun _ => hJ) hE ?_ hs
    rintro s1 ch ans s2 hJ1 ⟨⟩
    exact ⟨sparing_read _ s1 trivial, hJ1⟩
  · intro b s1 h1
    cases b with
    | true => exact fun s2 hspares => ⟨hJ s1 s2 h1 hspares, nofun⟩
    | false => exact anyClosed_safe hE hJ hP hread h1

end

/-- Unregistering a job, by whoever may do so. -/
theorem removeAll_safe (hJ : Stable i J) (hE : ∀ e, Stable i (E e))
    (hkept : ∀ s a, J s → J (s.modify a fun st => { st with jobIds := st.jobIds.filter (· ≠ job) }))
    (hspare : ∀ s, J s → ∀ k, k ≠ i →
      ∀ e ∈ s.started, e.starter = k → ¬ s.isOver e.job → e.job ≠ job) (hs : J s) :
    SafeChild i D (fun _ => J) E (removeAll job lineage) s := by
  induction lineage generalizing s with
  | nil => exact fun s' hspares => hJ s s' hs hspares
  | cons a lineage ih =>
    refine Safe.bind (Spares.refl i) (Q := fun _ => J) ?_ fun _ s1 h1 => ih h1
    refine safe_request hJ (fun _ => hJ) hE ?_ hs
    rintro s1 ch ans s2 hJ1 ⟨⟩
    exact ⟨⟨fun k hk => spares_remove (hspare s1 hJ1 k hk), trivial⟩, hkept s1 a hJ1⟩

/-! ### Starting a job -/

/-- Participant `i` has started nothing. -/
def Unstarted (i : ι) (s : ChildJobs ι) : Prop := s.Kept ∧ ∀ e ∈ s.started, e.starter ≠ i

/-- `e` is the one job that its participant has started. -/
def Started (e : StartedJob ι) (s : ChildJobs ι) : Prop :=
  s.Kept ∧ e ∈ s.started ∧ ∀ e' ∈ s.started, e'.starter = e.starter → e' = e

/-- The tracked jobs that participant `i` has started are seen by whoever closes
one of their scopes. -/
def AllSeen (i : ι) (s : ChildJobs ι) : Prop :=
  s.Kept ∧ ∀ e ∈ s.started, e.starter = i → e.tracked = true →
    ∀ a ∈ e.scope.lineage, s.seen a e.job

theorem stable_unstarted : Stable i (Unstarted i) := fun _ _ h hspares =>
  ⟨hspares.kept h.1, fun e he hi => h.2 e (hspares.own e he hi) hi⟩

theorem stable_started : Stable e.starter (Started e) := fun _ _ h hspares =>
  ⟨hspares.kept h.1, hspares.started e h.2.1,
    fun e' he' heq => h.2.2 e' (hspares.own e' he' heq) heq⟩

theorem stable_allSeen : Stable i (AllSeen i) := fun _ _ h hspares =>
  ⟨hspares.kept h.1, fun e he hi htracked a ha =>
    hspares.seen e (hspares.own e he hi) hi a (h.2 e (hspares.own e he hi) hi htracked a ha)⟩

theorem Unstarted.allSeen (h : Unstarted i s) : AllSeen i s :=
  ⟨h.1, fun e he hi => absurd hi (h.2 e he)⟩

theorem Started.allSeen (h : Started e s)
    (hseen : e.tracked = true → ∀ a ∈ e.scope.lineage, s.seen a e.job) : AllSeen e.starter s := by
  refine ⟨h.1, fun e' he' heq => ?_⟩
  rw [h.2.2 e' he' heq]
  exact hseen

/-- A job is not the job of another participant. -/
theorem Started.job_ne {e e' : StartedJob ι} (h : Started e s) (he' : e' ∈ s.started)
    (hne : e'.starter ≠ e.starter) : e'.job ≠ e.job := by
  intro heq
  have : e' = e := inj_on_of_nodup_map h.1.ids he' h.2.1 heq
  exact hne (congrArg StartedJob.starter this)

theorem removeAll_own_safe (hE : ∀ err, Stable e.starter (E err)) (hs : Started e s) :
    SafeChild e.starter D (fun _ => Started e) E (removeAll e.job lineage) s := by
  refine removeAll_safe stable_started hE (fun s a h => ?_) (fun s h k hk e' he' hk' _ => ?_) hs
  · exact ⟨h.1.remove a e.job, h.2⟩
  · exact h.job_ne he' (hk' ▸ hk)

/-- The job is registered in every scope, and stays so unless it is over. -/
theorem insertAll_safe (hJ : Stable e.starter J) (hstarted : ∀ s, J s → Started e s)
    (hE : ∀ err, Stable e.starter (E err)) (hlineage : ∀ a ∈ lineage, a ∈ e.scope.lineage)
    (hs : J s) : SafeChild e.starter D (fun _ s => J s ∧ ∀ a ∈ lineage, s.held a e.job) E
      (insertAll e.job lineage) s := by
  induction lineage generalizing J s with
  | nil => exact fun s' hspares => ⟨hJ s s' hs hspares, nofun⟩
  | cons a lineage ih =>
    have hJ' : Stable e.starter fun s => J s ∧ s.held a e.job := by
      intro s1 s2 h hspares
      exact ⟨hJ s1 s2 h.1 hspares, hspares.held e (hstarted s1 h.1).2.1 rfl a h.2⟩
    refine Safe.bind (Spares.refl _) (Q := fun _ s => J s ∧ s.held a e.job) ?_ ?_
    · refine safe_request hJ (fun _ => hJ') hE ?_ hs
      rintro s1 ch ans s2 hJ1 ⟨⟩
      have hspares (k : ι) := spares_insert (k := k)
        ⟨e, (hstarted s1 hJ1).2.1, rfl, hlineage a mem_cons_self⟩
      refine ⟨⟨fun k _ => hspares k, trivial⟩, hJ s1 _ hJ1 (hspares _), .inr ?_⟩
      rw [modify_scopes, if_pos rfl]
      exact mem_insert_self
    · intro _ s1 h1
      have hrest := ih hJ' (fun s2 h2 => hstarted s2 h2.1)
        (fun b hb => hlineage b (mem_cons_of_mem _ hb)) h1
      refine Safe.mono hrest (fun _ s2 h => ⟨h.1.1, fun b hb => ?_⟩) fun _ _ => id
      rcases mem_cons.mp hb with rfl | hb
      · exact h.1.2
      · exact h.2 b hb

/-- The registration of a job: it is seen in its whole lineage, or deleted. -/
theorem registerStartedChildJob_safe (hD : ∀ s, D.delete e.job s) (hs : Started e s) :
    SafeChild e.starter D (fun _ s => Started e s ∧ ∀ a ∈ e.scope.lineage, s.seen a e.job)
      (fun _ => AllSeen e.starter) (registerStartedChildJob e.scope e.job) s := by
  have hE (_ : ChildError) : Stable e.starter (AllSeen e.starter) := stable_allSeen
  have hheld : Stable e.starter fun s =>
      Started e s ∧ ∀ a ∈ e.scope.lineage, s.held a e.job := by
    intro s1 s2 h hspares
    exact ⟨stable_started s1 s2 h.1 hspares,
      fun a ha => hspares.held e h.1.2.1 rfl a (h.2 a ha)⟩
  refine Safe.bind (Spares.refl _) (insertAll_safe stable_started (fun _ => id) hE
    (fun _ => id) hs) fun _ s1 h1 => ?_
  refine Safe.bind (Spares.refl _) (cancelledOrClosed_safe
    (P := fun a s => s.seen a e.job) hE hheld ?_ ?_ h1) ?_
  · intro a s2 s3 h hspares
    exact ⟨hheld s2 s3 h.1 hspares, hspares.seen e h.1.1.2.1 rfl a h.2⟩
  · -- an open scope has not been listed
    intro a ha s2 h hopen
    refine (h.2 a ha).imp_right fun hmem => ⟨hmem, fun jobs hjobs => ?_⟩
    have hclosed := (h.1.1.listed a jobs hjobs).1
    rw [hopen] at hclosed
    cases hclosed
  · intro b s2 h2
    cases b with
    | false =>
      intro s3 hspares
      exact ⟨stable_started s2 s3 h2.1.1 hspares,
        fun a ha => hspares.seen e h2.1.1.2.1 rfl a (h2.2 rfl a ha)⟩
    | true =>
      refine Safe.bind (Spares.refl _) (removeAll_own_safe hE h2.1.1) fun _ s3 h3 => ?_
      refine Safe.bind (Spares.refl _) (Q := fun _ => AllSeen e.starter) ?_
        fun _ s4 h4 s5 hspares => stable_allSeen s4 s5 h4 hspares
      refine safe_request stable_started (fun _ => stable_allSeen) hE ?_ h3
      rintro s4 ch ans s5 h4 ⟨⟩
      have hspares (k : ι) : Spares k s4 { s4 with deleted := e.job :: s4.deleted } :=
        spares_over rfl rfl (fun _ => mem_cons_of_mem _) fun _ => id
      have hseen : AllSeen e.starter { s4 with deleted := e.job :: s4.deleted } :=
        (stable_started s4 _ h4 (hspares _)).allSeen
          fun _ _ _ => .inl (.inl mem_cons_self)
      refine ⟨⟨fun k _ => hspares k, hD s4⟩, ?_⟩
      split_ifs <;> exact hseen

/-- **A start leaves no job that a cancellation could miss.** -/
theorem enqueueChildJob_safe {scope : Option Scope} (hD : ∀ job s, D.delete job s)
    (hstarts : D.enqueue) (hs : Unstarted i s) :
    SafeChild i D (fun _ => AllSeen i) (fun _ => AllSeen i) (enqueueChildJob i scope tracked) s := by
  have hE (_ : ChildError) : Stable i (AllSeen i) := stable_allSeen
  refine Safe.bind (Spares.refl i) (Q := fun _ => Unstarted i) ?_ fun scope s1 h1 => ?_
  · -- `ensure_child_job_can_start`
    refine Safe.bind (Spares.refl i) (cancelledOrClosed_safe (P := fun _ _ => True) hE
      stable_unstarted (fun _ => stable_unstarted.and fun _ _ _ _ => trivial)
      (fun _ _ _ _ _ => trivial) hs) fun b s1 h1 => ?_
    cases b with
    | true => exact fun s2 hspares => (stable_unstarted s1 s2 h1.1 hspares).allSeen
    | false => exact fun s2 hspares => stable_unstarted s1 s2 h1.1 hspares
  refine Safe.bind (Spares.refl i) (Q := fun job => Started ⟨job, i, scope, tracked⟩) ?_
    fun job s2 h2 => ?_
  · refine safe_request stable_unstarted (fun _ => stable_started) hE ?_ h1
    intro s2 ch ans s3 h2 hsem
    have hfailed : Sparing i D (.enqueue i scope tracked) (.error .unavailable) s2 s2 :=
      sparing_read _ s2 hstarts
    cases ch with
    | newId job =>
      rw [childSem] at hsem
      split_ifs at hsem with hfresh
      cases hsem
      refine ⟨⟨fun k hk => spares_enqueue hk.symm hfresh, hstarts⟩, h2.1.enqueue hfresh,
        mem_cons_self, fun e he hi => ?_⟩
      rcases mem_cons.mp he with rfl | he
      · rfl
      · exact absurd hi (h2.2 e he)
    | proceed | fails | order | next =>
      cases hsem
      exact ⟨hfailed, h2.allSeen⟩
  · refine Safe.bind (Spares.refl i) (registerStartedChildJob_safe (hD _) h2) fun _ s3 h3 => ?_
    cases tracked with
    | true => exact fun s4 hspares => stable_allSeen s3 s4 (h3.1.allSeen fun _ => h3.2) hspares
    | false =>
      refine Safe.mono (removeAll_own_safe (e := ⟨job, i, scope, false⟩) hE h3.1)
        (fun _ s4 h4 => ?_) fun _ _ => id
      exact h4.allSeen nofun

theorem completeChildJob_safe (hs : s.Kept) :
    SafeChild i D (fun _ => ChildJobs.Kept) (fun _ => ChildJobs.Kept)
      (completeChildJob scope job) s := by
  have hover : Stable i fun s => s.Kept ∧ s.isOver job := by
    intro s1 s2 h hspares
    exact ⟨hspares.kept h.1, hspares.isOver job h.2⟩
  refine Safe.bind (Spares.refl i) (Q := fun _ s => s.Kept ∧ s.isOver job) ?_ fun _ s1 h1 => ?_
  · refine safe_request stable_kept (fun _ => hover) (fun _ => stable_kept) ?_ hs
    intro s1 ch ans s2 h1 hsem
    rw [childSem] at hsem
    split_ifs at hsem
    cases hsem
    have hspares (k : ι) : Spares k s1 { s1 with completed := job :: s1.completed } :=
      spares_over rfl rfl (fun _ => id) fun _ => mem_cons_of_mem _
    exact ⟨⟨fun k _ => hspares k, trivial⟩, (hspares i).kept h1, .inr mem_cons_self⟩
  · refine Safe.mono (removeAll_safe hover (fun _ => stable_kept) (fun s a h => ?_)
      (fun s h k hk e he _ hnot heq => hnot (heq ▸ h.2)) h1) (fun _ _ h => h.1) fun _ _ => id
    exact ⟨h.1.remove a job, h.2⟩

/-! ### Cancelling a scope -/

theorem turns_set_lt
    (h : futures[n]? = some (step :: rest)) : turns (futures.set n rest) < turns futures := by
  induction futures generalizing n with
  | nil => cases h
  | cons future futures ih =>
    cases n with
    | zero =>
      cases h
      simp [turns]
    | succ n =>
      have hrest := ih (n := n) h
      simp only [turns, set_cons_succ, map_cons, sum_cons] at hrest ⊢
      omega

theorem turns_eraseIdx_lt
    (h : futures[n]? = some future) : turns (futures.eraseIdx n) < turns futures := by
  induction futures generalizing n with
  | nil => cases h
  | cons first futures ih =>
    cases n with
    | zero =>
      simp only [turns, eraseIdx_cons_zero, map_cons, sum_cons]
      omega
    | succ n =>
      have hrest := ih (n := n) h
      simp only [turns, eraseIdx_cons_succ, map_cons, sum_cons] at hrest ⊢
      omega

/-- The futures of a cancellation that has listed `jobs`: each is at its start
or unregisters a job that is over, and every job is deleted or has its future. -/
structure Cancelling (scope : Scope) (jobs : List ℤ) (futures : List (List CancelStep))
    (s : ChildJobs ι) : Prop where
  kept : s.Kept
  listed : jobs ∈ (s.scopes scope).snapshots
  progress : ∀ future ∈ futures, (∃ job ∈ jobs, future = cancelFuture scope job) ∨
    ∃ job, s.isOver job ∧ ∀ step ∈ future, ∃ a, step = .remove a job
  pending : ∀ job ∈ jobs, job ∈ s.deleted ∨ cancelFuture scope job ∈ futures

variable {jobs : List ℤ}

theorem stable_cancelling : Stable i (Cancelling scope jobs futures) := fun _ _ h hspares =>
  ⟨hspares.kept h.kept, hspares.snapshots scope jobs h.listed,
    fun future hmem => (h.progress future hmem).imp_right
      fun ⟨job, hover, hsteps⟩ => ⟨job, hspares.isOver job hover, hsteps⟩,
    fun job hmem => (h.pending job hmem).imp_left (hspares.deleted job)⟩

/-- The jobs of some list of the scope have all been asked to be deleted. -/
def CancelDone (scope : Scope) (s : ChildJobs ι) : Prop :=
  s.Kept ∧ ∃ jobs ∈ (s.scopes scope).snapshots, ∀ job ∈ jobs, job ∈ s.deleted

theorem stable_cancelDone : Stable i (CancelDone scope) := by
  rintro s1 s2 ⟨hkept, jobs, hmem, hall⟩ hspares
  exact ⟨hspares.kept hkept, jobs, hspares.snapshots scope jobs hmem,
    fun job hjob => hspares.deleted job (hall job hjob)⟩

variable {futures' : List (List CancelStep)} {future : List CancelStep} {n : ℕ}

/-- A future that is over, or whose job has been deleted, is replaced. -/
theorem Cancelling.replace (h : Cancelling scope jobs futures s)
    (hkeep : ∀ f ∈ futures, f ≠ future → f ∈ futures') (hnew : ∀ f ∈ futures', f ∈ futures ∨
      ∃ job, s.isOver job ∧ ∀ step ∈ f, ∃ a, step = .remove a job)
    (hdeleted : ∀ job ∈ jobs, future = cancelFuture scope job → job ∈ s.deleted) :
    Cancelling scope jobs futures' s where
  kept := h.kept
  listed := h.listed
  progress := fun f hf => (hnew f hf).elim (h.progress f) .inr
  pending := by
    intro job hjob
    rcases h.pending job hjob with hdel | hmem
    · exact .inl hdel
    · by_cases heq : future = cancelFuture scope job
      · exact .inl (hdeleted job hjob heq)
      · exact .inr (hkeep _ hmem (Ne.symm heq))

theorem mem_set_of_ne {future rest f : List CancelStep} (h : futures[n]? = some future)
    (hf : f ∈ futures) (hne : f ≠ future) : f ∈ futures.set n rest := by
  obtain ⟨m, hm⟩ := mem_iff_getElem?.mp hf
  refine mem_iff_getElem?.mpr ⟨m, ?_⟩
  rw [List.getElem?_set_ne, hm]
  rintro rfl
  rw [h] at hm
  exact hne (Option.some.inj hm).symm

theorem mem_eraseIdx_of_ne {future f : List CancelStep} (h : futures[n]? = some future)
    (hf : f ∈ futures) (hne : f ≠ future) : f ∈ futures.eraseIdx n := by
  obtain ⟨m, hm⟩ := mem_iff_getElem?.mp hf
  refine mem_eraseIdx_iff_getElem?.mpr ⟨m, ?_, hm⟩
  rintro rfl
  rw [h] at hm
  exact hne (Option.some.inj hm).symm

/-- The job was started in the scope or below it, and nowhere else. -/
def OnlyBelow (scope : Scope) (job : ℤ) (s : ChildJobs ι) : Prop :=
  s.below scope job ∧ ∀ e ∈ s.started, e.job = job → scope ∈ e.scope.lineage

/-- The rights of who cancels a scope. -/
def cancelRights (scope : Scope) : Rights ι := ⟨OnlyBelow scope, False⟩

/-- A listed job was started below the scope. -/
theorem Cancelling.onlyBelow (h : Cancelling scope jobs futures s) (hjob : job ∈ jobs) :
    OnlyBelow scope job s := by
  have hjob := (h.kept.listed scope jobs h.listed).2 job hjob
  refine ⟨hjob, fun e he heq => ?_⟩
  obtain ⟨e', he', heq', hbelow⟩ := hjob
  rwa [inj_on_of_nodup_map h.kept.ids he he' (heq.trans heq'.symm)]

/-- A future whose deletion has been asked for goes on, or is dropped. -/
theorem Cancelling.asked (i : ι) (h : Cancelling scope jobs futures s)
    (hfuture : future = cancelFuture scope job) (hkeep : ∀ f ∈ futures, f ≠ future → f ∈ futures')
    (hnew : ∀ f ∈ futures', f ∈ futures ∨ f = scope.lineage.map (.remove · job)) :
    Cancelling scope jobs futures' { s with deleted := job :: s.deleted } := by
  have hspares : Spares i s { s with deleted := job :: s.deleted } :=
    spares_over rfl rfl (fun _ => mem_cons_of_mem _) fun _ => id
  refine (stable_cancelling s _ h hspares).replace hkeep (fun f hf => ?_) fun job' _ heq => ?_
  · refine (hnew f hf).imp_right ?_
    rintro rfl
    refine ⟨job, .inl mem_cons_self, fun step hstep => ?_⟩
    obtain ⟨a, -, rfl⟩ := mem_map.mp hstep
    exact ⟨a, rfl⟩
  · rw [hfuture] at heq
    cases (List.cons.inj heq).1
    exact mem_cons_self

/-- One turn of a future, from what the other turns do. -/
theorem futureTurn_safe
    (hn : n < futures.length) (hs : Cancelling scope jobs futures s)
    (hgo : ∀ futures' s', turns futures' < turns futures → Cancelling scope jobs futures' s' →
      SafeChild i (cancelRights scope) (fun _ => CancelDone scope) (fun _ => CancelDone scope)
        (goOn futures') s') :
    SafeChild i (cancelRights scope) (fun _ => CancelDone scope) (fun _ => CancelDone scope)
      (futureTurn goOn futures n) s := by
  have hE (_ : ChildError) : Stable i (CancelDone scope) := stable_cancelDone
  have hnth := List.getElem?_eq_getElem hn
  have hmem := getElem_mem hn
  generalize futures[n] = future at hnth hmem
  rw [futureTurn, hnth]
  have herase (f : List CancelStep) (hf : f ∈ futures.eraseIdx n) : f ∈ futures :=
    mem_of_mem_eraseIdx hf
  cases future with
  | nil =>
    refine hgo _ s (turns_eraseIdx_lt hnth) (hs.replace
      (fun f hf hne => mem_eraseIdx_of_ne hnth hf hne) (fun f hf => .inl (herase f hf)) ?_)
    exact fun _ _ heq => nomatch heq
  | cons step rest =>
  rcases hs.progress _ hmem with ⟨job, hjob, heq⟩ | ⟨job, hover, hsteps⟩
  · -- the future is at its start
    obtain ⟨rfl, rfl⟩ := List.cons.inj heq
    refine Safe.bind (Spares.refl i) (Safe.attempt
      (Q := fun _ => Cancelling scope jobs (futures.set n (scope.lineage.map (.remove · job))))
      (E := fun _ => Cancelling scope jobs (futures.eraseIdx n))
      (safe_request stable_cancelling (fun _ => stable_cancelling) (fun _ => stable_cancelling) ?_ hs))
      fun r s1 h1 => ?_
    · rintro s1 ch ans s2 h1 ⟨⟩
      refine ⟨⟨fun k _ => spares_over rfl rfl (fun _ => mem_cons_of_mem _) fun _ => id,
        h1.onlyBelow hjob⟩, ?_⟩
      split_ifs
      · exact h1.asked i rfl (fun f hf hne => mem_eraseIdx_of_ne hnth hf hne)
          fun f hf => .inl (herase f hf)
      · exact h1.asked i rfl (fun f hf hne => mem_set_of_ne hnth hf hne)
          fun f hf => mem_or_eq_of_mem_set hf
    · cases r with
      | ok _ => exact hgo _ s1 (turns_set_lt hnth) h1
      | error _ => exact hgo _ s1 (turns_eraseIdx_lt hnth) h1
  · -- the job of the future is over
    obtain ⟨a, rfl⟩ := hsteps step mem_cons_self
    have hJ : Stable i fun s => Cancelling scope jobs futures s ∧ s.isOver job := by
      intro s1 s2 h hspares
      exact ⟨stable_cancelling s1 s2 h.1 hspares, hspares.isOver job h.2⟩
    refine Safe.bind (Spares.refl i) (Q := fun _ => Cancelling scope jobs (futures.set n rest))
      (safe_request hJ (fun _ => stable_cancelling) hE ?_ ⟨hs, hover⟩)
      fun _ s1 h1 => hgo _ s1 (turns_set_lt hnth) h1
    rintro s1 ch ans s2 ⟨h1, hover1⟩ ⟨⟩
    have hspares (k : ι) : Spares k s1 (s1.modify a fun st =>
        { st with jobIds := st.jobIds.filter (· ≠ job) }) :=
      spares_remove fun e _ _ hnot heq => hnot (heq ▸ hover1)
    refine ⟨⟨fun k _ => hspares k, trivial⟩, ?_⟩
    refine (stable_cancelling s1 _ h1 (hspares i)).replace
      (fun f hf hne => mem_set_of_ne hnth hf hne) (fun f hf => ?_) fun job' _ heq => nomatch heq
    rcases mem_or_eq_of_mem_set hf with hf | rfl
    · exact .inl hf
    · exact .inr ⟨job, hover1, fun step hstep => hsteps step (mem_cons_of_mem _ hstep)⟩

/-- Every listed job is deleted, whichever futures go on first. -/
theorem forEachConcurrent_safe (hfuel : turns futures ≤ fuel)
    (hs : Cancelling scope jobs futures s) :
    SafeChild i (cancelRights scope) (fun _ => CancelDone scope) (fun _ => CancelDone scope)
      (forEachConcurrent fuel futures) s := by
  have hE (_ : ChildError) : Stable i (CancelDone scope) := stable_cancelDone
  -- without futures, all jobs are deleted
  have hdone (s : ChildJobs ι) (h : Cancelling scope jobs [] s) : CancelDone scope s :=
    ⟨h.kept, jobs, h.listed, fun job hjob => (h.pending job hjob).resolve_right nofun⟩
  induction fuel generalizing futures s with
  | zero =>
    cases futures with
    | nil => exact fun s' hspares => hdone s' (stable_cancelling s s' hs hspares)
    | cons future futures =>
      simp only [turns, map_cons, sum_cons] at hfuel
      omega
  | succ fuel ih =>
    rw [forEachConcurrent]
    split_ifs with hempty
    · rw [isEmpty_iff.mp hempty] at hs
      exact fun s' hspares => hdone s' (stable_cancelling s s' hs hspares)
    · refine Safe.bind (Spares.refl i)
        (Q := fun n s => n < futures.length ∧ Cancelling scope jobs futures s) ?_ ?_
      · refine safe_request stable_cancelling
          (fun n s1 s2 h hspares => ⟨h.1, stable_cancelling s1 s2 h.2 hspares⟩) hE ?_ hs
        intro s1 ch ans s2 h1 hsem
        cases ch with
        | next n =>
          rw [childSem] at hsem
          split_ifs at hsem with hn
          cases hsem
          exact ⟨sparing_read _ s1 trivial, hn.trans_le (min_le_right _ _), h1⟩
        | proceed | fails | newId | order => cases hsem
      · rintro n s1 ⟨hn, h1⟩
        exact futureTurn_safe hn h1 fun futures' s' hlt => ih (by omega)

/-- **A cancellation asks for the deletion of every job it has listed, and of no
job that was started elsewhere.** -/
theorem cancelChildJobs_safe (hs : s.Kept) :
    SafeChild i (cancelRights scope) (fun _ => CancelDone scope) (fun _ => CancelDone scope)
      (cancelChildJobs scope) s := by
  refine Safe.bind (Spares.refl i)
    (Q := fun jobs => Cancelling scope jobs (jobs.map (cancelFuture scope)))
    (safe_request stable_kept (fun _ => stable_cancelling) (fun _ => stable_cancelDone) ?_ hs)
    fun jobs s1 h1 => forEachConcurrent_safe le_rfl h1
  intro s1 ch ans s2 h1 hsem
  cases ch with
  | order jobs =>
    rw [childSem] at hsem
    split_ifs at hsem with hperm
    cases hsem
    have hspares (k : ι) := spares_close (k := k) hperm
    refine ⟨⟨fun k _ => hspares k, trivial⟩, (hspares i).kept h1, ?_, ?_, ?_⟩
    · rw [modify_scopes, if_pos rfl]
      exact mem_cons_self
    · intro future hmem
      obtain ⟨job, hjob, rfl⟩ := mem_map.mp hmem
      exact .inl ⟨job, hjob, rfl⟩
    · exact fun job hjob => .inr (mem_map_of_mem hjob)
  | proceed | fails | newId | next => cases hsem

end Safe

/-! ### Runs -/

/-- The scope that a participant cancels. -/
def ChildParticipant.cancels : ChildParticipant → Option Scope
  | .cancel scope => some scope
  | .cancelWorkflow => some []
  | .start .. | .complete .. => none

def ChildParticipant.rights : ChildParticipant → Rights ι
  | .start .. => ⟨fun _ _ => True, True⟩
  | .complete .. => ⟨fun _ _ => False, False⟩
  | .cancel scope => cancelRights scope
  | .cancelWorkflow => cancelRights []

/-- What holds when a participant is done. -/
def ChildParticipant.done (i : ι) : ChildParticipant → ChildJobs ι → Prop
  | .start .. => AllSeen i
  | .complete .. => ChildJobs.Kept
  | .cancel scope => CancelDone scope
  | .cancelWorkflow => CancelDone []

theorem kept_new : (ChildJobs.new : ChildJobs ι).Kept :=
  ⟨nodup_nil, fun _ _ => nofun, fun _ _ => nofun⟩

theorem ChildParticipant.prog_safe (i : ι) (p : ChildParticipant) :
    SafeChild i p.rights (fun _ => p.done i) (fun _ => p.done i) (p.prog i) .new := by
  cases p with
  | start scope tracked => exact enqueueChildJob_safe (fun _ _ => trivial) trivial ⟨kept_new, nofun⟩
  | complete scope job => exact completeChildJob_safe kept_new
  | cancel scope => exact cancelChildJobs_safe kept_new
  | cancelWorkflow =>
    refine Safe.bind (Spares.refl i) (Q := fun _ => ChildJobs.Kept)
      (safe_request stable_kept (fun _ => stable_kept) (fun _ => stable_cancelDone) ?_ kept_new)
      fun _ s1 h1 => cancelChildJobs_safe h1
    rintro s1 ch ans s2 h1 ⟨⟩
    have hspares (k : ι) : Spares k s1 { s1 with cancelled := true } :=
      spares_over rfl rfl (fun _ => id) fun _ => id
    exact ⟨⟨fun k _ => hspares k, trivial⟩, (hspares i).kept h1⟩

/-- Only an enqueue adds a job. -/
theorem started_of_childSem (h : childSem ch op s = some (ans, s')) :
    s'.started = s.started ∨ ∃ starter scope tracked, op = .enqueue starter scope tracked := by
  cases op with
  | enqueue starter scope tracked => exact .inr ⟨starter, scope, tracked, rfl⟩
  | close scope =>
    cases ch with
    | order jobs =>
      rw [childSem] at h
      split_ifs at h
      cases h
      exact .inl rfl
    | proceed | fails | newId | next => cases h
  | pick count =>
    cases ch with
    | next n =>
      rw [childSem] at h
      split_ifs at h
      cases h
      exact .inl rfl
    | proceed | fails | newId | order => cases h
  | awaitJob job =>
    rw [childSem] at h
    split_ifs at h
    cases h
    exact .inl rfl
  | isCancelled | isClosed | insert | remove | deleteJob | setCancelled =>
    cases h
    exact .inl rfl

/-- Who cancels a scope has the rights to do so, and is done when the jobs are
deleted. -/
theorem ChildParticipant.cancels_inv {p : ChildParticipant} {scope : Scope}
    (h : p.cancels = some scope) (i : ι) :
    (p.rights : Rights ι) = cancelRights scope ∧ p.done i = CancelDone scope := by
  cases p with
  | cancel | cancelWorkflow =>
    cases h
    exact ⟨rfl, rfl⟩
  | start | complete => cases h

section Runs

variable [DecidableEq ι] {who : ι → ChildParticipant} {i : ι}
  {τ : List (Event ι (ChildOp ι) ChildResp ChildError Unit (ChildJobs ι))}
  {c c' : Config ι (ChildOp ι) ChildResp ChildError Unit (ChildJobs ι)}
  {e : Event ι (ChildOp ι) ChildResp ChildError Unit (ChildJobs ι)}

/-- All participants, before anything has happened. -/
def childPool (who : ι → ChildParticipant) :
    Config ι (ChildOp ι) ChildResp ChildError Unit (ChildJobs ι) :=
  ⟨fun i => (who i).prog i, .new⟩

theorem childRun_safe (hrun : Run (Step childSem) (childPool who) τ c) :
    (∀ e ∈ τ, Sparing e.thread (who e.thread).rights e.op e.ans e.pre e.post) ∧
      ∀ i, SafeChild i (who i).rights (fun _ => (who i).done i) (fun _ => (who i).done i)
        (c.threads i) c.store :=
  hrun.safe (fun i s => Spares.refl i s) (fun _ _ _ _ => Spares.trans)
    (fun i _ hne _ _ _ _ h => h.1 i hne) fun i => (who i).prog_safe i

/-- Every job was started by a participant that starts jobs. -/
theorem starts_of_started (hrun : Run (Step childSem) (childPool who) τ c) :
    ∀ e ∈ c.store.started, ((who e.starter).rights : Rights ι).enqueue := by
  have hsafe := (childRun_safe hrun).1
  refine hrun.invariant_mem
    (I := fun c => ∀ e ∈ c.store.started, ((who e.starter).rights : Rights ι).enqueue)
    (fun c1 ev c2 hev hstep hc1 e he => ?_) nofun
  obtain ⟨hspares, hpermit⟩ := hsafe ev hev
  obtain ⟨ch, hsem⟩ := hstep.sem_eq
  rw [← hstep.post_eq] at he
  rw [← hstep.pre_eq] at hc1
  rcases started_of_childSem hsem with hsame | ⟨starter, scope, tracked, hop⟩
  · exact hc1 e (hsame ▸ he)
  · by_cases hthread : e.starter = ev.thread
    · rw [hop] at hpermit
      exact hthread ▸ hpermit
    · exact hc1 e ((hspares e.starter hthread).own e he rfl)

/-- A job is started below the root while the root is cancelled. -/
def racing : Bool → ChildParticipant
  | false => .start (some [0]) true
  | true => .cancel []

/-- The root is closed between the enqueue and the registration, so that the
start deletes its job. -/
def lateRegistration : List (Bool × ChildChoice) :=
  List.replicate 3 (false, .proceed) ++ [(false, .newId 7), (true, .order [])] ++
    List.replicate 8 (false, .proceed)

end Runs

end Jobworkerp.Workflow
