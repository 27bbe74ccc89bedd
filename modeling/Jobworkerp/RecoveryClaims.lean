/-
Jobworkerp/RecoveryClaims.lean

The versions of a row of the status index.

A recovery observes a RUNNING row with its version and claims it by a
compare-and-set that counts the version on and marks the row as deleted.  The
claim is given back, or turned into a PENDING row, by statements that compare
the version again, so that a claim which somebody else has overtaken does
nothing.

Every statement that changes a row counts its version on, but one:
`mark_deleted_by_job_id`.  It applies to rows that are not deleted, which a
claimed row is, so it does not disturb a claim.

The statements run in any order, each at any reading of the clock, and fail as
everywhere in the model.  Claims are not made up: a statement uses one that
`claim_running` has given out.

* `ClaimStep.change`: what a statement does to the row.
* `recovery_claims_exclusive`: a version is claimed once, versions do not
  decrease, and a claim that is given back or reset has not been overtaken.
* `foreignReset_restored`: but `restore_pending_claim_to_running` also takes
  back a row that `reset_to_pending_by_job_id` has reset.
-/
import Jobworkerp.Leases

namespace Jobworkerp

open Interleaving List

/-! ### What a statement does to a row -/

/-- The statements that bring a deleted row back to PENDING. -/
def Op.undeletes (op : Op) (r : StatusIndexRow) : Prop :=
  op = .resetIndexToPending ∨ ∃ claim, op = .resetClaimToPending claim ∧ claim.owns r

/-- The changes of an index row: it is created, marked as deleted, or counted
on; a deleted row that is counted on keeps its status, is RUNNING, or is
undeleted. -/
inductive IndexChange (op : Op) : Option StatusIndexRow → Option StatusIndexRow → Prop
  | same {index} : IndexChange op index index
  | created {r} : IndexChange op none (some r)
  | marked {r r' : StatusIndexRow} : r.deletedAt = none → r'.deletedAt.isSome →
      r'.version = r.version → IndexChange op (some r) (some r')
  | counted {r r' : StatusIndexRow} : r'.version = r.version + 1 →
      (r.deletedAt.isSome → r'.status = .running ∨ r'.status = r.status ∨ op.undeletes r) →
      IndexChange op (some r) (some r')

theorem change_of_updateIndex {index : Option StatusIndexRow} {cond : StatusIndexRow → Bool}
    (hversion : ∀ r, (f r).version = r.version + 1)
    (hdeleted : ∀ r, cond r = true → r.deletedAt.isSome →
      (f r).status = .running ∨ (f r).status = r.status ∨ op.undeletes r) :
    IndexChange op index (updateIndex index cond f).2 := by
  cases index with
  | none => exact .same
  | some r =>
    cases hcond : cond r with
    | true =>
      rw [updateIndex_of hcond]
      exact .counted (hversion r) (hdeleted r hcond)
    | false =>
      rw [updateIndex_of_not hcond]
      exact .same

/-- The statements on a status row. -/
def Op.onStatusRow : Op → Bool
  | .claimRunning _ | .restoreRunning _ | .resetClaimToPending _ => true
  | .restorePendingClaimToRunning _ | .grabAndMarkRunning _ | .releaseUnstartedDispatch _ => true
  | .indexStatus _ _ | .resetIndexToPending | .resetRunningIndexByOwner _ => true
  | .markIndexDeleted => true
  | _ => false

section Effect

variable {ch : Choice} {op : Op} {s s' : Store} {a : Answer op}

theorem not_isSome_of_isNone {r : StatusIndexRow} (h : r.deletedAt.isNone) :
    ¬ r.deletedAt.isSome := by
  rw [Option.isNone_iff_eq_none.mp h]
  exact Bool.false_ne_true

theorem change_of_writeIndexStatus {now : ℤ} {status : JobProcessingStatus}
    {u : StatusIndexUpdate} {index : Option StatusIndexRow} :
    IndexChange op index (writeIndexStatus now status u index).2 := by
  have hdone : IndexChange op index (updateIndex index (·.deletedAt.isNone) fun r =>
      { r with status := status, deletedAt := some now, version := r.version + 1,
               updatedAt := now }).2 :=
    change_of_updateIndex (fun _ => rfl) fun r hcond hdel => absurd hdel (not_isSome_of_isNone hcond)
  cases status with
  | unknown => exact .same
  | pending =>
    cases index with
    | none => exact .created
    | some r =>
      simp only [writeIndexStatus]
      split <;> exact .same
  | running =>
    cases index with
    | none => exact .created
    | some r =>
      refine change_of_updateIndex (fun _ => rfl) fun r hcond hdel => ?_
      exact absurd hdel (not_isSome_of_isNone (of_decide_eq_true hcond).2)
  | waitResult | cancelling => exact hdone

theorem change_of_effect (hop : op.onStatusRow) (h : effect ch op s = some (a, s')) :
    IndexChange op s.index s'.index := by
  cases op <;> cases hop
  case grabAndMarkRunning start =>
    simp only [effect] at h
    split at h
    · cases h
      exact .same
    · split at h
      · cases h
        cases hindex : s.index with
        | none => exact .created
        | some r => exact .counted rfl fun _ => .inl rfl
      · cases h
        exact .same
  case releaseUnstartedDispatch execution =>
    simp only [effect] at h
    split at h
    · cases h
      refine change_of_updateIndex (fun _ => rfl) fun r hcond hdel => ?_
      have hactive := (of_decide_eq_true hcond).2.2
      exact absurd hdel (not_isSome_of_isNone (of_decide_eq_true hactive).2)
    · cases h
      exact .same
  case indexStatus status update =>
    cases h
    exact change_of_writeIndexStatus
  case resetIndexToPending =>
    cases h
    exact change_of_updateIndex (fun _ => rfl) fun r _ _ => .inr (.inr (.inl rfl))
  case resetRunningIndexByOwner owner =>
    cases h
    have hreset : IndexChange (.resetRunningIndexByOwner owner) s.index (updateIndex s.index
        (fun r => r.workerInstanceId = some owner ∧ r.isActive) (·.toPending s.clock)).2 := by
      refine change_of_updateIndex (fun _ => rfl) fun r hcond hdel => ?_
      have hactive := (of_decide_eq_true hcond).2
      exact absurd hdel (not_isSome_of_isNone (of_decide_eq_true hactive).2)
    simp only [resetRunningByOwner]
    split
    · rename_i index' hupdate
      rw [hupdate] at hreset
      exact hreset
    · split <;> exact .same
  case markIndexDeleted =>
    cases h
    cases hindex : s.index with
    | none => exact .same
    | some r =>
      cases hlive : r.deletedAt.isNone with
      | true =>
        simp only [updateIndex, hlive, if_true]
        exact .marked (Option.isNone_iff_eq_none.mp hlive) rfl rfl
      | false =>
        simp only [updateIndex, hlive, Bool.false_eq_true, if_false]
        exact .same
  case claimRunning candidate =>
    cases h
    refine change_of_updateIndex (fun _ => rfl) fun r hcond hdel => ?_
    exact absurd hdel (not_isSome_of_isNone (of_decide_eq_true hcond).2.2.2)
  case restoreRunning claim =>
    cases h
    exact change_of_updateIndex (fun _ => rfl) fun r _ _ => .inr (.inl rfl)
  case resetClaimToPending claim =>
    cases h
    exact change_of_updateIndex (fun _ => rfl) fun r hcond _ =>
      .inr (.inr (.inr ⟨claim, rfl, hcond⟩))
  case restorePendingClaimToRunning claim =>
    cases h
    exact change_of_updateIndex (fun _ => rfl) fun r _ _ => .inl rfl

end Effect

/-! ### Recoveries and the row -/

/-- The row, and the claims that have been given out. -/
structure ClaimSystem where
  store : Store
  claims : List RecoveryClaim

/-- A statement that uses a claim uses one that was given out. -/
def ClaimSystem.permits (c : ClaimSystem) : Op → Bool
  | .restoreRunning claim | .resetClaimToPending claim | .restorePendingClaimToRunning claim =>
    claim ∈ c.claims
  | op => op.onStatusRow

/-- The claim that a statement gives out. -/
def claimTaken (c : Call Op Resp JobWorkerError Store) : Option RecoveryClaim :=
  match c with
  | ⟨.claimRunning _, .ok claim, _, _⟩ => claim
  | _ => none

/-- One statement, at any reading of the clock. -/
inductive ClaimStep : ClaimSystem → Call Op Resp JobWorkerError Store → ClaimSystem → Prop
  | call {c : ClaimSystem} {now : ℤ} {ch : Choice} {op : Op}
      {ans : Except JobWorkerError (Resp op)} {s' : Store} (hpermits : c.permits op = true)
      (hsem : semAt now ch op c.store = some (ans, s')) :
      ClaimStep c ⟨op, ans, c.store, s'⟩
        ⟨s', (claimTaken ⟨op, ans, c.store, s'⟩).toList ++ c.claims⟩

variable {c c' : ClaimSystem} {e : Call Op Resp JobWorkerError Store}

section Step

theorem onStatusRow_of_permits (h : c.permits op = true) : op.onStatusRow := by
  cases op <;> first | exact h | rfl

/-- **What a statement does to the row**, answered or not. -/
theorem ClaimStep.change (h : ClaimStep c e c') :
    IndexChange e.op c.store.index c'.store.index := by
  obtain ⟨hpermits, hsem⟩ := h
  rename_i now ch op ans s'
  have hop := onStatusRow_of_permits hpermits
  rcases semAt_cases hsem with heff | ⟨-, rfl | ⟨a', heff⟩⟩
  · exact change_of_effect (s := { c.store with clock := now }) hop heff
  · exact .same
  · exact change_of_effect (s := { c.store with clock := now }) hop heff

end Step

/-! ### Versions along a run -/

/-- A statement that leaves the row as it is. -/
def Unchanged (e : Call Op Resp JobWorkerError Store) : Prop := e.post.index = e.pre.index

section Run

variable {τ : List (Call Op Resp JobWorkerError Store)} {r r' : StatusIndexRow}

theorem IndexChange.version_le (h : IndexChange op index index') (hr : index = some r) :
    ∃ r', index' = some r' ∧ r.version ≤ r'.version := by
  cases h with
  | same => exact ⟨r, hr, le_refl _⟩
  | created => cases hr
  | marked _ _ hversion =>
    cases hr
    exact ⟨_, rfl, hversion.ge⟩
  | counted hversion _ =>
    cases hr
    exact ⟨_, rfl, by rw [hversion]; exact (lt_add_one _).le⟩

section

variable (h : Run ClaimStep c τ c') (hr : c.store.index = some r)

include h hr

/-- **Versions do not decrease.** -/
theorem version_le_of_run : ∃ r', c'.store.index = some r' ∧ r.version ≤ r'.version :=
  h.invariant (I := fun c => ∃ r', c.store.index = some r' ∧ r.version ≤ r'.version)
    (fun _ _ _ hs ⟨_, hr1, hle⟩ => by
      obtain ⟨r2, hr2, hle'⟩ := hs.change.version_le hr1
      exact ⟨r2, hr2, hle.trans hle'⟩) ⟨r, hr, le_refl _⟩

/-- **A row whose version stays has not been touched**, unless it has been
marked as deleted in between. -/
theorem unchanged_of_version (hr' : c'.store.index = some r') (hversion : r'.version = r.version)
    (hmark : r.deletedAt.isSome ∨ r'.deletedAt = none) : r' = r ∧ ∀ e ∈ τ, Unchanged e := by
  induction τ generalizing c r with
  | nil =>
    obtain rfl := run_nil.mp h
    exact ⟨Option.some.inj (hr'.symm.trans hr), fun _ he => nomatch he⟩
  | cons e τ ih =>
    obtain ⟨c1, hstep, hrun⟩ := h
    have hsame : c1.store.index = c.store.index := by
      have hchange := hstep.change
      rw [hr] at hchange ⊢
      generalize hindex : c1.store.index = index1 at hchange
      cases hchange with
      | same => rfl
      | marked hlive hdel hsame =>
        -- a mark stays while the version does
        obtain ⟨rfl, -⟩ := ih hrun hindex (hversion.trans hsame.symm) (.inl hdel)
        rcases hmark with hmark | hmark
        · rw [hlive] at hmark
          cases hmark
        · rw [hmark] at hdel
          cases hdel
      | counted hcount =>
        -- the version would have grown
        obtain ⟨r2, hr2, hle⟩ := version_le_of_run hrun hindex
        obtain rfl := Option.some.inj (hr'.symm.trans hr2)
        omega
    obtain ⟨rfl, hrest⟩ := ih hrun (hsame.trans hr) hversion hmark
    refine ⟨rfl, fun m hm => ?_⟩
    rcases mem_cons.mp hm with rfl | hm
    · cases hstep
      exact hsame
    · exact hrest m hm

/-- A deleted RUNNING row that is PENDING at the next version has been
undeleted once, and not been touched otherwise. -/
theorem undeleted_of_run (hdel : r.deletedAt.isSome) (hrunning : r.status = .running)
    (hr' : c'.store.index = some r') (hversion : r'.version = r.version + 1)
    (hpending : r'.status = .pending) (hlive : r'.deletedAt = none) :
    ∃ τ₁ m τ₂ c1 c2, τ = τ₁ ++ m :: τ₂ ∧ Run ClaimStep c τ₁ c1 ∧ ClaimStep c1 m c2 ∧
      m.op.undeletes r ∧ ∀ e ∈ τ₁ ++ τ₂, Unchanged e := by
  induction τ generalizing c with
  | nil =>
    obtain rfl := run_nil.mp h
    obtain rfl := Option.some.inj (hr'.symm.trans hr)
    omega
  | cons e τ ih =>
    obtain ⟨c1, hstep, hrun⟩ := h
    have hchange := hstep.change
    rw [hr] at hchange
    generalize hindex : c1.store.index = index1 at hchange
    cases hchange with
    | same =>
      obtain ⟨τ₁, m, τ₂, c2, c3, rfl, hrun1, hm, hop, hquiet⟩ := ih hrun hindex
      refine ⟨e :: τ₁, m, τ₂, c2, c3, rfl, ⟨c1, hstep, hrun1⟩, hm, hop, fun m' hm' => ?_⟩
      rcases mem_cons.mp hm' with rfl | hm'
      · cases hstep
        exact hindex.trans hr.symm
      · exact hquiet m' hm'
    | marked hunmarked =>
      rw [hunmarked] at hdel
      cases hdel
    | counted hcount hcases =>
      obtain ⟨rfl, hquiet⟩ := unchanged_of_version hrun hindex hr'
        (hversion.trans hcount.symm) (.inr hlive)
      refine ⟨[], e, τ, c, c1, rfl, rfl, hstep, ?_, hquiet⟩
      rcases hcases hdel with hstatus | hstatus | hop
      · cases hpending.symm.trans hstatus
      · cases hpending.symm.trans (hstatus.trans hrunning)
      · exact hop

end

end Run

/-! ### Claims -/

section Claims

variable {claim : RecoveryClaim}

/-- `restore_running` or `reset_claim_to_pending` with the claim succeeds. -/
def settlesClaim (claim : RecoveryClaim) : Call Op Resp JobWorkerError Store → Prop
  | ⟨.restoreRunning claim', .ok .claimed, _, _⟩ => claim' = claim
  | ⟨.resetClaimToPending claim', .ok .claimed, _, _⟩ => claim' = claim
  | _ => False

/-- `restore_pending_claim_to_running` with the claim succeeds. -/
def restoresPendingClaim (claim : RecoveryClaim) : Call Op Resp JobWorkerError Store → Prop
  | ⟨.restorePendingClaimToRunning claim', .ok .claimed, _, _⟩ => claim' = claim
  | _ => False

theorem ofAffected_eq_claimed : ClaimOutcome.ofAffected affected = .claimed ↔ affected = true := by
  cases affected <;> decide

theorem ClaimStep.of_claimTaken (h : ClaimStep c e c') (hclaim : claimTaken e = some claim) :
    claim.claimedVersion = claim.candidate.version + 1 ∧ c'.claims = claim :: c.claims ∧
      (∃ r, c.store.index = some r ∧ r.version = claim.candidate.version) ∧
      ∃ r, c'.store.index = some r ∧ r.status = .running ∧ claim.owns r = true := by
  obtain ⟨hpermits, hsem⟩ := h
  rename_i now ch op ans s'
  have hclaims : (claimTaken ⟨op, ans, c.store, s'⟩).toList ++ c.claims = claim :: c.claims := by
    rw [hclaim]
    rfl
  unfold claimTaken at hclaim
  split at hclaim
  · rename_i candidate taken pre post heq
    cases heq
    subst hclaim
    rcases semAt_cases hsem with heff | ⟨⟨e, hbad⟩, -⟩
    · obtain ⟨htaken, rfl⟩ := answer_eq heff
      split at htaken
      · rename_i haffected
        cases htaken
        obtain ⟨r, hr, hcond, hafter⟩ := updateIndex_taken haffected
        have hcond := of_decide_eq_true hcond
        refine ⟨rfl, hclaims, ⟨r, hr, hcond.2.1⟩, _, hafter, hcond.2.2.1, ?_⟩
        exact owns_iff.mpr ⟨hcond.1, congrArg (· + 1) hcond.2.1, rfl⟩
      · cases htaken
    · cases hbad
  · cases hclaim

/-- A claim that is given back or reset owns the row. -/
theorem ClaimStep.of_settlesClaim (h : ClaimStep c e c') (hsettles : settlesClaim claim e) :
    ∃ r, c.store.index = some r ∧ claim.owns r = true := by
  obtain ⟨hpermits, hsem⟩ := h
  rename_i now ch op ans s'
  unfold settlesClaim at hsettles
  split at hsettles
  case h_1 heq | h_2 heq =>
    cases heq
    subst hsettles
    rcases semAt_cases hsem with heff | ⟨⟨e, hbad⟩, -⟩
    · obtain ⟨r, hr, howns, -⟩ := updateIndex_taken (ofAffected_eq_claimed.mp (answer_eq heff).1)
      exact ⟨r, hr, howns⟩
    · cases hbad
  case h_3 => exact hsettles.elim

/-- A reset claim that is taken back finds the row PENDING. -/
theorem ClaimStep.of_restoresPendingClaim (h : ClaimStep c e c')
    (hrestores : restoresPendingClaim claim e) :
    ∃ r, c.store.index = some r ∧ r.status = .pending ∧ r.version = claim.claimedVersion + 1 ∧
      r.deletedAt = none := by
  obtain ⟨hpermits, hsem⟩ := h
  rename_i now ch op ans s'
  unfold restoresPendingClaim at hrestores
  split at hrestores
  · rename_i heq
    cases heq
    subst hrestores
    rcases semAt_cases hsem with heff | ⟨⟨e, hbad⟩, -⟩
    · obtain ⟨r, hr, hcond, -⟩ := updateIndex_taken (ofAffected_eq_claimed.mp (answer_eq heff).1)
      have hcond := of_decide_eq_true hcond
      exact ⟨r, hr, hcond.1, hcond.2.2.1, Option.isNone_iff_eq_none.mp hcond.2.2.2⟩
    · cases hbad
  · exact hrestores.elim

/-- The claims that have been given out are of different versions, which the
row has reached. -/
structure ClaimSystem.Sound (c : ClaimSystem) : Prop where
  reached : ∀ claim ∈ c.claims, ∃ r, c.store.index = some r ∧ claim.claimedVersion ≤ r.version
  unique : ∀ claim ∈ c.claims, ∀ claim' ∈ c.claims,
    claim.claimedVersion = claim'.claimedVersion → claim = claim'

theorem ClaimSystem.sound_of_fresh (h : c.claims = []) : c.Sound := by
  constructor <;> intro claim hclaim <;> rw [h] at hclaim <;> cases hclaim

theorem ClaimStep.sound (h : ClaimStep c e c') (hc : c.Sound) : c'.Sound := by
  have hreached : ∀ claim ∈ c.claims, ∃ r, c'.store.index = some r ∧
      claim.claimedVersion ≤ r.version := by
    intro claim hclaim
    obtain ⟨r, hr, hle⟩ := hc.reached claim hclaim
    obtain ⟨r', hr', hle'⟩ := h.change.version_le hr
    exact ⟨r', hr', hle.trans hle'⟩
  cases htaken : claimTaken e with
  | none =>
    have hclaims : c'.claims = c.claims := by
      cases h
      rw [htaken]
      rfl
    exact ⟨hclaims ▸ hreached, hclaims ▸ hc.unique⟩
  | some claim =>
    obtain ⟨hversion, hclaims, ⟨r, hr, hobserved⟩, r', hr', -, howns⟩ := h.of_claimTaken htaken
    -- the new claim is of a version that no earlier one has reached
    have hfresh : ∀ claim' ∈ c.claims, claim'.claimedVersion ≠ claim.claimedVersion := by
      intro claim' hclaim' heq
      obtain ⟨r2, hr2, hle⟩ := hc.reached claim' hclaim'
      obtain rfl := Option.some.inj (hr.symm.trans hr2)
      omega
    constructor
    · intro claim' hclaim'
      rw [hclaims] at hclaim'
      rcases mem_cons.mp hclaim' with rfl | hclaim'
      · exact ⟨r', hr', (owns_iff.mp howns).2.1.ge⟩
      · exact hreached claim' hclaim'
    · intro claim1 h1 claim2 h2 heq
      rw [hclaims] at h1 h2
      rcases mem_cons.mp h1 with hnew1 | hold1 <;>
        rcases mem_cons.mp h2 with hnew2 | hold2
      · exact hnew1.trans hnew2.symm
      · exact absurd (hnew1 ▸ heq.symm) (hfresh claim2 hold2)
      · exact absurd (hnew2 ▸ heq) (hfresh claim1 hold1)
      · exact hc.unique claim1 hold1 claim2 hold2 heq

/-- A statement that resets a claim has been given it. -/
theorem ClaimStep.mem_claims (h : ClaimStep c e c') (hop : e.op = .resetClaimToPending claim) :
    claim ∈ c.claims := by
  obtain ⟨hpermits, -⟩ := h
  subst hop
  exact of_decide_eq_true hpermits

theorem ClaimStep.claims_subset (h : ClaimStep c e c') (hclaim : claim ∈ c.claims) :
    claim ∈ c'.claims := by
  cases h
  exact mem_append_right _ hclaim

/-- **Claims are exclusive, and stale claims are inert.**  Versions do not
decrease; a version is claimed once; a claim is given back or reset only if
nothing has changed the row since; and a reset claim is taken back only if
nothing but one reset has, by the claim or by `reset_to_pending_by_job_id`. -/
theorem recovery_claims_exclusive {c₀ : ClaimSystem}
    {τ : List (Call Op Resp JobWorkerError Store)} (hstart : c₀.claims = [])
    (h : Run ClaimStep c₀ τ c) :
    (∀ r, c₀.store.index = some r → ∃ r', c.store.index = some r' ∧ r.version ≤ r'.version) ∧
    ∀ τ₁ e τ₂ e' τ₃ claim, τ = τ₁ ++ e :: (τ₂ ++ e' :: τ₃) → claimTaken e = some claim →
      (∀ claim', claimTaken e' = some claim' →
        claim'.candidate.version ≠ claim.candidate.version) ∧
      (settlesClaim claim e' → ∀ m ∈ τ₂, Unchanged m) ∧
      (restoresPendingClaim claim e' → ∃ σ₁ m σ₂, τ₂ = σ₁ ++ m :: σ₂ ∧
        (m.op = .resetClaimToPending claim ∨ m.op = .resetIndexToPending) ∧
        ∀ m' ∈ σ₁ ++ σ₂, Unchanged m') := by
  refine ⟨fun r hr => version_le_of_run h hr, ?_⟩
  rintro τ₁ e τ₂ e' τ₃ claim rfl htaken
  obtain ⟨c1, hrun1, c2, hstep, hrun⟩ := run_append.mp h
  obtain ⟨c3, hrun2, c4, hstep', -⟩ := run_append.mp hrun
  have hsound : c1.Sound := hrun1.invariant (I := ClaimSystem.Sound)
    (fun _ _ _ hs hI => hs.sound hI) (ClaimSystem.sound_of_fresh hstart)
  obtain ⟨hversion, hclaims, -, r, hr, hrunning, howns⟩ := hstep.of_claimTaken htaken
  obtain ⟨-, hclaimed, hdeleted⟩ := owns_iff.mp howns
  have hdel : r.deletedAt.isSome := by
    rw [hdeleted]
    rfl
  refine ⟨fun claim' htaken' => ?_, fun hsettles => ?_, fun hrestores => ?_⟩
  · obtain ⟨-, -, ⟨r', hr', hobserved⟩, -⟩ := hstep'.of_claimTaken htaken'
    obtain ⟨r2, hr2, hle⟩ := version_le_of_run hrun2 hr
    obtain rfl := Option.some.inj (hr'.symm.trans hr2)
    omega
  · obtain ⟨r', hr', howns'⟩ := hstep'.of_settlesClaim hsettles
    exact (unchanged_of_version hrun2 hr hr' ((owns_iff.mp howns').2.1.trans hclaimed.symm)
      (.inl hdel)).2
  · obtain ⟨r', hr', hpending, hversion', hlive⟩ := hstep'.of_restoresPendingClaim hrestores
    obtain ⟨σ₁, m, σ₂, c5, c6, rfl, hrun3, hm, hop, hquiet⟩ := undeleted_of_run hrun2 hr hdel
      hrunning hr' (hversion'.trans (congrArg (· + 1) hclaimed.symm)) hpending hlive
    refine ⟨σ₁, m, σ₂, rfl, ?_, hquiet⟩
    rcases hop with hop | ⟨claim', hop, howns'⟩
    · exact .inr hop
    · -- a claim of the same version is the same claim
      have hmem : claim ∈ c5.claims := hrun3.invariant (I := fun c => claim ∈ c.claims)
        (fun _ _ _ hs hI => hs.claims_subset hI) (by rw [hclaims]; exact mem_cons_self)
      have hsound5 : c5.Sound := hrun3.invariant (I := ClaimSystem.Sound)
        (fun _ _ _ hs hI => hs.sound hI) (hstep.sound hsound)
      have hsame : claim' = claim := hsound5.unique claim' (hm.mem_claims hop) claim hmem
        ((owns_iff.mp howns').2.1.symm.trans hclaimed)
      exact .inl (hsame ▸ hop)

end Claims

/-! ### A reset by somebody else -/

/-- A statement with its reading of the clock. -/
def ClaimSystem.next (c : ClaimSystem) :
    ℤ × Op → Option (Call Op Resp JobWorkerError Store × ClaimSystem)
  | (now, op) =>
    if c.permits op then
      (semAt now default op c.store).map fun (ans, s') =>
        (⟨op, ans, c.store, s'⟩,
          ⟨s', (claimTaken ⟨op, ans, c.store, s'⟩).toList ++ c.claims⟩)
    else none

theorem ClaimSystem.step_of_next (h : c.next i = some (e, c')) : ClaimStep c e c' := by
  obtain ⟨now, op⟩ := i
  simp only [ClaimSystem.next] at h
  split at h
  · rename_i hpermits
    obtain ⟨⟨ans, s'⟩, hsem, heq⟩ := Option.map_eq_some_iff.mp h
    cases heq
    exact .call hpermits hsem
  · cases h

theorem run_of_statements (statements : List (ℤ × Op))
    {τ : List (Call Op Resp JobWorkerError Store)}
    (h : playInputs ClaimSystem.next c statements = some (τ, c')) : Run ClaimStep c τ c' :=
  run_of_playInputs (fun _ _ _ _ => ClaimSystem.step_of_next) h

/-- An execution of instance 7. -/
def runningRow : ClaimSystem :=
  ⟨{ (default : Store) with
      index := some { (default : StatusIndexRow) with
        status := .running, workerInstanceId := some 7, version := 3 } }, []⟩

def observedRow : RunningStatusCandidate :=
  { (default : RunningStatusCandidate) with workerInstanceId := 7, version := 3 }

/-- A claim is reset, and taken back when the publication has failed. -/
theorem ownReset_restored : ∃ e m e' c,
    Run ClaimStep runningRow ([] ++ e :: ([m] ++ e' :: [])) c ∧
      claimTaken e = some ⟨observedRow, 4, 5⟩ ∧ restoresPendingClaim ⟨observedRow, 4, 5⟩ e' ∧
      (m.op = .resetClaimToPending ⟨observedRow, 4, 5⟩ ∨ m.op = .resetIndexToPending) := by
  obtain ⟨e, m, e', c, hrun, htaken, hrestores⟩ : ∃ e m e' c,
      Run ClaimStep runningRow ([] ++ e :: ([m] ++ e' :: [])) c ∧
        claimTaken e = some ⟨observedRow, 4, 5⟩ ∧ restoresPendingClaim ⟨observedRow, 4, 5⟩ e' := by
    have hrun : Run ClaimStep runningRow ([] ++ _ :: ([_] ++ _ :: [])) _ := run_of_statements
      [(5, .claimRunning observedRow), (6, .resetClaimToPending ⟨observedRow, 4, 5⟩),
        (7, .restorePendingClaimToRunning ⟨observedRow, 4, 5⟩)] rfl
    exact ⟨_, _, _, _, hrun, rfl, rfl⟩
  obtain ⟨-, hclaims⟩ := recovery_claims_exclusive rfl hrun
  obtain ⟨-, -, hpending⟩ := hclaims [] e [m] e' [] _ rfl htaken
  obtain ⟨σ₁, m', σ₂, hsplit, hop, -⟩ := hpending hrestores
  obtain rfl : m' = m := by
    rcases σ₁ with - | ⟨x, xs⟩
    · exact ((List.cons.inj hsplit).1).symm
    · simp at hsplit
  exact ⟨e, m', e', c, hrun, htaken, hrestores, hop⟩

/-- **A reset by somebody else**: `reset_to_pending_by_job_id` overtakes the
claim, and `restore_pending_claim_to_running` with the claim still succeeds. -/
theorem foreignReset_restored : ∃ e m e' c,
    Run ClaimStep runningRow ([] ++ e :: ([m] ++ e' :: [])) c ∧
      claimTaken e = some ⟨observedRow, 4, 5⟩ ∧ restoresPendingClaim ⟨observedRow, 4, 5⟩ e' ∧
      m.op = .resetIndexToPending ∧ ¬ Unchanged m := by
  have hrun : Run ClaimStep runningRow ([] ++ _ :: ([_] ++ _ :: [])) _ := run_of_statements
    [(5, .claimRunning observedRow), (6, .resetIndexToPending),
      (7, .restorePendingClaimToRunning ⟨observedRow, 4, 5⟩)] rfl
  refine ⟨_, _, _, _, hrun, rfl, rfl, rfl, ?_⟩
  unfold Unchanged
  decide

end Jobworkerp
