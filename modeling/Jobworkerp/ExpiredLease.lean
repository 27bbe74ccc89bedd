/-
Jobworkerp/ExpiredLease.lean

A dispatcher that dies with a job of the RDB table in its hands.

The lease of the row is there for this case: once it has expired the row is
fetched again.  But the dispatcher has claimed the attempt in the live status
record as well, before it took the lease, and that claim has no expiry.  The
next dispatcher finds the record at RUNNING and skips the row.

* `live_of_abandoned`: what a dispatcher leaves of the live record when it dies
  between its grab and the start of the runner.
* `exec_check_iff`: the records with which a fetched row gets Execute.
* `expired_executable_iff`: after the lease has expired the row is executable
  exactly if the dead dispatcher had found no record to claim.
-/
import Jobworkerp.Retry
import Jobworkerp.Participants

namespace Jobworkerp

open Interleaving Prog

/-! ### The check of a fetched row -/

variable {app : App} {d : Delivery} {s s' : Store} {τ : List (Call Op Resp JobWorkerError Store)}
  {l : Option JobProcessingStatusRecord} {r : UInt32} {op : Op}

section Check

theorem returns_cancelledDispatchEligibility :
    (cancelledDispatchEligibility d).Returns (· ≠ .execute) := by
  refine Returns.bind (fun startTime => Returns.bind (fun endTime => ?_) _) _
  refine Returns.bind (fun id => ?_) _
  exact fun h : DispatchEligibility.cancelled _ = .execute => nomatch h

theorem returns_claimConflict (current : Option JobProcessingStatusRecord) :
    (claimConflict d current).Returns (· ≠ .execute) := by
  unfold claimConflict
  split
  · split
    · exact returns_cancelledDispatchEligibility
    · exact fun h : DispatchEligibility.skip = .execute => nomatch h
  · exact fun h : DispatchEligibility.skip = .execute => nomatch h

theorem exec_applied (h : (compareAndSetStatus app e n).Exec sem s τ (.ok .applied) s') :
    s.live = e ∧ s'.live = n := by
  unfold compareAndSetStatus at h
  cases hstorage : app.storage with
  | standalone =>
    rw [hstorage] at h
    obtain ⟨ch, hsem, -⟩ := exec_perform.mp h
    have happlied : Applied e n (.compareAndSetEntry e n) (.ok .applied) := ⟨rfl, rfl, rfl⟩
    exact live_of_applied happlied hsem
  | scalable =>
    rw [hstorage] at h
    rcases exec_bind.mp h with ⟨err, -, hbad⟩ | ⟨τ₁, applied, s1, τ₂, hscript, hrest, -⟩
    · cases hbad
    · obtain ⟨ch, hsem, -⟩ := exec_perform.mp hscript
      cases applied with
      | true =>
        obtain ⟨-, -, rfl⟩ := hrest
        have happlied : Applied e n (.compareAndSetScript e n) (.ok true) := ⟨rfl, rfl, rfl⟩
        exact live_of_applied happlied hsem
      | false =>
        have hconflict : (do return .conflict (← findStatusRecord) :
            M StatusTransitionResult).Returns (· ≠ .applied) := by
          refine Returns.bind (fun current => ?_) _
          exact fun h : StatusTransitionResult.conflict current = .applied => nomatch h
        exact absurd rfl (hrest.returns hconflict)

/-- **Execute is given without a record, or with an applied claim.** -/
theorem exec_check_execute (h : (checkRdbCancellationStatus app d).Exec sem s τ (.ok .execute) s') :
    (s.live = none ∧ s'.live = none) ∨
      (s.live = some ⟨.pending, d.data.retried⟩ ∧ s'.live = some ⟨.running, d.data.retried⟩) := by
  obtain ⟨τ₁, record, s1, τ₂, hread, hrest, -⟩ := exec_bind_ok h
  obtain ⟨ch, hsem, -⟩ := exec_perform.mp hread
  have hlive : s1.live = s.live := sem_live hsem (by decide)
  have hrecord : record = s.live := by
    cases effect_of_sem_ok hsem
    rfl
  subst hrecord
  cases hs : s.live with
  | none =>
    rw [hs] at hrest hlive
    obtain ⟨-, -, rfl⟩ := hrest
    exact .inl ⟨rfl, hlive⟩
  | some record =>
    obtain ⟨status, retried⟩ := record
    simp only [hs] at hrest
    split at hrest
    · rename_i hretried
      obtain rfl : retried = d.data.retried := hretried
      cases status with
      | pending =>
        rcases exec_bind.mp hrest with ⟨e, -, hbad⟩ | ⟨τ3, result, s2, τ4, hcas, hend, -⟩
        · cases hbad
        · cases result with
          | applied =>
            obtain ⟨-, -, rfl⟩ := hend
            exact .inr ⟨rfl, (exec_applied hcas).2⟩
          | conflict current => exact absurd rfl (hend.returns (returns_claimConflict current))
      | cancelling =>
        exact absurd rfl (hrest.returns returns_cancelledDispatchEligibility)
      | running | waitResult | unknown => cases hrest.2.1
    · cases hrest.2.1

/-- **A fetched row gets Execute** exactly if its job has no live record, or
one that is PENDING for the attempt of the row. -/
theorem exec_check_iff (h : (checkRdbCancellationStatus app d).Exec reliable s τ res s') :
    res = .ok .execute ↔ s.live = none ∨ s.live = some ⟨.pending, d.data.retried⟩ := by
  constructor
  · rintro rfl
    have hsem : (checkRdbCancellationStatus app d).Exec sem s τ (.ok .execute) s' :=
      h.weaken fun ch op s a hcall => ⟨{ ch with fault := .none }, hcall⟩
    exact (exec_check_execute hsem).imp And.left And.left
  · intro hs
    rcases exec_bind.mp h with ⟨e, hread, -⟩ | ⟨τ₁, record, s1, τ₂, hread, hrest, -⟩
    · cases (exec_findStatusRecord hread).1
    obtain ⟨hrecord, hlive⟩ := exec_findStatusRecord hread
    obtain rfl := Except.ok.inj hrecord
    rcases hs with hs | hs
    · rw [hs] at hrest
      exact hrest.2.1
    · rw [hs] at hrest hlive
      simp only [if_true] at hrest
      rcases exec_bind.mp hrest with ⟨e, hcas, -⟩ | ⟨τ3, result, s2, τ4, hcas, hend, -⟩
      · cases (exec_compareAndSetStatus hcas).1
      · have hresult := (exec_compareAndSetStatus hcas).1
        rw [if_pos hlive] at hresult
        obtain rfl := Except.ok.inj hresult
        exact hend.2.1

end Check

/-! ### A dispatcher that dies -/

/-- Taking the lease of a row. -/
def Op.grabs : Op → Bool
  | .grabRow _ _ | .grabAndMarkRunning _ => true
  | _ => false

def NoGrab (op : Op) : Prop := ¬ op.grabs

/-- The dispatcher gets the lease. -/
def leases : Call Op Resp JobWorkerError Store → Bool
  | ⟨.grabRow _ _, .ok (some _), _, _⟩ => true
  | ⟨.grabAndMarkRunning _, .ok (some _), _, _⟩ => true
  | _ => false

/-- The dispatcher starts the runner, or gives its lease up. -/
def Op.endsHold : Op → Bool
  | .runJob _ | .releaseUnstartedDispatch _ => true
  | _ => false

theorem grabs_of_leases (h : leases c) : c.op.grabs := by
  obtain ⟨op, ans, pre, post⟩ := c
  cases op <;> first | rfl | exact absurd h Bool.false_ne_true

/-- The live record and the attempt of the row. -/
def Holds (l : Option JobProcessingStatusRecord) (r : UInt32) (s : Store) : Prop :=
  s.live = l ∧ s.row.map (·.retried) = some r

section Dead

variable {ch : Choice} {a : Answer op}

theorem retried_setLease (row : Option JobData) (lease : ℤ) :
    (setLease row lease).map (·.retried) = row.map (·.retried) := by
  cases row <;> rfl

theorem retried_of_grab (hop : op.grabs) (h : effect ch op s = some (a, s')) :
    s'.row.map (·.retried) = s.row.map (·.retried) := by
  cases op <;> cases hop
  case grabRow =>
    simp only [effect] at h
    split at h <;> cases h
    · exact retried_setLease _ _
    · rfl
  case grabAndMarkRunning =>
    simp only [effect] at h
    split at h
    · cases h
      rfl
    · split at h <;> cases h
      · exact retried_setLease _ _
      · rfl

theorem row_of_fetch
    (h : sem ch (.fetchRow merginMsec) s = some (.ok (some data), s')) :
    s.row = some data ∧ s'.row = s.row ∧ s'.live = s.live := by
  have heff := effect_of_sem_ok h
  obtain ⟨hanswer, rfl⟩ := answer_eq heff
  split at hanswer
  · exact ⟨(Option.filter_eq_some_iff.mp hanswer).1, rfl, rfl⟩
  · cases hanswer

theorem Holds.grab (hs : Holds l r s) (hop : op.grabs) (h : sem ch op s = some (a, s')) :
    Holds l r s' := by
  refine ⟨(sem_live h ?_).trans hs.1, ?_⟩
  · cases op <;> cases hop <;> simp [Op.table]
  · rw [← hs.2]
    rcases sem_cases h with heff | ⟨-, rfl | ⟨a', heff⟩⟩
    · exact retried_of_grab (s := s.tick ch.tick) hop heff
    · rfl
    · exact retried_of_grab (s := s.tick ch.tick) hop heff

theorem Holds.outside (hs : Holds l r s) (hop : op.table = .outside)
    (h : sem ch op s = some (a, s')) : Holds l r s' := by
  rw [sem_outside h hop]
  exact hs

theorem Exec.holds {α : Type} {p : M α} {τ : List (Call Op Resp JobWorkerError Store)}
    {res : Except JobWorkerError α} (h : p.Exec sem s τ res s')
    (hp : p.Calls (·.table = .outside)) (hs : Holds l r s) : Holds l r s' :=
  h.invariant (I := Holds l r) hp (fun _ _ _ _ _ hop hsem hI => hI.outside hop hsem) hs

end Dead

section Abandoned

variable {session : Option ℤ}

/-- What holds wherever the program stops before it ends its hold. -/
def HoldsUntilEnd {α : Type} (l : Option JobProcessingStatusRecord) (r : UInt32) (p : M α) :
    Prop :=
  ∀ s τ s', Holds l r s → p.Stops sem s τ s' → (∀ c ∈ τ, ¬ c.op.endsHold) → Holds l r s'

variable {α : Type}

theorem holdsUntilEnd_ret (a : α) : HoldsUntilEnd l r (ret a : M α) := by
  intro s τ s' hs h _
  cases τ with
  | nil =>
    obtain rfl := stops_nil.mp h
    exact hs
  | cons c τ => exact h.elim

theorem holdsUntilEnd_perform (op : Op) {β : Type} {k : Resp op → M β}
    (hop : ∀ {s s' ch a}, Holds l r s → sem ch op s = some (a, s') → Holds l r s')
    (hk : ∀ a, HoldsUntilEnd l r (k a)) : HoldsUntilEnd l r (invoke op >>= k) := by
  intro s τ s' hs h hdied
  rcases stops_bind h with hstop | ⟨τ₁, a, s1, τ₂, hexec, hrest, rfl⟩
  · rcases stops_perform hstop with ⟨-, rfl⟩ | ⟨ch, ans, hsem, -⟩
    · exact hs
    · exact hop hs hsem
  · obtain ⟨ch, hsem, -⟩ := exec_perform.mp hexec
    exact hk a s1 τ₂ s' (hop hs hsem) hrest fun c hc => hdied c (List.mem_append_right _ hc)

theorem holdsUntilEnd_ends (hop : op.endsHold) : HoldsUntilEnd l r (call op k) := by
  intro s τ s' hs h hdied
  obtain ⟨-, rfl⟩ := h.of_avoids fun c hc hc' => hdied c hc (hc' ▸ hop)
  exact hs

theorem settleOp_not_grabs (h : SettleOp op) : NoGrab op := by
  cases op <;> first | exact Bool.false_ne_true | exact h.elim

theorem claimOp_not_grabs (h : ClaimOp r op) : NoGrab op := by
  cases op <;> first | exact Bool.false_ne_true | exact absurd h (by simp [ClaimOp, Op.table])

theorem calls_processCancelledDispatchResult (result : JobResult) (w : WorkerData) :
    (processCancelledDispatchResult app result w).Calls NoGrab :=
  calls_processResultInner app (fun _ => settleOp_not_grabs) (fun _ _ => Bool.false_ne_true)
    result false false

/-- Without a permit there is no grab: the attempt is given back. -/
theorem Rdb.not_grabs_giveBack (message : String) : (Rdb.giveBack app d message).Calls NoGrab := by
  refine Calls.bind ?_ fun result => ?_
  · refine Calls.bind ?_ fun outcome => ?_
    · refine Calls.bind (calls_compareAndSetStatus Bool.false_ne_true Bool.false_ne_true
        Bool.false_ne_true) fun result => ?_
      split
      · trivial
      · split <;> trivial
    · split
      · trivial
      · refine ((calls_check d true).mono fun _ => claimOp_not_grabs).bind fun eligibility => ?_
        split
        · exact (calls_processCancelledDispatchResult _ _).bind fun _ => by trivial
        · trivial
        · trivial
      · trivial
  · split <;> trivial

/-- From the grab to the start of the runner. -/
theorem Rdb.holds_startClaimed (hs : Holds l r s)
    (h : (Rdb.startClaimed app session d).Stops sem s τ s') (hgrab : ∃ c ∈ τ, ¬ NoGrab c.op)
    (hdied : ∀ c ∈ τ, ¬ c.op.endsHold) : Holds l r s' := by
  have hrun : HoldsUntilEnd l r (Rdb.runGrabbed app d) := by
    unfold Rdb.runGrabbed runJob
    rw [bind_assoc']
    exact holdsUntilEnd_ends rfl
  cases session with
  | none =>
    have hgrabbed : HoldsUntilEnd l r (Rdb.startClaimed app none d) := by
      refine holdsUntilEnd_perform (.grabRow _ _) (fun hs hsem => hs.grab rfl hsem)
        fun lease => ?_
      cases lease with
      | none => exact holdsUntilEnd_ret none
      | some lease => exact hrun
    exact hgrabbed s τ s' hs h hdied
  | some instanceId =>
    unfold Rdb.startClaimed acquireStartPermit at h
    rw [bind_assoc'] at h
    obtain ⟨τ₁, granted, s1, τ₂, hask, hrest, rfl, c, hc, hnot⟩ :=
      h.past (C := NoGrab) (.perform Bool.false_ne_true) hgrab
    obtain ⟨ch, hsem, -⟩ := exec_perform.mp hask
    have hs1 : Holds l r s1 := hs.outside rfl hsem
    have hdied2 : ∀ c ∈ τ₂, ¬ c.op.endsHold := fun c hc => hdied c (List.mem_append_right _ hc)
    cases granted with
    | false =>
      exact absurd (hrest.calls (Rdb.not_grabs_giveBack _) c hc) hnot
    | true =>
      refine holdsUntilEnd_perform (.grabAndMarkRunning (d.dispatchStart instanceId))
        (fun hs hsem => hs.grab rfl hsem) (fun execution => ?_) s1 τ₂ s' hs1 hrest hdied2
      cases execution with
      | none => exact holdsUntilEnd_ret none
      | some execution =>
        refine holdsUntilEnd_perform .ask (fun hs hsem => hs.outside rfl hsem)
          fun confirmed => ?_
        cases confirmed with
        | true => exact hrun
        | false => exact holdsUntilEnd_ends rfl

theorem claimOp_table (h : ClaimOp r op) : op.table ≠ .job := by
  cases op <;> first
    | (simp [Op.table]; done)
    | exact absurd h (by simp [ClaimOp, Op.table])

theorem outside_not_grabs (h : op.table = .outside) : NoGrab op := by
  cases op <;> first | exact Bool.false_ne_true | exact absurd h (by simp [Op.table])

theorem outside_findByOpt (workerId : Option WorkerId) :
    (findByOpt workerId).Calls (·.table = .outside) := by
  unfold findByOpt
  split
  · trivial
  · refine (Calls.perform (by rfl)).bind fun worker => ?_
    split <;> trivial

/-- The record found by a dispatcher, and the one it leaves when it dies with
the lease of the row. -/
def LeftBehind (r : UInt32) (found left : Option JobProcessingStatusRecord) : Prop :=
  found = none ∧ left = none ∨ found = some ⟨.pending, r⟩ ∧ left = some ⟨.running, r⟩

theorem not_grab_of_stops {p : M α} (h : p.Stops sem s τ s')
    (hp : p.Calls NoGrab) : ¬ ∃ c ∈ τ, ¬ NoGrab c.op := by
  rintro ⟨c, hc, hgrabs⟩
  exact hgrabs (h.calls hp c hc)

/-- From the check to the start of the runner. -/
theorem Rdb.leftBehind_check {w : WorkerData} (hs : Holds l d.data.retried s) (h : (do
      match ← resolveDispatchPreflight app (← checkRdbCancellationStatus app d) w with
      | .execute => Rdb.startClaimed app session d
      | .skip => pure none
      | .completed result => pure (some result) : M (Option JobResult)).Stops sem s τ s')
    (hgrab : ∃ c ∈ τ, ¬ NoGrab c.op) (hdied : ∀ c ∈ τ, ¬ c.op.endsHold) :
    s'.row.map (·.retried) = some d.data.retried ∧ LeftBehind d.data.retried l s'.live := by
  have hcalls : (checkRdbCancellationStatus app d).Calls (ClaimOp d.data.retried) :=
    calls_check d true
  obtain ⟨τ₁, eligibility, s1, τ₂, hcheck, hrest, rfl, hgrab2⟩ :=
    h.past (C := NoGrab) (hcalls.mono fun _ => claimOp_not_grabs) hgrab
  have hdied2 : ∀ c ∈ τ₂, ¬ c.op.endsHold := fun c hc => hdied c (List.mem_append_right _ hc)
  cases eligibility with
  | skip => exact absurd hgrab2 (not_grab_of_stops hrest (by trivial))
  | cancelled result =>
    unfold resolveDispatchPreflight at hrest
    rw [bind_assoc'] at hrest
    exact absurd hgrab2 (not_grab_of_stops hrest
      ((calls_processCancelledDispatchResult result w).bind fun _ => by trivial))
  | execute =>
    have hrow : s1.row = s.row := hcheck.invariant (I := fun t => t.row = s.row) hcalls
      (fun op ch ans t t' hop hsem ht => ((sem_frame hsem).row (claimOp_table hop)).trans ht) rfl
    have hs1 : Holds s1.live d.data.retried s1 := ⟨rfl, hrow ▸ hs.2⟩
    obtain ⟨hlive, hretried⟩ := Rdb.holds_startClaimed hs1 hrest hgrab2 hdied2
    refine ⟨hretried, ?_⟩
    rw [hlive, ← hs.1]
    exact exec_check_execute hcheck

/-- **What a dead dispatcher leaves of the live record**: none if it found
none, and else its claim of the attempt it fetched. -/
theorem leftBehind_of_abandoned {jobId : JobId}
    (h : (dispatchRdbJob app session jobId).Stops sem s τ s')
    (hgrab : ∃ c ∈ τ, ¬ NoGrab c.op) (hdied : ∀ c ∈ τ, ¬ c.op.endsHold) :
    ∃ r, s'.row.map (·.retried) = some r ∧ LeftBehind r s.live s'.live := by
  obtain ⟨τ₁, found, s1, τ₂, hfetch, hrest, rfl, hgrab2⟩ :=
    h.past (C := NoGrab) (.perform Bool.false_ne_true) hgrab
  have hdied2 : ∀ c ∈ τ₂, ¬ c.op.endsHold := fun c hc => hdied c (List.mem_append_right _ hc)
  cases found with
  | none => exact absurd hgrab2 (not_grab_of_stops hrest (by trivial))
  | some data =>
    obtain ⟨ch, hsem, -⟩ := exec_perform.mp hfetch
    obtain ⟨hfound, hrow, hlive⟩ := row_of_fetch hsem
    have hs1 : Holds s.live data.retried s1 := ⟨hlive, by rw [hrow, hfound]; rfl⟩
    obtain ⟨τ3, worker, s2, τ4, hfind, hrest2, rfl, hgrab4⟩ :=
      hrest.past (C := NoGrab) ((outside_findByOpt _).mono fun _ => outside_not_grabs) hgrab2
    have hs2 : Holds s.live data.retried s2 := Exec.holds hfind (outside_findByOpt _) hs1
    match worker with
    | none => exact absurd hgrab4 (not_grab_of_stops hrest2 (by trivial))
    | some (wid, w) =>
      obtain ⟨τ5, runner, s3, τ6, hrunner, hrest3, rfl, hgrab6⟩ :=
        hrest2.past (C := NoGrab) (.perform Bool.false_ne_true) hgrab4
      have hs3 : Holds s.live data.retried s3 := Exec.holds hrunner (.perform rfl) hs2
      cases runner with
      | none => exact absurd hgrab6 (not_grab_of_stops hrest3 (by trivial))
      | some runner =>
        refine ⟨data.retried, ?_⟩
        exact Rdb.leftBehind_check (d := ⟨jobId, wid, w, [], data⟩) hs3 hrest3 hgrab6
          fun c hc => hdied2 c (List.mem_append_right _ (List.mem_append_right _ hc))

/-- **An expired lease makes the job executable again** exactly if the
dispatcher that died had found no live record.  Between its death and the next
fetch anything may happen, except to the row and to the record it left. -/
theorem expired_executable_iff {jobId : JobId} {t t₁ t₂ : Store}
    {τ₁ τ₂ : List (Call Op Resp JobWorkerError Store)}
    {res : Except JobWorkerError DispatchEligibility}
    (hdead : (dispatchRdbJob app session jobId).Stops sem s τ s')
    (hgrab : ∃ c ∈ τ, leases c) (hdied : ∀ c ∈ τ, ¬ c.op.endsHold)
    (hrow : t.row = s'.row) (hlive : t.live = s'.live)
    (hfetch : (invoke (.fetchRow app.fetchInterval)).Exec reliable t τ₁ (.ok (some d.data)) t₁)
    (hcheck : (checkRdbCancellationStatus app d).Exec reliable t₁ τ₂ res t₂) :
    res = .ok .execute ↔ s.live = none := by
  obtain ⟨c, hc, hleases⟩ := hgrab
  obtain ⟨r, hretried, hleft⟩ := leftBehind_of_abandoned hdead
    ⟨c, hc, not_not_intro (grabs_of_leases hleases)⟩ hdied
  obtain ⟨ch, hsem, -⟩ := exec_perform.mp hfetch
  have hsem : sem { ch with fault := .none } (.fetchRow app.fetchInterval) t =
      some (.ok (some d.data), t₁) := hsem
  obtain ⟨hfound, -, hlive1⟩ := row_of_fetch hsem
  have hr : d.data.retried = r := by
    rw [← hrow, hfound] at hretried
    exact Option.some.inj hretried
  rw [exec_check_iff hcheck, hlive1, hlive, hr]
  rcases hleft with ⟨hs, hs'⟩ | ⟨hs, hs'⟩
  · simp [hs, hs']
  · simp [hs, hs']

end Abandoned

/-- A due job, with the given live record. -/
def dueStore (live : Option JobProcessingStatusRecord) : Store :=
  { (default : Store) with
    clock := 5
    live := live
    row := some { (default : JobData) with
      workerId := some ⟨1⟩, runAfterTime := 1, timeout := 1, grabbedUntilTime := some 0 }
    worker := some default
    runner := some ⟨some .both⟩ }

/-- The row as it is fetched once its lease has expired. -/
def expiredDelivery : Delivery :=
  { (default : Delivery) with
    data := { (default : JobData) with
      workerId := some ⟨1⟩, runAfterTime := 1, timeout := 1, grabbedUntilTime := some 10006 } }

/-- The job at that time, without a live record. -/
def expiredStore : Store :=
  { dueStore none with clock := 20000, row := some expiredDelivery.data }

/-- Every question is answered with yes. -/
def yes : Choice := { (default : Choice) with flag := true }

/-- A job without a live record is executed again after its dispatcher died. -/
theorem unpublishedJob_executable : ∃ τ t, (checkRdbCancellationStatus default
    expiredDelivery).Exec reliable expiredStore τ (.ok .execute) t := by
  have hdead : (dispatchRdbJob default none ⟨1⟩).Stops sem (dueStore none) _ _ :=
    stops_of_stopWith yes 5 rfl
  have hfetch : (invoke (.fetchRow (default : App).fetchInterval)).Exec reliable expiredStore _
      (.ok (some expiredDelivery.data)) _ := exec_of_runWith yes rfl
  have hcheck : (checkRdbCancellationStatus default expiredDelivery).Exec reliable
      expiredStore _ _ _ := exec_of_runWith yes rfl
  have hexecute := (expired_executable_iff (d := expiredDelivery) (t := expiredStore) hdead
    (by decide) (by decide) rfl rfl hfetch hcheck).mpr rfl
  exact ⟨_, _, hexecute ▸ hcheck⟩

/-- **A job that is never executed again**: its dispatcher dies right after the
grab, at time 5, with a lease until 10006.  At time 20000 the row is fetched
and skipped, because the record is still at RUNNING. -/
theorem claimedJob_skipped : ∃ τ s' τ₁ t₁ τ₂ t₂,
    (dispatchRdbJob default none ⟨1⟩).Stops sem (dueStore (some ⟨.pending, 0⟩)) τ s' ∧
    (∃ c ∈ τ, leases c) ∧ (∀ c ∈ τ, ¬ c.op.endsHold) ∧
    (invoke (.fetchRow (default : App).fetchInterval)).Exec reliable { s' with clock := 20000 } τ₁
      (.ok (some expiredDelivery.data)) t₁ ∧
    (checkRdbCancellationStatus default expiredDelivery).Exec reliable t₁ τ₂ (.ok .skip) t₂ :=
  ⟨_, _, _, _, _, _, stops_of_stopWith yes 6 rfl, by decide, by decide, exec_of_runWith yes rfl,
    exec_of_runWith yes rfl⟩

end Jobworkerp
