/-
Jobworkerp/UnstartedDispatch.lean

A dispatch that claims an attempt and then does not run it.

After the claim, PENDING to RUNNING, a dispatcher still has to get a start
permit from its worker instance, the lease of the job's row, and the
confirmation of the start.  Each of them can be denied and each of the calls
can fail.  Only the denials by the worker instance are answered by giving the
attempt back; when the lease is lost or a call fails, `process_job` returns
with the record still at RUNNING, and every later delivery of the attempt is
skipped.

* `Settles`, `Decides`: what a part of a dispatch does to the claim, closed
  under sequential composition.
* `unstarted_given_back_iff`: an unstarted attempt is given back exactly when
  the worker instance denied its start and the calls that give it back are
  carried out.
* `lostLease_stranded`: a row whose lease has been taken leaves the record at
  RUNNING.
-/
import Jobworkerp.Participants
import Jobworkerp.UpdateJob

namespace Jobworkerp

open Interleaving Prog List

/-! ### Dispatches next to other threads -/

/-- A store others have changed, with the live record this dispatch left. -/
def Store.keepLive (s : Store) (live : Option JobProcessingStatusRecord) : Store :=
  { s with live := live }

/-- The calls of one dispatch, with given failures.  Other threads may do
anything to the store in between, except to the live record: once somebody
else has changed it, it is not the record this dispatch wrote. -/
def aside (f : Op → Fault) : Sem Op Resp JobWorkerError Store (Store × Choice) :=
  fun ch op s => faulty f ch.2 op (ch.1.keepLive s.live)

/-- A delivery, with what its dispatcher gets to work on. -/
inductive Dispatching
  | queue (session : Option ℤ) (loadOnly : Bool)
  | rdb (session : Option ℤ)
  deriving DecidableEq, Repr

/-- The dispatch of a job by the queue dispatcher of the storage, or by the
RDB dispatcher. -/
def Dispatching.prog (app : App) (job : Job) : Dispatching → M (Option JobResult)
  | .queue session loadOnly => dispatchQueueJob app session job loadOnly
  | .rdb session => Rdb.processJob app session job

/-- The job is handed to the runner. -/
def starts (c : Call Op Resp JobWorkerError Store) : Bool :=
  match c.op with
  | .runJob _ => true
  | _ => false

/-- The worker instance refuses a start permit, or the start itself. -/
def denies : Call Op Resp JobWorkerError Store → Bool
  | ⟨.ask, .ok false, _, _⟩ => true
  | _ => false

/-- The durable claim of an RDB dispatch is not known to be released. -/
def releaseFails : Call Op Resp JobWorkerError Store → Bool
  | ⟨.releaseUnstartedDispatch _, .ok .claimed, _, _⟩ => false
  | ⟨.releaseUnstartedDispatch _, _, _, _⟩ => true
  | _ => false

/-- The call behind `compare_and_set_status`. -/
def casOp (app : App) (expected next : Option JobProcessingStatusRecord) : Op :=
  match app.storage with
  | .standalone => .compareAndSetEntry expected next
  | .scalable => .compareAndSetScript expected next

/-- The call that gives attempt `r` back. -/
def restoreOp (app : App) (r : UInt32) : Op :=
  casOp app (some ⟨.running, r⟩) (some ⟨.pending, r⟩)

/-- The claim is written during these calls. -/
def Claimed (r : UInt32) (τ : Trace) : Prop :=
  ∃ c ∈ τ, c.post.live = some ⟨.running, r⟩
  deriving Decidable

/-- The worker instance has denied the start, before these calls or in them,
and what gives the attempt back is carried out. -/
def GivenBack (f : Op → Fault) (app : App) (r : UInt32) (denied : Prop) (τ : Trace) : Prop :=
  (denied ∨ ∃ c ∈ τ, denies c) ∧ (f (restoreOp app r)).carriedOut ∧ ∀ c ∈ τ, ¬ releaseFails c

/-! ### Single calls -/

variable {f : Op → Fault} {ch : Store × Choice} {op : Op} {s s' : Store}
  {a : Answer op} {app : App} {r : UInt32} {α β : Type} {p : M α}
  {d : Delivery} {job : Job} {jdat : JobData}

section Calls

theorem aside_live (h : aside f ch op s = some (a, s')) (hop : op.table ≠ .live) :
    s'.live = s.live :=
  sem_live (s := ch.1.keepLive s.live) h hop

variable {e : JobWorkerError}

/-- A failed storage call is no reason to delete the job's status. -/
theorem not_deletes_of_effect {ch : Choice}
    (h : effect ch op s = some (.error e, s')) : e.shouldDeleteJobStatus = false := by
  cases op <;> simp only [effect] at h
  case createRow | upsertRowWithClaim =>
    split at h <;> cases h
    rfl
  case grabAndMarkRunning =>
    split at h
    · cases h
      rfl
    · split at h <;> cases h
  case indexStatus status update =>
    have herr : (writeIndexStatus s.clock status update s.index).1 = .error e :=
      congrArg Prod.fst (Option.some.inj h)
    unfold writeIndexStatus at herr
    dsimp only at herr
    split at herr <;> try cases herr
    split at herr <;> cases herr
    rfl
  case grabRow | resetGrabbedUntilTime | releaseUnstartedDispatch | popJob | waitResult
      | awaitPublished | takeTask =>
    split at h <;> cases h
  all_goals cases h

theorem not_deletes_of_aside
    (h : aside f ch op s = some (.error e, s')) : e.shouldDeleteJobStatus = false := by
  simp only [aside, faulty, sem] at h
  split at h
  · exact not_deletes_of_effect h
  · split at h
    · exact not_deletes_of_effect h
    · cases h
      rfl
    · split at h <;> cases h <;> rfl

end Calls

/-! ### Parts of a dispatch -/

section Parts

/-- A call that neither changes the live record nor decides about the claim. -/
def Op.calm : Op → Bool
  | .putStatus _ | .deleteStatus | .compareAndSetEntry _ _ | .compareAndSetScript _ _ => false
  | .ask | .releaseUnstartedDispatch _ => false
  | _ => true

theorem table_ne_of_calm (h : op.calm) : op.table ≠ .live := by
  cases op <;> cases h <;> simp [Op.table]

theorem not_decisive_of_calm (h : c.op.calm) : ¬ denies c ∧ ¬ releaseFails c := by
  obtain ⟨op, ans, pre, post⟩ := c
  cases op <;> cases h <;> exact ⟨Bool.false_ne_true, Bool.false_ne_true⟩

/-- A part that leaves the claim as it is, and fails only in ways that keep
the job's status. -/
def Idle (f : Op → Fault) (p : M α) : Prop :=
  ∀ s τ res s', p.Exec (aside f) s τ res s' →
    s'.live = s.live ∧ (∀ c ∈ τ, ¬ denies c ∧ ¬ releaseFails c ∧ c.post.live = s.live) ∧
      ∀ e, res = .error e → e.shouldDeleteJobStatus = false

theorem idle_ret (a : α) : Idle f (ret a : M α) := by
  rintro s τ res s' ⟨rfl, rfl, rfl⟩
  exact ⟨rfl, fun _ hc => (nomatch hc), fun _ he => nomatch he⟩

theorem idle_fail (he : e.shouldDeleteJobStatus = false) : Idle f (fail e : M α) := by
  rintro s τ res s' ⟨rfl, rfl, rfl⟩
  refine ⟨rfl, fun _ hc => (nomatch hc), fun e' he' => ?_⟩
  obtain rfl := Except.error.inj he'
  exact he

theorem idle_perform (hop : op.calm) : Idle f (invoke op) := by
  intro s τ res s' h
  obtain ⟨ch, hsem, rfl⟩ := exec_perform.mp h
  have hlive : s'.live = s.live := aside_live hsem (table_ne_of_calm hop)
  refine ⟨hlive, fun c hc => ?_, ?_⟩
  · obtain rfl := mem_singleton.mp hc
    exact ⟨(not_decisive_of_calm hop).1, (not_decisive_of_calm hop).2, hlive⟩
  · rintro e rfl
    exact not_deletes_of_aside hsem

theorem Idle.bind {k : α → M β} (hp : Idle f p) (hk : ∀ a, Idle f (k a)) : Idle f (p >>= k) := by
  intro s τ res s' h
  rcases exec_bind.mp h with ⟨e, hfail, rfl⟩ | ⟨τ1, a, s1, τ2, hret, hrest, rfl⟩
  · obtain ⟨hlive, hcalls, herr⟩ := hp _ _ _ _ hfail
    refine ⟨hlive, hcalls, fun e' he' => ?_⟩
    obtain rfl := Except.error.inj he'
    exact herr _ rfl
  · obtain ⟨hlive, hcalls, -⟩ := hp _ _ _ _ hret
    obtain ⟨hlive2, hcalls2, herr⟩ := hk a _ _ _ _ hrest
    refine ⟨hlive2.trans hlive, fun c hc => ?_, herr⟩
    rcases mem_append.mp hc with hc | hc
    · exact hcalls c hc
    · rw [← hlive]
      exact hcalls2 c hc

theorem Idle.attempt (hp : Idle f p) : Idle f p.attempt := by
  intro s τ res s' h
  obtain ⟨res', rfl, hexec⟩ := exec_attempt.mp h
  obtain ⟨hlive, hcalls, -⟩ := hp _ _ _ _ hexec
  exact ⟨hlive, hcalls, fun _ he => nomatch he⟩

theorem Idle.when {p : M Unit} (hp : Idle f p) : Idle f (when c p) := by
  cases c with
  | false => exact idle_ret ()
  | true => exact hp

/-- What has become of the claim when a part of the dispatch ends: the job has
been started, or the record is still RUNNING, or the attempt is PENDING again. -/
inductive Verdict (f : Op → Fault) (app : App) (r : UInt32) (denied : Prop) (τ : Trace)
    (res : Except JobWorkerError α) (s' : Store) : Prop
  | started (h : ∃ c ∈ τ, starts c)
  | kept (hlive : s'.live = some ⟨.running, r⟩) (h : ¬ GivenBack f app r denied τ)
      (herr : ∀ e, res = .error e → e.shouldDeleteJobStatus = false)
  | restored (hlive : s'.live = some ⟨.pending, r⟩) (h : GivenBack f app r denied τ)
      (herr : ∀ e, res = .error e → e.shouldDeleteJobStatus = false)

/-- A part of a dispatch that holds the claim. -/
def Settles (f : Op → Fault) (app : App) (r : UInt32) (denied : Prop) (p : M α) : Prop :=
  ∀ s τ res s', s.live = some ⟨.running, r⟩ → p.Exec (aside f) s τ res s' →
    Verdict f app r denied τ res s'

/-- A part of a dispatch that finds the attempt PENDING. -/
def Decides (f : Op → Fault) (app : App) (r : UInt32) (p : M α) : Prop :=
  ∀ s τ res s', s.live = some ⟨.pending, r⟩ → p.Exec (aside f) s τ res s' →
    Claimed r τ → Verdict f app r False τ res s'

variable {denied : Prop} {k : α → M β}

variable {τ1 τ2 : Trace}

theorem givenBack_append (h : ∀ c ∈ τ1, ¬ denies c ∧ ¬ releaseFails c) :
    GivenBack f app r denied (τ1 ++ τ2) ↔ GivenBack f app r denied τ2 := by
  constructor
  · rintro ⟨hdenied, hrestore, hrelease⟩
    refine ⟨hdenied.imp_right ?_, hrestore, fun c hc => hrelease c (mem_append_right _ hc)⟩
    rintro ⟨c, hc, hdenies⟩
    rcases mem_append.mp hc with hc | hc
    · exact absurd hdenies (h c hc).1
    · exact ⟨c, hc, hdenies⟩
  · rintro ⟨hdenied, hrestore, hrelease⟩
    refine ⟨hdenied.imp_right ?_, hrestore, fun c hc => ?_⟩
    · rintro ⟨c, hc, hdenies⟩
      exact ⟨c, mem_append_right _ hc, hdenies⟩
    · rcases mem_append.mp hc with hc | hc
      · exact (h c hc).2
      · exact hrelease c hc

/-- Nothing is given back before a denial. -/
theorem not_givenBack (h : ∀ c ∈ τ, ¬ denies c) : ¬ GivenBack f app r False τ := by
  rintro ⟨hdenied | ⟨c, hc, hdenies⟩, -⟩
  · exact hdenied
  · exact h c hc hdenies

theorem Verdict.prepend {res : Except JobWorkerError α} (h : Verdict f app r denied τ2 res s')
    (hτ : ∀ c ∈ τ1, ¬ denies c ∧ ¬ releaseFails c) : Verdict f app r denied (τ1 ++ τ2) res s' := by
  cases h with
  | started h =>
    obtain ⟨c, hc, hstarts⟩ := h
    exact .started ⟨c, mem_append_right _ hc, hstarts⟩
  | kept hlive h herr => exact .kept hlive (fun h' => h ((givenBack_append hτ).mp h')) herr
  | restored hlive h herr => exact .restored hlive ((givenBack_append hτ).mpr h) herr

theorem Idle.settles (hp : Idle f p) : Settles f app r False p := by
  intro s τ res s' hs h
  obtain ⟨hlive, hcalls, herr⟩ := hp _ _ _ _ h
  exact .kept (hlive.trans hs) (not_givenBack fun c hc => (hcalls c hc).1) herr

theorem Idle.settles_bind (hp : Idle f p) (hk : ∀ a, Settles f app r False (k a)) :
    Settles f app r False (p >>= k) := by
  intro s τ res s' hs h
  rcases exec_bind.mp h with ⟨e, hfail, rfl⟩ | ⟨τ1, a, s1, τ2, hret, hrest, rfl⟩
  · obtain ⟨hlive, hcalls, herr⟩ := hp _ _ _ _ hfail
    refine .kept (hlive.trans hs) (not_givenBack fun c hc => (hcalls c hc).1) fun e' he' => ?_
    obtain rfl := Except.error.inj he'
    exact herr _ rfl
  · obtain ⟨hlive, hcalls, -⟩ := hp _ _ _ _ hret
    exact (hk a _ _ _ _ (hlive.trans hs) hrest).prepend
      fun c hc => ⟨(hcalls c hc).1, (hcalls c hc).2.1⟩

/-- A question to the worker instance is always answered. -/
theorem settles_ask {k : Bool → M β} (hyes : Settles f app r False (k true))
    (hno : Settles f app r True (k false)) : Settles f app r False (invoke .ask >>= k) := by
  intro s τ res s' hs h
  rcases exec_bind.mp h with ⟨e, hfail, -⟩ | ⟨τ1, a, s1, τ2, hret, hrest, rfl⟩
  · obtain ⟨ch, hsem, -⟩ := exec_perform.mp hfail
    cases hsem
  · obtain ⟨ch, hsem, rfl⟩ := exec_perform.mp hret
    have hlive : s1.live = some ⟨.running, r⟩ := (aside_live hsem (by decide)).trans hs
    cases a with
    | true =>
      refine (hyes _ _ _ _ hlive hrest).prepend fun c hc => ?_
      obtain rfl := mem_singleton.mp hc
      exact ⟨Bool.false_ne_true, Bool.false_ne_true⟩
    | false =>
      have hdenied : ∀ τ, GivenBack f app r True τ ↔
          GivenBack f app r False (⟨.ask, .ok false, s, s1⟩ :: τ) := by
        intro τ
        simp [GivenBack, denies, releaseFails]
      rcases hno _ _ _ _ hlive hrest with ⟨c, hc, hstarts⟩ | ⟨hl, hg, herr⟩ | ⟨hl, hg, herr⟩
      · exact .started ⟨c, mem_append_right _ hc, hstarts⟩
      · exact .kept hl (fun h' => hg ((hdenied _).mpr h')) herr
      · exact .restored hl ((hdenied _).mp hg) herr

/-- Nothing follows a durable claim that could not be released. -/
theorem settles_release {k : ClaimOutcome → M β} (hconflict : k .conflict = fail e)
    (he : e.shouldDeleteJobStatus = false) (hk : Settles f app r denied (k .claimed)) :
    Settles f app r denied (invoke (.releaseUnstartedDispatch execution) >>= k) := by
  intro s τ res s' hs h
  have hfails : ∀ {ans s1}, releaseFails ⟨.releaseUnstartedDispatch execution, ans, s, s1⟩ →
      ¬ GivenBack f app r denied [⟨.releaseUnstartedDispatch execution, ans, s, s1⟩] :=
    fun hc hg => hg.2.2 _ mem_cons_self hc
  rcases exec_bind.mp h with ⟨e', hfail, rfl⟩ | ⟨τ1, a, s1, τ2, hret, hrest, rfl⟩
  · obtain ⟨ch, hsem, rfl⟩ := exec_perform.mp hfail
    refine .kept ((aside_live hsem (by simp [Op.table])).trans hs) (hfails rfl) fun e'' he'' => ?_
    obtain rfl := Except.error.inj he''
    exact not_deletes_of_aside hsem
  · obtain ⟨ch, hsem, rfl⟩ := exec_perform.mp hret
    have hlive : s1.live = some ⟨.running, r⟩ :=
      (aside_live hsem (by simp [Op.table])).trans hs
    cases a with
    | claimed =>
      refine (hk _ _ _ _ hlive hrest).prepend fun c hc => ?_
      obtain rfl := mem_singleton.mp hc
      exact ⟨Bool.false_ne_true, Bool.false_ne_true⟩
    | conflict =>
      rw [hconflict] at hrest
      obtain ⟨rfl, rfl, rfl⟩ := hrest
      refine .kept hlive (hfails rfl) fun e' he' => ?_
      obtain rfl := Except.error.inj he'
      exact he

/-- Nothing is asked of a job that has been started. -/
theorem settles_runJob (job : Job) (dat : JobData) (w : WorkerData)
    (k : JobResult × Bool → M β) : Settles f app r denied (runJob job dat w >>= k) := by
  intro s τ res s' hs h
  have hrun : ∃ c ∈ τ, starts c := by
    unfold runJob at h
    rw [bind_assoc'] at h
    obtain ⟨ch, ans, s1, τ', -, -, rfl⟩ := h
    exact ⟨_, mem_cons_self, rfl⟩
  exact .started hrun

end Parts

/-! ### The claim and its return -/

section Record

variable {expected next : Option JobProcessingStatusRecord} {k : DispatchEligibility → M β}

theorem calm_of_live (h : op.table = .live) (hc : c.op = op) : ¬ denies c ∧ ¬ releaseFails c := by
  obtain ⟨op', ans, pre, post⟩ := c
  obtain rfl : op' = op := hc
  cases op' <;> simp only [Op.table, reduceCtorEq] at h <;>
    exact ⟨Bool.false_ne_true, Bool.false_ne_true⟩

theorem casOp_table (expected next : Option JobProcessingStatusRecord) :
    (casOp app expected next).table = .live := by
  unfold casOp
  split <;> rfl

/-- A call that replaces the record it expects: the record changes if the call
is carried out. -/
theorem aside_expected
        (answer : Store → Resp op) (hop : op.infallible = false)
    (heff : ∀ ch s, effect ch op s =
      some (.ok (answer s), { s with live := compareAndSet s.live expected next }))
    (hs : s.live = expected) (h : aside f ch op s = some (a, s')) :
    s'.live = (if (f op).carriedOut then next else expected) ∧
      (f op = .none → ∃ t : Store, t.live = expected ∧ a = .ok (answer t)) ∧
      (f op ≠ .none → ∃ e, a = .error e ∧ e.shouldDeleteJobStatus = false) := by
  obtain ⟨hpost, hok, herr⟩ := faulty_cases _ hop heff h
  have hlive : ((ch.1.keepLive s.live).tick ch.2.tick).live = expected := hs
  refine ⟨?_, fun hf => ⟨_, hlive, hok hf⟩, fun hf => ?_⟩
  · rw [hpost]
    split
    · exact if_pos hlive
    · exact hlive
  · obtain ⟨e, rfl⟩ := herr hf
    exact ⟨e, rfl, not_deletes_of_aside h⟩

/-- A compare-and-set that expects the record: it is applied if it is carried
out, and reports so if it is answered. -/
theorem exec_expected {res : Except JobWorkerError StatusTransitionResult} (hs : s.live = expected)
    (h : (compareAndSetStatus app expected next).Exec (aside f) s τ res s') :
    ∃ c, τ = [c] ∧ c.op = casOp app expected next ∧ c.post = s' ∧
      s'.live = (if (f (casOp app expected next)).carriedOut then next else expected) ∧
      (f (casOp app expected next) = .none ∧ res = .ok .applied ∨
        ∃ e, res = .error e ∧ e.shouldDeleteJobStatus = false) := by
  unfold compareAndSetStatus at h
  unfold casOp
  cases hstorage : app.storage with
  | standalone =>
    simp only [hstorage] at h ⊢
    obtain ⟨ch, hsem, rfl⟩ := exec_perform.mp h
    obtain ⟨hlive, hok, herr⟩ := aside_expected
      (fun s => if s.live = expected then StatusTransitionResult.applied
        else StatusTransitionResult.conflict s.live)
      rfl (fun _ _ => rfl) hs hsem
    refine ⟨_, rfl, rfl, rfl, hlive, ?_⟩
    by_cases hf : f (.compareAndSetEntry expected next) = .none
    · obtain ⟨t, ht, rfl⟩ := hok hf
      exact .inl ⟨hf, congrArg Except.ok (if_pos ht)⟩
    · exact .inr (herr hf)
  | scalable =>
    simp only [hstorage] at h ⊢
    have hcall : ∀ {ch a s1}, aside f ch (.compareAndSetScript expected next) s = some (a, s1) →
        _ := aside_expected (fun s => decide (s.live = expected)) rfl (fun _ _ => rfl) hs
    rcases exec_bind.mp h with ⟨e, hfail, rfl⟩ | ⟨τ1, applied, s1, τ2, hret, hrest, rfl⟩
    · obtain ⟨ch, hsem, rfl⟩ := exec_perform.mp hfail
      obtain ⟨hlive, -, -⟩ := hcall hsem
      exact ⟨_, rfl, rfl, rfl, hlive, .inr ⟨e, rfl, not_deletes_of_aside hsem⟩⟩
    · obtain ⟨ch, hsem, rfl⟩ := exec_perform.mp hret
      obtain ⟨hlive, hok, herr⟩ := hcall hsem
      by_cases hf : f (.compareAndSetScript expected next) = .none
      · obtain ⟨t, ht, happlied⟩ := hok hf
        obtain rfl : applied = true := (Except.ok.inj happlied).trans (decide_eq_true ht)
        obtain ⟨rfl, rfl, rfl⟩ := hrest
        exact ⟨_, rfl, rfl, rfl, hlive, .inl ⟨hf, rfl⟩⟩
      · obtain ⟨e, he, -⟩ := herr hf
        cases he

/-- **Giving the claim back** takes effect if the call is carried out. -/
theorem settles_restore {k : StatusTransitionResult → M β} (hk : Idle f (k .applied)) :
    Settles f app r True
      (compareAndSetStatus app (some ⟨.running, r⟩) (some ⟨.pending, r⟩) >>= k) := by
  intro s τ res s' hs h
  rcases exec_bind.mp h with ⟨e, hfail, rfl⟩ | ⟨τ1, a, s1, τ2, hret, hrest, rfl⟩
  · obtain ⟨c, rfl, hop, -, hlive, hres⟩ := exec_expected hs hfail
    have herr : ∀ e', (Except.error e : Except JobWorkerError β) = .error e' →
        e'.shouldDeleteJobStatus = false := by
      rintro e' ⟨⟩
      rcases hres with ⟨-, hbad⟩ | ⟨e', he', hdeletes⟩
      · cases hbad
      · obtain rfl := Except.error.inj he'
        exact hdeletes
    cases hcarried : (f (restoreOp app r)).carriedOut with
    | true =>
      refine .restored (hlive.trans (if_pos hcarried)) ⟨.inl trivial, hcarried, fun c' hc' => ?_⟩
        herr
      obtain rfl := mem_singleton.mp hc'
      exact (calm_of_live (casOp_table _ _) hop).2
    | false =>
      refine .kept (hlive.trans (if_neg (Bool.eq_false_iff.mp hcarried))) (fun hg => ?_) herr
      exact Bool.eq_false_iff.mp hcarried hg.2.1
  · obtain ⟨c, rfl, hop, -, hlive, ⟨hf, hres⟩ | ⟨e, hres, -⟩⟩ := exec_expected hs hret
    · obtain rfl := Except.ok.inj hres
      have hcarried : (f (restoreOp app r)).carriedOut := by
        rw [restoreOp, hf]
        rfl
      obtain ⟨hlive2, hcalls, herr⟩ := hk _ _ _ _ hrest
      refine .restored (hlive2.trans (hlive.trans (if_pos hcarried)))
        ⟨.inl trivial, hcarried, fun c' hc' => ?_⟩ herr
      rcases mem_cons.mp hc' with rfl | hc'
      · exact (calm_of_live (casOp_table _ _) hop).2
      · exact (hcalls c' hc').2.1
    · cases hres

/-- **The claim**: what follows it holds the claim. -/
theorem decides_claim (hk : Settles f app d.data.retried False (k .execute)) :
    Decides f app d.data.retried (claimAttempt app d >>= k) := by
  intro s τ res s' hs h hclaimed
  unfold claimAttempt at h
  rw [bind_assoc'] at h
  rcases exec_bind.mp h with ⟨e, hfail, rfl⟩ | ⟨τ1, a, s1, τ2, hret, hrest, rfl⟩
  · obtain ⟨c, rfl, hop, rfl, hlive, hres⟩ := exec_expected hs hfail
    -- the claim went unanswered, but it is there
    obtain ⟨c', hc', hrunning⟩ := hclaimed
    obtain rfl := mem_singleton.mp hc'
    refine .kept hrunning (not_givenBack fun c'' hc'' => ?_) ?_
    · obtain rfl := mem_singleton.mp hc''
      exact (calm_of_live (casOp_table _ _) hop).1
    · rintro e' ⟨⟩
      rcases hres with ⟨-, hbad⟩ | ⟨e', he', hdeletes⟩
      · cases hbad
      · obtain rfl := Except.error.inj he'
        exact hdeletes
  · obtain ⟨c, rfl, hop, -, hlive, ⟨hf, hres⟩ | ⟨e, hres, -⟩⟩ := exec_expected hs hret
    · obtain rfl := Except.ok.inj hres
      have hrunning : s1.live = some ⟨.running, d.data.retried⟩ := by
        rw [hlive, hf]
        rfl
      refine (hk _ _ _ _ hrunning hrest).prepend fun c' hc' => ?_
      obtain rfl := mem_singleton.mp hc'
      exact calm_of_live (casOp_table _ _) hop
    · cases hres

theorem Idle.decides_bind {k : α → M β} (hp : Idle f p)
    (hk : ∀ a, Decides f app r (k a)) : Decides f app r (p >>= k) := by
  intro s τ res s' hs h hclaimed
  have hpending : ∀ {τ : Trace}, (∀ c ∈ τ, ¬ denies c ∧ ¬ releaseFails c ∧ c.post.live = s.live) →
      ¬ Claimed r τ := by
    rintro τ hcalls ⟨c, hc, hrunning⟩
    rw [(hcalls c hc).2.2, hs] at hrunning
    cases hrunning
  rcases exec_bind.mp h with ⟨e, hfail, rfl⟩ | ⟨τ1, a, s1, τ2, hret, hrest, rfl⟩
  · exact absurd hclaimed (hpending (hp _ _ _ _ hfail).2.1)
  · obtain ⟨hlive, hcalls, -⟩ := hp _ _ _ _ hret
    obtain ⟨c, hc, hrunning⟩ := hclaimed
    have hclaimed2 : Claimed r τ2 := by
      rcases mem_append.mp hc with hc | hc
      · exact absurd ⟨c, hc, hrunning⟩ (hpending hcalls)
      · exact ⟨c, hc, hrunning⟩
    exact (hk a _ _ _ _ (hlive.trans hs) hrest hclaimed2).prepend
      fun c hc => ⟨(hcalls c hc).1, (hcalls c hc).2.1⟩

/-- A call that never puts a record to RUNNING. -/
def Unclaiming : Op → Prop
  | .putStatus record => record.status = .pending
  | op => SettleOp op

theorem SettleOp.unclaiming (h : SettleOp op) : Unclaiming op := by
  cases op <;> first | exact h | exact h.elim

theorem Unclaiming.live_ne (hop : Unclaiming op) (h : aside f ch op s = some (a, s'))
    (hs : s.live ≠ some ⟨.running, r⟩) : s'.live ≠ some ⟨.running, r⟩ := by
  have hlive : ((ch.1.keepLive s.live).tick ch.2.tick).live = s.live := rfl
  have heffect : ∀ {ch : Choice} {t t' : Store} {a : Answer op},
      t.live = s.live → effect ch op t = some (a, t') → t'.live ≠ some ⟨.running, r⟩ := by
    intro ch t t' a ht heff
    by_cases htable : op.table = .live
    · cases op <;> simp only [Op.table, reduceCtorEq] at htable
      case putStatus record =>
        cases heff
        rintro ⟨⟩
        cases hop
      case deleteStatus =>
        cases heff
        rintro ⟨⟩
      case compareAndSetEntry | compareAndSetScript =>
        cases heff
        dsimp only [compareAndSet]
        split
        · exact hop.2 r
        · rw [ht]
          exact hs
    · rw [(effect_frame heff).live htable, ht]
      exact hs
  rcases sem_cases h with heff | ⟨-, rfl | ⟨a', heff⟩⟩
  · exact heffect hlive heff
  · exact hs
  · exact heffect hlive heff

theorem decides_of_calls (hp : p.Calls Unclaiming) : Decides f app r p := by
  rintro s τ res s' hs h ⟨c, hc, hrunning⟩
  refine absurd hrunning ((h.along (I := fun t => t.live ≠ some ⟨.running, r⟩) hp
    (fun op ch ans t t' hop hsem => hop.live_ne hsem) ?_).1 c hc).2
  rw [hs]
  nofun

/-- **Checking a delivery** whose attempt is PENDING claims it. -/
theorem decides_check
    (hk : Settles f app d.data.retried False (k .execute)) : Decides f app d.data.retried
      (checkCancellationStatusWithMissingStatus app d executeWhenStatusMissing >>= k) := by
  intro s τ res s' hs h hclaimed
  unfold checkCancellationStatusWithMissingStatus at h
  rw [bind_assoc'] at h
  -- reading the record is idle, and it finds the PENDING record
  have hread : Idle f findStatusRecord := idle_perform rfl
  rcases exec_bind.mp h with ⟨e, hfail, rfl⟩ | ⟨τ1, record, s1, τ2, hret, hrest, rfl⟩
  · refine (hread.decides_bind (k := fun _ => (fail default : M β))
      fun _ => decides_of_calls trivial) s τ _ s' hs ?_ hclaimed
    exact exec_bind.mpr (.inl ⟨e, hfail, rfl⟩)
  · obtain ⟨ch, hsem, hτ1⟩ := exec_perform.mp hret
    have hrecord : record = some ⟨.pending, d.data.retried⟩ := by
      have hread : sem { ch.2 with fault := f .getStatus } .getStatus (ch.1.keepLive s.live) =
          some (.ok record, s1) := hsem
      cases effect_of_sem_ok hread
      exact hs
    subst hrecord
    dsimp only at hrest
    rw [if_pos rfl] at hrest
    refine hread.decides_bind (k := fun _ => claimAttempt app d >>= k)
      (fun _ => decides_claim hk) s _ _ s' hs ?_ hclaimed
    exact exec_bind.mpr (.inr ⟨τ1, _, s1, τ2, hret, hrest, rfl⟩)

end Record

/-! ### The dispatchers -/

section Dispatchers

theorem idle_bestEffortIndex (hop : op.calm) : Idle f (bestEffortIndex app op) :=
  Idle.when ((idle_perform hop).attempt.bind fun _ => idle_ret ())

theorem Redis.idle_releaseUnstarted (lease : Option ℤ) (permit : ℤ) :
    Idle f (Redis.releaseUnstarted app d lease permit) := by
  refine Idle.bind ?_ fun _ => ?_
  · unfold Redis.releaseLease
    split
    · refine (idle_perform (by rfl)).bind fun released => ?_
      split
      · exact idle_ret ()
      · exact idle_fail rfl
    · exact idle_ret ()
  · refine Idle.when (Idle.bind (idle_perform (by rfl))
      fun outcome => ?_)
    split
    · exact idle_fail rfl
    · exact idle_ret ()

theorem Redis.settles_requeueUnstarted (hrelease : Idle f release)
    (message : String) :
    Settles f app d.data.retried True (Redis.requeueUnstarted app d release message) := by
  unfold Redis.requeueUnstarted restorePendingAttemptForRequeue
  rw [bind_assoc']
  refine settles_restore (hrelease.bind fun _ => ?_)
  exact (idle_perform (by rfl)).bind fun _ => idle_fail rfl

theorem Rdb.settles_giveBack (message : String) :
    Settles f app d.data.retried True (Rdb.giveBack app d message) := by
  unfold Rdb.giveBack restoreOrFinalizeUnstartedRdbDispatch restorePendingAfterUnstartedRdbDispatch
  rw [bind_assoc', bind_assoc']
  exact settles_restore (idle_fail rfl)

theorem Chan.settles_startClaimed :
    Settles f app d.data.retried False (Chan.startClaimed app d) := by
  have hrun : Settles f app d.data.retried False (Chan.runClaimed app d) :=
    Idle.settles_bind (idle_bestEffortIndex (by rfl))
      fun _ => settles_runJob _ _ _ _
  unfold Chan.startClaimed
  split
  · refine Idle.settles_bind (idle_perform (by rfl)) fun lease => ?_
    split
    · exact hrun
    · exact (idle_fail rfl).settles
  · exact hrun

theorem settles_confirmStart (permit : Option ℤ) {k : Bool → M β}
    (hyes : Settles f app d.data.retried False (k true))
    (hno : permit.isSome → Settles f app d.data.retried True (k false)) :
    Settles f app d.data.retried False (confirmStart permit >>= k) := by
  cases permit with
  | none => exact hyes
  | some instanceId => exact settles_ask hyes (hno rfl)

theorem Redis.settles_runClaimed (permit lease : Option ℤ) :
    Settles f app d.data.retried False (Redis.runClaimed app d permit lease) := by
  refine Idle.settles_bind
    (Idle.when (idle_perform (by rfl))) fun _ => ?_
  refine settles_confirmStart permit (settles_runJob _ _ _ _) fun _ => ?_
  exact Redis.settles_requeueUnstarted (Redis.idle_releaseUnstarted _ _) _

theorem Redis.settles_granted (permit : Option ℤ) : Settles f app d.data.retried False
    (if d.usesBackup then do
      match ← invoke (.grabRow d.data.timeout (d.data.grabbedUntilTime.getD 0)) with
      | some lease => Redis.runClaimed app d permit (some lease)
      | none => fail (.alreadyExists "already grabbed: ")
    else Redis.runClaimed app d permit none) := by
  split
  · refine Idle.settles_bind (idle_perform (by rfl)) fun lease => ?_
    split
    · exact Redis.settles_runClaimed _ _
    · exact (idle_fail (by rfl)).settles
  · exact Redis.settles_runClaimed _ _

theorem Redis.settles_startClaimed (session : Option ℤ) :
    Settles f app d.data.retried False (Redis.startClaimed app session d) := by
  cases session with
  | none => exact settles_granted none
  | some instanceId =>
    unfold Redis.startClaimed acquireStartPermit
    rw [bind_assoc']
    exact settles_ask (settles_granted (some instanceId))
      (Redis.settles_requeueUnstarted (idle_ret ()) _)

theorem Rdb.settles_startClaimed (session : Option ℤ) :
    Settles f app d.data.retried False (Rdb.startClaimed app session d) := by
  have hrun : Settles f app d.data.retried False (Rdb.runGrabbed app d) :=
    settles_runJob _ _ _ _
  cases session with
  | none =>
    have hgrab : Idle f (invoke (.grabRow d.data.timeout (d.data.grabbedUntilTime.getD 0))) :=
      idle_perform rfl
    refine hgrab.settles_bind fun lease => ?_
    cases lease with
    | none => exact (idle_ret none).settles
    | some lease => exact hrun
  | some instanceId =>
    unfold Rdb.startClaimed acquireStartPermit
    rw [bind_assoc']
    refine settles_ask ?_ (Rdb.settles_giveBack _)
    have hgrab : Idle f (invoke (.grabAndMarkRunning (d.dispatchStart instanceId))) :=
      idle_perform rfl
    refine hgrab.settles_bind fun execution => ?_
    cases execution with
    | none => exact (idle_ret none).settles
    | some execution =>
      refine settles_confirmStart (some instanceId) hrun fun _ => ?_
      exact settles_release rfl rfl (Rdb.settles_giveBack _)

theorem decides_preflight
    (hstart : Settles f app d.data.retried False start) : Decides f app d.data.retried (do
      match ← resolveDispatchPreflight app
          (← checkCancellationStatusWithMissingStatus app d executeWhenStatusMissing) w with
      | .execute => start
      | .skip => pure none
      | .completed result => pure (some result)) :=
  decides_check hstart

theorem idle_findByOpt (workerId : Option WorkerId) : Idle f (findByOpt workerId) := by
  cases workerId with
  | none => exact idle_ret none
  | some wid =>
    refine (idle_perform (by rfl)).bind fun worker => ?_
    cases worker with
    | none => exact idle_ret none
    | some w => exact idle_ret _

theorem calls_preloadRunner (job : Job) (dat : JobData) (w : WorkerData) :
    (preloadRunner job dat w).Calls Unclaiming := by
  refine (Calls.perform (by trivial)).bind fun o => ?_
  refine Calls.bind ?_ fun id => by trivial
  refine (Calls.perform (by trivial)).attempt.bind fun generated => ?_
  split <;> trivial

theorem decides_processQueueJob (hjob : job.data = some jdat)
    (loadOnly : Bool)
    (hstart : ∀ d, Settles f app d.data.retried False (start d)) :
    Decides f app jdat.retried (processQueueJob app job loadOnly start) := by
  unfold processQueueJob
  rw [hjob]
  cases job.id with
  | none => exact decides_of_calls trivial
  | some jid =>
    refine (idle_findByOpt _).decides_bind fun found => ?_
    match found with
    | none => exact decides_of_calls trivial
    | some (wid, w) =>
      have hrunner : Idle f (invoke .findRunner) := idle_perform rfl
      refine hrunner.decides_bind fun runner => ?_
      cases runner with
      | none => exact decides_of_calls trivial
      | some runner =>
        cases loadOnly with
        | true =>
          refine decides_of_calls ((calls_preloadRunner job jdat w).bind fun result => ?_)
          exact (calls_processResultInner app (fun _ => SettleOp.unclaiming)
            (fun _ _ => rfl) result false true).bind fun _ => by trivial
        | false =>
          exact decides_preflight (d := ⟨jid, wid, w, job.metadata, jdat⟩) (hstart _)

theorem Rdb.decides_processJob (hjob : job.data = some jdat)
    (session : Option ℤ) : Decides f app jdat.retried (Rdb.processJob app session job) := by
  unfold Rdb.processJob
  rw [hjob]
  cases job.id with
  | none => exact decides_of_calls trivial
  | some jid =>
    refine (idle_findByOpt _).decides_bind fun found => ?_
    match found with
    | none => exact decides_of_calls trivial
    | some (wid, w) =>
      have hrunner : Idle f (invoke .findRunner) := idle_perform rfl
      refine hrunner.decides_bind fun runner => ?_
      cases runner with
      | none => exact decides_of_calls trivial
      | some runner =>
        exact decides_preflight (d := ⟨jid, wid, w, job.metadata, jdat⟩)
          (Rdb.settles_startClaimed session)

theorem calls_cleanupFailedJobStatus_unclaiming : (cleanupFailedJobStatus app).Calls Unclaiming :=
  (calls_deleteStatus trivial).ignore.bind fun _ => calls_bestEffortIndex trivial

/-- Handling the error of a queue dispatch: the status is deleted only for
errors from before the claim. -/
theorem decides_processDequeJob (h : Decides f app r process)
    (job : Job) : Decides f app r (processDequeJob app process job) := by
  intro s τ res s' hs hexec hclaimed
  obtain ⟨τ1, res1, s1, τ2, hprocess, hrest, rfl⟩ := exec_attempt_bind hexec
  by_cases hclaimed1 : Claimed r τ1
  · cases res1 with
    | ok result =>
      obtain ⟨rfl, rfl, rfl⟩ := hrest
      rw [append_nil]
      exact h _ _ _ _ hs hprocess hclaimed1
    | error e =>
      have hverdict := h _ _ _ _ hs hprocess hclaimed1
      have hend : e.shouldDeleteJobStatus = false → Verdict f app r False (τ1 ++ τ2) res s' := by
        intro hkeeps
        simp only [hkeeps, Bool.and_false] at hrest
        obtain ⟨rfl, rfl, rfl⟩ := hrest
        rw [append_nil]
        exact hverdict
      rcases hverdict with ⟨c, hc, hstarts⟩ | ⟨-, -, herr⟩ | ⟨-, -, herr⟩
      · exact .started ⟨c, mem_append_left _ hc, hstarts⟩
      · exact hend (herr e rfl)
      · exact hend (herr e rfl)
  · -- without a claim the clean-up finds none either
    have hs1 : s1.live ≠ some ⟨.running, r⟩ := by
      intro hrunning
      rcases hprocess.last with rfl | ⟨c, hc, rfl⟩
      · rw [hs] at hrunning
        cases hrunning
      · exact hclaimed1 ⟨c, hc, hrunning⟩
    have hunclaimed : ∀ c ∈ τ2, c.post.live ≠ some ⟨.running, r⟩ := by
      cases res1 with
      | ok result =>
        obtain ⟨rfl, -, -⟩ := hrest
        exact fun _ hc => nomatch hc
      | error e =>
        exact fun c hc => ((hrest.along (I := fun t => t.live ≠ some ⟨.running, r⟩)
          (calls_cleanupFailedJobStatus_unclaiming.when.bind fun _ => by trivial)
          (fun op ch ans t t' hop hsem => Unclaiming.live_ne hop hsem) hs1).1 c hc).2
    obtain ⟨c, hc, hrunning⟩ := hclaimed
    rcases mem_append.mp hc with hc | hc
    · exact absurd ⟨c, hc, hrunning⟩ hclaimed1
    · exact absurd hrunning (hunclaimed c hc)

end Dispatchers

/-! ### Unstarted attempts -/

section Main

variable {τ : Trace} {res : Except JobWorkerError (Option JobResult)}

theorem Dispatching.decides (D : Dispatching) (hjob : job.data = some jdat) :
    Decides f app jdat.retried (D.prog app job) := by
  cases D with
  | rdb session => exact Rdb.decides_processJob hjob session
  | queue session loadOnly =>
    refine decides_processDequeJob ?_ job
    cases app.storage with
    | scalable => exact decides_processQueueJob hjob _ fun d => Redis.settles_startClaimed session
    | standalone => exact decides_processQueueJob hjob _ fun d => Chan.settles_startClaimed

/-- **An unstarted attempt is given back** exactly when the worker instance
denied its start and the calls that give it back are carried out. -/
theorem unstarted_given_back_iff (D : Dispatching) (hjob : job.data = some jdat)
    (hpending : s.live = some ⟨.pending, jdat.retried⟩)
    (hexec : (D.prog app job).Exec (aside f) s τ res s') (hclaimed : Claimed jdat.retried τ)
    (hunstarted : ∀ c ∈ τ, ¬ starts c) :
    s'.live ≠ some ⟨.running, jdat.retried⟩ ↔
      (∃ c ∈ τ, denies c) ∧ (f (restoreOp app jdat.retried)).carriedOut ∧
        ∀ c ∈ τ, ¬ releaseFails c := by
  have hiff : GivenBack f app jdat.retried False τ ↔ (∃ c ∈ τ, denies c) ∧
      (f (restoreOp app jdat.retried)).carriedOut ∧ ∀ c ∈ τ, ¬ releaseFails c := by
    unfold GivenBack
    rw [false_or]
  rw [← hiff]
  rcases D.decides hjob s τ res s' hpending hexec hclaimed with
    ⟨c, hc, hstarts⟩ | ⟨hlive, hkept, -⟩ | ⟨hlive, hback, -⟩
  · exact absurd hstarts (hunstarted c hc)
  · exact ⟨fun hne => absurd hlive hne, fun h => absurd h hkept⟩
  · refine ⟨fun _ => hback, fun _ => ?_⟩
    rw [hlive]
    nofun

end Main

/-- A job of a worker that has been fetched while it was not leased. -/
def fetchedJob : Job :=
  ⟨some ⟨1⟩, some { (default : JobData) with
    workerId := some ⟨1⟩, runAfterTime := 1, grabbedUntilTime := some 0 }, []⟩

/-- The job, with its attempt PENDING; its row is leased until time 5. -/
def leasedStore : Store :=
  { (default : Store) with
    live := some ⟨.pending, 0⟩
    row := some { (default : JobData) with
      workerId := some ⟨1⟩, runAfterTime := 1, grabbedUntilTime := some 5 }
    worker := some default
    runner := some ⟨some .both⟩ }

/-- A Redis delivery to an isolated worker instance is given back. -/
theorem isolatedDelivery_given_back : ∃ τ res s',
    ((Dispatching.queue (some 7) false).prog { (default : App) with storage := .scalable }
      fetchedJob).Exec (aside fun _ => .none) leasedStore τ res s' ∧
      s'.live ≠ some ⟨.running, 0⟩ := by
  have hexec : ((Dispatching.queue (some 7) false).prog
      { (default : App) with storage := .scalable } fetchedJob).Exec (aside fun _ => .none)
      leasedStore _ _ _ := exec_of_runWith (leasedStore, default) rfl
  exact ⟨_, _, _, hexec, (unstarted_given_back_iff _ rfl rfl hexec (by decide) (by decide)).mpr
    (by decide)⟩

/-- **A claim that is left behind**: another dispatcher has taken the lease
since the row was fetched.  No call fails and the dispatch returns without an
error, but the record stays at RUNNING. -/
theorem lostLease_stranded : ∃ τ s',
    ((Dispatching.rdb none).prog default fetchedJob).Exec (aside fun _ => .none) leasedStore τ
        (.ok none) s' ∧
      Claimed 0 τ ∧ (∀ c ∈ τ, ¬ starts c) ∧ s'.live = some ⟨.running, 0⟩ :=
  ⟨_, _, exec_of_runWith (leasedStore, default) rfl, by decide, by decide, rfl⟩

end Jobworkerp
