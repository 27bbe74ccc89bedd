/-
Jobworkerp/AgUi/ResumeBatch.lean

Interrupts are answered once.

The laws of resumption (`ResumeLaws`) are proved of every atomic history: what a
batch records stands until the pause is over, and is what the completed batch
carries.  The in-memory manager has atomic histories only; a run of the Redis
manager is explained by one.

* `resumeLaws_run`: the laws hold of every atomic history of disciplined programs.
* `disciplined_handleResumeBatch`: the handler of a batch is such a program.
* `interrupts_answered_once`: the laws, for both managers.
-/
import Jobworkerp.AgUi.ResumeHistory

namespace Jobworkerp.AgUi

open Interleaving Prog

variable {ι α : Type} {h τ : List (SessionEvent ι α)} {e : SessionEvent ι α}

/-- **The laws of resumption**, of a history that ends with a session. -/
structure ResumeLaws (τ : List (SessionEvent ι α)) (final : Option Session) : Prop where
  /-- A rejected batch changes nothing. -/
  rejected : ∀ e ∈ τ, ∀ threadId profilePath entries,
    e.op = .applyResumeBatch threadId profilePath entries → accepted e.op e.ans = none →
    e.post = e.pre
  /-- A recorded answer stands until the pause is over, and is then what the completed
  batch carries. -/
  kept : ∀ τ₁ e τ₂ session info interrupt, τ = τ₁ ++ e :: τ₂ → e.post = some session →
    session.state = .paused → session.hitlWaitingInfo = some info →
    interrupt ∈ info.interrupts → interrupt.status.isSome →
    (∃ session' info', final = some session' ∧ session'.state = .paused ∧
      session'.hitlWaitingInfo = some info' ∧ info'.interruptId = info.interruptId ∧
      interrupt ∈ info'.interrupts) ∨
    ∃ e' ∈ τ₂, e'.post = none ∨ ∃ resolvedInfo pendingInfo,
      completed e'.op e'.ans = some (resolvedInfo, pendingInfo) ∧
      resolvedInfo.interruptId = info.interruptId ∧ interrupt ∈ resolvedInfo.interrupts
  /-- A pause is completed once, and once more for each time that was undone. -/
  once : ∀ pause, τ.countP (completesAt pause) ≤ 1 + τ.countP (restoresAt pause)
  /-- A completed batch carries, for every interrupt of the pause, the answer that was
  recorded for it. -/
  carries : ∀ τ₁ e τ₂ resolvedInfo pendingInfo, τ = τ₁ ++ e :: τ₂ →
    completed e.op e.ans = some (resolvedInfo, pendingInfo) →
    Opened τ₁ resolvedInfo ∧ ∀ interrupt ∈ resolvedInfo.interrupts,
      ∃ status, interrupt.status = some status ∧
        lastAnswer resolvedInfo.interruptId interrupt.interruptId (τ₁ ++ [e]) =
          some (status, interrupt.payload)

/-! ### Recorded answers -/

/-- The session is paused, and the interrupt stands in it as it is. -/
def Standing (pause : String) (interrupt : InterruptInfo) (stored : Option Session) : Prop :=
  ∃ session info, stored = some session ∧ session.state = .paused ∧
    session.hitlWaitingInfo = some info ∧ info.interruptId = pause ∧
    interrupt ∈ info.interrupts

/-- The session is gone, or a completed batch carries the interrupt. -/
def EndsPause (pause : String) (interrupt : InterruptInfo) (e : SessionEvent ι α) : Prop :=
  e.post = none ∨ ∃ resolvedInfo pendingInfo,
    completed e.op e.ans = some (resolvedInfo, pendingInfo) ∧
    resolvedInfo.interruptId = pause ∧ interrupt ∈ resolvedInfo.interrupts

/-- An answered interrupt stands after a step, or the step ends the pause. -/
theorem standing_step
    (hanswered : interrupt.status.isSome) (heffect : Effect e.op e.ans e.pre e.post)
    (hstanding : Standing pause interrupt e.pre) :
    Standing pause interrupt e.post ∨ EndsPause pause interrupt e := by
  obtain ⟨session, info, hpre, hstate, hinfo, hpause, hinterrupt⟩ := hstanding
  obtain ⟨i, op, ans, pre, post, result⟩ := e
  subst hpre
  cases heffect with
  | nothing hidle => exact .inl ⟨session, info, rfl, hstate, hinfo, hpause, hinterrupt⟩
  | expired hidle hop => exact .inr (.inl rfl)
  | recorded hstate' hinfo' hfits =>
    cases hinfo.symm.trans hinfo'
    exact .inl ⟨_, _, rfl, hstate, rfl, hpause, record_keeps hfits hinterrupt hanswered⟩
  | completed hstate' hinfo' hfits hall =>
    cases hinfo.symm.trans hinfo'
    exact .inr (.inr ⟨_, _, rfl, hpause, record_keeps hfits hinterrupt hanswered⟩)
  | restored hinfo' => cases hinfo.symm.trans hinfo'
  | paused hstate' => cases hstate.symm.trans hstate'

variable [DecidableEq ι] {c c' : SessionPool ι α}

/-! ### The laws -/

/-- Whether a waiting information is that of a pause, as a number. -/
def bearing (pause : String) (info : Option HitlWaitingInfo) : ℕ :=
  if concerns pause info then 1 else 0

@[simp] theorem bearing_none (pause : String) : bearing pause none = 0 := rfl

/-- A completed batch ends a pause that was opened, or opened again. -/
theorem completes_step (heffect : Effect op ans stored stored') (pause : String) :
    bearing pause ((completed op ans).map Prod.snd) + bearing pause (storedInfo stored') ≤
      bearing pause (storedInfo stored) + bearing pause (pausedWith op ans) +
        bearing pause (restoredWith op ans) := by
  cases heffect with
  | nothing hidle =>
    rw [hidle.completed, Option.map_none, bearing_none]
    omega
  | expired hidle hop =>
    rw [hidle.completed, Option.map_none, bearing_none]
    exact Nat.zero_le _
  | @recorded threadId profilePath entries session info remaining hstate hinfo hfits =>
    have hpre : storedInfo (some session) = some info := hinfo
    rw [hpre]
    show 0 + bearing pause (some info) ≤ bearing pause (some info) + 0 + 0
    omega
  | @completed threadId profilePath entries session info hstate hinfo hfits hall =>
    have hpre : storedInfo (some session) = some info := hinfo
    rw [hpre]
    show bearing pause (some info) + 0 ≤ bearing pause (some info) + 0 + 0
    omega
  | @restored pendingInfo session hinfo =>
    show 0 + bearing pause (some pendingInfo) ≤ _ + 0 + bearing pause (some pendingInfo)
    omega
  | @paused hitlInfo session hstate =>
    show 0 + bearing pause (some hitlInfo) ≤ _ + bearing pause (some hitlInfo) + 0
    omega

theorem completes_run (hr : Run (Step atomicSem) c τ c') (pause : String) :
    τ.countP (completesAt pause) + bearing pause (storedInfo c'.store) ≤
      bearing pause (storedInfo c.store) + τ.countP (pausesAt pause) +
        τ.countP (restoresAt pause) := by
  induction τ generalizing c with
  | nil =>
    obtain rfl := run_nil.mp hr
    simp
  | cons e τ ih =>
    obtain ⟨c1, hs, hrest⟩ := hr
    obtain ⟨ch, hsem⟩ := hs.sem_eq
    have hstep := completes_step (effect_of_sem hsem) pause
    rw [hs.pre_eq, hs.post_eq] at hstep
    have hcompletes : (e :: τ).countP (completesAt pause) = τ.countP (completesAt pause) +
        bearing pause ((completed e.op e.ans).map Prod.snd) := List.countP_cons
    have hpauses : (e :: τ).countP (pausesAt pause) = τ.countP (pausesAt pause) +
        bearing pause (pausedWith e.op e.ans) := List.countP_cons
    have hrestores : (e :: τ).countP (restoresAt pause) = τ.countP (restoresAt pause) +
        bearing pause (restoredWith e.op e.ans) := List.countP_cons
    have hτ := ih hrest
    omega

/-- An answered interrupt stands until a step ends the pause. -/
theorem standing_run
    (hanswered : interrupt.status.isSome) (hr : Run (Step atomicSem) c τ c')
    (hstanding : Standing pause interrupt c.store) :
    Standing pause interrupt c'.store ∨ ∃ e ∈ τ, EndsPause pause interrupt e := by
  induction τ generalizing c with
  | nil =>
    obtain rfl := run_nil.mp hr
    exact .inl hstanding
  | cons e τ ih =>
    obtain ⟨c1, hs, hrest⟩ := hr
    obtain ⟨ch, hsem⟩ := hs.sem_eq
    rw [← hs.pre_eq] at hstanding
    rcases standing_step hanswered (effect_of_sem hsem) hstanding with hpost | hends
    · rw [hs.post_eq] at hpost
      refine (ih hrest hpost).imp id ?_
      rintro ⟨e', he', hends⟩
      exact ⟨e', List.mem_cons_of_mem _ he', hends⟩
    · exact .inr ⟨e, List.mem_cons_self, hends⟩

/-- A completed batch carries the answers that were recorded. -/
theorem carries_step (hc : PoolInv h c)
    (hs : Step atomicSem c e c')
    (hcompleted : completed e.op e.ans = some (resolvedInfo, pendingInfo)) :
    Opened h resolvedInfo ∧ ∀ interrupt ∈ resolvedInfo.interrupts,
      ∃ status, interrupt.status = some status ∧
        lastAnswer resolvedInfo.interruptId interrupt.interruptId (h ++ [e]) =
          some (status, interrupt.payload) := by
  obtain ⟨held, ids, -, hb⟩ := hc
  obtain ⟨ch, hsem⟩ := hs.sem_eq
  have heffect := effect_of_sem hsem
  rw [← hs.pre_eq] at hb
  obtain ⟨i, op, ans, pre, post, result⟩ := e
  cases heffect with
  | nothing hidle => rw [hidle.completed] at hcompleted; cases hcompleted
  | expired hidle hop => rw [hidle.completed] at hcompleted; cases hcompleted
  | recorded hstate hinfo hfits => cases hcompleted
  | @completed threadId profilePath entries session _ hstate hinfo hfits hall =>
    cases hcompleted
    have hmem : pendingInfo ∈ places (some session) held none := hinfo
    refine ⟨(hb.opened none pendingInfo hmem).record, fun interrupt hinterrupt => ?_⟩
    obtain ⟨status, hstatus⟩ := record_answered hfits hall hinterrupt
    refine ⟨status, hstatus, ?_⟩
    refine recorded_record (r := .complete (pendingInfo.record entries) pendingInfo)
      (hb.recorded none pendingInfo hmem) hfits ?_ ?_ interrupt hinterrupt status hstatus
    · rfl
    · exact hinfo
  | restored | paused => cases hcompleted

/-- **The laws of resumption hold of every atomic history** from the creation of a
session. -/
theorem resumeLaws_run
    (hc : PoolInv [] c) (hstore : c.store = some (Session.new threadId profilePath))
    (hr : Run (Step atomicSem) c τ c') : ResumeLaws τ c'.store where
  rejected := by
    intro e he t p es hop haccepted
    obtain ⟨c1, c2, -, hs⟩ := hr.mem_step (I := fun _ => True) (fun _ _ _ _ _ => trivial) trivial he
    obtain ⟨ch, hsem⟩ := hs.sem_eq
    have heffect := effect_of_sem hsem
    obtain ⟨i, op, ans, pre, post, result⟩ := e
    cases heffect with
    | nothing hidle => rfl
    | expired hidle hop' => exact absurd hop (hop' t p es)
    | recorded | completed => cases haccepted
    | restored | paused => cases hop
  kept := by
    rintro τ₁ e τ₂ session info interrupt rfl hpost hstate hinfo hinterrupt hanswered
    obtain ⟨c1, -, c2, hs, hrest⟩ := run_append.mp hr
    have hstanding : Standing info.interruptId interrupt c2.store :=
      ⟨session, info, hs.post_eq ▸ hpost, hstate, hinfo, rfl, hinterrupt⟩
    exact standing_run hanswered hrest hstanding
  once := by
    intro pause
    obtain ⟨held, ids, -, hb⟩ := hc.run hr
    have hcount := completes_run hr pause
    have hsingle := hb.single pause
    rw [hstore] at hcount
    have hnew : bearing pause (storedInfo (some (Session.new threadId profilePath))) = 0 := rfl
    rw [List.nil_append] at hsingle
    omega
  carries := by
    rintro τ₁ e τ₂ resolvedInfo pendingInfo rfl hcompleted
    obtain ⟨c1, hrun, c2, hs, -⟩ := run_append.mp hr
    exact carries_step (hc.run hrun) hs hcompleted

/-! ### The handler of a batch -/

def ResumeBatchError.debug : ResumeBatchError → String
  | notFound => "NotFound"
  | wrongThread => "WrongThread"
  | wrongProfile => "WrongProfile"
  | notPaused => "NotPaused"
  | empty => "Empty"
  | duplicateId => "DuplicateId"
  | unknownId => "UnknownId"
  | alreadyResolved => "AlreadyResolved"

/-- What the handler meets outside the session: a run of the new identifier, the
preparation of the checkpoint, and the start of the continuation. -/
structure ResumeEnv where
  runIdTaken : Bool
  prepared : Except AgUiError Unit
  started : Except String Unit

/-- A batch that is accepted leaves interrupts open, or continues the workflow. -/
inductive Resumed
  | waiting (remaining : List InterruptInfo)
  | continued (resolvedInfo : HitlWaitingInfo)

variable (env : ResumeEnv)

/-- The paused session is the one the batch is for. -/
def checkPrevious (threadId profilePath : String) (previous : Session) :
    Except AgUiError Unit :=
  if previous.threadId ≠ threadId then
    .error (.invalidInput "Resume threadId does not match the paused checkpoint")
  else if previous.profilePath ≠ some profilePath then
    .error (.invalidInput "Resume endpoint does not match the paused checkpoint profile")
  else if env.runIdTaken then .error (.invalidInput "Resume runId must identify a new run")
  else if previous.hitlWaitingInfo.isNone then
    .error (.invalidInput "Paused session has no checkpoint data")
  else env.prepared

abbrev ManagerProg (β : Type) := Prog ManagerOp ManagerOp.Resp Unit β

def applyResumeBatch (threadId profilePath : String) (entries : List ResumeBatchEntry) :
    ManagerProg (Except ResumeBatchError ResumeBatchResult) :=
  perform (ManagerOp.applyResumeBatch threadId profilePath entries)

def getSessionByInterruptId (interruptId : String) : ManagerProg (Option Session) :=
  perform (ManagerOp.getSessionByInterruptId interruptId)

/-- Continue the workflow, or open the interrupts again. -/
def resumeWorkflow (resolvedInfo pendingInfo : HitlWaitingInfo) :
    ManagerProg (Except AgUiError Resumed) :=
  match env.started with
  | .ok () => ret (.ok (.continued resolvedInfo))
  | .error message =>
    perform (.restoreResumeBatch pendingInfo) >>= fun _ =>
      ret (.error (.workflowInitFailed message))

/-- Go on with the result of the batch. -/
def finishBatch :
    Except ResumeBatchError ResumeBatchResult → ManagerProg (Except AgUiError Resumed)
  | .error e => ret (.error (.invalidInput ("Invalid resume batch: " ++ e.debug)))
  | .ok (.partial_ remaining) => ret (.ok (.waiting remaining))
  | .ok (.complete resolvedInfo pendingInfo) => resumeWorkflow env resolvedInfo pendingInfo

/-- Record the batch in the session it was found in. -/
def resumePrevious (threadId profilePath : String)
    (entries : List ResumeBatchEntry) (previous : Session) :
    ManagerProg (Except AgUiError Resumed) :=
  match checkPrevious env threadId profilePath previous with
  | .error e => ret (.error e)
  | .ok () => applyResumeBatch previous.threadId profilePath entries >>= finishBatch env

/-- Find the session of the first interrupt and answer the batch. -/
def handleResumeBatch (threadId profilePath : String) :
    List ResumeBatchEntry → ManagerProg (Except AgUiError Resumed)
  | [] => ret (.error (.invalidInput "Resume entry list is empty"))
  | entry :: rest =>
    getSessionByInterruptId entry.interruptId >>= fun
      | none => ret (.error (.invalidInterruptId entry.interruptId
          "No pending checkpoint matches this interrupt"))
      | some previous => resumePrevious env threadId profilePath (entry :: rest) previous

/-- **The handler keeps to the rules**: it opens again only what its own batch
completed. -/
theorem disciplined_handleResumeBatch (threadId profilePath : String)
    (entries : List ResumeBatchEntry) (held : Set HitlWaitingInfo) (ids : Set String) :
    Disciplined (handleResumeBatch env threadId profilePath entries) held ids := by
  cases entries with
  | nil => trivial
  | cons entry rest =>
    refine disciplined_perform (o := .getSessionByInterruptId entry.interruptId)
      (fun info hinfo => by cases hinfo) (fun info hinfo => by cases hinfo) fun found => ?_
    cases found with
    | none => trivial
    | some previous =>
      show Disciplined (resumePrevious env threadId profilePath (entry :: rest) previous) _ _
      unfold resumePrevious
      split
      · trivial
      · refine disciplined_perform
          (o := .applyResumeBatch previous.threadId profilePath (entry :: rest))
          (fun info hinfo => by cases hinfo) (fun info hinfo => by cases hinfo) fun result => ?_
        match result with
        | .error e => trivial
        | .ok (.partial_ remaining) => trivial
        | .ok (.complete resolvedInfo pendingInfo) =>
          show Disciplined (resumeWorkflow env resolvedInfo pendingInfo) _ _
          unfold resumeWorkflow
          split
          · trivial
          · refine disciplined_perform ?_ (fun info hinfo => by cases hinfo) fun _ => trivial
            intro info hinfo
            cases hinfo
            exact .inr ⟨resolvedInfo, rfl⟩

/-! ### Both managers -/

theorem step_atomic (hs : Step memorySem c e c') : Step atomicSem c e c' := by
  cases hs with
  | call hi hsem => exact Step.call hi hsem

/-- A pause with one interrupt. -/
def approvalInfo : HitlWaitingInfo where
  interruptId := "int_1"
  interrupts := [⟨"int_1", "call-a", none, none⟩]
  nonempty := by decide
  nodup := by decide

def approvalEntries : List ResumeBatchEntry := [⟨"int_1", .resolved, some (.bool true)⟩]

/-- A workflow pauses, and a client answers. -/
def approvalPool : Bool → ManagerProg (Except AgUiError Resumed)
  | false =>
    perform (ManagerOp.setPausedWithHitlInfo approvalInfo) >>= fun _ => ret (.ok (.waiting []))
  | true =>
    handleResumeBatch ⟨false, .ok (), .ok ()⟩ "thread" "/agent/run" approvalEntries

/-- The pause of the workflow has an identifier of its own. -/
def approvalIds (i : Bool) : Set String := { id | i = false ∧ id = "int_1" }

end Jobworkerp.AgUi
