/-
Jobworkerp/AgUi/Session.lean

Sessions of the AG-UI server and their managers.

A workflow that waits for its user pauses its session with the interrupts that
are to be answered.  Answers come in batches (`applyResumeBatchToSession`); the
batch that answers the last open interrupt takes the waiting information out of
the session, so that the workflow can be continued with it.  If the continuation
cannot be started, the interrupts are opened again (`restoreResumeBatchToSession`).

The in-memory manager holds a lock for each operation (`memorySem`).  The Redis
manager rewrites the stored session optimistically (`redisImpl`).

* `batch_cases`: what an accepted batch does to the session.
* `linear_redisImpl`: the operations of the Redis manager are atomic.
-/
import Jobworkerp.Interleaving.Optimistic
import Jobworkerp.Text.Json
import Mathlib.Data.List.Nodup

namespace Jobworkerp.AgUi

open Interleaving Text List

/-! ### Sessions -/

inductive SessionState
  | active
  | paused
  | completed
  | cancelled
  | error
  deriving DecidableEq, Repr

/-- The session's run has ended. -/
def SessionState.isTerminal : SessionState → Bool
  | completed | cancelled | error => true
  | active | paused => false

inductive ResumeStatus
  | resolved
  | cancelled
  deriving DecidableEq, Repr

structure InterruptInfo where
  interruptId : String
  callId : String
  status : Option ResumeStatus
  payload : Option Json

structure ResumeBatchEntry where
  interruptId : String
  status : ResumeStatus
  payload : Option Json

/-- What a paused session waits for.  The identifiers are generated with the
information, one for each interrupt, and there is at least one. -/
structure HitlWaitingInfo where
  interruptId : String
  interrupts : List InterruptInfo
  nonempty : interrupts ≠ []
  nodup : (interrupts.map InterruptInfo.interruptId).Nodup

structure Session where
  threadId : String
  profilePath : Option String
  state : SessionState
  hitlWaitingInfo : Option HitlWaitingInfo

/-- A session that has just been created. -/
def Session.new (threadId : String) (profilePath : Option String) : Session :=
  ⟨threadId, profilePath, .active, none⟩

/-- The errors of the handler's requests. -/
inductive AgUiError
  | sessionNotFound (runId : String)
  | invalidInput (message : String)
  | invalidInterruptId (interruptId message : String)
  | workflowInitFailed (message : String)
  deriving DecidableEq

inductive ResumeBatchError
  | notFound
  | wrongThread
  | wrongProfile
  | notPaused
  | empty
  | duplicateId
  | unknownId
  | alreadyResolved
  deriving DecidableEq, Repr

inductive ResumeBatchResult
  | partial_ (remaining : List InterruptInfo)
  | complete (resolvedInfo pendingInfo : HitlWaitingInfo)

/-- The interrupt still awaits its answer; a waiting information without a list of
interrupts is matched by its own identifier. -/
def hasPendingInterrupt (legacyInterruptId : String) (interrupts : List InterruptInfo)
    (interruptId : String) : Bool :=
  (interrupts.isEmpty && legacyInterruptId == interruptId) ||
    interrupts.any fun entry => entry.interruptId == interruptId && entry.status.isNone

/-! ### Recording answers -/

/-- The answer is written into the first interrupt of its identifier. -/
def setAnswer (entry : ResumeBatchEntry) : List InterruptInfo → List InterruptInfo
  | [] => []
  | pending :: rest =>
    if pending.interruptId = entry.interruptId then
      { pending with status := some entry.status, payload := entry.payload } :: rest
    else pending :: setAnswer entry rest

@[simp] theorem setAnswer_ids (entry : ResumeBatchEntry) (interrupts : List InterruptInfo) :
    (setAnswer entry interrupts).map InterruptInfo.interruptId =
      interrupts.map InterruptInfo.interruptId := by
  induction interrupts with
  | nil => rfl
  | cons pending rest ih =>
    unfold setAnswer
    split
    · rfl
    · simp [ih]

/-- An interrupt carries the answer of an entry. -/
def InterruptInfo.Answers (interrupt : InterruptInfo) (entry : ResumeBatchEntry) : Prop :=
  interrupt.interruptId = entry.interruptId ∧ interrupt.status = some entry.status ∧
    interrupt.payload = entry.payload

variable {interrupts : List InterruptInfo} {interrupt : InterruptInfo}
  {entries : List ResumeBatchEntry} {info : HitlWaitingInfo}

/-- The interrupt of the answer carries it, the others are as they were. -/
theorem mem_setAnswer
    (hnodup : (interrupts.map InterruptInfo.interruptId).Nodup)
    (h : interrupt ∈ setAnswer entry interrupts) : interrupt.Answers entry ∨
      (interrupt ∈ interrupts ∧ interrupt.interruptId ≠ entry.interruptId) := by
  induction interrupts with
  | nil => cases h
  | cons pending rest ih =>
    rw [map_cons, nodup_cons] at hnodup
    unfold setAnswer at h
    split at h
    · rename_i hid
      rcases mem_cons.mp h with rfl | hrest
      · exact .inl ⟨hid, rfl, rfl⟩
      · refine .inr ⟨mem_cons_of_mem _ hrest, fun heq => hnodup.1 ?_⟩
        rw [hid, ← heq]
        exact mem_map_of_mem hrest
    · rename_i hid
      rcases mem_cons.mp h with rfl | hrest
      · exact .inr ⟨mem_cons_self, hid⟩
      · exact (ih hnodup.2 hrest).imp id fun hold => ⟨mem_cons_of_mem _ hold.1, hold.2⟩

/-- All answers of a batch are written, one after the other. -/
def setAnswers (entries : List ResumeBatchEntry) (interrupts : List InterruptInfo) :
    List InterruptInfo :=
  entries.foldl (fun acc entry => setAnswer entry acc) interrupts

@[simp] theorem setAnswers_ids (entries : List ResumeBatchEntry) (interrupts : List InterruptInfo) :
    (setAnswers entries interrupts).map InterruptInfo.interruptId =
      interrupts.map InterruptInfo.interruptId := by
  induction entries generalizing interrupts with
  | nil => rfl
  | cons entry rest ih =>
    show (setAnswers rest (setAnswer entry interrupts)).map _ = _
    rw [ih, setAnswer_ids]

/-- An interrupt has an answer of the batch, or is as it was and none of the batch's. -/
theorem mem_setAnswers (hnodup : (interrupts.map InterruptInfo.interruptId).Nodup)
    (hentries : (entries.map ResumeBatchEntry.interruptId).Nodup)
    (h : interrupt ∈ setAnswers entries interrupts) : (∃ entry ∈ entries, interrupt.Answers entry) ∨
      (interrupt ∈ interrupts ∧ ∀ entry ∈ entries, interrupt.interruptId ≠ entry.interruptId) := by
  induction entries generalizing interrupts with
  | nil => exact .inr ⟨h, fun entry hentry => by cases hentry⟩
  | cons entry rest ih =>
    rw [map_cons, nodup_cons] at hentries
    have hnodup' : ((setAnswer entry interrupts).map InterruptInfo.interruptId).Nodup := by
      rwa [setAnswer_ids]
    rcases ih hnodup' hentries.2 h with ⟨later, hlater, hanswers⟩ | ⟨hmem, hother⟩
    · exact .inl ⟨later, mem_cons_of_mem _ hlater, hanswers⟩
    · rcases mem_setAnswer hnodup hmem with hanswers | ⟨hold, hne⟩
      · exact .inl ⟨entry, mem_cons_self, hanswers⟩
      · refine .inr ⟨hold, fun later hlater => ?_⟩
        rcases mem_cons.mp hlater with rfl | hlater
        · exact hne
        · exact hother later hlater

/-- The waiting information with the answers of a batch. -/
def HitlWaitingInfo.record (info : HitlWaitingInfo) (entries : List ResumeBatchEntry) :
    HitlWaitingInfo where
  interruptId := info.interruptId
  interrupts := setAnswers entries info.interrupts
  nonempty hempty := by
    have hids := setAnswers_ids entries info.interrupts
    rw [hempty] at hids
    exact info.nonempty (map_eq_nil_iff.mp hids.symm)
  nodup := by
    rw [setAnswers_ids]
    exact info.nodup

/-! ### A batch of answers -/

/-- The identifiers of a batch are different, and those of interrupts of the pause. -/
def checkEntries (interrupts : List InterruptInfo) :
    List String → List ResumeBatchEntry → Except ResumeBatchError Unit
  | _, [] => .ok ()
  | requested, entry :: rest =>
    if entry.interruptId ∈ requested then .error .duplicateId
    else if interrupts.any fun pending => pending.interruptId == entry.interruptId then
      checkEntries interrupts (entry.interruptId :: requested) rest
    else .error .unknownId

/-- An interrupt of the batch has its answer already. -/
def alreadyResolved (interrupts : List InterruptInfo) (entries : List ResumeBatchEntry) : Bool :=
  entries.any fun entry => interrupts.any fun pending =>
    pending.interruptId == entry.interruptId && pending.status.isSome

/-- The batch answers every interrupt that is still open. -/
def completes (interrupts : List InterruptInfo) (entries : List ResumeBatchEntry) : Bool :=
  interrupts.all fun pending =>
    pending.status.isSome || entries.any fun entry => entry.interruptId == pending.interruptId

/-- The answers are recorded; the batch that completes them takes the information. -/
def recordBatch (session : Session) (info : HitlWaitingInfo) (entries : List ResumeBatchEntry) :
    ResumeBatchResult × Session :=
  if completes info.interrupts entries then
    (.complete (info.record entries) info, { session with state := .active, hitlWaitingInfo := none })
  else
    (.partial_ ((info.record entries).interrupts.filter fun entry => entry.status.isNone),
      { session with hitlWaitingInfo := some (info.record entries) })

/-- Validate a batch and record it. -/
def applyResumeBatchToSession (threadId profilePath : String) (entries : List ResumeBatchEntry)
    (session : Session) : Except ResumeBatchError (ResumeBatchResult × Session) :=
  if entries.isEmpty then .error .empty
  else if session.threadId ≠ threadId then .error .wrongThread
  else if session.profilePath ≠ some profilePath then .error .wrongProfile
  else if session.state ≠ .paused then .error .notPaused
  else
    match session.hitlWaitingInfo with
    | none => .error .notPaused
    | some info =>
      match checkEntries info.interrupts [] entries with
      | .error e => .error e
      | .ok () =>
        if alreadyResolved info.interrupts entries then .error .alreadyResolved
        else .ok (recordBatch session info entries)

/-- Open the interrupts again, in a session that is as the completed batch left it. -/
def restoreResumeBatchToSession (pendingInfo : HitlWaitingInfo) (session : Session) :
    Except Unit (Unit × Session) :=
  if session.state ≠ .active ∨ session.hitlWaitingInfo.isSome then .error ()
  else .ok ((), { session with hitlWaitingInfo := some pendingInfo, state := .paused })

/-- Pause an active session. -/
def pauseSession (hitlInfo : HitlWaitingInfo) (session : Session) :
    Except Unit (Unit × Session) :=
  if session.state ≠ .active then .error ()
  else .ok ((), { session with state := .paused, hitlWaitingInfo := some hitlInfo })

/-- What a batch has to be to be accepted for a pause. -/
structure Fits (info : HitlWaitingInfo) (entries : List ResumeBatchEntry) : Prop where
  nodup : (entries.map ResumeBatchEntry.interruptId).Nodup
  known : ∀ entry ∈ entries, ∃ pending ∈ info.interrupts, pending.interruptId = entry.interruptId
  unanswered : ∀ entry ∈ entries, ∀ pending ∈ info.interrupts,
    pending.interruptId = entry.interruptId → pending.status = none

theorem checkEntries_ok
    (h : checkEntries interrupts requested entries = .ok ()) :
    (entries.map ResumeBatchEntry.interruptId).Nodup ∧
      (∀ entry ∈ entries, entry.interruptId ∉ requested) ∧
      ∀ entry ∈ entries, ∃ pending ∈ interrupts, pending.interruptId = entry.interruptId := by
  induction entries generalizing requested with
  | nil => simp
  | cons entry rest ih =>
    unfold checkEntries at h
    split_ifs at h with hrequested hknown
    obtain ⟨hnodup, hnew, hall⟩ := ih h
    refine ⟨?_, ?_, ?_⟩
    · rw [map_cons, nodup_cons]
      refine ⟨fun hmem => ?_, hnodup⟩
      obtain ⟨later, hlater, heq⟩ := mem_map.mp hmem
      exact hnew later hlater (heq ▸ mem_cons_self)
    · intro later hlater
      rcases mem_cons.mp hlater with rfl | hlater
      · exact hrequested
      · exact fun hmem => hnew later hlater (mem_cons_of_mem _ hmem)
    · intro later hlater
      rcases mem_cons.mp hlater with rfl | hlater
      · simpa using hknown
      · exact hall later hlater

/-- **An accepted batch** fits the pause of the session and is recorded there. -/
theorem batch_cases
    (h : applyResumeBatchToSession threadId profilePath entries session = .ok result) :
    ∃ info, session.state = .paused ∧ session.hitlWaitingInfo = some info ∧ Fits info entries ∧
      result = recordBatch session info entries := by
  unfold applyResumeBatchToSession at h
  split_ifs at h with hempty hthread hprofile hstate
  split at h
  · cases h
  · rename_i info hinfo
    split at h
    · cases h
    · rename_i hcheck
      split_ifs at h with hresolved
      cases h
      obtain ⟨hnodup, -, hknown⟩ := checkEntries_ok hcheck
      refine ⟨info, not_not.mp hstate, hinfo, ⟨hnodup, hknown, ?_⟩, rfl⟩
      intro entry hentry pending hpending hid
      by_contra hstatus
      refine hresolved (any_eq_true.mpr ⟨entry, hentry, any_eq_true.mpr ?_⟩)
      refine ⟨pending, hpending, ?_⟩
      simp [hid, Option.isSome_iff_ne_none, hstatus]

/-- After the batch that completes a pause every interrupt has its answer. -/
theorem record_answered
    (hfits : Fits info entries) (hcompletes : completes info.interrupts entries = true)
    (h : interrupt ∈ (info.record entries).interrupts) :
    ∃ status, interrupt.status = some status := by
  rcases mem_setAnswers info.nodup hfits.nodup h with ⟨entry, -, hanswers⟩ | ⟨hold, hother⟩
  · exact ⟨entry.status, hanswers.2.1⟩
  · have hpending := all_eq_true.mp hcompletes interrupt hold
    rw [Bool.or_eq_true] at hpending
    rcases hpending with hsome | hrequested
    · exact Option.isSome_iff_exists.mp hsome
    · obtain ⟨entry, hentry, hid⟩ := any_eq_true.mp hrequested
      exact absurd (beq_iff_eq.mp hid).symm (hother entry hentry)

/-- A recorded answer is not touched by a later batch of the same pause. -/
theorem record_keeps (hfits : Fits info entries) (h : interrupt ∈ info.interrupts)
    (hanswered : interrupt.status.isSome) : interrupt ∈ (info.record entries).interrupts := by
  -- the interrupt of this identifier after the batch is the one before it
  have hid : interrupt.interruptId ∈
      (info.record entries).interrupts.map InterruptInfo.interruptId := by
    show _ ∈ (setAnswers entries info.interrupts).map _
    rw [setAnswers_ids]
    exact mem_map_of_mem h
  obtain ⟨after, hafter, heq⟩ := mem_map.mp hid
  rcases mem_setAnswers info.nodup hfits.nodup hafter with ⟨entry, hentry, hanswers⟩ | ⟨hold, -⟩
  · have hnone := hfits.unanswered entry hentry interrupt h (heq.symm.trans hanswers.1)
    rw [hnone] at hanswered
    cases hanswered
  · rwa [inj_on_of_nodup_map info.nodup hold h heq] at hafter

/-! ### The managers -/

/-- The operations on one session. -/
inductive ManagerOp
  | applyResumeBatch (threadId profilePath : String) (entries : List ResumeBatchEntry)
  | restoreResumeBatch (pendingInfo : HitlWaitingInfo)
  | setPausedWithHitlInfo (hitlInfo : HitlWaitingInfo)
  | getSession
  | getSessionByInterruptId (interruptId : String)
  /-- The time to live of the session is over. -/
  | expire

def ManagerOp.Resp : ManagerOp → Type
  | applyResumeBatch _ _ _ => Except ResumeBatchError ResumeBatchResult
  | restoreResumeBatch _ => Bool
  | setPausedWithHitlInfo _ => Bool
  | getSession => Option Session
  | getSessionByInterruptId _ => Option Session
  | expire => Unit

/-- How an operation is served. -/
inductive ManagerChoice
  | served
  /-- The session is past its time to live when it is read. -/
  | expired
  /-- The store does not answer. -/
  | unavailable
  /-- Other writers were faster, too often. -/
  | contended
  /-- The operation is refused for its arguments alone. -/
  | refused
  deriving DecidableEq

/-- The error of a batch that could not be recorded. -/
def batchAnswer : Except (CasError ResumeBatchError) ResumeBatchResult →
    Except ResumeBatchError ResumeBatchResult
  | .ok result => .ok result
  | .error (.rejected e) => .error e
  | .error .unavailable => .error .notFound
  | .error .contended => .error .alreadyResolved

/-- The update was carried out. -/
def updateAnswer : Except (CasError Unit) Unit → Bool
  | .ok _ => true
  | .error _ => false

/-- An update of the session, if there is one. -/
def updateSession {ε β ρ : Type} (update : Session → Except ε (β × Session))
    (answer : Except (CasError ε) β → ρ) : ManagerChoice → Option Session → ρ × Option Session
  | .unavailable, stored => (answer (.error .unavailable), stored)
  | .contended, stored => (answer (.error .contended), stored)
  | _, none => (answer (.error .unavailable), none)
  | _, some session =>
    match update session with
    | .error e => (answer (.error (.rejected e)), some session)
    | .ok (value, session') => (answer (.ok value), some session')

/-- A reader finds the session, or not; one that is past its time is removed. -/
def readSession (wanted : Session → Bool) :
    ManagerChoice → Option Session → Option Session × Option Session
  | .expired, _ => (none, none)
  | .unavailable, stored => (none, stored)
  | _, stored => (stored.filter wanted, stored)

/-- The session waits for an answer to the interrupt. -/
def Session.awaits (interruptId : String) (session : Session) : Bool :=
  session.hitlWaitingInfo.any fun info =>
    hasPendingInterrupt info.interruptId info.interrupts interruptId

/-- The operations, each in one step. -/
def atomicSem : Sem ManagerOp ManagerOp.Resp Unit (Option Session) ManagerChoice
  | .refused, .applyResumeBatch _ _ entries, stored =>
    if entries.isEmpty then some (.ok (.error .empty), stored) else none
  | .refused, _, _ => none
  | ch, .applyResumeBatch threadId profilePath entries, stored =>
    let (answer, stored') :=
      updateSession (applyResumeBatchToSession threadId profilePath entries) batchAnswer ch stored
    some (.ok answer, stored')
  | ch, .restoreResumeBatch pendingInfo, stored =>
    let (answer, stored') :=
      updateSession (restoreResumeBatchToSession pendingInfo) updateAnswer ch stored
    some (.ok answer, stored')
  | ch, .setPausedWithHitlInfo hitlInfo, stored =>
    let (answer, stored') := updateSession (pauseSession hitlInfo) updateAnswer ch stored
    some (.ok answer, stored')
  | ch, .getSession, stored =>
    let (answer, stored') := readSession (fun _ => true) ch stored
    some (.ok answer, stored')
  | .expired, .getSessionByInterruptId _, stored => some (.ok none, stored)
  | ch, .getSessionByInterruptId interruptId, stored =>
    let (answer, stored') := readSession (Session.awaits interruptId) ch stored
    some (.ok answer, stored')
  | _, .expire, _ => some (.ok (), none)

/-- The in-memory manager: each operation under the lock. -/
def memorySem : Sem ManagerOp ManagerOp.Resp Unit (Option Session) Bool
  | expired => atomicSem (if expired then .expired else .served)

open Prog

variable {Raw κ : Type}

def casMaxAttempts : ℕ := 8

/-- Read the stored session. -/
def redisRead (codec : Codec Raw Session κ) (wanted : Session → Bool) :
    Except Unit (Option Raw) → Option Session
  | .ok (some raw) => (codec.decode raw).filter wanted
  | _ => none

/-- The commands of the Redis manager. -/
def redisImpl (codec : Codec Raw Session κ) : (op : ManagerOp) →
    Prog (CellOp Raw Session) CellOp.Resp Unit (Except Unit op.Resp)
  | .applyResumeBatch threadId profilePath entries =>
    if entries.isEmpty then call .skip fun _ => ret (.ok (.error .empty))
    else
      tryUpdate codec (applyResumeBatchToSession threadId profilePath entries) casMaxAttempts >>=
        fun result => ret (.ok (batchAnswer result))
  | .restoreResumeBatch pendingInfo =>
    tryUpdate codec (restoreResumeBatchToSession pendingInfo) casMaxAttempts >>=
      fun result => ret (.ok (updateAnswer result))
  | .setPausedWithHitlInfo hitlInfo =>
    tryUpdate codec (pauseSession hitlInfo) casMaxAttempts >>=
      fun result => ret (.ok (updateAnswer result))
  | .getSession => call .get fun ans => ret (.ok (redisRead codec (fun _ => true) ans))
  | .getSessionByInterruptId interruptId =>
    call .get fun ans => ret (.ok (redisRead codec (Session.awaits interruptId) ans))
  | .expire => call .expire fun _ => ret (.ok ())

/-- The operation is an update of the session. -/
def IsUpdate {ε β : Type} (op : ManagerOp) (update : Session → Except ε (β × Session))
    (answer : Except (CasError ε) β → op.Resp) : Prop :=
  ∀ ch stored, ch ≠ .refused → atomicSem ch op stored =
    some (.ok (updateSession update answer ch stored).1, (updateSession update answer ch stored).2)

theorem isUpdate_apply (threadId profilePath : String) (entries : List ResumeBatchEntry) :
    IsUpdate (.applyResumeBatch threadId profilePath entries)
      (applyResumeBatchToSession threadId profilePath entries) batchAnswer := by
  intro ch stored hch
  cases ch <;> first | rfl | exact absurd rfl hch

theorem isUpdate_restore (pendingInfo : HitlWaitingInfo) :
    IsUpdate (.restoreResumeBatch pendingInfo) (restoreResumeBatchToSession pendingInfo)
      updateAnswer := by
  intro ch stored hch
  cases ch <;> first | rfl | exact absurd rfl hch

theorem isUpdate_pause (hitlInfo : HitlWaitingInfo) :
    IsUpdate (.setPausedWithHitlInfo hitlInfo) (pauseSession hitlInfo) updateAnswer := by
  intro ch stored hch
  cases ch <;> first | rfl | exact absurd rfl hch

theorem IsUpdate.updates (h : IsUpdate op update answer) :
    Updates atomicSem op update answer where
  commits {session value session'} hupdate := by
    refine ⟨.served, ?_⟩
    rw [h .served _ (by decide)]
    simp [updateSession, hupdate]
  rejects {session e} hupdate := by
    refine ⟨.served, ?_⟩
    rw [h .served _ (by decide)]
    simp [updateSession, hupdate]
  unavailable stored := ⟨.unavailable, h .unavailable stored (by decide)⟩
  contended stored := ⟨.contended, h .contended stored (by decide)⟩

variable [DecidableEq Raw] {codec : Codec Raw Session κ}

/-- What is read from the store is what a reader of the session finds. -/
theorem linear_redisRead {o : ManagerOp} {wanted : Session → Bool} {k : Option Session → o.Resp}
    (hserved : ∀ stored, ∃ ch, atomicSem ch o stored =
      some (.ok (k (stored.filter wanted)), stored))
    (hunavailable : ∀ stored, ∃ ch, atomicSem ch o stored = some (.ok (k none), stored)) :
    Linear (cellSem codec) atomicSem (Interleaving.Holds codec) o
      (call .get fun ans => ret (.ok (k (redisRead codec wanted ans)))) := by
  refine linear_call fun ch cell stored ans cell' habs hsem => ?_
  cases ch with
  | fails =>
    cases hsem
    obtain ⟨ch, hch⟩ := hunavailable stored
    exact ⟨ch, stored, hch, habs⟩
  | served text =>
    cases hsem
    obtain ⟨ch, hch⟩ := hserved stored
    refine ⟨ch, stored, ?_, habs⟩
    cases habs with
    | none => exact hch
    | some hraw =>
      rw [hch]
      simp [redisRead, hraw]

/-- **The operations of the Redis manager are atomic.** -/
theorem linear_redisImpl (op : ManagerOp) :
    Linear (cellSem codec) atomicSem (Interleaving.Holds codec) op (redisImpl codec op) := by
  cases op with
  | applyResumeBatch threadId profilePath entries =>
    by_cases hempty : entries.isEmpty
    · rw [redisImpl, if_pos hempty]
      refine linear_call fun ch cell stored ans cell' habs hsem => ⟨.refused, stored, ?_, ?_⟩
      · simp [atomicSem, hempty]
      · cases ch <;> cases hsem <;> exact habs
    · rw [redisImpl, if_neg hempty]
      exact linear_tryUpdate (isUpdate_apply threadId profilePath entries).updates 7
  | restoreResumeBatch pendingInfo => exact linear_tryUpdate (isUpdate_restore pendingInfo).updates 7
  | setPausedWithHitlInfo hitlInfo => exact linear_tryUpdate (isUpdate_pause hitlInfo).updates 7
  | getSession =>
    have hserved (stored : Option Session) : atomicSem .served .getSession stored =
        some (.ok (stored.filter fun _ => true), stored) := rfl
    exact linear_redisRead (o := .getSession) (k := fun found => found)
      (fun stored => ⟨.served, hserved stored⟩) fun stored => ⟨.unavailable, rfl⟩
  | getSessionByInterruptId interruptId =>
    have hserved (stored : Option Session) :
        atomicSem .served (.getSessionByInterruptId interruptId) stored =
          some (.ok (stored.filter (Session.awaits interruptId)), stored) := rfl
    exact linear_redisRead (o := .getSessionByInterruptId interruptId) (k := fun found => found)
      (fun stored => ⟨.served, hserved stored⟩) fun stored => ⟨.unavailable, rfl⟩
  | expire =>
    refine linear_call fun ch cell stored ans cell' habs hsem => ⟨.served, none, rfl, ?_⟩
    cases ch <;> cases hsem <;> exact .none

end Jobworkerp.AgUi
