/-
Jobworkerp/AgUi/ResumeHistory.lean

The history of a session.

Any number of programs work on one session: they pause it, answer its interrupts
in batches, open the interrupts of a completed batch again, and read it.  A program
that opens interrupts again does so with the waiting information that its own
completed batch handed to it, once; a pause has identifiers of its own
(`Disciplined`).

The waiting information of a pause is in the session or in the hands of the
program whose batch completed the pause, never in both, and has the answers that
were recorded last (`Bookkeeping`).

* `effect_of_sem`: what one operation does.
* `Bookkeeping.step`, `PoolInv.run`: the bookkeeping is kept along every run.
-/
import Jobworkerp.AgUi.Session

namespace Jobworkerp.AgUi

open Interleaving Prog List Function

/-! ### What an operation did -/

/-- The answers an operation recorded, and its result. -/
def accepted : (op : ManagerOp) → Except Unit op.Resp →
    Option (List ResumeBatchEntry × ResumeBatchResult)
  | .applyResumeBatch _ _ entries, .ok (.ok result) => some (entries, result)
  | _, _ => none

/-- The waiting information a completed batch carries, and the one before it. -/
def completed (op : ManagerOp) (ans : Except Unit op.Resp) :
    Option (HitlWaitingInfo × HitlWaitingInfo) :=
  match accepted op ans with
  | some (_, .complete resolvedInfo pendingInfo) => some (resolvedInfo, pendingInfo)
  | _ => none

def pausedWith : (op : ManagerOp) → Except Unit op.Resp → Option HitlWaitingInfo
  | .setPausedWithHitlInfo hitlInfo, .ok true => some hitlInfo
  | _, _ => none

def restoredWith : (op : ManagerOp) → Except Unit op.Resp → Option HitlWaitingInfo
  | .restoreResumeBatch pendingInfo, .ok true => some pendingInfo
  | _, _ => none

/-- The operation recorded nothing, paused nothing and opened nothing. -/
structure Idle (op : ManagerOp) (ans : Except Unit op.Resp) : Prop where
  accepted : accepted op ans = none
  pausedWith : pausedWith op ans = none
  restoredWith : restoredWith op ans = none

theorem Idle.completed (h : Idle op ans) : completed op ans = none := by
  rw [AgUi.completed, h.accepted]

/-- What one operation does to the session. -/
inductive Effect : (op : ManagerOp) → Except Unit op.Resp → Option Session → Option Session → Prop
  | nothing {op ans stored} (h : Idle op ans) : Effect op ans stored stored
  | expired {op ans stored} (h : Idle op ans) (hop : ∀ t p es, op ≠ .applyResumeBatch t p es) :
      Effect op ans stored none
  | recorded {threadId profilePath entries session info remaining}
      (hstate : session.state = .paused) (hinfo : session.hitlWaitingInfo = some info)
      (hfits : Fits info entries) :
      Effect (.applyResumeBatch threadId profilePath entries) (.ok (.ok (.partial_ remaining)))
        (some session) (some { session with hitlWaitingInfo := some (info.record entries) })
  | completed {threadId profilePath entries session info}
      (hstate : session.state = .paused) (hinfo : session.hitlWaitingInfo = some info)
      (hfits : Fits info entries) (hall : completes info.interrupts entries = true) :
      Effect (.applyResumeBatch threadId profilePath entries)
        (.ok (.ok (.complete (info.record entries) info)))
        (some session) (some { session with state := .active, hitlWaitingInfo := none })
  | restored {pendingInfo session} (hinfo : session.hitlWaitingInfo = none) :
      Effect (.restoreResumeBatch pendingInfo) (.ok true) (some session)
        (some { session with hitlWaitingInfo := some pendingInfo, state := .paused })
  | paused {hitlInfo session} (hstate : session.state = .active) :
      Effect (.setPausedWithHitlInfo hitlInfo) (.ok true) (some session)
        (some { session with state := .paused, hitlWaitingInfo := some hitlInfo })

variable {ch : ManagerChoice}

/-- An update is carried out, or nothing happens. -/
theorem updateSession_cases {update : Session → Except ε (β × Session)}
    {answer : Except (CasError ε) β → ρ} {stored stored' : Option Session}
    {ans : ρ} (h : updateSession update answer ch stored = (ans, stored')) :
    (∃ session value session', stored = some session ∧ update session = .ok (value, session') ∧
      ans = answer (.ok value) ∧ stored' = some session') ∨
      (∃ e, ans = answer (.error e)) ∧ stored' = stored := by
  unfold updateSession at h
  split at h
  · cases h
    exact .inr ⟨⟨_, rfl⟩, rfl⟩
  · cases h
    exact .inr ⟨⟨_, rfl⟩, rfl⟩
  · cases h
    exact .inr ⟨⟨_, rfl⟩, rfl⟩
  · split at h
    · cases h
      exact .inr ⟨⟨_, rfl⟩, rfl⟩
    · rename_i session _ _ _ value session' hupdate
      cases h
      exact .inl ⟨session, value, session', rfl, hupdate, rfl, rfl⟩

theorem effect_apply {threadId profilePath : String} {entries : List ResumeBatchEntry}
    {stored stored' : Option Session} {ans : Except ResumeBatchError ResumeBatchResult}
    (h : updateSession (applyResumeBatchToSession threadId profilePath entries) batchAnswer ch
      stored = (ans, stored')) :
    Effect (.applyResumeBatch threadId profilePath entries) (.ok ans) stored stored' := by
  rcases updateSession_cases h with ⟨session, value, session', rfl, hupdate, rfl, rfl⟩ | ⟨⟨e, rfl⟩, rfl⟩
  · obtain ⟨info, hstate, hinfo, hfits, hresult⟩ := batch_cases hupdate
    unfold recordBatch at hresult
    split at hresult
    · rename_i hall
      cases hresult
      exact .completed hstate hinfo hfits hall
    · cases hresult
      exact .recorded hstate hinfo hfits
  · cases e <;> exact .nothing ⟨rfl, rfl, rfl⟩

theorem effect_restore {pendingInfo : HitlWaitingInfo}
    {stored stored' : Option Session} {ans : Bool}
    (h : updateSession (restoreResumeBatchToSession pendingInfo) updateAnswer ch stored =
      (ans, stored')) :
    Effect (.restoreResumeBatch pendingInfo) (.ok ans) stored stored' := by
  rcases updateSession_cases h with ⟨session, value, session', rfl, hupdate, rfl, rfl⟩ | ⟨⟨e, rfl⟩, rfl⟩
  · unfold restoreResumeBatchToSession at hupdate
    split_ifs at hupdate with hshape
    cases hupdate
    rw [not_or, Bool.not_eq_true, Option.isSome_eq_false_iff, Option.isNone_iff_eq_none] at hshape
    exact .restored hshape.2
  · exact .nothing ⟨rfl, rfl, rfl⟩

theorem effect_pause {hitlInfo : HitlWaitingInfo} {stored stored' : Option Session} {ans : Bool}
    (h : updateSession (pauseSession hitlInfo) updateAnswer ch stored = (ans, stored')) :
    Effect (.setPausedWithHitlInfo hitlInfo) (.ok ans) stored stored' := by
  rcases updateSession_cases h with ⟨session, value, session', rfl, hupdate, rfl, rfl⟩ | ⟨⟨e, rfl⟩, rfl⟩
  · unfold pauseSession at hupdate
    split_ifs at hupdate with hstate
    cases hupdate
    exact .paused (not_not.mp hstate)
  · exact .nothing ⟨rfl, rfl, rfl⟩

/-- An operation that is refused for its arguments does nothing. -/
theorem effect_refused (h : atomicSem .refused op stored = some (ans, stored')) :
    Effect op ans stored stored' := by
  cases op with
  | applyResumeBatch threadId profilePath entries =>
    rw [atomicSem] at h
    split_ifs at h
    cases h
    exact .nothing ⟨rfl, rfl, rfl⟩
  | restoreResumeBatch pendingInfo => cases h
  | setPausedWithHitlInfo | getSession | getSessionByInterruptId | expire => cases h

/-- A reader leaves the session as it is, or finds it past its time. -/
theorem effect_read
    (hop : op = .getSession ∨ ∃ interruptId, op = .getSessionByInterruptId interruptId)
    (h : stored' = stored ∨ stored' = none) : Effect op ans stored stored' := by
  have hidle : Idle op ans := by
    rcases hop with rfl | ⟨interruptId, rfl⟩ <;> exact ⟨rfl, rfl, rfl⟩
  have hnone : ∀ t p es, op ≠ .applyResumeBatch t p es := by
    rcases hop with rfl | ⟨interruptId, rfl⟩ <;> intro t p es heq <;> cases heq
  rcases h with rfl | rfl
  · exact .nothing hidle
  · exact .expired hidle hnone

/-- **What one operation does**, whichever way it is served. -/
theorem effect_of_sem (h : atomicSem ch op stored = some (ans, stored')) :
    Effect op ans stored stored' := by
  by_cases hch : ch = .refused
  · subst hch
    exact effect_refused h
  cases op with
  | applyResumeBatch threadId profilePath entries =>
    rw [isUpdate_apply threadId profilePath entries ch stored hch] at h
    cases h
    exact effect_apply rfl
  | restoreResumeBatch pendingInfo =>
    rw [isUpdate_restore pendingInfo ch stored hch] at h
    cases h
    exact effect_restore rfl
  | setPausedWithHitlInfo hitlInfo =>
    rw [isUpdate_pause hitlInfo ch stored hch] at h
    cases h
    exact effect_pause rfl
  | getSession =>
    refine effect_read (.inl rfl) ?_
    cases ch with
    | refused => exact absurd rfl hch
    | expired => cases h; exact .inr rfl
    | served | unavailable | contended => cases h; exact .inl rfl
  | getSessionByInterruptId interruptId =>
    refine effect_read (.inr ⟨interruptId, rfl⟩) (.inl ?_)
    cases ch with
    | refused => exact absurd rfl hch
    | expired | served | unavailable | contended => cases h; rfl
  | expire =>
    cases ch <;> cases h <;> exact .expired ⟨rfl, rfl, rfl⟩ (fun t p es heq => by cases heq)

/-! ### Programs that keep to the rules -/

/-- The waiting information an operation gives back. -/
def surrenders : ManagerOp → Option HitlWaitingInfo
  | .restoreResumeBatch pendingInfo => some pendingInfo
  | _ => none

/-- The waiting information an operation pauses with. -/
def opens : ManagerOp → Option HitlWaitingInfo
  | .setPausedWithHitlInfo hitlInfo => some hitlInfo
  | _ => none

/-- What a thread holds after an operation. -/
def heldAfter (op : ManagerOp) (ans : Except Unit op.Resp) (held : Set HitlWaitingInfo) :
    Set HitlWaitingInfo :=
  { info ∈ held | ∀ given ∈ surrenders op, info.interruptId ≠ given.interruptId } ∪
    { info | ∃ resolvedInfo, completed op ans = some (resolvedInfo, info) }

/-- The identifiers a thread has left after an operation. -/
def idsAfter (op : ManagerOp) (ids : Set String) : Set String :=
  { id ∈ ids | ∀ info ∈ opens op, id ≠ info.interruptId }

variable {α : Type}

/-- A program that holds the waiting informations `held` of its completed batches
and has the identifiers `ids` for its pauses.  It gives back only what it holds,
once, and pauses with an unused identifier and unanswered interrupts. -/
def Disciplined : Prog ManagerOp ManagerOp.Resp Unit α → Set HitlWaitingInfo → Set String → Prop
  | ret _, _, _ => True
  | fail _, _, _ => True
  | call op k, held, ids =>
    (∀ info ∈ surrenders op, info ∈ held) ∧
    (∀ info ∈ opens op, info.interruptId ∈ ids ∧
      ∀ interrupt ∈ info.interrupts, interrupt.status = none) ∧
    ∀ ans, Disciplined (k ans) (heldAfter op ans held) (idsAfter op ids)

theorem disciplined_perform
    {held : Set HitlWaitingInfo} {ids : Set String} (hgive : ∀ info ∈ surrenders o, info ∈ held)
    (hopen : ∀ info ∈ opens o, info.interruptId ∈ ids ∧
      ∀ interrupt ∈ info.interrupts, interrupt.status = none)
    (hf : ∀ answer, Disciplined (f answer) (heldAfter o (.ok answer) held) (idsAfter o ids)) :
    Disciplined (perform o >>= f) held ids := by
  refine ⟨hgive, hopen, fun ans => ?_⟩
  cases ans with
  | ok answer => exact hf answer
  | error e => trivial

/-! ### Histories -/

/-- A step of the history of a session. -/
abbrev SessionEvent (ι α : Type) := Event ι ManagerOp ManagerOp.Resp Unit α (Option Session)

variable {ι : Type}

/-- The waiting information in the store. -/
def storedInfo (stored : Option Session) : Option HitlWaitingInfo :=
  stored.bind Session.hitlWaitingInfo

/-- The answer of a batch to an interrupt. -/
def answerIn (entries : List ResumeBatchEntry) (interruptId : String) :
    Option (ResumeStatus × Option Text.Json) :=
  (entries.find? fun entry => entry.interruptId == interruptId).map fun entry =>
    (entry.status, entry.payload)

/-- The answer that a step recorded for an interrupt of a pause. -/
def answerAt (pause interruptId : String) (e : SessionEvent ι α) :
    Option (ResumeStatus × Option Text.Json) :=
  match accepted e.op e.ans, storedInfo e.pre with
  | some (entries, _), some info =>
    if info.interruptId = pause then answerIn entries interruptId else none
  | _, _ => none

/-- The answer recorded last for an interrupt of a pause. -/
def lastAnswer (pause interruptId : String) (h : List (SessionEvent ι α)) :
    Option (ResumeStatus × Option Text.Json) :=
  h.foldl (fun acc e => (answerAt pause interruptId e).or acc) none

theorem lastAnswer_concat (pause interruptId : String) (h : List (SessionEvent ι α))
    (e : SessionEvent ι α) : lastAnswer pause interruptId (h ++ [e]) =
      (answerAt pause interruptId e).or (lastAnswer pause interruptId h) := by
  simp [lastAnswer]

/-- The waiting information is that of a pause. -/
def concerns (pause : String) (info : Option HitlWaitingInfo) : Bool :=
  info.any fun info => info.interruptId == pause

/-- The step completed, opened or opened again the pause of the identifier. -/
def completesAt (pause : String) (e : SessionEvent ι α) : Bool :=
  concerns pause ((completed e.op e.ans).map Prod.snd)

def pausesAt (pause : String) (e : SessionEvent ι α) : Bool :=
  concerns pause (pausedWith e.op e.ans)

def restoresAt (pause : String) (e : SessionEvent ι α) : Bool :=
  concerns pause (restoredWith e.op e.ans)

/-- The answers in a waiting information are those that were recorded last. -/
def Recorded (h : List (SessionEvent ι α)) (info : HitlWaitingInfo) : Prop :=
  ∀ interrupt ∈ info.interrupts, ∀ status, interrupt.status = some status →
    lastAnswer info.interruptId interrupt.interruptId h = some (status, interrupt.payload)

/-- A waiting information has the interrupts of its pause. -/
def Opened (h : List (SessionEvent ι α)) (info : HitlWaitingInfo) : Prop :=
  ∃ e ∈ h, ∃ hitlInfo, pausedWith e.op e.ans = some hitlInfo ∧
    hitlInfo.interruptId = info.interruptId ∧
    hitlInfo.interrupts.map InterruptInfo.interruptId =
      info.interrupts.map InterruptInfo.interruptId

/-! ### The bookkeeping -/

/-- Where the waiting informations are: in the session, or in the hands of a thread. -/
def places (stored : Option Session) (held : ι → Set HitlWaitingInfo) :
    Option ι → Set HitlWaitingInfo
  | none => { info | storedInfo stored = some info }
  | some i => held i

/-- A pause has one waiting information, in one place, with what was recorded; the
identifiers that are left have not been used. -/
structure Bookkeeping (h : List (SessionEvent ι α)) (at_ : Option ι → Set HitlWaitingInfo)
    (ids : ι → Set String) : Prop where
  owner : ∀ a b x y, x ∈ at_ a → y ∈ at_ b → x.interruptId = y.interruptId → a = b ∧ x = y
  recorded : ∀ a, ∀ x ∈ at_ a, Recorded h x
  opened : ∀ a, ∀ x ∈ at_ a, Opened h x
  spent : ∀ a, ∀ x ∈ at_ a, ∀ i, x.interruptId ∉ ids i
  apart : ∀ i j id, id ∈ ids i → id ∈ ids j → i = j
  unused : ∀ i, ∀ id ∈ ids i, h.countP (pausesAt id) = 0
  single : ∀ id, h.countP (pausesAt id) ≤ 1

variable {h : List (SessionEvent ι α)} {e : SessionEvent ι α}
  {at_ at' : Option ι → Set HitlWaitingInfo} {ids ids' : ι → Set String}

variable {info : HitlWaitingInfo} {entries : List ResumeBatchEntry}

variable {b : Option ι}

theorem Recorded.concat (hinfo : Recorded h info)
    (he : ∀ id, answerAt info.interruptId id e = none) : Recorded (h ++ [e]) info := by
  intro interrupt hinterrupt status hstatus
  rw [lastAnswer_concat, he, Option.none_or]
  exact hinfo interrupt hinterrupt status hstatus

theorem Opened.concat (hinfo : Opened h info) : Opened (h ++ [e]) info := by
  obtain ⟨e0, he0, hrest⟩ := hinfo
  exact ⟨e0, mem_append_left _ he0, hrest⟩

theorem answerAt_of_ne {pause id : String}
    (hne : ∀ info, storedInfo e.pre = some info → accepted e.op e.ans ≠ none →
      info.interruptId ≠ pause) : answerAt pause id e = none := by
  unfold answerAt
  split
  · rename_i haccepted hinfo
    exact if_neg (hne _ hinfo (by simp [haccepted]))
  · rfl

/-- After a step that only lets go of waiting informations. -/
theorem Bookkeeping.shrink (hb : Bookkeeping h at_ ids) (hat : ∀ a, at' a ⊆ at_ a)
    (hids : ∀ i, ids' i ⊆ ids i) (hidle : Idle e.op e.ans) : Bookkeeping (h ++ [e]) at' ids' := by
  have hpauses (id : String) : (h ++ [e]).countP (pausesAt id) = h.countP (pausesAt id) := by
    simp [countP_append, pausesAt, concerns, hidle.pausedWith]
  refine ⟨?_, ?_, ?_, ?_, ?_, ?_, ?_⟩
  · intro a b x y hx hy
    exact hb.owner a b x y (hat a hx) (hat b hy)
  · intro a x hx
    refine (hb.recorded a x (hat a hx)).concat fun id => answerAt_of_ne ?_
    intro info hinfo haccepted
    exact absurd hidle.accepted haccepted
  · intro a x hx
    exact (hb.opened a x (hat a hx)).concat
  · intro a x hx i hi
    exact hb.spent a x (hat a hx) i (hids i hi)
  · intro i j id hi hj
    exact hb.apart i j id (hids i hi) (hids j hj)
  · intro i id hi
    rw [hpauses]
    exact hb.unused i id (hids i hi)
  · intro id
    rw [hpauses]
    exact hb.single id

/-- After a step about one pause, whose waiting information is now `z` at `b`. -/
theorem Bookkeeping.place (hb : Bookkeeping h at_ ids)
    (hat : ∀ a, ∀ x ∈ at' a, (a = b ∧ x = z) ∨ (x ∈ at_ a ∧ x.interruptId ≠ z.interruptId))
    (hids : ∀ i, ids' i ⊆ ids i) (hz : ∀ i, z.interruptId ∉ ids' i)
    (hrecorded : Recorded (h ++ [e]) z) (hopened : Opened (h ++ [e]) z)
    (hother : ∀ pause id, pause ≠ z.interruptId → answerAt pause id e = none)
    (hpauses : ∀ id, pausesAt id e = true → id = z.interruptId ∧ ∃ i, id ∈ ids i) :
    Bookkeeping (h ++ [e]) at' ids' := by
  have hcount (id : String) (hid : pausesAt id e = false) :
      (h ++ [e]).countP (pausesAt id) = h.countP (pausesAt id) := by
    simp [countP_append, hid]
  refine ⟨?_, ?_, ?_, ?_, ?_, ?_, ?_⟩
  · intro a c x y hx hy heq
    rcases hat a x hx with ⟨rfl, rfl⟩ | ⟨hx, hxne⟩
    · rcases hat c y hy with ⟨rfl, rfl⟩ | ⟨hy, hyne⟩
      · exact ⟨rfl, rfl⟩
      · exact absurd heq.symm hyne
    · rcases hat c y hy with ⟨rfl, rfl⟩ | ⟨hy, hyne⟩
      · exact absurd heq hxne
      · exact hb.owner a c x y hx hy heq
  · intro a x hx
    rcases hat a x hx with ⟨rfl, rfl⟩ | ⟨hx, hxne⟩
    · exact hrecorded
    · exact (hb.recorded a x hx).concat fun id => hother _ id hxne
  · intro a x hx
    rcases hat a x hx with ⟨rfl, rfl⟩ | ⟨hx, -⟩
    · exact hopened
    · exact (hb.opened a x hx).concat
  · intro a x hx i hi
    rcases hat a x hx with ⟨rfl, rfl⟩ | ⟨hx, -⟩
    · exact hz i hi
    · exact hb.spent a x hx i (hids i hi)
  · intro i j id hi hj
    exact hb.apart i j id (hids i hi) (hids j hj)
  · intro i id hi
    -- the identifier of the step is used up
    have hnot : pausesAt id e = false := by
      rw [Bool.eq_false_iff]
      intro hpaused
      exact hz i ((hpauses id hpaused).1 ▸ hi)
    rw [hcount id hnot]
    exact hb.unused i id (hids i hi)
  · intro id
    cases hpaused : pausesAt id e with
    | false =>
      rw [hcount id hpaused]
      exact hb.single id
    | true =>
      obtain ⟨-, i, hi⟩ := hpauses id hpaused
      simp [countP_append, hb.unused i id hi, hpaused]

/-- An accepted batch keeps the waiting information of the pause, with the answers in
the session or without them in the hands of the thread. -/
theorem Bookkeeping.batch {info z : HitlWaitingInfo} {held : ι → Set HitlWaitingInfo}
    (hb : Bookkeeping h (places e.pre held) ids) (hinfo : storedInfo e.pre = some info)
    (hz : z.interruptId = info.interruptId)
    (hat : ∀ a, ∀ x ∈ at' a, (a = b ∧ x = z) ∨ ∃ j, a = some j ∧ x ∈ held j)
    (hids : ∀ i, ids' i ⊆ ids i) (hpaused : pausedWith e.op e.ans = none)
    (hrecorded : Recorded (h ++ [e]) z) (hopened : Opened (h ++ [e]) z) :
    Bookkeeping (h ++ [e]) at' ids' := by
  have hmem : info ∈ places e.pre held none := hinfo
  refine hb.place (b := b) (z := z) ?_ hids ?_ hrecorded hopened ?_ ?_
  · intro a x hx
    rcases hat a x hx with hplaced | ⟨j, rfl, hheld⟩
    · exact .inl hplaced
    · refine .inr ⟨hheld, fun heq => ?_⟩
      cases (hb.owner (some j) none x info hheld hmem (heq.trans hz)).1
  · intro j hj
    exact hb.spent none info hmem j (hids j (hz ▸ hj))
  · intro pause id hne
    refine answerAt_of_ne fun info' hinfo' _ heq => hne ?_
    cases hinfo.symm.trans hinfo'
    rw [hz, heq]
  · intro id hpausesAt
    rw [pausesAt, hpaused] at hpausesAt
    cases hpausesAt

/-! ### Batches in the bookkeeping -/

theorem answerIn_of_mem (hnodup : (entries.map ResumeBatchEntry.interruptId).Nodup)
    (hentry : entry ∈ entries) :
    answerIn entries entry.interruptId = some (entry.status, entry.payload) := by
  induction entries with
  | nil => cases hentry
  | cons first rest ih =>
    rw [map_cons, nodup_cons] at hnodup
    rcases mem_cons.mp hentry with rfl | hrest
    · simp [answerIn]
    · have hne : first.interruptId ≠ entry.interruptId := fun heq =>
        hnodup.1 (heq ▸ mem_map_of_mem hrest)
      have hfind := ih hnodup.2 hrest
      unfold answerIn at hfind ⊢
      rw [List.find?_cons_of_neg (by simpa using hne)]
      exact hfind

theorem answerIn_of_ne (h : ∀ entry ∈ entries, interruptId ≠ entry.interruptId) :
    answerIn entries interruptId = none := by
  unfold answerIn
  rw [List.find?_eq_none.mpr]
  · rfl
  · intro entry hentry heq
    exact h entry hentry (beq_iff_eq.mp heq).symm

section Batch

variable {r : ResumeBatchResult}

/-- The answers of an accepted batch are the last for their interrupts. -/
theorem lastAnswer_batch (haccepted : accepted e.op e.ans = some (entries, r))
    (hinfo : storedInfo e.pre = some info) (id : String) :
    lastAnswer info.interruptId id (h ++ [e]) =
      (answerIn entries id).or (lastAnswer info.interruptId id h) := by
  rw [lastAnswer_concat, answerAt, haccepted, hinfo]
  simp

section

variable (hrecorded : Recorded h info) (hfits : Fits info entries)
  (haccepted : accepted e.op e.ans = some (entries, r)) (hinfo : storedInfo e.pre = some info)

include hrecorded hfits haccepted hinfo

/-- With the batch the waiting information has what was recorded. -/
theorem recorded_record : Recorded (h ++ [e]) (info.record entries) := by
  intro interrupt hinterrupt status hstatus
  show lastAnswer info.interruptId _ _ = _
  rw [lastAnswer_batch haccepted hinfo]
  rcases mem_setAnswers info.nodup hfits.nodup hinterrupt with
    ⟨entry, hentry, hid, hanswer, hpayload⟩ | ⟨hold, hother⟩
  · rw [hid, answerIn_of_mem hfits.nodup hentry, hpayload]
    cases hstatus.symm.trans hanswer
    rfl
  · rw [answerIn_of_ne hother]
    exact hrecorded interrupt hold status hstatus

/-- So has the waiting information before the batch, whose answers are to others. -/
theorem recorded_pending : Recorded (h ++ [e]) info := by
  intro interrupt hinterrupt status hstatus
  rw [lastAnswer_batch haccepted hinfo, answerIn_of_ne]
  · exact hrecorded interrupt hinterrupt status hstatus
  · intro entry hentry heq
    rw [hfits.unanswered entry hentry interrupt hinterrupt heq] at hstatus
    cases hstatus

end

theorem Opened.record (hopened : Opened h info) : Opened h (info.record entries) := by
  obtain ⟨e0, he0, hitlInfo, hpaused, hkey, hids⟩ := hopened
  refine ⟨e0, he0, hitlInfo, hpaused, hkey, ?_⟩
  show _ = (setAnswers entries info.interrupts).map _
  rw [hids, setAnswers_ids]

end Batch

/-! ### The pool -/

/-- A pool of sessions and programs. -/
abbrev SessionPool (ι α : Type) := Config ι ManagerOp ManagerOp.Resp Unit α (Option Session)

/-- The programs keep to the rules, and the bookkeeping is right. -/
def PoolInv (h : List (SessionEvent ι α)) (c : SessionPool ι α) : Prop :=
  ∃ held ids, (∀ i, Disciplined (c.threads i) (held i) (ids i)) ∧
    Bookkeeping h (places c.store held) ids

theorem poolInv_start
    (hids : ∀ i j id, id ∈ ids i → id ∈ ids j → i = j) (hp : ∀ i, Disciplined (p i) ∅ (ids i)) :
    PoolInv [] (⟨p, some (Session.new threadId profilePath)⟩ : SessionPool ι α) := by
  refine ⟨fun _ => ∅, ids, hp, ?_⟩
  have hempty : ∀ a, ∀ x ∈ places (ι := ι) (some (Session.new threadId profilePath))
      (fun _ => ∅) a, False := by
    intro a x hx
    cases a with
    | none => cases hx
    | some i => exact hx
  refine ⟨fun a b x y hx => (hempty a x hx).elim, fun a x hx => (hempty a x hx).elim,
    fun a x hx => (hempty a x hx).elim, fun a x hx => (hempty a x hx).elim, hids,
    fun i id hid => rfl, fun id => Nat.zero_le _⟩

/-! ### One step -/

variable [DecidableEq ι]

/-- A thread holds what it held and did not give back, or what its batch handed out. -/
theorem mem_heldAfter {held : ι → Set HitlWaitingInfo} {info : HitlWaitingInfo}
    (hinfo : info ∈ Function.update held i (heldAfter op ans (held i)) j) :
    (info ∈ held j ∧ (j = i → ∀ given ∈ surrenders op, info.interruptId ≠ given.interruptId)) ∨
      (j = i ∧ ∃ resolvedInfo, completed op ans = some (resolvedInfo, info)) := by
  by_cases hj : j = i
  · subst hj
    rw [update_self] at hinfo
    rcases hinfo with ⟨hheld, hgiven⟩ | hgained
    · exact .inl ⟨hheld, fun _ => hgiven⟩
    · exact .inr ⟨rfl, hgained⟩
  · rw [update_of_ne hj] at hinfo
    exact .inl ⟨hinfo, fun heq => absurd heq hj⟩

theorem idsAfter_subset (i j : ι) (op : ManagerOp) (ids : ι → Set String) :
    Function.update ids i (idsAfter op (ids i)) j ⊆ ids j := by
  by_cases hj : j = i
  · subst hj
    rw [update_self]
    exact fun id hid => hid.1
  · intro id hid
    rwa [update_of_ne hj] at hid

section Step

variable {i : ι} {held : ι → Set HitlWaitingInfo} {result : Option (Except Unit α)}

variable {op : ManagerOp} {ans : Except Unit op.Resp} {stored stored' : Option Session}
  {session session' : Session}

theorem Bookkeeping.idle (hb : Bookkeeping h (places stored held) ids)
    (hidle : Idle op ans) (hstored : ∀ info, storedInfo stored' = some info →
      storedInfo stored = some info) :
    Bookkeeping (h ++ [⟨i, op, ans, stored, stored', result⟩])
      (places stored' (Function.update held i (heldAfter op ans (held i))))
      (Function.update ids i (idsAfter op (ids i))) := by
  refine hb.shrink ?_ (fun j => idsAfter_subset i j op ids) hidle
  intro a x hx
  cases a with
  | none => exact hstored x hx
  | some j =>
    rcases mem_heldAfter hx with ⟨hheld, -⟩ | ⟨-, resolvedInfo, hcompleted⟩
    · exact hheld
    · rw [hidle.completed] at hcompleted
      cases hcompleted

theorem Bookkeeping.restore {pendingInfo : HitlWaitingInfo}
    (hb : Bookkeeping h (places (some session) held) ids) (hheld : pendingInfo ∈ held i)
    (hinfo : session'.hitlWaitingInfo = some pendingInfo) : Bookkeeping
      (h ++ [⟨i, .restoreResumeBatch pendingInfo, .ok true, some session, some session', result⟩])
      (places (some session') (Function.update held i
        (heldAfter (.restoreResumeBatch pendingInfo) (.ok true) (held i))))
      (Function.update ids i (idsAfter (.restoreResumeBatch pendingInfo) (ids i))) := by
  have hmem : pendingInfo ∈ places (some session) held (some i) := hheld
  have hnone (pause id : String) : answerAt pause id
      (⟨i, .restoreResumeBatch pendingInfo, .ok true, some session, some session', result⟩ :
        SessionEvent ι α) = none :=
    answerAt_of_ne fun info _ haccepted => absurd rfl haccepted
  refine hb.place (b := none) (z := pendingInfo) ?_ (fun j => idsAfter_subset i j _ ids)
    ?_ ?_ ?_ (fun pause id _ => hnone pause id) ?_
  · intro a x hx
    cases a with
    | none => exact .inl ⟨rfl, (Option.some.inj (hinfo.symm.trans hx)).symm⟩
    | some j =>
      rcases mem_heldAfter hx with ⟨hx, hgiven⟩ | ⟨-, resolvedInfo, hcompleted⟩
      · refine .inr ⟨hx, fun heq => ?_⟩
        have hj := (hb.owner (some j) (some i) x pendingInfo hx hmem heq).1
        exact hgiven (Option.some.inj hj) pendingInfo rfl heq
      · cases hcompleted
  · intro j hj
    exact hb.spent (some i) pendingInfo hmem j (idsAfter_subset i j _ ids hj)
  · exact (hb.recorded (some i) pendingInfo hmem).concat (hnone _)
  · exact (hb.opened (some i) pendingInfo hmem).concat
  · intro id hpaused
    cases hpaused

theorem Bookkeeping.pause {hitlInfo : HitlWaitingInfo}
    (hb : Bookkeeping h (places (some session) held) ids) (hid : hitlInfo.interruptId ∈ ids i)
    (hopen : ∀ interrupt ∈ hitlInfo.interrupts, interrupt.status = none)
    (hinfo : session'.hitlWaitingInfo = some hitlInfo) : Bookkeeping
      (h ++ [⟨i, .setPausedWithHitlInfo hitlInfo, .ok true, some session, some session', result⟩])
      (places (some session') (Function.update held i
        (heldAfter (.setPausedWithHitlInfo hitlInfo) (.ok true) (held i))))
      (Function.update ids i (idsAfter (.setPausedWithHitlInfo hitlInfo) (ids i))) := by
  refine hb.place (b := none) (z := hitlInfo) ?_ (fun j => idsAfter_subset i j _ ids)
    ?_ ?_ ?_ ?_ ?_
  · intro a x hx
    cases a with
    | none => exact .inl ⟨rfl, (Option.some.inj (hinfo.symm.trans hx)).symm⟩
    | some j =>
      rcases mem_heldAfter hx with ⟨hx, -⟩ | ⟨-, resolvedInfo, hcompleted⟩
      · refine .inr ⟨hx, fun heq => ?_⟩
        exact hb.spent (some j) x hx i (heq ▸ hid)
      · cases hcompleted
  · -- the identifier is the thread's own, and now used
    intro j hj
    obtain rfl : j = i := hb.apart j i _ (idsAfter_subset i j _ ids hj) hid
    rw [update_self] at hj
    exact hj.2 hitlInfo rfl rfl
  · intro interrupt hinterrupt status hstatus
    rw [hopen interrupt hinterrupt] at hstatus
    cases hstatus
  · exact ⟨_, mem_append_right _ mem_cons_self, hitlInfo, rfl, rfl, rfl⟩
  · intro pause id _
    exact answerAt_of_ne fun info _ haccepted => absurd rfl haccepted
  · intro id hpaused
    have heq : hitlInfo.interruptId = id := by
      simpa [pausesAt, concerns, pausedWith] using hpaused
    exact ⟨heq.symm, i, heq ▸ hid⟩

/-- **The bookkeeping is kept by every step** of a program that keeps to the rules. -/
theorem Bookkeeping.step (hb : Bookkeeping h (places stored held) ids)
    (hgive : ∀ info ∈ surrenders op, info ∈ held i)
    (hopen : ∀ info ∈ opens op, info.interruptId ∈ ids i ∧
      ∀ interrupt ∈ info.interrupts, interrupt.status = none)
    (heffect : Effect op ans stored stored') :
    Bookkeeping (h ++ [⟨i, op, ans, stored, stored', result⟩])
      (places stored' (Function.update held i (heldAfter op ans (held i))))
      (Function.update ids i (idsAfter op (ids i))) := by
  cases heffect with
  | nothing hidle => exact hb.idle hidle fun info hinfo => hinfo
  | expired hidle hop => exact hb.idle hidle fun info hinfo => by cases hinfo
  | @recorded threadId profilePath entries session info remaining hstate hinfo hfits =>
    have hmem : info ∈ places (some session) held none := hinfo
    refine hb.batch (b := none) (z := info.record entries) hinfo rfl ?_
      (fun j => idsAfter_subset i j _ ids) rfl ?_ ?_
    · intro a x hx
      cases a with
      | none => exact .inl ⟨rfl, (Option.some.inj hx).symm⟩
      | some j =>
        rcases mem_heldAfter hx with ⟨hx, -⟩ | ⟨-, resolvedInfo, hcompleted⟩
        · exact .inr ⟨j, rfl, hx⟩
        · cases hcompleted
    · exact recorded_record (hb.recorded none info hmem) hfits rfl hinfo
    · exact (hb.opened none info hmem).concat.record
  | @completed threadId profilePath entries session info hstate hinfo hfits hall =>
    have hmem : info ∈ places (some session) held none := hinfo
    refine hb.batch (b := some i) (z := info) hinfo rfl ?_
      (fun j => idsAfter_subset i j _ ids) rfl ?_ ?_
    · intro a x hx
      cases a with
      | none => cases hx
      | some j =>
        rcases mem_heldAfter hx with ⟨hx, -⟩ | ⟨rfl, resolvedInfo, hcompleted⟩
        · exact .inr ⟨j, rfl, hx⟩
        · cases hcompleted
          exact .inl ⟨rfl, rfl⟩
    · exact recorded_pending (hb.recorded none info hmem) hfits rfl hinfo
    · exact (hb.opened none info hmem).concat
  | @restored pendingInfo session hinfo => exact hb.restore (hgive pendingInfo rfl) rfl
  | @paused hitlInfo session hstate =>
    obtain ⟨hid, hnew⟩ := hopen hitlInfo rfl
    exact hb.pause hid hnew rfl

end Step

/-! ### Runs -/

variable {c c' : SessionPool ι α} {τ : List (SessionEvent ι α)}

theorem PoolInv.step (hc : PoolInv h c) (hs : Step atomicSem c e c') : PoolInv (h ++ [e]) c' := by
  obtain ⟨held, ids, hdisciplined, hb⟩ := hc
  obtain ⟨k, hk, hk', -⟩ := hs.self
  obtain ⟨ch, hsem⟩ := hs.sem_eq
  have hthread := hdisciplined e.thread
  rw [hk] at hthread
  obtain ⟨hgive, hopen, hrest⟩ := hthread
  refine ⟨Function.update held e.thread (heldAfter e.op e.ans (held e.thread)),
    Function.update ids e.thread (idsAfter e.op (ids e.thread)), ?_, ?_⟩
  · intro i
    by_cases hi : i = e.thread
    · subst hi
      rw [hk', update_self, update_self]
      exact hrest e.ans
    · rw [hs.other hi, update_of_ne hi, update_of_ne hi]
      exact hdisciplined i
  · rw [← hs.pre_eq] at hb
    rw [← hs.post_eq]
    exact hb.step hgive hopen (effect_of_sem hsem)

theorem PoolInv.run (hc : PoolInv h c) (hr : Run (Step atomicSem) c τ c') :
    PoolInv (h ++ τ) c' := by
  induction τ generalizing h c with
  | nil =>
    obtain rfl := run_nil.mp hr
    rwa [append_nil]
  | cons e τ ih =>
    obtain ⟨c1, hs, hrest⟩ := hr
    have hrun := ih (hc.step hs) hrest
    rwa [append_assoc] at hrun

end Jobworkerp.AgUi
