/-
Jobworkerp/ResultStream.lean

The response stream of a Direct job (`grpc-front/src/service/job.rs`).

The output of the job and the wait for its result are polled together, in any
order.  Output is passed on as it comes; the End is held back until the result
is known, so that a failed result can still be reported as the error of the
call.  `wrap_result_output_stream` ends the output after its first End, and
also at an item without content.

The status of a failed call is kept as what it is made of.

* `wrapResultOutputStream_eq`: what is left of the output of a job.
* `deferred_stream_shape`: the shape of the response in every schedule.
-/
import Jobworkerp.StreamError
import Jobworkerp.Interleaving.Run

namespace Jobworkerp

open Interleaving List

/-! ### The output of a job -/

/-- `ResultOutputItem`; `empty` is an item without content. -/
inductive ResultOutputItem
  | data (chunk : Bytes)
  | finalCollected (result : Bytes)
  | stop (trailer : Trailer)
  | empty

def ResultOutputItem.isStop : ResultOutputItem → Bool
  | stop _ => true
  | _ => false

def ResultOutputItem.isEmpty : ResultOutputItem → Bool
  | empty => true
  | _ => false

def wrapResultOutputStream : List ResultOutputItem → List ResultOutputItem
  | [] => []
  | .stop trailer :: _ => [.stop trailer]
  | .empty :: _ => []
  | item :: rest => item :: wrapResultOutputStream rest

/-- The items up to the first without content, which ends the output. -/
def contentItems (items : List ResultOutputItem) : List ResultOutputItem :=
  items.takeWhile (!·.isEmpty)

/-- The items before the first End. -/
def itemsBeforeEnd (items : List ResultOutputItem) : List ResultOutputItem :=
  (contentItems items).takeWhile (!·.isStop)

/-- The first End. -/
def firstEnd (items : List ResultOutputItem) : Option ResultOutputItem :=
  (contentItems items).find? (·.isStop)

/-- **The output that is passed on**: everything before the first End, and the
End. -/
theorem wrapResultOutputStream_eq (items : List ResultOutputItem) :
    wrapResultOutputStream items = itemsBeforeEnd items ++ (firstEnd items).toList := by
  induction items with
  | nil => rfl
  | cons item rest ih =>
    cases item with
    | stop | empty => rfl
    | data chunk =>
      show ResultOutputItem.data chunk :: wrapResultOutputStream rest = _
      rw [ih]
      rfl
    | finalCollected result =>
      show ResultOutputItem.finalCollected result :: wrapResultOutputStream rest = _
      rw [ih]
      rfl

variable {items : List ResultOutputItem} {item : ResultOutputItem}

theorem isStop_of_mem_itemsBeforeEnd (h : item ∈ itemsBeforeEnd items) : item.isStop = false := by
  have hall := all_takeWhile (p := fun item : ResultOutputItem => !item.isStop)
    (l := contentItems items)
  simpa using all_eq_true.mp hall item h

theorem isStop_of_firstEnd (h : firstEnd items = some item) : item.isStop = true := by
  simpa using List.find?_some h

/-! ### The response -/

/-- How a call fails: with the result of the job, with the error of the wait,
or because the task that waits has panicked. -/
inductive GrpcStatus
  | jobError (jobId : JobId) (data : JobResultData)
  | waitError (message : String)
  | internal (message : String)

/-- What the wait for the result ends with. -/
inductive ResultWait
  | finished (result : Option JobResult)
  | failed (message : String)
  | panicked

/-- The error a call reports for the end of its wait. -/
def ResultWait.failure (jobId : JobId) : ResultWait → Option GrpcStatus
  | .finished (some result) =>
    match result.data with
    | some data =>
      if data.status ≠ ResultStatus.success.toI32 then some (.jobError jobId data) else none
    | none => none
  | .finished none => none
  | .failed message => some (.waitError message)
  | .panicked => some (.internal "result wait task panicked")

/-- The state of `deferred_result_output_stream`, with what it has sent. -/
structure DeferredStream where
  output : List ResultOutputItem
  resultDone : Bool
  outputDone : Bool
  endItem : Option ResultOutputItem
  sent : List (Except GrpcStatus ResultOutputItem)
  closed : Bool

/-- A job that does not stream has no output. -/
def DeferredStream.start (items : Option (List ResultOutputItem)) : DeferredStream where
  output := wrapResultOutputStream (items.getD [])
  resultDone := false
  outputDone := items.isNone
  endItem := none
  sent := []
  closed := false

/-- The branches of the `select!`, and what follows the loop. -/
inductive DeferredBranch
  | result | output | finish
  deriving DecidableEq, Repr

/-- The branch for the end of the wait. -/
def DeferredStream.takeResult (failure : Option GrpcStatus) (s : DeferredStream) :
    DeferredStream :=
  match failure with
  | some status => { s with sent := s.sent ++ [.error status], closed := true }
  | none => { s with resultDone := true }

/-- The branch for the output. -/
def DeferredStream.takeOutput (s : DeferredStream) : DeferredStream :=
  match s.output with
  | [] => { s with outputDone := true }
  | item :: rest =>
    if item.isStop then { s with output := rest, endItem := some item, outputDone := true }
    else { s with output := rest, sent := s.sent ++ [.ok item] }

/-- What follows the loop. -/
def DeferredStream.finish (s : DeferredStream) : DeferredStream :=
  { s with sent := s.sent ++ s.endItem.toList.map .ok, closed := true }

/-- One branch is taken; which, is up to the schedule. -/
inductive DeferredStep (failure : Option GrpcStatus) :
    DeferredStream → DeferredBranch → DeferredStream → Prop
  | result {s : DeferredStream} (hopen : s.closed = false) (hdone : s.resultDone = false) :
      DeferredStep failure s .result (s.takeResult failure)
  | output {s : DeferredStream} (hopen : s.closed = false) (hdone : s.outputDone = false) :
      DeferredStep failure s .output s.takeOutput
  | finish {s : DeferredStream} (hopen : s.closed = false) (hresult : s.resultDone = true)
      (houtput : s.outputDone = true) :
      DeferredStep failure s .finish s.finish

/-! ### Every schedule -/

/-- An open response: a part of the output has been sent, and the rest waits. -/
structure Responding (failure : Option GrpcStatus) (items : List ResultOutputItem)
    (s : DeferredStream) : Prop where
  known : s.resultDone = true → failure = none
  waiting : s.outputDone = false → ∃ past left, itemsBeforeEnd items = past ++ left ∧
    s.output = left ++ (firstEnd items).toList ∧ s.sent = past.map .ok ∧ s.endItem = none
  done : s.outputDone = true →
    s.sent = (itemsBeforeEnd items).map .ok ∧ s.endItem = firstEnd items

/-- A closed response: the whole output and its End, or a part of the output
and one error. -/
def Responded (failure : Option GrpcStatus) (items : List ResultOutputItem)
    (sent : List (Except GrpcStatus ResultOutputItem)) : Prop :=
  (failure = none ∧
      sent = (itemsBeforeEnd items).map .ok ++ (firstEnd items).toList.map .ok) ∨
    ∃ status part, failure = some status ∧ part <+: itemsBeforeEnd items ∧
      sent = part.map .ok ++ [.error status]

variable {failure : Option GrpcStatus} {items : List ResultOutputItem}
  {s s' : DeferredStream} {b : DeferredBranch}

/-- What an open response has sent is a part of the output. -/
theorem Responding.sent_eq (h : Responding failure items s) :
    ∃ part, part <+: itemsBeforeEnd items ∧ s.sent = part.map .ok := by
  cases hdone : s.outputDone with
  | false =>
    obtain ⟨past, left, hbody, -, hsent, -⟩ := h.waiting hdone
    exact ⟨past, ⟨left, hbody.symm⟩, hsent⟩
  | true => exact ⟨_, prefix_refl _, (h.done hdone).1⟩

theorem responding_start (failure : Option GrpcStatus) (items : Option (List ResultOutputItem)) :
    Responding failure (items.getD []) (.start items) := by
  refine ⟨fun h => (nomatch h), fun _ => ?_, fun h => ?_⟩
  · exact ⟨[], itemsBeforeEnd (items.getD []), rfl, wrapResultOutputStream_eq _, rfl, rfl⟩
  · cases items with
    | none => exact ⟨rfl, rfl⟩
    | some items => cases h

theorem Responding.takeOutput (h : Responding failure items s) (hdone : s.outputDone = false) :
    Responding failure items s.takeOutput := by
  obtain ⟨past, left, hbody, houtput, hsent, hnone⟩ := h.waiting hdone
  unfold DeferredStream.takeOutput
  cases left with
  | nil =>
    rw [append_nil] at hbody
    have hall : s.sent = (itemsBeforeEnd items).map .ok := by rw [hsent, hbody]
    cases hend : firstEnd items with
    | none =>
      rw [hend] at houtput
      rw [houtput]
      exact ⟨h.known, fun hf => (nomatch hf), fun _ => ⟨hall, hnone.trans hend.symm⟩⟩
    | some last =>
      rw [hend] at houtput
      rw [houtput]
      show Responding failure items (if last.isStop = true then _ else _)
      rw [if_pos (isStop_of_firstEnd hend)]
      exact ⟨h.known, fun hf => (nomatch hf), fun _ => ⟨hall, hend.symm⟩⟩
  | cons item left =>
    have hitem : item.isStop = false := by
      have hmem : item ∈ itemsBeforeEnd items := by
        rw [hbody]
        simp
      exact isStop_of_mem_itemsBeforeEnd hmem
    rw [houtput]
    show Responding failure items (if item.isStop = true then _ else _)
    rw [if_neg (by rw [hitem]; decide)]
    refine ⟨h.known, fun _ => ⟨past ++ [item], left, by simpa using hbody, rfl, ?_, hnone⟩, ?_⟩
    · rw [hsent, map_append]
      rfl
    · intro hf
      exact absurd (hdone.symm.trans hf) (by decide)

/-- A step of an open response leaves it open, or closes it as it should. -/
theorem Responding.step (h : Responding failure items s) (hstep : DeferredStep failure s b s') :
    s'.closed = false ∧ Responding failure items s' ∨
      s'.closed = true ∧ Responded failure items s'.sent := by
  cases hstep with
  | result hopen hdone =>
    cases failure with
    | none => exact .inl ⟨hopen, fun _ => rfl, h.waiting, h.done⟩
    | some status =>
      obtain ⟨part, hpart, hsent⟩ := h.sent_eq
      refine .inr ⟨rfl, .inr ⟨status, part, rfl, hpart, ?_⟩⟩
      show s.sent ++ [.error status] = _
      rw [hsent]
  | output hopen hdone =>
    refine .inl ⟨?_, h.takeOutput hdone⟩
    unfold DeferredStream.takeOutput
    split
    · exact hopen
    · split_ifs <;> exact hopen
  | finish hopen hresult houtput =>
    obtain ⟨hsent, hend⟩ := h.done houtput
    refine .inr ⟨rfl, .inl ⟨h.known hresult, ?_⟩⟩
    show s.sent ++ s.endItem.toList.map .ok = _
    rw [hsent, hend]

/-- A closed response takes no step. -/
theorem DeferredStep.closed_eq_false (hstep : DeferredStep failure s b s') : s.closed = false := by
  cases hstep <;> assumption

/-- An open response can take a step. -/
theorem exists_deferredStep (failure : Option GrpcStatus) (h : s.closed = false) :
    ∃ b s', DeferredStep failure s b s' := by
  cases hresult : s.resultDone with
  | false => exact ⟨_, _, .result h hresult⟩
  | true =>
    cases houtput : s.outputDone with
    | false => exact ⟨_, _, .output h houtput⟩
    | true => exact ⟨_, _, .finish h hresult houtput⟩

/-- How many steps are left at most. -/
def DeferredStream.stepsLeft (s : DeferredStream) : ℕ :=
  if s.closed then 0
  else s.output.length + (if s.resultDone then 0 else 1) + (if s.outputDone then 0 else 1) + 1

theorem DeferredStep.stepsLeft_lt (hstep : DeferredStep failure s b s') :
    s'.stepsLeft < s.stepsLeft := by
  unfold DeferredStream.stepsLeft
  cases hstep with
  | result hopen hdone =>
    cases failure with
    | none => simp [DeferredStream.takeResult, hopen, hdone]
    | some status => simp [DeferredStream.takeResult, hopen]
  | output hopen hdone =>
    unfold DeferredStream.takeOutput
    split
    · simp [hopen, hdone]
    · rename_i item rest houtput
      split_ifs <;> simp_all
  | finish hopen hresult houtput => simp [DeferredStream.finish, hopen]

/-- **The shape of the response in every schedule.**  As long as the response
is open, it has sent a part of the items before the first End, in order, and
can go on; once it is closed, it has sent all of them and the End if the result
is a success, and a part of them and one error otherwise.  Nothing follows
then, and no schedule goes on forever. -/
theorem deferred_stream_shape (jobId : JobId) (wait : ResultWait)
    (items : Option (List ResultOutputItem)) {τ : List DeferredBranch} {s : DeferredStream}
    (hrun : Run (DeferredStep (wait.failure jobId)) (.start items) τ s) :
    (s.closed = false →
      (∃ part, part <+: itemsBeforeEnd (items.getD []) ∧ s.sent = part.map .ok) ∧
        ∃ b s', DeferredStep (wait.failure jobId) s b s') ∧
    (s.closed = true → Responded (wait.failure jobId) (items.getD []) s.sent ∧
        ∀ b s', ¬ DeferredStep (wait.failure jobId) s b s') ∧
    τ.length ≤ (DeferredStream.start items).stepsLeft := by
  have hinv : s.closed = false ∧ Responding (wait.failure jobId) (items.getD []) s ∨
      s.closed = true ∧ Responded (wait.failure jobId) (items.getD []) s.sent := by
    refine hrun.invariant (I := fun s => s.closed = false ∧
      Responding (wait.failure jobId) (items.getD []) s ∨
        s.closed = true ∧ Responded (wait.failure jobId) (items.getD []) s.sent) ?_
      (.inl ⟨rfl, responding_start _ items⟩)
    rintro c b c' hstep (⟨-, hc⟩ | ⟨hclosed, -⟩)
    · exact hc.step hstep
    · exact absurd (hstep.closed_eq_false.symm.trans hclosed) (by decide)
  have hlength : ∀ {τ : List DeferredBranch} {c c' : DeferredStream},
      Run (DeferredStep (wait.failure jobId)) c τ c' → τ.length ≤ c.stepsLeft := by
    intro τ
    induction τ with
    | nil => exact fun _ => Nat.zero_le _
    | cons b τ ih =>
      rintro c c' ⟨c1, hstep, hrest⟩
      have hlt := hstep.stepsLeft_lt
      have hle := ih hrest
      rw [length_cons]
      omega
  refine ⟨fun hopen => ?_, fun hclosed => ?_, hlength hrun⟩
  · rcases hinv with ⟨-, hresponding⟩ | ⟨hclosed, -⟩
    · exact ⟨hresponding.sent_eq, exists_deferredStep _ hopen⟩
    · exact absurd (hopen.symm.trans hclosed) (by decide)
  · rcases hinv with ⟨hopen, -⟩ | ⟨-, hresponded⟩
    · exact absurd (hopen.symm.trans hclosed) (by decide)
    · refine ⟨hresponded, fun b s' hstep => ?_⟩
      exact absurd (hstep.closed_eq_false.symm.trans hclosed) (by decide)

/-- The End of a stream without data. -/
def plainEnd : ResultOutputItem := .stop ⟨∅, none⟩

/-- A schedule in which the End comes before the result. -/
theorem plainEnd_held_back : ∃ τ s,
    Run (DeferredStep ((ResultWait.finished none).failure ⟨1⟩)) (.start (some [plainEnd])) τ s ∧
      s.sent = [.ok plainEnd] ∧
      Responded ((ResultWait.finished none).failure ⟨1⟩) [plainEnd] s.sent := by
  have hrun : Run (DeferredStep ((ResultWait.finished none).failure ⟨1⟩))
      (.start (some [plainEnd])) [.output, .result, .finish] _ :=
    ⟨_, .output rfl rfl, _, .result rfl rfl, _, .finish rfl rfl rfl, rfl⟩
  exact ⟨_, _, hrun, rfl,
    ((deferred_stream_shape ⟨1⟩ (.finished none) (some [plainEnd]) hrun).2.1 rfl).1⟩

/-- An item without content ends the output, and the End after it is not sent
although the result is a success. -/
theorem end_after_empty_lost : ∃ τ s,
    Run (DeferredStep ((ResultWait.finished none).failure ⟨1⟩))
        (.start (some [.empty, plainEnd])) τ s ∧
      s.closed = true ∧ s.sent = [] :=
  ⟨[.output, .result, .finish], _,
    ⟨_, .output rfl rfl, _, .result rfl rfl, _, .finish rfl rfl rfl, rfl⟩, rfl, rfl⟩

end Jobworkerp
