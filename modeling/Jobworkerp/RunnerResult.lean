/-
Jobworkerp/RunnerResult.lean

The verdict of a worker on an execution (`worker/runner/result.rs`).

`handle_error` maps the error of an execution to a status, a message and a
classified error; `job_result_status` replaces a retryable status by
`MaxRetry` when the attempts of the policy are used up.  The retry itself is
built elsewhere, from the recorded status and the recorded policy
(`build_retry_job`), and that function also reads the type of the policy.

An error is modelled by what the two functions ask of it, and by how its
payload is printed.  `debug` is the `Debug` form of a string.

* `jobResultStatus_eq_errorAndRetry_iff`: the verdict looks at `max_retry` only.
* `retry_verdict_agrees_iff`: the verdict and the builder disagree exactly on a
  policy of type `NONE` with attempts left.
-/
import Jobworkerp.Dispatch
import Jobworkerp.StreamError

namespace Jobworkerp

/-! ### Errors of an execution -/

/-- `tonic::Code`. -/
inductive TonicCode
  | ok | cancelled | unknown | invalidArgument | deadlineExceeded | notFound | alreadyExists
  | permissionDenied | resourceExhausted | failedPrecondition | aborted | outOfRange
  | unimplemented | internal | unavailable | dataLoss | unauthenticated
  deriving DecidableEq, Repr

/-- The variants of `JobWorkerError`, with what decides their status. -/
inductive RunnerErrorKind
  | runtime | timeout | codec | notFound | lock | invalidParameter | failedPrecondition
  | workerNotFound | chan | redis | db | generateId | alreadyExists | tonicServer
  | tonicClient (code : TonicCode)
  | serdeJson | parse | docker
  | reqwest (isTimeout isServerError : Bool)
  | cancelled | other
  deriving DecidableEq, Repr

/-- What `downcast_ref` finds in an error, with its payload as printed. -/
inductive ErrorCause
  | streamFailed (failure : StreamError) (text : String)
  | classified (error : StreamError) (diagnostic : String)
  | jobWorker (kind : RunnerErrorKind) (text : String)
  | tonicStatus (code : TonicCode) (text : String)
  | reqwest (isTimeout : Bool) (text : String)
  | unknown (text : String)
  deriving DecidableEq, Repr

structure ExecutionError where
  cause : ErrorCause
  /-- The context `DetectedByWorker` was added. -/
  detectedByWorker : Bool
  deriving DecidableEq, Repr

/-! ### Status and message -/

def TonicCode.resultStatus : TonicCode → ResultStatus
  | ok => .success
  | deadlineExceeded | unavailable => .errorAndRetry
  | cancelled | aborted => .abort
  | notFound | resourceExhausted | failedPrecondition | invalidArgument | permissionDenied
  | unauthenticated | alreadyExists => .fatalError
  | outOfRange | dataLoss | unimplemented | internal => .fatalError
  | unknown => .otherError

/-- The status of an error and the words before its payload. -/
def RunnerErrorKind.statusAndLabel : RunnerErrorKind → ResultStatus × String
  | runtime => (.errorAndRetry, "runtime error")
  | timeout => (.errorAndRetry, "timeout error")
  | codec => (.otherError, "codec error")
  | notFound => (.otherError, "not found")
  | lock => (.errorAndRetry, "invalid parameter")
  | invalidParameter => (.otherError, "invalid parameter")
  | failedPrecondition => (.otherError, "failed precondition")
  | workerNotFound => (.otherError, "worker not found")
  | chan => (.errorAndRetry, "chan error")
  | redis => (.errorAndRetry, "redis error")
  | db => (.errorAndRetry, "db error")
  | generateId => (.otherError, "generate id error")
  | alreadyExists => (.otherError, "conflict error")
  | tonicServer => (.otherError, "unexpected error")
  | tonicClient code => (code.resultStatus, "client error")
  | serdeJson => (.otherError, "parse arg json error")
  | parse => (.otherError, "parse error")
  | docker => (.otherError, "docker error")
  | reqwest isTimeout isServerError =>
    if isTimeout || isServerError then (.errorAndRetry, "request error")
    else (.otherError, "reqwest unknown error")
  | cancelled => (.cancelled, "cancelled")
  | other => (.otherError, "other error")

def tonicFailureCode : TonicCode → StreamErrorCode
  | .deadlineExceeded => .timeout
  | .unavailable => .transportFailed
  | _ => .executionFailed

def reqwestFailureCode (isTimeout : Bool) : StreamErrorCode :=
  if isTimeout then .timeout else .transportFailed

def failureCode : ErrorCause → StreamErrorCode
  | .jobWorker kind _ =>
    match kind with
    | .timeout => .timeout
    | .invalidParameter | .serdeJson | .parse => .invalidArgument
    | .cancelled => .cancelled
    | .tonicClient code => tonicFailureCode code
    | .reqwest isTimeout _ => reqwestFailureCode isTimeout
    | _ => .executionFailed
  | .tonicStatus code _ => tonicFailureCode code
  | .reqwest isTimeout _ => reqwestFailureCode isTimeout
  | _ => .executionFailed

def statusAndMessage : ErrorCause → ResultStatus × String
  | .jobWorker kind text => (kind.statusAndLabel.1, kind.statusAndLabel.2 ++ ": " ++ text)
  | .streamFailed _ text | .tonicStatus _ text | .reqwest _ text | .unknown text =>
    (.otherError, "unknown error: " ++ text)
  | .classified _ diagnostic => (.otherError, "unknown error: " ++ diagnostic)

/-- `stream_error::result_status_for`. -/
def resultStatusFor (code : ℤ) : ResultStatus :=
  match StreamErrorCode.tryFrom code with
  | some .cancelled => .cancelled
  | some .invalidArgument => .otherError
  | _ => .maxRetry

/-- `stream_error::classified_error`; it always returns (`normalize_eq`). -/
def classifiedError (code : StreamErrorCode) (message origin : String) : Option StreamError :=
  (normalize (unboundedError code message origin)).map Prod.fst

section Verdict

variable (debug : String → String)

def handleError (err : ExecutionError) (runnerOrigin : String) :
    ResultStatus × String × Option StreamError :=
  match err.cause with
  | .streamFailed failure text =>
    (resultStatusFor failure.code, "stream error: " ++ text, some failure)
  | .classified error diagnostic =>
    (.errorAndRetry, "runtime error: " ++ debug diagnostic, some error)
  | cause =>
    let (status, message) := statusAndMessage cause
    let origin := if err.detectedByWorker then workerOrigin else runnerOrigin
    (status, message, classifiedError (failureCode cause) message origin)

/-- `can_retry` of the status of an error. -/
def ExecutionError.retryable (err : ExecutionError) (runnerOrigin : String) : Bool :=
  (handleError debug err runnerOrigin).1 = .errorAndRetry

/-- An execution: its output, or an error that the runner returned as its
output or raised itself. -/
inductive ExecutionOutcome
  | output (stream : Bool) (metadata : Metadata)
  | failedOutput (err : ExecutionError) (metadata : Metadata)
  | failed (err : ExecutionError)

/-- `job_result_status`: the status, and for a failure its message, the
metadata and the classified error. -/
def jobResultStatus (runnerOrigin : String) (retryPolicy : Option RetryPolicy) (job : JobData)
    (res : ExecutionOutcome) : ResultStatus × Option (String × Metadata × Option StreamError) :=
  let verdict (err : ExecutionError) (metadata : Metadata) :=
    let (status, message, error) := handleError debug err runnerOrigin
    let maxRetry := (retryPolicy.map (·.maxRetry)).getD defaultMaxRetry
    let status :=
      if status = .errorAndRetry ∧ job.retried ≥ maxRetry then ResultStatus.maxRetry else status
    (status, some (message, metadata, error))
  match res with
  | .output _ _ => (.success, none)
  | .failedOutput err metadata => verdict err metadata
  | .failed err => verdict err []

/-- The error of a failed execution. -/
def ExecutionOutcome.error? : ExecutionOutcome → Option ExecutionError
  | .output _ _ => none
  | .failedOutput err _ => some err
  | .failed err => some err

variable {debug}

/-- **The verdict looks at `max_retry` only.** -/
theorem jobResultStatus_eq_errorAndRetry_iff (hres : res.error? = some err) :
    (jobResultStatus debug runnerOrigin retryPolicy job res).1 = .errorAndRetry ↔
      err.retryable debug runnerOrigin = true ∧
        ∃ policy, retryPolicy = some policy ∧ job.retried < policy.maxRetry := by
  -- both ways of failing are judged alike
  have hverdict : (jobResultStatus debug runnerOrigin retryPolicy job res).1 =
      if (handleError debug err runnerOrigin).1 = .errorAndRetry ∧
          job.retried ≥ (retryPolicy.map (·.maxRetry)).getD defaultMaxRetry then .maxRetry
      else (handleError debug err runnerOrigin).1 := by
    cases res with
    | output stream metadata => cases hres
    | failedOutput | failed => cases hres; rfl
  rw [hverdict]
  unfold ExecutionError.retryable
  by_cases hretry : (handleError debug err runnerOrigin).1 = .errorAndRetry
  · rw [hretry]
    cases retryPolicy with
    | none =>
      have hzero : job.retried ≥ defaultMaxRetry := UInt32.zero_le
      simp [hzero]
    | some policy => simp [UInt32.not_le]
  · simp [hretry]

end Verdict

/-! ### The verdict and the retry builder -/

def isFinished (result : JobResult) : Bool :=
  match result.data with
  | some data => data.status ≠ ResultStatus.errorAndRetry.toI32
  | none => false

theorem ResultStatus.toI32_injective : Function.Injective ResultStatus.toI32 := by
  intro a b h
  cases a <;> cases b <;> first | rfl | exact absurd h (by decide)

section Builder

variable {expo : UInt32 → UInt32 → UInt32 → UInt32}

theorem isSome_buildRetryJob_iff :
    (buildRetryJob expo dat worker metadata).isSome = true ↔
      dat.status = ResultStatus.errorAndRetry.toI32 ∧
        ∃ policy, retryPolicyOf dat worker = some policy ∧
          policy.type ≠ RetryType.none.toI32 ∧ dat.retried < policy.maxRetry := by
  unfold buildRetryJob
  by_cases hstatus : dat.status = ResultStatus.errorAndRetry.toI32
  · rw [if_neg (not_not.mpr hstatus)]
    cases hpolicy : retryPolicyOf dat worker with
    | none => simp
    | some policy =>
      by_cases hstop : policy.type = RetryType.none.toI32 ∨ dat.retried ≥ policy.maxRetry
      · simp only [if_pos hstop, Option.isSome_none, Bool.false_eq_true, false_iff]
        rintro ⟨-, p, hp, htype, hbudget⟩
        obtain rfl := Option.some.inj hp
        rcases hstop with hnone | hused
        · exact htype hnone
        · exact UInt32.not_le.mpr hbudget hused
      · simp only [if_neg hstop]
        rw [not_or, ge_iff_le, UInt32.not_le] at hstop
        simp [hstatus, hstop.1, hstop.2]
  · rw [if_pos hstatus]
    simp [hstatus]

/-- If `b` is `a` without `d`, then `a` and `b` agree, or `a` implies `b`, only
where `a` and `d` do not meet. -/
theorem iff_and_not_iff (a d : Prop) :
    ((a ↔ a ∧ ¬ d) ↔ ¬ (a ∧ d)) ∧ ((¬ (a ∧ ¬ d) → ¬ a) ↔ ¬ (a ∧ d)) := by
  by_cases ha : a <;> simp [ha]

/-- A policy of type `NONE` that still has attempts left. -/
def DisabledWithBudget (policy : Option RetryPolicy) (retried : UInt32) : Prop :=
  ∃ p, policy = some p ∧ p.type = RetryType.none.toI32 ∧ retried < p.maxRetry

/-- **The verdict and the builder disagree exactly on a policy of type `NONE`
with attempts left**, after a retryable error.  A result for which no retry is
built is then recorded with a status that its listeners take for an attempt
to be retried. -/
theorem retry_verdict_agrees_iff (debug : String → String) (runnerOrigin : String)
    (id : JobResultId) (job : Job) (dat : JobData) (worker worker' : WorkerData)
    (o : RunOutcome) (metadata : Metadata) (res : ExecutionOutcome) (err : ExecutionError)
    (data : JobResultData) (hres : res.error? = some err)
    (hstatus : o.status = (jobResultStatus debug runnerOrigin
      (resolveJobParams worker dat.overrides).retryPolicy dat res).1)
    (hdata : (buildJobResult id job dat worker o).data = some data) :
    ((o.status = .errorAndRetry ↔ (buildRetryJob expo data worker' metadata).isSome = true) ↔
      ¬ (err.retryable debug runnerOrigin = true ∧
        DisabledWithBudget (resolveJobParams worker dat.overrides).retryPolicy dat.retried)) ∧
    ((buildRetryJob expo data worker' metadata = none →
        isFinished (buildJobResult id job dat worker o) = true) ↔
      ¬ (err.retryable debug runnerOrigin = true ∧
        DisabledWithBudget (resolveJobParams worker dat.overrides).retryPolicy dat.retried)) := by
  generalize hpolicy : (resolveJobParams worker dat.overrides).retryPolicy = policy at hstatus ⊢
  have hverdict : o.status = .errorAndRetry ↔ err.retryable debug runnerOrigin = true ∧
      ∃ p, policy = some p ∧ dat.retried < p.maxRetry := by
    rw [hstatus]
    exact jobResultStatus_eq_errorAndRetry_iff hres
  obtain ⟨hdataStatus, hdataRetried, hdataPolicy⟩ : data.status = o.status.toI32 ∧
      data.retried = dat.retried ∧ data.resolvedRetryPolicy = policy := by
    rw [← hpolicy, ← Option.some.inj hdata]
    exact ⟨rfl, rfl, rfl⟩
  -- a retryable verdict has a policy, which is then the one the builder follows
  have hbuilt : (buildRetryJob expo data worker' metadata).isSome = true ↔
      o.status = .errorAndRetry ∧ ¬ DisabledWithBudget policy dat.retried := by
    rw [isSome_buildRetryJob_iff, hdataStatus, hdataRetried, ResultStatus.toI32_injective.eq_iff]
    refine and_congr_right fun hretry => ?_
    obtain ⟨-, p, rfl, hbudget⟩ := hverdict.mp hretry
    have hfollowed : retryPolicyOf data worker' = some p := by
      unfold retryPolicyOf
      rw [hdataPolicy]
      rfl
    rw [hfollowed]
    simp [DisabledWithBudget, hbudget]
  have hdisabled : err.retryable debug runnerOrigin = true ∧
      DisabledWithBudget policy dat.retried →
      o.status = .errorAndRetry ∧ DisabledWithBudget policy dat.retried := by
    rintro ⟨hretryable, p, hp, htype, hbudget⟩
    exact ⟨hverdict.mpr ⟨hretryable, p, hp, hbudget⟩, p, hp, htype, hbudget⟩
  have hfinished : isFinished (buildJobResult id job dat worker o) = true ↔
      o.status ≠ .errorAndRetry := by
    rw [← ResultStatus.toI32_injective.ne_iff]
    exact decide_eq_true_iff
  have hcond : (err.retryable debug runnerOrigin = true ∧
      DisabledWithBudget policy dat.retried) ↔
      (o.status = .errorAndRetry ∧ DisabledWithBudget policy dat.retried) :=
    ⟨hdisabled, fun h => ⟨(hverdict.mp h.1).1, h.2⟩⟩
  rw [hfinished, ← Option.not_isSome_iff_eq_none, hbuilt, hcond]
  exact iff_and_not_iff _ _

/-- A worker whose policy is of the given type, with three retries. -/
def policyWorker (type : RetryType) : WorkerData :=
  { (default : WorkerData) with retryPolicy := some ⟨type.toI32, 0, 0, 3, 0⟩ }

/-- A runner that failed with a runtime error. -/
def runtimeFailure : ExecutionError := ⟨.jobWorker .runtime "exit status 1", false⟩

/-- What a first attempt that failed so leaves, judged to be retried. -/
def retriedOutcome : RunOutcome :=
  { (default : RunOutcome) with status := .errorAndRetry }

/-- With a constant interval the verdict and the builder agree. -/
theorem constantPolicy_agrees :
    retriedOutcome.status = .errorAndRetry ↔
      ∃ data, (buildJobResult ⟨1⟩ default default (policyWorker .constant) retriedOutcome).data =
          some data ∧
        (buildRetryJob (fun _ _ _ => 0) data (policyWorker .constant) []).isSome = true := by
  obtain ⟨data, hdata⟩ : ∃ data, (buildJobResult ⟨1⟩ default default (policyWorker .constant)
      retriedOutcome).data = some data := ⟨_, rfl⟩
  have hagrees := (@retry_verdict_agrees_iff (fun _ _ _ => 0) id "COMMAND" ⟨1⟩ default
    default (policyWorker .constant) (policyWorker .constant) retriedOutcome []
    (.failed runtimeFailure) runtimeFailure data rfl rfl hdata).1.mpr (by
      rintro ⟨-, p, hp, htype, -⟩
      rw [← Option.some.inj hp] at htype
      exact absurd htype (by decide))
  rw [hagrees]
  constructor
  · intro h
    exact ⟨data, hdata, h⟩
  · rintro ⟨data', hdata', h⟩
    rw [hdata, Option.some.injEq] at hdata'
    rw [hdata']
    exact h

/-- With a policy of type `NONE` and three retries a runtime error is judged to
be retried, but no retry is built. -/
theorem disabledPolicy_disagrees :
    (jobResultStatus id "COMMAND" (policyWorker .none).retryPolicy default
        (.failed runtimeFailure)).1 = .errorAndRetry ∧
      ∃ data, (buildJobResult ⟨1⟩ default default (policyWorker .none) retriedOutcome).data =
          some data ∧
        buildRetryJob (fun _ _ _ => 0) data (policyWorker .none) [] = none ∧
        isFinished (buildJobResult ⟨1⟩ default default (policyWorker .none) retriedOutcome) =
          false :=
  ⟨rfl, _, rfl, rfl, rfl⟩

end Builder

end Jobworkerp
