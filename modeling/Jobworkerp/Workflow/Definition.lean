/-
Jobworkerp/Workflow/Definition.lean

Workflow definitions (`infra/src/workflow/definition/workflow.rs`): the tasks
and the settings they have in common.

An item of a task list holds one task with its name.  The job a `run` or a
`call` task starts is described by a JSON value that nothing here reads.  Left
out: timeouts, metadata and the delays of a retry.
-/
import Jobworkerp.Text.Json
import Mathlib.Data.Int.Notation

namespace Jobworkerp.Workflow

open Text (Json)

/-! ### Directives and expressions -/

inductive FlowDirectiveEnum
  | continue_ | exit | end_ | wait
  deriving DecidableEq, Repr, Inhabited

/-- `FlowDirective`: a directive, or an expression for the name of a task. -/
inductive FlowDirective
  | variant0 (directive : FlowDirectiveEnum)
  | variant1 (expression : String)
  deriving DecidableEq, Repr, Inhabited

/-- `InputFrom`, `OutputAs` and `ExportAs`: an expression, or an object of
expressions. -/
inductive Transform
  | variant0 (expression : String)
  | variant1 (fields : List (String × Json))
  deriving Inhabited

/-! ### Errors -/

/-- `workflow::Error`; `inst` is where it happened. -/
structure Error where
  type : String
  status : ℤ
  title : Option String
  detail : Option String
  inst : Option String
  deriving DecidableEq, Repr, Inhabited

/-- `StandardErrorType`, as far as it is used here. -/
inductive StandardErrorType
  | configuration | validation | expression | runtime
  deriving DecidableEq, Repr

def StandardErrorType.uri : StandardErrorType → String
  | configuration => "https://open-workflow-specification.org/spec/1.0.0/errors/configuration"
  | validation => "https://open-workflow-specification.org/spec/1.0.0/errors/validation"
  | expression => "https://open-workflow-specification.org/spec/1.0.0/errors/expression"
  | runtime => "https://open-workflow-specification.org/spec/1.0.0/errors/runtime"

def StandardErrorType.defaultStatus : StandardErrorType → ℤ
  | configuration | validation | expression => 400
  | runtime => 500

/-- `ErrorFactory::standard`. -/
def standardError (kind : StandardErrorType) (message : String) (position detail : Option String) :
    Error :=
  ⟨kind.uri, kind.defaultStatus, some message, detail, position⟩

/-- The `Display` of an error. -/
def Error.display (e : Error) : String :=
  "Error: " ++ e.title.getD "Unknown error" ++ " " ++ e.detail.getD "No details" ++ " " ++
    e.inst.getD "No instance"

structure ErrorFilter where
  type : Option String
  status : Option ℤ
  title : Option String
  details : Option String
  inst : Option String
  deriving DecidableEq, Repr, Inhabited

/-! ### Tasks -/

/-- The settings every kind of task has. -/
structure Settings where
  if_ : Option String
  inputSchema : Option Json
  inputFrom : Option Transform
  outputAs : Option Transform
  exportAs : Option Transform
  then_ : Option FlowDirective
  checkpoint : Bool
  deriving Inhabited

structure SwitchCase where
  name : String
  when : Option String
  then_ : FlowDirective
  deriving DecidableEq, Repr, Inhabited

/-- `RetryLimitAttempt`; the duration in milliseconds. -/
structure RetryLimitAttempt where
  count : Option ℤ
  duration : Option ℕ
  deriving DecidableEq, Repr, Inhabited

/-- `TryTaskCatchRetry`: a policy with its limit, or the name of one. -/
inductive TryTaskCatchRetry
  | variant0 (limit : Option RetryLimitAttempt)
  | variant1 (label : String)
  deriving DecidableEq, Repr, Inhabited

/-- `TryTaskCatch` without its tasks. -/
structure TryTaskCatch where
  as_ : Option String
  errors : Option ErrorFilter
  when : Option String
  exceptWhen : Option String
  retry : Option TryTaskCatchRetry
  deriving DecidableEq, Repr, Inhabited

inductive ForOnError
  | continue_ | break_
  deriving DecidableEq, Repr, Inhabited

/-- `ForTask` without its tasks. -/
structure ForTaskConfiguration where
  each : String
  at_ : String
  in_ : String
  while_ : Option String
  inParallel : Bool
  onError : ForOnError
  deriving DecidableEq, Repr, Inhabited

/-- `RaiseTaskError`: an error, or an expression for one. -/
inductive RaiseTaskError
  | error (error : Error)
  | reference (expression : String)
  deriving DecidableEq, Repr, Inhabited

/-- `Task`; a list of named tasks is a `TaskList`. -/
inductive Task
  | do_ (settings : Settings) (tasks : List (String × Task))
  | for_ (settings : Settings) (config : ForTaskConfiguration) (tasks : List (String × Task))
  | fork (settings : Settings) (branches : List (String × Task)) (compete : Bool)
  | try_ (settings : Settings) (tasks : List (String × Task)) (catch_ : TryTaskCatch)
      (catchDo : Option (List (String × Task)))
  | switch (settings : Settings) (cases : List SwitchCase)
  | set (settings : Settings) (values : List (String × Json))
  | raise (settings : Settings) (error : RaiseTaskError)
  | wait (settings : Settings)
  | call (settings : Settings) (job : Json)
  | run (settings : Settings) (job : Json)

abbrev TaskList := List (String × Task)

inductive TaskKind
  | do_ | for_ | fork | try_ | switch | set | raise | wait | call | run
  deriving DecidableEq, Repr

def Task.kind : Task → TaskKind
  | do_ .. => .do_
  | for_ .. => .for_
  | fork .. => .fork
  | try_ .. => .try_
  | switch .. => .switch
  | set .. => .set
  | raise .. => .raise
  | wait .. => .wait
  | call .. => .call
  | run .. => .run

/-- The accessors of `TaskTrait` read the settings of the task. -/
def Task.settings : Task → Settings
  | do_ s _ | for_ s _ _ | fork s _ _ | try_ s _ _ _ | switch s _ | set s _ | raise s _ | wait s
  | call s _ | run s _ => s

end Jobworkerp.Workflow
