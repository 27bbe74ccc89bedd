/-
Jobworkerp/Workflow/Context.lean

The state of a running workflow (`app-wrapper/src/workflow/execute/context.rs`,
`checkpoint.rs`, `expression.rs`).

Task contexts of one execution share their position stack and their variables.
A task context here holds the values of one task; the shared stack and the
shared variables are parts of the state, next to the workflow context and the
saved checkpoints.

Evaluating expressions, validating schemas and running jobs is the business of
an `Engine`.  How the branches of a fork and the items of a parallel loop
interleave is left to it as well.  Answers of the engine can differ from one
time to the next.
-/
import Jobworkerp.Workflow.Definition

namespace Jobworkerp.Workflow

open Text (Json)

/-! ### Variables -/

/-- `IndexMap<String, _>`: keys in the order of their first insertion. -/
abbrev IndexMap (α : Type) := List (String × α)

namespace IndexMap

variable {α : Type}

def get (m : IndexMap α) (key : String) : Option α := List.lookup key m

/-- Replace the value of a key, or add the key at the end. -/
def insert : IndexMap α → String → α → IndexMap α
  | [], key, value => [(key, value)]
  | (k, v) :: rest, key, value =>
    if k = key then (k, value) :: rest else (k, v) :: insert rest key value

/-- `shift_remove`. -/
def remove (m : IndexMap α) (key : String) : IndexMap α := m.filter (·.1 ≠ key)

end IndexMap

abbrev ContextVariables := IndexMap Json

/-! ### Positions -/

inductive Segment
  | name (name : String)
  | index (index : ℕ)
  deriving DecidableEq, Repr

/-- `WorkflowPosition`: the path from the root, the innermost segment last. -/
abbrev Position := List Segment

namespace Position

def push (p : Position) (name : String) : Position := p ++ [.name name]

def pushIdx (p : Position) (index : ℕ) : Position := p ++ [.index index]

def pop (p : Position) : Position := p.dropLast

/-- `relative_path`: what is left of `p` behind `base`. -/
def relativePath (p base : Position) : Option Position :=
  if base.isPrefixOf p then some (p.drop base.length) else none

end Position

/-! ### Contexts -/

inductive Then
  | continue_ | exit | end_ | wait
  | taskName (name : String)
  deriving DecidableEq, Repr, Inhabited

def Then.fromStr (s : String) : Then :=
  if s = "continue" then .continue_
  else if s = "exit" then .exit
  else if s = "end" then .end_
  else if s = "wait" then .wait
  else .taskName s

/-- The text of a directive. -/
def Then.toText : Then → String
  | continue_ => "continue"
  | exit => "exit"
  | end_ => "end"
  | wait => "wait"
  | taskName name => name

inductive WorkflowStatus
  | pending | running | waiting | completed | faulted | cancelled
  deriving DecidableEq, Repr, Inhabited

/-- The values of a task. -/
structure TaskContext where
  rawInput : Json
  input : Json
  rawOutput : Json
  output : Json
  flowDirective : Then
  deriving Inhabited

namespace TaskContext

/-- `TaskContext::new`. -/
def new (input : Json) : TaskContext := ⟨input, input, input, input, .continue_⟩

def setInput (c : TaskContext) (input : Json) : TaskContext :=
  { c with input := input, rawOutput := input, output := input }

def setRawOutput (c : TaskContext) (rawOutput : Json) : TaskContext :=
  { c with rawOutput := rawOutput, output := rawOutput }

end TaskContext

structure WorkflowCheckPointContext where
  name : String
  input : Json
  contextVariables : ContextVariables
  deriving Inhabited

structure TaskCheckPointContext where
  input : Json
  output : Json
  contextVariables : ContextVariables
  flowDirective : String
  deriving Inhabited

structure CheckPointContext where
  workflow : WorkflowCheckPointContext
  task : TaskCheckPointContext
  position : Position
  deriving Inhabited

/-- `TaskContext::new_from_cp`, without the variables. -/
def TaskContext.newFromCp (cp : TaskCheckPointContext) : TaskContext :=
  ⟨cp.input, cp.input, cp.output, cp.output, .fromStr cp.flowDirective⟩

/-- The fields of `WorkflowContext` that the execution reads or writes. -/
structure WorkflowContext where
  name : String
  input : Json
  status : WorkflowStatus
  output : Option Json
  position : Position
  checkpointPosition : Option Position
  resumePosition : Option Position
  contextVariables : ContextVariables
  deriving Inhabited

/-- What an execution reads and writes: the workflow context, the variables
and the position stack the task contexts share, the saved checkpoints (newest
first), and how often the engine has been asked. -/
structure State where
  workflow : WorkflowContext
  taskVariables : ContextVariables
  position : Position
  checkpoints : List CheckPointContext
  asked : ℕ
  deriving Inhabited

namespace State

def push (s : State) (name : String) : State := { s with position := s.position.push name }

def pushIdx (s : State) (index : ℕ) : State := { s with position := s.position.pushIdx index }

def pop (s : State) : State := { s with position := s.position.pop }

def setStatus (s : State) (status : WorkflowStatus) : State :=
  { s with workflow := { s.workflow with status := status } }

/-- `WorkflowContext::add_context_value`. -/
def addWorkflowValue (s : State) (key : String) (value : Json) : State :=
  { s with workflow := { s.workflow with
      contextVariables := IndexMap.insert s.workflow.contextVariables key value } }

/-- `TaskContext::add_context_value`. -/
def addTaskValue (s : State) (key : String) (value : Json) : State :=
  { s with taskVariables := IndexMap.insert s.taskVariables key value }

/-- `TaskContext::remove_context_value`. -/
def removeTaskValue (s : State) (key : String) : State :=
  { s with taskVariables := IndexMap.remove s.taskVariables key }

/-- The workflow executor keeps the output and the position of every completed
task. -/
def completed (s : State) (c : TaskContext) : State :=
  { s with workflow := { s.workflow with output := some c.output, position := s.position } }

end State

/-! ### Events -/

/-- `WorkflowStreamEvent`, as far as an executor looks at it. -/
inductive Event
  | started (kind : TaskKind) (name : String) (position : Position)
  | completed (name : String) (context : TaskContext)
  | itemFailed (name : String) (index : ℕ) (error : Error)

/-- `WorkflowStreamEvent::context`. -/
def Event.context : Event → Option TaskContext
  | completed _ c => some c
  | _ => none

/-! ### The engine -/

/-- `ExpressionContext`: the variables of an expression. -/
abbrev ExpressionContext := IndexMap Json

/-- What the execution asks of its surroundings; `asked` is how often it has
asked before. -/
structure Engine where
  /-- `execute_transform`: the value of a jq filter or a Liquid template. -/
  transform : Json → String → ExpressionContext → Except Error Json
  /-- `transform_ref_map`: an object of such values. -/
  transformMap : Json → List (String × Json) → ExpressionContext → Except Error Json
  evalAsBool : Json → Bool
  /-- `jsonschema::validate`: the complaint about a value. -/
  validate : Json → Json → Option String
  /-- `$context`, `$runtime`, `$workflow` and `$task`. -/
  descriptors : WorkflowContext → TaskContext → ExpressionContext
  /-- `as_json_pointer`. -/
  pointer : Position → String
  /-- `ErrorFilter::type_matches`. -/
  typeMatches : String → String → Bool
  /-- An error as a JSON value, and back. -/
  errorToJson : Error → Json
  errorOfJson : Json → Except String Error
  /-- `execute_error_transform`: a transform that leaves Liquid texts alone. -/
  errorTransform : Json → String → ExpressionContext → Except Error Json
  /-- The text of a JSON value. -/
  display : Json → String
  /-- The result of a job, or an error below the given segments. -/
  job : (asked : ℕ) → Json → ExpressionContext → Except (List String × Error) Json
  /-- The ends of a fork's branches, and the state they leave: in the order of
  the branches, or of their ends when they compete. -/
  branches : (asked : ℕ) → TaskList → (compete : Bool) → TaskContext → State →
    List (Except Error TaskContext) × State
  /-- The items of a parallel loop: the events, an error that stops it, and the
  state they leave. -/
  parallelItems : (asked : ℕ) → TaskList → ForOnError → List (ℕ × Json) → TaskContext → State →
    List Event × Option Error × State
  /-- Has the time limit of a retry passed? -/
  retryExpired : (asked : ℕ) → ℕ → Bool
  /-- Does saving this checkpoint fail? -/
  saveFails : (asked : ℕ) → CheckPointContext → Bool
  /-- Does loading the checkpoint of this position fail? -/
  loadFails : (asked : ℕ) → Position → Option String

/-- An engine, and how the workflow is executed. -/
structure Env extends Engine where
  checkpointRepository : Bool
  executionId : Option String

/-- Plain values: every expression stands for its own text, and nothing fails. -/
def literalEnv : Env where
  transform _ filter _ := .ok (.string filter)
  transformMap _ fields _ := .ok (.object fields)
  evalAsBool
    | .bool b => b
    | _ => true
  validate _ _ := none
  descriptors _ _ := []
  pointer _ := ""
  typeMatches filter type := filter = type
  errorToJson e := .string e.display
  errorOfJson _ := .error "not an error"
  errorTransform _ text _ := .ok (.string text)
  display _ := ""
  job _ _ _ := .ok .null
  branches _ _ _ _ s := ([], s)
  parallelItems _ _ _ _ _ s := ([], none, s)
  retryExpired _ _ := false
  saveFails _ _ := false
  loadFails _ _ := none
  checkpointRepository := true
  executionId := some "1"

/-- `UseExpression::expression`: workflow variables win over task variables,
and both over the built-in names. -/
def expression (env : Env) (s : State) (c : TaskContext) : ExpressionContext :=
  let builtin := ([("input", c.input), ("output", c.output)] : ExpressionContext) ++
    env.descriptors s.workflow c
  let withTask := s.taskVariables.foldl (fun m kv => IndexMap.insert m kv.1 kv.2) builtin
  s.workflow.contextVariables.foldl (fun m kv => IndexMap.insert m kv.1 kv.2) withTask

namespace Env

/-- `transform_input`, `transform_output` and `transform_export`. -/
def transformBy (env : Env) (input : Json) (t : Transform) (vars : ExpressionContext) :
    Except Error Json :=
  match t with
  | .variant0 filter => env.transform input filter vars
  | .variant1 fields => env.transformMap input fields vars

/-- `execute_transform_as_bool`. -/
def transformAsBool (env : Env) (input : Json) (filter : String) (vars : ExpressionContext) :
    Except Error Bool :=
  (env.transform input filter vars).map env.evalAsBool

end Env

/-- `Then::create`; an expression that is not a string stands for itself. -/
def Then.create (env : Env) (output : Json) (directive : FlowDirective)
    (vars : ExpressionContext) : Except Error Then :=
  match directive with
  | .variant0 .continue_ => .ok .continue_
  | .variant0 .exit => .ok .exit
  | .variant0 .end_ => .ok .end_
  | .variant0 .wait => .ok .wait
  | .variant1 filter =>
    match env.transform output filter vars with
    | .ok (.string s) => .ok (.taskName s)
    | .ok _ => .ok (.taskName filter)
    | .error e => .error e

/-- A workflow that has just been started. -/
def startedState : State where
  workflow := ⟨"workflow", .null, .running, none, [], none, none, []⟩
  taskVariables := []
  position := [.name "ROOT"]
  checkpoints := []
  asked := 0

/-! ### Runs -/

/-- The stream of an executor, read to its end: the events, the error it ends
with, and the state it leaves. -/
structure Run where
  events : List Event
  error : Option Error
  state : State

/-- The context of the last completed event. -/
def lastContextOf (events : List Event) : Option TaskContext :=
  events.reverse.findSome? Event.context

@[simp] theorem lastContextOf_nil : lastContextOf [] = none := rfl

theorem lastContextOf_append (events events' : List Event) :
    lastContextOf (events ++ events') = (lastContextOf events').or (lastContextOf events) := by
  simp [lastContextOf, List.findSome?_append]

@[simp] theorem lastContextOf_concat_completed (events : List Event) (name : String)
    (c : TaskContext) : lastContextOf (events ++ [.completed name c]) = some c := by
  rw [lastContextOf_append]
  rfl

@[simp] theorem lastContextOf_started (kind : TaskKind) (name : String) (position : Position)
    (events : List Event) :
    lastContextOf (.started kind name position :: events) = lastContextOf events := by
  rw [← List.singleton_append, lastContextOf_append]
  exact Option.or_none

namespace Run

/-- The context with which an enclosing list goes on. -/
def lastContext (r : Run) : Option TaskContext := lastContextOf r.events

/-- The directive an enclosing list follows. -/
def directive (r : Run) : Option Then := r.lastContext.map (·.flowDirective)

/-- A stream of one completed event. -/
def ofContext (name : String) (c : TaskContext) (s : State) : Run :=
  ⟨[.completed name c], none, s.completed c⟩

/-- A stream of one error. -/
def ofError (e : Error) (s : State) : Run := ⟨[], some e, s⟩

/-- The events of `r` behind those of an earlier part of the stream. -/
def after (events : List Event) (r : Run) : Run := { r with events := events ++ r.events }

@[simp] theorem after_events (events : List Event) (r : Run) :
    (r.after events).events = events ++ r.events := rfl

@[simp] theorem after_error (events : List Event) (r : Run) : (r.after events).error = r.error :=
  rfl

@[simp] theorem after_state (events : List Event) (r : Run) : (r.after events).state = r.state :=
  rfl

end Run

/-- `Error::position`. -/
def Error.at (env : Env) (e : Error) (p : Position) : Error := { e with inst := some (env.pointer p) }

end Jobworkerp.Workflow
