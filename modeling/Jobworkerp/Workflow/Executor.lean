/-
Jobworkerp/Workflow/Executor.lean

`WorkflowExecutor::execute_workflow_with_events` (`workflow.rs`): what is done
around the root task.

The executor loads the checkpoint the workflow is run again from, looks at the
schema of the input, and gives the transformed input to the root task.  The root
task has the input settings of the workflow as well, so that they are applied
twice.  Behind the root task the output of the workflow is transformed, unless
the workflow waits or has failed.

`apply_schema_defaults` is left to the environment.
-/
import Jobworkerp.Workflow.Execute

namespace Jobworkerp.Workflow

open Text (Json)
open TaskM

/-- What the executor reads of a `WorkflowSchema`. -/
structure WorkflowSchema where
  inputSchema : Option Json
  inputFrom : Option Transform
  outputAs : Option Transform
  tasks : TaskList

namespace WorkflowSchema

def withTasks (w : WorkflowSchema) (tasks : TaskList) : WorkflowSchema := { w with tasks := tasks }

/-- The settings of the root task. -/
def rootSettings (w : WorkflowSchema) : Settings :=
  ⟨none, w.inputSchema, w.inputFrom, w.outputAs, none, none, false⟩

def createDoTask (w : WorkflowSchema) : Task := .do_ w.rootSettings w.tasks

end WorkflowSchema

structure WorkflowEnv extends Env where
  /-- `apply_schema_defaults`, of an input and its schema. -/
  applySchemaDefaults : Json → Json → Json

/-- `{"error": e.to_string()}`. -/
def errorOutput (text : String) : Json := .object [("error", .string text)]

/-- A workflow that has failed. -/
def State.faulted (s : State) (text : String) : State :=
  { s with workflow := { s.workflow with status := .faulted, output := some (errorOutput text) } }

namespace WorkflowExecutor

def rootPosition : Position := [.name "ROOT"]

/-- The workflow fails before the root task: the text is kept as its output. -/
def fail {α : Type} (text : String) (e : Error) : TaskM α := do
  modify (·.faulted text)
  throw e

/-- The context of the checkpoint the workflow is run again from. -/
def loadCheckpoint (env : Env) : TaskM (Option TaskContext) := do
  match (← get).workflow.checkpointPosition with
  | none => return none
  | some position =>
    if env.checkpointing then
      match env.loadFails (← ask) position with
      | some complaint =>
        fail complaint (standardError .runtime
          ("Failed to load checkpoint from execution_id: " ++ env.executionId.getD "" ++
            ", workflow: " ++ (← get).workflow.name ++ ", position: " ++ env.pointer position)
          (some (env.pointer rootPosition)) (some complaint))
      | none =>
        match (← get).checkpoints.find? (env.pointer ·.position = env.pointer position) with
        -- a checkpoint that is not found is only warned about
        | none => return none
        | some cp =>
          modify fun s =>
            { s with
              workflow := { s.workflow with
                position := cp.position
                input := cp.workflow.input
                contextVariables := cp.workflow.contextVariables }
              taskVariables := cp.task.contextVariables }
          return some (.newFromCp cp.task)
    else return none

/-- The input with the defaults of its schema. -/
def inputWithDefaults (env : WorkflowEnv) (w : WorkflowSchema) : TaskM Json := do
  let input := (← get).workflow.input
  match w.inputSchema with
  | none => return input
  | some schema =>
    match env.validate schema input with
    | some complaint =>
      let text := "Failed to validate workflow input schema: " ++ complaint
      fail text (standardError .validation ("Workflow input validation failed: " ++ text)
        (some (env.pointer rootPosition)) (some text))
    | none =>
      let merged := env.applySchemaDefaults input schema
      modify fun s => { s with workflow := { s.workflow with input := merged } }
      return merged

/-- The context of the root task: the checkpoint's, or a new one. -/
def freshContext (input : Json) : Option TaskContext → TaskM TaskContext
  | some c => return c
  | none => do
      modify fun s => { s with taskVariables := [] }
      return .new input

/-- Everything before the root task: the context the task is given. -/
def start (env : WorkflowEnv) (w : WorkflowSchema) : TaskM TaskContext := do
  modify fun s => { s.setStatus .running with position := [] }
  let loaded ← loadCheckpoint env.toEnv
  let input ← inputWithDefaults env w
  let c ← freshContext input loaded
  let vars := expression env.toEnv (← get) c
  match w.inputFrom with
  | none => return c.setInput input
  | some from_ =>
    match env.transformBy input from_ vars with
    | .ok transformed => return c.setInput transformed
    | .error e => fail e.display (e.at env.toEnv rootPosition)

/-- The output settings of the workflow. -/
def transformOutput (env : Env) (w : WorkflowSchema) (s : State) : State :=
  match w.outputAs, s.workflow.output with
  | some as_, some output =>
    let c : TaskContext := { TaskContext.new s.workflow.input with output := output }
    let vars := expression env { s with taskVariables := s.workflow.contextVariables } c
    match env.transformBy output as_ vars with
    | .ok transformed => { s with workflow := { s.workflow with output := some transformed } }
    | .error e => s.faulted e.display
  | _, _ => s

/-- Everything behind the root task. -/
def conclude (env : Env) (w : WorkflowSchema) (r : Run) : Run :=
  match r.error with
  | some e => { r with state := r.state.faulted e.display }
  | none =>
    if r.state.workflow.status = .running then
      let s := transformOutput env w r.state
      { r with state := if s.workflow.status = .running then s.setStatus .completed else s }
    else r

def executeWorkflowWithEvents (env : WorkflowEnv) (fuel : ℕ) (w : WorkflowSchema) (s : State) :
    Option Run :=
  match (start env w).eval s with
  | (.error e, s) => some (.ofError e s)
  | (.ok c, s) =>
    (execute env.toEnv fuel "ROOT" w.createDoTask c s).map (conclude env.toEnv w)

/-! ### Around the root task -/

variable {env : WorkflowEnv} {w : WorkflowSchema} {c : TaskContext} {s s' : State}

@[simp] theorem eval_fail {α : Type} (text : String) (e : Error) (s : State) :
    (fail text e : TaskM α).eval s = (.error e, s.faulted text) := rfl

@[simp] theorem conclude_events (env : Env) (w : WorkflowSchema) (r : Run) :
    (conclude env w r).events = r.events := by
  unfold conclude
  split
  · rfl
  · split
    · rfl
    · rfl

@[simp] theorem conclude_error (env : Env) (w : WorkflowSchema) (r : Run) :
    (conclude env w r).error = r.error := by
  unfold conclude
  split
  · rfl
  · split
    · rfl
    · rfl

/-- A workflow that waits is left as it is. -/
theorem conclude_waiting (env : Env) (w : WorkflowSchema) (hok : r.error = none)
    (hwaiting : r.state.workflow.status = .waiting) : conclude env w r = r := by
  simp [conclude, hok, hwaiting]

/-- What is kept until the root task. -/
structure SameExecution (s s' : State) : Prop where
  name : s'.workflow.name = s.workflow.name
  checkpointPosition : s'.workflow.checkpointPosition = s.workflow.checkpointPosition
  checkpoints : s'.checkpoints = s.checkpoints
  position : s'.position = s.position
  status : s'.workflow.status = s.workflow.status

theorem SameExecution.refl (s : State) : SameExecution s s := ⟨rfl, rfl, rfl, rfl, rfl⟩

theorem SameExecution.trans {s s' s'' : State} (h : SameExecution s s') (h' : SameExecution s' s'') :
    SameExecution s s'' :=
  ⟨h'.name.trans h.name, h'.checkpointPosition.trans h.checkpointPosition,
    h'.checkpoints.trans h.checkpoints, h'.position.trans h.position, h'.status.trans h.status⟩

theorem loadCheckpoint_ok : (loadCheckpoint env.toEnv).Ensures s fun _ => SameExecution s := by
  simp only [loadCheckpoint, ensures_bind, ensures_get]
  split
  · exact ensures_pure.2 (.refl s)
  · split
    · simp only [ensures_bind, ensures_ask]
      split
      · simp [fail]
      · simp only [ensures_bind, ensures_get]
        split
        · exact ensures_pure.2 ⟨rfl, rfl, rfl, rfl, rfl⟩
        · simp only [ensures_bind, ensures_modify, ensures_pure]
          exact ⟨rfl, rfl, rfl, rfl, rfl⟩
    · exact ensures_pure.2 (.refl s)

theorem freshContext_ok : (freshContext input loaded).Ensures s fun _ => SameExecution s := by
  cases loaded with
  | some c' => exact ensures_pure.2 (.refl s)
  | none =>
    simp only [freshContext, ensures_bind, ensures_modify, ensures_pure]
    exact ⟨rfl, rfl, rfl, rfl, rfl⟩

theorem inputWithDefaults_ok : (inputWithDefaults env w).Ensures s fun _ => SameExecution s := by
  simp only [inputWithDefaults, ensures_bind, ensures_get]
  split
  · exact ensures_pure.2 (.refl s)
  · split
    · simp [fail]
    · simp only [ensures_bind, ensures_modify, ensures_pure]
      exact ⟨rfl, rfl, rfl, rfl, rfl⟩

/-- The root task is started in a running workflow, with the stack empty. -/
theorem start_ok : (start env w).Ensures s fun _ =>
    SameExecution { s.setStatus .running with position := [] } := by
  simp only [start, ensures_bind, ensures_modify, ensures_get]
  intro loaded s₁ hload input s₂ hdefaults c s₃ hfresh
  have hkept := ((loadCheckpoint_ok hload).trans (inputWithDefaults_ok hdefaults)).trans
    (freshContext_ok hfresh)
  split
  · exact ensures_pure.2 hkept
  · split
    · exact ensures_pure.2 hkept
    · simp [fail]

end WorkflowExecutor

end Jobworkerp.Workflow
