/-
Jobworkerp/Workflow/Execute.lean

`TaskExecutor::execute` (`task.rs`): how a task of any kind is executed.

A task pushes its name on the position stack, recovers from a checkpoint when
the execution resumes from one, looks at its `if`, takes its input, and runs.
Single tasks end with the output settings and one event.  The streams of do,
for and try tasks are only forwarded.

`execute` is given fuel: a list can jump back for ever, and a try can retry for
ever.  Without enough fuel there is no result.
-/
import Jobworkerp.Workflow.Containers

namespace Jobworkerp.Workflow

open Text (Json)
open TaskM

/-! ### Before the task runs -/

/-- What a task is about to do: be passed over on the way to a checkpoint, be
skipped by its `if`, or run. -/
inductive Prepared
  | skip (c : TaskContext)
  | skipIf (c : TaskContext)
  | run (c : TaskContext)

/-- The `Debug` text of an execution id. -/
def executionIdText : Option String → String
  | some id => "Some(ExecutionId \x7b value: \"" ++ id ++ "\" \x7d)"
  | none => "None"

variable (env : Env)

/-- `load_checkpoint`, for a task at the checkpoint position. -/
def loadCheckpoint (name : String) (position : Position) : TaskM TaskContext := do
  let notFound := raiseHere env (standardError .runtime
    ("No checkpoint found for task: " ++ name ++ ", execution_id: " ++
      executionIdText env.executionId) none none)
  if env.checkpointing then
    match env.loadFails (← ask) position with
    | some complaint =>
      raiseHere env (standardError .runtime
        ("Failed to load checkpoint from execution_id: " ++ env.executionId.getD "" ++
          ", workflow: " ++ (← get).workflow.name ++ ", position: " ++ env.pointer position)
        none (some complaint))
    | none =>
      match (← get).checkpoints.find? (env.pointer ·.position = env.pointer position) with
      | none => notFound
      | some cp =>
        modify fun s =>
          { s with
            workflow := { s.workflow with
              position := cp.position
              input := cp.workflow.input
              contextVariables := cp.workflow.contextVariables
              checkpointPosition := none }
            taskVariables := cp.task.contextVariables }
        return .newFromCp cp.task
  else notFound

/-- The checkpoint this task is at, when the execution resumes: `none` when the
task is to be passed over. -/
def recover (name : String) (c : TaskContext) : TaskM (Option TaskContext) := do
  let s ← get
  match s.workflow.checkpointPosition with
  | none => return some c
  | some cp =>
    match cp.relativePath s.position with
    | none => return none
    | some below =>
      -- a task around the checkpoint runs with its own input
      if below = [] && env.executionId.isSome then
        return some (← loadCheckpoint env name cp)
      else return some c

/-- Everything before `execute_task`; the name is on the stack. -/
def prepare (name : String) (task : Settings) (c : TaskContext) : TaskM Prepared := do
  match ← recover env name c with
  | none => return .skip c
  | some c =>
    let vars := expression env (← get) c
    let enabled ← match task.if_ with
      | some if_ => within env "if" (env.transformAsBool c.rawInput if_ vars)
      | none => pure true
    if enabled then return .run (← updateContextByInput env task vars c)
    else return .skipIf c

/-! ### The task -/

/-- The stream of a task that ends with one event. -/
def Run.single (name : String) (x : TaskM TaskContext) (s : State) : Run :=
  match x.eval s with
  | (.ok c, s) => .ofContext name c s
  | (.error e, s) => .ofError e s

def executeTask (list : ListExecutor) (fuel : ℕ) (name : String) (task : Task)
    (c : TaskContext) (s : State) : Option Run :=
  let single (x : TaskM TaskContext) : Option Run :=
    some (.single name (x >>= updateContextByOutput env task.settings) s)
  match task with
  | .do_ _ tasks => list tasks c s
  | .for_ _ config tasks => executeFor env list name config tasks c s
  | .try_ _ tasks catch_ catchDo => executeTry env list fuel name tasks catch_ catchDo c s
  | .fork _ branches compete => single (executeFork env branches compete c)
  | .switch _ cases => single (executeSwitch env cases c)
  | .set _ values => single (executeSet env values c)
  | .raise _ error => single (executeRaise env error c)
  | .wait _ => single (executeWait c)
  | .call _ job => single (executeJob env "call" job c)
  | .run _ job => single (executeJob env "run" job c)

/-- The end of a task's stream: the name is popped behind a context, and a
stream without any event is an error. -/
def Run.finish (started : Event) (position : Position) (r : Run) : Run :=
  match r.error, r.events, r.lastContext with
  | some _, _, _ => r.after [started]
  | none, [], _ =>
    ⟨[started], some (standardError .runtime "No task context returned"
      (some (env.pointer position)) none), r.state⟩
  | none, _, some _ => { r.after [started] with state := r.state.pop }
  | none, _, none => r.after [started]

/-- `TaskExecutor::execute`, where `list` executes lists. -/
def executeWith (list : ListExecutor) (fuel : ℕ) : TaskExecutor :=
  fun name task parent s =>
    match (prepare env name task.settings (.new parent.output)).eval (s.push name) with
    | (.error e, s) => some (.ofError e s)
    -- a task that is passed over leaves its name on the stack
    | (.ok (.skip c), s) => some (.ofContext name c s)
    | (.ok (.skipIf c), s) => some (.ofContext name c s.pop)
    | (.ok (.run c), s) =>
      (executeTask env list fuel name task c s).map
        (.finish env (.started task.kind name s.position) s.position)

/-- `TaskExecutor::execute`. -/
def execute (env : Env) : ℕ → TaskExecutor
  | 0 => fun _ _ _ _ => none
  | fuel + 1 => executeWith env (executeDo env (execute env fuel) fuel) fuel

/-- The executor of lists that `execute` uses. -/
def executeList (fuel : ℕ) : ListExecutor := executeDo env (execute env fuel) fuel

/-- Not a task around other tasks. -/
def Task.isLeaf (task : Task) : Bool :=
  match task.kind with
  | .do_ | .for_ | .fork | .try_ => false
  | .switch | .set | .raise | .wait | .call | .run => true

/-! ### What an execution leaves -/

section Execution

variable {env : Env} {fuel : ℕ} {name : String} {task : Task} {parent c : TaskContext}
  {s s₁ : State} {r : Run}

/-- A task runs with context `c` from state `s₁` on: no checkpoint and no `if`
holds it back. -/
def Starts (env : Env) (name : String) (task : Task) (parent : TaskContext) (s : State)
    (c : TaskContext) (s₁ : State) : Prop :=
  (prepare env name task.settings (.new parent.output)).eval (s.push name) = (.ok (.run c), s₁)

/-- A stream that ends without an error has forwarded the events of the task. -/
theorem Run.finish_ok (h : (r.finish env started position).error = none) :
    r.error = none ∧ (r.finish env started position).events = started :: r.events := by
  rcases he : r.error with - | e
  · refine ⟨rfl, ?_⟩
    rcases hevents : r.events with - | ⟨event, rest⟩
    · simp [Run.finish, he, hevents] at h
    · rcases hlast : r.lastContext with - | c
      · simp [Run.finish, he, hevents, hlast]
      · simp [Run.finish, he, hevents, hlast]
  · simp [Run.finish, he] at h

section

variable (hstarts : Starts env name task parent s c s₁)

include hstarts

/-- A task that has started is executed as its kind says. -/
theorem execute_of_starts : execute env (fuel + 1) name task parent s =
      (executeTask env (executeList env fuel) fuel name task c s₁).map
        (.finish env (.started task.kind name s₁.position) s₁.position) := by
  show executeWith env (executeList env fuel) fuel name task parent s = _
  rw [executeWith, hstarts]

theorem execute_body (hrun : execute env (fuel + 1) name task parent s = some r) :
    ∃ body, executeTask env (executeList env fuel) fuel name task c s₁ = some body ∧
      r = body.finish env (.started task.kind name s₁.position) s₁.position := by
  rw [execute_of_starts hstarts] at hrun
  obtain ⟨body, hbody, rfl⟩ := Option.map_eq_some_iff.1 hrun
  exact ⟨body, hbody, rfl⟩

theorem execute_ok
    (hrun : execute env (fuel + 1) name task parent s = some r) (hok : r.error = none) :
    ∃ body, executeTask env (executeList env fuel) fuel name task c s₁ = some body ∧
      body.error = none ∧ r.events = .started task.kind name s₁.position :: body.events ∧
      r = body.finish env (.started task.kind name s₁.position) s₁.position := by
  obtain ⟨body, hbody, rfl⟩ := execute_body hstarts hrun
  obtain ⟨herror, hevents⟩ := Run.finish_ok hok
  exact ⟨body, hbody, herror, hevents, rfl⟩

end

/-- The stream of a task that ends with one event: its work and its output
settings have succeeded. -/
theorem execute_single_ok
    (hsingle : executeTask env (executeList env fuel) fuel name task c s₁ =
      some (.single name (work >>= updateContextByOutput env task.settings) s₁))
    (hstarts : Starts env name task parent s c s₁)
    (hrun : execute env (fuel + 1) name task parent s = some r) (hok : r.error = none) :
    ∃ c2 s2 c' s', work.eval s₁ = (.ok c2, s2) ∧ OutputSettings env task.settings c2 s2 c' s' ∧
      r.lastContext = some c' ∧ r.state = (s'.completed c').pop := by
  obtain ⟨body, hbody, herror, hevents, hr⟩ := execute_ok hstarts hrun hok
  obtain rfl : Run.single name (work >>= updateContextByOutput env task.settings) s₁ = body :=
    Option.some.inj (hsingle.symm.trans hbody)
  unfold Run.single at herror hevents hr
  rcases heval : (work >>= updateContextByOutput env task.settings).eval s₁ with ⟨e | c', s'⟩
  · simp [heval, Run.ofError] at herror
  · obtain ⟨c2, s2, hwork, hsettings⟩ := eval_bind_eq_ok.1 heval
    refine ⟨c2, s2, c', s', hwork, updateContextByOutput_ok hsettings, ?_, ?_⟩
    · rw [heval] at hevents
      rw [Run.lastContext, hevents]
      rfl
    · rw [hr, heval]
      rfl

/-- The work of a task without other tasks keeps the frame. -/
theorem executeTask_leaf (hleaf : task.isLeaf = true) :
    ∃ work, executeTask env (executeList env fuel) fuel name task c s =
        some (.single name (work >>= updateContextByOutput env task.settings) s) ∧
      work.Ensures s fun _ => SameFrame s := by
  cases task with
  | do_ | for_ | fork | try_ => cases hleaf
  | switch settings cases => exact ⟨_, rfl, fun _ _ h => (executeSwitch_ok h).1 ▸ .refl s⟩
  | set settings values => exact ⟨_, rfl, executeSet_frame⟩
  | raise settings error => exact ⟨_, rfl, fun _ _ h => absurd h executeRaise_ne_ok⟩
  | wait settings => exact ⟨_, rfl, ensures_pure.2 (.refl s)⟩
  | call settings job | run settings job => exact ⟨_, rfl, executeJob_frame⟩

end Execution

end Jobworkerp.Workflow
