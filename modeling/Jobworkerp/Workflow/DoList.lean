/-
Jobworkerp/Workflow/DoList.lean

`DoTaskStreamExecutor` (`stream/do.rs`): the loop that runs the tasks of a list
and follows their directives.

The loop walks an iterator over the tasks.  It takes one item from the iterator
for every task it has run, whatever the directive of the task is, and a jump
looks the name up in the list without moving the iterator.

How a task is executed is a parameter here: a list knows its tasks only through
the streams they produce.
-/
import Jobworkerp.Workflow.SingleTasks

namespace Jobworkerp.Workflow

open Text (Json)

/-! ### The tasks of a list -/

/-- A task of a list, with its name and its index. -/
abbrev Entry := String × ℕ × Task

abbrev TaskMap := IndexMap (ℕ × Task)

/-- The map of the tasks: a name that is used again replaces the earlier task. -/
def taskMap (tasks : TaskList) : TaskMap :=
  tasks.zipIdx.foldl (fun m t => IndexMap.insert m t.1.1 (t.2, t.1.2)) []

/-- How a task of a list is executed, after the context of the task before it. -/
abbrev TaskExecutor := String → Task → TaskContext → State → Option Run

/-- `find_checkpoint_task`: the index of the task on the way to the checkpoint;
the stack holds the position of the list. -/
def findCheckpointTask (map : TaskMap) (s : State) : Option ℕ :=
  match s.workflow.checkpointPosition.bind (·.relativePath s.position) with
  | some (.index index :: .name name :: _) =>
    (map.find? fun entry => entry.1 = name && entry.2.1 = index).map (·.2.1)
  | _ => none

/-! ### Directives -/

/-- The wait directive: where the execution is to resume, saved and kept in the
workflow context.  `next` is the task the iterator has given. -/
def suspend (env : Env) (name : String) (pos : ℕ) (next : Option Entry) (result : TaskContext)
    (s : State) : State :=
  let current := (s.position.pushIdx pos).push name
  let alreadyHandled := s.workflow.status = .waiting &&
    s.workflow.resumePosition.any fun p => (p.relativePath current).any (· ≠ [])
  if alreadyHandled then s
  else if next.isNone && s.position.length ≤ 2 then
    -- a wait at the end of the root list is ineffective
    s.setStatus .completed
  else
    let resume := match next with
      | some (nextName, nextPos, _) => (s.position.pushIdx nextPos).push nextName
      | none => s.position.pop
    let cp := CheckPointContext.newWithPosition s result resume
    -- a checkpoint that cannot be saved is only logged
    let saved :=
      if env.checkpointing then
        let asked := { s with asked := s.asked + 1 }
        if env.saveFails s.asked cp then asked else asked.save cp
      else s
    { saved with workflow := { saved.workflow with
        resumePosition := some resume, status := .waiting } }

/-- Determine the next task. -/
def follow (env : Env) (map : TaskMap) (name : String) (pos : ℕ) (next : Option Entry)
    (result : TaskContext) (s : State) : Option Entry × State :=
  match result.flowDirective with
  | .continue_ => (next, s)
  | .end_ => (none, s.setStatus .completed)
  | .exit => (none, s)
  | .wait => (none, suspend env name pos next result s)
  | .taskName t => (map.find? (·.1 = t), s)

/-! ### The loop -/

/-- The loop before a round: the task it is about to run, what the iterator has
left, and the context of the last task. -/
structure DoState where
  current : Option Entry
  rest : TaskMap
  prev : TaskContext
  state : State

/-- A round ends the stream, or it goes on. -/
inductive Round
  | stop (run : Run)
  | go (events : List Event) (next : DoState)

/-- One round of the loop; tasks before `from_` are passed over.  There is no
result when the task does not come to an end. -/
def doStep (env : Env) (exec : TaskExecutor) (map : TaskMap) (from_ : Option ℕ) (d : DoState) :
    Option Round :=
  match d.current with
  | none => some (.stop ⟨[], none, d.state.pop⟩)
  | some (name, pos, task) =>
    if from_.any (pos < ·) then
      some (.go [] { d with current := d.rest.head?, rest := d.rest.tail })
    else if d.state.workflow.status ≠ .running then
      some (.stop ⟨[], none, d.state.pop⟩)
    else
      (exec name task d.prev (d.state.pushIdx pos)).map fun r =>
        match r.error, r.lastContext with
        | some e, _ => .stop { r with error := some (e.at env r.state.position) }
        | none, none => .stop { r with state := r.state.pop.pop }
        | none, some result =>
          let (current, s) := follow env map name pos d.rest.head? result r.state.pop
          .go r.events ⟨current, d.rest.tail, result, s⟩

def doLoop (env : Env) (exec : TaskExecutor) (map : TaskMap) (from_ : Option ℕ) :
    ℕ → DoState → Option Run
  | 0, _ => none
  | fuel + 1, d =>
    match doStep env exec map from_ d with
    | none => none
    | some (.stop run) => some run
    | some (.go events next) => (doLoop env exec map from_ fuel next).map (Run.after events)

/-- The loop at its start: the iterator has given the first task. -/
def DoState.start (map : TaskMap) (c : TaskContext) (s : State) : DoState :=
  ⟨map.head?, map.tail, c, s⟩

/-- The task from which the loop starts when the execution resumes. -/
def resumeFrom (env : Env) (map : TaskMap) (s : State) : Option ℕ :=
  if env.checkpointRepository then findCheckpointTask map s else none

/-- `DoTaskStreamExecutor::execute_stream`. -/
def executeDo (env : Env) (exec : TaskExecutor) (fuel : ℕ) (tasks : TaskList) (c : TaskContext)
    (s : State) : Option Run :=
  let map := taskMap tasks
  let s := s.push "do"
  doLoop env exec map (resumeFrom env map s) fuel (.start map c s)

/-! ### What a round does -/

variable {env : Env} {exec : TaskExecutor} {map : TaskMap} {from_ : Option ℕ} {d d' : DoState}

end Jobworkerp.Workflow
