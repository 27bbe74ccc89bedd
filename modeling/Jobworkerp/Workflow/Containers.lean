/-
Jobworkerp/Workflow/Containers.lean

Loops and catches (`stream/for.rs`, `stream/try_.rs`).  Both run lists of tasks;
`list` below stands for the executor of a list.

The items of a sequential loop share the variables but not the position stack.
Items of a parallel loop share neither; how they interleave is left to the
engine.  An error inside a try leaves the position stack as it was when the
error happened, and the catch goes on from there.

Whether a wait directive was used inside a loop is looked at when the item has
ended.
-/
import Jobworkerp.Workflow.DoList

namespace Jobworkerp.Workflow

open Text (Json)
open TaskM

/-- How a list is executed. -/
abbrev ListExecutor := TaskList → TaskContext → State → Option Run

/-! ### For -/

namespace ForTaskConfiguration

def itemName (config : ForTaskConfiguration) : String :=
  if config.each = "" then "item" else config.each

def indexName (config : ForTaskConfiguration) : String :=
  if config.at_ = "" then "index" else config.at_

/-- The variables of an item. -/
def bindItem (config : ForTaskConfiguration) (item : Json) (i : ℕ) (s : State) : State :=
  (s.addTaskValue config.itemName item).addTaskValue config.indexName (.number (some i))

/-- The `while` of an item whose variables are bound. -/
def whileCondition (env : Env) (config : ForTaskConfiguration) (c : TaskContext) (s : State) :
    Except Error Bool :=
  match config.while_ with
  | none => .ok true
  | some while_ =>
    match env.transform c.input while_ (expression env s c) with
    | .ok v => .ok (env.evalAsBool v)
    | .error e => .error (e.at env (s.position.push "while"))

end ForTaskConfiguration

/-- What the items of a loop leave: their events, an error that stops the
stream, and whether there was an item at all. -/
structure ItemsEnd where
  events : List Event
  error : Option Error
  hasItems : Bool
  state : State

def ItemsEnd.after (events : List Event) (e : ItemsEnd) : ItemsEnd :=
  { e with events := events ++ e.events }

/-- `fault_unsupported_wait`. -/
def unsupportedWait (position : Option String) : Error :=
  standardError .configuration ("Wait directive inside ForTask is not currently supported. " ++
    "Move the 'then: wait' to a task outside of the for loop.") position none

/-- The items of a sequential loop, from item `i` on. -/
def sequentialItems (env : Env) (list : TaskContext → State → Option Run)
    (config : ForTaskConfiguration) (name : String) (c : TaskContext) :
    List Json → ℕ → Bool → State → Option ItemsEnd
  | [], _, hasItems, s => some ⟨[], none, hasItems, s⟩
  | item :: rest, i, hasItems, s =>
    if s.workflow.status = .cancelled then some ⟨[], none, hasItems, s⟩
    else
      let bound := config.bindItem item i s
      match config.whileCondition env c bound with
      | .error e => some ⟨[], some e, hasItems, bound⟩
      | .ok false => some ⟨[], none, hasItems, bound⟩
      | .ok true =>
        (list c bound).bind fun r =>
          -- the position stack of the item is its own
          let s := { r.state with position := bound.position }
          match s.workflow.status, r.error, config.onError with
          | .cancelled, _, _ => some ⟨r.events, none, true, s⟩
          | _, some e, .break_ => some ⟨r.events, some e, true, s⟩
          | status, failed, _ =>
            let events := r.events ++ (failed.map (.itemFailed name i)).toList
            if status = .waiting then
              some ⟨events, some (unsupportedWait (some (env.pointer r.state.position))),
                true, s.setStatus .running⟩
            else
              (sequentialItems env list config name c rest (i + 1) true s).map
                (ItemsEnd.after events)

/-- The items of a parallel loop up to the first whose `while` is false. -/
def prepareItems (env : Env) (config : ForTaskConfiguration) (c : TaskContext) (s : State) :
    List Json → ℕ → Except Error (List (ℕ × Json))
  | [], _ => .ok []
  | item :: rest, i =>
    match config.whileCondition env c (config.bindItem item i s) with
    | .error e => .error e
    | .ok false => .ok []
    | .ok true => (prepareItems env config c s rest (i + 1)).map ((i, item) :: ·)

variable (env : Env)

/-- `process_items_in_parallel_stream`, without its last event. -/
def parallelItems (config : ForTaskConfiguration) (tasks : TaskList) (c : TaskContext)
    (items : List Json) (s : State) : ItemsEnd :=
  match prepareItems env config c s items 0 with
  | .error e => ⟨[], some e, true, s⟩
  | .ok [] => ⟨[], none, false, s⟩
  | .ok prepared =>
    let (events, error, after) := env.parallelItems s.asked tasks config.onError prepared c
      { s with asked := s.asked + 1 }
    ⟨events, error, true,
      { after with position := s.position, taskVariables := s.taskVariables }⟩

/-- The last event of a loop: the context it started with, with no output when
there was no item. -/
def finishFor (config : ForTaskConfiguration) (name : String) (c : TaskContext) (e : ItemsEnd) :
    Run :=
  match e.error with
  | some _ => ⟨e.events, e.error, e.state⟩
  | none =>
    let c := if e.hasItems then c else c.setRawOutput (.array [])
    let s := ((e.state.removeTaskValue config.itemName).removeTaskValue config.indexName).pop
    if s.workflow.status = .cancelled then ⟨e.events, none, s⟩
    else (Run.ofContext name c s).after e.events

/-- `ForTaskStreamExecutor::execute_stream`. -/
def executeFor (list : ListExecutor) (name : String) (config : ForTaskConfiguration)
    (tasks : TaskList) (c : TaskContext) (s : State) : Option Run :=
  let s := s.push "for"
  match env.transform c.input config.in_ (expression env s c) with
  | .error e => some (.ofError (e.at env (s.position.push "in")) (s.push "in"))
  | .ok (.array items) =>
    if config.inParallel then
      some (finishFor config name c (parallelItems env config tasks c items s))
    else
      (sequentialItems env (list tasks) config name c items 0 false s).map
        (finishFor config name c)
  | .ok _ => some (.ofContext name (c.setRawOutput (.array [])) s.pop)

/-! ### Try -/

def ErrorFilter.matches (filter : ErrorFilter) (e : Error) : Bool :=
  filter.status.all (· = e.status) &&
    filter.details.all (some · = e.detail) &&
    filter.title.all (some · = e.title) &&
    filter.inst.all (some · = e.inst) &&
    filter.type.all (env.typeMatches · e.type)

def TryTaskCatch.catches (catch_ : TryTaskCatch) (e : Error) : Bool :=
  catch_.errors.all (·.matches env e)

/-- A condition of a catch, `default` when there is none. -/
def catchCondition (part : String) (condition : Option String) (default : Bool)
    (c : TaskContext) (vars : ExpressionContext) : TaskM Bool :=
  match condition with
  | some filter => within env part (env.transformAsBool c.rawInput filter vars)
  | none => return default

def executeCatchBlock (catch_ : TryTaskCatch) (c : TaskContext) (error : Error) :
    TaskM TaskContext := do
  if catch_.catches env error then
    modify (State.push · "catch")
    modify (State.addTaskValue · (catch_.as_.getD "error") (env.errorToJson error))
    let vars := expression env (← get) c
    if ← catchCondition env "when" catch_.when true c vars then
      if ← catchCondition env "except_when" catch_.exceptWhen false c vars then
        throw error
      else
        modify State.pop
        return c
    else throw error
  else throw error

/-- `eval_retry_condition`, and the state behind it. -/
def evalRetryCondition (retry : TryTaskCatchRetry) (retryCount : ℕ) (s : State) :
    Bool × State :=
  match retry with
  | .variant1 _ => (false, s)
  | .variant0 none => (true, s)
  | .variant0 (some limit) =>
    if limit.count.any (· ≤ (retryCount : ℤ)) then (false, s)
    else
      match limit.duration with
      | none => (true, s)
      | some duration =>
        (!env.retryExpired s.asked duration, { s with asked := s.asked + 1 })

/-- The end of the try-retry loop: the context, and whether an error was caught,
or the error. -/
structure TryEnd where
  events : List Event
  result : Except Error (TaskContext × Bool)
  state : State

def TryEnd.after (events : List Event) (e : TryEnd) : TryEnd :=
  { e with events := events ++ e.events }

/-- The try-retry loop, after `retryCount` retries. -/
def tryLoop (env : Env) (list : TaskContext → State → Option Run) (catch_ : TryTaskCatch) :
    ℕ → ℕ → TaskContext → State → Option TryEnd
  | 0, _, _, _ => none
  | fuel + 1, retryCount, c, s =>
    (list c s).bind fun r =>
      match r.error with
      | none =>
        match r.lastContext with
        | some c => some ⟨r.events, .ok (c, false), r.state⟩
        | none =>
          some ⟨r.events, .error (standardError .runtime
            "No task context returned from try task list execution"
            (some (env.pointer s.position)) none), r.state⟩
      | some e =>
        match (executeCatchBlock env catch_ (r.lastContext.getD c) e).eval r.state with
        | (.error e, s) => some ⟨r.events, .error e, s⟩
        | (.ok caught, s) =>
          match catch_.retry with
          | none => some ⟨r.events, .ok (caught, true), s⟩
          | some retry =>
            let (again, s) := evalRetryCondition env retry retryCount s
            if again then
              (tryLoop env list catch_ fuel (retryCount + 1) caught s).map
                (TryEnd.after r.events)
            else some ⟨r.events, .ok (caught, true), s⟩

/-- `TryStreamTaskExecutor::execute_stream`. -/
def executeTry (list : ListExecutor) (fuel : ℕ) (name : String) (tasks : TaskList)
    (catch_ : TryTaskCatch) (catchDo : Option TaskList) (c : TaskContext) (s : State) :
    Option Run :=
  let s := s.push "try"
  let loop :=
    if tasks.isEmpty then some ⟨[], .ok (c, false), s⟩
    else tryLoop env (list tasks) catch_ fuel 0 c s
  loop.bind fun t =>
    match t.result with
    | .error e => some ⟨t.events, some e, t.state⟩
    | .ok (c, caught) =>
      let s := t.state.pop
      match caught, catchDo with
      | true, some catchTasks =>
        (list catchTasks c s).map fun r =>
          match r.error with
          | some _ => r.after t.events
          | none => (Run.ofContext name (r.lastContext.getD c) r.state).after
              (t.events ++ r.events)
      | _, _ => some ((Run.ofContext name c s).after t.events)

end Jobworkerp.Workflow
