/-
Jobworkerp/Workflow/SingleTasks.lean

The tasks that end with one event: `switch.rs`, `set.rs`, `fork.rs`, and the
raise, wait, call and run tasks of `task.rs`.

Each of them pushes its kind on the position stack and pops it when it
succeeds.  Call and run differ in how the job is started; here both hand their
description to the engine.

* `executeSwitch_ok`: a switch keeps its input as output, takes the directive of
  the first case that matches, and leaves the state as it was.
-/
import Jobworkerp.Workflow.Settings

namespace Jobworkerp.Workflow

open Text (Json)
open TaskM

/-! ### Switch -/

/-- Is the `when` of a case true or absent? -/
def SwitchCase.isMatch (env : Env) (c : TaskContext) (vars : ExpressionContext)
    (case : SwitchCase) : Except Error Bool :=
  match case.when with
  | some when_ => env.transformAsBool c.input when_ vars
  | none => .ok true

/-- The loop over the cases. -/
def switchCases (env : Env) (c : TaskContext) (vars : ExpressionContext) :
    List SwitchCase → TaskM TaskContext
  | [] => return c
  | case :: rest => do
      if ← within env "when" (case.isMatch env c vars) then
        let directive ← within env "then" (Then.create env c.output case.then_ vars)
        return { c with flowDirective := directive }
      else
        switchCases env c vars rest

/-- `SwitchTaskExecutor::execute`. -/
def executeSwitch (env : Env) (cases : List SwitchCase) (c : TaskContext) : TaskM TaskContext := do
  let c := { c with output := c.input }
  modify (State.push · "switch")
  let c ← switchCases env c (expression env (← get) c) cases
  modify State.pop
  return c

/-- The first case whose `when` is true or absent; the cases before it have
been evaluated. -/
def firstMatch (env : Env) (c : TaskContext) (vars : ExpressionContext) :
    List SwitchCase → Option SwitchCase
  | [] => none
  | case :: rest =>
    match case.isMatch env c vars with
    | .ok true => some case
    | .ok false => firstMatch env c vars rest
    | .error _ => none

variable {env : Env} {c c' : TaskContext} {s s' : State}

theorem switchCases_ok (cases : List SwitchCase) :
    (switchCases env c vars cases).Ensures s fun c' s' =>
      s' = s ∧ match firstMatch env c vars cases with
        | some case => ∃ d, Then.create env c.output case.then_ vars = .ok d ∧
            c' = { c with flowDirective := d }
        | none => c' = c := by
  induction cases with
  | nil => exact ensures_pure.2 ⟨rfl, rfl⟩
  | cons case rest ih =>
    simp only [switchCases, ensures_bind, ensures_within]
    intro isMatch hmatch
    simp only [firstMatch, hmatch]
    cases isMatch with
    | false => exact ih
    | true =>
      simp only [if_true, ensures_bind, ensures_within, ensures_pure]
      exact fun d hd => ⟨trivial, d, hd, rfl⟩

@[simp] theorem State.pop_push (s : State) (name : String) : (s.push name).pop = s := by
  simp [State.push, State.pop, Position.push, Position.pop]

@[simp] theorem expression_push (env : Env) (s : State) (name : String) (c : TaskContext) :
    expression env (s.push name) c = expression env s c := rfl

theorem executeSwitch_ok : (executeSwitch env cases c).Ensures s fun c' s' =>
    s' = s ∧ match firstMatch env { c with output := c.input }
        (expression env s { c with output := c.input }) cases with
      | some case => ∃ d, Then.create env c.input case.then_
            (expression env s { c with output := c.input }) = .ok d ∧
          c' = { c with output := c.input, flowDirective := d }
      | none => c' = { c with output := c.input } := by
  simp only [executeSwitch, ensures_bind, ensures_modify, ensures_get, ensures_pure]
  intro c' s' hcases
  obtain ⟨rfl, hc⟩ := switchCases_ok cases hcases
  exact ⟨by simp, by simpa using hc⟩

/-! ### Set -/

/-- `SetTaskExecutor::execute`. -/
def executeSet (env : Env) (values : List (String × Json)) (c : TaskContext) :
    TaskM TaskContext := do
  modify (State.push · "set")
  let vars := expression env (← get) c
  match env.transformMap c.input values vars with
  | .ok setValues =>
    modify (State.export · (some setValues))
    modify State.pop
    return { c with rawOutput := setValues }
  | .error e => raiseHere env e

/-! ### Raise -/

/-- An error of a field of the raised error; the position stack stays. -/
def raiseUnder {α : Type} (env : Env) (fields : List String) (e : Error) : TaskM α := do
  throw (e.at env ((← get).position ++ fields.map .name))

def evaluateText (env : Env) (c : TaskContext) (vars : ExpressionContext) (field : String) :
    Option String → TaskM (Option String)
  | none => return none
  | some value =>
    match env.errorTransform c.input value vars with
    | .ok (.string text) => return some text
    | .ok v =>
      raiseUnder env ["error", field] (standardError .expression
        ("raise.error." ++ field ++ " must evaluate to a string") none
        (some ("actual value: " ++ env.display v)))
    | .error e => raiseUnder env ["error", field] e

def resolveError (env : Env) (error : RaiseTaskError) (c : TaskContext) : TaskM Error := do
  let s ← get
  let vars := expression env s c
  match error with
  | .error e => do
      let title ← evaluateText env c vars "title" e.title
      let detail ← evaluateText env c vars "detail" e.detail
      return { e with title := title, detail := detail }.at env s.position
  | .reference value =>
    match env.errorTransform c.input value vars with
    | .error e => raiseUnder env ["error"] e
    | .ok (.string detail) =>
      return (standardError .runtime "Workflow runtime error" none (some detail)).at env s.position
    | .ok (.object fields) =>
      match env.errorOfJson (.object fields) with
      | .ok e => return e
      | .error complaint =>
        raiseUnder env ["error"] (standardError .expression
          "raise.error expression must evaluate to an Error object" none (some complaint))
    | .ok v =>
      raiseUnder env ["error"] (standardError .expression
        "raise.error must evaluate to a string or Error object" none
        (some ("actual value: " ++ env.display v)))

/-- `RaiseTaskExecutor::execute`. -/
def executeRaise (env : Env) (error : RaiseTaskError) (c : TaskContext) : TaskM TaskContext := do
  modify (State.push · "raise")
  throw (← resolveError env error c)

theorem executeRaise_ne_ok :
    (executeRaise env error c).eval s ≠ (.ok c', s') := by
  intro h
  unfold executeRaise at h
  obtain ⟨_, _, _, h⟩ := eval_bind_eq_ok.1 h
  obtain ⟨_, _, _, h⟩ := eval_bind_eq_ok.1 h
  simp at h

/-! ### Wait, call and run -/

/-- `WaitTaskExecutor::execute`, when it has slept. -/
def executeWait (c : TaskContext) : TaskM TaskContext := return { c with output := c.input }

/-- `CallTaskExecutor::execute` and `RunTaskExecutor::execute`; `kind` is the
segment they push. -/
def executeJob (env : Env) (kind : String) (job : Json) (c : TaskContext) : TaskM TaskContext := do
  modify (State.push · kind)
  let vars := expression env (← get) c
  match env.job (← ask) job vars with
  | .ok output =>
    modify State.pop
    return c.setRawOutput output
  | .error (below, e) =>
    modify fun s => { s with position := s.position ++ below.map .name }
    raiseHere env e

/-! ### Fork -/

/-- `run_all_branches`: the outputs of the branches, `null` for one that
failed. -/
def runAllBranches (c : TaskContext) (ends : List (Except Error TaskContext)) : TaskContext :=
  { c with rawOutput := .array (ends.map fun
      | .ok branch => branch.output
      | .error _ => .null) }

/-- `run_compete_branches`: the first branch that succeeds. -/
def runCompeteBranches (env : Env) (ends : List (Except Error TaskContext)) : TaskM TaskContext :=
  match ends.findSome? Except.toOption with
  | some winner => return winner
  | none =>
    let errors := ends.filterMap fun
      | .ok _ => none
      | .error e => some e.display
    raiseHere env (standardError .runtime "All tasks failed in compete mode" none
      (some ("; ".intercalate errors)))

/-- The context behind the branches. -/
def joinBranches (env : Env) (compete : Bool) (c : TaskContext)
    (ends : List (Except Error TaskContext)) : TaskM TaskContext :=
  if compete then runCompeteBranches env ends else return runAllBranches c ends

/-- `ForkTaskExecutor::execute`.  The branches have position stacks of their
own. -/
def executeFork (env : Env) (branches : TaskList) (compete : Bool) (c : TaskContext) :
    TaskM TaskContext := do
  modify (State.push · "fork")
  let asked ← ask
  let s ← get
  let (ends, after) := env.branches asked branches compete c s
  set { after with position := s.position }
  let c ← joinBranches env compete c ends
  modify State.pop
  return c

/-! ### Positions

A single task that succeeds has popped what it has pushed. -/

/-- The position stack, the status and the name of the workflow are kept. -/
structure SameFrame (s s' : State) : Prop where
  position : s'.position = s.position
  status : s'.workflow.status = s.workflow.status
  name : s'.workflow.name = s.workflow.name

theorem SameFrame.refl (s : State) : SameFrame s s := ⟨rfl, rfl, rfl⟩

theorem SameFrame.trans {s s' s'' : State} (h : SameFrame s s') (h' : SameFrame s' s'') :
    SameFrame s s'' :=
  ⟨h'.position.trans h.position, h'.status.trans h.status, h'.name.trans h.name⟩

section Positions

/-- Exported values are workflow variables. -/
theorem export_frame (s : State) (exported : Option Json) : SameFrame s (s.export exported) := by
  have hfold : ∀ (fields : List (String × Json)) (s : State),
      SameFrame s (fields.foldl (fun s kv => s.addWorkflowValue kv.1 kv.2) s) := by
    intro fields
    induction fields with
    | nil =>
      intro s
      exact .refl s
    | cons kv rest ih =>
      intro s
      have hadd : SameFrame s (s.addWorkflowValue kv.1 kv.2) := ⟨rfl, rfl, rfl⟩
      exact hadd.trans (ih (s.addWorkflowValue kv.1 kv.2))
  unfold State.export
  split
  · exact hfold _ s
  · exact .refl s

theorem executeSet_frame : (executeSet env values c).Ensures s fun _ => SameFrame s := by
  simp only [executeSet, ensures_bind, ensures_modify, ensures_get]
  split
  · rename_i setValues _
    simp only [ensures_bind, ensures_modify, ensures_pure]
    have hexported := export_frame (s.push "set") (some setValues)
    refine ⟨?_, hexported.status, hexported.name⟩
    show Position.pop (State.position _) = _
    rw [hexported.position]
    exact List.dropLast_concat
  · simp

theorem executeJob_frame : (executeJob env kind job c).Ensures s fun _ => SameFrame s := by
  simp only [executeJob, ensures_bind, ensures_modify, ensures_get, ensures_ask]
  split
  · simp only [ensures_bind, ensures_modify, ensures_pure]
    exact ⟨by simp [State.pop, State.push, Position.pop, Position.push], rfl, rfl⟩
  · simp

variable {compete : Bool}

theorem joinBranches_state : (joinBranches env compete c ends).Ensures s fun _ s' => s' = s := by
  unfold joinBranches runCompeteBranches
  split
  · split
    · simp
    · simp
  · simp

theorem executeFork_position : (executeFork env branches compete c).Ensures s fun _ s' =>
    s'.position = s.position := by
  simp only [executeFork, ensures_bind, ensures_modify, ensures_ask, ensures_get, ensures_set,
    ensures_pure]
  intro c' s' hbranches
  -- the branches end on the stack of the fork
  have hs' : s'.position = s.position.push "fork" := by
    rw [joinBranches_state hbranches]
    rfl
  simp [State.pop, hs', Position.pop, Position.push]

end Positions

end Jobworkerp.Workflow
