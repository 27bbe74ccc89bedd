/-
Jobworkerp/Workflow/Settings.lean

The settings all tasks have in common: `update_context_by_input`,
`update_context_by_output` and `save_checkpoint` of `task.rs`.

A part of a task runs in `TaskM`: it fails with an error and keeps the state it
had reached.  An error leaves the position stack as it was when it happened, so
that the stack says where.

* `eval_bind_eq_ok`: a successful sequence is two successful parts;
* `updateContextByOutput_ok`: what `output.as`, `export.as`, `then` and
  `checkpoint` have done when all of them succeeded.
-/
import Jobworkerp.Workflow.Context

namespace Jobworkerp.Workflow

open Text (Json)

/-! ### Parts of a task -/

abbrev TaskM := ExceptT Error (StateM State)

namespace TaskM

variable {α β : Type}

def eval (x : TaskM α) (s : State) : Except Error α × State := (ExceptT.run x).run s

@[simp] theorem eval_pure (a : α) (s : State) : eval (pure a) s = (.ok a, s) := rfl

@[simp] theorem eval_throw (e : Error) (s : State) : eval (throw e : TaskM α) s = (.error e, s) :=
  rfl

@[simp] theorem eval_get (s : State) : eval get s = (.ok s, s) := rfl

@[simp] theorem eval_modify (f : State → State) (s : State) :
    eval (modify f : TaskM Unit) s = (.ok (), f s) := rfl

theorem eval_bind (x : TaskM α) (f : α → TaskM β) (s : State) :
    (x >>= f).eval s = match x.eval s with
      | (.ok a, s') => (f a).eval s'
      | (.error e, s') => (.error e, s') := by
  show (match x.eval s with | (r, s') => (ExceptT.bindCont f r : StateM State _).run s') = _
  rcases x.eval s with ⟨_ | _, s'⟩ <;> rfl

@[simp] theorem eval_bind_eq_ok {x : TaskM α} {f : α → TaskM β} {s s'' : State} {b : β} :
    (x >>= f).eval s = (.ok b, s'') ↔
      ∃ a s', x.eval s = (.ok a, s') ∧ (f a).eval s' = (.ok b, s'') := by
  rw [eval_bind]
  rcases x.eval s with ⟨_ | a, s'⟩ <;> simp

/-- Every successful end of a part satisfies `Q`. -/
def Ensures (x : TaskM α) (s : State) (Q : α → State → Prop) : Prop :=
  ∀ ⦃a s'⦄, x.eval s = (.ok a, s') → Q a s'

variable {s : State} {Q : α → State → Prop}

@[simp] theorem ensures_pure : (pure a : TaskM α).Ensures s Q ↔ Q a s := by
  simp [Ensures]

@[simp] theorem ensures_throw : (throw e : TaskM α).Ensures s Q ↔ True := by
  simp [Ensures]

@[simp] theorem ensures_get {Q : State → State → Prop} : Ensures get s Q ↔ Q s s := by
  simp [Ensures]

@[simp] theorem ensures_modify {Q : Unit → State → Prop} :
    (modify f : TaskM Unit).Ensures s Q ↔ Q () (f s) := by
  simp only [Ensures, eval_modify, Prod.mk.injEq]
  exact ⟨fun h => h ⟨trivial, rfl⟩, fun h _ _ ⟨_, hs⟩ => hs ▸ h⟩

@[simp] theorem ensures_set {Q : PUnit → State → Prop} :
    (set s₁ : TaskM PUnit).Ensures s Q ↔ Q () s₁ :=
  ensures_modify (f := fun _ => s₁)

@[simp] theorem ensures_bind {f : β → TaskM α} :
    (x >>= f).Ensures s Q ↔ x.Ensures s fun b s' => (f b).Ensures s' Q := by
  simp only [Ensures, eval_bind_eq_ok]
  exact ⟨fun h b s' hx a s'' hf => h ⟨b, s', hx, hf⟩, fun h a s'' ⟨b, s', hx, hf⟩ => h hx hf⟩

end TaskM

open TaskM

/-- The number of this question to the engine. -/
def ask : TaskM ℕ := do
  let s ← get
  set { s with asked := s.asked + 1 }
  return s.asked

@[simp] theorem eval_ask (s : State) :
    ask.eval s = (.ok s.asked, { s with asked := s.asked + 1 }) := rfl

/-- Fail where the position stack stands. -/
def raiseHere {α : Type} (env : Env) (e : Error) : TaskM α := do
  throw (e.at env (← get).position)

variable {α : Type} {env : Env} {s s' : State} {task : Settings} {c c' : TaskContext}

@[simp] theorem ensures_ask {Q : ℕ → State → Prop} :
    ask.Ensures s Q ↔ Q s.asked { s with asked := s.asked + 1 } := by
  simp [Ensures]

@[simp] theorem eval_raiseHere (env : Env) (e : Error) (s : State) :
    (raiseHere env e : TaskM α).eval s = (.error (e.at env s.position), s) := rfl

@[simp] theorem ensures_raiseHere {Q : α → State → Prop} :
    (raiseHere env e : TaskM α).Ensures s Q ↔ True := by
  simp [raiseHere]

/-- An error of a part of the definition lies under the name of the part. -/
def within {α : Type} (env : Env) (part : String) : Except Error α → TaskM α
  | .ok a => pure a
  | .error e => do
      modify (State.push · part)
      raiseHere env e

@[simp] theorem ensures_within {Q : α → State → Prop} :
    (within env part x).Ensures s Q ↔ ∀ a, x = .ok a → Q a s := by
  cases x with
  | error e => simp [within]
  | ok b => simp [within]

/-! ### Input -/

def updateContextByInput (env : Env) (task : Settings) (vars : ExpressionContext)
    (c : TaskContext) : TaskM TaskContext := do
  match task.inputSchema.bind (env.validate · c.input) with
  | some complaint =>
    modify (State.push · "input")
    raiseHere env
      (standardError .validation "Failed to validate input schema" none (some complaint))
  | none =>
    match task.inputFrom with
    | none => return c.setInput c.rawInput
    | some from_ =>
      match env.transformBy c.rawInput from_ vars with
      | .ok input => return c.setInput input
      | .error e => raiseHere env e

/-- The input settings keep the state and the directive. -/
theorem updateContextByInput_ok : (updateContextByInput env task vars c).Ensures s fun c' s' =>
    s' = s ∧ ∃ input, c' = c.setInput input := by
  unfold updateContextByInput
  split
  · simp
  · split
    · exact ensures_pure.2 ⟨rfl, _, rfl⟩
    · split
      · exact ensures_pure.2 ⟨rfl, _, rfl⟩
      · simp

/-! ### Output, export and directive -/

/-- `output.as`, applied to the raw output. -/
def transformOutput (env : Env) (task : Settings) (rawOutput : Json) (vars : ExpressionContext) :
    Except Error Json :=
  match task.outputAs with
  | some as_ => env.transformBy rawOutput as_ vars
  | none => .ok rawOutput

/-- `export.as`, applied to the output. -/
def transformExport (env : Env) (task : Settings) (output : Json) (vars : ExpressionContext) :
    Except Error (Option Json) :=
  match task.exportAs with
  | some as_ => (env.transformBy output as_ vars).map some
  | none => .ok none

/-- The fields of an exported object become workflow variables; other values
are only warned about. -/
def State.export (s : State) : Option Json → State
  | some (.object fields) => fields.foldl (fun s kv => s.addWorkflowValue kv.1 kv.2) s
  | _ => s

/-- The directive of the task itself, `continue` without a `then`. -/
def ownDirective (env : Env) (task : Settings) (output : Json) (vars : ExpressionContext) :
    Except Error Then :=
  match task.then_ with
  | some flow => Then.create env output flow vars
  | none => .ok .continue_

/-! ### Checkpoints -/

def CheckPointContext.newWithPosition (s : State) (c : TaskContext) (position : Position) :
    CheckPointContext :=
  ⟨⟨s.workflow.name, s.workflow.input, s.workflow.contextVariables⟩,
    ⟨c.input, c.output, s.taskVariables, c.flowDirective.toText⟩, position⟩

def CheckPointContext.new (s : State) (c : TaskContext) : CheckPointContext :=
  .newWithPosition s c s.position

/-- Checkpoints are saved: there is a repository and an execution id. -/
def Env.checkpointing (env : Env) : Bool := env.checkpointRepository && env.executionId.isSome

def State.save (s : State) (cp : CheckPointContext) : State :=
  { s with checkpoints := cp :: s.checkpoints }

def saveCheckpoint (env : Env) (task : Settings) (c : TaskContext) : TaskM Unit := do
  if env.checkpointing && task.checkpoint then
    let cp := CheckPointContext.new (← get) c
    if env.saveFails (← ask) cp then
      modify (State.push · "checkpoint")
      raiseHere env (standardError .runtime "Failed to save checkpoint" none none)
    else
      modify (State.save · cp)

/-- The state behind a checkpoint. -/
def State.checkpointed (s : State) (env : Env) (task : Settings) (c : TaskContext) : State :=
  if env.checkpointing && task.checkpoint then
    { s with asked := s.asked + 1 }.save (.new s c)
  else s

theorem saveCheckpoint_ok :
    (saveCheckpoint env task c).Ensures s fun _ s' => s' = s.checkpointed env task c := by
  unfold saveCheckpoint State.checkpointed
  split
  · simp only [ensures_bind, ensures_get, ensures_ask]
    split
    · simp
    · simp
  · simp

/-! ### All of them -/

/-- `update_context_by_output`.  The expression sees the context before the
output settings, and the new output for `export` and `then`. -/
def updateContextByOutput (env : Env) (task : Settings) (c : TaskContext) : TaskM TaskContext := do
  let vars := expression env (← get) c
  let output ← within env "output" (transformOutput env task c.rawOutput vars)
  let vars := IndexMap.insert vars "output" output
  let exported ← within env "export" (transformExport env task output vars)
  modify (State.export · exported)
  let directive ← within env "then" (ownDirective env task output vars)
  let c := { c with output := output, flowDirective := directive }
  saveCheckpoint env task c
  return c

/-- What the output settings of a task make of a context and a state, when none
of them fails. -/
structure OutputSettings (env : Env) (task : Settings) (c : TaskContext) (s : State)
    (c' : TaskContext) (s' : State) : Prop where
  output : transformOutput env task c.rawOutput (expression env s c) = .ok c'.output
  directive : ownDirective env task c'.output
    (IndexMap.insert (expression env s c) "output" c'.output) = .ok c'.flowDirective
  state : ∃ exported, transformExport env task c'.output
      (IndexMap.insert (expression env s c) "output" c'.output) = .ok exported ∧
    s' = (s.export exported).checkpointed env task c'

theorem updateContextByOutput_ok : (updateContextByOutput env task c).Ensures s fun c' s' =>
    OutputSettings env task c s c' s' := by
  simp only [updateContextByOutput, ensures_bind, ensures_get, ensures_within, ensures_modify,
    ensures_pure]
  intro output houtput exported hexport directive hthen _ s' hsave
  exact ⟨houtput, hthen, exported, hexport, saveCheckpoint_ok hsave⟩

end Jobworkerp.Workflow
