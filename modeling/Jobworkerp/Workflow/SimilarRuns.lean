/-
Jobworkerp/Workflow/SimilarRuns.lean

Executions that cannot be told apart.

Two states are similar when they agree in everything that do and set tasks read:
the name, the input and the variables of the workflow, the variables of the
tasks, the position stack and the status.  They may differ in what is only
written: the checkpoints, how often the engine was asked, and the output until
a task has completed.  No resume is pending in either of them.

* `execute_similar`: do and set tasks make similar states similar again, with
  the same events and the same error.

Expressions are evaluated in an environment that gives them nothing but what
similar states agree in (`Reproducible`).
-/
import Jobworkerp.Workflow.Walk

namespace Jobworkerp.Workflow

open List

open Text (Json)
open TaskM

/-! ### Contexts and states -/

/-- The same values, with any directive. -/
structure SameValues (c c' : TaskContext) : Prop where
  rawInput : c'.rawInput = c.rawInput
  input : c'.input = c.input
  rawOutput : c'.rawOutput = c.rawOutput
  output : c'.output = c.output

theorem SameValues.refl (c : TaskContext) : SameValues c c := ⟨rfl, rfl, rfl, rfl⟩

variable {c c' : TaskContext} {P Q : Prop} {s s' : State} {env : Env}

theorem SameValues.eq (h : SameValues c c')
    (hdirective : c.flowDirective = c'.flowDirective) : c = c' := by
  obtain ⟨hrawInput, hinput, hrawOutput, houtput⟩ := h
  cases c
  cases c'
  simp_all

theorem SameValues.setInput (h : SameValues c c') (input : Json) :
    SameValues (c.setInput input) (c'.setInput input) :=
  ⟨h.rawInput, rfl, rfl, rfl⟩

/-- States that agree in what do and set tasks read; the workflow has the same
output when `P` holds. -/
structure Similar (P : Prop) (s s' : State) : Prop where
  name : s'.workflow.name = s.workflow.name
  input : s'.workflow.input = s.workflow.input
  contextVariables : s'.workflow.contextVariables = s.workflow.contextVariables
  status : s'.workflow.status = s.workflow.status
  resume : s.workflow.status = .waiting →
    s'.workflow.resumePosition = s.workflow.resumePosition
  started : s.workflow.checkpointPosition = none
  started' : s'.workflow.checkpointPosition = none
  taskVariables : s'.taskVariables = s.taskVariables
  position : s'.position = s.position
  output : P → s'.workflow.output = s.workflow.output

namespace Similar

theorem refl (P : Prop) (h : s.workflow.checkpointPosition = none) : Similar P s s :=
  ⟨rfl, rfl, rfl, rfl, fun _ => rfl, h, h, rfl, rfl, fun _ => rfl⟩

section

variable (h : Similar P s s')

include h

theorem mono (hQ : Q → P) : Similar Q s s' :=
  { h with output := fun q => h.output (hQ q) }

theorem push (name : String) : Similar P (s.push name) (s'.push name) :=
  { h with position := congrArg (Position.push · name) h.position }

theorem pushIdx (index : ℕ) : Similar P (s.pushIdx index) (s'.pushIdx index) :=
  { h with position := congrArg (Position.pushIdx · index) h.position }

theorem pop : Similar P s.pop s'.pop :=
  { h with position := congrArg Position.pop h.position }

theorem setStatus {status : WorkflowStatus} (hstatus : status ≠ .waiting) :
    Similar P (s.setStatus status) (s'.setStatus status) :=
  { h with status := rfl, resume := fun hwaiting => absurd hwaiting hstatus }

theorem addWorkflowValue (key : String) (value : Json) :
    Similar P (s.addWorkflowValue key value) (s'.addWorkflowValue key value) :=
  { h with contextVariables := congrArg (IndexMap.insert · key value) h.contextVariables }

theorem completed (c : TaskContext) : Similar Q (s.completed c) (s'.completed c) :=
  { h with output := fun _ => rfl }

theorem exported (exported : Option Json) : Similar P (s.export exported) (s'.export exported) := by
  have hfold : ∀ (fields : List (String × Json)) (s s' : State), Similar P s s' →
      Similar P (fields.foldl (fun s kv => s.addWorkflowValue kv.1 kv.2) s)
        (fields.foldl (fun s kv => s.addWorkflowValue kv.1 kv.2) s') := by
    intro fields
    induction fields with
    | nil =>
      intro s s' h
      exact h
    | cons kv rest ih =>
      intro s s' h
      exact ih _ _ (h.addWorkflowValue kv.1 kv.2)
  unfold State.export
  split
  · exact hfold _ s s' h
  · exact h

end

end Similar

/-- Expressions see nothing but what similar states agree in, and checkpoints
can be saved and loaded. -/
structure Reproducible (env : Env) : Prop where
  descriptors : ∀ {w w' : WorkflowContext} {c c' : TaskContext}, w'.name = w.name →
    w'.input = w.input → w'.contextVariables = w.contextVariables → SameValues c c' →
    env.descriptors w' c' = env.descriptors w c
  saves : ∀ asked cp, env.saveFails asked cp = false
  loads : ∀ asked position, env.loadFails asked position = none

section Parts

theorem expression_similar (henv : Reproducible env) (h : Similar P s s') (hc : SameValues c c') :
    expression env s' c' = expression env s c := by
  unfold expression
  rw [henv.descriptors h.name h.input h.contextVariables hc, h.taskVariables, h.contextVariables,
    hc.input, hc.output]

/-! ### Parts of a task -/

/-- Two parts of a task end alike. -/
def SameEnd {α : Type} (P : Prop) (R : α → α → Prop) (x x' : Except Error α × State) : Prop :=
  Similar P x.2 x'.2 ∧
    match x.1, x'.1 with
    | .ok a, .ok a' => R a a'
    | .error e, .error e' => e' = e
    | _, _ => False

variable {α : Type} {task task' : Settings}

theorem SameEnd.cases (h : SameEnd P R x x') :
    (∃ a a' s s', x = (.ok a, s) ∧ x' = (.ok a', s') ∧ R a a' ∧ Similar P s s') ∨
      ∃ e s s', x = (.error e, s) ∧ x' = (.error e, s') ∧ Similar P s s' := by
  obtain ⟨x, s⟩ := x
  obtain ⟨x', s'⟩ := x'
  obtain ⟨hs, h⟩ := h
  cases x with
  | ok a =>
    cases x' with
    | ok a' => exact .inl ⟨a, a', s, s', rfl, rfl, h, hs⟩
    | error e' => exact h.elim
  | error e =>
    cases x' with
    | ok a' => exact h.elim
    | error e' =>
      obtain rfl : e' = e := h
      exact .inr ⟨e', s, s', rfl, rfl, hs⟩

theorem SameEnd.imp {R Q : α → α → Prop}
    (h : SameEnd P R x x') (hQ : ∀ a a', R a a' → Q a a') : SameEnd P Q x x' := by
  obtain ⟨a, a', s, s', rfl, rfl, hR, hs⟩ | ⟨e, s, s', rfl, rfl, hs⟩ := h.cases
  · exact ⟨hs, hQ a a' hR⟩
  · exact ⟨hs, rfl⟩

theorem SameEnd.bind {α β : Type} {R : α → α → Prop} {Q : β → β → Prop} {x x' : TaskM α}
    {f f' : α → TaskM β} (hx : SameEnd P R (x.eval s) (x'.eval s'))
    (hf : ∀ a a' s s', R a a' → Similar P s s' → SameEnd P Q ((f a).eval s) ((f' a').eval s')) :
    SameEnd P Q ((x >>= f).eval s) ((x' >>= f').eval s') := by
  rw [eval_bind, eval_bind]
  obtain ⟨a, a', s1, s1', hx, hx', hR, hs⟩ | ⟨e, s1, s1', hx, hx', hs⟩ := hx.cases
  · rw [hx, hx']
    exact hf a a' s1 s1' hR hs
  · rw [hx, hx']
    exact ⟨hs, rfl⟩

theorem sameEnd_ok (h : R a a') (hs : Similar P s s') :
    SameEnd P R ((.ok a, s) : Except Error α × State) (.ok a', s') := ⟨hs, h⟩

theorem sameEnd_raiseHere (e : Error) (hs : Similar P s s') :
    SameEnd P R ((raiseHere env e : TaskM α).eval s) ((raiseHere env e : TaskM α).eval s') := by
  refine ⟨hs, ?_⟩
  show e.at env s'.position = e.at env s.position
  rw [hs.position]

theorem sameEnd_within (part : String) (h : SameEnd P R (x, s) (x', s')) :
    SameEnd P R ((within env part x).eval s) ((within env part x').eval s') := by
  obtain ⟨a, a', _, _, ⟨⟩, ⟨⟩, hR, hs⟩ | ⟨e, _, _, ⟨⟩, ⟨⟩, hs⟩ := h.cases
  · exact sameEnd_ok hR hs
  · exact sameEnd_raiseHere e (hs.push part)

theorem sameEnd_refl (x : Except Error α) (hs : Similar P s s') : SameEnd P Eq (x, s) (x, s') := by
  cases x with
  | ok | error => exact ⟨hs, rfl⟩

theorem updateContextByInput_similar (task : Settings) (vars : ExpressionContext)
    (h : Similar P s s') (hc : SameValues c c') :
    SameEnd P SameValues ((updateContextByInput env task vars c).eval s)
      ((updateContextByInput env task vars c').eval s') := by
  unfold updateContextByInput
  rw [hc.input, hc.rawInput]
  split
  · exact sameEnd_raiseHere _ (h.push "input")
  · split
    · exact sameEnd_ok (hc.setInput c.rawInput) h
    · split
      · exact sameEnd_ok (hc.setInput _) h
      · exact sameEnd_raiseHere _ h

theorem eval_executeSet (env : Env) (values : List (String × Json)) (c : TaskContext) (s : State) :
    (executeSet env values c).eval s =
      match env.transformMap c.input values (expression env (s.push "set") c) with
      | .ok setValues =>
        (.ok { c with rawOutput := setValues },
          ((s.push "set").export (some setValues)).pop)
      | .error e => (.error (e.at env (s.push "set").position), s.push "set") := by
  unfold executeSet
  simp only [eval_bind, eval_modify, eval_get]
  cases env.transformMap c.input values (expression env (s.push "set") c) with
  | ok | error => rfl

theorem executeSet_similar (henv : Reproducible env) (values : List (String × Json))
    (h : Similar P s s') (hc : SameValues c c') :
    SameEnd P SameValues ((executeSet env values c).eval s)
      ((executeSet env values c').eval s') := by
  rw [eval_executeSet, eval_executeSet, hc.input, expression_similar henv (h.push "set") hc]
  cases env.transformMap c.input values (expression env (s.push "set") c) with
  | ok setValues =>
    exact sameEnd_ok ⟨hc.rawInput, rfl, rfl, hc.output⟩ ((h.push "set").exported _).pop
  | error e => exact sameEnd_raiseHere e (h.push "set")

theorem saveCheckpoint_similar (henv : Reproducible env)
    (hcheckpoint : task'.checkpoint = task.checkpoint) (c c' : TaskContext) (h : Similar P s s') :
    SameEnd P (fun _ _ => True) ((saveCheckpoint env task c).eval s)
      ((saveCheckpoint env task' c').eval s') := by
  unfold saveCheckpoint
  rw [hcheckpoint]
  split
  · simp only [eval_bind, eval_get, eval_ask, henv.saves]
    exact ⟨{ h with }, trivial⟩
  · exact ⟨h, trivial⟩

/-- Settings that differ in the directive at most. -/
structure SameOutput (task task' : Settings) : Prop where
  outputAs : task'.outputAs = task.outputAs
  exportAs : task'.exportAs = task.exportAs
  checkpoint : task'.checkpoint = task.checkpoint

/-- Behind the output settings the values are the same, and the directives are
as the settings have them. -/
theorem updateContextByOutput_sameOutput (henv : Reproducible env)
    (htask : SameOutput task task') {D : Then → Then → Prop}
    (hown : ∀ output vars s s', Similar P s s' → SameEnd P D (ownDirective env task output vars, s)
      (ownDirective env task' output vars, s'))
    (h : Similar P s s') (hc : SameValues c c') :
    SameEnd P (fun a a' => SameValues a a' ∧ D a.flowDirective a'.flowDirective)
      ((updateContextByOutput env task c).eval s)
      ((updateContextByOutput env task' c').eval s') := by
  have houtput : ∀ vars, transformOutput env task' c'.rawOutput vars =
      transformOutput env task c.rawOutput vars := by
    intro vars
    rw [transformOutput, transformOutput, htask.outputAs, hc.rawOutput]
  have hexport : ∀ output vars, transformExport env task' output vars =
      transformExport env task output vars := by
    intro output vars
    rw [transformExport, transformExport, htask.exportAs]
  unfold updateContextByOutput
  refine SameEnd.bind (R := fun a a' => a = s ∧ a' = s') ⟨h, rfl, rfl⟩ ?_
  rintro _ _ s1 s1' ⟨rfl, rfl⟩ h1
  dsimp only
  rw [expression_similar henv h hc, houtput]
  refine SameEnd.bind (sameEnd_within "output" (sameEnd_refl _ h1)) ?_
  rintro output _ s2 s2' rfl h2
  rw [hexport]
  refine SameEnd.bind (sameEnd_within "export" (sameEnd_refl _ h2)) ?_
  rintro exported _ s3 s3' rfl h3
  refine SameEnd.bind (R := fun _ _ => True) ⟨h3.exported exported, trivial⟩ ?_
  rintro _ _ s4 s4' - h4
  refine SameEnd.bind (sameEnd_within "then" (hown _ _ _ _ h4)) ?_
  intro directive directive' s5 s5' hdirective h5
  refine SameEnd.bind (saveCheckpoint_similar henv htask.checkpoint _ _ h5) ?_
  rintro _ _ s6 s6' - h6
  exact sameEnd_ok ⟨⟨hc.rawInput, hc.input, hc.rawOutput, rfl⟩, hdirective⟩ h6

/-- Behind the same output settings the contexts are the same. -/
theorem updateContextByOutput_similar (henv : Reproducible env) (task : Settings)
    (h : Similar P s s') (hc : SameValues c c') :
    SameEnd P Eq ((updateContextByOutput env task c).eval s)
      ((updateContextByOutput env task c').eval s') := by
  refine (updateContextByOutput_sameOutput henv ⟨rfl, rfl, rfl⟩
    (fun output vars s s' hs => sameEnd_refl (ownDirective env task output vars) hs) h hc).imp ?_
  rintro a a' ⟨hvalues, hdirective⟩
  exact hvalues.eq hdirective

end Parts

/-! ### Runs -/

/-- The directive is not a jump. -/
def TaskContext.NoJump (c : TaskContext) : Prop := ∀ name, c.flowDirective ≠ .taskName name

/-- The same events, without a jump, and the same error, in similar states; the
workflow has the same output behind a context.  Unless it ends with an error, a
stream with any event has a context. -/
structure SimilarRun (P : Prop) (r r' : Run) : Prop where
  events : r'.events = r.events
  error : r'.error = r.error
  state : Similar (P ∨ r.lastContext ≠ none) r.state r'.state
  noJump : ∀ name c, Event.completed name c ∈ r.events → c.NoJump
  context : r.error = none → r.events ≠ [] → r.lastContext ≠ none

/-- Similar streams of a task, which always has a context or an error. -/
structure SimilarTask (P : Prop) (r r' : Run) : Prop extends SimilarRun P r r' where
  concludes : r.error = none → r.lastContext ≠ none

namespace SimilarRun

variable {r r' : Run}

theorem lastContext (h : SimilarRun P r r') : r'.lastContext = r.lastContext :=
  congrArg lastContextOf h.events

theorem noJump_last (h : SimilarRun P r r') (hlast : r.lastContext = some c) : c.NoJump := by
  obtain ⟨event, hmem, hevent⟩ := exists_of_findSome?_eq_some hlast
  cases event with
  | completed name c' =>
    obtain rfl : c' = c := Option.some.inj hevent
    exact h.noJump name c' (mem_reverse.1 hmem)
  | started | itemFailed => cases hevent

theorem after (h : SimilarRun True r r') (h0 : SimilarTask P r0 r0')
    (hok : r0.error = none) : SimilarRun Q (r.after r0.events) (r'.after r0'.events) where
  events := by rw [Run.after_events, Run.after_events, h.events, h0.events]
  error := h.error
  state := h.state.mono fun _ => .inl trivial
  noJump := by
    intro name c hmem
    rcases mem_append.1 hmem with hmem | hmem
    · exact h0.noJump name c hmem
    · exact h.noJump name c hmem
  context := by
    intro _ _ hnone
    rw [Run.lastContext, Run.after_events, lastContextOf_append, Option.or_eq_none_iff] at hnone
    exact h0.concludes hok hnone.2

theorem finish (h : SimilarRun P r r') (env : Env) (kind : TaskKind) (name : String)
    (position : Position) : SimilarTask P (r.finish env (.started kind name position) position)
      (r'.finish env (.started kind name position) position) := by
  have hjump : ∀ name' c, Event.completed name' c ∈ .started kind name position :: r.events →
      c.NoJump := by
    intro name' c hmem
    exact h.noJump name' c (by simpa using hmem)
  have hlast : (r.after [.started kind name position]).lastContext = r.lastContext :=
    lastContextOf_started kind name position r.events
  unfold Run.finish
  rw [h.error, h.events, h.lastContext]
  rcases herror : r.error with - | e
  · rcases hevents : r.events with - | ⟨event, rest⟩
    · have hnone : r.lastContext = none := by rw [Run.lastContext, hevents]; rfl
      refine ⟨⟨rfl, rfl, h.state.mono ?_, by simp, by simp⟩, by simp⟩
      exact Or.imp_right fun hsome => absurd rfl hsome
    · rcases hcontext : r.lastContext with - | c
      · exact absurd hcontext (h.context herror (by simp [hevents]))
      · have hsome : (r.after [.started kind name position]).lastContext ≠ none := by
          rw [hlast, hcontext]
          exact Option.some_ne_none c
        have hstate : Similar (P ∨ (r.after [.started kind name position]).lastContext ≠ none)
            r.state r'.state := h.state.mono (hlast ▸ id)
        exact ⟨⟨congrArg (List.cons _) h.events, h.error, hstate.pop, hjump, fun _ _ => hsome⟩,
          fun _ => hsome⟩
  · have hno : ∀ {R : Prop}, (r.after [.started kind name position]).error = none → R := by
      intro R hnone
      rw [Run.after_error, herror] at hnone
      cases hnone
    have hstate : Similar (P ∨ (r.after [.started kind name position]).lastContext ≠ none)
        r.state r'.state := h.state.mono (hlast ▸ id)
    exact ⟨⟨congrArg (List.cons _) h.events, h.error, hstate, hjump, fun hnone => hno hnone⟩,
      fun hnone => hno hnone⟩

end SimilarRun

theorem ofError_similar (e : Error) (h : Similar P s s') :
    SimilarTask P (.ofError e s) (.ofError e s') :=
  ⟨⟨rfl, rfl, h.mono (Or.rec id fun hsome => absurd rfl hsome), by simp [Run.ofError],
    by simp [Run.ofError]⟩, by simp [Run.ofError]⟩

theorem single_similar
    (h : SameEnd P Eq (x.eval s) (x'.eval s')) (hjump : ∀ c s1, x.eval s = (.ok c, s1) → c.NoJump) :
    SimilarRun P (.single name x s) (.single name x' s') := by
  unfold Run.single
  obtain ⟨c, _, s1, s1', heval, heval', rfl, hs⟩ | ⟨e, s1, s1', heval, heval', hs⟩ := h.cases
  · rw [heval, heval']
    refine ⟨rfl, rfl, hs.completed c, ?_, fun _ _ => Option.some_ne_none c⟩
    intro name' c2 hmem
    simp only [Run.ofContext, mem_singleton, Event.completed.injEq] at hmem
    rw [hmem.2]
    exact hjump c s1 heval
  · rw [heval, heval']
    exact (ofError_similar e hs).toSimilarRun

theorem rel_map {R : α → β → Prop} (h : Option.Rel R o o') (hf : ∀ a b, R a b → S (f a) (g b)) :
    Option.Rel S (o.map f) (o'.map g) := by
  cases h with
  | none => exact .none
  | some h => exact .some (hf _ _ h)

/-! ### Lists -/

/-- Set tasks that do not jump, and lists of them in do tasks, without an `if`. -/
inductive PureTask : Task → Prop
  | set {settings : Settings} {values : List (String × Json)} (if_ : settings.if_ = none)
      (then_ : ∀ text, settings.then_ ≠ some (.variant1 text)) : PureTask (.set settings values)
  | do_ {settings : Settings} {tasks : TaskList} (if_ : settings.if_ = none)
      (tasks_ : ∀ t ∈ tasks, PureTask t.2) : PureTask (.do_ settings tasks)

/-- Similar states give similar streams of a pure task. -/
def SimilarExec (exec : TaskExecutor) : Prop :=
  ∀ P name task, PureTask task → ∀ prev prev' s s', prev'.output = prev.output → Similar P s s' →
    Option.Rel (SimilarTask P) (exec name task prev s) (exec name task prev' s')

section Lists

variable {exec : TaskExecutor}

theorem suspend_similar (henv : Reproducible env) (name : String) (pos : ℕ) (next : Option Entry)
    (result : TaskContext) (h : Similar P s s') :
    Similar P (suspend env name pos next result s) (suspend env name pos next result s') := by
  have hhandled : (decide (s'.workflow.status = .waiting) && s'.workflow.resumePosition.any fun p =>
      (p.relativePath ((s'.position.pushIdx pos).push name)).any (· ≠ [])) =
      (decide (s.workflow.status = .waiting) && s.workflow.resumePosition.any fun p =>
        (p.relativePath ((s.position.pushIdx pos).push name)).any (· ≠ [])) := by
    rw [h.status, h.position]
    by_cases hwaiting : s.workflow.status = .waiting
    · rw [h.resume hwaiting]
    · simp [hwaiting]
  unfold suspend
  dsimp only
  rw [hhandled, h.position]
  simp only [henv.saves, Bool.false_eq_true, if_false]
  split_ifs with handled atEnd hsaved
  · exact h
  · exact h.setStatus (by simp)
  · exact { h with status := rfl, resume := fun _ => rfl, position := rfl }
  · exact { h with status := rfl, resume := fun _ => rfl }

variable {result : TaskContext} {from_ from_' : Option ℕ} {d d' : DoState} {tasks : TaskList}

/-- The same task is next, without a look at the map. -/
theorem follow_similar (henv : Reproducible env) (map map' : TaskMap) (name : String) (pos : ℕ)
    (next : Option Entry) (hjump : result.NoJump) (h : Similar P s s') :
    (follow env map' name pos next result s').1 = (follow env map name pos next result s).1 ∧
      Similar P (follow env map name pos next result s).2
        (follow env map' name pos next result s').2 ∧
      ∀ e ∈ (follow env map name pos next result s).1, e ∈ next := by
  unfold follow
  cases hdirective : result.flowDirective with
  | continue_ => exact ⟨rfl, h, fun e he => he⟩
  | end_ => exact ⟨rfl, h.setStatus (by simp), by simp⟩
  | exit => exact ⟨rfl, h, by simp⟩
  | wait => exact ⟨rfl, suspend_similar henv name pos next result h, by simp⟩
  | taskName t => exact absurd hdirective (hjump t)

/-- Two loops with the same pure tasks ahead of them, none of which is passed
over. -/
structure SimilarLoop (P : Prop) (from_ from_' : Option ℕ) (d d' : DoState) : Prop where
  current : d'.current = d.current
  rest : d'.rest = d.rest
  prev : d'.prev.output = d.prev.output
  state : Similar P d.state d'.state
  ahead : ∀ e, e ∈ d.current ∨ e ∈ d.rest →
    PureTask e.2.2 ∧ from_.any (e.2.1 < ·) = false ∧ from_'.any (e.2.1 < ·) = false

/-- The loop behind a task. -/
def DoState.behind (env : Env) (map : TaskMap) (name : String) (pos : ℕ) (d : DoState)
    (result : TaskContext) (s : State) : DoState :=
  ⟨(follow env map name pos d.rest.head? result s).1, d.rest.tail, result,
    (follow env map name pos d.rest.head? result s).2⟩

theorem SimilarLoop.behind (henv : Reproducible env) (map map' : TaskMap) (name : String) (pos : ℕ)
    (hd : SimilarLoop P from_ from_' d d') (hjump : result.NoJump) (h : Similar Q s s') :
    SimilarLoop Q from_ from_' (d.behind env map name pos result s)
      (d'.behind env map' name pos result s') := by
  obtain ⟨hnext, hstate, hahead⟩ := follow_similar henv map map' name pos d.rest.head? hjump h
  unfold DoState.behind
  rw [hd.rest]
  refine ⟨hnext, rfl, rfl, hstate, ?_⟩
  rintro e (he | he)
  · exact hd.ahead e (.inr (mem_of_mem_head? (hahead e he)))
  · exact hd.ahead e (.inr (mem_of_mem_tail he))

/-- The loops run the same tasks, whatever the lists hold besides them. -/
theorem doLoop_similar (henv : Reproducible env) (hexec : SimilarExec exec) (map map' : TaskMap)
    (hd : SimilarLoop P from_ from_' d d') (fuel : ℕ) :
    Option.Rel (SimilarRun P) (doLoop env exec map from_ fuel d)
      (doLoop env exec map' from_' fuel d') := by
  induction fuel generalizing P d d' with
  | zero => exact .none
  | succ fuel ih =>
    have hended : SimilarRun P ⟨[], none, d.state.pop⟩ ⟨[], none, d'.state.pop⟩ :=
      ⟨rfl, rfl, hd.state.pop.mono (Or.rec id fun hsome => absurd rfl hsome), by simp, by simp⟩
    rw [doLoop, doLoop, doStep, doStep, hd.current]
    rcases hcurrent : d.current with - | ⟨name, pos, task⟩
    · exact .some hended
    · obtain ⟨hpure, hskip, hskip'⟩ := hd.ahead (name, pos, task) (.inl hcurrent)
      dsimp only at hskip hskip' ⊢
      rw [hskip, hskip', hd.state.status]
      simp only [Bool.false_eq_true, if_false]
      split_ifs with hstatus
      · exact .some hended
      · have htask := hexec P name task hpure d.prev d'.prev _ _ hd.prev (hd.state.pushIdx pos)
        generalize exec name task d.prev (d.state.pushIdx pos) = o at htask ⊢
        generalize exec name task d'.prev (d'.state.pushIdx pos) = o' at htask ⊢
        cases htask with
        | none => exact .none
        | @some r r' h =>
          simp only [Option.map_some, h.error, h.toSimilarRun.lastContext]
          rcases herror : r.error with - | e
          · rcases hlast : r.lastContext with - | result
            · exact absurd hlast (h.concludes herror)
            · have hstate : Similar True r.state.pop r'.state.pop :=
                h.state.pop.mono fun _ => .inr (h.concludes herror)
              have hloop := ih (hd.behind henv map map' name pos (h.noJump_last hlast) hstate)
              exact rel_map hloop fun _ _ hrun => hrun.after h herror
          · rw [h.state.position]
            exact .some ⟨h.events, rfl, h.state, h.noJump, by simp⟩

/-- The entries of the map are tasks of the list. -/
theorem mem_of_mem_taskMap (he : e ∈ taskMap tasks) : (e.1, e.2.2) ∈ tasks := by
  have hinsert : ∀ {m : TaskMap} {key : String} {value : ℕ × Task},
      e ∈ IndexMap.insert m key value → e ∈ m ∨ e = (key, value) := by
    intro m key value
    induction m with
    | nil => exact fun h => .inr (mem_singleton.1 h)
    | cons kv rest ih =>
      rw [IndexMap.insert]
      split_ifs with hkey
      · intro h
        rcases mem_cons.1 h with rfl | h
        · exact .inr (by rw [hkey])
        · exact .inl (mem_cons_of_mem _ h)
      · intro h
        rcases mem_cons.1 h with rfl | h
        · exact .inl mem_cons_self
        · exact (ih h).imp_left (mem_cons_of_mem _)
  have hfold : ∀ (l : List ((String × Task) × ℕ)) (m : TaskMap),
      e ∈ l.foldl (fun m t => IndexMap.insert m t.1.1 (t.2, t.1.2)) m →
      e ∈ m ∨ (e.1, e.2.2) ∈ l.map (·.1) := by
    intro l
    induction l with
    | nil => exact fun m h => .inl h
    | cons t rest ih =>
      intro m h
      rcases ih _ h with h | h
      · rcases hinsert h with h | rfl
        · exact .inl h
        · exact .inr (by simp)
      · exact .inr (mem_cons_of_mem _ h)
  rcases hfold tasks.zipIdx [] he with h | h
  · cases h
  · simpa using h

theorem start_similar (htasks : ∀ t ∈ tasks, PureTask t.2)
    (hc : c'.output = c.output) (h : Similar P s s') :
    SimilarLoop P none none (.start (taskMap tasks) c (s.push "do"))
      (.start (taskMap tasks) c' (s'.push "do")) := by
  refine ⟨rfl, rfl, hc, h.push "do", ?_⟩
  intro e he
  have hmem : e ∈ taskMap tasks := he.elim mem_of_mem_head? mem_of_mem_tail
  exact ⟨htasks _ (mem_of_mem_taskMap hmem), rfl, rfl⟩

theorem executeDo_similar (henv : Reproducible env) (hexec : SimilarExec exec) (fuel : ℕ)
    (htasks : ∀ t ∈ tasks, PureTask t.2) (hc : c'.output = c.output) (h : Similar P s s') :
    Option.Rel (SimilarRun P) (executeDo env exec fuel tasks c s)
      (executeDo env exec fuel tasks c' s') := by
  unfold executeDo
  dsimp only
  rw [resumeFrom_eq_none h.started, resumeFrom_eq_none h.started']
  exact doLoop_similar henv hexec _ _ (start_similar htasks hc h) fuel

end Lists

/-! ### Tasks -/

section Tasks

variable {fuel : ℕ} {name : String} {task : Task} {parent : TaskContext} {s1 : State}

/-- A task without an `if`, with the context it is given: it takes its input and
runs. -/
def runTask (env : Env) (fuel : ℕ) (name : String) (task : Task) (c : TaskContext) (s : State) :
    Option Run :=
  match (updateContextByInput env task.settings (expression env s c) c).eval s with
  | (.error e, s) => some (.ofError e s)
  | (.ok c, s) =>
    (executeTask env (executeList env fuel) fuel name task c s).map
      (.finish env (.started task.kind name s.position) s.position)

variable {settings : Settings}

theorem prepare_of_recover (hif : settings.if_ = none)
    (hrecover : (recover env name c).eval s = (.ok (some c'), s1)) :
    (prepare env name settings c).eval s =
      (Prepared.run <$> updateContextByInput env settings (expression env s1 c') c').eval s1 := by
  unfold prepare
  simp only [eval_bind, hrecover, eval_get, hif, eval_pure]
  rfl

theorem execute_of_recover (hif : task.settings.if_ = none)
    (hrecover : (recover env name (.new parent.output)).eval (s.push name) = (.ok (some c), s1)) :
    execute env (fuel + 1) name task parent s = runTask env fuel name task c s1 := by
  show executeWith env (executeList env fuel) fuel name task parent s = _
  rw [executeWith, prepare_of_recover hif hrecover, runTask, map_eq_pure_bind, eval_bind]
  rcases (updateContextByInput env task.settings (expression env s1 c) c).eval s1 with ⟨e | c1, s2⟩
  · rfl
  · rfl

/-- A task of a workflow that is not on the way to a checkpoint. -/
theorem recover_started (name : String) (c : TaskContext)
    (hs : s.workflow.checkpointPosition = none) :
    (recover env name c).eval s = (.ok (some c), s) := by
  unfold recover
  simp only [eval_bind, eval_get, hs, eval_pure]

theorem PureTask.if_ (h : PureTask task) : task.settings.if_ = none := by
  cases h with
  | set hif => exact hif
  | do_ hif => exact hif

/-- The output settings of a set task do not jump. -/
theorem noJump_of_settings (hthen : ∀ text, settings.then_ ≠ some (.variant1 text))
    (h : (x >>= updateContextByOutput env settings).eval s = (.ok c, s1)) : c.NoJump := by
  obtain ⟨c2, s2, -, hsettings⟩ := eval_bind_eq_ok.1 h
  have hdirective := (updateContextByOutput_ok hsettings).directive
  rw [ownDirective] at hdirective
  intro target htarget
  rw [htarget] at hdirective
  rcases hown : settings.then_ with - | (directive | text)
  · rw [hown] at hdirective
    cases hdirective
  · rw [hown] at hdirective
    cases directive with
    | continue_ | exit | end_ | wait => cases hdirective
  · exact hthen text hown

theorem runTask_similar (henv : Reproducible env) (hexec : SimilarExec (execute env fuel))
    (hpure : PureTask task) (hc : SameValues c c') (h : Similar P s s') :
    Option.Rel (SimilarTask P) (runTask env fuel name task c s)
      (runTask env fuel name task c' s') := by
  have hinput : SameEnd P SameValues
      ((updateContextByInput env task.settings (expression env s c) c).eval s)
      ((updateContextByInput env task.settings (expression env s c) c').eval s') :=
    updateContextByInput_similar task.settings _ h hc
  unfold runTask
  rw [expression_similar henv h hc]
  obtain ⟨c1, c1', s1, s1', heval, heval', hc1, hs1⟩ | ⟨e, s1, s1', heval, heval', hs1⟩ :=
    hinput.cases
  · rw [heval, heval']
    dsimp only
    rw [hs1.position]
    have hbody : Option.Rel (SimilarRun P)
        (executeTask env (executeList env fuel) fuel name task c1 s1)
        (executeTask env (executeList env fuel) fuel name task c1' s1') := by
      cases hpure with
      | set hif hthen =>
        refine .some (single_similar ?_ fun c s h => noJump_of_settings hthen h)
        refine SameEnd.bind (executeSet_similar henv _ hs1 hc1) ?_
        intro c2 c2' s2 s2' hc2 hs2
        exact updateContextByOutput_similar henv _ hs2 hc2
      | do_ hif htasks => exact executeDo_similar henv hexec fuel htasks hc1.output hs1
    exact rel_map hbody fun _ _ hrun => hrun.finish env task.kind name s1.position
  · rw [heval, heval']
    exact .some (ofError_similar e hs1)

/-- **Similar states give similar streams of do and set tasks.** -/
theorem execute_similar (henv : Reproducible env) (fuel : ℕ) : SimilarExec (execute env fuel) := by
  induction fuel with
  | zero =>
    intro P name task _ prev prev' s s' _ _
    exact .none
  | succ fuel ih =>
    intro P name task hpure prev prev' s s' hprev h
    rw [execute_of_recover hpure.if_ (recover_started name _ h.started),
      execute_of_recover hpure.if_ (recover_started name _ h.started'), hprev]
    exact runTask_similar henv ih hpure (.refl _) (h.push name)

end Tasks

end Jobworkerp.Workflow
