/-
Jobworkerp/Workflow/ResumeRun.lean

The run that resumes behind a wait directive, compared with the run in which the
wait is a `continue` (`load_checkpoint` of `task.rs`, `stream/do.rs`).

The checkpoint of a wait holds the input and the output of the task that waits.
The task behind it is started with that input as its own, where the straight run
gives it the output.  The do tasks around it are started once more, with the
input of the workflow.

* `rootResumable_of_reaches`: a root task of do and set tasks goes on as the straight run
  does if the task that waits has its input as its output, and the do tasks
  around it accept the input of the workflow.
-/
import Jobworkerp.Workflow.Checkpoints

namespace Jobworkerp.Workflow

open List Option

open Text (Json)
open TaskM

/-! ### The way to the next task -/

/-- The way to the task behind the one that waits: both stand in the list, or in
the list of a do task. -/
inductive ResumePath
  | here (before : TaskList) (name : String) (task : WaitTask) (next : String × Task)
      (after : TaskList)
  | inDo (before : TaskList) (name : String) (settings : Settings) (inner : ResumePath)
      (after : TaskList)

namespace ResumePath

/-- The outermost list, where the task has a directive. -/
def list (directive : FlowDirectiveEnum) : ResumePath → TaskList
  | here before name task next after =>
    before ++ (name, task.task directive) :: next :: after
  | inDo before name settings inner after =>
    before ++ (name, .do_ settings (inner.list directive)) :: after

/-- No task has an `if`, none jumps, and the names in a list differ. -/
def Wf : ResumePath → Prop
  | here before name task next after =>
    (∀ t ∈ before ++ next :: after, PureTask t.2) ∧ task.Wf ∧
      (before.map Prod.fst ++ name :: (next :: after).map Prod.fst).Nodup
  | inDo before name settings inner after =>
    (∀ t ∈ before ++ after, PureTask t.2) ∧ settings.if_ = none ∧ inner.Wf ∧
      (before.map Prod.fst ++ name :: after.map Prod.fst).Nodup

/-- The task behind. -/
def next : ResumePath → String × Task
  | here _ _ _ next _ => next
  | inDo _ _ _ inner _ => inner.next

/-- The position of the task behind; the outermost list is at `p`. -/
def resumeAt : Position → ResumePath → Position
  | p, here before _ _ next _ => (p.pushIdx (before.length + 1)).push next.1
  | p, inDo before name _ inner _ =>
    inner.resumeAt (((p.pushIdx before.length).push name).push "do")

/-- The lists of the path are executed as far as to the directive. -/
def Reaches (env : Env) : ResumePath → ℕ → TaskContext → State → Prop
  | here before name task _ _, fuel, c, s =>
    before.length + 2 ≤ fuel ∧ ∃ events c' s',
      passes (execute env fuel) 0 before c (s.push "do") = some (events, c', s') ∧
      s'.workflow.status = .running ∧ task.Reaches env fuel name c' (s'.pushIdx before.length)
  | inDo .., 0, _, _ => False
  | inDo before name settings inner _, fuel + 1, c, s =>
    before.length + 2 ≤ fuel + 1 ∧ ∃ events c' s' c'',
      passes (execute env (fuel + 1)) 0 before c (s.push "do") = some (events, c', s') ∧
      s'.workflow.status = .running ∧
      (updateContextByInput env settings
        (expression env ((s'.pushIdx before.length).push name) (.new c'.output))
        (.new c'.output)).eval ((s'.pushIdx before.length).push name) =
        (.ok c'', (s'.pushIdx before.length).push name) ∧
      inner.Reaches env fuel c'' ((s'.pushIdx before.length).push name)

/-- When the lists are started once more, the do tasks around the next task can
take their input again. -/
def Opens (env : Env) : ResumePath → TaskContext → State → Prop
  | here .., _, _ => True
  | inDo before name settings inner _, c, s =>
    ∃ c', (updateContextByInput env settings
        (expression env (((s.push "do").pushIdx before.length).push name) (.new c.output))
        (.new c.output)).eval (((s.push "do").pushIdx before.length).push name) =
        (.ok c', ((s.push "do").pushIdx before.length).push name) ∧
      inner.Opens env c' (((s.push "do").pushIdx before.length).push name)

/-- The list is executed. -/
abbrev Runs (env : Env) (fuel : ℕ) (path : ResumePath) (directive : FlowDirectiveEnum)
    (c : TaskContext) (s : State) (r : Run) : Prop :=
  executeDo env (execute env fuel) fuel (path.list directive) c s = some r

theorem names_nodup {path : ResumePath} (h : path.Wf) (directive : FlowDirectiveEnum) :
    ((path.list directive).map Prod.fst).Nodup := by
  cases path with
  | here before name task next after =>
    obtain ⟨-, -, hnames⟩ := h
    rwa [list, map_append, map_cons]
  | inDo before name settings inner after =>
    obtain ⟨-, -, -, hnames⟩ := h
    rwa [list, map_append, map_cons]

theorem resumeAt_below (path : ResumePath) (p : Position) :
    ∃ below, path.resumeAt p = p ++ below := by
  induction path generalizing p with
  | here before name task next after => exact ⟨[_, _], append_assoc ..⟩
  | inDo before name settings inner after ih =>
    obtain ⟨below, hbelow⟩ := ih (((p.pushIdx before.length).push name).push "do")
    refine ⟨.index before.length :: .name name :: .name "do" :: below, ?_⟩
    rw [resumeAt, hbelow]
    simp [Position.pushIdx, Position.push]

end ResumePath

/-- What the list of a path leaves when its task has waited: the position of the
next task, and the checkpoint for it. -/
structure Waited (q : Position) (cp : CheckPointContext) (s : State) (r : Run) : Prop where
  ok : r.error = none
  context : ∃ c, r.lastContext = some c ∧ c.flowDirective = .wait ∧ cp.task.input = c.input ∧
    cp.task.output = c.output
  status : r.state.workflow.status = .waiting
  resumePosition : r.state.workflow.resumePosition = some q
  position : r.state.position = s.position
  saved : ∃ rest, r.state.checkpoints = cp :: rest
  saved_position : cp.position = q

/-- A state from which the workflow is run again: at the place of the state `s`,
with a checkpoint to load. -/
structure Resuming (q : Position) (cp : CheckPointContext) (s s' : State) : Prop where
  place : SamePlace s s'
  running : s'.workflow.status = .running
  pending : s'.workflow.checkpointPosition = some q
  saved : ∃ rest, s'.checkpoints = cp :: rest

variable {q : Position} {cp : CheckPointContext} {s s' : State} {env : Env} {fuel : ℕ}
  {c : TaskContext} {name : String} {before after : TaskList} {g : ℕ} {r₁ r₃ : Run}
  {c₂ : TaskContext} {s₂ : State} {settings : Settings}

theorem Resuming.push
    (h : Resuming q cp s s') (name : String) : Resuming q cp (s.push name) (s'.push name) :=
  { h with place := ⟨congrArg (Position.push · name) h.place.position, h.place.name⟩ }

theorem Resuming.pushIdx
    (h : Resuming q cp s s') (index : ℕ) : Resuming q cp (s.pushIdx index) (s'.pushIdx index) :=
  { h with place := ⟨congrArg (Position.pushIdx · index) h.place.position, h.place.name⟩ }

theorem Resuming.congr (h : Resuming q cp s s') (hplace : SamePlace s s1) : Resuming q cp s1 s' :=
  { h with place :=
      ⟨h.place.position.trans hplace.position.symm, h.place.name.trans hplace.name.symm⟩ }

/-- The resumed list `r₂` is the rest of the straight list `r₃`, behind what the
waiting list `r₁` has executed. -/
def GoesOn (r₁ r₂ r₃ : Run) : Prop :=
  ∃ pre₃ pre₂ rest, SameRest pre₃ pre₂ rest r₃ r₂ ∧ trace pre₃ = trace r₁.events ∧ trace pre₂ = []

/-- Behind the tasks of `pre` the next one to complete is `name`, which was given
this input. -/
def Begins (pre : List (String × Json × Json × Json)) (name : String) (input : Json) (r : Run) :
    Prop :=
  ∃ values rest, trace r.events = pre ++ (name, input, values) :: rest

/-- The list of a path has waited as `r₁`, with the checkpoint `cp`; what the
straight list and a resumed list do then. -/
structure Resumable (env : Env) (fuel : ℕ) (path : ResumePath) (c : TaskContext) (s : State)
    (r₁ : Run) (cp : CheckPointContext) : Prop where
  waiting : executeDo env (execute env fuel) fuel (path.list .wait) c s = some r₁
  waited : Waited (path.resumeAt (s.push "do").position) cp s r₁
  goesOn : ∀ {r₃ c₂ s₂},
    executeDo env (execute env fuel) fuel (path.list .continue_) c s = some r₃ →
    Resuming (path.resumeAt (s.push "do").position) cp s s₂ → path.Opens env c₂ s₂ →
    cp.task.input = cp.task.output →
    ∃ r₂, executeDo env (execute env fuel) fuel (path.list .wait) c₂ s₂ = some r₂ ∧
      GoesOn r₁ r₂ r₃
  straight : path.next.2.kind = .set → ∀ {r₃},
    executeDo env (execute env fuel) fuel (path.list .continue_) c s = some r₃ → r₃.error = none →
    Begins (trace r₁.events) path.next.1 cp.task.output r₃
  resumed : ∀ {r₂ c₂ s₂}, Resuming (path.resumeAt (s.push "do").position) cp s s₂ →
    executeDo env (execute env fuel) fuel (path.list .wait) c₂ s₂ = some r₂ → r₂.error = none →
    path.Opens env c₂ s₂ ∧
      (path.next.2.kind = .set → Begins [] path.next.1 cp.task.input r₂)

theorem rel_some_left (h : Option.Rel R (some a) o) : ∃ b, o = some b ∧ R a b := by
  cases h with
  | some h => exact ⟨_, rfl, h⟩

open ResumePath (here inDo)

section Paths

/-- The checkpoint holds the variables of the state `s` and the output of the
context `c`. -/
structure CheckPointContext.Holds (cp : CheckPointContext) (c : TaskContext) (s : State) :
    Prop where
  input : cp.workflow.input = s.workflow.input
  contextVariables : cp.workflow.contextVariables = s.workflow.contextVariables
  taskVariables : cp.task.contextVariables = s.taskVariables
  output : cp.task.output = c.output

variable {task : Task}

/-- The task at the checkpoint is started with the checkpoint's context. -/
theorem execute_resumed (henv : Reproducible env) (hsaving : env.checkpointing = true)
    (hif : task.settings.if_ = none) (hresuming : Resuming q cp s s')
    (hq : s.position.push name = q) (hposition : cp.position = q) :
    execute env (fuel + 1) name task c' s' =
      runTask env fuel name task (.newFromCp cp.task) ((s'.push name).loaded cp) := by
  have hnamed := hresuming.push name
  have hplace : (s'.push name).position = q := hnamed.place.position.trans hq
  obtain ⟨rest, hsaved⟩ := hnamed.saved
  have hpending : (s'.push name).workflow.checkpointPosition = some (s'.push name).position :=
    hnamed.pending.trans (congrArg some hplace.symm)
  exact execute_of_recover hif
    (recover_at henv hsaving hpending (hposition.trans hplace.symm) hsaved)

/-- With its input as its output, the checkpoint starts the next task as the
straight run does. -/
theorem resumed_similar (henv : Reproducible env) (hsaving : env.checkpointing = true) (fuel : ℕ)
    (hpure : PureTask task) (c' : TaskContext) (hs : s.workflow.checkpointPosition = none)
    (hrunning : s.workflow.status = .running) (hresuming : Resuming q cp s s')
    (hq : s.position.push name = q) (hposition : cp.position = q) (hcp : cp.Holds c s)
    (hsame : cp.task.input = cp.task.output) :
    Option.Rel (SimilarTask False) (execute env fuel name task c s)
      (execute env fuel name task c' s') := by
  cases fuel with
  | zero => exact .none
  | succ fuel =>
    have hnamed := hresuming.push name
    have hvalues : SameValues (.new c.output) (.newFromCp cp.task) :=
      ⟨hsame.trans hcp.output, hsame.trans hcp.output, hcp.output, hcp.output⟩
    have hstate : Similar False (s.push name) ((s'.push name).loaded cp) :=
      { name := hnamed.place.name
        input := hcp.input
        contextVariables := hcp.contextVariables
        status := hnamed.running.trans hrunning.symm
        resume := fun hwaiting => by
          rw [show (s.push name).workflow = s.workflow from rfl, hrunning] at hwaiting
          cases hwaiting
        started := hs
        started' := rfl
        taskVariables := hcp.taskVariables
        position := hnamed.place.position
        output := False.elim }
    rw [execute_of_recover hpure.if_ (recover_started name _ hs),
      execute_resumed henv hsaving hpure.if_ hresuming hq hposition]
    exact runTask_similar henv (execute_similar henv fuel) hpure hvalues hstate

/-- The list in which the next task stands, and what the waiting list `r₁` and the
straight list hand on to it. -/
structure Handover (env : Env) (fuel g : ℕ) (before : TaskList) (name : String) (task : WaitTask)
    (next : String × Task) (after : TaskList) (c : TaskContext) (s : State) (r₁ : Run)
    (cp : CheckPointContext) (c₃ : TaskContext) (s₃ : State) (pre : List Event) : Prop where
  fuel_eq : fuel = before.length + 1 + (g + 1)
  waiting : executeDo env (execute env fuel) fuel
    ((here before name task next after).list .wait) c s = some r₁
  waited : Waited ((here before name task next after).resumeAt (s.push "do").position)
    cp s r₁
  straight : executeDo env (execute env fuel) fuel
      ((here before name task next after).list .continue_) c s =
    ((execute env fuel next.1 next.2 c₃ (s₃.pushIdx (before.length + 1))).bind
      (loopBehind env (execute env fuel)
        ((here before name task next after).list .continue_) none g next.1
        (before.length + 1))).map (Run.after pre)
  trace_eq : trace pre = trace r₁.events
  place : SamePlace (s.push "do") s₃
  started : s₃.workflow.checkpointPosition = none
  running : s₃.workflow.status = .running
  holds : cp.Holds c₃ s₃

section Here

variable {task : WaitTask} {next : String × Task}

theorem next_getElem? (directive : FlowDirectiveEnum) :
    ((here before name task next after).list directive)[before.length + 1]? =
      some (next.1, next.2) := by
  simp [ResumePath.list]

theorem handover_of_reaches (henv : Reproducible env) (hsaving : env.checkpointing = true)
    (hwf : (here before name task next after).Wf) (hs : s.workflow.checkpointPosition = none)
    (hreach : (here before name task next after).Reaches env fuel c s) :
    ∃ g r₁ cp c₃ s₃ pre, Handover env fuel g before name task next after c s r₁ cp c₃ s₃ pre := by
  have hnames := ResumePath.names_nodup hwf
  obtain ⟨hpure, htaskWf, -⟩ := hwf
  obtain ⟨hfuel, events, c', s', hpasses, hrunning, htask⟩ := hreach
  obtain ⟨hplace, hs'⟩ := passes_place (execute_similar henv fuel) (execute_place henv fuel)
    (fun t ht => hpure t (mem_append_left _ ht)) (s := s.push "do") hs hpasses
  obtain ⟨t1, t3, ht1, ht3, hparted⟩ := parted_of_reaches henv (s := s'.pushIdx before.length)
    htaskWf hs' hrunning (by simp [State.pushIdx, Position.pushIdx]) htask
  obtain ⟨c1, c₃, hc1, hc3, hvalues, hwait, hcontinue⟩ := hparted.contexts
  obtain ⟨g, hg⟩ : ∃ g, fuel = before.length + (g + 1 + 1) := ⟨fuel - before.length - 2, by omega⟩
  have hlist1 := executeDo_wait env (hnames .wait) rfl hs hpasses hrunning ht1 hparted.ok₁ hc1 hg
    hwait
  have hlist3 := executeDo_continue env (hnames .continue_) rfl hs hpasses hrunning ht3
    hparted.ok₃ hc3 hg hcontinue
  have hplace1 := execute_place henv fuel name _ (WaitTask.pureTask htaskWf .wait) c'
    (s'.pushIdx before.length) t1 hs' ht1 hparted.ok₁
  have hplace3 := execute_place henv fuel name _ (WaitTask.pureTask htaskWf .continue_) c'
    (s'.pushIdx before.length) t3 hs' ht3 hparted.ok₃
  have hs3 : t3.state.pop.workflow.checkpointPosition = none :=
    (similarTask_refl (execute_similar henv fuel) (WaitTask.pureTask htaskWf .continue_)
      (s := s'.pushIdx before.length) hs' ht3).state.started
  have hrunning3 : t3.state.pop.workflow.status = .running := hparted.running
  have hback1 : SamePlace (s.push "do") t1.state.pop :=
    (hplace.trans (pop_pushIdx s' before.length)).trans hplace1.pop
  have hback3 : SamePlace (s.push "do") t3.state.pop :=
    (hplace.trans (pop_pushIdx s' before.length)).trans hplace3.pop
  have hentry : entryAt (before ++ (name, task.task .wait) :: next :: after) (before.length + 1) =
      some (next.1, before.length + 1, next.2) := by
    simp [entryAt]
  rw [ResumePath.list, hentry, suspend_next henv hsaving (hparted.openAt hplace1)
    (congrArg (fun p : Position => (p.pushIdx (before.length + 1)).push next.1)
      hback1.position.symm)] at hlist1
  rw [loopFrom_task (hnames .continue_) (next_getElem? .continue_) rfl hrunning3] at hlist3
  refine ⟨g, _, .newWithPosition t1.state.pop c1
    (((s.push "do").position.pushIdx (before.length + 1)).push next.1), c₃, t3.state.pop,
    events ++ t3.events, by omega, hlist1, ?_, hlist3, ?_, hback3, hs3, hrunning3, ?_⟩
  · exact ⟨rfl, ⟨c1, lastContextOf_append_some events hc1, hwait, rfl, rfl⟩, rfl, rfl,
      ((pop_push s "do").trans hback1.pop).position, ⟨_, rfl⟩, rfl⟩
  · rw [trace_append, trace_append, hparted.trace_eq]
  · exact ⟨hparted.sameVariables.input, hparted.sameVariables.contextVariables,
      hparted.sameVariables.taskVariables, hvalues.output⟩

namespace Handover

variable {c₃ : TaskContext} {s₃ : State} {pre : List Event}
  (h : Handover env fuel g before name task next after c s r₁ cp c₃ s₃ pre)
  (hwf : (here before name task next after).Wf) (hsaving : env.checkpointing = true)
  (hresuming : Resuming ((here before name task next after).resumeAt (s.push "do").position) cp s s₂)
  (henv : Reproducible env)

include h

theorem resumeAt_eq : (s₃.pushIdx (before.length + 1)).position.push next.1 =
      (here before name task next after).resumeAt (s.push "do").position :=
  congrArg (fun p : Position => (p.pushIdx (before.length + 1)).push next.1) h.place.position

theorem resuming (hresuming : Resuming q cp s s₂) :
    Resuming q cp (s₃.pushIdx (before.length + 1))
      ((s₂.push "do").pushIdx (before.length + 1)) :=
  ((hresuming.push "do").congr h.place).pushIdx (before.length + 1)

include hwf

theorem straight_begins (hset : next.2.kind = .set)
    (hr3 : (here before name task next after).Runs env fuel .continue_ c s r₃)
    (hok : r₃.error = none) : Begins (trace r₁.events) next.1 cp.task.output r₃ := by
  have hnext : PureTask next.2 := hwf.1 next (by simp)
  rw [ResumePath.Runs, h.straight] at hr3
  obtain ⟨R3, hR3, rfl⟩ := map_eq_some_iff.1 hr3
  obtain ⟨n3, hn3, hbehind3⟩ := bind_eq_some_iff.1 hR3
  obtain ⟨hn3ok, tail, htail⟩ := loopBehind_ok hbehind3 hok
  obtain ⟨f, rfl⟩ : ∃ f, fuel = f + 1 := ⟨before.length + 1 + g, h.fuel_eq⟩
  rw [execute_of_recover hnext.if_ (recover_started
    (s := (s₃.pushIdx (before.length + 1)).push next.1) next.1 _ h.started)] at hn3
  obtain ⟨values, hvalues⟩ := runTask_set_trace hset hn3 hn3ok
  refine ⟨values, trace tail, ?_⟩
  rw [Run.after_events, trace_append, h.trace_eq, htail, trace_append, hvalues, h.holds.output]
  rfl

include hsaving hresuming

theorem resumed (c₂ : TaskContext) :
    executeDo env (execute env fuel) fuel
        ((here before name task next after).list .wait) c₂ s₂ =
      (execute env fuel next.1 next.2 c₂ ((s₂.push "do").pushIdx (before.length + 1))).bind
        (loopBehind env (execute env fuel)
          ((here before name task next after).list .wait) (some (before.length + 1)) g
          next.1 (before.length + 1)) := by
  have hpending : s₂.workflow.checkpointPosition =
      some ((s₂.push "do").position ++ .index (before.length + 1) :: .name next.1 :: []) := by
    rw [hresuming.pending, (hresuming.push "do").place.position]
    simp [ResumePath.resumeAt, Position.pushIdx, Position.push]
  exact executeDo_resumed hsaving (ResumePath.names_nodup hwf .wait) h.fuel_eq
    (next_getElem? .wait) hpending hresuming.running

include henv

theorem goesOn (hsame : cp.task.input = cp.task.output)
    (hr3 : (here before name task next after).Runs env fuel .continue_ c s r₃) :
    ∃ r₂, (here before name task next after).Runs env fuel .wait c₂ s₂ r₂ ∧
      GoesOn r₁ r₂ r₃ := by
  have hnames := ResumePath.names_nodup hwf
  have hpure := hwf.1
  rw [ResumePath.Runs, h.straight] at hr3
  obtain ⟨R3, hR3, rfl⟩ := map_eq_some_iff.1 hr3
  obtain ⟨n3, hn3, hbehind3⟩ := bind_eq_some_iff.1 hR3
  have hsimilar := resumed_similar henv hsaving fuel (hpure next (by simp)) c₂
    (s := s₃.pushIdx (before.length + 1)) h.started h.running (h.resuming hresuming) h.resumeAt_eq
    h.waited.saved_position ⟨h.holds.input, h.holds.contextVariables, h.holds.taskVariables,
      h.holds.output⟩ hsame
  rw [hn3] at hsimilar
  obtain ⟨n2, hn2, hrest⟩ := rel_some_left hsimilar
  have hafter : ∀ directive, ((here before name task next after).list
      directive).drop (before.length + 1 + 1) = after :=
    fun directive => drop_behind before _ (next :: after) 1
  have hafterPure : ∀ t ∈ ((here before name task next after).list
      .continue_).drop (before.length + 1 + 1), PureTask t.2 := by
    rw [hafter]
    exact fun t ht => hpure t (by simp [ht])
  obtain ⟨R2, tail, hbehind2, hrest⟩ := (SameRest.of_similarTask hrest).loopBehind henv
    (execute_similar henv fuel) (hnames .continue_) (hnames .wait)
    ((hafter .wait).trans (hafter .continue_).symm) hafterPure (any_lt_eq_false _) hbehind3
  refine ⟨R2, ?_, _, _, _, hrest.after pre [], ?_, rfl⟩
  · rw [ResumePath.Runs, h.resumed hwf hsaving hresuming, hn2]
    exact hbehind2
  · rw [append_nil, h.trace_eq]

theorem resumed_begins (hset : next.2.kind = .set)
    (hr2 : (here before name task next after).Runs env fuel .wait c₂ s₂ r₂) (hok : r₂.error = none) :
    Begins [] next.1 cp.task.input r₂ := by
  have hnext : PureTask next.2 := hwf.1 next (by simp)
  rw [ResumePath.Runs, h.resumed hwf hsaving hresuming] at hr2
  obtain ⟨n2, hn2, hbehind2⟩ := bind_eq_some_iff.1 hr2
  obtain ⟨hn2ok, tail, htail⟩ := loopBehind_ok hbehind2 hok
  obtain ⟨f, rfl⟩ : ∃ f, fuel = f + 1 := ⟨before.length + 1 + g, h.fuel_eq⟩
  rw [execute_resumed henv hsaving hnext.if_ (h.resuming hresuming) h.resumeAt_eq
    h.waited.saved_position] at hn2
  obtain ⟨values, hvalues⟩ := runTask_set_trace hset hn2 hn2ok
  refine ⟨values, trace tail, ?_⟩
  rw [htail, trace_append, hvalues]
  rfl

end Handover

theorem resumable_here (henv : Reproducible env) (hsaving : env.checkpointing = true)
    (hwf : (here before name task next after).Wf) (hs : s.workflow.checkpointPosition = none)
    (hreach : (here before name task next after).Reaches env fuel c s) :
    ∃ r₁ cp, Resumable env fuel (.here before name task next after) c s r₁ cp := by
  obtain ⟨g, r₁, cp, c₃, s₃, pre, h⟩ := handover_of_reaches henv hsaving hwf hs hreach
  exact ⟨r₁, cp, h.waiting, h.waited,
    fun hr3 hresuming _ hsame => h.goesOn hwf hsaving hresuming henv hsame hr3,
    fun hset _ hr3 hok => h.straight_begins hwf hset hr3 hok,
    fun hresuming hr2 hok =>
      ⟨trivial, fun hset => h.resumed_begins hwf hsaving hresuming henv hset hr2 hok⟩⟩

end Here

/-- The list around a do task of the path, which is executed as far as to that
task: `s'` is the state of the list then, and `c''` what the task has taken as
its input. -/
structure Enclosing (env : Env) (fuel g : ℕ) (before : TaskList) (name : String)
    (settings : Settings) (inner : ResumePath) (c : TaskContext) (s : State) (events : List Event)
    (c' : TaskContext) (s' : State) (c'' : TaskContext) : Prop where
  fuel_eq : fuel + 1 = before.length + (g + 1 + 1)
  passed : passes (execute env (fuel + 1)) 0 before c (s.push "do") = some (events, c', s')
  running : s'.workflow.status = .running
  place : SamePlace (s.push "do") s'
  starts : ∀ directive, Starts env name (.do_ settings (inner.list directive)) c'
    (s'.pushIdx before.length) c'' ((s'.pushIdx before.length).push name)

section Around

variable {inner : ResumePath}

theorem task_getElem? (directive : FlowDirectiveEnum) :
    ((inDo before name settings inner after).list directive)[before.length]? =
      some (name, .do_ settings (inner.list directive)) := by
  simp [ResumePath.list]

theorem resumeAt_inDo (p : Position) : ∃ below,
    (inDo before name settings inner after).resumeAt p =
      (p.pushIdx before.length).push name ++ .name "do" :: below := by
  obtain ⟨below, hbelow⟩ := inner.resumeAt_below (((p.pushIdx before.length).push name).push "do")
  exact ⟨below, hbelow.trans (by simp [Position.push])⟩

namespace Enclosing

variable {events : List Event} {c' c'' : TaskContext} {b1 : Run}
  (hresuming : Resuming ((inDo before name settings inner after).resumeAt (s.push "do").position) cp s s₂)
  (h : Enclosing env fuel g before name settings inner c s events c' s' c'')
  (hwf : (inDo before name settings inner after).Wf)
  (hs : s.workflow.checkpointPosition = none)
  (hinner : Resumable env fuel inner c'' ((s'.pushIdx before.length).push name) b1 cp)
  (htrace : trace r₁.events = trace events ++ trace b1.events)

include hresuming

theorem pending_inDo : ∃ below, s₂.workflow.checkpointPosition = some
    (((s₂.push "do").position.pushIdx before.length).push name ++ .name "do" :: below) := by
  obtain ⟨below, hbelow⟩ : ∃ below, (inDo before name settings inner after).resumeAt _ = _ :=
    resumeAt_inDo (s.push "do").position
  exact ⟨below, by rw [hresuming.pending, hbelow, (hresuming.push "do").place.position]⟩

/-- The do task runs with its own input then. -/
theorem recovers (c₂ : TaskContext) :
    (recover env name c₂).eval (((s₂.push "do").pushIdx before.length).push name) =
      (.ok (some c₂), ((s₂.push "do").pushIdx before.length).push name) := by
  obtain ⟨below, hpending⟩ := pending_inDo hresuming
  refine recover_around (cons_ne_nil (.name "do") below) ?_
  exact hpending

omit hresuming

include h

theorem resumeAt_eq (after : TaskList) :
    inner.resumeAt (((s'.pushIdx before.length).push name).push "do").position =
      (inDo before name settings inner after).resumeAt (s.push "do").position :=
  congrArg (fun p : Position =>
    inner.resumeAt (((p.pushIdx before.length).push name).push "do")) h.place.position

theorem resuming (hresuming : Resuming q cp s s₂) :
    Resuming q cp ((s'.pushIdx before.length).push name)
      (((s₂.push "do").pushIdx before.length).push name) :=
  (((hresuming.push "do").congr h.place).pushIdx before.length).push name

include hwf hresuming

theorem resumed (hsaving : env.checkpointing = true) (c₂ : TaskContext) :
    executeDo env (execute env (fuel + 1)) (fuel + 1)
        ((inDo before name settings inner after).list .wait) c₂ s₂ =
      (execute env (fuel + 1) name (.do_ settings (inner.list .wait)) c₂
        ((s₂.push "do").pushIdx before.length)).bind
        (loopBehind env (execute env (fuel + 1))
          ((inDo before name settings inner after).list .wait) (some before.length)
          (g + 1) name before.length) := by
  obtain ⟨below, hpending⟩ := pending_inDo hresuming
  rw [Position.push, Position.pushIdx, append_assoc, append_assoc] at hpending
  exact executeDo_resumed hsaving (ResumePath.names_nodup hwf .wait) h.fuel_eq (task_getElem? .wait)
    hpending hresuming.running

include hinner

theorem resumed_begins (hsaving : env.checkpointing = true)
    (hr2 : (inDo before name settings inner after).Runs env (fuel + 1) .wait c₂ s₂ r₂)
    (hok : r₂.error = none) : (inDo before name settings inner after).Opens env c₂ s₂ ∧
      (inner.next.2.kind = .set → Begins [] inner.next.1 cp.task.input r₂) := by
  have hinside := h.resuming hresuming
  rw [← h.resumeAt_eq after] at hinside
  rw [ResumePath.Runs, h.resumed hresuming hwf hsaving] at hr2
  obtain ⟨d2, hd2, hbehind2⟩ := bind_eq_some_iff.1 hr2
  obtain ⟨hd2ok, tail, htail⟩ := loopBehind_ok hbehind2 hok
  have hif : (Task.do_ settings (inner.list .wait)).settings.if_ = none := hwf.2.1
  obtain ⟨c2', hinput2⟩ := input_of_ok hif (recovers hresuming _) hd2 hd2ok
  obtain ⟨b2, hb2, hb2ok, hevents2, -⟩ :=
    execute_ok (starts_of_input hif (recovers hresuming _) hinput2) hd2 hd2ok
  obtain ⟨hopens, hbegins⟩ := hinner.resumed hinside hb2 hb2ok
  refine ⟨⟨c2', hinput2, hopens⟩, fun hset => ?_⟩
  obtain ⟨values, rest, hb⟩ := hbegins hset
  refine ⟨values, rest ++ trace tail, ?_⟩
  rw [htail, trace_append, hevents2, trace_started, hb]
  simp

include hs htrace

theorem goesOn (henv : Reproducible env) (hsaving : env.checkpointing = true)
    (hopens : (inDo before name settings inner after).Opens env c₂ s₂)
    (hsame : cp.task.input = cp.task.output)
    (hr3 : (inDo before name settings inner after).Runs env (fuel + 1) .continue_ c s r₃) :
    ∃ r₂, (inDo before name settings inner after).Runs env (fuel + 1) .wait c₂ s₂ r₂ ∧
      GoesOn r₁ r₂ r₃ := by
  have hnames := ResumePath.names_nodup hwf
  have hpure := hwf.1
  obtain ⟨c2', hinput2, hopens⟩ := hopens
  rw [ResumePath.Runs, executeDo_at env (hnames .continue_) rfl hs h.passed h.running h.fuel_eq] at hr3
  obtain ⟨R3, hR3, rfl⟩ := map_eq_some_iff.1 hr3
  obtain ⟨d3, hd3, hbehind3⟩ := bind_eq_some_iff.1 hR3
  obtain ⟨b3, hb3, rfl⟩ := execute_body (h.starts .continue_) hd3
  have hinside := h.resuming hresuming
  rw [← h.resumeAt_eq after] at hinside
  obtain ⟨b2, hb2, pre₃, pre₂, rest, hrest, htrace3, htrace2⟩ :=
    hinner.goesOn hb3 hinside hopens hsame
  have hstarts2 : Starts env name (.do_ settings (inner.list .wait)) c₂
      ((s₂.push "do").pushIdx before.length) c2'
      (((s₂.push "do").pushIdx before.length).push name) :=
    starts_of_input hwf.2.1 (recovers hresuming _) hinput2
  have hd2 : execute env (fuel + 1) name (.do_ settings (inner.list .wait)) c₂
      ((s₂.push "do").pushIdx before.length) =
      some (b2.finish env (.started .do_ name ((s'.pushIdx before.length).push name).position)
        ((s'.pushIdx before.length).push name).position) := by
    rw [execute_of_starts hstarts2, hinside.place.position]
    show (executeDo env (execute env fuel) fuel (inner.list .wait) c2' _).map _ = _
    rw [hb2]
    rfl
  have hafter : ∀ directive, ((inDo before name settings inner after).list
      directive).drop (before.length + 1) = after :=
    fun directive => drop_behind before _ after 0
  have hafterPure : ∀ t ∈ ((inDo before name settings inner after).list
      .continue_).drop (before.length + 1), PureTask t.2 := by
    rw [hafter]
    exact fun t ht => hpure t (by simp [ht])
  obtain ⟨R2, tail, hbehind2, hrest⟩ := (hrest.finish env _ _).loopBehind henv
    (execute_similar henv _) (hnames .continue_) (hnames .wait)
    ((hafter .wait).trans (hafter .continue_).symm) hafterPure (any_lt_eq_false _) hbehind3
  refine ⟨R2, ?_, _, _, _, hrest.after events [], ?_, ?_⟩
  · rw [ResumePath.Runs, h.resumed hresuming hwf hsaving, hd2]
    exact hbehind2
  · rw [trace_append, trace_started, htrace3, htrace]
  · rw [nil_append, trace_started, htrace2]

omit hresuming

theorem straight_begins (hset : inner.next.2.kind = .set)
    (hr3 : (inDo before name settings inner after).Runs env (fuel + 1) .continue_ c s r₃)
    (hok : r₃.error = none) : Begins (trace r₁.events) inner.next.1 cp.task.output r₃ := by
  have hnames := ResumePath.names_nodup hwf .continue_
  rw [ResumePath.Runs, executeDo_at env hnames rfl hs h.passed h.running h.fuel_eq] at hr3
  obtain ⟨R3, hR3, rfl⟩ := map_eq_some_iff.1 hr3
  obtain ⟨d3, hd3, hbehind3⟩ := bind_eq_some_iff.1 hR3
  obtain ⟨hd3ok, tail, htail⟩ := loopBehind_ok hbehind3 hok
  obtain ⟨b3, hb3, hb3ok, hevents3, -⟩ := execute_ok (h.starts .continue_) hd3 hd3ok
  obtain ⟨values, rest, hbegins⟩ := hinner.straight hset hb3 hb3ok
  refine ⟨values, rest ++ trace tail, ?_⟩
  rw [Run.after_events, trace_append, htail, trace_append, hevents3, trace_started, hbegins, htrace]
  simp

omit htrace

/-- The wait has been handled inside the do task. -/
theorem waited :
    ∃ r₁, (inDo before name settings inner after).Runs env (fuel + 1) .wait c s r₁ ∧
      Waited ((inDo before name settings inner after).resumeAt (s.push "do").position)
        cp s r₁ ∧ trace r₁.events = trace events ++ trace b1.events := by
  have hwaited := hinner.waited
  rw [h.resumeAt_eq after] at hwaited
  obtain ⟨c1, hc1, hwait, hcpInput, hcpOutput⟩ := hwaited.context
  obtain ⟨d1, hd1, hok1, hevents1, hlast1, hstate1⟩ :=
    execute_do (h.starts .wait) hinner.waiting hwaited.ok hc1
  have hplace1 : d1.state.pop.position = (s.push "do").position := by
    rw [hstate1, State.pop, State.pop, hwaited.position, ← h.place.position]
    simp [State.push, State.pushIdx, Position.push, Position.pushIdx, Position.pop]
  obtain ⟨below, hbelow⟩ : ∃ below,
      (inDo before name settings inner after).resumeAt (s.push "do").position =
        (((s.push "do").position.pushIdx before.length).push name) ++ .name "do" :: below :=
    resumeAt_inDo _
  have hhandled : suspend env name before.length (entryAt ((inDo before name settings
      inner after).list .wait) (before.length + 1)) c1 d1.state.pop = d1.state.pop := by
    refine suspend_handled (q := .name "do" :: below) (by simp) ?_ ?_
    · rw [hstate1]
      exact hwaited.status
    · rw [hplace1, ← hbelow, hstate1]
      exact hwaited.resumePosition
  have hlist1 := executeDo_wait env (ResumePath.names_nodup hwf .wait) rfl hs h.passed
    h.running hd1 hok1 hlast1 h.fuel_eq hwait
  rw [hhandled] at hlist1
  have hworkflow : d1.state.pop.pop.workflow = b1.state.workflow := by
    rw [hstate1]
    rfl
  refine ⟨_, hlist1, ⟨rfl, ⟨c1, lastContextOf_append_some events hlast1, hwait, hcpInput,
    hcpOutput⟩, ?_, ?_, ?_, ?_, hwaited.saved_position⟩, ?_⟩
  · exact (congrArg WorkflowContext.status hworkflow).trans hwaited.status
  · exact (congrArg WorkflowContext.resumePosition hworkflow).trans hwaited.resumePosition
  · show d1.state.pop.position.pop = _
    rw [hplace1]
    exact dropLast_concat
  · show ∃ rest, d1.state.checkpoints = _
    rw [hstate1]
    exact hwaited.saved
  · rw [trace_append, hevents1, trace_started]

end Enclosing

theorem resumable_inDo (henv : Reproducible env) (hsaving : env.checkpointing = true)
    {c' c'' : TaskContext} (hwf : (inDo before name settings inner after).Wf)
    (hs : s.workflow.checkpointPosition = none)
    (h : Enclosing env fuel g before name settings inner c s events c' s' c'')
    (hinner : Resumable env fuel inner c'' ((s'.pushIdx before.length).push name) b1 cp) :
    ∃ r₁ cp, Resumable env (fuel + 1) (.inDo before name settings inner after) c s r₁ cp := by
  obtain ⟨r₁, hr1, hwaited, htrace⟩ := h.waited hwf hs hinner
  exact ⟨r₁, cp, hr1, hwaited,
    fun hr3 hresuming hopens hsame =>
      h.goesOn hresuming hwf hs hinner htrace henv hsaving hopens hsame hr3,
    fun hset _ hr3 hok => h.straight_begins hwf hs hinner htrace hset hr3 hok,
    fun hresuming hr2 hok => h.resumed_begins hresuming hwf hinner hsaving hr2 hok⟩

end Around

/-- The lists of a path, from the inside out. -/
theorem resumable_of_reaches (henv : Reproducible env) (hsaving : env.checkpointing = true)
    (hwf : path.Wf) (hs : s.workflow.checkpointPosition = none)
    (hreach : path.Reaches env fuel c s) : ∃ r₁ cp, Resumable env fuel path c s r₁ cp := by
  induction path generalizing fuel c s with
  | here before name task next after => exact resumable_here henv hsaving hwf hs hreach
  | inDo before name settings inner after ih =>
    cases fuel with
    | zero => exact hreach.elim
    | succ fuel =>
      obtain ⟨hfuel, events, c', s', c'', hpasses, hrunning, hinput, hinner⟩ := hreach
      obtain ⟨hplace, hs'⟩ := passes_place (execute_similar henv _) (execute_place henv _)
        (fun t ht => hwf.1 t (mem_append_left _ ht)) (s := s.push "do") hs hpasses
      have h : Enclosing env fuel (fuel + 1 - before.length - 2) before name settings inner c s
          events c' s' c'' :=
        ⟨by omega, hpasses, hrunning, hplace,
          fun directive => starts_of_input hwf.2.1 (recover_started name _ hs') hinput⟩
      obtain ⟨b1, cp, hb1⟩ := ih (s := (s'.pushIdx before.length).push name) hwf.2.2.1 hs' hinner
      exact resumable_inDo henv hsaving hwf hs h hb1

end Paths

/-! ### The root task -/

/-- The resumed run `r₂` is the straight run `r₃` behind the waiting run `r₁`: the
remaining tasks complete with the same inputs and outputs, none is executed
again, and the runs end alike. -/
structure SameRun (r₁ r₂ r₃ : Run) : Prop where
  trace_eq : trace r₃.events = trace r₁.events ++ trace r₂.events
  error : r₂.error = r₃.error
  contextVariables : r₂.state.workflow.contextVariables = r₃.state.workflow.contextVariables
  output : r₃.error = none → r₂.state.workflow.output = r₃.state.workflow.output

theorem SameRun.of_sameRest (h : SameRest pre₃ pre₂ rest r₃ r₂)
    (htrace3 : trace pre₃ = trace r₁.events) (htrace2 : trace pre₂ = []) : SameRun r₁ r₂ r₃ := by
  refine ⟨?_, h.error, h.state.contextVariables, fun hok => h.state.output (h.concludes hok)⟩
  rw [h.events, h.events', trace_append, trace_append, htrace3, htrace2, nil_append]

section Workflow

variable {path : ResumePath} {parent : TaskContext}

/-- A state in which the root task is started again behind the run `r` from the
state `s`. -/
structure StartedAgain (s : State) (r : Run) (s₂ : State) : Prop where
  place : SamePlace s s₂
  running : s₂.workflow.status = .running
  pending : s₂.workflow.checkpointPosition = some r.state.workflow.reportedPosition
  saved : s₂.checkpoints = r.state.checkpoints

/-- The root task has waited as `r₁` and goes straight on as `r₃`; what it does
when it is started again. -/
structure RootResumable (env : Env) (fuel : ℕ) (settings : Settings) (path : ResumePath)
    (s : State) (r₁ r₃ : Run) (x : TaskContext) : Prop where
  ok : r₁.error = none
  status : r₁.state.workflow.status = .waiting
  lastContext : r₁.lastContext = some x
  /-- The root task is around the checkpoint. -/
  recovers : ∀ {s₂ c₂}, StartedAgain s r₁ s₂ →
    (recover env "ROOT" c₂).eval (s₂.push "ROOT") = (.ok (some c₂), s₂.push "ROOT")
  goesOn : ∀ {s₂ parent₂ c₂}, StartedAgain s r₁ s₂ →
    Starts env "ROOT" (.do_ settings (path.list .wait)) parent₂ s₂ c₂ (s₂.push "ROOT") →
    path.Opens env c₂ (s₂.push "ROOT") → x.input = x.output →
    ∃ r₂, execute env (fuel + 1) "ROOT" (.do_ settings (path.list .wait)) parent₂ s₂ = some r₂ ∧
      GoesOn r₁ r₂ r₃
  onlyThen : r₃.error = none → path.next.2.kind = .set → ∀ {s₂ parent₂ c₂ r₂},
    StartedAgain s r₁ s₂ →
    Starts env "ROOT" (.do_ settings (path.list .wait)) parent₂ s₂ c₂ (s₂.push "ROOT") →
    execute env (fuel + 1) "ROOT" (.do_ settings (path.list .wait)) parent₂ s₂ = some r₂ →
    r₂.error = none → trace r₃.events = trace r₁.events ++ trace r₂.events →
    path.Opens env c₂ (s₂.push "ROOT") ∧ x.input = x.output

theorem rootResumable_of_reaches (henv : Reproducible env) (hsaving : env.checkpointing = true)
    (hif : settings.if_ = none) (hwf : path.Wf) (hs : s.workflow.checkpointPosition = none)
    (hinput : (updateContextByInput env settings
      (expression env (s.push "ROOT") (.new parent.output)) (.new parent.output)).eval
      (s.push "ROOT") = (.ok c, s.push "ROOT"))
    (hreach : path.Reaches env fuel c (s.push "ROOT"))
    (hr1 : execute env (fuel + 1) "ROOT" (.do_ settings (path.list .wait)) parent s = some r₁)
    (hr3 : execute env (fuel + 1) "ROOT" (.do_ settings (path.list .continue_)) parent s =
      some r₃) :
    ∃ x, RootResumable env fuel settings path s r₁ r₃ x := by
  obtain ⟨b1, cp, h⟩ := resumable_of_reaches henv hsaving (s := s.push "ROOT") hwf hs hreach
  obtain ⟨x, hx, -, hcpInput, hcpOutput⟩ := h.waited.context
  have hrecover : (recover env "ROOT" (.new parent.output)).eval (s.push "ROOT") =
      (.ok (some (.new parent.output)), s.push "ROOT") := recover_started "ROOT" _ hs
  have hstarts : ∀ directive, Starts env "ROOT" (.do_ settings (path.list directive)) parent s c
      (s.push "ROOT") := fun directive => starts_of_input hif hrecover hinput
  obtain ⟨r1', hr1', hok1, hevents1, hlast1, hstate1⟩ :=
    execute_do (hstarts .wait) h.waiting h.waited.ok hx
  obtain rfl : r₁ = r1' := Option.some.inj (hr1.symm.trans hr1')
  obtain ⟨b3, hb3, rfl⟩ := execute_body (hstarts .continue_) hr3
  have hreported : r₁.state.workflow.reportedPosition =
      path.resumeAt ((s.push "ROOT").push "do").position := by
    rw [hstate1]
    show b1.state.workflow.reportedPosition = _
    rw [WorkflowContext.reportedPosition, h.waited.status, h.waited.resumePosition]
  have htrace1 : trace r₁.events = trace b1.events := by rw [hevents1, trace_started]
  have hresuming : ∀ {s₂}, StartedAgain s r₁ s₂ →
      Resuming (path.resumeAt ((s.push "ROOT").push "do").position) cp (s.push "ROOT")
        (s₂.push "ROOT") := by
    intro s₂ hagain
    obtain ⟨rest, hrest⟩ := h.waited.saved
    refine ⟨⟨congrArg (Position.push · "ROOT") hagain.place.position, hagain.place.name⟩,
      hagain.running, hagain.pending.trans (congrArg some hreported), rest, ?_⟩
    show s₂.checkpoints = _
    rw [hagain.saved, hstate1]
    exact hrest
  refine ⟨x, hok1, ?_, hlast1, ?_, ?_, ?_⟩
  · rw [hstate1]
    exact h.waited.status
  · intro s₂ c₂ hagain
    obtain ⟨below, hbelow⟩ := path.resumeAt_below ((s.push "ROOT").push "do").position
    refine recover_around (cons_ne_nil (.name "do") below) ?_
    rw [(hresuming hagain).pending, hbelow, (hresuming hagain).place.position]
    simp [State.push, Position.push]
  · intro s₂ parent₂ c₂ hagain hstarts2 hopens hsame
    have hcp : cp.task.input = cp.task.output := by rw [hcpInput, hcpOutput, hsame]
    obtain ⟨b2, hb2, pre₃, pre₂, rest, hrest, htrace3, htrace2⟩ :=
      h.goesOn hb3 (hresuming hagain) hopens hcp
    have hposition : (s₂.push "ROOT").position = (s.push "ROOT").position :=
      (hresuming hagain).place.position
    have hend := hrest.finish env (.started .do_ "ROOT" (s.push "ROOT").position)
      (s.push "ROOT").position
    refine ⟨_, ?_, _, _, rest, hend, ?_, htrace2⟩
    · rw [execute_of_starts hstarts2, hposition]
      show (executeDo env (execute env fuel) fuel (path.list .wait) c₂ _).map _ = _
      rw [hb2]
      rfl
    · rw [trace_started, htrace3, htrace1]
  · intro hok hset s₂ parent₂ c₂ r₂ hagain hstarts2 hr2 hok2 htrace
    obtain ⟨b2, hb2, hb2ok, hevents2, -⟩ := execute_ok hstarts2 hr2 hok2
    obtain ⟨hb3ok, hevents3⟩ := Run.finish_ok hok
    obtain ⟨hopens, hbegins2⟩ := h.resumed (hresuming hagain) hb2 hb2ok
    obtain ⟨values2, rest2, htrace2⟩ := hbegins2 hset
    obtain ⟨values3, rest3, htrace3⟩ := h.straight hset hb3 hb3ok
    -- the first task behind the wait shows the input it was given
    rw [hevents3, trace_started, htrace3, htrace1, hevents2, trace_started, htrace2,
      nil_append] at htrace
    have hcp : cp.task.output = cp.task.input := by
      have hfirst := append_cancel_left htrace
      simp only [List.cons.injEq, Prod.mk.injEq] at hfirst
      exact hfirst.1.2.1
    exact ⟨hopens, by rw [← hcpInput, ← hcpOutput, hcp]⟩

end Workflow

/-! ### Two tasks in a row -/

theorem literalEnv_reproducible : Reproducible literalEnv :=
  ⟨fun _ _ _ _ => rfl, fun _ _ => rfl, fun _ _ => rfl⟩

def flag : List (String × Json) := [("flag", .bool true)]

/-- A task that sets a flag and waits, and another one behind it. -/
def flagThenNext : ResumePath :=
  .here [] "a" (.set plainSettings flag) ("b", .set plainSettings []) []

end Jobworkerp.Workflow
