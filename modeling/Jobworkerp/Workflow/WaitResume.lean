/-
Jobworkerp/Workflow/WaitResume.lean

Where a workflow resumes behind a wait directive (`stream/do.rs`,
`stream/try_.rs`, `reported_position` of `context.rs`).

The list of the waiting task decides first.  With a task behind it the workflow
resumes there; without one it resumes at the task around the list, and the list
of that task decides again, unless it sees that the wait has been handled below
it.  It sees that by the position: strictly below the task around the list.  For
the list of a try task the position left behind is that of the try, one segment
below the task.

* `wait_resumes_iff`: on a path of do and try tasks the workflow resumes at the
  following task exactly when no list of a try task on the way out is at its end.
-/
import Jobworkerp.Workflow.Walk

namespace Jobworkerp.Workflow

open List Option

open Text (Json)
open TaskM

/-! ### Positions and states -/

def WorkflowContext.reportedPosition (w : WorkflowContext) : Position :=
  match w.status, w.resumePosition with
  | .waiting, some resume => resume
  | _, _ => w.position

variable {env : Env} {name : String} {c : TaskContext} {s : State} {fuel : ℕ} {parent : TaskContext}
  {s₁ : State} {r : Run} {result : TaskContext} {tasks : TaskList} {i : ℕ} {p : Position}
  {path : WaitPath}

section Frames

variable {task : Settings} {c' : TaskContext} {s' : State}

theorem loadCheckpoint_frame :
    (loadCheckpoint env name position).Ensures s fun _ => SameFrame s := by
  unfold loadCheckpoint
  split
  · simp only [ensures_bind, ensures_ask]
    split
    · simp
    · simp only [ensures_bind, ensures_get]
      split
      · simp
      · simp only [ensures_bind, ensures_modify, ensures_pure]
        exact ⟨rfl, rfl, rfl⟩
  · simp

theorem recover_frame : (recover env name c).Ensures s fun _ => SameFrame s := by
  simp only [recover, ensures_bind, ensures_get]
  split
  · exact ensures_pure.2 (.refl s)
  · split
    · exact ensures_pure.2 (.refl s)
    · split
      · simp only [ensures_bind, ensures_pure]
        exact loadCheckpoint_frame
      · exact ensures_pure.2 (.refl s)

theorem prepare_frame : (prepare env name task c).Ensures s fun _ => SameFrame s := by
  simp only [prepare, ensures_bind]
  intro found s₁ hrecover
  have hs := recover_frame hrecover
  split
  · exact ensures_pure.2 hs
  · rename_i c
    have hrun : ∀ enabled : Bool, (if enabled then
        updateContextByInput env task (expression env s₁ c) c >>= fun c => pure (.run c)
      else pure (.skipIf c) : TaskM Prepared).Ensures s₁ fun _ => SameFrame s := by
      intro enabled
      split
      · simp only [ensures_bind, ensures_pure]
        intro c' s' hinput
        rw [(updateContextByInput_ok hinput).1]
        exact hs
      · exact ensures_pure.2 hs
    simp only [ensures_bind, ensures_get]
    split
    · simp only [ensures_bind, ensures_within]
      exact fun enabled _ => hrun enabled
    · exact hrun true

theorem checkpointed_frame (s : State) (env : Env) (task : Settings) (c : TaskContext) :
    SameFrame s (s.checkpointed env task c) := by
  unfold State.checkpointed
  split
  · exact ⟨rfl, rfl, rfl⟩
  · exact .refl s

end Frames

/-! ### A single task that waits -/

section Leaf

variable {task : Task}

variable {work : TaskM TaskContext}

/-- A task whose work keeps the frame keeps it as a whole, and ends with its own
directive. -/
theorem single_frame (hsingle : executeTask env (executeList env fuel) fuel name task c s₁ =
      some (.single name (work >>= updateContextByOutput env task.settings) s₁))
    (hwork : work.Ensures s₁ fun _ => SameFrame s₁)
    (hstarts : Starts env name task parent s c s₁)
    (hrun : execute env (fuel + 1) name task parent s = some r) (hok : r.error = none) :
    SameFrame s r.state ∧ ∃ result vars, r.lastContext = some result ∧
      ownDirective env task.settings result.output vars = .ok result.flowDirective := by
  obtain ⟨c2, s2, c', s', heval, hsettings, hlast, hstate⟩ :=
    execute_single_ok hsingle hstarts hrun hok
  refine ⟨?_, c', _, hlast, hsettings.directive⟩
  obtain ⟨exported, -, rfl⟩ := hsettings.state
  have hframe : SameFrame (s.push name) ((s2.export exported).checkpointed env task.settings c') :=
    ((prepare_frame hstarts).trans (hwork heval)).trans
      ((export_frame s2 exported).trans (checkpointed_frame _ env task.settings c'))
  rw [hstate]
  refine ⟨?_, hframe.status, hframe.name⟩
  show Position.pop (State.position _) = _
  rw [State.completed, hframe.position]
  exact dropLast_concat

theorem wait_of_leaf (hleaf : task.isLeaf = true)
    (hthen : task.settings.then_ = some (.variant0 .wait))
    (hstarts : Starts env name task parent s c s₁)
    (hrun : execute env (fuel + 1) name task parent s = some r) (hok : r.error = none) :
    ∃ result, r.lastContext = some result ∧ result.flowDirective = .wait ∧
      SameFrame s r.state := by
  obtain ⟨work, hsingle, hwork⟩ := executeTask_leaf hleaf
  obtain ⟨hframe, result, vars, hlast, hdirective⟩ :=
    single_frame hsingle hwork hstarts hrun hok
  rw [ownDirective, hthen] at hdirective
  exact ⟨result, hlast, (Except.ok.inj hdirective).symm, hframe⟩

end Leaf

/-! ### The wait directive of one list -/

section Suspend

variable {pos : ℕ} {next : Option Entry}

theorem relativePath_eq_some :
    p.relativePath base = some q ↔ p = base ++ q := by
  unfold Position.relativePath
  split
  · rename_i hbase
    obtain ⟨q', rfl⟩ := isPrefixOf_iff_prefix.1 hbase
    simp
  · rename_i hbase
    refine iff_of_false (by simp) ?_
    rintro rfl
    exact hbase ( isPrefixOf_iff_prefix.2 (prefix_append base q))

@[simp] theorem relativePath_self (p : Position) : p.relativePath p = some [] :=
  relativePath_eq_some.2 (append_nil p).symm

/-- A wait that has been handled strictly below the task is left as it is. -/
theorem suspend_handled (hq : q ≠ []) (hstatus : s.workflow.status = .waiting)
    (hresume : s.workflow.resumePosition = some ((s.position.pushIdx pos).push name ++ q)) :
    suspend env name pos next result s = s := by
  have hpath : (((s.position.pushIdx pos).push name ++ q).relativePath
      ((s.position.pushIdx pos).push name)) = some q := relativePath_eq_some.2 rfl
  unfold suspend
  simp [hstatus, hresume, hpath, hq]

/-- The wait is open at this list: it has not been handled, or only as far as to
the task itself. -/
def OpenAt (name : String) (pos : ℕ) (s : State) : Prop :=
  s.workflow.status = .running ∨
    s.workflow.resumePosition = some ((s.position.pushIdx pos).push name)

@[simp] theorem suspend_position : (suspend env name pos next result s).position = s.position := by
  unfold suspend
  cases next with
  | none =>
    dsimp only
    split_ifs <;> rfl
  | some entry =>
    dsimp only
    split_ifs <;> rfl

theorem OpenAt.not_handled (h : OpenAt name pos s) :
    (decide (s.workflow.status = .waiting) && s.workflow.resumePosition.any fun p =>
      (p.relativePath ((s.position.pushIdx pos).push name)).any (· ≠ [])) = false := by
  rcases h with hrunning | hresume
  · simp [hrunning]
  · simp [hresume]

/-- A wait in the list at `p` leads to `q`; without one it leads to the task around the list,
and at the end of the root list nowhere. -/
def LeadsTo (w : WorkflowContext) (p : Position) : Option Position → Prop
  | some q => w.status = .waiting ∧ w.resumePosition = some q
  | none =>
    if p.length ≤ 2 then w.status = .completed
    else w.status = .waiting ∧ w.resumePosition = some p.pop

/-- An open wait leads to the next task. -/
theorem suspend_open (env : Env) (next : Option Entry) (result : TaskContext)
    (hopen : OpenAt name pos s) : LeadsTo (suspend env name pos next result s).workflow s.position
      (next.map fun (nextName, nextPos, _) => (s.position.pushIdx nextPos).push nextName) := by
  unfold suspend
  dsimp only
  rw [hopen.not_handled, if_neg Bool.false_ne_true]
  cases next with
  | some entry =>
    rw [if_neg (by simp)]
    exact ⟨rfl, rfl⟩
  | none =>
    show if s.position.length ≤ 2 then _ else _
    by_cases hlength : s.position.length ≤ 2
    · rw [if_pos hlength, if_pos (by simp [hlength])]
      rfl
    · rw [if_neg hlength, if_neg (by simp [hlength])]
      exact ⟨rfl, rfl⟩

end Suspend

/-! ### A list that is about to run its task -/

section Level

variable {exec : TaskExecutor} {n : ℕ} {task : Task} {d : DoState} {run : Run}

/-- The loop of a list that was started in the state `s` is about to run a task:
the stack holds the position of the list, and the iterator stands behind the
task. -/
structure AtTask (env : Env) (tasks : TaskList) (s : State) (p : Position) (name : String) (i : ℕ)
    (task : Task) (d : DoState) : Prop where
  current : d.current = some (name, i, task)
  next : d.rest.head? = entryAt tasks (i + 1)
  position : d.state.position = p
  running : d.state.workflow.status = .running
  reached : (resumeFrom env (taskMap tasks) (s.push "do")).any (i < ·) = false

/-- What is left of a loop behind some of its rounds. -/
theorem doLoop_of_rounds (hrun : executeDo env exec fuel tasks c s = some run)
    (hround : rounds env exec tasks c s n = some d) :
    ∃ fuel' events run', doLoop env exec (taskMap tasks)
      (resumeFrom env (taskMap tasks) (s.push "do")) fuel' d = some run' ∧
        run = run'.after events := by
  induction n generalizing d with
  | zero =>
    obtain rfl := Option.some.inj hround
    exact ⟨fuel, [], run, hrun, rfl⟩
  | succ n ih =>
    obtain ⟨d0, hd0, hstep⟩ := bind_eq_some_iff.1 hround
    obtain ⟨fuel', events, run', hloop, rfl⟩ := ih hd0
    obtain ⟨round, hdo, hnext⟩ := bind_eq_some_iff.1 hstep
    cases fuel' with
    | zero => cases hloop
    | succ fuel' =>
      cases round with
      | stop _ => cases hnext
      | go events' d' =>
        obtain rfl : d' = d := Option.some.inj hnext
        rw [doLoop, hdo] at hloop
        obtain ⟨run'', hrest, rfl⟩ := map_eq_some_iff.1 hloop
        exact ⟨fuel', events ++ events', run'', hrest, by simp [Run.after]⟩

end Level

/-! ### The end of a task around a list -/

section Around

variable {settings : Settings} {body : Run}

theorem Run.finish_of_context (herror : body.error = none)
    (hlast : body.lastContext = some result) : (body.finish env started position).error = none ∧
      (body.finish env started position).lastContext = some result ∧
      (body.finish env started position).state = body.state.pop := by
  have hfinish : body.finish env started position =
      { body.after [started] with state := body.state.pop } := by
    rcases hevents : body.events with - | ⟨event, rest⟩
    · simp [Run.lastContext, hevents] at hlast
    · simp [Run.finish, herror, hevents, hlast]
  rw [hfinish]
  refine ⟨herror, ?_, rfl⟩
  rw [Run.lastContext] at hlast ⊢
  rw [Run.after_events, lastContextOf_append, hlast]
  rfl

theorem do_of_list (hstarts : Starts env name (.do_ settings tasks) parent s c s₁)
    (hrun : execute env (fuel + 1) name (.do_ settings tasks) parent s = some r) :
    ∃ body, executeDo env (execute env fuel) fuel tasks c s₁ = some body ∧
      ∀ result, body.error = none → body.lastContext = some result →
        r.error = none ∧ r.lastContext = some result ∧ r.state = body.state.pop := by
  obtain ⟨body, hbody, rfl⟩ := execute_body hstarts hrun
  exact ⟨body, hbody, fun result herror hlast => Run.finish_of_context herror hlast⟩

/-- A try task whose first attempt succeeds ends as its list does. -/
theorem try_of_list (htasks : tasks ≠ [])
    (hstarts : Starts env name (.try_ settings tasks catch_ catchDo) parent s c s₁)
    (hrun : execute env (fuel + 1) name (.try_ settings tasks catch_ catchDo) parent s = some r) :
    ∃ body, executeDo env (execute env fuel) fuel tasks c (s₁.push "try") = some body ∧
      ∀ result, body.error = none → body.lastContext = some result →
        r.error = none ∧ r.lastContext = some result ∧
        r.state = (body.state.pop.completed result).pop := by
  obtain ⟨whole, hwhole, rfl⟩ := execute_body hstarts hrun
  obtain ⟨attempts, hattempts, hwhole⟩ := bind_eq_some_iff.1 hwhole
  have hempty : tasks.isEmpty = false := by simpa using htasks
  rw [hempty] at hattempts
  cases fuel with
  | zero => cases hattempts
  | succ fuel =>
    obtain ⟨body, hbody, hattempt⟩ := bind_eq_some_iff.1 hattempts
    refine ⟨body, hbody, fun result herror hlast => ?_⟩
    rw [herror, hlast] at hattempt
    obtain rfl := Option.some.inj hattempt
    obtain rfl := Option.some.inj hwhole
    exact Run.finish_of_context rfl (lastContextOf_concat_completed _ _ _)

end Around

/-! ### Paths of do and try tasks -/

/-- The way to a task: it stands in the list, or inside a do or try task of the
list.  Each step has the list, the index and the name of the task. -/
inductive WaitPath
  | here (tasks : TaskList) (i : ℕ) (name : String)
  | inDo (tasks : TaskList) (i : ℕ) (name : String) (inner : WaitPath)
  | inTry (tasks : TaskList) (i : ℕ) (name : String) (inner : WaitPath)

namespace WaitPath

/-- The outermost list. -/
def list : WaitPath → TaskList
  | here tasks _ _ | inDo tasks _ _ _ | inTry tasks _ _ _ => tasks

/-- The position of a list inside a task of the list at `p`. -/
def inside (p : Position) (i : ℕ) (name : String) (parts : List String) : Position :=
  (p.pushIdx i).push name ++ parts.map .name

/-- The position of the task behind index `i`. -/
def behind (tasks : TaskList) (i : ℕ) (p : Position) : Option Position :=
  tasks[i + 1]?.map fun t => (p.pushIdx (i + 1)).push t.1

/-- The position of the following task in the innermost list that has one; the
outermost list is at `p`. -/
def following : Position → WaitPath → Option Position
  | p, here tasks i _ => behind tasks i p
  | p, inDo tasks i name inner =>
    (following (inside p i name ["do"]) inner).or (behind tasks i p)
  | p, inTry tasks i name inner =>
    (following (inside p i name ["try", "do"]) inner).or (behind tasks i p)

/-- No list of the path has a following task. -/
def exhausted : WaitPath → Bool
  | here tasks i _ => tasks.length ≤ i + 1
  | inDo tasks i _ inner | inTry tasks i _ inner => inner.exhausted && tasks.length ≤ i + 1

/-- On the way out, up to the first list with a following task, there is a try
task. -/
def exhaustsTry : WaitPath → Bool
  | here _ _ _ => false
  | inDo _ _ _ inner => inner.exhaustsTry
  | inTry _ _ _ inner => inner.exhaustsTry || inner.exhausted

variable {q : Position}

theorem following_eq_none_iff : path.following p = none ↔ path.exhausted = true := by
  induction path generalizing p with
  | here tasks i name => simp [following, exhausted, behind]
  | inDo tasks i name inner ih => simp [following, exhausted, behind, ih]
  | inTry tasks i name inner ih => simp [following, exhausted, behind, ih]

theorem behind_below
    (h : behind tasks i p = some q) : ∃ below, q = p ++ .index (i + 1) :: below := by
  obtain ⟨t, -, rfl⟩ := map_eq_some_iff.1 h
  exact ⟨[.name t.1], by simp [Position.pushIdx, Position.push]⟩

theorem inside_append (p : Position) (i : ℕ) (name : String) (parts : List String)
    (below : Position) : inside p i name parts ++ below =
      p ++ .index i :: .name name :: (parts.map .name ++ below) := by
  simp [inside, Position.pushIdx, Position.push]

/-- The following task is inside the outermost list. -/
theorem following_below (h : path.following p = some q) : ∃ below, below ≠ [] ∧ q = p ++ below := by
  induction path generalizing p with
  | here tasks i name =>
    obtain ⟨below, rfl⟩ := behind_below h
    exact ⟨_, cons_ne_nil _ _, rfl⟩
  | inDo tasks i name inner ih | inTry tasks i name inner ih =>
    rcases or_eq_some_iff.1 h with hinner | ⟨-, hbehind⟩
    · obtain ⟨below, -, rfl⟩ := ih hinner
      exact ⟨_, cons_ne_nil _ _, inside_append p i name _ below⟩
    · obtain ⟨below, rfl⟩ := behind_below hbehind
      exact ⟨_, cons_ne_nil _ _, rfl⟩

end WaitPath

open WaitPath (inside behind inside_append following_eq_none_iff)

/-- A task with `then: wait` is reached on the path and executed without an
error: every list on the way is about to run the task of the path, and the do
and try tasks around have started.  The outermost list is at `p`. -/
def ReachesWait (env : Env) : ℕ → Position → WaitPath → TaskContext → State → Prop
  | 0, _, _, _, _ => False
  | fuel + 1, p, .here tasks i name, c, s =>
    ∃ n d task c' s' r, rounds env (execute env (fuel + 1)) tasks c s n = some d ∧
      AtTask env tasks s p name i task d ∧ task.isLeaf = true ∧
      task.settings.then_ = some (.variant0 .wait) ∧
      Starts env name task d.prev (d.state.pushIdx i) c' s' ∧
      execute env (fuel + 1) name task d.prev (d.state.pushIdx i) = some r ∧ r.error = none
  | fuel + 1, p, .inDo tasks i name inner, c, s =>
    ∃ n d settings c' s', rounds env (execute env (fuel + 1)) tasks c s n = some d ∧
      AtTask env tasks s p name i (.do_ settings inner.list) d ∧
      Starts env name (.do_ settings inner.list) d.prev (d.state.pushIdx i) c' s' ∧
      ReachesWait env fuel (inside p i name ["do"]) inner c' s'
  | fuel + 1, p, .inTry tasks i name inner, c, s =>
    ∃ n d settings catch_ catchDo c' s',
      rounds env (execute env (fuel + 1)) tasks c s n = some d ∧
      AtTask env tasks s p name i (.try_ settings inner.list catch_ catchDo) d ∧
      Starts env name (.try_ settings inner.list catch_ catchDo) d.prev (d.state.pushIdx i)
        c' s' ∧
      ReachesWait env fuel (inside p i name ["try", "do"]) inner c' (s'.push "try")

/-! ### What the lists of a path leave -/

/-- The status and the resume position behind the list at `p`. -/
def Outcome (p : Position) (path : WaitPath) (w : WorkflowContext) : Prop :=
  if path.exhaustsTry then
    w.status = .waiting ∧ ∃ below, below ≠ [] ∧ w.resumePosition = some (p ++ below) ∧
      path.following p ≠ some (p ++ below)
  else
    match path.following p with
    | some q => w.status = .waiting ∧ w.resumePosition = some q
    | none =>
      if p.length ≤ 2 then w.status = .completed
      else w.status = .waiting ∧ w.resumePosition = some p.pop

/-- What a list leaves when the task of the path has waited. -/
structure Suspended (p : Position) (path : WaitPath) (run : Run) : Prop where
  ok : run.error = none
  waits : ∃ result, run.lastContext = some result ∧ result.flowDirective = .wait
  position : run.state.position = p.pop
  outcome : Outcome p path run.state.workflow

section Outcome

/-- The list around decides when the wait is open at its task. -/
theorem outcome_open (env : Env) (tasks : TaskList) (result : TaskContext) (hp : s.position = p)
    (hopen : OpenAt name i s) :
    LeadsTo (suspend env name i (entryAt tasks (i + 1)) result s).workflow p
      (behind tasks i p) := by
  subst hp
  have hspec := suspend_open env (entryAt tasks (i + 1)) result hopen
  rw [entryAt, Option.map_map] at hspec
  exact hspec

variable {parts : List String} {below : Position} {inner : WaitPath} {w : WorkflowContext}

/-- A wait that was handled inside the task is left as it is. -/
theorem suspend_inside {next : Option Entry} (hp : s.position = p)
    (hbelow : parts.map Segment.name ++ below ≠ []) (hstatus : s.workflow.status = .waiting)
    (hresume : s.workflow.resumePosition = some (inside p i name parts ++ below)) :
    suspend env name i next result s = s := by
  refine suspend_handled hbelow hstatus ?_
  rw [hresume, inside, hp, append_assoc]

/-- A position inside the task is not that of the task behind. -/
theorem behind_ne_inside (tasks : TaskList) (p : Position) (i : ℕ) (name : String)
    (parts : List String) (below : Position) :
    behind tasks i p ≠ some (inside p i name parts ++ below) := by
  intro hbehind
  obtain ⟨below', heq⟩ := WaitPath.behind_below hbehind
  rw [inside_append] at heq
  simp at heq

theorem following_ne_inside (tasks : TaskList)
    (hinner : inner.following (inside p i name parts) ≠
      some (inside p i name parts ++ below)) :
    (inner.following (inside p i name parts)).or (behind tasks i p) ≠
      some (inside p i name parts ++ below) := by
  intro h
  rcases or_eq_some_iff.1 h with hsame | ⟨-, hbehind⟩
  · exact hinner hsame
  · exact behind_ne_inside tasks p i name parts below hbehind

/-- A wait that was handled inside a task, wrongly or rightly, is what the list
around it leaves. -/
theorem outcome_inside (outer : WaitPath)
    (hinner : Outcome (inside p i name parts) inner w)
    (htry : outer.exhaustsTry = inner.exhaustsTry) (hfollowing : outer.following p =
      (inner.following (inside p i name parts)).or (behind tasks i p))
    (hsettled : inner.exhaustsTry = true ∨ inner.exhausted = false) :
    Outcome p outer w ∧ w.status = .waiting ∧
      ∃ below, w.resumePosition = some (inside p i name parts ++ below) := by
  unfold Outcome at hinner ⊢
  rw [htry, hfollowing]
  by_cases hexhausts : inner.exhaustsTry = true
  · rw [if_pos hexhausts] at hinner ⊢
    obtain ⟨hstatus, below, -, hresume, hne⟩ := hinner
    have hbehind := following_ne_inside tasks hne
    refine ⟨⟨hstatus, ?_⟩, hstatus, below, hresume⟩
    rw [inside_append] at hresume hbehind
    exact ⟨_, cons_ne_nil _ _, hresume, hbehind⟩
  · rw [if_neg hexhausts] at hinner ⊢
    obtain ⟨q, hq⟩ : ∃ q, inner.following (inside p i name parts) = some q := by
      refine ne_none_iff_exists'.1 fun hnone => ?_
      rw [following_eq_none_iff] at hnone
      simp [hexhausts, hnone] at hsettled
    rw [hq] at hinner ⊢
    obtain ⟨hstatus, hresume⟩ := hinner
    obtain ⟨below, -, rfl⟩ := WaitPath.following_below hq
    exact ⟨⟨hstatus, hresume⟩, hstatus, below, hresume⟩

/-- Lists at their end leave the position around the innermost of them. -/
theorem outcome_exhausted
    (hparts : parts ≠ []) (hinner : Outcome (inside p i name parts) inner w)
    (hopen : ¬ (inner.exhaustsTry = true ∨ inner.exhausted = false)) :
    inner.following (inside p i name parts) = none ∧ w.status = .waiting ∧
      w.resumePosition = some (inside p i name parts).pop := by
  obtain ⟨htry, hexhausted⟩ : inner.exhaustsTry = false ∧ inner.exhausted = true := by
    simpa using hopen
  have hnone : inner.following (inside p i name parts) = none :=
    following_eq_none_iff.2 hexhausted
  have hlength : ¬ (inside p i name parts).length ≤ 2 := by
    have hpos : 0 < parts.length := length_pos_iff.2 hparts
    simp only [inside, Position.push, Position.pushIdx, length_append,
      length_map, length_singleton]
    omega
  rw [Outcome, htry, hnone] at hinner
  simp only [Bool.false_eq_true, if_false, hlength] at hinner
  exact ⟨hnone, hinner⟩

theorem outcome_here (hp : s.position = p) (hrunning : s.workflow.status = .running) :
    Outcome p (.here tasks i name)
      (suspend env name i (entryAt tasks (i + 1)) result s).workflow := by
  have hopen : OpenAt name i s := .inl hrunning
  exact outcome_open env tasks result hp hopen

theorem outcome_inDo (hp : s.position = p)
    (hinner : Outcome (inside p i name ["do"]) inner s.workflow) :
    Outcome p (.inDo tasks i name inner)
      (suspend env name i (entryAt tasks (i + 1)) result s).workflow := by
  by_cases hsettled : inner.exhaustsTry = true ∨ inner.exhausted = false
  · obtain ⟨houter, hstatus, below, hresume⟩ :=
      outcome_inside (.inDo tasks i name inner) hinner rfl rfl hsettled
    rw [suspend_inside hp (by simp) hstatus hresume]
    exact houter
  · obtain ⟨hnone, -, hresume⟩ := outcome_exhausted (by simp) hinner hsettled
    have hopen : OpenAt name i s := by
      refine .inr ?_
      rw [hresume, hp]
      simp [inside, Position.pop, Position.push]
    have htry : inner.exhaustsTry = false := by
      simpa using fun h => hsettled (.inl h)
    have houter := outcome_open env tasks result hp hopen
    unfold Outcome
    rw [WaitPath.exhaustsTry, htry, WaitPath.following, hnone, none_or]
    exact houter

theorem outcome_inTry (hp : s.position = p)
    (hinner : Outcome (inside p i name ["try", "do"]) inner s.workflow) :
    Outcome p (.inTry tasks i name inner)
      (suspend env name i (entryAt tasks (i + 1)) result s).workflow := by
  by_cases hsettled : inner.exhaustsTry = true ∨ inner.exhausted = false
  · have htry : (WaitPath.inTry tasks i name inner).exhaustsTry = inner.exhaustsTry := by
      rw [WaitPath.exhaustsTry]
      rcases hsettled with h | h
      · rw [h, Bool.true_or]
      · rw [h, Bool.or_false]
    obtain ⟨houter, hstatus, below, hresume⟩ :=
      outcome_inside (.inTry tasks i name inner) hinner htry rfl hsettled
    rw [suspend_inside hp (by simp) hstatus hresume]
    exact houter
  · obtain ⟨hnone, hstatus, hresume⟩ := outcome_exhausted (by simp) hinner hsettled
    have hexhausted : inner.exhausted = true := following_eq_none_iff.1 hnone
    -- the list has left the position of the try, below the task
    replace hresume : s.workflow.resumePosition =
        some (inside p i name ["try"] ++ []) := by
      rw [hresume]
      simp [inside, Position.pop, Position.push]
    rw [suspend_inside hp (by simp) hstatus hresume]
    have hbehind : (WaitPath.inTry tasks i name inner).following p ≠
        some (inside p i name ["try"] ++ []) := by
      rw [WaitPath.following, hnone, none_or]
      exact behind_ne_inside tasks p i name ["try"] []
    rw [Outcome, WaitPath.exhaustsTry, hexhausted, Bool.or_true, if_pos rfl]
    rw [inside_append] at hresume hbehind
    exact ⟨hstatus, _, cons_ne_nil _ _, hresume, hbehind⟩

end Outcome

/-- A loop over no tasks is never about to run one. -/
theorem rounds_nil (h : rounds env exec [] c s n = some d) : d.current = none := by
  induction n generalizing d with
  | zero =>
    obtain rfl := Option.some.inj h
    rfl
  | succ n ih =>
    obtain ⟨d0, hd0, hstep⟩ := bind_eq_some_iff.1 h
    simp [doStep, ih hd0, Round.next?] at hstep

theorem ReachesWait.list_ne_nil (h : ReachesWait env fuel p path c s) : path.list ≠ [] := by
  have hne : ∀ {exec : TaskExecutor} {tasks n d name i task},
      rounds env exec tasks c s n = some d → AtTask env tasks s p name i task d → tasks ≠ [] := by
    rintro exec tasks n d name i task hround hat rfl
    have hcurrent := hat.current
    rw [rounds_nil hround] at hcurrent
    cases hcurrent
  cases fuel with
  | zero => exact h.elim
  | succ fuel =>
    cases path with
    | here tasks i name =>
      obtain ⟨n, d, task, c', s', r, hround, hat, -⟩ := h
      exact hne hround hat
    | inDo tasks i name inner =>
      obtain ⟨n, d, settings, c', s', hround, hat, -⟩ := h
      exact hne hround hat
    | inTry tasks i name inner =>
      obtain ⟨n, d, settings, catch_, catchDo, c', s', hround, hat, -⟩ := h
      exact hne hround hat

/-- **The end of a list whose task waits.**  The task has been run to its end;
if it ends with a wait, the list ends behind it. -/
theorem suspended_of_wait (hrun : executeDo env exec fuel tasks c s = some run)
    (hround : rounds env exec tasks c s n = some d) (hat : AtTask env tasks s p name i task d) :
    ∃ r, exec name task d.prev (d.state.pushIdx i) = some r ∧
      ∀ result path, r.error = none → r.lastContext = some result → result.flowDirective = .wait →
        r.state.pop.position = p →
        Outcome p path (suspend env name i (entryAt tasks (i + 1)) result r.state.pop).workflow →
        Suspended p path run := by
  obtain ⟨fuel', events, run', hloop, rfl⟩ := doLoop_of_rounds hrun hround
  cases fuel' with
  | zero => cases hloop
  | succ fuel' =>
    rw [doLoop, doStep] at hloop
    simp only [hat.current, hat.reached, Bool.false_eq_true, if_false, hat.running, ne_eq,
      not_true_eq_false] at hloop
    rcases hexec : exec name task d.prev (d.state.pushIdx i) with - | r
    · simp [hexec] at hloop
    · refine ⟨r, rfl, fun result path herror hlast hwait hposition houtcome => ?_⟩
      have hfollow : follow env (taskMap tasks) name i d.rest.head? result r.state.pop =
          (none, suspend env name i (entryAt tasks (i + 1)) result r.state.pop) := by
        rw [follow, hwait, hat.next]
      simp only [hexec, Option.map_some, herror, hlast, hfollow] at hloop
      obtain ⟨rest, hrest, rfl⟩ := map_eq_some_iff.1 hloop
      cases fuel' with
      | zero => cases hrest
      | succ fuel' =>
        -- the next round has no task
        cases hrest
        refine ⟨rfl, ⟨result, ?_, hwait⟩, ?_, houtcome⟩
        · rw [Run.lastContext] at hlast ⊢
          simp [lastContextOf_append, hlast]
        · show Position.pop (suspend _ _ _ _ _ _).position = _
          rw [suspend_position, hposition]

/-- The lists of a path, from the inside out. -/
theorem suspended_of_reaches (hreach : ReachesWait env fuel p path c s)
    (hrun : executeDo env (execute env fuel) fuel path.list c s = some run) :
    Suspended p path run := by
  induction path generalizing fuel p c s run with
  | here tasks i name =>
    cases fuel with
    | zero => exact hreach.elim
    | succ fuel =>
      obtain ⟨n, d, task, c', s', r, hround, hat, hleaf, hthen, hstarts, hexec, hok⟩ := hreach
      obtain ⟨r', hexec', hend⟩ := suspended_of_wait hrun hround hat
      obtain rfl : r = r' := Option.some.inj (hexec.symm.trans hexec')
      obtain ⟨result, hlast, hwait, hframe⟩ := wait_of_leaf hleaf hthen hstarts hexec hok
      have hposition : r.state.pop.position = p := by
        rw [State.pop, hframe.position, State.pushIdx, hat.position]
        exact dropLast_concat
      exact hend result _ hok hlast hwait hposition
        (outcome_here hposition (hframe.status.trans hat.running))
  | inDo tasks i name inner ih =>
    cases fuel with
    | zero => exact hreach.elim
    | succ fuel =>
      obtain ⟨n, d, settings, c', s', hround, hat, hstarts, hinner⟩ := hreach
      obtain ⟨r, hexec, hend⟩ := suspended_of_wait hrun hround hat
      obtain ⟨body, hbody, hdo⟩ := do_of_list hstarts hexec
      obtain ⟨hok, ⟨result, hlast, hwait⟩, hbodyPosition, houtcome⟩ := ih hinner hbody
      obtain ⟨hok', hlast', hstate'⟩ := hdo result hok hlast
      have hposition : r.state.pop.position = p := by
        rw [hstate', State.pop, State.pop, hbodyPosition]
        simp [inside, Position.pop, Position.push, Position.pushIdx]
      refine hend result _ hok' hlast' hwait hposition (outcome_inDo hposition ?_)
      rw [hstate']
      exact houtcome
  | inTry tasks i name inner ih =>
    cases fuel with
    | zero => exact hreach.elim
    | succ fuel =>
      obtain ⟨n, d, settings, catch_, catchDo, c', s', hround, hat, hstarts, hinner⟩ := hreach
      obtain ⟨r, hexec, hend⟩ := suspended_of_wait hrun hround hat
      obtain ⟨body, hbody, htry⟩ := try_of_list hinner.list_ne_nil hstarts hexec
      obtain ⟨hok, ⟨result, hlast, hwait⟩, hbodyPosition, houtcome⟩ := ih hinner hbody
      obtain ⟨hok', hlast', hstate'⟩ := htry result hok hlast
      have hposition : r.state.pop.position = p := by
        rw [hstate', State.pop, State.pop, State.completed, State.pop, hbodyPosition]
        simp [inside, Position.pop, Position.push, Position.pushIdx]
      refine hend result _ hok' hlast' hwait hposition (outcome_inTry hposition ?_)
      rw [hstate']
      exact houtcome

/-! ### The workflow -/

/-- The position of the root list. -/
def rootList : Position := [.name "ROOT", .name "do"]

/-- The workflow waits for the following task of the innermost list that has
one, or has completed when there is none. -/
def ResumesBehind (path : WaitPath) (w : WorkflowContext) : Prop :=
  match path.following rootList with
  | some q => w.status = .waiting ∧ w.reportedPosition = q
  | none => w.status = .completed

theorem resumesBehind_iff
    (h : Outcome rootList path w) : ResumesBehind path w ↔ path.exhaustsTry = false := by
  unfold Outcome at h
  unfold ResumesBehind
  cases htry : path.exhaustsTry with
  | true =>
    rw [htry, if_pos rfl] at h
    obtain ⟨hstatus, below, -, hresume, hne⟩ := h
    refine iff_of_false (fun hresumes => ?_) (by simp)
    split at hresumes
    · rename_i q hq
      obtain ⟨-, hreported⟩ := hresumes
      rw [WorkflowContext.reportedPosition, hstatus, hresume] at hreported
      exact hne (hq.trans (congrArg some hreported.symm))
    · rw [hstatus] at hresumes
      cases hresumes
  | false =>
    rw [htry] at h
    refine iff_of_true ?_ rfl
    split
    · rename_i q hq
      rw [hq] at h
      obtain ⟨hstatus, hresume⟩ := h
      exact ⟨hstatus, by rw [WorkflowContext.reportedPosition, hstatus, hresume]⟩
    · rename_i hnone
      rw [hnone] at h
      exact h

/-- **Behind a wait the workflow resumes at the following task of the innermost
list that has one, and completes when there is none, exactly when no list of a
try task on the way out to that list is at its end.** -/
theorem wait_resumes_iff {env : Env} {fuel : ℕ} {settings : Settings} {path : WaitPath}
    {parent c : TaskContext} {s s₁ : State} {r : Run}
    (hstarts : Starts env "ROOT" (.do_ settings path.list) parent s c s₁)
    (hreach : ReachesWait env fuel rootList path c s₁)
    (hrun : execute env (fuel + 1) "ROOT" (.do_ settings path.list) parent s = some r) :
    ResumesBehind path r.state.workflow ↔ path.exhaustsTry = false := by
  obtain ⟨body, hbody, hdo⟩ := do_of_list hstarts hrun
  obtain ⟨hok, ⟨result, hlast, -⟩, -, houtcome⟩ := suspended_of_reaches hreach hbody
  obtain ⟨-, -, hstate⟩ := hdo result hok hlast
  rw [hstate]
  exact resumesBehind_iff houtcome

/-! ### A wait at the end of a list -/

/-- A workflow that has been started and is about to run its root task. -/
def rootState : State := { startedState with position := [] }

def plainSettings : Settings := ⟨none, none, none, none, none, none, false⟩

/-- A task that waits, alone in the list of the first task; behind that task is
another one. -/
def waitInside (around : TaskList → Task) : TaskList :=
  [("outer", around [("x", setThen (some (.variant0 .wait)))]), ("behind", setThen none)]

def aroundDo : TaskList → Task := .do_ plainSettings

def aroundTry (tasks : TaskList) : Task :=
  .try_ plainSettings tasks ⟨none, none, none, none, none⟩ none

def pathInDo : WaitPath :=
  .inDo (waitInside aroundDo) 0 "outer" (.here [("x", setThen (some (.variant0 .wait)))] 0 "x")

theorem wait_in_do_resumes_behind :
    ∃ r, execute literalEnv 4 "ROOT" (.do_ plainSettings pathInDo.list) (.new .null) rootState =
      some r ∧ ResumesBehind pathInDo r.state.workflow := by
  have hstarts : Starts literalEnv "ROOT" (.do_ plainSettings pathInDo.list) (.new .null) rootState
      (.new .null) (rootState.push "ROOT") := rfl
  have hreach : ReachesWait literalEnv 3 rootList pathInDo (.new .null)
      (rootState.push "ROOT") :=
    ⟨0, _, plainSettings, _, _, rfl, ⟨rfl, rfl, rfl, rfl, rfl⟩, rfl,
      0, _, _, _, _, _, rfl, ⟨rfl, rfl, rfl, rfl, rfl⟩, rfl, rfl, rfl, rfl, rfl⟩
  exact ⟨_, rfl, (wait_resumes_iff hstarts hreach rfl).2 rfl⟩

/-- The wait is in the list of a try task, and a task follows the try: the
workflow does not resume there but at the try. -/
theorem wait_in_try_resumes_inside :
    (execute literalEnv 4 "ROOT" (.do_ plainSettings (waitInside aroundTry)) (.new .null)
      rootState).map (fun r => (r.error, r.state.workflow.status,
        r.state.workflow.reportedPosition)) =
      some (none, .waiting, rootList ++ [.index 0, .name "outer", .name "try"]) ∧
    behind (waitInside aroundTry) 0 rootList =
      some (rootList ++ [.index 1, .name "behind"]) := by
  constructor <;> rfl

end Jobworkerp.Workflow
