/-
Jobworkerp/Workflow/ListRuns.lean

Lists of do and set tasks, task by task.

The loop of `do.rs` is described by its state before a round.  Here it is
described by the tasks: it runs those that continue one after the other
(`passes`), passes over those before the one it resumes at, and ends or goes on
behind a task as the stream of the task says (`loopBehind`).

* `execute_place`: do and set tasks leave the position they were started at;
* `executeDo_wait`, `executeDo_continue`: a list behind a task that waits, and
  behind one that continues.
-/
import Jobworkerp.Workflow.SimilarRuns
import Jobworkerp.Workflow.WaitResume

namespace Jobworkerp.Workflow

open List Option

open Text (Json)
open TaskM

/-! ### What lists keep -/

/-- The variables of the workflow and of the tasks, and where it is to resume. -/
structure SameVariables (s s' : State) : Prop where
  name : s'.workflow.name = s.workflow.name
  input : s'.workflow.input = s.workflow.input
  contextVariables : s'.workflow.contextVariables = s.workflow.contextVariables
  checkpointPosition : s'.workflow.checkpointPosition = s.workflow.checkpointPosition
  taskVariables : s'.taskVariables = s.taskVariables

variable {s s' : State} {env : Env} {exec : TaskExecutor} {fuel : ℕ} {r : Run} {name : String}
  {task : Task}

variable {s'' : State}

theorem SameVariables.trans (h : SameVariables s s')
    (h' : SameVariables s' s'') : SameVariables s s'' :=
  ⟨h'.name.trans h.name, h'.input.trans h.input, h'.contextVariables.trans h.contextVariables,
    h'.checkpointPosition.trans h.checkpointPosition, h'.taskVariables.trans h.taskVariables⟩

theorem SameVariables.pop (h : SameVariables s s') : SameVariables s.pop s'.pop :=
  { h with }

theorem suspend_variables (env : Env) (name : String) (pos : ℕ) (next : Option Entry)
    (result : TaskContext) (s : State) : SameVariables s (suspend env name pos next result s) := by
  unfold suspend
  dsimp only
  split_ifs
  all_goals exact ⟨rfl, rfl, rfl, rfl, rfl⟩

/-- The place of an execution: the position stack, and the workflow. -/
structure SamePlace (s s' : State) : Prop where
  position : s'.position = s.position
  name : s'.workflow.name = s.workflow.name

theorem SamePlace.trans (h : SamePlace s s') (h' : SamePlace s' s'') : SamePlace s s'' :=
  ⟨h'.position.trans h.position, h'.name.trans h.name⟩

theorem SamePlace.pop (h : SamePlace s s') : SamePlace s.pop s'.pop :=
  ⟨congrArg Position.pop h.position, h.name⟩

theorem pop_push (s : State) (name : String) : SamePlace s (s.push name).pop :=
  ⟨dropLast_concat, rfl⟩

theorem pop_pushIdx (s : State) (index : ℕ) : SamePlace s (s.pushIdx index).pop :=
  ⟨dropLast_concat, rfl⟩

theorem follow_place (env : Env) (map : TaskMap) (name : String) (pos : ℕ) (next : Option Entry)
    (result : TaskContext) (s : State) : SamePlace s (follow env map name pos next result s).2 := by
  unfold follow
  cases result.flowDirective with
  | wait => exact ⟨suspend_position, (suspend_variables env name pos next result s).name⟩
  | continue_ | end_ | exit | taskName => exact ⟨rfl, rfl⟩

/-- A pure task that ends without an error leaves the place it was started
in. -/
def KeepsPlace (exec : TaskExecutor) : Prop :=
  ∀ name task, PureTask task → ∀ prev s r, s.workflow.checkpointPosition = none →
    exec name task prev s = some r → r.error = none → SamePlace s r.state

section Places

variable {parent : TaskContext}

theorem similarTask_refl {prev : TaskContext} (hexec : SimilarExec exec) (hpure : PureTask task)
    (hs : s.workflow.checkpointPosition = none) (hr : exec name task prev s = some r) :
    SimilarTask False r r := by
  have htask := hexec False name task hpure prev prev s s rfl (.refl False hs)
  rw [hr] at htask
  cases htask with
  | some h => exact h

theorem doLoop_place (henv : Reproducible env) (hexec : SimilarExec exec) (hkeeps : KeepsPlace exec)
    {map : TaskMap} {from_ : Option ℕ} (hd : SimilarLoop False from_ from_ d d)
    (hrun : doLoop env exec map from_ fuel d = some r) (hok : r.error = none) :
    SamePlace d.state.pop r.state := by
  induction fuel generalizing d r with
  | zero => cases hrun
  | succ fuel ih =>
    rw [doLoop, doStep] at hrun
    rcases hcurrent : d.current with - | ⟨name, pos, task⟩
    · rw [hcurrent] at hrun
      obtain rfl := Option.some.inj hrun
      exact ⟨rfl, rfl⟩
    · obtain ⟨hpure, hskip, -⟩ := hd.ahead (name, pos, task) (.inl hcurrent)
      simp only [hcurrent, hskip, Bool.false_eq_true, if_false] at hrun
      split_ifs at hrun with hstatus
      · obtain rfl := Option.some.inj hrun
        exact ⟨rfl, rfl⟩
      · rcases htask : exec name task d.prev (d.state.pushIdx pos) with - | r0
        · rw [htask] at hrun
          cases hrun
        · have hr0 := similarTask_refl hexec hpure (hd.state.pushIdx pos).started htask
          rcases herror : r0.error with - | e
          · rcases hlast : r0.lastContext with - | result
            · exact absurd hlast (hr0.concludes herror)
            · simp only [htask, Option.map_some, herror, hlast] at hrun
              obtain ⟨r1, hloop, rfl⟩ := map_eq_some_iff.1 hrun
              have hplace := hkeeps name task hpure d.prev _ r0 (hd.state.pushIdx pos).started
                htask herror
              have hstate : Similar False r0.state.pop r0.state.pop := .refl _ hr0.state.started
              have hrest := ih (hd.behind henv map map name pos (hr0.noJump_last hlast) hstate)
                hloop hok
              exact ((((pop_pushIdx d.state pos).trans hplace.pop).trans
                (follow_place env map name pos _ result _)).pop).trans hrest
          · simp only [htask, Option.map_some, herror] at hrun
            obtain rfl := Option.some.inj hrun
            cases hok

theorem executeDo_place (henv : Reproducible env) (hexec : SimilarExec exec)
    (hkeeps : KeepsPlace exec) {tasks : TaskList} (htasks : ∀ t ∈ tasks, PureTask t.2)
    (hs : s.workflow.checkpointPosition = none) (hrun : executeDo env exec fuel tasks c s = some r)
    (hok : r.error = none) : SamePlace s r.state := by
  have hstart : SimilarLoop False none none (.start (taskMap tasks) c (s.push "do"))
      (.start (taskMap tasks) c (s.push "do")) :=
    start_similar htasks rfl (.refl False hs)
  unfold executeDo at hrun
  dsimp only at hrun
  rw [resumeFrom_eq_none hs] at hrun
  exact (pop_push s "do").trans (doLoop_place henv hexec hkeeps hstart hrun hok)

theorem starts_of_input (hif : task.settings.if_ = none)
    (hrecover : (recover env name (.new parent.output)).eval (s.push name) =
      (.ok (some (.new parent.output)), s.push name))
    (hinput : (updateContextByInput env task.settings
      (expression env (s.push name) (.new parent.output)) (.new parent.output)).eval
      (s.push name) = (.ok c, s.push name)) :
    Starts env name task parent s c (s.push name) := by
  rw [Starts, prepare_of_recover hif hrecover, map_eq_pure_bind, eval_bind, hinput]
  rfl

/-- A task that ends without an error has taken its input. -/
theorem input_of_ok (hif : task.settings.if_ = none)
    (hrecover : (recover env name (.new parent.output)).eval (s.push name) =
      (.ok (some (.new parent.output)), s.push name))
    (hrun : execute env (fuel + 1) name task parent s = some r) (hok : r.error = none) :
    ∃ c, (updateContextByInput env task.settings
      (expression env (s.push name) (.new parent.output)) (.new parent.output)).eval
      (s.push name) = (.ok c, s.push name) := by
  rw [execute_of_recover hif hrecover, runTask] at hrun
  rcases hinput : (updateContextByInput env task.settings
      (expression env (s.push name) (.new parent.output)) (.new parent.output)).eval
      (s.push name) with ⟨e | c, s1⟩
  · rw [hinput] at hrun
    obtain rfl := Option.some.inj hrun
    cases hok
  · obtain ⟨rfl, -⟩ := updateContextByInput_ok hinput
    exact ⟨c, rfl⟩

theorem starts_of_ok (hif : task.settings.if_ = none) (hs : s.workflow.checkpointPosition = none)
    (hrun : execute env (fuel + 1) name task parent s = some r) (hok : r.error = none) :
    ∃ c, Starts env name task parent s c (s.push name) := by
  have hrecover : (recover env name (.new parent.output)).eval (s.push name) =
      (.ok (some (.new parent.output)), s.push name) := recover_started name _ hs
  obtain ⟨c, hinput⟩ := input_of_ok hif hrecover hrun hok
  exact ⟨c, starts_of_input hif hrecover hinput⟩

/-- Do and set tasks leave the place they were started in. -/
theorem execute_place (henv : Reproducible env) (fuel : ℕ) : KeepsPlace (execute env fuel) := by
  induction fuel with
  | zero =>
    intro name task _ prev s r _ hrun
    cases hrun
  | succ fuel ih =>
    intro name task hpure prev s r hs hrun hok
    have hsimilar := similarTask_refl (execute_similar henv (fuel + 1)) hpure hs hrun
    obtain ⟨c, hstarts⟩ := starts_of_ok hpure.if_ hs hrun hok
    cases hpure with
    | @set settings values hif hthen =>
      obtain ⟨hframe, -⟩ := single_frame rfl executeSet_frame hstarts hrun hok
      exact ⟨hframe.position, hframe.name⟩
    | @do_ settings tasks hif htasks =>
      obtain ⟨body, hbody, herror, hevents, rfl⟩ := execute_ok hstarts hrun hok
      obtain ⟨result, hlast⟩ : ∃ result, body.lastContext = some result := by
        refine ne_none_iff_exists'.1 fun hnone => hsimilar.concludes hok ?_
        rw [Run.lastContext, hevents, lastContextOf_started]
        exact hnone
      obtain ⟨-, -, hstate⟩ := Run.finish_of_context herror hlast
      rw [hstate]
      have hlist : SamePlace (s.push name) body.state :=
        executeDo_place henv (execute_similar henv fuel) ih htasks hs hbody herror
      exact (pop_push s name).trans hlist.pop

end Places

theorem lastContextOf_append_some (events : List Event)
    (h : lastContextOf events' = some c) : lastContextOf (events ++ events') = some c := by
  rw [lastContextOf_append, h]
  rfl

/-! ### Lists, task by task -/

/-- The loop from the task at index `k` on. -/
def loopFrom (env : Env) (exec : TaskExecutor) (tasks : TaskList) (from_ : Option ℕ) (fuel k : ℕ)
    (c : TaskContext) (s : State) : Option Run :=
  doLoop env exec (taskMap tasks) from_ fuel
    ⟨entryAt tasks k, (taskMap tasks).drop (k + 1), c, s⟩

/-- What the loop makes of the stream of the task at index `k`. -/
def loopBehind (env : Env) (exec : TaskExecutor) (tasks : TaskList) (from_ : Option ℕ)
    (fuel : ℕ) (name : String) (k : ℕ) (r : Run) : Option Run :=
  match r.error, r.lastContext with
  | some e, _ => some { r with error := some (e.at env r.state.position) }
  | none, none => some { r with state := r.state.pop.pop }
  | none, some result =>
    let (current, s) :=
      follow env (taskMap tasks) name k (entryAt tasks (k + 1)) result r.state.pop
    (doLoop env exec (taskMap tasks) from_ fuel
      ⟨current, (taskMap tasks).drop (k + 2), result, s⟩).map (Run.after r.events)

/-- The tasks run one after the other, and each of them continues: their events,
and the context and the state behind them.  The first one has index `k`. -/
def passes (exec : TaskExecutor) :
    ℕ → TaskList → TaskContext → State → Option (List Event × TaskContext × State)
  | _, [], c, s => some ([], c, s)
  | k, (name, task) :: rest, c, s =>
    if s.workflow.status ≠ .running then none
    else
      (exec name task c (s.pushIdx k)).bind fun r =>
        match r.error, r.lastContext with
        | none, some result =>
          if result.flowDirective = .continue_ then
            (passes exec (k + 1) rest result r.state.pop).map fun (events, c', s') =>
              (r.events ++ events, c', s')
          else none
        | _, _ => none

section Loops

variable {tasks : TaskList} {from_ : Option ℕ} {k : ℕ} {c result : TaskContext}

section

variable (hnames : (tasks.map Prod.fst).Nodup)

include hnames

theorem taskMap_head?_drop (k : ℕ) : ((taskMap tasks).drop k).head? = entryAt tasks k := by
  rw [List.head?_drop, taskMap_getElem? hnames]

theorem executeDo_eq_loopFrom :
    executeDo env exec fuel tasks c s =
      loopFrom env exec tasks (resumeFrom env (taskMap tasks) (s.push "do")) fuel 0 c
        (s.push "do") := by
  unfold executeDo loopFrom DoState.start
  rw [← taskMap_head?_drop hnames 0, drop_zero, drop_one]

theorem loopFrom_task (htask : tasks[k]? = some (name, task)) (hskip : from_.any (k < ·) = false)
    (hrunning : s.workflow.status = .running) : loopFrom env exec tasks from_ (fuel + 1) k c s =
      (exec name task c (s.pushIdx k)).bind (loopBehind env exec tasks from_ fuel name k) := by
  have hentry : entryAt tasks k = some (name, k, task) := by rw [entryAt, htask]; rfl
  unfold loopFrom
  rw [doLoop, doStep]
  simp only [hentry, hskip, Bool.false_eq_true, if_false, hrunning, ne_eq, not_true_eq_false,
    taskMap_head?_drop hnames, tail_drop]
  rcases exec name task c (s.pushIdx k) with - | r
  · rfl
  · rw [Option.map_some, bind_some, loopBehind]
    rcases herror : r.error with - | e
    · rcases hlast : r.lastContext with - | result
      · rfl
      · rfl
    · rfl

theorem loopFrom_skip (hk : k < tasks.length)
    (hskip : from_.any (k < ·) = true) : loopFrom env exec tasks from_ (fuel + 1) k c s =
      loopFrom env exec tasks from_ fuel (k + 1) c s := by
  have hentry : entryAt tasks k = some (tasks[k].1, k, tasks[k].2) := by
    rw [entryAt, List.getElem?_eq_getElem hk]
    rfl
  unfold loopFrom
  rw [doLoop, doStep]
  simp only [hentry, hskip, if_true, taskMap_head?_drop hnames, tail_drop]
  exact map_id'

end

theorem loopFrom_end (hk : tasks.length ≤ k) :
    loopFrom env exec tasks from_ (fuel + 1) k c s = some ⟨[], none, s.pop⟩ := by
  have hentry : entryAt tasks k = none := by
    rw [entryAt, List.getElem?_eq_none_iff.2 hk]
    rfl
  unfold loopFrom
  rw [doLoop, doStep, hentry]

theorem loopBehind_continue (herror : r.error = none) (hlast : r.lastContext = some result)
    (hdirective : result.flowDirective = .continue_) :
    loopBehind env exec tasks from_ fuel name k r =
      (loopFrom env exec tasks from_ fuel (k + 1) result r.state.pop).map (Run.after r.events) := by
  simp only [loopBehind, herror, hlast, follow, hdirective]
  rfl

theorem loopBehind_wait (herror : r.error = none) (hlast : r.lastContext = some result)
    (hdirective : result.flowDirective = .wait) :
    loopBehind env exec tasks from_ (fuel + 1) name k r =
      some ⟨r.events, none,
        (suspend env name k (entryAt tasks (k + 1)) result r.state.pop).pop⟩ := by
  simp only [loopBehind, herror, hlast, follow, hdirective, doLoop, doStep]
  simp [Run.after]

/-- The loop passes over the tasks before the one it resumes at. -/
theorem loopFrom_skipTo (hnames : (tasks.map Prod.fst).Nodup) (hn : n = j + fuel)
    (hj : j ≤ tasks.length) :
    loopFrom env exec tasks (some j) n 0 c s = loopFrom env exec tasks (some j) fuel j c s := by
  -- from the index `j - n` on there are `n` tasks to pass over
  have hskip : ∀ n, n ≤ j → loopFrom env exec tasks (some j) (n + fuel) (j - n) c s =
      loopFrom env exec tasks (some j) fuel j c s := by
    intro n
    induction n with
    | zero =>
      intro _
      rw [Nat.zero_add, Nat.sub_zero]
    | succ n ih =>
      intro hn
      have hlt : (some j).any (j - (n + 1) < ·) = true := by
        rw [any_some, decide_eq_true_eq]
        omega
      rw [Nat.add_right_comm, loopFrom_skip hnames (by omega) hlt, ← ih (by omega)]
      congr 1
      omega
  have hall := hskip j le_rfl
  rwa [Nat.sub_self, ← hn] at hall

variable {events : List Event} {c' : TaskContext} {before rest : TaskList} {n : ℕ}
  {tasks' : TaskList} {i j : ℕ}

theorem passes_cons_eq_some : passes exec k ((name, task) :: rest) c s = some (events, c', s') ↔
      s.workflow.status = .running ∧ ∃ r result events', exec name task c (s.pushIdx k) = some r ∧
        r.error = none ∧ r.lastContext = some result ∧ result.flowDirective = .continue_ ∧
        passes exec (k + 1) rest result r.state.pop = some (events', c', s') ∧
        events = r.events ++ events' := by
  rw [passes]
  constructor
  · intro h
    split_ifs at h with hstatus
    refine ⟨not_not.1 hstatus, ?_⟩
    obtain ⟨r, hr, h⟩ := bind_eq_some_iff.1 h
    rcases herror : r.error with - | e
    · rcases hlast : r.lastContext with - | result
      · simp [herror, hlast] at h
      · simp only [herror, hlast] at h
        split_ifs at h with hdirective
        obtain ⟨⟨events', c1, s1⟩, hrest, heq⟩ := map_eq_some_iff.1 h
        simp only [Prod.mk.injEq] at heq
        obtain ⟨rfl, rfl, rfl⟩ := heq
        exact ⟨r, result, events', hr, herror, hlast, hdirective, hrest, rfl⟩
    · simp [herror] at h
  · rintro ⟨hstatus, r, result, events', hr, herror, hlast, hdirective, hrest, rfl⟩
    simp [hstatus, hr, herror, hlast, hdirective, hrest]

theorem loopFrom_passes (hnames : (tasks.map Prod.fst).Nodup)
    (htasks : tasks.drop k = before ++ rest)
    (hpasses : passes exec k before c s = some (events, c', s')) :
    loopFrom env exec tasks none (before.length + fuel) k c s =
      (loopFrom env exec tasks none fuel (k + before.length) c' s').map (Run.after events) := by
  induction before generalizing k c s events with
  | nil =>
    obtain ⟨rfl, rfl, rfl⟩ : [] = events ∧ c = c' ∧ s = s' := by simpa [passes] using hpasses
    rw [length_nil, Nat.zero_add]
    exact map_id'.symm
  | cons t before ih =>
    obtain ⟨name, task⟩ := t
    obtain ⟨hstatus, r, result, events', hr, herror, hlast, hdirective, hrest, rfl⟩ :=
      passes_cons_eq_some.1 hpasses
    have htask : tasks[k]? = some (name, task) := by
      rw [← List.head?_drop, htasks]
      rfl
    have htail : tasks.drop (k + 1) = before ++ rest := by
      rw [← tail_drop, htasks]
      rfl
    rw [length_cons, Nat.add_right_comm, loopFrom_task hnames htask rfl hstatus, hr,
      bind_some, loopBehind_continue herror hlast hdirective, ih htail hrest, Option.map_map,
      show k + 1 + before.length = k + (before.length + 1) by omega]
    congr 1
    funext run
    simp [Run.after]

section At

variable (env : Env) (hnames : (tasks.map Prod.fst).Nodup)
  (htasks : tasks = before ++ (name, task) :: rest) (hs : s.workflow.checkpointPosition = none)
  (hpasses : passes exec 0 before c (s.push "do") = some (events, c', s'))
  (hrunning : s'.workflow.status = .running)
include hnames htasks hs hpasses hrunning

/-- The list of a workflow that does not resume, at the task behind those it
passes. -/
theorem executeDo_at (hn : n = before.length + (fuel + 1)) : executeDo env exec n tasks c s =
      ((exec name task c' (s'.pushIdx before.length)).bind
        (loopBehind env exec tasks none fuel name before.length)).map (Run.after events) := by
  have htask : tasks[before.length]? = some (name, task) := by
    rw [htasks]
    simp
  have hdrop : tasks.drop 0 = before ++ (name, task) :: rest := htasks
  rw [executeDo_eq_loopFrom hnames, resumeFrom_eq_none hs, hn,
    loopFrom_passes hnames hdrop hpasses, Nat.zero_add, loopFrom_task hnames htask rfl hrunning]

variable (hr : exec name task c' (s'.pushIdx before.length) = some r) (herror : r.error = none)
  (hlast : r.lastContext = some result)
include hr herror hlast

/-- The list ends behind a task that waits. -/
theorem executeDo_wait (hn : n = before.length + (fuel + 1 + 1))
    (hdirective : result.flowDirective = .wait) : executeDo env exec n tasks c s =
      some ⟨events ++ r.events, none, (suspend env name before.length
        (entryAt tasks (before.length + 1)) result r.state.pop).pop⟩ := by
  rw [executeDo_at env hnames htasks hs hpasses hrunning hn, hr, bind_some,
    loopBehind_wait herror hlast hdirective]
  rfl

/-- The list goes on behind a task that continues. -/
theorem executeDo_continue (hn : n = before.length + (fuel + 1))
    (hdirective : result.flowDirective = .continue_) : executeDo env exec n tasks c s =
      (loopFrom env exec tasks none fuel (before.length + 1) result r.state.pop).map
        (Run.after (events ++ r.events)) := by
  rw [executeDo_at env hnames htasks hs hpasses hrunning hn, hr, bind_some,
    loopBehind_continue herror hlast hdirective, Option.map_map]
  congr 1
  funext run
  simp [Run.after]

end At

/-- Tasks behind the one the list resumes at are not passed over. -/
theorem any_lt_eq_false (k i : ℕ) (hi : k < i) : (some k).any (i < ·) = false := by
  rw [any_some, decide_eq_false_iff_not]
  omega

theorem drop_behind (before : List α) (a : α) (rest : List α) (n : ℕ) :
    (before ++ a :: rest).drop (before.length + 1 + n) = rest.drop n := by
  rw [Nat.add_assoc, ← drop_drop, drop_left, Nat.add_comm, drop_succ_cons]

/-- Lists with the same tasks from index `j` on. -/
theorem entryAt_of_drop (htail : tasks'.drop j = tasks.drop j)
    (hi : j ≤ i) : entryAt tasks' i = entryAt tasks i := by
  have hget : tasks'[i]? = tasks[i]? := by
    rw [show i = j + (i - j) by omega, ← List.getElem?_drop, ← List.getElem?_drop, htail]
  rw [entryAt, entryAt, hget]

theorem taskMap_drop_of_drop (hnames : (tasks.map Prod.fst).Nodup)
    (hnames' : (tasks'.map Prod.fst).Nodup) (htail : tasks'.drop j = tasks.drop j)
    (hi : j ≤ i) : (taskMap tasks').drop i = (taskMap tasks).drop i := by
  refine ext_getElem? fun n => ?_
  rw [List.getElem?_drop, List.getElem?_drop, taskMap_getElem? hnames, taskMap_getElem? hnames',
    entryAt_of_drop htail (by omega)]

theorem entryAt_pure (hpure : ∀ t ∈ tasks.drop j, PureTask t.2) (hi : j ≤ i)
    (he : entryAt tasks i = some e) : PureTask e.2.2 ∧ e.2.1 = i := by
  obtain ⟨t, ht, rfl⟩ := map_eq_some_iff.1 he
  refine ⟨hpure t ?_, rfl⟩
  rw [show i = j + (i - j) by omega, ← List.getElem?_drop] at ht
  exact mem_of_getElem? ht

theorem passes_place (hexec : SimilarExec exec) (hkeeps : KeepsPlace exec)
    (hpure : ∀ t ∈ before, PureTask t.2) (hs : s.workflow.checkpointPosition = none)
    (hpasses : passes exec k before c s = some (events, c', s')) :
    SamePlace s s' ∧ s'.workflow.checkpointPosition = none := by
  induction before generalizing k c s events with
  | nil =>
    obtain ⟨-, -, rfl⟩ : [] = events ∧ c = c' ∧ s = s' := by simpa [passes] using hpasses
    exact ⟨⟨rfl, rfl⟩, hs⟩
  | cons t before ih =>
    obtain ⟨name, task⟩ := t
    obtain ⟨-, r, result, events', hr, herror, -, -, hrest, -⟩ := passes_cons_eq_some.1 hpasses
    have htask : PureTask task := hpure _ mem_cons_self
    have hstarted := (similarTask_refl hexec htask (s := s.pushIdx k) hs hr).state.started
    have hplace := hkeeps name task htask c (s.pushIdx k) r hs hr herror
    obtain ⟨hplace', hs'⟩ := ih (s := r.state.pop)
      (fun t ht => hpure t (mem_cons_of_mem _ ht)) hstarted hrest
    exact ⟨((pop_pushIdx s k).trans hplace.pop).trans hplace', hs'⟩

end Loops

end Jobworkerp.Workflow
