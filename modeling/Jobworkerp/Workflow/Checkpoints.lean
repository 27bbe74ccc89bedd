/-
Jobworkerp/Workflow/Checkpoints.lean

How an execution gets to a checkpoint and goes on behind it (`load_checkpoint`
of `task.rs`, `find_checkpoint_task` of `stream/do.rs`).

* `executeDo_resumed`: a list passes over the tasks before the one on the way;
* `recover_at`, `recover_around`: the task at the checkpoint is started with the
  context of the checkpoint, a task around it with its own input;
* `SameRest.loopBehind`: lists with the same tasks ahead go on alike.
-/
import Jobworkerp.Workflow.WaitTasks

namespace Jobworkerp.Workflow

open List Option

open Text (Json)
open TaskM

/-! ### What a list shows -/

variable {env : Env} {name : String} {settings : Settings} {c c' : TaskContext} {s s' : State}

/-- A list that ends without an error shows what its task has shown. -/
theorem loopBehind_ok
    (h : loopBehind env exec tasks from_ fuel name k r = some R) (hok : R.error = none) :
    r.error = none ∧ ∃ tail, R.events = r.events ++ tail := by
  unfold loopBehind at h
  rcases herror : r.error with - | e
  · refine ⟨rfl, ?_⟩
    rcases hlast : r.lastContext with - | result
    · simp only [herror, hlast, Option.some.injEq] at h
      exact ⟨[], by rw [← h, append_nil]⟩
    · simp only [herror, hlast] at h
      obtain ⟨rest, -, rfl⟩ := map_eq_some_iff.1 h
      exact ⟨rest.events, rfl⟩
  · simp only [herror, Option.some.injEq] at h
    rw [← h] at hok
    cases hok

theorem updateContextByOutput_rawInput : (updateContextByOutput env settings c).Ensures s
    fun c' _ => c'.rawInput = c.rawInput := by
  simp only [updateContextByOutput, ensures_bind, ensures_get, ensures_within, ensures_modify,
    ensures_pure]
  exact fun _ _ _ _ _ _ _ _ _ => trivial

theorem setWork_rawInput
    (h : (setWork env settings values c).eval s = (.ok c', s')) : c'.rawInput = c.rawInput := by
  obtain ⟨c1, s1, hset, houtput⟩ := eval_bind_eq_ok.1 h
  rw [updateContextByOutput_rawInput houtput]
  rw [eval_executeSet] at hset
  split at hset
  · cases hset
    rfl
  · cases hset

/-- A set task shows the input it was given. -/
theorem runTask_set_trace (hset : task.kind = .set) (h : runTask env fuel name task c s = some r)
    (hok : r.error = none) : ∃ values, trace r.events = [(name, c.rawInput, values)] := by
  cases task with
  | set settings values =>
    rw [runTask] at h
    rcases hinput : (updateContextByInput env settings (expression env s c) c).eval s with
      ⟨e | c1, s1⟩
    · rw [Task.settings, hinput] at h
      obtain rfl := Option.some.inj h
      cases hok
    · rw [Task.settings, hinput] at h
      obtain ⟨rfl, input, rfl⟩ := updateContextByInput_ok hinput
      obtain ⟨body, hbody, rfl⟩ := map_eq_some_iff.1 h
      obtain rfl : Run.single name (setWork env settings values (c.setInput input)) s1 = body :=
        Option.some.inj hbody
      rcases heval : (setWork env settings values (c.setInput input)).eval s1 with ⟨e | c', s'⟩
      · rw [finish_single_error heval] at hok
        cases hok
      · refine ⟨(c'.input, c'.output), ?_⟩
        rw [finish_single_ok heval]
        show [(name, c'.rawInput, c'.input, c'.output)] = _
        rw [setWork_rawInput heval]
        rfl
  | do_ | for_ | fork | try_ | switch | raise | wait | call | run => cases hset

/-! ### The same rest -/

/-- Two streams with the same rest, which ends with an error or has a context,
and with the same error, in similar states. -/
structure SameRest (pre pre' rest : List Event) (r r' : Run) : Prop where
  events : r.events = pre ++ rest
  events' : r'.events = pre' ++ rest
  error : r'.error = r.error
  state : Similar (lastContextOf rest ≠ none) r.state r'.state
  noJump : ∀ c, lastContextOf rest = some c → c.NoJump
  concludes : r.error = none → lastContextOf rest ≠ none

namespace SameRest

variable {env : Env} {exec : TaskExecutor} {pre pre' rest : List Event} {r r' : Run}

theorem of_similarTask (h : SimilarTask P r r') : SameRest [] [] r.events r r' :=
  ⟨rfl, h.events, h.error, h.state.mono .inr, fun _ hlast => h.noJump_last hlast, h.concludes⟩

theorem after (h : SameRest pre pre' rest r r') (events events' : List Event) :
    SameRest (events ++ pre) (events' ++ pre') rest (r.after events) (r'.after events') where
  events := by rw [Run.after_events, h.events, append_assoc]
  events' := by rw [Run.after_events, h.events', append_assoc]
  error := h.error
  state := h.state
  noJump := h.noJump
  concludes := h.concludes

theorem lastContext (h : SameRest pre pre' rest r r') (hok : r.error = none) :
    ∃ c, lastContextOf rest = some c ∧ r.lastContext = some c ∧ r'.lastContext = some c := by
  obtain ⟨c, hc⟩ := ne_none_iff_exists'.1 (h.concludes hok)
  refine ⟨c, hc, ?_, ?_⟩
  · rw [Run.lastContext, h.events]
    exact lastContextOf_append_some pre hc
  · rw [Run.lastContext, h.events']
    exact lastContextOf_append_some pre' hc

theorem finish (h : SameRest pre pre' rest r r') (env : Env) (started : Event)
    (position : Position) :
    SameRest (started :: pre) (started :: pre') rest (r.finish env started position)
      (r'.finish env started position) := by
  rcases herror : r.error with - | e
  · obtain ⟨c, hc, hlast, hlast'⟩ := h.lastContext herror
    have herror' : r'.error = none := h.error.trans herror
    obtain ⟨hok, -, hstate⟩ := @Run.finish_of_context env c r started position herror hlast
    obtain ⟨hok', -, hstate'⟩ := @Run.finish_of_context env c r' started position herror' hlast'
    refine ⟨?_, ?_, hok'.trans hok.symm, ?_, h.noJump, fun _ => h.concludes herror⟩
    · rw [(Run.finish_ok hok).2, h.events, cons_append]
    · rw [(Run.finish_ok hok').2, h.events', cons_append]
    · rw [hstate, hstate']
      exact h.state.pop
  · have herror' : r'.error = some e := h.error.trans herror
    simp only [Run.finish, herror, herror']
    exact h.after [started] [started]

/-- The list around: the tasks behind are the same, and none of them is passed
over. -/
theorem loopBehind (henv : Reproducible env) (hexec : SimilarExec exec)
    (hnames : (tasks.map Prod.fst).Nodup) (hnames' : (tasks'.map Prod.fst).Nodup)
    (htail : tasks'.drop (k + 1) = tasks.drop (k + 1))
    (hpure : ∀ t ∈ tasks.drop (k + 1), PureTask t.2)
    (hfrom : ∀ i, k < i → from_'.any (i < ·) = false) (h : SameRest pre pre' rest r r')
    (hR : Workflow.loopBehind env exec tasks none fuel name k r = some R) :
    ∃ R' tail, Workflow.loopBehind env exec tasks' from_' fuel name k r' = some R' ∧
      SameRest pre pre' (rest ++ tail) R R' := by
  unfold Workflow.loopBehind at hR ⊢
  rcases herror : r.error with - | e
  · obtain ⟨result, hrest, hlast, hlast'⟩ := h.lastContext herror
    simp only [herror, hlast] at hR
    simp only [h.error.trans herror, hlast']
    rw [entryAt_of_drop htail le_rfl, taskMap_drop_of_drop hnames hnames' htail (by omega)]
    obtain ⟨hnext, hstate, hahead⟩ := follow_similar henv (taskMap tasks) (taskMap tasks') name k
      (entryAt tasks (k + 1)) (h.noJump result hrest) h.state.pop
    have hloop : SimilarLoop True none from_'
        ⟨(follow env (taskMap tasks) name k (entryAt tasks (k + 1)) result r.state.pop).1,
          (taskMap tasks).drop (k + 2), result,
          (follow env (taskMap tasks) name k (entryAt tasks (k + 1)) result r.state.pop).2⟩
        ⟨(follow env (taskMap tasks') name k (entryAt tasks (k + 1)) result r'.state.pop).1,
          (taskMap tasks).drop (k + 2), result,
          (follow env (taskMap tasks') name k (entryAt tasks (k + 1)) result r'.state.pop).2⟩ := by
      refine ⟨hnext, rfl, rfl, hstate.mono fun _ => ?_, ?_⟩
      · rw [hrest]
        exact some_ne_none result
      · intro e he
        obtain ⟨i, hi, hentry⟩ : ∃ i, k + 1 ≤ i ∧ entryAt tasks i = some e := by
          rcases he with he | he
          · exact ⟨k + 1, le_rfl, hahead e he⟩
          · obtain ⟨n, hn⟩ := mem_iff_getElem?.1 he
            rw [List.getElem?_drop, taskMap_getElem? hnames] at hn
            exact ⟨k + 2 + n, by omega, hn⟩
        obtain ⟨hpure', hindex⟩ := entryAt_pure hpure hi hentry
        exact ⟨hpure', rfl, hfrom _ (by omega)⟩
    obtain ⟨tail, hdo, rfl⟩ := map_eq_some_iff.1 hR
    have hsimilar := doLoop_similar henv hexec (taskMap tasks) (taskMap tasks') hloop fuel
    rw [hdo] at hsimilar
    revert hsimilar
    generalize doLoop env exec (taskMap tasks') from_' fuel _ = loop'
    rintro (⟨hsimilar⟩ | -)
    refine ⟨_, tail.events, rfl, ?_⟩
    have hsome : lastContextOf (rest ++ tail.events) ≠ none := by
      rw [lastContextOf_append, hrest]
      simp
    refine ⟨?_, ?_, hsimilar.error, hsimilar.state.mono fun _ => .inl trivial, ?_, fun _ => hsome⟩
    · rw [Run.after_events, h.events, append_assoc]
    · rw [Run.after_events, h.events', hsimilar.events, append_assoc]
    · intro c hc
      rw [lastContextOf_append] at hc
      rcases or_eq_some_iff.1 hc with hc | ⟨-, hc⟩
      · exact hsimilar.noJump_last hc
      · exact h.noJump c hc
  · simp only [herror] at hR
    obtain rfl := Option.some.inj hR
    simp only [h.error.trans herror]
    refine ⟨_, [], rfl, ?_⟩
    rw [append_nil, h.state.position]
    exact ⟨h.events, h.events', rfl, h.state, h.noJump, by simp⟩

end SameRest

/-! ### Saving and loading -/

section Checkpoints

variable {env : Env} {name : String} {c : TaskContext} {s : State} {q below : Position}

/-- An open wait before another task: the position of the task is saved. -/
theorem suspend_next {next : Task} (henv : Reproducible env) (hsaving : env.checkpointing = true)
    (hopen : OpenAt name pos s) (hq : q = (s.position.pushIdx nextPos).push nextName) :
    suspend env name pos (some (nextName, nextPos, next)) c s =
      { s with
        workflow := { s.workflow with resumePosition := some q, status := .waiting }
        checkpoints := .newWithPosition s c q :: s.checkpoints
        asked := s.asked + 1 } := by
  subst hq
  unfold suspend
  dsimp only
  rw [hopen.not_handled, if_neg Bool.false_ne_true, if_neg (by simp), if_pos hsaving, henv.saves]
  rfl

variable {tasks : TaskList} {task : Task}

/-- A list resumes at its task on the way to the checkpoint. -/
theorem resumeFrom_at (hsaving : env.checkpointing = true)
    (hnames : (tasks.map Prod.fst).Nodup) (htask : tasks[j]? = some (name, task))
    (hpending : s.workflow.checkpointPosition =
      some (s.position ++ .index j :: .name name :: below)) :
    resumeFrom env (taskMap tasks) s = some j := by
  have hrepository : env.checkpointRepository = true := (Bool.and_eq_true_iff.1 hsaving).1
  have hpath : s.workflow.checkpointPosition.bind (·.relativePath s.position) =
      some (.index j :: .name name :: below) := by
    rw [hpending]
    exact relativePath_eq_some.2 rfl
  have hmem : (name, j, task) ∈ taskMap tasks := by
    refine mem_of_getElem? (i := j) ?_
    rw [taskMap_getElem? hnames, entryAt, htask]
    rfl
  rw [resumeFrom, if_pos hrepository, findCheckpointTask, hpath]
  obtain ⟨e, he⟩ : ∃ e, (taskMap tasks).find? (fun entry => entry.1 = name && entry.2.1 = j) =
      some e :=
    isSome_iff_exists.1 (List.find?_isSome.2 ⟨_, hmem, by simp⟩)
  have hfound := List.find?_some he
  simp only [Bool.and_eq_true, decide_eq_true_eq] at hfound
  show Option.map _ ((taskMap tasks).find? (fun entry => entry.1 = name && entry.2.1 = j)) = _
  rw [he, Option.map_some, hfound.2]

/-- A list on the way to the checkpoint goes to its task on the way. -/
theorem executeDo_resumed (hsaving : env.checkpointing = true)
    (hnames : (tasks.map Prod.fst).Nodup) (hn : n = j + (fuel + 1))
    (htask : tasks[j]? = some (name, task)) (hpending : s.workflow.checkpointPosition =
      some ((s.push "do").position ++ .index j :: .name name :: below))
    (hrunning : s.workflow.status = .running) :
    executeDo env exec n tasks c s =
      (exec name task c ((s.push "do").pushIdx j)).bind
        (loopBehind env exec tasks (some j) fuel name j) := by
  have hlt : j < tasks.length := (List.getElem?_eq_some_iff.1 htask).1
  have hlist : (s.push "do").workflow.status = .running := hrunning
  rw [executeDo_eq_loopFrom hnames, resumeFrom_at hsaving hnames htask hpending,
    loopFrom_skipTo hnames hn hlt.le, loopFrom_task hnames htask (by simp) hlist]

/-- A task around the checkpoint runs with its own input. -/
theorem recover_around (hbelow : below ≠ [])
    (hpending : s.workflow.checkpointPosition = some (s.position ++ below)) :
    (recover env name c).eval s = (.ok (some c), s) := by
  have hpath : (s.position ++ below).relativePath s.position = some below :=
    relativePath_eq_some.2 rfl
  unfold recover
  simp only [eval_bind, eval_get, hpending, hpath, hbelow, decide_false, Bool.false_and,
    Bool.false_eq_true, if_false, eval_pure]

/-- The state with the variables of a checkpoint. -/
def State.loaded (s : State) (cp : CheckPointContext) : State :=
  { s with
    workflow := { s.workflow with
      position := cp.position
      input := cp.workflow.input
      contextVariables := cp.workflow.contextVariables
      checkpointPosition := none }
    taskVariables := cp.task.contextVariables
    asked := s.asked + 1 }

/-- The task at the checkpoint runs with the context of the checkpoint. -/
theorem recover_at (henv : Reproducible env) (hsaving : env.checkpointing = true)
    {rest : List CheckPointContext} (hpending : s.workflow.checkpointPosition = some s.position)
    (hcp : cp.position = s.position) (hsaved : s.checkpoints = cp :: rest) :
    (recover env name c).eval s = (.ok (some (.newFromCp cp.task)), s.loaded cp) := by
  have hid : env.executionId.isSome = true := (Bool.and_eq_true_iff.1 hsaving).2
  have hfind : s.checkpoints.find? (env.pointer ·.position = env.pointer s.position) = some cp := by
    rw [hsaved, List.find?_cons_of_pos (by simp [hcp])]
  unfold recover loadCheckpoint
  simp only [eval_bind, eval_get, hpending, relativePath_self, hid, decide_true, Bool.and_self,
    if_true, hsaving, eval_ask, henv.loads, hfind, eval_modify, eval_pure]
  rfl

end Checkpoints

end Jobworkerp.Workflow
