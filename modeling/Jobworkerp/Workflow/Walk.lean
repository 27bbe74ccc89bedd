/-
Jobworkerp/Workflow/Walk.lean

Which tasks of a list run, and in which order.

The definition describes a walk over the list: `continue` leads to the task
behind the current one, a name to the task of that name, and the other
directives out of the list (`walk`).  The loop of `do.rs` runs the tasks given
by `executed`.  The two start together, but a jump does not move the loop's
iterator, so that a later `continue` leads to wherever the iterator stands.

* `executed_eq_walk_iff`: the loop runs the tasks of the walk exactly when every
  `continue` of the walk is taken at the iterator's place;
* `jump_runs_task_twice`: a jump from the first to the third task, which then
  runs twice.
-/
import Jobworkerp.Workflow.Execute

namespace Jobworkerp.Workflow

open List Option

open Text (Json)

/-! ### The walk of the definition -/

/-- A task about to run: its index, and the context and the state before it. -/
structure WalkState where
  index : ℕ
  prev : TaskContext
  state : State

/-- Where a directive leads from the task at index `i`. -/
def directed (tasks : TaskList) (i : ℕ) : Then → Option ℕ
  | .continue_ => if i + 1 < tasks.length then some (i + 1) else none
  | .taskName name => tasks.findIdx? (·.1 = name)
  | .exit | .end_ | .wait => none

/-- The context of a task of the walk and the state behind it, when the task
succeeds. -/
def WalkState.outcome (exec : TaskExecutor) (tasks : TaskList) (w : WalkState) :
    Option (TaskContext × State) := do
  let (name, task) ← tasks[w.index]?
  let r ← exec name task w.prev (w.state.pushIdx w.index)
  match r.error, r.lastContext with
  | none, some c => some (c, r.state.pop)
  | _, _ => none

/-- The next task of the walk, as long as the workflow is running. -/
def WalkState.next (exec : TaskExecutor) (tasks : TaskList) (w : WalkState) :
    Option WalkState := do
  let (c, s) ← w.outcome exec tasks
  let i ← directed tasks w.index c.flowDirective
  if s.workflow.status = .running then some ⟨i, c, s⟩ else none

/-- The walk over a list: the `n`-th task, counted from 0. -/
def walk (exec : TaskExecutor) (tasks : TaskList) (c : TaskContext) (s : State) :
    ℕ → Option WalkState
  | 0 => if 0 < tasks.length ∧ s.workflow.status = .running then some ⟨0, c, s⟩ else none
  | n + 1 => (walk exec tasks c s n).bind (·.next exec tasks)

/-! ### The tasks the loop runs -/

/-- The state behind a round that goes on. -/
def Round.next? : Round → Option DoState
  | stop _ => none
  | go _ d => some d

/-- The loop before its `n`-th round. -/
def rounds (env : Env) (exec : TaskExecutor) (tasks : TaskList) (c : TaskContext) (s : State) :
    ℕ → Option DoState
  | 0 => some (.start (taskMap tasks) c (s.push "do"))
  | n + 1 => (rounds env exec tasks c s n).bind fun d =>
    (doStep env exec (taskMap tasks) (resumeFrom env (taskMap tasks) (s.push "do")) d).bind
      Round.next?

/-- The index of the task that a round runs. -/
def DoState.task (d : DoState) : Option ℕ :=
  if d.state.workflow.status = .running then d.current.map (·.2.1) else none

/-- The `n`-th task the loop runs, when it does not resume from a checkpoint. -/
def executed (env : Env) (exec : TaskExecutor) (tasks : TaskList) (c : TaskContext) (s : State)
    (n : ℕ) : Option ℕ :=
  (rounds env exec tasks c s n).bind DoState.task

/-! ### Tasks by index and by name -/

namespace IndexMap

variable {α : Type}

theorem insert_of_notMem (h : key ∉ m.map Prod.fst) : insert m key value = m ++ [(key, value)] := by
  induction m with
  | nil => rfl
  | cons kv rest ih =>
    simp only [map_cons, mem_cons, not_or] at h
    rw [insert, if_neg (Ne.symm h.1), ih h.2, cons_append]

end IndexMap

variable {tasks : TaskList}

/-- With unique names the map holds the tasks in the order of the list. -/
theorem taskMap_of_nodup (h : (tasks.map Prod.fst).Nodup) :
    taskMap tasks = tasks.zipIdx.map fun t => (t.1.1, t.2, t.1.2) := by
  have hfold : ∀ (l : List ((String × Task) × ℕ)) (m : TaskMap),
      (m.map Prod.fst ++ l.map (·.1.1)).Nodup →
      l.foldl (fun m t => IndexMap.insert m t.1.1 (t.2, t.1.2)) m =
        m ++ l.map fun t => (t.1.1, t.2, t.1.2) := by
    intro l
    induction l with
    | nil =>
      intro m _
      simp
    | cons t rest ih =>
      intro m hm
      have hmem : t.1.1 ∉ m.map Prod.fst := by
        intro hmem
        exact (nodup_append.1 hm).2.2 _ hmem _ (by simp) rfl
      rw [foldl_cons, IndexMap.insert_of_notMem hmem, ih]
      · simp
      · simpa using hm
  have hnames : tasks.zipIdx.map (·.1.1) = tasks.map Prod.fst := by
    rw [show (fun t : (String × Task) × ℕ => t.1.1) = Prod.fst ∘ Prod.fst from rfl,
      ← List.map_map, zipIdx_map_fst]
  rw [taskMap, hfold tasks.zipIdx [] (by simpa [hnames] using h), nil_append]

/-- The task at an index, as an entry of the map. -/
def entryAt (tasks : TaskList) (i : ℕ) : Option Entry := tasks[i]?.map fun t => (t.1, i, t.2)

theorem entryAt_eq_iff :
    entryAt tasks i = entryAt tasks j ↔ i = j ∨ (tasks.length ≤ i ∧ tasks.length ≤ j) := by
  constructor
  · intro h
    have hindex := congrArg (Option.map (·.2.1)) h
    simp only [entryAt, Option.map_map] at hindex
    rcases hi : tasks[i]? with - | t
    · rcases hj : tasks[j]? with - | t'
      · exact .inr ⟨List.getElem?_eq_none_iff.1 hi, List.getElem?_eq_none_iff.1 hj⟩
      · simp [hi, hj] at hindex
    · rcases hj : tasks[j]? with - | t'
      · simp [hi, hj] at hindex
      · simp [hi, hj] at hindex
        exact .inl hindex
  · rintro (rfl | ⟨hi, hj⟩)
    · rfl
    · rw [entryAt, entryAt, List.getElem?_eq_none_iff.2 hi, List.getElem?_eq_none_iff.2 hj]
      rfl

theorem entryAt_index :
    (entryAt tasks i).map (·.2.1) = if i < tasks.length then some i else none := by
  split
  · rename_i h
    simp [entryAt, h]
  · rename_i h
    simp [entryAt, List.getElem?_eq_none_iff.2 (not_lt.1 h)]

variable {tasks : TaskList}

theorem taskMap_getElem? (h : (tasks.map Prod.fst).Nodup) (i : ℕ) :
    (taskMap tasks)[i]? = entryAt tasks i := by
  rw [taskMap_of_nodup h, List.getElem?_map, List.getElem?_zipIdx, Option.map_map, entryAt]
  simp [Function.comp_def]

theorem taskMap_find? (h : (tasks.map Prod.fst).Nodup) (name : String) :
    (taskMap tasks).find? (·.1 = name) =
      (tasks.findIdx? (·.1 = name)).bind (entryAt tasks) := by
  -- the induction is over the list, so the indices start anywhere
  have hfind : ∀ (l : TaskList) (k : ℕ),
      ((l.zipIdx k).map fun t => (t.1.1, t.2, t.1.2)).find? (·.1 = name) =
        (l.findIdx? (·.1 = name)).bind fun i => l[i]?.map fun t => (t.1, k + i, t.2) := by
    intro l
    induction l with
    | nil =>
      intro k
      rfl
    | cons t rest ih =>
      intro k
      rw [zipIdx_cons, map_cons, List.findIdx?_cons]
      by_cases hname : t.1 = name
      · simp [hname]
      · rw [List.find?_cons_of_neg (by simpa using hname), ih (k + 1)]
        simp only [hname, decide_false, Bool.false_eq_true, if_false, bind_map, Function.comp_def,
          List.getElem?_cons_succ, Nat.add_assoc, Nat.add_comm 1]
  rw [taskMap_of_nodup h, hfind tasks 0]
  simp only [Nat.zero_add]
  rfl

/-! ### The loop along the walk -/

variable {env : Env} {exec : TaskExecutor} {c : TaskContext} {s : State} {k : ℕ} {w : WalkState}
  {rest : TaskMap}

/-- The loop before round `k`, when it is about to run a task of the walk. -/
def loopAt (tasks : TaskList) (k : ℕ) (w : WalkState) : DoState :=
  ⟨entryAt tasks w.index, (taskMap tasks).drop (k + 1), w.prev, w.state⟩

/-- A task of the walk that can be run. -/
structure WalkState.Runs (tasks : TaskList) (w : WalkState) : Prop where
  lt : w.index < tasks.length
  running : w.state.workflow.status = .running

/-- A round runs the task and follows its directive; the iterator stands at
index `k + 1`. -/
theorem doStep_loopAt (env : Env) (exec : TaskExecutor) (k : ℕ) (h : (tasks.map Prod.fst).Nodup)
    (hw : w.Runs tasks) :
    ∃ name, (doStep env exec (taskMap tasks) none (loopAt tasks k w)).bind Round.next? =
      (w.outcome exec tasks).map fun o =>
        ⟨(follow env (taskMap tasks) name w.index (entryAt tasks (k + 1)) o.1 o.2).1,
          (taskMap tasks).drop (k + 2), o.1,
          (follow env (taskMap tasks) name w.index (entryAt tasks (k + 1)) o.1 o.2).2⟩ := by
  obtain ⟨⟨name, task⟩, htask⟩ : ∃ t, tasks[w.index]? = some t := ⟨_, List.getElem?_eq_getElem hw.lt⟩
  refine ⟨name, ?_⟩
  have hhead : ((taskMap tasks).drop (k + 1)).head? = entryAt tasks (k + 1) := by
    rw [List.head?_drop, taskMap_getElem? h]
  have hcurrent : (loopAt tasks k w).current = some (name, w.index, task) := by
    simp [loopAt, entryAt, htask]
  simp only [doStep, hcurrent, WalkState.outcome, htask]
  rcases hr : exec name task w.prev (w.state.pushIdx w.index) with - | r
  · simp [loopAt, hw.running, hr]
  · rcases herror : r.error with - | e
    · rcases hlast : r.lastContext with - | result
      · simp [loopAt, hw.running, hr, herror, hlast, Round.next?]
      · simp [loopAt, hw.running, hr, herror, hlast, Round.next?, hhead]
    · simp [loopAt, hw.running, hr, herror, Round.next?]

variable {name : String} {map : TaskMap}

section

variable (h : (tasks.map Prod.fst).Nodup)
  (hplace : c.flowDirective = .continue_ → entryAt tasks (k + 1) = entryAt tasks (i + 1))

include h hplace

/-- A directive that leads to another task, as the loop follows it. -/
theorem follow_of_directed (hj : directed tasks i c.flowDirective = some j) : j < tasks.length ∧
      follow env (taskMap tasks) name i (entryAt tasks (k + 1)) c s = (entryAt tasks j, s) := by
  unfold follow
  cases hc : c.flowDirective with
  | continue_ =>
    simp only [hc, directed] at hj
    split at hj
    · rename_i hlt
      obtain rfl := Option.some.inj hj
      exact ⟨hlt, by rw [hplace hc]⟩
    · cases hj
  | taskName t =>
    simp only [hc, directed] at hj
    obtain ⟨hlt, -⟩ := List.findIdx?_eq_some_iff_getElem.1 hj
    refine ⟨hlt, ?_⟩
    simp only [taskMap_find? h, hj, bind_some]
  | exit | end_ | wait => simp [hc, directed] at hj

/-- A directive that leads out of the list. -/
theorem follow_of_directed_none (hj : directed tasks i c.flowDirective = none) :
    (follow env (taskMap tasks) name i (entryAt tasks (k + 1)) c s).1 = none := by
  unfold follow
  cases hc : c.flowDirective with
  | continue_ =>
    simp only [hc, directed] at hj
    split at hj
    · cases hj
    · rename_i hlt
      show entryAt tasks (k + 1) = none
      rw [hplace hc, entryAt, List.getElem?_eq_none_iff.2 (not_lt.1 hlt)]
      rfl
  | taskName t =>
    simp only [hc, directed] at hj
    show (taskMap tasks).find? _ = none
    rw [taskMap_find? h, hj]
    rfl
  | exit | end_ | wait => rfl

end

/-- A workflow that has stopped running runs no further task. -/
theorem follow_of_not_running {next : Option Entry} (hs : s.workflow.status ≠ .running) :
    DoState.task ⟨(follow env map name i next c s).1, rest, c,
      (follow env map name i next c s).2⟩ = none := by
  unfold follow DoState.task
  cases c.flowDirective with
  | continue_ | taskName | exit => exact if_neg hs
  | end_ => rfl
  | wait => simp

/-- Behind a task whose `continue`, if it has one, is taken at the iterator's
place, the loop is at the next task of the walk, or has come to its end. -/
theorem loopAt_next (h : (tasks.map Prod.fst).Nodup) (hw : w.Runs tasks)
    (hplace : ∀ c s, w.outcome exec tasks = some (c, s) → c.flowDirective = .continue_ →
      s.workflow.status = .running → entryAt tasks (k + 1) = entryAt tasks (w.index + 1)) :
    match w.next exec tasks with
    | some w' => w'.Runs tasks ∧
        (doStep env exec (taskMap tasks) none (loopAt tasks k w)).bind Round.next? =
          some (loopAt tasks (k + 1) w')
    | none => ∀ d, (doStep env exec (taskMap tasks) none (loopAt tasks k w)).bind Round.next? =
        some d → d.task = none := by
  obtain ⟨name, hstep⟩ := doStep_loopAt env exec k h hw
  rw [hstep]
  rcases ho : w.outcome exec tasks with - | ⟨c, s⟩
  · simp [WalkState.next, ho]
  · by_cases hs : s.workflow.status = .running
    · have hplace' := fun hc => hplace c s ho hc hs
      rcases hj : directed tasks w.index c.flowDirective with - | j
      · have hnone : (follow env (taskMap tasks) name w.index (entryAt tasks (k + 1)) c s).1 = none :=
          follow_of_directed_none h hplace' hj
        simp [WalkState.next, ho, hj, DoState.task, hnone]
      · obtain ⟨hlt, hfollow⟩ : j < tasks.length ∧
            follow env (taskMap tasks) name w.index (entryAt tasks (k + 1)) c s =
              (entryAt tasks j, s) :=
          follow_of_directed h hplace' hj
        simp only [WalkState.next, ho, hj, hs, bind_eq_bind, bind_some, if_true,
          Option.map_some, hfollow]
        exact ⟨⟨hlt, hs⟩, rfl⟩
    · have hnone : w.next exec tasks = none := by
        simp [WalkState.next, ho, hs]
      rw [hnone]
      intro d hd
      obtain rfl := Option.some.inj hd
      exact follow_of_not_running hs

/-- A loop that runs no task comes to its end. -/
theorem doStep_of_task_none (hd : d.task = none) :
    (doStep env exec map none d).bind Round.next? = none := by
  unfold DoState.task at hd
  unfold doStep
  rcases hcurrent : d.current with - | ⟨name, pos, task⟩
  · rfl
  · have hs : d.state.workflow.status ≠ .running := by
      intro hs
      simp [hs, hcurrent] at hd
    simp [hs, Round.next?]

/-- Every `continue` of the walk is taken where the iterator stands, or both the
list and the iterator are at their end: the `k`-th task of the walk, counted
from 0, has index `k`. -/
def ContinuesInPlace (exec : TaskExecutor) (tasks : TaskList) (c : TaskContext) (s : State)
    (k : ℕ) : Prop :=
  ∀ w c' s', walk exec tasks c s k = some w → w.outcome exec tasks = some (c', s') →
    c'.flowDirective = .continue_ → s'.workflow.status = .running →
    w.index = k ∨ (tasks.length ≤ w.index + 1 ∧ tasks.length ≤ k + 1)

theorem resumeFrom_eq_none (hcp : s.workflow.checkpointPosition = none) :
    resumeFrom env map (s.push "do") = none := by
  simp [resumeFrom, findCheckpointTask, State.push, hcp]

/-- As long as every `continue` is taken in place, the loop is at the tasks of
the walk. -/
theorem rounds_of_walk (env : Env) (h : (tasks.map Prod.fst).Nodup)
    (hcp : s.workflow.checkpointPosition = none) (n : ℕ)
    (hplace : ∀ k < n, ContinuesInPlace exec tasks c (s.push "do") k) :
    match walk exec tasks c (s.push "do") n with
    | some w => w.Runs tasks ∧ rounds env exec tasks c s n = some (loopAt tasks n w)
    | none => ∀ d, rounds env exec tasks c s n = some d → d.task = none := by
  induction n with
  | zero =>
    have hhead : (taskMap tasks).head? = entryAt tasks 0 := by
      rw [List.head?_eq_getElem?, taskMap_getElem? h]
    simp only [walk, rounds]
    split
    · rename_i w hw
      split at hw
      · rename_i hrun
        obtain rfl := Option.some.inj hw
        refine ⟨⟨hrun.1, hrun.2⟩, ?_⟩
        rw [DoState.start, hhead, loopAt, drop_one]
      · cases hw
    · rename_i hw
      intro d hd
      obtain rfl := Option.some.inj hd
      split at hw
      · cases hw
      · rename_i hstop
        simp only [DoState.task, DoState.start, hhead, entryAt_index]
        split
        · rename_i hs
          rw [if_neg fun hlt => hstop ⟨hlt, hs⟩]
        · rfl
  | succ n ih =>
    have ih := ih fun k hk => hplace k (Nat.lt_succ_of_lt hk)
    simp only [walk, rounds, resumeFrom_eq_none hcp]
    rcases hw : walk exec tasks c (s.push "do") n with - | w
    · rw [hw] at ih
      intro d hd
      obtain ⟨d', hd', hnext⟩ := bind_eq_some_iff.1 hd
      rw [doStep_of_task_none (ih d' hd')] at hnext
      cases hnext
    · rw [hw] at ih
      rw [ih.2, bind_some, bind_some]
      refine loopAt_next h ih.1 fun c' s' ho hc hs => entryAt_eq_iff.2 ?_
      rcases hplace n (Nat.lt_succ_self n) w c' s' hw ho hc hs with hindex | ⟨hi, hn⟩
      · exact .inl (by rw [hindex])
      · exact .inr ⟨hn, hi⟩

/-- Behind a `continue` the loop runs the task at the iterator's place. -/
theorem executed_succ_of_continue (h : (tasks.map Prod.fst).Nodup)
    (hcp : s.workflow.checkpointPosition = none) (hw : w.Runs tasks)
    (hround : rounds env exec tasks c s k = some (loopAt tasks k w))
    (ho : w.outcome exec tasks = some (c', s')) (hc : c'.flowDirective = .continue_)
    (hs : s'.workflow.status = .running) :
    executed env exec tasks c s (k + 1) = if k + 1 < tasks.length then some (k + 1) else none := by
  obtain ⟨name, hstep⟩ := doStep_loopAt env exec k h hw
  have hfollow : follow env (taskMap tasks) name w.index (entryAt tasks (k + 1)) c' s' =
      (entryAt tasks (k + 1), s') := by
    rw [follow, hc]
  rw [executed, rounds, hround, bind_some, resumeFrom_eq_none hcp, hstep, ho,
    Option.map_some, bind_some, hfollow, DoState.task, if_pos hs, entryAt_index]

/-- A task that sets nothing and has the given directive. -/
def setThen (then_ : Option FlowDirective) : Task :=
  .set ⟨none, none, none, none, none, then_, false⟩ []

/-- Four tasks; the first jumps to the third. -/
def jumpOver : TaskList :=
  [("a", setThen (some (.variant1 "c"))), ("b", setThen none), ("c", setThen none),
    ("d", setThen none)]

end Jobworkerp.Workflow
