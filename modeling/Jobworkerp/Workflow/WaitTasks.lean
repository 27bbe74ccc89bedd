/-
Jobworkerp/Workflow/WaitTasks.lean

A task that waits, next to the task that continues instead.

The task is a set task, or a do task with such a task at the end of its list, so
that the wait is handed on to the list around it.  Up to the directive both are
executed alike.

* `parted_of_reaches`: the same tasks complete with the same values, and the wait
  is left to the list around.
-/
import Jobworkerp.Workflow.ListRuns

namespace Jobworkerp.Workflow

open List

open Text (Json)
open TaskM

/-! ### Traces -/

/-- The tasks that completed, with their inputs and their outputs. -/
def trace (events : List Event) : List (String × Json × Json × Json) :=
  events.filterMap fun
    | .completed name c => some (name, c.rawInput, c.input, c.output)
    | .started .. | .itemFailed .. => none

@[simp] theorem trace_append (events events' : List Event) :
    trace (events ++ events') = trace events ++ trace events' :=
  filterMap_append

@[simp] theorem trace_started (kind : TaskKind) (name : String) (position : Position)
    (events : List Event) : trace (.started kind name position :: events) = trace events := rfl

/-! ### The task that waits -/

/-- A set task whose directive is left open, or a do task with such a task at
the end of its list. -/
inductive WaitTask
  | set (settings : Settings) (values : List (String × Json))
  | do_ (settings : Settings) (before : TaskList) (name : String) (last : WaitTask)

namespace WaitTask

/-- The task with a directive. -/
def task (directive : FlowDirectiveEnum) : WaitTask → Task
  | set settings values => .set { settings with then_ := some (.variant0 directive) } values
  | do_ settings before name last => .do_ settings (before ++ [(name, last.task directive)])

/-- No task has an `if`, none jumps, and the names in a list differ. -/
def Wf : WaitTask → Prop
  | set settings _ => settings.if_ = none
  | do_ settings before name last =>
    settings.if_ = none ∧ (∀ t ∈ before, PureTask t.2) ∧ (before.map Prod.fst ++ [name]).Nodup ∧
      last.Wf

/-- The task is executed as far as to its directive: the tasks before the last
one continue, and the set task ends without an error. -/
def Reaches (env : Env) : ℕ → WaitTask → String → TaskContext → State → Prop
  | 0, _, _, _, _ => False
  | fuel + 1, set settings values, name, prev, s =>
    ∃ r, execute env (fuel + 1) name ((set settings values).task .continue_) prev s = some r ∧
      r.error = none
  | fuel + 1, do_ settings before lastName last, name, prev, s =>
    before.length + 2 ≤ fuel ∧ ∃ c events c' s',
      (updateContextByInput env settings (expression env (s.push name) (.new prev.output))
        (.new prev.output)).eval (s.push name) = (.ok c, s.push name) ∧
      passes (execute env fuel) 0 before c ((s.push name).push "do") = some (events, c', s') ∧
      s'.workflow.status = .running ∧
      last.Reaches env fuel lastName c' (s'.pushIdx before.length)

theorem pureTask {task : WaitTask} (h : task.Wf) (directive : FlowDirectiveEnum) :
    PureTask (task.task directive) := by
  induction task with
  | set settings values => exact .set h (by simp)
  | do_ settings before name last ih =>
    obtain ⟨hif, hbefore, -, hlast⟩ := h
    refine .do_ hif fun t ht => ?_
    rcases mem_append.1 ht with ht | ht
    · exact hbefore t ht
    · obtain rfl := mem_singleton.1 ht
      exact ih hlast

end WaitTask

/-- The streams of a task that waits, and of the task that continues instead:
the same tasks have completed with the same values, and the wait is open at the
list around the task. -/
structure Parted (name : String) (s : State) (r₁ r₃ : Run) : Prop where
  ok₁ : r₁.error = none
  ok₃ : r₃.error = none
  trace_eq : trace r₁.events = trace r₃.events
  contexts : ∃ c₁ c₃, r₁.lastContext = some c₁ ∧ r₃.lastContext = some c₃ ∧ SameValues c₃ c₁ ∧
    c₁.flowDirective = .wait ∧ c₃.flowDirective = .continue_
  sameVariables : SameVariables r₃.state r₁.state
  running : r₃.state.workflow.status = .running
  opened : r₁.state.workflow.status = .running ∨
    r₁.state.workflow.resumePosition = some (s.position.push name)

theorem Parted.openAt {name : String} {k : ℕ} {s : State} {r₁ r₃ : Run}
    (h : Parted name (s.pushIdx k) r₁ r₃) (hplace : SamePlace (s.pushIdx k) r₁.state) :
    OpenAt name k r₁.state.pop := by
  refine h.opened.imp id fun hresume => hresume.trans ?_
  have hlist := ((pop_pushIdx s k).trans hplace.pop).position
  exact congrArg (fun p : Position => some ((p.pushIdx k).push name)) hlist.symm

section Waiting

variable {env : Env} {fuel : ℕ} {name : String} {prev : TaskContext} {s : State}

/-- The work of a set task that has started, with its output settings. -/
def setWork (env : Env) (settings : Settings) (values : List (String × Json)) (c : TaskContext) :
    TaskM TaskContext :=
  executeSet env values c >>= updateContextByOutput env settings

variable {settings : Settings} {values : List (String × Json)} {c : TaskContext} {s1 : State}
  {x : TaskM TaskContext}

theorem execute_set (hstarts : Starts env name (.set settings values) prev s c s1) :
    execute env (fuel + 1) name (.set settings values) prev s =
      some ((Run.single name (setWork env settings values c) s1).finish env
        (.started .set name s1.position) s1.position) := by
  rw [execute_of_starts hstarts]
  rfl

theorem finish_single_ok (h : x.eval s = (.ok c, s1)) (started : Event) (position : Position) :
    (Run.single name x s).finish env started position =
      ⟨[started, .completed name c], none, (s1.completed c).pop⟩ := by
  rw [Run.single, h]
  rfl

theorem finish_single_error
    (h : x.eval s = (.error e, s1)) (started : Event) (position : Position) :
    (Run.single name x s).finish env started position = ⟨[started], some e, s1⟩ := by
  rw [Run.single, h]
  rfl

theorem setWork_directives (henv : Reproducible env) (settings : Settings)
    (values : List (String × Json)) (c : TaskContext) (hs : s.workflow.checkpointPosition = none) :
    SameEnd True (fun a a' => SameValues a a' ∧ a.flowDirective = .continue_ ∧
      a'.flowDirective = .wait)
      ((setWork env { settings with then_ := some (.variant0 .continue_) } values c).eval s)
      ((setWork env { settings with then_ := some (.variant0 .wait) } values c).eval s) := by
  have hsettings : SameOutput { settings with then_ := some (.variant0 .continue_) }
      { settings with then_ := some (.variant0 .wait) } := ⟨rfl, rfl, rfl⟩
  have hown : ∀ output vars s s', Similar True s s' →
      SameEnd True (fun d d' => d = Then.continue_ ∧ d' = Then.wait)
        (ownDirective env { settings with then_ := some (.variant0 .continue_) } output vars, s)
        (ownDirective env { settings with then_ := some (.variant0 .wait) } output vars, s') :=
    fun _ _ _ _ h => ⟨h, rfl, rfl⟩
  refine SameEnd.bind (executeSet_similar henv values (.refl True hs) (.refl c)) ?_
  intro c2 c2' s2 s2' hc2 hs2
  exact updateContextByOutput_sameOutput henv hsettings hown hs2 hc2

theorem parted_set (henv : Reproducible env)
    (hwf : (WaitTask.set settings values).Wf) (hs : s.workflow.checkpointPosition = none)
    (hrunning : s.workflow.status = .running)
    (hr3 : execute env (fuel + 1) name ((WaitTask.set settings values).task .continue_) prev s =
      some r₃) (hok : r₃.error = none) :
    ∃ r₁, execute env (fuel + 1) name ((WaitTask.set settings values).task .wait) prev s =
      some r₁ ∧ Parted name s r₁ r₃ := by
  have hpure := WaitTask.pureTask hwf .continue_
  obtain ⟨c, hstarts⟩ := starts_of_ok hpure.if_ hs hr3 hok
  have hstarts1 : Starts env name ((WaitTask.set settings values).task .wait) prev s c
      (s.push name) := hstarts
  obtain ⟨hframe, -⟩ := single_frame rfl executeSet_frame hstarts hr3 hok
  have hsame := setWork_directives henv settings values c (s := s.push name) hs
  rw [WaitTask.task] at hr3 hstarts hstarts1 ⊢
  rw [execute_set hstarts] at hr3
  rw [execute_set hstarts1]
  obtain rfl := Option.some.inj hr3
  rcases h3 : (setWork env { settings with then_ := some (.variant0 .continue_) } values c).eval
    (s.push name) with ⟨e | c₃, s3⟩
  · rw [finish_single_error h3] at hok
    cases hok
  · rcases h1 : (setWork env { settings with then_ := some (.variant0 .wait) } values c).eval
      (s.push name) with ⟨e | c₁, s1⟩
    · rw [h3, h1] at hsame
      exact hsame.2.elim
    · rw [h3, h1] at hsame
      obtain ⟨hstate, hvalues, hcontinue, hwait⟩ := hsame
      rw [finish_single_ok h3] at hframe ⊢
      rw [finish_single_ok h1]
      refine ⟨_, rfl, rfl, rfl, ?_, ⟨c₁, c₃, rfl, rfl, hvalues, hwait, hcontinue⟩, ?_, ?_, ?_⟩
      · show [(name, c₁.rawInput, c₁.input, c₁.output)] = [(name, c₃.rawInput, c₃.input, c₃.output)]
        rw [hvalues.rawInput, hvalues.input, hvalues.output]
      · exact ⟨hstate.name, hstate.input, hstate.contextVariables,
          hstate.started'.trans hstate.started.symm, hstate.taskVariables⟩
      · exact hframe.status.trans hrunning
      · exact .inl (hstate.status.trans (hframe.status.trans hrunning))

theorem execute_do {tasks : TaskList} {c result : TaskContext}
    {body : Run} (hstarts : Starts env name (.do_ settings tasks) prev s c s1)
    (hbody : executeDo env (execute env fuel) fuel tasks c s1 = some body)
    (herror : body.error = none) (hlast : body.lastContext = some result) :
    ∃ r, execute env (fuel + 1) name (.do_ settings tasks) prev s = some r ∧ r.error = none ∧
      r.events = .started .do_ name s1.position :: body.events ∧ r.lastContext = some result ∧
      r.state = body.state.pop := by
  obtain ⟨hok, hlast', hstate⟩ := @Run.finish_of_context env result body
    (.started .do_ name s1.position) s1.position herror hlast
  refine ⟨_, ?_, hok, (Run.finish_ok hok).2, hlast', hstate⟩
  rw [execute_of_starts hstarts]
  show (executeDo env (execute env fuel) fuel tasks c s1).map _ = _
  rw [hbody]
  rfl

theorem WaitTask.names_nodup {before : TaskList} {name : String} {task : Task}
    (h : (before.map Prod.fst ++ [name]).Nodup) :
    ((before ++ [(name, task)]).map Prod.fst).Nodup := by
  rwa [map_append]

/-- **A task that waits is executed as the task that continues, up to its
directive.** -/
theorem parted_of_reaches (henv : Reproducible env) {task : WaitTask} (hwf : task.Wf)
    (hs : s.workflow.checkpointPosition = none) (hrunning : s.workflow.status = .running)
    (hposition : s.position ≠ []) (hreach : task.Reaches env fuel name prev s) :
    ∃ r₁ r₃, execute env fuel name (task.task .wait) prev s = some r₁ ∧
      execute env fuel name (task.task .continue_) prev s = some r₃ ∧ Parted name s r₁ r₃ := by
  induction task generalizing fuel name prev s with
  | set settings values =>
    cases fuel with
    | zero => exact hreach.elim
    | succ fuel =>
      obtain ⟨r₃, hr3, hok⟩ := hreach
      obtain ⟨r₁, hr1, hparted⟩ := parted_set henv hwf hs hrunning hr3 hok
      exact ⟨r₁, r₃, hr1, hr3, hparted⟩
  | do_ settings before lastName last ih =>
    cases fuel with
    | zero => exact hreach.elim
    | succ fuel =>
      obtain ⟨hif, hbefore, hnames, hlastWf⟩ := hwf
      obtain ⟨hfuel, c, events, c', s', hinput, hpasses, hrunning', hlast⟩ := hreach
      obtain ⟨hplace, hs'⟩ := passes_place (execute_similar henv fuel) (execute_place henv fuel)
        hbefore (s := (s.push name).push "do") hs hpasses
      obtain ⟨t1, t3, ht1, ht3, hparted⟩ := ih (s := s'.pushIdx before.length) hlastWf hs' hrunning'
        (by simp [State.pushIdx, Position.pushIdx]) hlast
      obtain ⟨c₁, c₃, hc1, hc3, hvalues, hwait, hcontinue⟩ := hparted.contexts
      have hrecover : (recover env name (.new prev.output)).eval (s.push name) =
          (.ok (some (.new prev.output)), s.push name) := recover_started name _ hs
      obtain ⟨g, hg⟩ : ∃ g, fuel = before.length + (g + 1 + 1) :=
        ⟨fuel - before.length - 2, by omega⟩
      have hstarts : ∀ directive, Starts env name
          (.do_ settings (before ++ [(lastName, last.task directive)])) prev s c (s.push name) :=
        fun directive => starts_of_input hif hrecover hinput
      have hlist1 := executeDo_wait env (s := s.push name) (WaitTask.names_nodup hnames) rfl hs hpasses
        hrunning' ht1 hparted.ok₁ hc1 hg hwait
      have hlist3 := executeDo_continue env (s := s.push name) (WaitTask.names_nodup hnames) rfl hs
        hpasses hrunning' ht3 hparted.ok₃ hc3 hg hcontinue
      rw [loopFrom_end (by simp)] at hlist3
      have hend : entryAt (before ++ [(lastName, last.task .wait)]) (before.length + 1) = none := by
        simp [entryAt]
      rw [hend] at hlist1
      obtain ⟨r₁, hr1, hok1, hevents1, hlast1, hstate1⟩ :=
        execute_do (hstarts .wait) hlist1 rfl (lastContextOf_append_some events hc1)
      obtain ⟨r₃, hr3, hok3, hevents3, hlast3, hstate3⟩ :=
        execute_do (hstarts .continue_) hlist3 rfl ((congrArg lastContextOf
          (append_nil _)).trans (lastContextOf_append_some events hc3))
      refine ⟨r₁, r₃, hr1, hr3, hok1, hok3, ?_,
        ⟨c₁, c₃, hlast1, hlast3, hvalues, hwait, hcontinue⟩, ?_, ?_, .inr ?_⟩
      · rw [hevents1, hevents3]
        simp [hparted.trace_eq]
      · rw [hstate1, hstate3]
        exact (hparted.sameVariables.pop.trans
          (suspend_variables env lastName before.length none c₁ t1.state.pop)).pop.pop
      · rw [hstate3]
        exact hparted.running
      · have hplace1 := execute_place henv _ lastName _ (WaitTask.pureTask hlastWf .wait) c'
          (s'.pushIdx before.length) t1 hs' ht1 hparted.ok₁
        have hlist : t1.state.pop.position = (s.position.push name).push "do" :=
          ((hplace.trans (pop_pushIdx s' before.length)).trans hplace1.pop).position
        have hspec := suspend_open env none c₁ (hparted.openAt hplace1)
        have hlength : ¬ t1.state.pop.position.length ≤ 2 := by
          have hpos : 0 < s.position.length := length_pos_iff.2 hposition
          rw [hlist]
          simp only [Position.push, length_append, length_singleton]
          omega
        simp only [Option.map_none, LeadsTo, hlength, if_false] at hspec
        rw [hstate1]
        refine hspec.2.trans ?_
        rw [hlist]
        exact congrArg some dropLast_concat

end Waiting

end Jobworkerp.Workflow
