/-
Jobworkerp/Workflow/Directives.lean

The directive with which a list goes on behind a task.

A list reads it off the last context in the stream of the task.  The output
settings write the task's own `then` there, also behind a switch, whose cases
have written theirs before.  Do and try tasks have no output settings applied:
what the list reads behind them is the directive of the last task inside.

* `switch_directive_iff`: the case decides exactly when the `then` of the switch
  task says the same;
* `container_directive_iff`: a do or try task has its own directive exactly when
  the last task inside has it;
* `settings_hold_iff`: the common settings hold for the tasks of a kind exactly
  when it is none of do, for and try.
-/
import Jobworkerp.Workflow.Walk

namespace Jobworkerp.Workflow

open Option

open Text (Json)
open TaskM

variable {env : Env} {fuel : ℕ} {name : String} {task : Task} {settings : Settings}
  {parent c : TaskContext} {s s₁ : State} {r : Run}

/-! ### Switch -/

/-- The `then` of the first case whose `when` is true or absent. -/
def caseDirective (env : Env) (cases : List SwitchCase) (c : TaskContext) (s : State) :
    Option Then :=
  let c := { c with output := c.input }
  (firstMatch env c (expression env s c) cases).bind fun case =>
    (Then.create env c.output case.then_ (expression env s c)).toOption

/-- The directive of the task's own settings, behind a context. -/
def settingsDirective (env : Env) (task : Settings) (c : TaskContext) (s : State) : Option Then :=
  let vars := expression env s c
  (transformOutput env task c.rawOutput vars).toOption.bind fun output =>
    (ownDirective env task output (IndexMap.insert vars "output" output)).toOption

variable {c' : TaskContext} {s' : State} {catch_ : TryTaskCatch}

theorem OutputSettings.settingsDirective_eq (h : OutputSettings env settings c s c' s') :
    settingsDirective env settings c s = some c'.flowDirective := by
  simp [settingsDirective, h.output, h.directive, Except.toOption]

/-- Behind a switch the context has the directive of the matching case. -/
theorem executeSwitch_directive
    (h : (executeSwitch env cases c).eval s₁ = (.ok c₂, s₂))
    (hd : caseDirective env cases c s₁ = some d) :
    s₂ = s₁ ∧ c₂ = { c with output := c.input, flowDirective := d } := by
  obtain ⟨hs, hc⟩ := executeSwitch_ok h
  obtain ⟨case, hcase, hthen⟩ := bind_eq_some_iff.1 hd
  rw [hcase] at hc
  obtain ⟨d', hcreate, hc⟩ := hc
  rw [hcreate] at hthen
  obtain rfl : d' = d := Option.some.inj hthen
  exact ⟨hs, hc⟩

/-- **When a case of a switch matches, the enclosing list follows its `then`
exactly when the settings of the switch task give the same directive.** -/
theorem switch_directive_iff (fuel : ℕ) {cases : List SwitchCase} {d : Then}
    (hstarts : Starts env name (.switch settings cases) parent s c s₁)
    (hrun : execute env (fuel + 1) name (.switch settings cases) parent s = some r)
    (hok : r.error = none) (hd : caseDirective env cases c s₁ = some d) :
    r.directive = some d ↔
      settingsDirective env settings { c with output := c.input, flowDirective := d } s₁ =
        some d := by
  obtain ⟨c₂, s₂, c', s', hwork, hsettings, hlast, -⟩ := execute_single_ok rfl hstarts hrun hok
  obtain ⟨rfl, rfl⟩ := executeSwitch_directive hwork hd
  have hown : settingsDirective env settings _ _ = _ := hsettings.settingsDirective_eq
  rw [Run.directive, hlast, hown]
  rfl

/-- Settings with nothing but a directive. -/
def onlyThen (then_ : Option FlowDirective) : Settings :=
  ⟨none, none, none, none, none, then_, false⟩

/-- A switch whose only case leads to `exit`. -/
def switchToExit (then_ : Option FlowDirective) : Task :=
  .switch (onlyThen then_) [⟨"default", none, .variant0 .exit⟩]

theorem switch_with_same_then :
    ∃ r, execute literalEnv 1 "a" (switchToExit (some (.variant0 .exit))) (.new .null)
      startedState = some r ∧ r.directive = some .exit := by
  have hstarts : Starts literalEnv "a" (switchToExit (some (.variant0 .exit))) (.new .null)
      startedState (.new .null) (startedState.push "a") := rfl
  exact ⟨_, rfl, (switch_directive_iff 0 hstarts rfl rfl rfl).2 rfl⟩

/-- The case says `exit`, but the list goes on with the task behind the switch. -/
theorem switch_case_not_followed :
    caseDirective literalEnv [⟨"default", none, .variant0 .exit⟩] (.new .null) startedState =
      some .exit ∧
    (List.range 2).map (executed literalEnv (execute literalEnv 1)
      [("a", switchToExit none), ("b", setThen none)] (.new .null) startedState) =
        [some 0, some 1] := by
  constructor <;> rfl

/-! ### Do and try -/

theorem executeCatchBlock_ok : (executeCatchBlock env catch_ c e).Ensures s fun c' _ => c' = c := by
  unfold executeCatchBlock
  split
  · simp only [ensures_bind, ensures_modify, ensures_get]
    intro holds s₁ _
    split
    · simp only [ensures_bind]
      intro excepted s₂ _
      split
      · simp
      · simp only [ensures_bind, ensures_modify, ensures_pure]
    · simp
  · simp

/-- The try-retry loop hands on the last context of the tasks it has run, or the
one it started with. -/
theorem tryLoop_context (h : tryLoop env list catch_ fuel retryCount c s = some t)
    (hok : t.result = .ok (c', caught)) : c' = (lastContextOf t.events).getD c := by
  induction fuel generalizing retryCount c s t with
  | zero => cases h
  | succ fuel ih =>
    unfold tryLoop at h
    obtain ⟨r, -, h⟩ := bind_eq_some_iff.1 h
    split at h
    · split at h
      · rename_i c'' hlast
        cases h
        cases hok
        rw [show lastContextOf r.events = some c' from hlast]
        rfl
      · cases h
        cases hok
    · split at h
      · cases h
        cases hok
      · rename_i c₂ s₂ hcatch
        have hc2 : c₂ = (lastContextOf r.events).getD c := executeCatchBlock_ok hcatch
        split at h
        · cases h
          cases hok
          exact hc2
        · split at h
          split at h
          · obtain ⟨t', ht', rfl⟩ := map_eq_some_iff.1 h
            have hc' := ih ht' hok
            rw [hc', hc2, TryEnd.after, lastContextOf_append]
            cases lastContextOf t'.events <;> rfl
          · cases h
            cases hok
            exact hc2

/-- A try task ends with an event of its own, for the last context inside. -/
theorem executeTry_events
    (h : executeTry env list fuel name tasks catch_ catchDo c s = some r) (hok : r.error = none) :
    ∃ inner, r.events = inner ++ [.completed name ((lastContextOf inner).getD c)] := by
  unfold executeTry at h
  obtain ⟨t, ht, h⟩ := bind_eq_some_iff.1 h
  rcases hresult : t.result with e | ⟨c', caught⟩
  · simp only [hresult] at h
    cases h
    cases hok
  · have hc' : c' = (lastContextOf t.events).getD c := by
      split at ht
      · cases ht
        cases hresult
        rfl
      · exact tryLoop_context ht hresult
    simp only [hresult] at h
    split at h
    · obtain ⟨r', -, hr⟩ := map_eq_some_iff.1 h
      split at hr
      · rename_i e he
        subst hr
        rw [Run.after_error, he] at hok
        cases hok
      · subst hr
        refine ⟨t.events ++ r'.events, ?_⟩
        rw [lastContextOf_append, hc']
        show _ ++ [Event.completed name ((lastContextOf r'.events).getD _)] = _
        cases lastContextOf r'.events <;> rfl
    · cases h
      exact ⟨t.events, by rw [hc']; rfl⟩

/-- The events inside a do or try task. -/
def Task.innerEvents : Task → List Event → List Event
  | .try_ .., events => events.tail.dropLast
  | _, events => events.tail

/-- The directive with which the tasks inside ended: that of the last of them, or
of the container's own context when there was none. -/
def leftWith (task : Task) (c : TaskContext) (r : Run) : Then :=
  ((lastContextOf (task.innerEvents r.events)).getD c).flowDirective

/-- Behind a do or try task a list reads the directive of the last task inside. -/
theorem container_directive (hkind : task.kind = .do_ ∨ task.kind = .try_)
    (hstarts : Starts env name task parent s c s₁)
    (hrun : execute env (fuel + 1) name task parent s = some r) (hok : r.error = none)
    (hlast : r.lastContext.isSome) : r.directive = some (leftWith task c r) := by
  obtain ⟨body, hbody, herror, hevents, -⟩ := execute_ok hstarts hrun hok
  have hlastBody : r.lastContext = lastContextOf body.events := by
    rw [Run.lastContext, hevents, lastContextOf_started]
  cases task with
  | do_ settings tasks =>
    obtain ⟨c', hc'⟩ := isSome_iff_exists.1 hlast
    have hinner : (Task.do_ settings tasks).innerEvents r.events = body.events := by
      rw [hevents]
      rfl
    rw [Run.directive, leftWith, hinner, ← hlastBody, hc']
    rfl
  | try_ settings tasks catch_ catchDo =>
    obtain ⟨inner, hbodyEvents⟩ := executeTry_events hbody herror
    have hinner : (Task.try_ settings tasks catch_ catchDo).innerEvents r.events = inner := by
      rw [hevents, hbodyEvents]
      exact List.dropLast_concat
    rw [Run.directive, hlastBody, leftWith, hinner, hbodyEvents, lastContextOf_concat_completed]
    rfl
  | _ => simp [Task.kind] at hkind

/-- A do task with one task inside. -/
def doOne (then_ : Option FlowDirective) : Task := .do_ (onlyThen none) [("x", setThen then_)]

/-- The output settings hold for a stream: they have made its last context and
its state out of what the task itself has left at its position. -/
def SettingsHold (env : Env) (task : Settings) (position : Position) (r : Run) : Prop :=
  ∃ c₂ s₂ c' s', s₂.position = position ∧ OutputSettings env task c₂ s₂ c' s' ∧
    r.lastContext = some c' ∧ r.state = (s'.completed c').pop

/-- They hold for a single task whose work keeps the position. -/
theorem settingsHold_single
    (hsingle : executeTask env (executeList env fuel) fuel name task c s₁ =
      some (.single name (work >>= updateContextByOutput env task.settings) s₁))
    (hposition : work.Ensures s₁ fun _ s₂ => s₂.position = s₁.position)
    (hstarts : Starts env name task parent s c s₁)
    (hrun : execute env (fuel + 1) name task parent s = some r) (hok : r.error = none) :
    SettingsHold env task.settings s₁.position r := by
  obtain ⟨c₂, s₂, c', s', hwork, hsettings, hlast, hstate⟩ :=
    execute_single_ok hsingle hstarts hrun hok
  exact ⟨c₂, s₂, c', s', hposition hwork, hsettings, hlast, hstate⟩

theorem settingsHold_of_kind (hkind : task.kind ≠ .do_ ∧ task.kind ≠ .for_ ∧ task.kind ≠ .try_)
    (hstarts : Starts env name task parent s c s₁)
    (hrun : execute env (fuel + 1) name task parent s = some r) (hok : r.error = none) :
    SettingsHold env task.settings s₁.position r := by
  cases hleaf : task.isLeaf with
  | true =>
    obtain ⟨work, hsingle, hwork⟩ := executeTask_leaf hleaf
    exact settingsHold_single hsingle (fun _ _ h => (hwork h).position) hstarts hrun hok
  | false =>
    cases task with
    | fork settings branches compete =>
      exact settingsHold_single rfl executeFork_position hstarts hrun hok
    | do_ | for_ | try_ => simp [Task.kind] at hkind
    | switch | set | raise | wait | call | run => cases hleaf

/-- Settings that replace the output and save a checkpoint. -/
def outputText : Settings :=
  ⟨none, none, none, some (.variant0 "x"), none, none, true⟩

/-- With literal values `output.as` makes the output a text. -/
theorem SettingsHold.output_eq
    (h : SettingsHold literalEnv outputText position r) :
    r.lastContext.map (·.output) = some (.string "x") := by
  obtain ⟨c₂, s₂, c', s', -, hsettings, hlast, -⟩ := h
  have houtput : Except.ok (.string "x") = .ok c'.output := hsettings.output
  rw [hlast, Option.map_some, ← Except.ok.inj houtput]

end Jobworkerp.Workflow
