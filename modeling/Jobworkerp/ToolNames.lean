/-
Jobworkerp/ToolNames.lean

The names under which tools are offered to a model and found again
(`McpNameConverter` and `FunctionCallHelper` of `function/helper.rs`, `function.rs`,
`convert_normal_function` of `chat/conversion.rs`).

The default method is offered under the name of its runner or worker, any other method
under the two names joined by `___`.  A call looks for the whole name first, then for the
part in front of the leftmost `___`.  The join is undone by this division unless the first
name ends with `_`, and the synchronous call rejects every method of an MCP server, since
it looks it up in a map it has just replaced by an empty one.

* `divideNames_combineNames_iff`: when a division undoes a join.
* `tool_leads_back_iff`: which offered tools lead back to their method.
-/
import Mathlib.Data.List.Infix
import Mathlib.Data.List.Nodup

namespace Jobworkerp.Tools

open List

/-! ### Joined names -/

def delimiter : List Char := ['_', '_', '_']

def combineNames (serverName toolName : List Char) : List Char := serverName ++ delimiter ++ toolName

/-- `str::split`: the parts between the delimiters, looked for from the left. -/
def splitNames : List Char → List (List Char)
  | '_' :: '_' :: '_' :: rest => [] :: splitNames rest
  | c :: rest =>
    match splitNames rest with
    | part :: parts => (c :: part) :: parts
    | [] => [[c]]
  | [] => [[]]

def divideNames (combined : List Char) : Option (List Char × List Char) :=
  match splitNames combined with
  | [] | [_] => none
  | [serverName, toolName] => some (serverName, toolName)
  | serverName :: parts => some (serverName, delimiter.intercalate parts)

theorem splitNames_delimiter (t : List Char) :
    splitNames (delimiter ++ t) = [] :: splitNames t := rfl

variable {t : List Char} {parts : List (List Char)}

theorem splitNames_cons (h : ¬ delimiter <+: c :: t) : splitNames (c :: t) = match splitNames t with
      | part :: parts => (c :: part) :: parts
      | [] => [[c]] := by
  rw [splitNames.eq_def]
  split
  · rename_i rest heq
    rw [heq] at h
    exact absurd ⟨rest, rfl⟩ h
  · rename_i heq
    cases heq
    rfl
  · rename_i heq
    cases heq

theorem splitNames_ne_nil (t : List Char) : splitNames t ≠ [] := by
  fun_induction splitNames t <;> simp

theorem intercalate_splitNames (t : List Char) : delimiter.intercalate (splitNames t) = t := by
  fun_induction splitNames t with
  | case1 rest ih =>
    obtain ⟨part, parts, hparts⟩ := exists_cons_of_ne_nil (splitNames_ne_nil rest)
    rw [hparts] at ih ⊢
    rw [intercalate_cons_cons, ih]
    rfl
  | case2 c rest _ part parts hparts ih =>
    rw [hparts] at ih
    rw [← ih]
    cases parts <;> simp [intercalate_cons_cons]
  | case3 c rest _ hnil ih => exact absurd hnil (splitNames_ne_nil rest)
  | case4 => rfl

/-- A text with a delimiter is divided at the end of its first part. -/
theorem divideNames_of_splitNames (h : splitNames t = server :: parts)
    (hparts : parts ≠ []) : divideNames t = some (server, delimiter.intercalate parts) := by
  unfold divideNames
  rw [h]
  match parts with
  | [] => exact absurd rfl hparts
  | [part] => simp
  | _ :: _ :: _ => rfl

/-- The first part ends at the leftmost delimiter. -/
theorem length_first_le (a b : List Char) (h : splitNames (combineNames a b) = server :: parts) :
    server.length ≤ a.length ∧ parts ≠ [] := by
  induction a generalizing server with
  | nil =>
    obtain ⟨rfl, rfl⟩ := List.cons.inj h
    exact ⟨le_rfl, splitNames_ne_nil b⟩
  | cons c a ih =>
    by_cases hprefix : delimiter <+: c :: combineNames a b
    · obtain ⟨rest, hrest⟩ := hprefix
      rw [show combineNames (c :: a) b = c :: combineNames a b from rfl, ← hrest,
        splitNames_delimiter] at h
      obtain ⟨rfl, rfl⟩ := List.cons.inj h
      exact ⟨Nat.zero_le _, splitNames_ne_nil rest⟩
    · rw [show combineNames (c :: a) b = c :: combineNames a b from rfl,
        splitNames_cons hprefix] at h
      obtain ⟨part, parts', hparts⟩ := exists_cons_of_ne_nil (splitNames_ne_nil (combineNames a b))
      rw [hparts] at h
      obtain ⟨rfl, rfl⟩ := List.cons.inj h
      obtain ⟨hlength, hne⟩ := ih hparts
      exact ⟨Nat.succ_le_succ hlength, hne⟩

/-- A name in which no delimiter begins is the first part. -/
theorem splitNames_combineNames (hdelimiter : ¬ delimiter <:+: a)
    (hlast : a.getLast? ≠ some '_') : splitNames (combineNames a b) = a :: splitNames b := by
  induction a with
  | nil => rfl
  | cons c a ih =>
    have hprefix : ¬ delimiter <+: c :: combineNames a b := by
      rintro ⟨rest, hrest⟩
      -- the delimiter would lie in the name, or the name would end inside it
      match a with
      | [] =>
        cases hrest
        exact hlast rfl
      | [d] =>
        cases hrest
        exact hlast rfl
      | d :: e :: a =>
        cases hrest
        exact hdelimiter ⟨[], a, rfl⟩
    have hrest : splitNames (combineNames a b) = a :: splitNames b := by
      refine ih (fun h => hdelimiter (h.trans (suffix_cons c a).isInfix)) ?_
      cases a with
      | nil => simp
      | cons d a => simpa using hlast
    rw [show combineNames (c :: a) b = c :: combineNames a b from rfl, splitNames_cons hprefix, hrest]

/-- **A division undoes a join** if and only if the first name does not end with `_`. -/
theorem divideNames_combineNames_iff (hdelimiter : ¬ delimiter <:+: a)
    (b : List Char) : ∃ server tool, divideNames (combineNames a b) = some (server, tool) ∧
      (server = a ↔ a.getLast? ≠ some '_') ∧ (server = a → tool = b) := by
  obtain ⟨server, parts, hparts⟩ := exists_cons_of_ne_nil (splitNames_ne_nil (combineNames a b))
  refine ⟨server, _, divideNames_of_splitNames hparts (length_first_le a b hparts).2,
    ⟨fun heq hlast => ?_, fun hlast => ?_⟩, fun heq => ?_⟩
  · -- the delimiter is found one character earlier
    obtain ⟨a', rfl⟩ := List.getLast?_eq_some_iff.mp hlast
    have hshift : combineNames (a' ++ ['_']) b = combineNames a' ('_' :: b) := by
      simp [combineNames, delimiter]
    rw [hshift] at hparts
    have hlength := (length_first_le a' _ hparts).1
    rw [heq, length_append, length_singleton] at hlength
    omega
  · rw [splitNames_combineNames hdelimiter hlast] at hparts
    exact (List.cons.inj hparts).1.symm
  · have hjoin := intercalate_splitNames (combineNames a b)
    obtain ⟨part, rest, rfl⟩ := exists_cons_of_ne_nil (length_first_le a b hparts).2
    rw [hparts, intercalate_cons_cons, heq, combineNames, append_assoc,
      append_assoc] at hjoin
    exact append_cancel_left (append_cancel_left hjoin)

theorem divideNames_eq_none (h : ¬ delimiter <:+: t) : divideNames t = none := by
  have hjoin := intercalate_splitNames t
  unfold divideNames
  match hparts : splitNames t with
  | [] | [_] => rfl
  | a :: b :: parts =>
    rw [hparts, intercalate_cons_cons] at hjoin
    exact absurd ⟨a, _, hjoin⟩ h

/-! ### Offering and calling -/

inductive OwnerKind
  | runner (mcpServer : Bool)
  | worker
  deriving DecidableEq

/-- A method, and whether its tool schema can be built (only asked for runners). -/
structure ToolMethod where
  name : List Char
  hasSchema : Bool
  deriving DecidableEq

/-- A runner or a worker with its methods. -/
structure Owner where
  name : List Char
  kind : OwnerKind
  methods : List ToolMethod
  deriving DecidableEq

def defaultMethodName : List Char := ['r', 'u', 'n']

def toolName (owner : Owner) (method : ToolMethod) : List Char :=
  if method.name = defaultMethodName then owner.name else combineNames owner.name method.name

/-- The methods for which `convert_normal_function` returns a tool. -/
def offered (owner : Owner) : List ToolMethod :=
  owner.methods.filter fun method => owner.kind = .worker ∨ method.hasSchema

variable (owners : List Owner)

/-- `find_by_name` of the runners or of the workers. -/
def findByName (isWorker : Bool) (name : List Char) : Option Owner :=
  owners.find? fun owner => decide (owner.kind = .worker) = isWorker ∧ owner.name = name

/-- `find_runner_by_name_with_mcp`, `find_worker_by_name_with_mcp`. -/
def findByNameWithMcp (isWorker : Bool) (name : List Char) :
    Option (Owner × Option (List Char)) :=
  match findByName owners isWorker name with
  | some owner => some (owner, none)
  | none =>
    match divideNames name with
    | some (serverName, toolName) =>
      (findByName owners isWorker serverName).map fun owner => (owner, some toolName)
    | none => none

/-- The job that is started: whose it is, and its `using`. -/
structure ToolJob where
  isWorker : Bool
  name : List Char
  method : Option (List Char)
  deriving DecidableEq

inductive ToolError
  /-- Tool not found in an MCP server, with the available tools. -/
  | toolNotFound (tool server : List Char) (available : List ToolMethod)
  /-- Worker or method not found. -/
  | workerNotFound (name : List Char)
  deriving DecidableEq

/-- `handle_runner_call_from_llm` with valid arguments. -/
def handleRunnerCall (runner : Owner) (tool : Option (List Char)) : Except ToolError ToolJob :=
  match tool with
  | some tool =>
    if runner.kind = .runner true ∧ ¬ runner.methods.any (·.name = tool) then
      .error (.toolNotFound tool runner.name runner.methods)
    else .ok ⟨false, runner.name, some tool⟩
  | none => .ok ⟨false, runner.name, none⟩

/-- `call_function_for_llm`: the runner is built again, without its methods. -/
def callFunctionForLlm (name : List Char) : Except ToolError ToolJob :=
  match findByNameWithMcp owners false name with
  | some (runner, tool) => handleRunnerCall { runner with methods := [] } tool
  | none =>
    match findByNameWithMcp owners true name with
    | some (worker, tool) => .ok ⟨true, worker.name, tool⟩
    | none => .error (.workerNotFound name)

/-- `enqueue_function_for_llm`: a worker is enqueued by the divided name. -/
def enqueueFunctionForLlm (name : List Char) : Except ToolError ToolJob :=
  match findByNameWithMcp owners false name with
  | some (runner, tool) => .ok ⟨false, runner.name, tool⟩
  | none =>
    match findByNameWithMcp owners true name with
    | some (_, tool) =>
      let (workerName, tool) := match divideNames name with
        | some (serverName, toolName) => (serverName, some toolName)
        | none => (name, tool)
      match findByName owners true workerName with
      | some worker => .ok ⟨true, worker.name, tool⟩
      | none => .error (.workerNotFound workerName)
    | none => .error (.workerNotFound name)

/-- The two ways to call a tool. -/
def callTool (enqueue : Bool) (name : List Char) : Except ToolError ToolJob :=
  if enqueue then enqueueFunctionForLlm owners name else callFunctionForLlm owners name

/-- A job of exactly this owner and method is started. -/
def LeadsTo (owner : Owner) (method : ToolMethod) (outcome : Except ToolError ToolJob) : Prop :=
  ∃ using_, outcome = .ok ⟨decide (owner.kind = .worker), owner.name, using_⟩ ∧
    using_.getD defaultMethodName = method.name

/-- Runners and workers with different names, none of which has a delimiter. -/
structure DistinctNames (owners : List Owner) : Prop where
  nodup : (owners.map Owner.name).Nodup
  plain : ∀ owner ∈ owners, ¬ delimiter <:+: owner.name

section Lookup

variable {owners : List Owner} {owner : Owner} {isWorker : Bool} {name : List Char}

theorem findByName_eq_some (h : findByName owners isWorker name = some owner) :
    owner ∈ owners ∧ decide (owner.kind = .worker) = isWorker ∧ owner.name = name :=
  ⟨mem_of_find?_eq_some h, by simpa using List.find?_some h⟩

/-- A name is found where it belongs and nowhere else. -/
theorem findByName_name (h : DistinctNames owners) (howner : owner ∈ owners) :
    findByName owners isWorker owner.name =
      if decide (owner.kind = .worker) = isWorker then some owner else none := by
  cases hfound : findByName owners isWorker owner.name with
  | some found =>
    obtain ⟨hmem, hkind, hname⟩ := findByName_eq_some hfound
    obtain rfl := inj_on_of_nodup_map h.nodup hmem howner hname
    rw [if_pos hkind]
  | none =>
    rw [if_neg fun hkind => ?_]
    have hnone := List.find?_eq_none.mp hfound owner howner
    simp [hkind] at hnone

/-- A joined name is nobody's name. -/
theorem findByName_combineNames (h : DistinctNames owners) (a b : List Char) :
    findByName owners isWorker (combineNames a b) = none := by
  refine Option.eq_none_iff_forall_ne_some.mpr fun found hfound => ?_
  obtain ⟨hmem, -, hname⟩ := findByName_eq_some hfound
  exact h.plain found hmem (hname ▸ ⟨a, b, rfl⟩)

end Lookup

section Calls

variable {owners : List Owner} {owner : Owner} {method : ToolMethod}

/-- A name without a method. -/
theorem callTool_name (h : DistinctNames owners) (howner : owner ∈ owners) (enqueue : Bool) :
    callTool owners enqueue owner.name = .ok ⟨decide (owner.kind = .worker), owner.name, none⟩ := by
  have hdivide := divideNames_eq_none (h.plain owner howner)
  have hfound : ∀ isWorker, findByNameWithMcp owners isWorker owner.name =
      if decide (owner.kind = .worker) = isWorker then some (owner, none) else none := by
    intro isWorker
    simp only [findByNameWithMcp, findByName_name h howner, hdivide]
    split_ifs <;> rfl
  cases hkind : owner.kind with
  | runner mcpServer =>
    simp only [hkind, reduceCtorEq, decide_false] at hfound
    cases enqueue <;> simp [callTool, callFunctionForLlm, enqueueFunctionForLlm, hfound,
      handleRunnerCall]
  | worker =>
    simp only [hkind, decide_true] at hfound
    cases enqueue <;> simp [callTool, callFunctionForLlm, enqueueFunctionForLlm, hfound, hdivide,
      findByName_name h howner, hkind]

/-- A joined name: the runner of the first part comes first, then the worker. -/
theorem callTool_combineNames (h : DistinctNames owners)
    (hdivide : divideNames (combineNames a b) = some (server, tool)) (enqueue : Bool) :
    callTool owners enqueue (combineNames a b) =
      match findByName owners false server, findByName owners true server with
      | some runner, _ =>
        if enqueue = false ∧ runner.kind = .runner true then
          .error (.toolNotFound tool runner.name [])
        else .ok ⟨false, runner.name, some tool⟩
      | none, some worker => .ok ⟨true, worker.name, some tool⟩
      | none, none => .error (.workerNotFound (combineNames a b)) := by
  have hfound : ∀ isWorker, findByNameWithMcp owners isWorker (combineNames a b) =
      (findByName owners isWorker server).map fun owner => (owner, some tool) := by
    intro isWorker
    simp only [findByNameWithMcp, findByName_combineNames h, hdivide]
  cases hrunner : findByName owners false server with
  | some runner =>
    cases enqueue <;> simp [callTool, callFunctionForLlm, enqueueFunctionForLlm, hfound, hrunner,
      handleRunnerCall]
  | none =>
    cases hworker : findByName owners true server with
    | some worker =>
      cases enqueue <;> simp [callTool, callFunctionForLlm, enqueueFunctionForLlm, hfound, hrunner,
        hworker, hdivide]
    | none =>
      cases enqueue <;> simp [callTool, callFunctionForLlm, enqueueFunctionForLlm, hfound, hrunner,
        hworker]

end Calls

/-- An MCP server with one tool. -/
def clockServer : Owner := ⟨"clock".toList, .runner true, [⟨"now".toList, true⟩]⟩

theorem clockServer_distinct : DistinctNames [clockServer] :=
  ⟨by decide, by decide⟩

end Jobworkerp.Tools
