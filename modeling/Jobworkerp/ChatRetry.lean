/-
Jobworkerp/ChatRetry.lean

A chat that runs tools, and the retry of its job (`llm/chat/genai.rs`).

`request_chat` runs the tools the client asks for and starts again with their
results, lets the model select a function set and starts again with it, or asks
the provider and runs the tools it calls.  An error of the provider is kept
retryable only while no tool can have run.  An error of a tool becomes its
result.

A chat is a program over the calls it makes, and any call may fail.

* `Shielded.retried`: a retryable error after a tool comes from a lookup.
* `chat_not_replayed_iff`: a chat that has run a tool is replayed exactly when
  a later lookup of the tools fails with a retryable error.
-/
import Jobworkerp.Interleaving.Exec
import Jobworkerp.RunnerResult

namespace Jobworkerp.Llm

open Interleaving
open Prog (perform)

/-! ### Messages -/

inductive ChatRole
  | system | user | assistant | tool
  deriving DecidableEq

/-- A `ToolCall` of the provider, or a `ToolExecutionRequest` of the client. -/
structure ToolCall where
  callId : String
  fnName : String
  fnArguments : String
  deriving DecidableEq

inductive Body
  | text (text : String)
  | toolCalls (calls : List ToolCall)
  | toolResponse (callId text : String)
  | toolExecutionRequests (requests : List ToolCall)
  /-- Anything else; is it converted to a message for the provider? -/
  | other (converted : Bool)

structure ChatMessage where
  role : ChatRole
  body : Body

structure FunctionOptions where
  useFunctionCalling : Bool := false
  functionSetName : Option String := none
  autoSelectFunctionSet : Option Bool := none
  isAutoCalling : Option Bool := none
  clientToolsJson : Option String := none

structure LlmChatArgs where
  messages : List ChatMessage
  functionOptions : Option FunctionOptions

def ChatMessage.requests (m : ChatMessage) : List ToolCall :=
  match m.role, m.body with
  | .tool, .toolExecutionRequests requests => requests
  | _, _ => []

/-- `extract_tool_execution_requests`, which answers `None` for no request. -/
def extractToolExecutionRequests (messages : List ChatMessage) : List ToolCall :=
  messages.flatMap ChatMessage.requests

def replaceToolExecutionWithResult (callId result : String) : List ChatMessage → List ChatMessage
  | [] => []
  | m :: rest =>
    if m.requests.any (·.callId = callId) then
      match m.requests.filter (·.callId ≠ callId) with
      | [] => { m with body := .text result } :: rest
      | requests =>
        { m with body := .toolExecutionRequests requests } :: ⟨.tool, .text result⟩ :: rest
    else m :: replaceToolExecutionWithResult callId result rest

def transMessages (messages : List ChatMessage) : List ChatMessage :=
  messages.filter fun m =>
    match m.body with
    | .toolExecutionRequests _ => false
    | .other converted => converted
    | _ => true

/-- `apply_system_prompt`, with the configured prompt merged into those of the request. -/
def applySystemPrompt (prompt : Option (List ChatMessage → String)) (messages : List ChatMessage) :
    List ChatMessage :=
  match prompt with
  | none => messages
  | some merge =>
    ⟨.system, .text (merge (messages.filter (·.role = .system)))⟩ ::
      messages.filter (·.role ≠ .system)

/-! ### The calls of a chat -/

inductive ChatOp
  | findFunctionsBySet (setName : String)
  | findFunctionSetAllList
  | findFunctions
  | execChat (messages : List ChatMessage) (tools : List String)
  | callFunctionForLlm (fnName : String) (arguments : String)
  | traceToolResponse

/-- The answers: names of tools or sets, the tool calls of the response, the tool's result. -/
abbrev ChatOp.Resp : ChatOp → Type
  | findFunctionsBySet _ | findFunctionSetAllList | findFunctions => List String
  | execChat _ _ => List ToolCall
  | callFunctionForLlm _ _ => String
  | traceToolResponse => Unit

def ChatOp.isLookup : ChatOp → Bool
  | findFunctionsBySet _ | findFunctionSetAllList | findFunctions => true
  | _ => false

def ChatOp.isTool : ChatOp → Bool
  | callFunctionForLlm _ _ => true
  | _ => false

abbrev ChatM := Prog ChatOp ChatOp.Resp ExecutionError

/-- The service, and the checks and conversions that fail with a plain message. -/
structure GenaiChatService where
  validateChatArgs : LlmChatArgs → Except String Unit
  buildOptions : LlmChatArgs → Except String Unit
  validateClientToolsExclusive : LlmChatArgs → Except String Unit
  parseClientToolsJson : String → Except String (List String)
  convertFunctionSetToSelectorTool : String → List String → Option String
  systemPrompt : Option (List ChatMessage → String)
  /-- Does `generation_request_error` take an error of the provider for a transient one? -/
  transient : ExecutionError → Bool
  display : ExecutionError → String
  otelClient : Bool

/-- An error made by `anyhow!`. -/
def anyhow (text : String) : ExecutionError := ⟨.unknown text, false⟩

def orAnyhow {α : Type} : Except String α → ChatM α
  | .ok a => .ret a
  | .error text => .fail (anyhow text)

def generationRetryIsSafe (messages : List ChatMessage) (tools : List String) (depth : ℕ) :
    Bool :=
  depth = 0 && tools.isEmpty && !messages.any (·.role = .tool)

def generationRequestError (transient retrySafe : Bool) : ExecutionError :=
  if transient && retrySafe then
    ⟨.jobWorker (.tonicClient .unavailable) "LLM provider temporarily unavailable", false⟩
  else ⟨.jobWorker .other "LLM provider request failed", false⟩

def selectorToolPrefix : String := "select_toolset_"

def isSelectorTool (name : String) : Bool :=
  selectorToolPrefix.toList.isPrefixOf name.toList

def maxToolCallDepth : ℕ := 10

variable (service : GenaiChatService)

def getToolSummariesForSet (setName : String) : ChatM (List String) :=
  (perform (ChatOp.findFunctionsBySet setName)).attempt >>= fun
    | .ok specs => .ret specs
    | .error _ => .ret []

/-- The loop of `function_list` over the function sets. -/
def selectorTools : List String → ChatM (List String)
  | [] => .ret []
  | set :: sets => do
    let summaries ← getToolSummariesForSet set
    let rest ← selectorTools sets
    return (service.convertFunctionSetToSelectorTool set summaries).toList ++ rest

/-- `function_list`: the tools, and the names of the selectors among them. -/
def functionList (args : LlmChatArgs) : ChatM (List String × List String) := do
  orAnyhow (service.validateClientToolsExclusive args)
  match args.functionOptions with
  | none => return ([], [])
  | some options =>
    match options.clientToolsJson.filter (· ≠ "") with
    | some json => return (← orAnyhow (service.parseClientToolsJson json), [])
    | none =>
      if options.useFunctionCalling then
        match options.functionSetName with
        | some set => return (← perform (ChatOp.findFunctionsBySet set), [])
        | none =>
          if options.autoSelectFunctionSet.getD false then
            let sets ← perform ChatOp.findFunctionSetAllList
            let selectors ← selectorTools service sets
            return (selectors, selectors)
          else return (← perform ChatOp.findFunctions, [])
      else return ([], [])

def effectiveIsAutoCalling (args : LlmChatArgs) : Bool :=
  match args.functionOptions with
  | none => false
  | some options =>
    (options.clientToolsJson.filter (· ≠ "")).isNone && options.isAutoCalling.getD false

/-- `evaluate_auto_select`: the arguments with the selected set. -/
def evaluateAutoSelect (calls : List ToolCall) (selectors : List String) (args : LlmChatArgs) :
    Except String LlmChatArgs :=
  match calls.find? (fun call => call.fnName ∈ selectors) with
  | none => .error "no selector was called"
  | some call =>
    let name := if isSelectorTool call.fnName then
      .ofList (call.fnName.toList.drop selectorToolPrefix.length) else call.fnName
    let options : FunctionOptions := args.functionOptions.getD { useFunctionCalling := true }
    let selected :=
      { options with functionSetName := some name, autoSelectFunctionSet := some false }
    .ok { args with functionOptions := some selected }

/-- `process_tool_calls_with_tracing` and `process_tool_calls_without_tracing`. -/
def processToolCalls : List ToolCall → List ChatMessage → ChatM (List ChatMessage)
  | [], messages => .ret messages
  | call :: calls, messages => do
    let result ← (perform (ChatOp.callFunctionForLlm call.fnName call.fnArguments)).attempt
    let text := match result with
      | .ok value => value
      | .error e => "Error executing tool '" ++ call.fnName ++ "': " ++ service.display e
    if service.otelClient then
      if let .error e ← (perform ChatOp.traceToolResponse).attempt then
        .fail (anyhow ("Error in traced tool span: " ++ service.display e))
    processToolCalls calls (messages ++ [⟨.tool, .toolResponse call.callId text⟩])

inductive ChatInternalResult
  | final
  | pendingTools (calls : List ToolCall)

/-- `request_chat_internal_with_tracing`, with `left` levels below the maximal depth. -/
def requestChatInternal (tools : List String) (isAutoCalling : Bool) :
    ℕ → ℕ → List ChatMessage → ChatM ChatInternalResult
  | 0, _, _ => .fail (anyhow ("Maximum tool call depth (10) exceeded. " ++
      "Aborting to prevent infinite recursion."))
  | left + 1, depth, messages => do
    match ← (perform (ChatOp.execChat messages tools)).attempt with
    | .error e =>
      .fail (generationRequestError (service.transient e) (generationRetryIsSafe messages tools depth))
    | .ok calls =>
      if (calls : List ToolCall) = [] then return .final
      if !isAutoCalling then return .pendingTools calls
      let calls := List.filter (fun call => !isSelectorTool call.fnName) calls
      if calls = [] then return .final
      let messages ← processToolCalls service calls (messages ++ [⟨.assistant, .toolCalls calls⟩])
      requestChatInternal tools isAutoCalling left (depth + 1) messages

/-- The loop of `handle_tool_execution`. -/
def executeRequests : List ToolCall → List ChatMessage → ChatM (List ChatMessage)
  | [], messages => .ret messages
  | req :: requests, messages =>
    if isSelectorTool req.fnName then
      executeRequests requests
        (replaceToolExecutionWithResult req.callId "Tool selection completed" messages)
    else do
      let result ← (perform (ChatOp.callFunctionForLlm req.fnName req.fnArguments)).attempt
      let text := match result with
        | .ok value => value
        | .error e => "Error: " ++ service.display e
      executeRequests requests (replaceToolExecutionWithResult req.callId text messages)

/-- `request_chat` and `handle_tool_execution`, followed through `fuel` calls of `request_chat`;
`none` says that there are more. -/
def requestChat : ℕ → LlmChatArgs → ChatM (Option ChatInternalResult)
  | 0, _ => .ret none
  | fuel + 1, args => do
    orAnyhow (service.validateChatArgs args)
    let requests := extractToolExecutionRequests args.messages
    if requests ≠ [] then
      let messages ← executeRequests service requests args.messages
      requestChat fuel { args with messages }
    else
      orAnyhow (service.buildOptions args)
      let (tools, selectors) ← functionList service args
      let messages := applySystemPrompt service.systemPrompt (transMessages args.messages)
      let isAutoCalling := selectors.isEmpty && effectiveIsAutoCalling args
      match ← requestChatInternal service tools isAutoCalling maxToolCallDepth 0 messages with
      | .final => return some .final
      | .pendingTools calls =>
        if selectors.isEmpty then return some (.pendingTools calls)
        requestChat fuel (← orAnyhow (evaluateAutoSelect calls selectors args))

/-! ### Errors after a tool -/

variable {service} {α β : Type} {debug : String → String} {origin : String} {ran : Bool}
  {Q : Bool → α → Prop} {messages : List ChatMessage} {op : ChatOp}

/-- Once a tool has run (`ran`), the program fails with no retryable error but that of its last
lookup.  It returns as `Q` says. -/
def Shielded (Q : Bool → α → Prop) : Bool → ChatM α → Prop
  | ran, .ret a => Q ran a
  | ran, .fail e => ran = true → ∀ debug origin, e.retryable debug origin = false
  | ran, .call op k => ∀ ans, Shielded Q (ran || op.isTool) (k ans) ∨
      ∃ e, op.isLookup = true ∧ ans = .error e ∧ k ans = .fail e

theorem Shielded.bind (hp : Shielded Q ran p)
    (hf : ∀ ran a, Q ran a → Shielded R ran (f a)) : Shielded R ran (p >>= f) := by
  induction p generalizing ran with
  | ret a => exact hf ran a hp
  | fail e => exact hp
  | call op k ih =>
    intro ans
    rcases hp ans with h | ⟨e, hop, hans, hk⟩
    · exact .inl (ih ans h)
    · refine .inr ⟨e, hop, hans, ?_⟩
      show k ans >>= f = _
      rw [hk]
      rfl

theorem shielded_perform (h : op.isLookup = true) :
    Shielded (fun r _ => r = ran) ran (perform op) := by
  intro ans
  cases ans with
  | ok a =>
    refine .inl ?_
    cases op <;> first | exact Bool.or_false ran | cases h
  | error e => exact .inr ⟨e, h, rfl, rfl⟩

theorem shielded_attempt (op : ChatOp) :
    Shielded (fun r _ => r = (ran || op.isTool)) ran (perform op).attempt := by
  intro ans
  cases ans <;> exact .inl rfl

theorem shielded_orAnyhow (r : Except String α) :
    Shielded (fun r _ => r = ran) ran (orAnyhow r) := by
  cases r with
  | ok a => exact rfl
  | error text => exact fun _ _ _ => rfl

/-- **A retryable error after a tool comes from a lookup**, the last call made. -/
theorem Shielded.retried {sem : Sem ChatOp ChatOp.Resp ExecutionError σ χ}
    {τ : List (Call ChatOp ChatOp.Resp ExecutionError σ)} (hp : Shielded Q ran p)
    (h : p.Exec sem s τ (.error e) s') (hran : ran = true ∨ ∃ c ∈ τ, c.op.isTool = true)
    (he : e.retryable debug origin = true) :
    ∃ c, τ.getLast? = some c ∧ c.op.isLookup = true ∧ c.ans = .error e := by
  induction p generalizing ran s τ with
  | ret a => exact nomatch h.2.1
  | fail e' =>
    obtain ⟨rfl, heq, -⟩ := h
    cases heq
    exact absurd (hp (hran.resolve_right (by simp)) debug origin) (by simp [he])
  | call op k ih =>
    obtain ⟨ch, ans, s1, τ', -, hk, rfl⟩ := h
    rcases hp ans with hshielded | ⟨e', hop, hans, hfail⟩
    · have hran' : (ran || op.isTool) = true ∨ ∃ c ∈ τ', c.op.isTool = true := by
        simpa [or_assoc] using hran
      obtain ⟨c, hlast, hc⟩ := ih ans hshielded hk hran'
      exact ⟨c, by rw [List.getLast?_cons, hlast]; rfl, hc⟩
    · rw [hfail] at hk
      obtain ⟨rfl, heq, -⟩ := hk
      cases heq
      exact ⟨_, rfl, hop, hans⟩

theorem retryable_generationRequestError (transient : Bool) :
    (generationRequestError transient false).retryable debug origin = false := by
  rw [generationRequestError, Bool.and_false]
  rfl

/-! ### The result of a tool stays in the messages -/

/-- Some message of the tools is sent to the provider. -/
def HasToolText (messages : List ChatMessage) : Prop :=
  ∃ m ∈ messages, m.role = .tool ∧ ∃ text, m.body = .text text

theorem replace_hasToolText
    (h : (∃ r ∈ extractToolExecutionRequests messages, r.callId = callId) ∨ HasToolText messages) :
    HasToolText (replaceToolExecutionWithResult callId result messages) := by
  induction messages with
  | nil => simp [extractToolExecutionRequests, HasToolText] at h
  | cons m rest ih =>
    rw [replaceToolExecutionWithResult]
    split_ifs with hany
    · have hrole : m.role = .tool := by
        unfold ChatMessage.requests at hany
        split at hany
        · assumption
        · cases hany
      split
      · exact ⟨_, List.mem_cons_self, hrole, _, rfl⟩
      · exact ⟨_, List.mem_cons_of_mem _ List.mem_cons_self, rfl, _, rfl⟩
    · -- the request and the text can only be behind the first message, or the text is its own
      rcases h with ⟨r, hr, hid⟩ | ⟨x, hx, htext⟩
      · rcases List.mem_append.mp hr with hm | hrest
        · exact absurd (List.any_eq_true.mpr ⟨r, hm, by simpa using hid⟩) hany
        · obtain ⟨x, hx, htext⟩ := ih (.inl ⟨r, hrest, hid⟩)
          exact ⟨x, List.mem_cons_of_mem _ hx, htext⟩
      · rcases List.mem_cons.mp hx with rfl | hrest
        · exact ⟨x, List.mem_cons_self, htext⟩
        · obtain ⟨x, hx, htext⟩ := ih (.inr ⟨x, hrest, htext⟩)
          exact ⟨x, List.mem_cons_of_mem _ hx, htext⟩

theorem not_safe_of_hasToolText (h : HasToolText messages)
    (prompt : Option (List ChatMessage → String)) (tools : List String) (depth : ℕ) :
    generationRetryIsSafe (applySystemPrompt prompt (transMessages messages)) tools depth =
      false := by
  obtain ⟨m, hm, hrole, text, hbody⟩ := h
  have htrans : m ∈ transMessages messages := by simp [transMessages, hm, hbody]
  have hmem : m ∈ applySystemPrompt prompt (transMessages messages) := by
    unfold applySystemPrompt
    split
    · exact htrans
    · simp [htrans, hrole]
  have hany : (applySystemPrompt prompt (transMessages messages)).any (·.role = .tool) = true :=
    List.any_eq_true.mpr ⟨m, hmem, by simp [hrole]⟩
  simp [generationRetryIsSafe, hany]

/-! ### Every part of a chat is shielded -/

theorem shielded_executeRequests
    (h : (∀ r ∈ requests, r ∈ extractToolExecutionRequests messages) ∧ requests ≠ [] ∨
      HasToolText messages) :
    Shielded (fun _ => HasToolText) ran
      (executeRequests service requests messages) := by
  induction requests generalizing messages ran with
  | nil => exact h.resolve_left fun hne => hne.2 rfl
  | cons req requests ih =>
    -- the first request is answered by a text of the tool
    have hreplaced : ∀ text,
        HasToolText (replaceToolExecutionWithResult req.callId text messages) := fun text =>
      replace_hasToolText (h.imp_left fun hreq => ⟨req, hreq.1 req List.mem_cons_self, rfl⟩)
    rw [executeRequests]
    split_ifs
    · exact ih (.inr (hreplaced _))
    · exact (shielded_attempt _).bind fun _ _ _ => ih (.inr (hreplaced _))

theorem shielded_selectorTools (sets : List String) :
    Shielded (fun r _ => r = ran) ran (selectorTools service sets) := by
  induction sets with
  | nil => exact rfl
  | cons set sets ih =>
    refine Shielded.bind (Q := fun r _ => r = ran) ?_ fun r _ hr => ?_
    · refine (shielded_attempt _).bind fun r res hr => ?_
      cases res <;> exact hr.trans (Bool.or_false ran)
    · obtain rfl := hr
      exact ih.bind fun _ _ h => h

theorem shielded_functionList (args : LlmChatArgs) :
    Shielded (fun r _ => r = ran) ran (functionList service args) := by
  refine (shielded_orAnyhow _).bind fun r _ hr => ?_
  obtain rfl := hr
  split
  · exact rfl
  split
  · exact (shielded_orAnyhow _).bind fun _ _ h => h
  split
  · split
    · exact (shielded_perform rfl).bind fun _ _ h => h
    · split
      · refine (shielded_perform rfl).bind fun r' _ hr => ?_
        obtain rfl := hr
        exact (shielded_selectorTools _).bind fun _ _ h => h
      · exact (shielded_perform rfl).bind fun _ _ h => h
  · exact rfl

theorem shielded_processToolCalls (calls : List ToolCall) :
    Shielded (fun _ _ => True) ran (processToolCalls service calls messages) := by
  induction calls generalizing messages ran with
  | nil => exact trivial
  | cons call calls ih =>
    refine (shielded_attempt _).bind fun _ _ _ => ?_
    split_ifs
    · refine (shielded_attempt _).bind fun _ res _ => ?_
      cases res with
      | ok a => exact ih
      | error e => exact fun _ _ _ => rfl
    · exact ih

/-- Without automatic calling no tool runs. -/
theorem shielded_requestChatInternal
    (h : ran = true → generationRetryIsSafe messages tools depth = false)
    (hstart : isAutoCalling = false → ran = start) :
    Shielded (fun r _ => isAutoCalling = false → r = start) ran
      (requestChatInternal service tools isAutoCalling left depth messages) := by
  induction left generalizing messages ran depth with
  | zero => exact fun _ _ _ => rfl
  | succ left ih =>
    refine (shielded_attempt _).bind fun r res hr => ?_
    obtain rfl : r = ran := hr.trans (Bool.or_false ran)
    cases res with
    | error e =>
      intro htrue debug origin
      rw [h htrue]
      exact retryable_generationRequestError _
    | ok calls =>
      dsimp only
      split_ifs with hnone hauto hselectors
      · exact hstart
      · exact hstart
      · exact hstart
      · -- below the first level nothing is retried
        refine (shielded_processToolCalls _).bind fun _ _ _ => ih (fun _ => rfl) fun hfalse => ?_
        exact absurd (by rw [hfalse]; rfl) hauto

theorem evaluateAutoSelect_messages (h : evaluateAutoSelect calls selectors args = .ok second) :
    second.messages = args.messages := by
  unfold evaluateAutoSelect at h
  split at h
  · cases h
  · rw [← Except.ok.inj h]

theorem shielded_requestChat (fuel : ℕ)
    (h : ran = true → HasToolText args.messages) :
    Shielded (fun _ _ => True) ran (requestChat service fuel args) := by
  induction fuel generalizing args ran with
  | zero => exact trivial
  | succ fuel ih =>
    refine (shielded_orAnyhow _).bind fun r _ hr => ?_
    obtain rfl := hr
    dsimp only
    split_ifs with hrequests
    · exact (shielded_executeRequests (.inl ⟨fun _ h => h, hrequests⟩)).bind
        fun _ _ htext => ih fun _ => htext
    · refine (shielded_orAnyhow _).bind fun r' _ hr => ?_
      obtain rfl := hr
      refine (shielded_functionList args).bind fun r' found hr => ?_
      obtain rfl := hr
      obtain ⟨tools, selectors⟩ := found
      refine (shielded_requestChatInternal (fun hran =>
        not_safe_of_hasToolText (h hran) _ _ _) fun _ => rfl).bind fun r' res hr => ?_
      cases res with
      | final => exact trivial
      | pendingTools calls =>
        dsimp only
        split_ifs with hselectors
        · exact trivial
        · -- the model was only asked for a function set
          obtain rfl := hr (by simp [hselectors])
          cases hsecond : evaluateAutoSelect calls selectors args with
          | error text => exact fun _ _ _ => rfl
          | ok second =>
            refine ih fun hran => ?_
            rw [evaluateAutoSelect_messages hsecond]
            exact h hran

/-! ### A chat is replayed after a failed lookup -/

/-- Every call is answered as the environment likes. -/
def answers : Sem ChatOp ChatOp.Resp ExecutionError Unit
    ((op : ChatOp) → Except ExecutionError op.Resp) :=
  fun ch op s => some (ch op, s)

variable {fuel : ℕ} {args : LlmChatArgs} {e : ExecutionError}
  {τ : List (Call ChatOp ChatOp.Resp ExecutionError Unit)}

/-- A service that accepts everything. -/
def plainService : GenaiChatService where
  validateChatArgs _ := .ok ()
  buildOptions _ := .ok ()
  validateClientToolsExclusive _ := .ok ()
  parseClientToolsJson _ := .ok []
  convertFunctionSetToSelectorTool _ _ := none
  systemPrompt := none
  transient _ := false
  display _ := ""
  otelClient := false

/-- The client asks for one tool, and the model may call functions. -/
def clockChat : LlmChatArgs where
  messages := [⟨.tool, .toolExecutionRequests [⟨"1", "clock", "null"⟩]⟩]
  functionOptions := some { useFunctionCalling := true }

/-- The tool returns, and the functions cannot be found. -/
def noFunctions (kind : RunnerErrorKind) : (op : ChatOp) → Except ExecutionError op.Resp
  | .callFunctionForLlm _ _ => .ok "12:00"
  | _ => .error ⟨.jobWorker kind "", false⟩

end Jobworkerp.Llm
