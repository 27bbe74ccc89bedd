/-
Jobworkerp/AgUi/EventStream.lean

A workflow run of the AG-UI server.

Three kinds of programs meet at a run: the producer of its events
(`createEventStream`), the requests that cancel it (`cancelWorkflow`), and the
clients that reconnect to its events (`resumeStream`).  They share the stored
events, the sessions, the registry of executors and the workflow's context.

The producer publishes the workflow's output only, so the items of the workflow's
stream store no events; what the stream does to the context is up to the workflow,
and is the environment's choice at each item.
-/
import Jobworkerp.AgUi.Session
import Jobworkerp.Workflow.Context

namespace Jobworkerp.AgUi

open Interleaving Prog Text

/-! ### Events -/

/-- An event of the workflow's public output. -/
structure PublicEvent where
  eventType : String
  body : Json

inductive RunOutcome
  | success (result : Option Json)
  | interrupt (ids : List String)

inductive AgUiEvent
  | runStarted (runId threadId : String)
  | runFinished (runId threadId : String) (outcome : RunOutcome)
  | runError (runId message : String) (code : Option String)
  | public_ (event : PublicEvent)

/-- The event ends its run. -/
def AgUiEvent.isTerminal : AgUiEvent → Bool
  | runFinished _ _ _ => true
  | runError _ _ _ => true
  | runStarted _ _ => false
  | public_ _ => false

/-! ### What the programs share -/

/-- What the producer reads of the workflow's context. -/
structure WorkflowView where
  status : Workflow.WorkflowStatus
  output : Option Json
  resumePosition : Option String

/-- The state of a run; the encoder numbers the events of all runs. -/
structure RunStore where
  nextId : ℕ
  fallbackId : ℕ
  events : List (ℕ × AgUiEvent)
  sessions : String → Option Session
  registered : Bool
  workflow : WorkflowView

inductive RunOp
  | encodeEvent
  | storeEvent (id : ℕ) (event : AgUiEvent)
  | yield (id : ℕ) (event : AgUiEvent)
  | nextItem
  | readContext
  | getSession (sessionId : String)
  | setSessionState (sessionId : String) (state : SessionState)
  | setPausedWithHitlInfo (sessionId : String) (hitlInfo : HitlWaitingInfo)
  | unregister
  | isRegistered
  | cancelExecutor
  /-- The events since an identifier, or all of them. -/
  | newEvents (lastId : Option ℕ)
  | getAllEvents

def RunOp.Resp : RunOp → Type
  | encodeEvent => ℕ
  | storeEvent _ _ => Unit
  | yield _ _ => Unit
  | nextItem => Unit
  | readContext => WorkflowView
  | getSession _ => Option Session
  | setSessionState _ _ => Bool
  | setPausedWithHitlInfo _ _ => Bool
  | unregister => Unit
  | isRegistered => Bool
  | cancelExecutor => Unit
  | newEvents _ => List (ℕ × AgUiEvent)
  | getAllEvents => List (ℕ × AgUiEvent)

/-- The environment: a call goes well or fails, and the workflow goes on. -/
inductive RunChoice
  | plain
  | fails
  | advances (view : WorkflowView)

/-- The entry is newer than the last one known. -/
def isNewer : Option ℕ → ℕ × AgUiEvent → Bool
  | none, _ => true
  | some lastId, entry => entry.1 > lastId

def eventsAfter (lastId : Option ℕ) (events : List (ℕ × AgUiEvent)) : List (ℕ × AgUiEvent) :=
  events.filter (isNewer lastId)

/-- A new event; the oldest go when there are too many. -/
def RunStore.push (maxEvents : ℕ) (s : RunStore) (id : ℕ) (event : AgUiEvent) : RunStore :=
  { s with events := (s.events ++ [(id, event)]).drop (s.events.length + 1 - maxEvents) }

def RunStore.setSession (s : RunStore) (sessionId : String) (session : Session) : RunStore :=
  { s with sessions := Function.update s.sessions sessionId (some session) }

/-- The session gets a state, if there is one. -/
def RunStore.withState (s : RunStore) (sessionId : String) (state : SessionState) :
    Except Unit Bool × RunStore :=
  match s.sessions sessionId with
  | none => (.ok false, s)
  | some session => (.ok true, s.setSession sessionId { session with state := state })

/-- The session is paused, if there is one and it is active. -/
def RunStore.withPause (s : RunStore) (sessionId : String) (hitlInfo : HitlWaitingInfo) :
    Except Unit Bool × RunStore :=
  match (s.sessions sessionId).map (pauseSession hitlInfo) with
  | some (.ok (_, session)) => (.ok true, s.setSession sessionId session)
  | _ => (.ok false, s)

/-- The status after a cancellation of the executor. -/
def cancelledStatus : Workflow.WorkflowStatus → Workflow.WorkflowStatus
  | .running | .pending | .waiting => .cancelled
  | status => status

/-- The effect of a call. -/
def runSem (maxEvents : ℕ) : Sem RunOp RunOp.Resp Unit RunStore RunChoice
  | .fails, .encodeEvent, s => some (.ok s.fallbackId, { s with fallbackId := s.fallbackId + 1 })
  | _, .encodeEvent, s => some (.ok s.nextId, { s with nextId := s.nextId + 1 })
  | _, .storeEvent id event, s => some (.ok (), s.push maxEvents id event)
  | _, .yield _ _, s => some (.ok (), s)
  | .advances view, .nextItem, s => some (.ok (), { s with workflow := view })
  | _, .nextItem, s => some (.ok (), s)
  | _, .readContext, s => some (.ok s.workflow, s)
  | .fails, .getSession _, s => some (.ok none, s)
  | _, .getSession sessionId, s => some (.ok (s.sessions sessionId), s)
  | .fails, .setSessionState _ _, s => some (.ok false, s)
  | _, .setSessionState sessionId state, s => some (s.withState sessionId state)
  | .fails, .setPausedWithHitlInfo _ _, s => some (.ok false, s)
  | _, .setPausedWithHitlInfo sessionId hitlInfo, s => some (s.withPause sessionId hitlInfo)
  | _, .unregister, s => some (.ok (), { s with registered := false })
  | _, .isRegistered, s => some (.ok s.registered, s)
  | _, .cancelExecutor, s =>
    some (.ok (), { s with workflow := { s.workflow with
      status := cancelledStatus s.workflow.status } })
  | _, .newEvents lastId, s => some (.ok (eventsAfter lastId s.events), s)
  | _, .getAllEvents, s => some (.ok s.events, s)

abbrev RunProg (β : Type) := Prog RunOp RunOp.Resp Unit β

def encodeEvent : RunProg ℕ := perform RunOp.encodeEvent

def storeEvent (id : ℕ) (event : AgUiEvent) : RunProg Unit := perform (RunOp.storeEvent id event)

def yieldEvent (id : ℕ) (event : AgUiEvent) : RunProg Unit := perform (RunOp.yield id event)

def nextItem : RunProg Unit := perform RunOp.nextItem

def readContext : RunProg WorkflowView := perform RunOp.readContext

def getSession (sessionId : String) : RunProg (Option Session) :=
  perform (RunOp.getSession sessionId)

def setSessionState (sessionId : String) (state : SessionState) : RunProg Bool :=
  perform (RunOp.setSessionState sessionId state)

def setPausedWithHitlInfo (sessionId : String) (hitlInfo : HitlWaitingInfo) : RunProg Bool :=
  perform (RunOp.setPausedWithHitlInfo sessionId hitlInfo)

def unregister : RunProg Unit := perform RunOp.unregister

def isRegistered : RunProg Bool := perform RunOp.isRegistered

def cancelExecutor : RunProg Unit := perform RunOp.cancelExecutor

def newEvents (lastId : Option ℕ) : RunProg (List (ℕ × AgUiEvent)) :=
  perform (RunOp.newEvents lastId)

def getAllEvents : RunProg (List (ℕ × AgUiEvent)) := perform RunOp.getAllEvents

/-! ### The producer -/

/-- A run and what is fixed about it: the stream of its workflow has `items` items
and then ends or `fails`; `project` reads the public output. -/
structure RunStream where
  runId : String
  threadId : String
  sessionId : String
  stateSessionId : String
  emitRunStarted : Bool
  interruptId : String
  items : ℕ
  fails : Bool
  project : Json → Option (List PublicEvent × Option Json)

variable (r : RunStream)

/-- Number an event, store it, and hand it to the client. -/
def emit (event : AgUiEvent) : RunProg Unit := do
  let id ← encodeEvent
  storeEvent id event
  yieldEvent id event

def emitAll : List PublicEvent → RunProg Unit
  | [] => ret ()
  | event :: rest => do
      emit (.public_ event)
      emitAll rest

def finishRequestSession (state : SessionState) : RunProg Unit :=
  if r.sessionId ≠ r.stateSessionId then (setSessionState r.sessionId state).discard else ret ()

/-- The run ends with an error. -/
def failRun (message code : String) : RunProg Unit := do
  emit (.runError r.runId message (some code))
  (setSessionState r.stateSessionId .error).discard
  finishRequestSession r .error

def threadOf (session : Option Session) : String := (session.map Session.threadId).getD ""

/-- The interrupt of a workflow that waits. -/
def waitingInfo : HitlWaitingInfo where
  interruptId := r.interruptId
  interrupts := [⟨r.interruptId, "wait_" ++ r.runId, none, none⟩]
  nonempty := by simp
  nodup := by simp

/-- The pause is stored, then announced. -/
def pauseRun : Bool → RunProg Unit
  | false => failRun r "Failed to persist HITL waiting state" "HITL_PERSISTENCE_ERROR"
  | true => do
      unregister
      let session ← getSession r.stateSessionId
      emit (.runFinished r.runId (threadOf session) (.interrupt [r.interruptId]))
      finishRequestSession r .completed

/-- The public output is stored, and the run ends. -/
def publishOutput (events : List PublicEvent) (result : Option Json) : RunProg Unit := do
  emitAll events
  let session ← getSession r.stateSessionId
  emit (.runFinished r.runId (threadOf session) (.success result))
  (setSessionState r.stateSessionId .completed).discard
  finishRequestSession r .completed

def projectOutput : Option (List PublicEvent × Option Json) → RunProg Unit
  | none => failRun r "Workflow output could not be published" "INVALID_PUBLIC_OUTPUT"
  | some (events, result) => publishOutput r events result

def finishOutput : Option Json → RunProg Unit
  | none => failRun r "Workflow produced no public output" "MISSING_PUBLIC_OUTPUT"
  | some output => projectOutput r (r.project output)

/-- The stream of the workflow has ended. -/
def finishStream (view : WorkflowView) : RunProg Unit :=
  if view.status = .waiting then
    match view.resumePosition with
    | some _ => setPausedWithHitlInfo r.stateSessionId (waitingInfo r) >>= pauseRun r
    | none => failRun r "Waiting workflow has no checkpoint position" "MISSING_CHECKPOINT_POSITION"
  else readContext >>= fun view => finishOutput r view.output

def streamItems : ℕ → RunProg Unit
  | 0 => ret ()
  | n + 1 => do
      nextItem
      streamItems n

/-- The last item of the workflow's stream is an error, or there is none. -/
def endStream : RunProg Unit := do
  nextItem
  if r.fails then failRun r "Workflow execution failed" "WORKFLOW_ERROR"
  else readContext >>= finishStream r

/-- The producer of the events of a run; the executor is unregistered when it ends. -/
def createEventStream : RunProg (Except AgUiError Unit) := do
  when r.emitRunStarted (emit (.runStarted r.runId r.threadId))
  (getSession r.stateSessionId).discard
  streamItems r.items
  endStream r
  unregister
  ret (.ok ())

/-! ### Cancellation -/

/-- Cancel a run whose session has not ended. -/
def cancelSession : RunProg (Except AgUiError Unit) := do
  let registered ← isRegistered
  when registered cancelExecutor
  (setSessionState r.sessionId .cancelled).discard
  let id ← encodeEvent
  storeEvent id (.runError r.runId "Run cancelled by user" (some "CANCELLED"))
  unregister
  ret (.ok ())

/-- A run in a terminal state is left alone. -/
def sessionToCancel : Option Session → RunProg (Except AgUiError Unit)
  | none => ret (.error (.sessionNotFound r.runId))
  | some session => if session.state.isTerminal then ret (.ok ()) else cancelSession r

def cancelWorkflow : RunProg (Except AgUiError Unit) :=
  getSession r.sessionId >>= sessionToCancel r

/-! ### Reconnection -/

/-- A stream ends, or is still polling when it is looked at. -/
inductive StreamEnd
  | ended
  | polling
  deriving DecidableEq

abbrev StreamProg := RunProg (Except AgUiError StreamEnd)

/-- Hand on the events that were stored before. -/
def yieldStored (next : Option ℕ → StreamProg) :
    Option ℕ → List (ℕ × AgUiEvent) → StreamProg
  | lastId, [] => next lastId
  | _, (id, event) :: rest => do
      yieldEvent id event
      yieldStored next (some id) rest

/-- Hand on new events, up to the terminal one. -/
def yieldNew (next : Option ℕ → StreamProg) : Option ℕ → List (ℕ × AgUiEvent) → StreamProg
  | lastId, [] => next lastId
  | _, (id, event) :: rest => do
      yieldEvent id event
      if event.isTerminal then ret (.ok .ended) else yieldNew next (some id) rest

/-- There is nothing new: the run is over, or the stream polls again. -/
def checkCompleted (next : StreamProg) (events : List (ℕ × AgUiEvent)) : StreamProg :=
  if events.any fun entry => entry.2.isTerminal then ret (.ok .ended) else next

/-- The events that a poll found. -/
def servePoll (next : Option ℕ → StreamProg) (lastId : Option ℕ) :
    List (ℕ × AgUiEvent) → StreamProg
  | [] => getAllEvents >>= checkCompleted (next lastId)
  | entry :: rest => yieldNew next lastId (entry :: rest)

/-- Poll for new events, at most so many times. -/
def pollEvents : ℕ → Option ℕ → StreamProg
  | 0, _ => ret (.ok .polling)
  | n + 1, lastId => newEvents lastId >>= servePoll (pollEvents n) lastId

/-- After the stored events a run that goes on is polled. -/
def pollIf (polls : Bool) (n : ℕ) (lastId : Option ℕ) : StreamProg :=
  if polls then pollEvents n lastId else ret (.ok .ended)

/-- The stored events are read before the registry is. -/
def serveSession (n : ℕ) (lastId : Option ℕ) (session : Session) : StreamProg := do
  let stored ← newEvents lastId
  let registered ← isRegistered
  yieldStored (pollIf (registered && !session.state.isTerminal) n) lastId stored

/-- A client reconnects with the last identifier it knows. -/
def resumeStream (n : ℕ) (lastId : Option ℕ) : StreamProg :=
  getSession r.sessionId >>= fun
    | none => ret (.error (.sessionNotFound r.runId))
    | some session => serveSession n lastId session

/-! ### A small run -/

/-- A run with an empty public output, without items before. -/
def plainRun : RunStream where
  runId := "run"
  threadId := "thread"
  sessionId := "session"
  stateSessionId := "session"
  emitRunStarted := false
  interruptId := "int_1"
  items := 0
  fails := false
  project := fun _ => some ([], none)

/-- The run is registered, its session active, its workflow running. -/
def plainStart : RunStore where
  nextId := 1
  fallbackId := 0
  events := []
  sessions := fun id => if id = "session" then some (Session.new "thread" none) else none
  registered := true
  workflow := ⟨.running, some .null, none⟩

end Jobworkerp.AgUi
