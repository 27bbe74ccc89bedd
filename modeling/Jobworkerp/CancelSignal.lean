/-
Jobworkerp/CancelSignal.lean

The way of a cancellation to the runner of the job.

A dispatcher that has claimed an attempt sets up the monitoring and runs the job.
The monitoring is a task of its own (`start_pubsub_listener`), which subscribes at
some later time and cancels the execution's token when it receives the job's id.
`cancel_job_lifecycle` changes the live record and broadcasts the id.  A message
reaches exactly the subscriptions that are active when it is sent, and nothing looks
at the record after the subscription.

* `token_cancelled_iff`: a listener that has handled all its messages has cancelled
  the token if and only if it was subscribed when the id was broadcast.
-/
import Jobworkerp.LiveRecord

namespace Jobworkerp

open Interleaving Prog List

/-! ### The monitoring of an execution -/

/-- The listener task of an execution. -/
inductive Listener
  | absent
  | spawned
  | listening (inbox : List JobId)
  | ended
  deriving DecidableEq

/-- The storage of the job, and what the execution shares with its listener.  `leftover` is
a token that the runner's manager still has, and whether it is cancelled; `token` tells
whether the execution's own token is cancelled. -/
structure Monitored where
  store : Store
  leftover : Option Bool
  token : Bool
  listener : Listener
  executing : Bool

inductive SignalOp
  | storage (op : Op)
  /-- The cancellation of another job. -/
  | broadcast (jobId : JobId)
  | setupToken
  | spawnListener
  | beginRun
  | endRun
  | clearToken
  | awaitSpawn
  | connect
  | subscribe
  /-- Receive a message and run the callback on it; the answer `false` ends the subscription. -/
  | handleNext

def SignalOp.Resp : SignalOp → Type
  | storage op => Jobworkerp.Resp op
  | setupToken | connect | subscribe | handleNext => Bool
  | _ => Unit

namespace Monitored

variable (s : Monitored)

/-- A message goes to the listener if it is subscribed. -/
def send (jobId : JobId) : Monitored :=
  match s.listener with
  | .listening inbox => { s with listener := .listening (inbox ++ [jobId]) }
  | _ => s

/-- A call on the storage; the broadcast is sent unless it is refused or not carried out. -/
def call (op : Op) (fault : Fault) (store : Store) : Monitored :=
  if op = .broadcastCancellation ∧ fault ≠ .refused ∧ fault ≠ .unanswered false then
    { s with store := store }.send store.jobId
  else { s with store := store }

end Monitored

/-- The effect of a call.  There is one listener for the execution.  The flag of the choice
lets a connection fail and a subscription end: by its timeout, by the signal of the clean-up,
or with the connection. -/
def signalSem : Sem SignalOp SignalOp.Resp JobWorkerError Monitored Choice
  | ch, .storage op, s =>
    (sem ch op s.store).map fun r => (r.1, s.call op ch.fault r.2)
  | _, .broadcast jobId, s => some (.ok (), s.send jobId)
  | _, .setupToken, s =>
    if s.leftover = some true then some (.ok true, { s with leftover := none })
    else some (.ok false, { s with leftover := some false })
  | _, .spawnListener, s =>
    if s.listener = .absent then some (.ok (), { s with listener := .spawned }) else none
  | _, .beginRun, s => some (.ok (), { s with executing := true })
  | _, .endRun, s => some (.ok (), { s with executing := false })
  | _, .clearToken, s => some (.ok (), { s with leftover := none })
  | _, .awaitSpawn, s => if s.listener = .spawned then some (.ok (), s) else none
  | ch, .connect, s => some (.ok ch.flag, s)
  | ch, .subscribe, s =>
    if s.listener = .spawned then
      some (.ok ch.flag, { s with listener := if ch.flag then .listening [] else .ended })
    else none
  | ch, .handleNext, s =>
    match s.listener, ch.flag with
    | .listening (jobId :: inbox), true => some (.ok true,
        { s with listener := .listening inbox
                 token := s.token || decide (jobId = s.store.jobId) })
    | .listening [], true => none
    | _, _ => some (.ok false, { s with listener := .ended })

abbrev SignalM (α : Type) := Prog SignalOp SignalOp.Resp JobWorkerError α

namespace SignalM

def setupToken : SignalM Bool := perform SignalOp.setupToken

def spawnListener : SignalM Unit := perform SignalOp.spawnListener

def beginRun : SignalM Unit := perform SignalOp.beginRun

def endRun : SignalM Unit := perform SignalOp.endRun

def clearToken : SignalM Unit := perform SignalOp.clearToken

def awaitSpawn : SignalM Unit := perform SignalOp.awaitSpawn

def connect : SignalM Bool := perform SignalOp.connect

def subscribe : SignalM Bool := perform SignalOp.subscribe

def handleNext : SignalM Bool := perform SignalOp.handleNext

end SignalM

open SignalM

/-- A program on the storage. -/
def onStorage {α : Type} : M α → SignalM α
  | .ret a => .ret a
  | .fail e => .fail e
  | .call op k => .call (.storage op) fun a => onStorage (k a)

/-- Is the token cancelled before the start?  A manager without a repository does not
monitor. -/
def setupMonitoring (hasRepository : Bool) : SignalM Bool :=
  if hasRepository then do
    let alreadyCancelled ← setupToken
    when (!alreadyCancelled) spawnListener
    ret alreadyCancelled
  else ret false

/-- `run_job_inner`: a streaming job keeps its monitoring. -/
def runJobInner (hasRepository streaming : Bool) : SignalM Unit := do
  let alreadyCancelled ← setupMonitoring hasRepository
  when (!alreadyCancelled) do
    let _ ← beginRun
    let _ ← endRun
    when (!streaming) clearToken

/-- An execution: the claim of the attempt, and the run. -/
def claimAndRun (app : App) (d : Delivery) (hasRepository streaming : Bool) : SignalM Unit := do
  let eligibility ← onStorage (claimAttempt app d)
  when (eligibility matches .execute) (runJobInner hasRepository streaming)

/-- The loop of a subscription, for as many messages as there are. -/
def handleMessages : ℕ → SignalM Unit
  | 0 => ret ()
  | n + 1 => do
      let goesOn ← handleNext
      when goesOn (handleMessages n)

def subscribeAndHandle (messages : ℕ) : SignalM Unit := do
  let subscribed ← subscribe
  when subscribed (handleMessages messages)

/-- `subscribe_job_cancellation_with_timeout`; the channel needs no connection. -/
def subscribeJobCancellation (app : App) (messages : ℕ) : SignalM Unit :=
  match app.storage with
  | .standalone => subscribeAndHandle messages
  | .scalable => do
      let connected ← connect
      when connected (subscribeAndHandle messages)

/-- The task of `start_pubsub_listener`. -/
def pubsubListener (app : App) (messages : ℕ) : SignalM Unit := do
  let _ ← awaitSpawn
  subscribeJobCancellation app messages

/-! ### The parties -/

inductive SignalParty
  | execution
  | listener
  | canceller
  | other (n : ℕ)
  deriving DecidableEq

/-- One execution, one cancellation of its job, and cancellations of other jobs. -/
structure SignalSetup where
  app : App
  delivery : Delivery
  hasRepository : Bool
  streaming : Bool
  messages : ℕ
  others : ℕ → JobId

abbrev SignalPool := Config SignalParty SignalOp SignalOp.Resp JobWorkerError Unit Monitored

abbrev SignalEvent := Event SignalParty SignalOp SignalOp.Resp JobWorkerError Unit Monitored

def SignalSetup.program (x : SignalSetup) : SignalParty → SignalM Unit
  | .execution => claimAndRun x.app x.delivery x.hasRepository x.streaming
  | .listener => pubsubListener x.app x.messages
  | .canceller => (onStorage (cancelJobLifecycle x.app)).discard
  | .other n => perform (SignalOp.broadcast (x.others n))

def SignalSetup.start (x : SignalSetup) (store : Store) (leftover : Option Bool) : SignalPool :=
  ⟨x.program, ⟨store, leftover, false, .absent, false⟩⟩

/-! ### What is sent -/

/-- The call sends the id of the job. -/
def SignalOp.Signals (target : JobId) : SignalOp → Prop
  | .storage op => op = .broadcastCancellation
  | .broadcast jobId => jobId = target
  | _ => False

/-- The listener's subscription is active. -/
def Listener.Active (l : Listener) : Prop := ∃ inbox, l = .listening inbox

/-- Nothing has been sent to the listener that concerns the job. -/
structure Unsignalled (target : JobId) (s : Monitored) : Prop where
  jobId : s.store.jobId = target
  token : s.token = false
  inbox : ∀ inbox, s.listener = .listening inbox → target ∉ inbox

/-- The token is cancelled, or will be unless the listener ends before. -/
def Signalled (target : JobId) (s : Monitored) : Prop :=
  s.store.jobId = target ∧ (s.token = true ∨ s.listener = .ended ∨
    ∃ inbox, s.listener = .listening inbox ∧ target ∈ inbox)

section Sent

variable {target : JobId} {s s' : Monitored} {ch : Choice} {op : SignalOp}
  {ans : Except JobWorkerError op.Resp}

theorem Unsignalled.send (h : Unsignalled target s) {jobId : JobId} (hne : jobId ≠ target) :
    Unsignalled target (s.send jobId) := by
  unfold Monitored.send
  split
  · rename_i inbox hlistener
    refine ⟨h.jobId, h.token, fun inbox' heq => ?_⟩
    cases heq
    simpa [Ne.symm hne] using h.inbox inbox hlistener
  · exact h

/-- A call that does not send the id leaves the listener in the dark. -/
theorem Unsignalled.step (h : Unsignalled target s) (hsem : signalSem ch op s = some (ans, s'))
    (hop : ¬ op.Signals target) : Unsignalled target s' := by
  cases op with
  | storage op =>
    obtain ⟨⟨a, store⟩, hstore, heq⟩ := Option.map_eq_some_iff.mp hsem
    cases heq
    rw [Monitored.call, if_neg fun hbroadcast => hop hbroadcast.1]
    exact ⟨(sem_jobId hstore).trans h.jobId, h.token, h.inbox⟩
  | broadcast jobId =>
    cases hsem
    exact h.send hop
  | setupToken =>
    simp only [signalSem] at hsem
    split_ifs at hsem
    · cases hsem
      exact ⟨h.jobId, h.token, h.inbox⟩
    · cases hsem
      exact ⟨h.jobId, h.token, h.inbox⟩
  | awaitSpawn =>
    simp only [signalSem] at hsem
    split_ifs at hsem
    cases hsem
    exact h
  | spawnListener =>
    simp only [signalSem] at hsem
    split_ifs at hsem
    cases hsem
    exact ⟨h.jobId, h.token, fun _ heq => by cases heq⟩
  | subscribe =>
    simp only [signalSem] at hsem
    split_ifs at hsem
    · cases hsem
      refine ⟨h.jobId, h.token, fun inbox heq => ?_⟩
      cases heq
      exact not_mem_nil
    · cases hsem
      exact ⟨h.jobId, h.token, fun _ heq => by cases heq⟩
  | handleNext =>
    simp only [signalSem] at hsem
    split at hsem
    · rename_i jobId inbox hlistener _
      cases hsem
      have hinbox := h.inbox _ hlistener
      rw [mem_cons, not_or] at hinbox
      refine ⟨h.jobId, ?_, fun inbox' heq => ?_⟩
      · -- the message is another job's
        simp [h.token, h.jobId, Ne.symm hinbox.1]
      · cases heq
        exact hinbox.2
    · cases hsem
    · cases hsem
      exact ⟨h.jobId, h.token, fun _ heq => by cases heq⟩
  | beginRun | endRun | clearToken | connect =>
    cases hsem
    exact ⟨h.jobId, h.token, h.inbox⟩

theorem Signalled.send (h : Signalled target s) (jobId : JobId) :
    Signalled target (s.send jobId) := by
  unfold Monitored.send
  split
  · rename_i inbox hlistener
    obtain ⟨hid, htoken | hended | ⟨inbox', heq, hmem⟩⟩ := h
    · exact ⟨hid, .inl htoken⟩
    · rw [hlistener] at hended
      cases hended
    · rw [hlistener] at heq
      cases heq
      exact ⟨hid, .inr (.inr ⟨_, rfl, mem_append_left _ hmem⟩)⟩
  · exact h

/-- Before it has subscribed the listener has nothing in its inbox. -/
theorem Signalled.token_of_waiting (h : Signalled target s)
    (hlistener : s.listener = .absent ∨ s.listener = .spawned) : s.token = true := by
  obtain ⟨-, htoken | hended | ⟨inbox, heq, -⟩⟩ := h
  · exact htoken
  · rw [hended] at hlistener
    simp at hlistener
  · rw [heq] at hlistener
    simp at hlistener

/-- What was sent is not lost while the listener goes on. -/
theorem Signalled.step (h : Signalled target s) (hsem : signalSem ch op s = some (ans, s')) :
    Signalled target s' := by
  cases op with
  | spawnListener =>
    simp only [signalSem] at hsem
    split_ifs at hsem with hlistener
    cases hsem
    exact ⟨h.1, .inl (h.token_of_waiting (.inl hlistener))⟩
  | subscribe =>
    simp only [signalSem] at hsem
    split_ifs at hsem with hlistener
    · cases hsem
      exact ⟨h.1, .inl (h.token_of_waiting (.inr hlistener))⟩
    · cases hsem
      exact ⟨h.1, .inl (h.token_of_waiting (.inr hlistener))⟩
  | storage op =>
    obtain ⟨⟨a, store⟩, hstore, heq⟩ := Option.map_eq_some_iff.mp hsem
    cases heq
    have h' : Signalled target { s with store := store } := ⟨(sem_jobId hstore).trans h.1, h.2⟩
    unfold Monitored.call
    split_ifs
    · exact h'.send _
    · exact h'
  | broadcast jobId =>
    cases hsem
    exact h.send jobId
  | setupToken =>
    simp only [signalSem] at hsem
    split_ifs at hsem
    · cases hsem
      exact h
    · cases hsem
      exact h
  | awaitSpawn =>
    simp only [signalSem] at hsem
    split_ifs at hsem
    cases hsem
    exact h
  | handleNext =>
    simp only [signalSem] at hsem
    split at hsem
    · rename_i jobId inbox hlistener _
      cases hsem
      refine ⟨h.1, ?_⟩
      obtain ⟨hid, htoken | hended | ⟨inbox', heq, hmem⟩⟩ := h
      · exact .inl (by simp [htoken])
      · rw [hlistener] at hended
        cases hended
      · rw [hlistener] at heq
        cases heq
        rcases mem_cons.mp hmem with rfl | hmem
        · exact .inl (by simp [hid])
        · exact .inr (.inr ⟨inbox, rfl, hmem⟩)
    · cases hsem
    · cases hsem
      exact ⟨h.1, .inr (.inl rfl)⟩
  | beginRun | endRun | clearToken | connect =>
    cases hsem
    exact h

end Sent

/-! ### Who sends -/

section Senders

variable {α : Type} {target : JobId}

variable {p : M α} {app : App}

theorem all_onStorage (hp : p.All fun op a r => P (.storage op) a r) : (onStorage p).All P := by
  have hresult : ∀ q : M α, (onStorage q).result = q.result := fun q => by cases q <;> rfl
  induction p with
  | ret | fail => trivial
  | call op k ih =>
    intro a
    rw [hresult]
    exact ⟨(hp a).1, ih a (hp a).2⟩

/-- The call broadcasts the job's cancellation only if it is the last one. -/
def BroadcastsLast (op : Op) (_ : Except JobWorkerError (Resp op))
    (r : Option (Except JobWorkerError α)) : Prop :=
  op = .broadcastCancellation → r.isSome

theorem broadcastsLast_of_calls (hp : p.Calls (· ≠ .broadcastCancellation)) :
    p.All BroadcastsLast :=
  hp.all.mono fun _ _ _ hne heq => absurd heq hne

/-- What comes before the rest of a program does not broadcast. -/
theorem broadcastsLast_bind {β : Type} {p : M β} {f : β → M α}
    (hp : p.Calls (· ≠ .broadcastCancellation)) (hf : ∀ b, (f b).All BroadcastsLast) :
    (p >>= f).All BroadcastsLast :=
  All.bind (P := fun op _ _ => op ≠ .broadcastCancellation) hp.all hf
    (fun _ _ hne heq => absurd heq hne) (fun _ _ _ hne heq => absurd heq hne)
    fun _ _ _ hne heq => absurd heq hne

theorem RemovalOp.silent {op : Op} (h : RemovalOp op) : op ≠ .broadcastCancellation := by
  rintro rfl
  exact h

theorem broadcastsLast_afterCancelling (app : App) (record : JobProcessingStatusRecord) :
    (afterCancelling app record >>= fun _ => pure true).All BroadcastsLast := by
  unfold afterCancelling
  rw [bind_assoc']
  refine broadcastsLast_bind (calls_bestEffortIndex (by simp)) fun _ => ?_
  split_ifs
  · refine broadcastsLast_of_calls (Calls.bind ?_ fun _ => trivial)
    refine ((calls_removePendingRdbJob app).mono fun _ => RemovalOp.silent).bind fun _ => ?_
    exact ((calls_bestEffortIndex (by simp)).bind fun _ =>
      (calls_deleteStatus (by simp)).discard).when
  · -- the broadcast, and nothing behind it
    intro a
    cases a with
    | ok | error => exact ⟨fun _ => rfl, trivial⟩

theorem broadcastsLast_cancelAttempts (app : App) (n : ℕ) (record : JobProcessingStatusRecord) :
    (cancelAttempts app n record).All BroadcastsLast := by
  induction n generalizing record with
  | zero =>
    refine broadcastsLast_bind (.perform (by simp)) fun found => ?_
    cases found with
    | none | some => trivial
  | succ n ih =>
    unfold cancelAttempts
    split_ifs
    · trivial
    · trivial
    · refine broadcastsLast_bind (calls_compareAndSetStatus (by simp) (by simp) (by simp)) fun outcome => ?_
      rcases outcome with - | - | current
      · exact broadcastsLast_afterCancelling app record
      · trivial
      · exact ih current

/-- **A cancellation broadcasts at most once**, with its last call. -/
theorem broadcastsLast_cancelJobLifecycle (app : App) :
    (cancelJobLifecycle app).All BroadcastsLast := by
  refine broadcastsLast_bind (calls_findStatusRecord (by simp)) fun found => ?_
  cases found with
  | none =>
    exact broadcastsLast_of_calls
      ((calls_removeUnpublishedRdbOnlyJob app).mono fun _ => RemovalOp.silent)
  | some record =>
    dsimp only
    split_ifs
    · trivial
    · exact broadcastsLast_cancelAttempts app _ record

theorem calls_onStorage (hp : p.Calls fun op => C (.storage op)) : (onStorage p).Calls C := by
  induction p with
  | ret | fail => trivial
  | call op k ih => exact ⟨hp.1, fun a => ih a (hp.2 a)⟩

theorem silent_claimAttempt (app : App) (d : Delivery) :
    (claimAttempt app d).Calls (· ≠ .broadcastCancellation) := by
  refine (calls_compareAndSetStatus (by simp) (by simp) (by simp)).bind fun outcome => ?_
  cases outcome with
  | applied => trivial
  | conflict current =>
    unfold claimConflict cancelledDispatchEligibility
    dsimp only
    split
    · split_ifs
      · exact (Calls.perform (by simp)).bind fun _ => (Calls.perform (by simp)).bind fun _ =>
          (Calls.perform (by simp)).bind fun _ => trivial
      · trivial
    · trivial

theorem silent_claimAndRun :
    (claimAndRun app d hasRepository streaming).Calls fun op => ¬ op.Signals target := by
  refine (calls_onStorage (silent_claimAttempt app d)).bind fun _ => Calls.when ?_
  refine Calls.bind ?_ fun alreadyCancelled => Calls.when ?_
  · unfold setupMonitoring
    split_ifs
    · refine Calls.bind (.perform id) fun _ => Calls.bind (Calls.when (.perform id)) ?_
      exact fun _ => trivial
    · trivial
  · exact Calls.bind (.perform id) fun _ => Calls.bind (.perform id) fun _ =>
      Calls.when (.perform id)

theorem silent_pubsubListener :
    (pubsubListener app messages).Calls fun op => ¬ op.Signals target := by
  have hloop : (handleMessages messages).Calls fun op => ¬ op.Signals target := by
    induction messages with
    | zero => trivial
    | succ n ih => exact Calls.bind (.perform id) fun _ => Calls.when ih
  have hsubscribe : (subscribeAndHandle messages).Calls fun op => ¬ op.Signals target :=
    Calls.bind (.perform id) fun _ => Calls.when hloop
  refine Calls.bind (.perform id) fun _ => ?_
  unfold subscribeJobCancellation
  split
  · exact hsubscribe
  · exact Calls.bind (.perform id) fun _ => Calls.when hsubscribe

/-- The id of the job is sent by its canceller only, with its last call. -/
theorem signals_of_program {x : SignalSetup} (hothers : ∀ n, x.others n ≠ target)
    (i : SignalParty) : (x.program i).All fun op _ r =>
      op.Signals target → i = .canceller ∧ r.isSome := by
  cases i with
  | execution => exact silent_claimAndRun.all.mono fun _ _ _ hn h => absurd h hn
  | listener => exact silent_pubsubListener.all.mono fun _ _ _ hn h => absurd h hn
  | other n =>
    have hcalls : (perform (SignalOp.broadcast (x.others n)) : SignalM Unit).Calls
        fun op => ¬ op.Signals target := .perform (hothers n)
    exact hcalls.all.mono fun _ _ _ hn h => absurd h hn
  | canceller =>
    have hlast : (onStorage (cancelJobLifecycle x.app)).All
        fun op _ r => op.Signals target → r.isSome :=
      all_onStorage (broadcastsLast_cancelJobLifecycle x.app)
    refine All.bind hlast (fun _ => trivial) ?_ ?_ ?_
    · exact fun _ _ h hop => absurd (h hop) (by simp)
    · exact fun _ _ _ _ _ => ⟨rfl, rfl⟩
    · exact fun _ _ _ _ _ => ⟨rfl, rfl⟩

end Senders

/-! ### The result -/

section Runs

variable {x : SignalSetup} {store : Store} {leftover : Option Bool} {c c' : SignalPool}
  {e : SignalEvent} {τ τ₁ τ₂ : List SignalEvent}

/-- No other event of the run sends the id of the job. -/
theorem signal_unique (hothers : ∀ n, x.others n ≠ store.jobId)
    (hr : Run (Step signalSem) (x.start store leftover) (τ₁ ++ e :: τ₂) c)
    (he : e.op.Signals store.jobId) : ∀ e' ∈ τ₁ ++ τ₂, ¬ e'.op.Signals store.jobId := by
  have hevents := hr.all_events (signals_of_program hothers)
  obtain ⟨hcanceller, hend⟩ := hevents e (by simp) he
  intro e' he' hsignals
  obtain ⟨hcanceller', hend'⟩ := hevents e' (by
    simp only [mem_append, mem_cons] at he' ⊢
    tauto) hsignals
  rcases mem_append.mp he' with he' | he'
  · obtain ⟨τ3, τ4, rfl⟩ := append_of_mem he'
    rw [append_assoc, cons_append] at hr
    exact hr.thread_over hend' e (by simp) (hcanceller.trans hcanceller'.symm)
  · exact hr.thread_over hend e' he' (hcanceller'.trans hcanceller.symm)

variable {target : JobId}

theorem unsignalled_run (hr : Run (Step signalSem) c τ c') (hτ : ∀ e ∈ τ, ¬ e.op.Signals target)
    (h : Unsignalled target c.store) : Unsignalled target c'.store := by
  refine hr.invariant_mem (I := fun c => Unsignalled target c.store) (fun c e c' he hs hc => ?_) h
  obtain ⟨ch, hsem⟩ := hs.sem_eq
  rw [hs.pre_eq, hs.post_eq] at hsem
  exact hc.step hsem (hτ e he)

theorem signalled_run (hr : Run (Step signalSem) c τ c')
    (h : Signalled target c.store) : Signalled target c'.store := by
  refine hr.invariant (I := fun c => Signalled target c.store) (fun c e c' hs hc => ?_) h
  obtain ⟨ch, hsem⟩ := hs.sem_eq
  rw [hs.pre_eq, hs.post_eq] at hsem
  exact hc.step hsem

/-- The broadcast reaches the listener if its subscription is active, and nobody else. -/
theorem broadcast_reaches
    (hsem : signalSem ch (.storage .broadcastCancellation) s = some (.ok (), s'))
    (h : Unsignalled target s) :
    (s.listener.Active → Signalled target s') ∧ (¬ s.listener.Active → Unsignalled target s') := by
  obtain ⟨⟨a, store⟩, hstore, heq⟩ := Option.map_eq_some_iff.mp hsem
  obtain ⟨rfl, rfl⟩ := Prod.mk.inj heq
  have hid : store.jobId = target := (sem_jobId hstore).trans h.jobId
  have hfault : ch.fault ≠ .refused ∧ ch.fault ≠ .unanswered false := by
    constructor
    · intro hfault
      simp only [sem, Op.infallible, hfault] at hstore
      cases hstore
    · intro hfault
      simp only [sem, Op.infallible, hfault] at hstore
      cases hstore
  rw [Monitored.call, if_pos ⟨rfl, hfault⟩]
  constructor
  · rintro ⟨inbox, hlistener⟩
    simp only [Monitored.send, hlistener]
    exact ⟨hid, .inr (.inr ⟨_, rfl, by simp [hid]⟩)⟩
  · intro hinactive
    unfold Monitored.send
    split
    · rename_i inbox hlistener
      exact absurd ⟨inbox, hlistener⟩ hinactive
    · exact ⟨hid, h.token, h.inbox⟩

/-- **A cancellation reaches the runner if and only if the listener was subscribed when it was
broadcast.**  The canceller has broadcast the job's id; in every later state in which the
listener is subscribed and has no message left to handle, the token of the execution is
cancelled if and only if the subscription was active at the time of the broadcast. -/
theorem token_cancelled_iff (hothers : ∀ n, x.others n ≠ store.jobId)
    (hr : Run (Step signalSem) (x.start store leftover) (τ₁ ++ e :: τ₂) c)
    (hop : e.op = .storage .broadcastCancellation) (hans : e.ans.isOk)
    (hidle : c.store.listener = .listening []) :
    c.store.token = true ↔ e.pre.listener.Active := by
  have hsignals : e.op.Signals store.jobId := by
    rw [hop]
    rfl
  have hunique := signal_unique hothers hr hsignals
  obtain ⟨c1, h1, c2, hs, h2⟩ := run_append.mp hr
  have hbefore : Unsignalled store.jobId c1.store :=
    unsignalled_run h1 (fun e' he' => hunique e' (mem_append_left _ he'))
      ⟨rfl, rfl, fun _ heq => by cases heq⟩
  obtain ⟨ch, hsem⟩ := hs.sem_eq
  rw [hs.pre_eq, hs.post_eq] at hsem
  rw [hs.pre_eq]
  obtain ⟨i, op, ans, pre, post, result⟩ := e
  obtain rfl : op = .storage .broadcastCancellation := hop
  cases ans with
  | error err => cases hans
  | ok a =>
    obtain ⟨hreach, hmiss⟩ := broadcast_reaches hsem hbefore
    constructor
    · intro htoken
      by_contra hinactive
      have hafter := unsignalled_run h2
        (fun e' he' => hunique e' (mem_append_right _ he')) (hmiss hinactive)
      exact Bool.false_ne_true (hafter.token.symm.trans htoken)
    · intro hactive
      obtain ⟨-, htoken | hended | ⟨inbox, heq, hmem⟩⟩ := signalled_run h2 (hreach hactive)
      · exact htoken
      · rw [hidle] at hended
        cases hended
      · rw [hidle] at heq
        cases heq
        cases hmem

end Runs

/-! ### The two orders of broadcast and subscription -/

variable (storage : StorageType)

/-- A new job, its execution and its cancellation. -/
def cancelledJob : SignalSetup :=
  ⟨{ (default : App) with storage := storage }, default, true, false, 1, fun _ => ⟨1⟩⟩

def newJobStore : Store := { (default : Store) with live := some ⟨.pending, 0⟩ }

/-- The parties take steps in the given order, all of which succeed. -/
def cancelledInOrder (order : List SignalParty) :
    List SignalEvent × SignalPool :=
  ((cancelledJob storage).start newJobStore none).play signalSem
    (order.map fun i => (i, { (default : Choice) with flag := true }))

theorem run_cancelledInOrder (order : List SignalParty) :
    Run (Step signalSem) ((cancelledJob storage).start newJobStore none)
      (cancelledInOrder storage order).1 (cancelledInOrder storage order).2 :=
  run_play _ _

/-- The attempt is claimed and runs, the listener subscribes, the cancellation is broadcast
and the message handled. -/
def subscribedFirst : List SignalEvent × SignalPool :=
  cancelledInOrder .standalone [.execution, .execution, .execution, .execution, .listener,
    .listener, .canceller, .canceller, .canceller, .listener]

theorem token_cancelled_subscribedFirst : subscribedFirst.2.store.token = true := by
  have hrun := run_cancelledInOrder .standalone [.execution, .execution, .execution, .execution,
    .listener, .listener, .canceller, .canceller, .canceller, .listener]
  have hactive : (subscribedFirst.1.get ⟨8, by decide⟩).pre.listener.Active := ⟨[], rfl⟩
  have hothers : ∀ n, (cancelledJob .standalone).others n ≠ newJobStore.jobId :=
    fun _ => show (⟨1⟩ : JobId) ≠ ⟨0⟩ by decide
  have hsplit : subscribedFirst.1 =
      subscribedFirst.1.take 8 ++ subscribedFirst.1.get ⟨8, by decide⟩ :: subscribedFirst.1.drop 9 :=
    rfl
  rw [show (cancelledInOrder .standalone _).1 = _ from hsplit] at hrun
  exact (token_cancelled_iff hothers hrun rfl rfl rfl).mpr hactive

/-- A run in which the canceller has changed the record of the running attempt and broadcast,
the execution still runs, its listener has nothing left to handle, and the token is not
cancelled. -/
def MissesCancellation (r : List SignalEvent × SignalPool) : Prop :=
  Run (Step signalSem) ((cancelledJob storage).start newJobStore none) r.1 r.2 ∧
  (∃ e ∈ r.1, e.thread = .canceller ∧ e.op = .storage .broadcastCancellation ∧ e.ans.isOk ∧
    e.pre.store.live = some ⟨.cancelling, 0⟩ ∧ e.pre.executing = true) ∧
  r.2.store.store.live = some ⟨.cancelling, 0⟩ ∧ r.2.store.executing = true ∧
  r.2.store.listener = .listening [] ∧ r.2.store.token = false

/-- The same with the subscription after the broadcast. -/
def subscribedLast : List SignalEvent × SignalPool :=
  cancelledInOrder storage [.execution, .execution, .execution, .execution, .canceller,
    .canceller, .canceller, .listener, .listener, .listener]

theorem subscribedLast_misses :
    MissesCancellation .standalone (subscribedLast .standalone) ∧
      MissesCancellation .scalable (subscribedLast .scalable) :=
  ⟨⟨run_cancelledInOrder _ _,
    ⟨_, getElem_mem (n := 6) (by decide), rfl, rfl, rfl, rfl, rfl⟩, rfl, rfl, rfl, rfl⟩,
    run_cancelledInOrder _ _,
    ⟨_, getElem_mem (n := 6) (by decide), rfl, rfl, rfl, rfl, rfl⟩, rfl, rfl, rfl, rfl⟩

end Jobworkerp
