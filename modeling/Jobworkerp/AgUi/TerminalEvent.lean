/-
Jobworkerp/AgUi/TerminalEvent.lean

The terminal event of a run.

On every path of the producer exactly one terminal event is stored, nothing is
stored after it, and each session gets a terminal state at most once
(`orderly_createEventStream`).  A cancellation that finds the session still open
stores a terminal event of its own, whatever the producer does.

* `one_terminal_event_iff`: a run has exactly one terminal event, the last of its
  events, and terminal states are kept, if and only if no cancellation found the
  session open.
-/
import Jobworkerp.AgUi.EventStream
import Mathlib.Data.Set.Insert

namespace Jobworkerp.AgUi

open Interleaving Prog List Function

/-! ### Orderly programs -/

/-- From a point where a terminal event has been stored or not, and where the sessions
`written` have got a state: no event follows the terminal one, there is one in the end,
and no session gets a state twice. -/
def Orderly {β : Type} : RunProg β → Bool → Set String → Prop
  | ret _, finished, _ => finished = true
  | fail _, _, _ => True
  | call (.storeEvent _ event) k, finished, written =>
    finished = false ∧ ∀ ans, Orderly (k ans) event.isTerminal written
  | call (.setSessionState sessionId _) k, finished, written =>
    sessionId ∉ written ∧ ∀ ans, Orderly (k ans) finished (insert sessionId written)
  | call _ k, finished, written => ∀ ans, Orderly (k ans) finished written

/-- A call that stores no event and sets no state. -/
def Quiet : RunOp → Prop
  | .storeEvent _ _ => False
  | .setSessionState _ _ => False
  | _ => True

variable {β γ : Type} {finished : Bool} {written : Set String}

theorem orderly_quiet {f : β → RunProg γ} (hp : p.Calls Quiet)
    (hf : ∀ b, Orderly (f b) finished written) : Orderly (p >>= f) finished written := by
  induction p with
  | ret b => exact hf b
  | fail e => trivial
  | call op k ih =>
    cases op with
    | storeEvent | setSessionState => exact hp.1.elim
    | _ => exact fun ans => ih ans (hp.2 ans)

variable {event : AgUiEvent} {f : Unit → RunProg γ}

theorem orderly_storeEvent {id : ℕ} (hf : Orderly (f ()) event.isTerminal written) :
    Orderly (storeEvent id event >>= f) false written := by
  refine ⟨rfl, fun ans => ?_⟩
  cases ans with
  | ok a => exact hf
  | error e => trivial

theorem orderly_setSessionState
    (hnew : sessionId ∉ written) (hf : Orderly (f ()) finished (insert sessionId written)) :
    Orderly ((setSessionState sessionId state).discard >>= f) finished written := by
  refine ⟨hnew, fun ans => ?_⟩
  cases ans with
  | ok a => exact hf
  | error e => trivial

/-! ### The producer is orderly -/

theorem orderly_emit
    (hf : Orderly (f ()) event.isTerminal written) : Orderly (emit event >>= f) false written := by
  unfold emit
  rw [bind_assoc']
  refine orderly_quiet (Calls.perform trivial) fun id => ?_
  rw [bind_assoc']
  refine orderly_storeEvent ?_
  exact orderly_quiet (Calls.perform trivial) fun _ => hf

theorem orderly_emitAll
    (hf : Orderly (f ()) false written) : Orderly (emitAll events >>= f) false written := by
  induction events with
  | nil => exact hf
  | cons event rest ih =>
    unfold emitAll
    rw [bind_assoc']
    exact orderly_emit ih

variable {r : RunStream} {f : Unit → RunProg γ}

/-- The session of the request is another than the one whose state was set. -/
theorem orderly_finishRequestSession (hw : written ⊆ {r.stateSessionId})
    (hf : ∀ w, Orderly (f ()) finished w) :
    Orderly (finishRequestSession r state >>= f) finished written := by
  unfold finishRequestSession
  split
  · rename_i hne
    exact orderly_setSessionState (fun hmem => hne (hw hmem)) (hf _)
  · exact hf _

section

variable (hf : ∀ w, Orderly (f ()) true w)

include hf

theorem orderly_failRun : Orderly (failRun r message code >>= f) false ∅ := by
  unfold failRun
  rw [bind_assoc']
  refine orderly_emit ?_
  rw [bind_assoc']
  refine orderly_setSessionState (Set.notMem_empty _) ?_
  exact orderly_finishRequestSession (by simp) hf

theorem orderly_pauseRun : Orderly (pauseRun r paused >>= f) false ∅ := by
  cases paused with
  | false => exact orderly_failRun hf
  | true =>
    unfold pauseRun
    rw [bind_assoc']
    refine orderly_quiet (Calls.perform trivial) fun _ => ?_
    rw [bind_assoc']
    refine orderly_quiet (Calls.perform trivial) fun session => ?_
    rw [bind_assoc']
    refine orderly_emit ?_
    exact orderly_finishRequestSession (Set.empty_subset _) hf

theorem orderly_publishOutput {events : List PublicEvent} {result : Option Text.Json} : Orderly (publishOutput r events result >>= f) false ∅ := by
  unfold publishOutput
  rw [bind_assoc']
  refine orderly_emitAll ?_
  rw [bind_assoc']
  refine orderly_quiet (Calls.perform trivial) fun session => ?_
  rw [bind_assoc']
  refine orderly_emit ?_
  rw [bind_assoc']
  refine orderly_setSessionState (Set.notMem_empty _) ?_
  exact orderly_finishRequestSession (by simp) hf

theorem orderly_finishOutput {output : Option Text.Json} :
    Orderly (finishOutput r output >>= f) false ∅ := by
  cases output with
  | none => exact orderly_failRun hf
  | some output =>
    show Orderly (projectOutput r (r.project output) >>= f) false ∅
    match r.project output with
    | none => exact orderly_failRun hf
    | some (events, result) => exact orderly_publishOutput hf

theorem orderly_finishStream : Orderly (finishStream r view >>= f) false ∅ := by
  unfold finishStream
  split
  · split
    · rw [bind_assoc']
      exact orderly_quiet (Calls.perform trivial) fun paused => orderly_pauseRun hf
    · exact orderly_failRun hf
  · rw [bind_assoc']
    exact orderly_quiet (Calls.perform trivial) fun view => orderly_finishOutput hf

theorem orderly_endStream : Orderly (endStream r >>= f) false ∅ := by
  unfold endStream
  rw [bind_assoc']
  refine orderly_quiet (Calls.perform trivial) fun _ => ?_
  split
  · exact orderly_failRun hf
  · rw [bind_assoc']
    exact orderly_quiet (Calls.perform trivial) fun view => orderly_finishStream hf

end

theorem calls_streamItems (n : ℕ) : (streamItems n).Calls Quiet := by
  induction n with
  | zero => trivial
  | succ n ih => exact Calls.bind (Calls.perform trivial) fun _ => ih

/-- **The producer stores exactly one terminal event, the last of its events.** -/
theorem orderly_createEventStream (r : RunStream) : Orderly (createEventStream r) false ∅ := by
  have hrest : Orderly (do
      (getSession r.stateSessionId).discard
      streamItems r.items
      endStream r
      unregister
      ret (.ok ()) : RunProg (Except AgUiError Unit)) false ∅ := by
    refine orderly_quiet (Calls.discard (Calls.perform trivial)) fun _ => ?_
    refine orderly_quiet (calls_streamItems r.items) fun _ => ?_
    refine orderly_endStream fun w => ?_
    exact orderly_quiet (Calls.perform trivial) fun _ => rfl
  unfold createEventStream
  cases r.emitRunStarted with
  | false => exact hrest
  | true => exact orderly_emit hrest

/-! ### Sessions -/

variable {s s' : RunStore} {sessionId : String}

theorem withState_sessions (s : RunStore) (sessionId : String) (state : SessionState) :
    (s.withState sessionId state).2.sessions = s.sessions ∨
      ∃ session, (s.withState sessionId state).2.sessions =
        Function.update s.sessions sessionId (some session) := by
  unfold RunStore.withState
  split
  · exact .inl rfl
  · exact .inr ⟨_, rfl⟩

theorem withPause_sessions (s : RunStore) (sessionId : String) (hitlInfo : HitlWaitingInfo) :
    (s.withPause sessionId hitlInfo).2.sessions = s.sessions ∨
      ∃ before after, s.sessions sessionId = some before ∧ before.state = .active ∧
        after.state = .paused ∧ (s.withPause sessionId hitlInfo).2.sessions =
          Function.update s.sessions sessionId (some after) := by
  unfold RunStore.withPause
  split
  · rename_i session hmap
    obtain ⟨before, hbefore, hpause⟩ := Option.map_eq_some_iff.mp hmap
    unfold pauseSession at hpause
    split_ifs at hpause with hstate
    cases hpause
    exact .inr ⟨before, _, hbefore, not_not.mp hstate, rfl, rfl⟩
  · exact .inl rfl

variable {maxEvents : ℕ} {ch : RunChoice}

variable {op : RunOp} {ans : Except Unit op.Resp}

section

variable (h : runSem maxEvents ch op s = some (ans, s'))

include h

/-- What a call does to the sessions: nothing, a new state, or a pause of an active one. -/
theorem sessions_cases : s'.sessions = s.sessions ∨
      (∃ sessionId state session, op = .setSessionState sessionId state ∧
        s'.sessions = Function.update s.sessions sessionId (some session)) ∨
      ∃ sessionId before after, s.sessions sessionId = some before ∧ before.state = .active ∧
        after.state = .paused ∧
        s'.sessions = Function.update s.sessions sessionId (some after) := by
  cases op with
  | setSessionState sessionId state =>
    cases ch with
    | fails => cases h; exact .inl rfl
    | _ =>
      obtain rfl : (s.withState sessionId state).2 = s' := congrArg Prod.snd (Option.some.inj h)
      refine (withState_sessions s sessionId state).imp id fun hset => .inl ?_
      obtain ⟨session, hsession⟩ := hset
      exact ⟨sessionId, state, session, rfl, hsession⟩
  | setPausedWithHitlInfo sessionId hitlInfo =>
    cases ch with
    | fails => cases h; exact .inl rfl
    | _ =>
      obtain rfl : (s.withPause sessionId hitlInfo).2 = s' := congrArg Prod.snd (Option.some.inj h)
      refine (withPause_sessions s sessionId hitlInfo).imp id fun hpause => .inr ?_
      exact ⟨sessionId, hpause⟩
  | _ => cases ch <;> cases h <;> exact .inl rfl

/-- The session has a terminal state. -/
def Settled (s : RunStore) (sessionId : String) : Prop :=
  ∃ session, s.sessions sessionId = some session ∧ session.state.isTerminal = true

/-- A call changes no settled session, unless it sets its state. -/
theorem settled_kept
    (hsettled : Settled s sessionId) (hset : ∀ state, op ≠ .setSessionState sessionId state) :
    s'.sessions sessionId = s.sessions sessionId := by
  rcases sessions_cases h with heq | ⟨other, state, session, rfl, heq⟩ |
    ⟨other, before, after, hbefore, hactive, -, heq⟩
  · rw [heq]
  · have hne : sessionId ≠ other := fun hid => hset state (hid ▸ rfl)
    rw [heq, update_of_ne hne]
  · have hne : sessionId ≠ other := by
      rintro rfl
      obtain ⟨session, hsession, hterminal⟩ := hsettled
      cases hbefore.symm.trans hsession
      rw [hactive] at hterminal
      cases hterminal
    rw [heq, update_of_ne hne]

/-- A session that is settled by a call has got its state by it, or was settled. -/
theorem settled_of (hsettled : Settled s' sessionId) :
    Settled s sessionId ∨ ∃ state, op = .setSessionState sessionId state := by
  obtain ⟨session', hsession', hterminal⟩ := hsettled
  rcases sessions_cases h with heq | ⟨other, state, session, rfl, heq⟩ |
    ⟨other, before, after, -, -, hpaused, heq⟩
  · exact .inl ⟨session', heq ▸ hsession', hterminal⟩
  · by_cases hid : sessionId = other
    · exact .inr ⟨state, by rw [hid]⟩
    · rw [heq, update_of_ne hid] at hsession'
      exact .inl ⟨session', hsession', hterminal⟩
  · by_cases hid : sessionId = other
    · rw [heq, hid, update_self] at hsession'
      cases hsession'
      rw [hpaused] at hterminal
      cases hterminal
    · rw [heq, update_of_ne hid] at hsession'
      exact .inl ⟨session', hsession', hterminal⟩

end

/-! ### Runs -/

variable {ι : Type}

abbrev RunEvent (ι : Type) :=
  Event (Option ι) RunOp RunOp.Resp Unit (Except AgUiError Unit) RunStore

abbrev RunPool (ι : Type) :=
  Config (Option ι) RunOp RunOp.Resp Unit (Except AgUiError Unit) RunStore

/-- The producer of a run, and the requests that cancel it. -/
def runThreads (r : RunStream) : Option ι → RunProg (Except AgUiError Unit)
  | none => createEventStream r
  | some _ => cancelWorkflow r

/-- The event a call stores. -/
def receives : RunOp → Option AgUiEvent
  | .storeEvent _ event => some event
  | _ => none

/-- The events the store received along a run. -/
def received (τ : List (RunEvent ι)) : List AgUiEvent := τ.filterMap fun e => receives e.op

/-- No terminal event yet, or exactly one, the last. -/
def EndsWith (finished : Bool) (events : List AgUiEvent) : Prop :=
  if finished then ∃ earlier last, events = earlier ++ [last] ∧ last.isTerminal = true ∧
    ∀ event ∈ earlier, event.isTerminal = false
  else ∀ event ∈ events, event.isTerminal = false

/-- **The run has exactly one terminal event**, no event was stored after it, and
terminal session states are kept. -/
structure OneTerminalEvent (τ : List (RunEvent ι)) : Prop where
  ends : EndsWith true (received τ)
  kept : ∀ e ∈ τ, ∀ sessionId, Settled e.pre sessionId →
    (e.post.sessions sessionId).map Session.state = (e.pre.sessions sessionId).map Session.state

/-- A read of the session that finds it open. -/
def foundOpen : (op : RunOp) → Except Unit op.Resp → Bool
  | .getSession _, .ok (some session) => !session.state.isTerminal
  | _, _ => false

/-- A cancellation finds the session of the run open. -/
def FoundOpen (e : RunEvent ι) : Prop := e.thread ≠ none ∧ foundOpen e.op e.ans = true

theorem EndsWith.concat (h : EndsWith false events) (event : AgUiEvent) :
    EndsWith event.isTerminal (events ++ [event]) := by
  unfold EndsWith at h ⊢
  split
  · rename_i hterminal
    exact ⟨events, event, rfl, hterminal, h⟩
  · rename_i hopen
    intro x hx
    rcases mem_append.mp hx with hx | hx
    · exact h x hx
    · rw [mem_singleton.mp hx]
      exact Bool.not_eq_true _ ▸ hopen

theorem received_concat (τ : List (RunEvent ι)) (e : RunEvent ι) :
    received (τ ++ [e]) = received τ ++ (receives e.op).toList := by
  unfold received
  cases h : receives e.op <;> simp [h]

/-- The call stores a terminal event. -/
def storesTerminal (op : RunOp) : Bool := (receives op).any AgUiEvent.isTerminal

/-- The producer stands where the stored events say, and has set the states of the
settled sessions. -/
def Producing (h : List (RunEvent ι)) (c : RunPool ι) : Prop :=
  ∃ finished written, Orderly (c.threads none) finished written ∧ EndsWith finished (received h) ∧
    ∀ sessionId, Settled c.store sessionId → sessionId ∈ written

variable {h τ : List (RunEvent ι)} {e : RunEvent ι}

/-- With one terminal event in the end, no two calls store one. -/
theorem EndsWith.unique (hends : EndsWith true (received τ))
    (h1 : e1 ∈ τ) (h2 : e2 ∈ τ) (hstores1 : storesTerminal e1.op = true)
    (hstores2 : storesTerminal e2.op = true) : e1 = e2 := by
  obtain ⟨earlier, last, heq, hlast, hearlier⟩ := hends
  have hcount : τ.countP (fun e => storesTerminal e.op) = 1 := by
    have hreceived : (received τ).countP AgUiEvent.isTerminal = 1 := by
      rw [heq, countP_append, countP_eq_zero.mpr (by simpa using hearlier)]
      simp [hlast]
    rw [received, countP_filterMap] at hreceived
    rw [← hreceived]
    refine countP_congr fun e _ => ?_
    unfold storesTerminal
    cases receives e.op <;> simp
  by_contra hne
  obtain ⟨τ1, τ2, rfl⟩ := append_of_mem h1
  rw [countP_append, countP_cons, if_pos hstores1] at hcount
  have hrest : e2 ∈ τ1 ∨ e2 ∈ τ2 := by
    rcases mem_append.mp h2 with h | h
    · exact .inl h
    · exact .inr ((mem_cons.mp h).resolve_left (Ne.symm hne))
  have hpos (l : List (RunEvent ι)) (h : e2 ∈ l) : 0 < l.countP fun e => storesTerminal e.op :=
    countP_pos_iff.mpr ⟨e2, h, hstores2⟩
  rcases hrest with h | h
  · have := hpos τ1 h
    omega
  · have := hpos τ2 h
    omega

variable {ans : Except Unit (Option Session)}

theorem Orderly.step {ans : Except Unit op.Resp} (hsem : runSem maxEvents ch op s = some (ans, s'))
    (horderly : Orderly (call op k) finished written) (hends : EndsWith finished events)
    (hsettled : ∀ sessionId, Settled s sessionId → sessionId ∈ written) :
    (∀ sessionId, Settled s sessionId → s'.sessions sessionId = s.sessions sessionId) ∧
      ∃ finished' written', Orderly (k ans) finished' written' ∧
        EndsWith finished' (events ++ (receives op).toList) ∧
        ∀ sessionId, Settled s' sessionId → sessionId ∈ written' := by
  by_cases hset : ∃ sessionId state, op = .setSessionState sessionId state
  · obtain ⟨sessionId, state, rfl⟩ := hset
    obtain ⟨hnew, hrest⟩ := horderly
    refine ⟨fun other hother => settled_kept hsem hother ?_, finished, insert sessionId written,
      hrest ans, by simpa [receives] using hends, fun other hother => ?_⟩
    · rintro state' heq
      cases heq
      exact hnew (hsettled sessionId hother)
    · rcases settled_of hsem hother with hbefore | ⟨state', heq⟩
      · exact Set.mem_insert_of_mem _ (hsettled other hbefore)
      · cases heq
        exact Set.mem_insert _ _
  · have hkept : ∀ sessionId, Settled s sessionId → s'.sessions sessionId = s.sessions sessionId :=
      fun other hother => settled_kept hsem hother fun state heq => hset ⟨other, state, heq⟩
    have hsettled' : ∀ sessionId, Settled s' sessionId → sessionId ∈ written := by
      intro other hother
      rcases settled_of hsem hother with hbefore | ⟨state, heq⟩
      · exact hsettled other hbefore
      · exact absurd ⟨other, state, heq⟩ hset
    refine ⟨hkept, ?_⟩
    cases op with
    | storeEvent id event =>
      obtain ⟨rfl, hrest⟩ := horderly
      exact ⟨event.isTerminal, written, hrest ans, hends.concat event, hsettled'⟩
    | setSessionState sessionId state => exact absurd ⟨sessionId, state, rfl⟩ hset
    | _ => exact ⟨finished, written, horderly ans, by simpa [receives] using hends, hsettled'⟩

/-- What a cancellation does with the answer to its first call. -/
def afterRead (r : RunStream) : Except Unit (Option Session) → RunProg (Except AgUiError Unit)
  | .ok session => sessionToCancel r session
  | .error e => fail e

theorem cancelWorkflow_eq (r : RunStream) :
    cancelWorkflow r = call (.getSession r.sessionId) (afterRead r) := by
  show call (RunOp.getSession r.sessionId) _ = _
  congr 1
  funext ans
  cases ans <;> rfl

/-- A cancellation has not begun, or has ended. -/
def CancelDone (r : RunStream) (p : RunProg (Except AgUiError Unit)) : Prop :=
  p = cancelWorkflow r ∨ ∃ result, p.result = some result

/-- A cancellation that does not find the session open ends. -/
theorem afterRead_ended (h : foundOpen (.getSession r.sessionId) ans = false) :
    ∃ result, (afterRead r ans).result = some result := by
  match ans with
  | .error e => exact ⟨_, rfl⟩
  | .ok none => exact ⟨_, rfl⟩
  | .ok (some session) =>
    have hterminal : session.state.isTerminal = true := by
      simpa [foundOpen] using h
    show ∃ result, (sessionToCancel r (some session)).result = some result
    rw [sessionToCancel, if_pos hterminal]
    exact ⟨_, rfl⟩

theorem getSession_store
    (h : runSem maxEvents ch (.getSession sessionId) s = some (ans, s')) : s' = s := by
  cases ch <;> cases h <;> rfl

variable [DecidableEq ι] {c c' : RunPool ι}

/-- As long as no cancellation finds the session open, the producer is alone. -/
theorem Producing.step (hs : Step (runSem maxEvents) c e c') (hopen : ¬ FoundOpen e)
    (hc : Producing h c ∧ ∀ j, CancelDone r (c.threads (some j))) :
    (∀ sessionId, Settled e.pre sessionId →
        e.post.sessions sessionId = e.pre.sessions sessionId) ∧
      Producing (h ++ [e]) c' ∧ ∀ j, CancelDone r (c'.threads (some j)) := by
  obtain ⟨⟨finished, written, horderly, hends, hsettled⟩, hcancels⟩ := hc
  cases hs with
  | @call i op k ch ans s' hi hsem =>
    cases i with
    | none =>
      rw [hi] at horderly
      obtain ⟨hkept, finished', written', horderly', hends', hsettled'⟩ :=
        horderly.step hsem hends hsettled
      refine ⟨hkept, ⟨finished', written', ?_, ?_, hsettled'⟩, fun j => ?_⟩
      · show Orderly (Function.update c.threads none (k ans) none) finished' written'
        exact horderly'
      · rw [received_concat]
        exact hends'
      · show CancelDone r (Function.update c.threads none (k ans) (some j))
        exact hcancels j
    | some j =>
      -- the cancellation reads the session, and that is all
      have hbegins : c.threads (some j) = cancelWorkflow r := by
        refine (hcancels j).resolve_right ?_
        rintro ⟨result, hresult⟩
        rw [hi] at hresult
        cases hresult
      rw [hi, cancelWorkflow_eq] at hbegins
      cases hbegins
      have hans : foundOpen (.getSession r.sessionId) ans = false := by
        rw [← Bool.not_eq_true]
        exact fun hfound => hopen ⟨by simp, hfound⟩
      obtain rfl := getSession_store hsem
      refine ⟨fun _ _ => rfl, ⟨finished, written, ?_, ?_, hsettled⟩, fun j' => ?_⟩
      · show Orderly (Function.update c.threads (some j) (afterRead r ans) none) finished written
        exact horderly
      · rw [received_concat]
        simpa [receives] using hends
      · show CancelDone r (Function.update c.threads (some j) (afterRead r ans) (some j'))
        by_cases hj : some j' = some j
        · rw [hj, update_self]
          exact .inr (afterRead_ended hans)
        · rw [update_of_ne hj]
          exact hcancels j'

theorem Producing.run (hr : Run (Step (runSem maxEvents)) c τ c') (hopen : ∀ e ∈ τ, ¬ FoundOpen e)
    (hc : Producing h c ∧ ∀ j, CancelDone r (c.threads (some j))) :
    (∀ e ∈ τ, ∀ sessionId, Settled e.pre sessionId →
        e.post.sessions sessionId = e.pre.sessions sessionId) ∧ Producing (h ++ τ) c' := by
  induction τ generalizing h c with
  | nil =>
    obtain rfl := run_nil.mp hr
    rw [append_nil]
    exact ⟨fun e he => (not_mem_nil he).elim, hc.1⟩
  | cons e τ ih =>
    obtain ⟨c1, hs, hrest⟩ := hr
    obtain ⟨hkept, hc1⟩ := Producing.step hs (hopen e mem_cons_self) hc
    obtain ⟨hkept', hrun⟩ := ih hrest (fun e' he' => hopen e' (mem_cons_of_mem _ he')) hc1
    rw [append_assoc] at hrun
    refine ⟨fun e' he' => ?_, hrun⟩
    rcases mem_cons.mp he' with rfl | he'
    · exact hkept
    · exact hkept' e' he'

/-! ### Two terminal events -/

/-- An orderly program does not return without a terminal event. -/
theorem Orderly.returnsUnless (hp : Orderly p false written) :
    p.ReturnsUnless (fun _ _ => True) (fun op => storesTerminal op = true) fun _ => False := by
  induction p generalizing written with
  | ret b => cases hp
  | fail e => trivial
  | call op k ih =>
    cases op with
    | storeEvent id event =>
      by_cases hterminal : event.isTerminal = true
      · exact .inl hterminal
      · have hrest := hp.2
        rw [Bool.not_eq_true] at hterminal
        rw [hterminal] at hrest
        exact .inr fun ans _ => ih ans (hrest ans)
    | setSessionState sessionId state => exact .inr fun ans _ => ih ans (hp.2 ans)
    | _ => exact .inr fun ans _ => ih ans (hp ans)

/-- A cancellation of an open session stores a terminal event. -/
theorem cancelSession_returnsUnless (r : RunStream) :
    (cancelSession r).ReturnsUnless (fun _ _ => True) (fun op => storesTerminal op = true)
      fun _ => False := by
  refine ReturnsUnless.bind (returnsUnless_true _) fun registered _ => ?_
  refine ReturnsUnless.bind (returnsUnless_true _) fun _ _ => ?_
  refine ReturnsUnless.bind (returnsUnless_true _) fun _ _ => ?_
  refine ReturnsUnless.bind (returnsUnless_true _) fun id _ => ?_
  exact .inl rfl

variable {a : Except AgUiError Unit}

theorem exists_terminal (hr : Run (Step (runSem maxEvents)) c τ c')
    (hi : (c.threads i).ReturnsUnless (fun _ _ => True) (fun op => storesTerminal op = true)
      fun _ => False) (hended : (c'.threads i).result = some (.ok a)) :
    ∃ e ∈ τ, e.thread = i ∧ storesTerminal e.op = true := by
  have hr' : Run (fun c e c' => Step (runSem maxEvents) c e c' ∧ True) c τ c' :=
    hr.mono fun _ _ _ hs => ⟨hs, trivial⟩
  obtain ⟨τ1, e, τ2, c1, c2, rfl, -, -, -, hthread, hstores, -⟩ :=
    hr'.exists_call (K := fun _ _ => True) (fun _ _ _ _ _ _ => trivial) hi hended id
  exact ⟨e, by simp, hthread, hstores⟩

theorem afterRead_open {ans : Except Unit (Option Session)}
    (h : foundOpen (.getSession r.sessionId) ans = true) : afterRead r ans = cancelSession r := by
  match ans with
  | .error e => cases h
  | .ok none => cases h
  | .ok (some session) =>
    have hopen : ¬ session.state.isTerminal = true := by
      simpa [foundOpen] using h
    show sessionToCancel r (some session) = cancelSession r
    rw [sessionToCancel, if_neg hopen]

/-- A cancellation reads the session once, as its first call. -/
def ReadsFirst (r : RunStream) (p : RunProg (Except AgUiError Unit)) : Prop :=
  p = cancelWorkflow r ∨ p.Calls fun op => ∀ sessionId, op ≠ .getSession sessionId

theorem calls_cancelSession (r : RunStream) :
    (cancelSession r).Calls fun op => ∀ sessionId, op ≠ .getSession sessionId := by
  refine Calls.bind (Calls.perform (by simp)) fun registered => ?_
  refine Calls.bind (Calls.when (Calls.perform (by simp))) fun _ => ?_
  refine Calls.bind (Calls.discard (Calls.perform (by simp))) fun _ => ?_
  refine Calls.bind (Calls.perform (by simp)) fun id => ?_
  refine Calls.bind (Calls.perform (by simp)) fun _ => ?_
  exact Calls.bind (Calls.perform (by simp)) fun _ => trivial

theorem readsFirst_afterRead (r : RunStream) (ans : Except Unit (Option Session)) :
    ReadsFirst r (afterRead r ans) := by
  refine .inr ?_
  match ans with
  | .error e => trivial
  | .ok none => trivial
  | .ok (some session) =>
    show (sessionToCancel r (some session)).Calls _
    by_cases hterminal : session.state.isTerminal
    · rw [sessionToCancel, if_pos hterminal]
      trivial
    · rw [sessionToCancel, if_neg hterminal]
      exact calls_cancelSession r

theorem ReadsFirst.step (hs : Step (runSem maxEvents) c e c')
    (hj : ReadsFirst r (c.threads (some j))) : ReadsFirst r (c'.threads (some j)) := by
  by_cases he : some j = e.thread
  · obtain ⟨k, hk, hk', -⟩ := hs.self
    rw [← he] at hk hk'
    rw [hk']
    rcases hj with hbegins | hcalls
    · rw [hk, cancelWorkflow_eq] at hbegins
      obtain ⟨i, op, ans, pre, post, result⟩ := e
      cases hbegins
      exact readsFirst_afterRead r ans
    · rw [hk] at hcalls
      exact .inr (hcalls.2 e.ans)
  · rw [hs.other he]
    exact hj

/-- A cancellation that finds the session open and ends has stored a terminal event. -/
theorem foundOpen_terminal (hr : Run (Step (runSem maxEvents)) c τ c')
    (hj : ReadsFirst r (c.threads (some j))) (he : e ∈ τ) (hthread : e.thread = some j)
    (hopen : foundOpen e.op e.ans = true) (hended : (c'.threads (some j)).result = some (.ok a)) :
    ∃ e' ∈ τ, e'.thread = some j ∧ storesTerminal e'.op = true := by
  obtain ⟨τ1, τ2, rfl⟩ := append_of_mem he
  obtain ⟨c1, h1, c2, hs, h2⟩ := run_append.mp hr
  have hj1 : ReadsFirst r (c1.threads (some j)) :=
    h1.invariant (I := fun c => ReadsFirst r (c.threads (some j)))
      (fun _ _ _ hs hc => hc.step hs) hj
  obtain ⟨k, hk, hk', -⟩ := hs.self
  rw [hthread] at hk hk'
  obtain ⟨i, op, ans, pre, post, result⟩ := e
  rcases hj1 with hbegins | hcalls
  · rw [hk, cancelWorkflow_eq] at hbegins
    cases hbegins
    rw [afterRead_open hopen] at hk'
    obtain ⟨e', he', hthread', hstores⟩ :=
      exists_terminal h2 (hk' ▸ cancelSession_returnsUnless r) hended
    exact ⟨e', mem_append_right _ (mem_cons_of_mem _ he'), hthread', hstores⟩
  · -- only the first call reads a session
    rw [hk] at hcalls
    cases op with
    | getSession sessionId => exact absurd rfl (hcalls.1 sessionId)
    | _ => cases hopen

/-- **When a run has exactly one terminal event.**  The producer runs to its end, with
any number of cancellations, each of which runs to its end if it begins.  The run has
exactly one terminal event, as its last, and keeps terminal session states, if and only
if no cancellation found the session of the run open. -/
theorem one_terminal_event_iff {start : RunStore} (hstart : ∀ sessionId, ¬ Settled start sessionId)
    (hr : Run (Step (runSem maxEvents)) ⟨runThreads r, start⟩ τ c')
    (hended : ∀ i, (i = none ∨ ∃ e ∈ τ, e.thread = i) →
      ∃ a, (c'.threads i).result = some (.ok a)) :
    OneTerminalEvent τ ↔ ∀ e ∈ τ, ¬ FoundOpen e := by
  constructor
  · rintro hone e he ⟨hthread, hopen⟩
    obtain ⟨j, hj⟩ := Option.ne_none_iff_exists'.mp hthread
    obtain ⟨a, ha⟩ := hended none (.inl rfl)
    obtain ⟨a', ha'⟩ := hended (some j) (.inr ⟨e, he, hj⟩)
    obtain ⟨e1, he1, hthread1, hstores1⟩ :=
      exists_terminal (i := none) hr (orderly_createEventStream r).returnsUnless ha
    obtain ⟨e2, he2, hthread2, hstores2⟩ := foundOpen_terminal hr (.inl rfl) he hj hopen ha'
    have heq := hone.ends.unique he1 he2 hstores1 hstores2
    rw [← heq, hthread1] at hthread2
    cases hthread2
  · intro hopen
    have hc : Producing ([] : List (RunEvent ι)) ⟨runThreads r, start⟩ :=
      ⟨false, ∅, orderly_createEventStream r, by simp [EndsWith, received],
        fun sessionId hsettled => absurd hsettled (hstart sessionId)⟩
    obtain ⟨hkept, finished, written, horderly, hends, -⟩ :=
      Producing.run (r := r) hr hopen ⟨hc, fun j => .inl rfl⟩
    obtain ⟨a, ha⟩ := hended none (.inl rfl)
    refine ⟨?_, fun e he sessionId hsettled => by rw [hkept e he sessionId hsettled]⟩
    -- the producer has ended, so its terminal event is stored
    have hfinished : finished = true := by
      cases hp : c'.threads none with
      | ret b => rw [hp] at horderly; exact horderly
      | fail | call => rw [hp] at ha; cases ha
    rw [hfinished, nil_append] at hends
    exact hends

/-- The producer runs to its end, then a cancellation finds the session settled. -/
def lateCancel : List (Option Unit × RunChoice) :=
  List.replicate 10 (none, .plain) ++ [(some (), .plain)]

/-- The session is cancelled while the workflow runs, then the producer goes on. -/
def earlyCancel : List (Option Unit × RunChoice) :=
  (none, .plain) :: List.replicate 7 (some (), .plain) ++ List.replicate 9 (none, .plain)

def plainPool : RunPool Unit := ⟨runThreads plainRun, plainStart⟩

/-- A cancellation that comes after the end adds nothing. -/
theorem late_cancel_one_terminal_event :
    (received (plainPool.play (runSem 1000) lateCancel).1).length = 1 ∧
      OneTerminalEvent (plainPool.play (runSem 1000) lateCancel).1 := by
  have hstart : ∀ sessionId, ¬ Settled plainStart sessionId := by
    rintro sessionId ⟨session, hsession, hterminal⟩
    simp only [plainStart] at hsession
    split_ifs at hsession
    cases hsession
    cases hterminal
  have hclosed : ((plainPool.play (runSem 1000) lateCancel).1.all fun e =>
      !(e.thread.isSome && foundOpen e.op e.ans)) = true := rfl
  refine ⟨rfl, (one_terminal_event_iff hstart (run_play plainPool lateCancel) ?_).mpr ?_⟩
  · rintro (_ | _) -
    · exact ⟨.ok (), rfl⟩
    · exact ⟨.ok (), rfl⟩
  · rintro e he ⟨hthread, hopen⟩
    have hall := all_eq_true.mp hclosed e he
    rw [hopen, Bool.and_true, Bool.not_eq_true', Option.isSome_eq_false_iff,
      Option.isNone_iff_eq_none] at hall
    exact hthread hall

/-- **A run with two terminal events.**  The cancellation stores its error and the state
`cancelled`; the producer then stores the end of the run and the state `completed`. -/
theorem early_cancel_two_terminal_events :
    ∃ τ c', Run (Step (runSem 1000)) plainPool τ c' ∧
      (∀ i, ∃ a, (c'.threads i).result = some (.ok a)) ∧
      received τ = [.runError "run" "Run cancelled by user" (some "CANCELLED"),
        .runFinished "run" "thread" (.success none)] ∧
      (∃ e ∈ τ, (e.pre.sessions "session").map Session.state = some .cancelled ∧
        (e.post.sessions "session").map Session.state = some .completed) ∧
      ¬ OneTerminalEvent τ := by
  have hreceived : received (plainPool.play (runSem 1000) earlyCancel).1 =
      [.runError "run" "Run cancelled by user" (some "CANCELLED"),
        .runFinished "run" "thread" (.success none)] := rfl
  refine ⟨_, _, run_play plainPool earlyCancel, ?_, hreceived, ?_, ?_⟩
  · rintro (_ | _)
    · exact ⟨.ok (), rfl⟩
    · exact ⟨.ok (), rfl⟩
  · refine ⟨(plainPool.play (runSem 1000) earlyCancel).1.get ⟨15, by decide⟩, get_mem _ _, ?_⟩
    exact ⟨rfl, rfl⟩
  · rintro ⟨⟨earlier, last, heq, -, hearlier⟩, -⟩
    cases earlier with
    | nil => cases heq
    | cons first rest =>
      obtain ⟨rfl, -⟩ := List.cons.inj heq
      cases hearlier _ mem_cons_self

end Jobworkerp.AgUi
