/-
Jobworkerp/InstanceSession.lean

The session of a worker instance (`worker/instance_session.rs`).

An attempt may start only with a permit of the session, and the permit is
checked once more right before the runner starts.  A session that lost its
heartbeat is isolated: it gives out no permits, and `wait_until_isolated`
returns when the last permit has been dropped.

All functions take the one mutex, so that each is a single step; the wait is a
step for every time it looks at the session.  Every reading of the clock is an
arbitrary number.

* `SessionStep.active`: no step makes a session active.
* `no_start_after_isolation`: what a run of these steps cannot contain.
-/
import Jobworkerp.Interleaving.Run
import Mathlib.Data.Int.Notation

namespace Jobworkerp

open Interleaving

/-! ### The functions -/

inductive SessionState
  | active | isolating | isolated
  deriving DecidableEq, Repr

/-- `SessionEpochState`, with the two timeouts of the session. -/
structure SessionEpochState where
  state : SessionState
  instanceId : ℤ
  generation : UInt64
  lastHeartbeatSuccess : ℕ
  activePermits : ℕ
  instanceTimeout : ℕ
  startTimeout : ℕ
  deriving DecidableEq, Repr

structure ExecutionStartPermit where
  instanceId : ℤ
  generation : UInt64
  deadline : ℕ
  deriving DecidableEq, Repr

/-- `WorkerInstanceSessionHandle::new`. -/
def SessionEpochState.new (now : ℕ) (instanceId : ℤ) (instanceTimeout startTimeout : ℕ) :
    SessionEpochState :=
  ⟨.active, instanceId, 0, now, 0, instanceTimeout, startTimeout⟩

namespace SessionEpochState

variable (s : SessionEpochState)

/-- The heartbeat is recent enough: `last_heartbeat_success.elapsed() < instance_timeout`. -/
def fresh (now : ℕ) : Bool :=
  now - s.lastHeartbeatSuccess < s.instanceTimeout

def recordHeartbeatSuccess (now : ℕ) : SessionEpochState :=
  if s.state = .active then { s with lastHeartbeatSuccess := now } else s

/-- `acquire_start_permit`.  It reads the clock twice. -/
def acquireStartPermit (now later : ℕ) :
    SessionEpochState × Option ExecutionStartPermit :=
  if s.state ≠ .active ∨ s.fresh now = false then ({ s with state := .isolating }, none)
  else
    ({ s with activePermits := s.activePermits + 1 },
      some ⟨s.instanceId, s.generation, later + s.startTimeout⟩)

def beginIsolation : SessionEpochState :=
  if s.state = .active then { s with state := .isolating } else s

/-- One look of `wait_until_isolated`, and whether it returns. -/
def lookIsolated : SessionEpochState × Bool :=
  if s.activePermits = 0 then ({ s with state := .isolated }, true) else (s, false)

/-- `confirm_start`.  It reads the clock twice. -/
def confirmStart (permit : ExecutionStartPermit) (now later : ℕ) : Bool :=
  s.state = .active && s.generation = permit.generation && s.fresh now && later < permit.deadline

/-- The drop of a permit. -/
def releasePermit : SessionEpochState :=
  { s with activePermits := s.activePermits - 1 }

end SessionEpochState

/-! ### Runs of a session -/

/-- A session and the permits that have not been dropped. -/
structure SessionSystem where
  session : SessionEpochState
  live : List ExecutionStartPermit
  deriving DecidableEq, Repr

/-- The steps, with their answers. -/
inductive SessionEvent
  | heartbeat
  | acquire (permit : Option ExecutionStartPermit)
  | isolate
  | look (returned : Bool)
  | confirm (permit : ExecutionStartPermit) (started : Bool)
  | drop (permit : ExecutionStartPermit)
  deriving DecidableEq, Repr

inductive SessionStep : SessionSystem → SessionEvent → SessionSystem → Prop
  | heartbeat {s : SessionSystem} (now : ℕ) :
      SessionStep s .heartbeat ⟨s.session.recordHeartbeatSuccess now, s.live⟩
  | acquire {s : SessionSystem} (now later : ℕ) :
      SessionStep s (.acquire (s.session.acquireStartPermit now later).2)
        ⟨(s.session.acquireStartPermit now later).1,
          (s.session.acquireStartPermit now later).2.toList ++ s.live⟩
  | isolate {s : SessionSystem} : SessionStep s .isolate ⟨s.session.beginIsolation, s.live⟩
  | look {s : SessionSystem} :
      SessionStep s (.look s.session.lookIsolated.2) ⟨s.session.lookIsolated.1, s.live⟩
  | confirm {s : SessionSystem} {permit : ExecutionStartPermit} (now later : ℕ)
      (hlive : permit ∈ s.live) :
      SessionStep s (.confirm permit (s.session.confirmStart permit now later)) s
  | drop {s : SessionSystem} {permit : ExecutionStartPermit} (hlive : permit ∈ s.live) :
      SessionStep s (.drop permit) ⟨s.session.releasePermit, s.live.erase permit⟩

/-- The session counts its live permits. -/
def SessionSystem.counted (s : SessionSystem) : Prop := s.session.activePermits = s.live.length

section Steps

variable {s s' : SessionSystem} {e : SessionEvent}

theorem acquireStartPermit_cases (session : SessionEpochState) (now later : ℕ) :
    session.acquireStartPermit now later = ({ session with state := .isolating }, none) ∨
      session.state = .active ∧ ∃ permit, session.acquireStartPermit now later =
        ({ session with activePermits := session.activePermits + 1 }, some permit) := by
  unfold SessionEpochState.acquireStartPermit
  by_cases h : session.state ≠ .active ∨ session.fresh now = false
  · rw [if_pos h]
    exact .inl rfl
  · rw [if_neg h]
    rw [not_or, not_not] at h
    exact .inr ⟨h.1, _, rfl⟩

section

variable (hstep : SessionStep s e s')

include hstep

theorem SessionStep.counted (h : s.counted) : s'.counted := by
  unfold SessionSystem.counted at h ⊢
  cases hstep with
  | heartbeat now =>
    unfold SessionEpochState.recordHeartbeatSuccess
    split_ifs <;> exact h
  | acquire now later =>
    rcases acquireStartPermit_cases s.session now later with hacq | ⟨-, permit, hacq⟩
    · rw [hacq]
      exact h
    · rw [hacq]
      show s.session.activePermits + 1 = (permit :: s.live).length
      rw [h, List.length_cons]
  | isolate =>
    unfold SessionEpochState.beginIsolation
    split_ifs <;> exact h
  | look =>
    unfold SessionEpochState.lookIsolated
    split_ifs <;> exact h
  | confirm now later hlive => exact h
  | drop hlive =>
    show s.session.activePermits - 1 = (s.live.erase _).length
    rw [h, List.length_erase_of_mem hlive]

/-- **No step makes a session active.** -/
theorem SessionStep.active (h : s'.session.state = .active) : s.session.state = .active := by
  cases hstep with
  | heartbeat now =>
    unfold SessionEpochState.recordHeartbeatSuccess at h
    split_ifs at h with hactive
    · exact hactive
    · exact h
  | acquire now later =>
    rcases acquireStartPermit_cases s.session now later with hacq | ⟨hactive, -⟩
    · rw [hacq] at h
      cases h
    · exact hactive
  | isolate =>
    unfold SessionEpochState.beginIsolation at h
    split_ifs at h
    exact h
  | look =>
    unfold SessionEpochState.lookIsolated at h
    split_ifs at h
    exact h
  | confirm | drop => exact h

/-- Only an active session gives out a permit or confirms a start. -/
theorem SessionStep.active_of_start
    (h : (∃ permit, e = .acquire (some permit)) ∨ ∃ permit, e = .confirm permit true) :
    s.session.state = .active := by
  cases hstep with
  | acquire now later =>
    rcases acquireStartPermit_cases s.session now later with hacq | ⟨hactive, -⟩
    · rw [hacq] at h
      rcases h with ⟨permit, heq⟩ | ⟨permit, heq⟩
      · cases heq
      · cases heq
    · exact hactive
  | @confirm permit now later hlive =>
    rcases h with ⟨permit', heq⟩ | ⟨permit', heq⟩
    · cases heq
    · have hconfirm : s.session.confirmStart permit now later = true := by
        injection heq
      unfold SessionEpochState.confirmStart at hconfirm
      simp only [Bool.and_eq_true, decide_eq_true_eq] at hconfirm
      exact hconfirm.1.1.1
  | heartbeat | isolate | look | drop =>
    rcases h with ⟨permit, heq⟩ | ⟨permit, heq⟩ <;> cases heq

/-- The events after which a session is no longer active. -/
inductive Isolates : SessionEvent → Prop
  | refused : Isolates (.acquire none)
  | isolate : Isolates .isolate
  | returned : Isolates (.look true)

theorem SessionStep.not_active_of_isolates (h : Isolates e) : s'.session.state ≠ .active := by
  cases hstep with
  | acquire now later =>
    rcases acquireStartPermit_cases s.session now later with hacq | ⟨-, permit, hacq⟩
    · rw [hacq]
      exact fun heq => nomatch heq
    · rw [hacq] at h
      cases h
  | isolate =>
    unfold SessionEpochState.beginIsolation
    split_ifs with hactive
    · exact fun heq => nomatch heq
    · exact hactive
  | look =>
    unfold SessionEpochState.lookIsolated at h ⊢
    split_ifs at h ⊢
    · exact fun heq => nomatch heq
    · cases h
  | heartbeat | confirm | drop => cases h

/-- A session that is not active keeps the permits it has, or loses them. -/
theorem SessionStep.live_nil (hactive : s.session.state ≠ .active)
    (h : s.live = []) : s'.live = [] := by
  cases hstep with
  | acquire now later =>
    rcases acquireStartPermit_cases s.session now later with hacq | ⟨hactive', -⟩
    · rw [hacq]
      exact h
    · exact absurd hactive' hactive
  | drop hlive =>
    rw [h] at hlive
    cases hlive
  | heartbeat | isolate | look | confirm => exact h

end

/-- A wait returns when no permit is live. -/
theorem SessionStep.live_nil_of_returned (hstep : SessionStep s (.look true) s')
    (h : s.counted) : s'.live = [] := by
  generalize he : SessionEvent.look true = e at hstep
  cases hstep with
  | look =>
    have hreturned : s.session.lookIsolated.2 = true := by
      injection he with he
      exact he.symm
    unfold SessionEpochState.lookIsolated at hreturned
    split_ifs at hreturned with hzero
    exact List.eq_nil_of_length_eq_zero (h.symm.trans hzero)
  | heartbeat | acquire | isolate | confirm | drop => cases he

end Steps

/-- **No start after isolation.**  In every run of a session: the session counts
its live permits; once it has left the active state it never is active again;
after a refused acquire, a `begin_isolation` or a wait that returned no start
is confirmed and no permit given out; and after a wait that returned no permit
is live. -/
theorem no_start_after_isolation {now : ℕ} {instanceId : ℤ} {instanceTimeout startTimeout : ℕ}
    {τ : List SessionEvent} {s : SessionSystem}
    (hrun : Run SessionStep ⟨.new now instanceId instanceTimeout startTimeout, []⟩ τ s) :
    s.session.activePermits = s.live.length ∧
    (∀ τ₁ τ₂ s₁, τ = τ₁ ++ τ₂ →
      Run SessionStep ⟨.new now instanceId instanceTimeout startTimeout, []⟩ τ₁ s₁ →
      Run SessionStep s₁ τ₂ s → s₁.session.state ≠ .active → s.session.state ≠ .active) ∧
    ∀ τ₁ e τ₂, τ = τ₁ ++ e :: τ₂ → Isolates e →
      (∀ permit, .confirm permit true ∉ τ₂) ∧ (∀ permit, .acquire (some permit) ∉ τ₂) ∧
        (e = .look true → s.live = []) := by
  have hinactive (c : SessionSystem) (e : SessionEvent) (c' : SessionSystem)
      (hstep : SessionStep c e c') (h : c.session.state ≠ .active) :
      c'.session.state ≠ .active := fun hactive => h (hstep.active hactive)
  have hcounted (c : SessionSystem) (e : SessionEvent) (c' : SessionSystem)
      (hstep : SessionStep c e c') : c.counted → c'.counted := hstep.counted
  have hs : s.counted := hrun.invariant hcounted rfl
  refine ⟨hs, ?_, ?_⟩
  · intro τ₁ τ₂ s₁ _ _ hrest h
    exact hrest.invariant (I := fun c => c.session.state ≠ .active) hinactive h
  · rintro τ₁ e τ₂ rfl hisolates
    obtain ⟨s₁, hbefore, s2, hstep, hafter⟩ := run_append.mp hrun
    have hs2 := hstep.not_active_of_isolates hisolates
    -- every later step is one of a session that is not active
    have hno (e' : SessionEvent) (he' : e' ∈ τ₂)
        (hstart : (∃ permit, e' = .acquire (some permit)) ∨
          ∃ permit, e' = .confirm permit true) : False := by
      obtain ⟨c, c', hc, hstep'⟩ := hafter.mem_step hinactive hs2 he'
      exact hc (hstep'.active_of_start hstart)
    refine ⟨fun permit hmem => hno _ hmem (.inr ⟨permit, rfl⟩),
      fun permit hmem => hno _ hmem (.inl ⟨permit, rfl⟩), ?_⟩
    rintro rfl
    have hlive2 := hstep.live_nil_of_returned (hbefore.invariant hcounted rfl)
    have hboth := hafter.invariant
      (I := fun c => c.session.state ≠ .active ∧ c.live = [])
      (fun c e c' hstep' h => ⟨hinactive c e c' hstep' h.1, hstep'.live_nil h.1 h.2⟩)
      ⟨hs2, hlive2⟩
    exact hboth.2

/-- A permit is given out and dropped, the session is isolated, and the wait
returns. -/
theorem session_isolated_after_drop :
    ∃ (τ : List SessionEvent) (s : SessionSystem),
      Run SessionStep ⟨.new 0 7 10 1, []⟩ (τ ++ [.look true]) s ∧
        (∃ permit, .acquire (some permit) ∈ τ) ∧ s.live = [] := by
  let s0 : SessionSystem := ⟨.new 0 7 10 1, []⟩
  let permit : ExecutionStartPermit := ⟨7, 0, 2⟩
  have hacquire : SessionStep s0 (.acquire (some permit)) ⟨_, [permit]⟩ := .acquire 1 1
  have hdrop : SessionStep ⟨(s0.session.acquireStartPermit 1 1).1, [permit]⟩ (.drop permit)
      ⟨_, []⟩ := .drop (by decide)
  have hisolate : SessionStep ⟨(s0.session.acquireStartPermit 1 1).1.releasePermit, []⟩ .isolate
      ⟨_, []⟩ := .isolate
  have hlook : SessionStep
      ⟨(s0.session.acquireStartPermit 1 1).1.releasePermit.beginIsolation, []⟩ (.look true)
      ⟨_, []⟩ := .look
  have hrun : Run SessionStep s0
      ([.acquire (some permit), .drop permit, .isolate] ++ [.look true]) _ :=
    ⟨_, hacquire, _, hdrop, _, hisolate, _, hlook, rfl⟩
  exact ⟨_, _, hrun, ⟨permit, by simp⟩,
    ((no_start_after_isolation hrun).2.2 _ _ [] rfl .returned).2.2 rfl⟩

end Jobworkerp
