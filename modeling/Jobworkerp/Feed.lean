/-
Jobworkerp/Feed.lean

Client feeds of a streaming job (`infra/feed/chan.rs`).

The map holds one entry for each job: the sender of the runner once it has
registered, a buffer, and the flags `draining` and `closed`.  A function takes
the entry several times and lets it go in between; a `FeedTask` is the point
at which a call, or a drain task, has stopped, and one step of it is what it
does under one guard, or one send.  A send waits for room in the channel: it
is a step of its own that can come at any later time.

A call that has returned is `done`, with its result if it is a publish.  The
drain that `register` spawns goes on in the place of the `register` call, of
which nothing is left to do.

Of `publish_feed` one branch is left out.  It spawns a drain if a sender is
registered and none is draining, inside the branch for no sender or a drain.

* `feeds_arrive_in_order`: with one publisher and one runner, what is received
  is a prefix of what is published, and nothing is lost before a final feed.
* `publish_rejected_iff`: a publish is turned away only between the moment an
  entry is marked as closed and its deletion, or when the receiver is gone.
* `feed_buffer_bounded_iff`: the buffer outgrows its bound behind a final feed.
-/
import Jobworkerp.Proto
import Jobworkerp.Interleaving.Run
import Mathlib.Logic.Function.Basic

namespace Jobworkerp

open Interleaving List Option Function

/-! ### The map entry of a job -/

structure FeedData where
  data : Bytes
  isFinal : Bool
  deriving DecidableEq, Repr

abbrev ChannelId := ℕ

structure JobFeedState where
  sender : Option ChannelId
  buffer : List FeedData
  draining : Bool
  closed : Bool
  deriving DecidableEq, Repr

def JobFeedState.default : JobFeedState := ⟨none, [], false, false⟩

def pendingBufferMax : ℕ := 1024

/-- The entry of the job, and for each channel what was handed to it and
whether its receiver is still there. -/
structure FeedStore where
  entry : Option JobFeedState
  received : ChannelId → List FeedData
  alive : ChannelId → Bool

def FeedStore.init : FeedStore := ⟨none, fun _ => [], fun _ => true⟩

/-- What is buffered for the job. -/
def FeedStore.buffer (s : FeedStore) : List FeedData :=
  match s.entry with
  | some state => state.buffer
  | none => []

def FeedStore.deliver (s : FeedStore) (ch : ChannelId) (feed : FeedData) : FeedStore :=
  { s with received := Function.update s.received ch (s.received ch ++ [feed]) }

/-- A full buffer loses its oldest feed, unless that is a final one. -/
def makeRoom (buffer : List FeedData) : List FeedData :=
  if pendingBufferMax ≤ buffer.length then
    match buffer with
    | oldest :: rest => if !oldest.isFinal then rest else buffer
    | [] => []
  else buffer

/-! ### Calls and drains -/

inductive PublishResult
  | ok | err
  deriving DecidableEq, Repr

inductive FeedTask
  -- `publish_feed`: before the guard, and at its direct send
  | publish (feed : FeedData)
  | send (feed : FeedData) (ch : ChannelId)
  -- `remove`, and the result of the publish that called it
  | remove (result : Option PublishResult)
  | removeEntry (result : Option PublishResult)
  | register (ch : ChannelId)
  -- `drain_loop`: at its head, at its send, and at its three ends
  | drain
  | forward (feed : FeedData) (ch : ChannelId)
  | abort
  | discard
  | finish
  | finishRemove
  -- `cleanup_pending`
  | cleanup
  | cleanupRemove
  | done (result : Option PublishResult)
  deriving DecidableEq, Repr

/-- The entry as `publish_feed` leaves it, and where it goes on. -/
def publishEntry (feed : FeedData) (state : JobFeedState) : JobFeedState × FeedTask :=
  if state.closed then (state, .done (some .err))
  else if state.draining then
    ({ state with buffer := makeRoom state.buffer ++ [feed] }, .done (some .ok))
  else
    match state.sender with
    | none => ({ state with buffer := makeRoom state.buffer ++ [feed] }, .done (some .ok))
    | some ch => (state, .send feed ch)

/-- The entry as `register` leaves it. -/
def registerEntry (ch : ChannelId) (state : JobFeedState) : JobFeedState × FeedTask :=
  if state.closed then (state, .done none)
  else if state.buffer.isEmpty then ({ state with sender := some ch }, .done none)
  else ({ state with sender := some ch, draining := true }, .drain)

/-- The entry as the head of the drain loop leaves it. -/
def drainEntry (state : JobFeedState) : JobFeedState × FeedTask :=
  match state.buffer with
  | [] => ({ state with draining := false }, .done none)
  | feed :: rest =>
    ({ state with buffer := rest },
      match state.sender with
      | some ch => .forward feed ch
      | none => .abort)

/-- The mark that `remove` and the end of a drain set on an entry before they
delete it. -/
def JobFeedState.shut (state : JobFeedState) : JobFeedState :=
  { state with sender := none, buffer := [], draining := false, closed := true }

/-- One step of a call or a drain. -/
def FeedTask.step (s : FeedStore) : FeedTask → Option (FeedStore × FeedTask)
  | .publish feed =>
    let (state, next) := publishEntry feed (s.entry.getD .default)
    some ({ s with entry := some state }, next)
  | .send feed ch =>
    if s.alive ch then
      some (s.deliver ch feed, if feed.isFinal then .remove (some .ok) else .done (some .ok))
    else some (s, .remove (some .err))
  | .remove result => some ({ s with entry := s.entry.map .shut }, .removeEntry result)
  | .removeEntry result => some ({ s with entry := none }, .done result)
  | .register ch =>
    let (state, next) := registerEntry ch (s.entry.getD .default)
    some ({ s with entry := some state }, next)
  | .drain =>
    match s.entry with
    | none => some (s, .done none)
    | some state =>
      let (state, next) := drainEntry state
      some ({ s with entry := some state }, next)
  | .forward feed ch =>
    if s.alive ch then some (s.deliver ch feed, if feed.isFinal then .finish else .drain)
    else some (s, .discard)
  | .abort =>
    some ({ s with entry := s.entry.map fun state => { state with draining := false } },
      .done none)
  | .discard => some ({ s with entry := none }, .done none)
  | .finish => some ({ s with entry := s.entry.map .shut }, .finishRemove)
  | .finishRemove => some ({ s with entry := none }, .done none)
  | .cleanup =>
    match s.entry with
    | some state =>
      if state.sender.isNone && !state.buffer.isEmpty then
        some ({ s with entry := some { state with buffer := [], closed := true } },
          .cleanupRemove)
      else some (s, .done none)
    | none => some (s, .done none)
  | .cleanupRemove => some ({ s with entry := none }, .done none)
  | .done _ => none

/-! ### Interleavings -/

/-- The calls on a job. -/
inductive FeedCall
  | publish (feed : FeedData)
  | register (ch : ChannelId)
  | remove
  | cleanup
  deriving DecidableEq, Repr

def FeedCall.task : FeedCall → FeedTask
  | .publish feed => .publish feed
  | .register ch => .register ch
  | .remove => .remove none
  | .cleanup => .cleanup

/-- Tasks named by `ι`, and the feeds of all publish calls in their order. -/
structure FeedSystem (ι : Type) where
  store : FeedStore
  tasks : ι → FeedTask
  published : List FeedData

inductive FeedEvent (ι : Type)
  | call (i : ι) (call : FeedCall)
  | step (i : ι)
  | hangUp (ch : ChannelId)

def FeedCall.feeds : FeedCall → List FeedData
  | .publish feed => [feed]
  | _ => []

variable {ι : Type} [DecidableEq ι]

/-- A task that is done begins a call, a task takes a step, or a receiver is
dropped. -/
inductive FeedStep : FeedSystem ι → FeedEvent ι → FeedSystem ι → Prop
  | call {s : FeedSystem ι} {i : ι} {result : Option PublishResult} (c : FeedCall)
      (hdone : s.tasks i = .done result) :
      FeedStep s (.call i c)
        ⟨s.store, Function.update s.tasks i c.task, s.published ++ c.feeds⟩
  | step {s : FeedSystem ι} {i : ι} {store : FeedStore} {next : FeedTask}
      (hstep : (s.tasks i).step s.store = some (store, next)) :
      FeedStep s (.step i) ⟨store, Function.update s.tasks i next, s.published⟩
  | hangUp {s : FeedSystem ι} (ch : ChannelId) :
      FeedStep s (.hangUp ch)
        ⟨{ s.store with alive := Function.update s.store.alive ch false }, s.tasks, s.published⟩

/-- The steps, computed. -/
def FeedSystem.next (s : FeedSystem ι) : FeedEvent ι → Option (FeedSystem ι)
  | .call i c =>
    match s.tasks i with
    | .done _ => some ⟨s.store, Function.update s.tasks i c.task, s.published ++ c.feeds⟩
    | _ => none
  | .step i =>
    ((s.tasks i).step s.store).map fun (store, next) =>
      ⟨store, Function.update s.tasks i next, s.published⟩
  | .hangUp ch =>
    some ⟨{ s.store with alive := Function.update s.store.alive ch false }, s.tasks,
      s.published⟩

theorem feedStep_of_next {s s' : FeedSystem ι} {e : FeedEvent ι} (h : s.next e = some s') :
    FeedStep s e s' := by
  cases e with
  | call i c =>
    simp only [FeedSystem.next] at h
    split at h
    · rename_i result hdone
      cases h
      exact .call c hdone
    · cases h
  | step i =>
    obtain ⟨⟨store, next⟩, hstep, rfl⟩ := map_eq_some_iff.mp h
    exact .step hstep
  | hangUp ch =>
    cases h
    exact .hangUp ch

/-! ### One publisher and one runner -/

inductive FeedParty
  | publisher | runner
  deriving DecidableEq, Repr

/-- Nothing has been published, and the runner is about to register. -/
def FeedSystem.start (ch : ChannelId) : FeedSystem FeedParty where
  store := .init
  tasks
    | .publisher => .done none
    | .runner => .register ch
  published := []

/-- What a sequential publisher, a single `register` and a receiver that stays
alive can do without overflowing the buffer. -/
def Sequential (s : FeedSystem FeedParty) : FeedEvent FeedParty → Prop
  | .call .publisher (.publish _) => True
  | .call _ _ => False
  | .step i => ∀ feed, s.tasks i = .publish feed → s.store.buffer.length < pendingBufferMax
  | .hangUp _ => False

def SequentialStep (s : FeedSystem FeedParty) (e : FeedEvent FeedParty)
    (s' : FeedSystem FeedParty) : Prop :=
  FeedStep s e s' ∧ Sequential s e

/-- The feed the drain task has taken from the buffer and not yet sent. -/
def inFlight : FeedTask → List FeedData
  | .forward feed _ => [feed]
  | _ => []

/-- The feed of a publish call that has not returned. -/
def unreturned : FeedTask → List FeedData
  | .publish feed => [feed]
  | .send feed _ => [feed]
  | _ => []

/-- A publisher that does not hold a sender, and the feed of its call. -/
inductive AtRest : FeedTask → List FeedData → Prop
  | publish (feed : FeedData) : AtRest (.publish feed) [feed]
  | done (result : Option PublishResult) : AtRest (.done result) []

/-- The stages of a stream: the entry, the publisher, the runner's side, and
the feeds that are on their way, in their order. -/
inductive FeedStage (ch : ChannelId) :
    Option JobFeedState → FeedTask → FeedTask → List FeedData → Prop
  | absent {p : FeedTask} {l : List FeedData} (h : AtRest p l) :
      FeedStage ch none p (.register ch) l
  | buffering {p : FeedTask} {l : List FeedData} (buffer : List FeedData) (h : AtRest p l) :
      FeedStage ch (some ⟨none, buffer, false, false⟩) p (.register ch) (buffer ++ l)
  | draining {p : FeedTask} {l : List FeedData} (buffer : List FeedData) (h : AtRest p l) :
      FeedStage ch (some ⟨some ch, buffer, true, false⟩) p .drain (buffer ++ l)
  | forwarding {p : FeedTask} {l : List FeedData} (feed : FeedData) (buffer : List FeedData)
      (h : AtRest p l) :
      FeedStage ch (some ⟨some ch, buffer, true, false⟩) p (.forward feed ch)
        (feed :: (buffer ++ l))
  | direct {p : FeedTask} {l : List FeedData} (h : AtRest p l) :
      FeedStage ch (some ⟨some ch, [], false, false⟩) p (.done none) l
  | sending (feed : FeedData) :
      FeedStage ch (some ⟨some ch, [], false, false⟩) (.send feed ch) (.done none) [feed]

/-- Everything on its way is in the drain task, in the buffer or in the call of
the publisher. -/
theorem FeedStage.eq_append {s : FeedStore} (h : FeedStage ch s.entry p r l) :
    l = inFlight r ++ s.buffer ++ unreturned p := by
  have hrest : ∀ {p l}, AtRest p l → l = unreturned p := by
    intro p l hp
    cases hp <;> rfl
  unfold FeedStore.buffer
  generalize s.entry = entry at h
  cases h with
  | absent hp => exact hrest hp
  | buffering buffer hp => rw [hrest hp]; rfl
  | draining buffer hp => rw [hrest hp]; rfl
  | forwarding feed buffer hp => rw [hrest hp]; rfl
  | direct hp => exact hrest hp
  | sending feed => rfl

/-- A publish finds no sender it may use. -/
def Sealed (entry : Option JobFeedState) : Prop :=
  ∀ state, entry = some state →
    state.closed = true ∨ state.draining = true ∨ state.sender = none

/-- The tasks of a publisher and of a runner after a final feed. -/
inductive Ending : Option JobFeedState → FeedTask → FeedTask → Prop
  | publish {entry : Option JobFeedState} {r : FeedTask} (feed : FeedData)
      (hr : r = .finish ∨ r = .finishRemove ∨ r = .done none) (h : Sealed entry) :
      Ending entry (.publish feed) r
  | done {entry : Option JobFeedState} {r : FeedTask} (result : Option PublishResult)
      (hr : r = .finish ∨ r = .finishRemove ∨ r = .done none) (h : Sealed entry) :
      Ending entry (.done result) r
  | remove {entry : Option JobFeedState} : Ending entry (.remove (some .ok)) (.done none)
  | removeEntry {entry : Option JobFeedState} : Ending entry (.removeEntry (some .ok)) (.done none)

theorem makeRoom_of_lt (h : buffer.length < pendingBufferMax) :
    makeRoom buffer = buffer :=
  if_neg (Nat.not_le.mpr h)

/-- What a publish finds under its guard decides what it does: it is rejected,
it waits in the buffer, or it goes on to send. -/
theorem publishEntry_cases (feed : FeedData) (state : JobFeedState) :
    state.closed = true ∧ publishEntry feed state = (state, .done (some .err)) ∨
    state.closed = false ∧ (state.draining = true ∨ state.sender = none) ∧
      publishEntry feed state =
        ({ state with buffer := makeRoom state.buffer ++ [feed] }, .done (some .ok)) ∨
    state.closed = false ∧ state.draining = false ∧ ∃ ch, state.sender = some ch ∧
      publishEntry feed state = (state, .send feed ch) := by
  obtain ⟨sender, buffer, draining, closed⟩ := state
  cases closed with
  | true => exact .inl ⟨rfl, rfl⟩
  | false =>
    cases draining with
    | true => exact .inr (.inl ⟨rfl, .inl rfl, rfl⟩)
    | false =>
      cases sender with
      | none => exact .inr (.inl ⟨rfl, .inr rfl, rfl⟩)
      | some ch => exact .inr (.inr ⟨rfl, rfl, ch, rfl, rfl⟩)

/-- A publish that finds no sender to use waits in the buffer, or is
rejected. -/
theorem publishEntry_of_sealed (feed : FeedData)
    (h : state.closed = true ∨ state.draining = true ∨ state.sender = none) :
    (publishEntry feed state).1.closed = state.closed ∧
      (publishEntry feed state).1.draining = state.draining ∧
      (publishEntry feed state).1.sender = state.sender ∧
      ∃ result, (publishEntry feed state).2 = .done (some result) := by
  rcases publishEntry_cases feed state with ⟨-, heq⟩ | ⟨-, -, heq⟩ |
    ⟨hclosed, hdraining, ch, hsender, -⟩
  · rw [heq]
    exact ⟨rfl, rfl, rfl, .err, rfl⟩
  · rw [heq]
    exact ⟨rfl, rfl, rfl, .ok, rfl⟩
  · simp [hclosed, hdraining, hsender] at h

section Steps

variable {ch : ChannelId} {s s' : FeedStore} {p p' r r' : FeedTask} {l : List FeedData}

/-- What a step does to the stream: it moves a feed along, or it hands over a
final feed. -/
def Advances (ch : ChannelId) (s s' : FeedStore) (p r : FeedTask) (l : List FeedData) : Prop :=
  (∃ l', FeedStage ch s'.entry p r l' ∧ s'.received ch ++ l' = s.received ch ++ l) ∨
    ∃ feed rest, feed.isFinal = true ∧ l = feed :: rest ∧
      s'.received ch = s.received ch ++ [feed] ∧ Ending s'.entry p r

@[simp] theorem deliver_received (s : FeedStore) (ch : ChannelId) (feed : FeedData) :
    (s.deliver ch feed).received ch = s.received ch ++ [feed] := by
  simp [FeedStore.deliver]

@[simp] theorem deliver_entry (s : FeedStore) (ch : ChannelId) (feed : FeedData) :
    (s.deliver ch feed).entry = s.entry := rfl

theorem publish_step_waits (hentry : s.entry = some state)
    (hclosed : state.closed = false) (hwait : state.draining = true ∨ state.sender = none)
    (hroom : s.buffer.length < pendingBufferMax) : (FeedTask.publish feed).step s =
      some ({ s with entry := some { state with buffer := state.buffer ++ [feed] } },
        .done (some .ok)) := by
  rcases publishEntry_cases feed state with ⟨h, -⟩ | ⟨-, -, heq⟩ | ⟨-, hdraining, ch, hsender, -⟩
  · simp [hclosed] at h
  · have hlt : state.buffer.length < pendingBufferMax := by
      simpa [FeedStore.buffer, hentry] using hroom
    simp only [FeedTask.step, hentry, getD_some, heq, makeRoom_of_lt hlt]
  · simp [hdraining, hsender] at hwait

theorem FeedStage.publisher_step (h : FeedStage ch s.entry p r l) (halive : s.alive ch = true)
    (hroom : ∀ feed, p = .publish feed → s.buffer.length < pendingBufferMax)
    (hstep : p.step s = some (s', p')) : Advances ch s s' p' r l := by
  generalize hentry : s.entry = entry at h
  cases h with
  | absent hp =>
    cases hp with
    | done result => simp [FeedTask.step] at hstep
    | publish feed =>
      simp only [FeedTask.step, hentry, getD_none, Option.some.injEq,
        Prod.mk.injEq] at hstep
      obtain ⟨rfl, rfl⟩ := hstep
      exact .inl ⟨_, .buffering [feed] (.done _), by simp⟩
  | buffering buffer hp =>
    cases hp with
    | done result => simp [FeedTask.step] at hstep
    | publish feed =>
      rw [publish_step_waits hentry rfl (.inr rfl) (hroom feed rfl)] at hstep
      cases hstep
      exact .inl ⟨_, .buffering (buffer ++ [feed]) (.done _), by simp⟩
  | draining buffer hp =>
    cases hp with
    | done result => simp [FeedTask.step] at hstep
    | publish feed =>
      rw [publish_step_waits hentry rfl (.inl rfl) (hroom feed rfl)] at hstep
      cases hstep
      exact .inl ⟨_, .draining (buffer ++ [feed]) (.done _), by simp⟩
  | forwarding first buffer hp =>
    cases hp with
    | done result => simp [FeedTask.step] at hstep
    | publish feed =>
      rw [publish_step_waits hentry rfl (.inl rfl) (hroom feed rfl)] at hstep
      cases hstep
      exact .inl ⟨_, .forwarding first (buffer ++ [feed]) (.done _), by simp⟩
  | direct hp =>
    cases hp with
    | done result => simp [FeedTask.step] at hstep
    | publish feed =>
      simp only [FeedTask.step, hentry, getD_some, Option.some.injEq, publishEntry,
        Bool.false_eq_true, if_false, Prod.mk.injEq] at hstep
      obtain ⟨rfl, rfl⟩ := hstep
      exact .inl ⟨_, .sending feed, rfl⟩
  | sending feed =>
    simp only [FeedTask.step, halive, if_true, Option.some.injEq, Prod.mk.injEq] at hstep
    obtain ⟨rfl, rfl⟩ := hstep
    by_cases hfinal : feed.isFinal = true
    · rw [if_pos hfinal]
      exact .inr ⟨feed, [], hfinal, rfl, deliver_received s ch feed, .remove⟩
    · rw [if_neg hfinal]
      refine .inl ⟨[], ?_, by simp⟩
      rw [deliver_entry, hentry]
      exact .direct (.done _)

theorem FeedStage.runner_step (h : FeedStage ch s.entry p r l) (halive : s.alive ch = true)
    (hstep : r.step s = some (s', r')) : Advances ch s s' p r' l := by
  generalize hentry : s.entry = entry at h
  cases h with
  | absent hp =>
    simp only [FeedTask.step, hentry, getD_none, Option.some.injEq,
      Prod.mk.injEq] at hstep
    obtain ⟨rfl, rfl⟩ := hstep
    exact .inl ⟨_, .direct hp, rfl⟩
  | buffering buffer hp =>
    simp only [FeedTask.step, hentry, getD_some, Option.some.injEq, registerEntry,
      Bool.false_eq_true, if_false, Prod.mk.injEq] at hstep
    obtain ⟨rfl, rfl⟩ := hstep
    cases buffer with
    | nil => exact .inl ⟨_, .direct hp, rfl⟩
    | cons first rest => exact .inl ⟨_, .draining (first :: rest) hp, rfl⟩
  | draining buffer hp =>
    simp only [FeedTask.step, hentry, Option.some.injEq, Prod.mk.injEq] at hstep
    obtain ⟨rfl, rfl⟩ := hstep
    cases buffer with
    | nil => exact .inl ⟨_, .direct hp, rfl⟩
    | cons first rest => exact .inl ⟨_, .forwarding first rest hp, rfl⟩
  | @forwarding p l first buffer hp =>
    simp only [FeedTask.step, halive, if_true, Option.some.injEq, Prod.mk.injEq] at hstep
    obtain ⟨rfl, rfl⟩ := hstep
    by_cases hfinal : first.isFinal = true
    · -- the entry is still there, and its drain flag keeps publishers off the channel
      rw [if_pos hfinal]
      have hsealed : Sealed (s.deliver ch first).entry := by
        intro state hstate
        rw [deliver_entry, hentry, Option.some.injEq] at hstate
        exact .inr (.inl (by rw [← hstate]))
      refine .inr ⟨first, _, hfinal, rfl, deliver_received s ch first, ?_⟩
      cases hp with
      | publish feed => exact .publish feed (.inl rfl) hsealed
      | done result => exact .done result (.inl rfl) hsealed
    · rw [if_neg hfinal]
      refine .inl ⟨buffer ++ l, ?_, by simp⟩
      rw [deliver_entry, hentry]
      exact .draining buffer hp
  | direct | sending => simp [FeedTask.step] at hstep

theorem sealed_none : Sealed none := by
  intro state h
  cases h

theorem sealed_map_shut (entry : Option JobFeedState) : Sealed (entry.map .shut) := by
  intro state h
  obtain ⟨old, -, rfl⟩ := map_eq_some_iff.mp h
  exact .inl rfl

/-- After a final feed a publisher hands nothing to the runner. -/
theorem Ending.publisher_step (h : Ending s.entry p r) (hstep : p.step s = some (s', p')) :
    Ending s'.entry p' r ∧ s'.received = s.received := by
  generalize hentry : s.entry = entry at h
  cases h with
  | publish feed hr hsealed =>
    simp only [FeedTask.step, Option.some.injEq, Prod.mk.injEq] at hstep
    obtain ⟨rfl, rfl⟩ := hstep
    have hstate : (s.entry.getD .default).closed = true ∨
        (s.entry.getD .default).draining = true ∨ (s.entry.getD .default).sender = none := by
      rw [hentry]
      cases entry with
      | none => exact .inr (.inr rfl)
      | some state => exact hsealed state rfl
    obtain ⟨hclosed, hdraining, hsender, result, hnext⟩ := publishEntry_of_sealed feed hstate
    rw [hnext]
    refine ⟨.done _ hr ?_, rfl⟩
    intro state hsome
    rw [← Option.some.inj hsome, hclosed, hdraining, hsender]
    exact hstate
  | done result hr hsealed => simp [FeedTask.step] at hstep
  | remove =>
    cases hstep
    exact ⟨.removeEntry, rfl⟩
  | removeEntry =>
    cases hstep
    exact ⟨.done _ (.inr (.inr rfl)) sealed_none, rfl⟩

theorem Ending.runner_step (h : Ending s.entry p r) (hstep : r.step s = some (s', r')) :
    Ending s'.entry p r' ∧ s'.received = s.received := by
  -- a drain that forwarded the final feed marks the entry and deletes it
  have hrunner : r = .finish ∨ r = .finishRemove ∨ r = .done none →
      Sealed s'.entry ∧ (r' = .finish ∨ r' = .finishRemove ∨ r' = .done none) ∧
        s'.received = s.received := by
    rintro (rfl | rfl | rfl)
    · cases hstep
      exact ⟨sealed_map_shut _, .inr (.inl rfl), rfl⟩
    · cases hstep
      exact ⟨sealed_none, .inr (.inr rfl), rfl⟩
    · cases hstep
  generalize s.entry = entry at h
  cases h with
  | publish feed hr hsealed =>
    obtain ⟨hsealed', hr', hreceived⟩ := hrunner hr
    exact ⟨.publish feed hr' hsealed', hreceived⟩
  | done result hr hsealed =>
    obtain ⟨hsealed', hr', hreceived⟩ := hrunner hr
    exact ⟨.done result hr' hsealed', hreceived⟩
  | remove | removeEntry => cases hstep

/-- No step brings a receiver back or drops one. -/
theorem FeedTask.step_alive (hstep : p.step s = some (s', p')) : s'.alive = s.alive := by
  cases p <;> simp only [FeedTask.step] at hstep
  case done => cases hstep
  all_goals try (cases hstep; rfl)
  case send => split at hstep <;> cases hstep <;> rfl
  case drain => split at hstep <;> cases hstep <;> rfl
  case forward => split at hstep <;> cases hstep <;> rfl
  case cleanup =>
    split at hstep
    · split at hstep <;> cases hstep <;> rfl
    · cases hstep
      rfl

end Steps

/-- What holds in every state of a sequential run: the stream is at one of its
stages, or a final feed was the last one handed over. -/
structure InOrder (ch : ChannelId) (s : FeedSystem FeedParty) : Prop where
  alive : s.store.alive ch = true
  stage : (∃ l, FeedStage ch s.store.entry (s.tasks .publisher) (s.tasks .runner) l ∧
      s.published = s.store.received ch ++ l) ∨
    Ending s.store.entry (s.tasks .publisher) (s.tasks .runner) ∧
      s.store.received ch <+: s.published ∧
      ∃ before feed, feed.isFinal = true ∧ s.store.received ch = before ++ [feed]

theorem inOrder_start (ch : ChannelId) : InOrder ch (.start ch) :=
  ⟨rfl, .inl ⟨[], .absent (.done none), rfl⟩⟩

variable {ch : ChannelId} {s s' : FeedSystem FeedParty} {e : FeedEvent FeedParty}
  {task next : FeedTask}

/-- A step that moves the stream along keeps the order. -/
theorem InOrder.of_advances (halive : s'.store.alive ch = true)
    (hpublished : s'.published = s.published) (hl : s.published = s.store.received ch ++ l)
    (h : Advances ch s.store s'.store (s'.tasks .publisher) (s'.tasks .runner) l) :
    InOrder ch s' := by
  rcases h with ⟨l', hstage, heq⟩ | ⟨feed, rest, hfinal, rfl, hreceived, hending⟩
  · exact ⟨halive, .inl ⟨l', hstage, by rw [hpublished, hl, heq]⟩⟩
  · refine ⟨halive, .inr ⟨hending, ?_, s.store.received ch, feed, hfinal, hreceived⟩⟩
    refine ⟨rest, ?_⟩
    rw [hpublished, hl, hreceived, append_assoc, singleton_append]

theorem InOrder.step (hstep : SequentialStep s e s') (h : InOrder ch s) : InOrder ch s' := by
  obtain ⟨hfeed, hpermit⟩ := hstep
  cases hfeed with
  | hangUp ch' => exact hpermit.elim
  | @call i result c hdone =>
    -- only the publisher calls, and only to publish
    obtain ⟨rfl, feed, rfl⟩ : i = .publisher ∧ ∃ feed, c = .publish feed := by
      cases i with
      | runner => exact hpermit.elim
      | publisher =>
        cases c with
        | publish feed => exact ⟨rfl, feed, rfl⟩
        | register _ | remove | cleanup => exact hpermit.elim
    refine ⟨h.alive, ?_⟩
    simp only [update_self, update_of_ne (show FeedParty.runner ≠ .publisher by
      decide), FeedCall.task, FeedCall.feeds]
    rcases h.stage with ⟨l, hstage, hl⟩ | ⟨hending, hreceivedPrefix, hlast⟩
    · left
      refine ⟨l ++ [feed], ?_, by rw [hl, append_assoc]⟩
      rw [hdone] at hstage
      generalize s.store.entry = entry at hstage ⊢
      generalize s.tasks .runner = r at hstage ⊢
      cases hstage with
      | absent hp => cases hp; exact .absent (.publish feed)
      | buffering buffer hp => cases hp; simpa using .buffering buffer (.publish feed)
      | draining buffer hp => cases hp; simpa using .draining buffer (.publish feed)
      | forwarding first buffer hp => cases hp; simpa using .forwarding first buffer (.publish feed)
      | direct hp => cases hp; exact .direct (.publish feed)
    · right
      rw [hdone] at hending
      refine ⟨?_, hreceivedPrefix.trans (prefix_append _ _), hlast⟩
      generalize s.tasks .runner = r at hending ⊢
      generalize s.store.entry = entry at hending ⊢
      cases hending with
      | done _ hr hsealed => exact .publish feed hr hsealed
  | @step i store next htask =>
    have halive : store.alive ch = true := by
      rw [FeedTask.step_alive htask]
      exact h.alive
    cases i with
    | publisher =>
      rcases h.stage with ⟨l, hstage, hl⟩ | ⟨hending, hreceivedPrefix, hlast⟩
      · exact .of_advances (s := s) halive rfl hl (by
          simpa using hstage.publisher_step h.alive hpermit htask)
      · obtain ⟨hending', hreceived⟩ := hending.publisher_step htask
        refine ⟨halive, .inr ⟨by simpa using hending', ?_⟩⟩
        rw [hreceived]
        exact ⟨hreceivedPrefix, hlast⟩
    | runner =>
      rcases h.stage with ⟨l, hstage, hl⟩ | ⟨hending, hreceivedPrefix, hlast⟩
      · exact .of_advances (s := s) halive rfl hl (by
          simpa using hstage.runner_step h.alive htask)
      · obtain ⟨hending', hreceived⟩ := hending.runner_step htask
        refine ⟨halive, .inr ⟨by simpa using hending', ?_⟩⟩
        rw [hreceived]
        exact ⟨hreceivedPrefix, hlast⟩

/-- No feed is published after a final one. -/
def FinalLast (published : List FeedData) : Prop :=
  ∀ before feed after, published = before ++ feed :: after → feed.isFinal = true → after = []

def plainFeed : FeedData := ⟨[1], false⟩

def finalFeed : FeedData := ⟨[2], true⟩

/-- What `Sequential` allows, computed. -/
def FeedSystem.permits (s : FeedSystem FeedParty) : FeedEvent FeedParty → Bool
  | .call .publisher (.publish _) => true
  | .call _ _ => false
  | .step _ => s.store.buffer.length < pendingBufferMax
  | .hangUp _ => false

theorem sequential_of_permits {s : FeedSystem FeedParty}
    (h : s.permits e = true) : Sequential s e := by
  cases e with
  | call i c =>
    cases i with
    | runner => cases h
    | publisher =>
      cases c with
      | publish feed => trivial
      | register _ | remove | cleanup => cases h
  | step i => exact fun _ _ => of_decide_eq_true h
  | hangUp ch => cases h

def FeedSystem.nextSequential (s : FeedSystem FeedParty) (e : FeedEvent FeedParty) :
    Option (FeedEvent FeedParty × FeedSystem FeedParty) :=
  if s.permits e then (s.next e).map fun s' => (e, s') else none

theorem sequentialStep_of_next (s : FeedSystem FeedParty) (input e : FeedEvent FeedParty)
    (s' : FeedSystem FeedParty) (h : s.nextSequential input = some (e, s')) :
    SequentialStep s e s' := by
  unfold FeedSystem.nextSequential at h
  split_ifs at h with hpermits
  obtain ⟨s1, hnext, heq⟩ := map_eq_some_iff.mp h
  cases heq
  exact ⟨feedStep_of_next hnext, sequential_of_permits hpermits⟩

theorem run_of_nextSequential (inputs : List (FeedEvent FeedParty))
    (h : playInputs FeedSystem.nextSequential s inputs = some (τ, s')) :
    Run SequentialStep s τ s' :=
  run_of_playInputs sequentialStep_of_next h

theorem finalLast_singleton (feed : FeedData) : FinalLast [feed] := by
  intro before first after h _
  cases before with
  | nil => exact (List.cons.inj h).2.symm
  | cons _ rest => exact absurd (List.cons.inj h).2.symm (by simp)

/-- A publish that finds the mark, or the sender of a receiver that is gone, is
turned away. -/
def FeedStore.rejects (s : FeedStore) : Prop :=
  ∃ state, s.entry = some state ∧ (state.closed = true ∨
    state.draining = false ∧ ∃ ch, state.sender = some ch ∧ s.alive ch = false)

/-- No entry through which a feed could be accepted. -/
def FeedStore.shut (s : FeedStore) : Prop :=
  ∀ state, s.entry = some state → state.closed = true

/-- A task run for at most `n` steps with nothing in between. -/
def FeedTask.runAlone : ℕ → FeedStore → FeedTask → FeedStore × FeedTask
  | 0, s, task => (s, task)
  | n + 1, s, task =>
    match task.step s with
    | some (s', next) => runAlone n s' next
    | none => (s, task)

/-- A publish call that is turned away goes only through these points. -/
inductive TurnedAway (s : FeedStore) : FeedTask → Prop
  | send (feed : FeedData) {ch : ChannelId} (hgone : s.alive ch = false) :
      TurnedAway s (.send feed ch)
  | remove : TurnedAway s (.remove (some .err))
  | removeEntry : TurnedAway s (.removeEntry (some .err))
  | done : TurnedAway s (.done (some .err))

/-- What a publish finds under its guard decides what becomes of it. -/
theorem publish_step_cases (s : FeedStore) (feed : FeedData) :
    (s.rejects ∧ ∃ next, (FeedTask.publish feed).step s = some (s, next) ∧ TurnedAway s next) ∨
    (¬ s.rejects ∧ ∃ s', (FeedTask.publish feed).step s = some (s', .done (some .ok))) ∨
    (¬ s.rejects ∧ ∃ ch, (FeedTask.publish feed).step s = some (s, .send feed ch) ∧
      s.alive ch = true) := by
  cases hentry : s.entry with
  | none =>
    have hstep : (FeedTask.publish feed).step s =
        some ({ s with entry := some ⟨none, [feed], false, false⟩ }, .done (some .ok)) := by
      simp only [FeedTask.step, hentry]
      rfl
    refine .inr (.inl ⟨?_, _, hstep⟩)
    rintro ⟨state, hstate, -⟩
    rw [hentry] at hstate
    cases hstate
  | some state =>
    -- the entry is there, so that a publish that changes nothing leaves the store as it was
    have hsame : ({ s with entry := some state } : FeedStore) = s := by rw [← hentry]
    have hrejects : s.rejects ↔ state.closed = true ∨
        state.draining = false ∧ ∃ ch, state.sender = some ch ∧ s.alive ch = false := by
      unfold FeedStore.rejects
      rw [hentry]
      simp
    rw [hrejects]
    simp only [FeedTask.step, hentry, getD_some]
    rcases publishEntry_cases feed state with ⟨hclosed, heq⟩ | ⟨hclosed, hwait, heq⟩ |
      ⟨hclosed, hdraining, ch, hsender, heq⟩
    · rw [heq]
      exact .inl ⟨.inl hclosed, _, by rw [hsame], .done⟩
    · rw [heq]
      refine .inr (.inl ⟨?_, _, rfl⟩)
      rcases hwait with hdraining | hsender
      · simp [hclosed, hdraining]
      · simp [hclosed, hsender]
    · rw [heq]
      cases halive : s.alive ch with
      | false =>
        exact .inl ⟨.inr ⟨hdraining, ch, hsender, halive⟩, _, by rw [hsame], .send feed halive⟩
      | true =>
        refine .inr (.inr ⟨?_, ch, by rw [hsame], halive⟩)
        simp [hclosed, hsender, halive]

/-- A call that is turned away stays so, and its steps open no entry. -/
theorem TurnedAway.step {s s' : FeedStore} (h : TurnedAway s task)
    (hstep : task.step s = some (s', next)) :
    TurnedAway s' next ∧ (s'.entry = s.entry ∨ s'.shut) := by
  cases h with
  | send feed hgone =>
    simp only [FeedTask.step, hgone, Bool.false_eq_true, if_false, Option.some.injEq,
      Prod.mk.injEq] at hstep
    obtain ⟨rfl, rfl⟩ := hstep
    exact ⟨.remove, .inl rfl⟩
  | remove =>
    cases hstep
    refine ⟨.removeEntry, .inr ?_⟩
    intro state hstate
    obtain ⟨old, -, rfl⟩ := map_eq_some_iff.mp hstate
    rfl
  | removeEntry =>
    cases hstep
    refine ⟨.done, .inr ?_⟩
    intro state hstate
    cases hstate
  | done => cases hstep

/-- A receiver that is gone stays gone. -/
theorem TurnedAway.of_alive {s s' : FeedStore} (h : TurnedAway s task)
    (halive : ∀ ch, s.alive ch = false → s'.alive ch = false) : TurnedAway s' task := by
  cases h with
  | send feed hgone => exact .send feed (halive _ hgone)
  | remove => exact .remove
  | removeEntry => exact .removeEntry
  | done => exact .done

/-- The steps of others do not bring a call back that is turned away. -/
theorem turnedAway_of_step {s s' : FeedSystem ι} {e : FeedEvent ι}
    (hstep : FeedStep s e s') (hcall : ∀ c, e ≠ .call i c)
    (h : TurnedAway s.store (s.tasks i)) : TurnedAway s'.store (s'.tasks i) := by
  cases hstep with
  | @call j _ c hdone =>
    have hij : i ≠ j := fun hij => hcall c (by rw [hij])
    simpa only [update_of_ne hij] using h
  | @step j store next htask =>
    by_cases hij : i = j
    · subst hij
      simpa only [update_self] using (h.step htask).1
    · simp only [update_of_ne hij]
      refine h.of_alive fun ch hgone => ?_
      rw [FeedTask.step_alive htask]
      exact hgone
  | hangUp ch =>
    refine h.of_alive fun ch' hgone => ?_
    show Function.update s.store.alive ch false ch' = false
    by_cases hch : ch' = ch
    · rw [hch, update_self]
    · rw [update_of_ne hch]
      exact hgone

theorem FeedTask.runAlone_step {s s' : FeedStore} (h : task.step s = some (s', next)) :
    runAlone (n + 1) s task = runAlone n s' next := by
  rw [runAlone, h]

theorem FeedTask.runAlone_done (n : ℕ) (s : FeedStore) (result : Option PublishResult) :
    runAlone n s (.done result) = (s, .done result) := by
  cases n <;> rfl

/-- Left alone, a call that is turned away fails and leaves no open entry. -/
theorem TurnedAway.runAlone {s : FeedStore} (h : TurnedAway s task)
    (hshut : task = .done (some .err) → s.shut) :
    (FeedTask.runAlone 3 s task).2 = .done (some .err) ∧ (FeedTask.runAlone 3 s task).1.shut := by
  have hnone (s : FeedStore) : ({ s with entry := none } : FeedStore).shut := by
    intro state hstate
    cases hstate
  cases h with
  | @send feed ch hgone =>
    have hsend : (FeedTask.send feed ch).step s = some (s, .remove (some .err)) := by
      simp [FeedTask.step, hgone]
    rw [FeedTask.runAlone_step hsend]
    exact ⟨rfl, hnone _⟩
  | remove | removeEntry => exact ⟨rfl, hnone _⟩
  | done => exact ⟨rfl, hshut rfl⟩

/-- Left alone, a publish fails and leaves no open entry exactly if it finds
the mark or the sender of a receiver that is gone. -/
theorem runAlone_publish_iff (s : FeedStore) (feed : FeedData) :
    ((FeedTask.runAlone 4 s (.publish feed)).2 = .done (some .err) ∧
      (FeedTask.runAlone 4 s (.publish feed)).1.shut) ↔ s.rejects := by
  rcases publish_step_cases s feed with ⟨hrejects, next, hstep, haway⟩ |
    ⟨hrejects, s', hstep⟩ | ⟨hrejects, ch, hstep, halive⟩
  · rw [FeedTask.runAlone_step hstep]
    refine ⟨fun _ => hrejects, fun _ => haway.runAlone ?_⟩
    rintro rfl state hstate
    -- a publish that ends under its guard found the mark
    obtain ⟨state', hstate', hmark | ⟨hdraining, ch, hsender, -⟩⟩ := hrejects
    · rw [hstate', Option.some.injEq] at hstate
      rw [← hstate]
      exact hmark
    · rw [hstate', Option.some.injEq] at hstate
      by_contra hclosed
      simp only [FeedTask.step, hstate', getD_some, publishEntry, hstate,
        if_neg hclosed] at hstep
      rw [← hstate, hdraining, hsender] at hstep
      simp at hstep
  · rw [FeedTask.runAlone_step hstep, FeedTask.runAlone_done]
    refine ⟨fun h => absurd h.1 (by simp), fun h => absurd h hrejects⟩
  · rw [FeedTask.runAlone_step hstep]
    have hsend : (FeedTask.send feed ch).step s = some (s.deliver ch feed,
        if feed.isFinal then .remove (some .ok) else .done (some .ok)) := by
      simp [FeedTask.step, halive]
    rw [FeedTask.runAlone_step hsend]
    refine ⟨fun h => absurd h.1 ?_, fun h => absurd h hrejects⟩
    by_cases hfinal : feed.isFinal = true
    · rw [if_pos hfinal]
      show FeedTask.done (some .ok) ≠ _
      decide
    · rw [if_neg hfinal, FeedTask.runAlone_done]
      simp

/-- **When a publish is turned away.**  In every interleaving, a publish that
finds the mark or the sender of a receiver that is gone never succeeds and
opens no entry, whatever the others do in the meantime; and left alone it is
turned away only then. -/
theorem publish_rejected_iff :
    (∀ (s s' : FeedSystem ι) (τ : List (FeedEvent ι)) (i : ι) (feed : FeedData),
      s.tasks i = .publish feed → s.store.rejects →
      Run FeedStep s (.step i :: τ) s' → (∀ c, .call i c ∉ τ) →
      (∀ result, s'.tasks i = .done result → result = some .err) ∧
        ∀ store next, (s'.tasks i).step s'.store = some (store, next) →
          store.entry = s'.store.entry ∨ store.shut) ∧
    ∀ (s : FeedStore) (feed : FeedData),
      ((FeedTask.runAlone 4 s (.publish feed)).2 = .done (some .err) ∧
        (FeedTask.runAlone 4 s (.publish feed)).1.shut) ↔ s.rejects := by
  refine ⟨?_, runAlone_publish_iff⟩
  intro s s' τ i feed htask hrejects hrun hcalls
  obtain ⟨s1, hfirst, hrest⟩ := hrun
  have hfirst' : TurnedAway s1.store (s1.tasks i) := by
    cases hfirst with
    | step hstep =>
      rw [htask] at hstep
      rcases publish_step_cases s.store feed with ⟨-, next, hstep', haway⟩ | ⟨hnot, -⟩ | ⟨hnot, -⟩
      · rw [hstep', Option.some.injEq, Prod.mk.injEq] at hstep
        obtain ⟨rfl, rfl⟩ := hstep
        simpa only [update_self] using haway
      · exact absurd hrejects hnot
      · exact absurd hrejects hnot
  have haway : TurnedAway s'.store (s'.tasks i) := by
    refine hrest.invariant_mem (I := fun c => TurnedAway c.store (c.tasks i))
      (fun c e c' he hstep h => ?_) hfirst'
    exact turnedAway_of_step hstep (fun call heq => hcalls call (heq ▸ he)) h
  refine ⟨fun result hdone => ?_, fun store next hstep => (haway.step hstep).2⟩
  rw [hdone] at haway
  cases haway
  rfl

/-- No call is in progress and nothing has been published. -/
def FeedSystem.idle : FeedSystem ι := ⟨.init, fun _ => .done none, []⟩

theorem run_of_feedNext {s s' : FeedSystem ι} (inputs : List (FeedEvent ι))
    (h : playInputs (fun s e => (s.next e).map fun s' => (e, s')) s inputs = some (τ, s')) :
    Run FeedStep s τ s' := by
  refine run_of_playInputs (fun s input e s' hnext => ?_) h
  obtain ⟨s1, hnext, heq⟩ := map_eq_some_iff.mp hnext
  cases heq
  exact feedStep_of_next hnext

/-- The final feed has been received and the publish of it has marked the
entry; a publish before the entry is deleted is turned away. -/
theorem publish_between_mark_and_deletion : ∃ (s s' : FeedSystem ℕ) (τ : List (FeedEvent ℕ)),
    Run FeedStep .idle τ s ∧ s.store.received 0 = [finalFeed] ∧
    Run FeedStep s [.step 2] s' ∧ s'.tasks 2 = .done (some .err) ∧
    ∀ result, s'.tasks 2 = .done result → result = some .err := by
  have hrun := run_of_feedNext (s := (.idle : FeedSystem ℕ)) [.call 0 (.register 0), .step 0,
    .call 1 (.publish finalFeed), .step 1, .step 1, .step 1, .call 2 (.publish plainFeed)] rfl
  obtain ⟨s, hs⟩ : ∃ s : FeedSystem ℕ, s.tasks 2 = .publish plainFeed ∧
      s.store.received 0 = [finalFeed] ∧ s.store.entry = some ⟨none, [], false, true⟩ ∧
      Run FeedStep .idle _ s := ⟨_, rfl, rfl, rfl, hrun⟩
  obtain ⟨htask, hreceived, hentry, hrun⟩ := hs
  have hstep : FeedStep s (.step 2) ⟨s.store, Function.update s.tasks 2 (.done (some .err)),
      s.published⟩ := by
    apply FeedStep.step
    rw [htask]
    simp only [FeedTask.step, hentry, getD_some, publishEntry, if_true]
    rw [← hentry]
  have hlate : Run FeedStep s [.step 2] _ := ⟨_, hstep, rfl⟩
  refine ⟨s, _, _, hrun, hreceived, hlate, by simp, ?_⟩
  exact (publish_rejected_iff.1 s _ [] 2 plainFeed htask ⟨_, hentry, .inl rfl⟩ hlate
    (fun _ => not_mem_nil)).1

/-- After the final feed was received and its entry deleted, a publish is
accepted and leaves a new entry. -/
theorem publish_reopens_entry : ∃ (s s' : FeedSystem ℕ) (τ : List (FeedEvent ℕ)),
    Run FeedStep .idle τ s ∧ s.store.received 0 = [finalFeed] ∧ s.store.entry = none ∧
    Run FeedStep s [.call 1 (.publish plainFeed), .step 1] s' ∧
    s'.tasks 1 = .done (some .ok) ∧
    s'.store.entry = some ⟨none, [plainFeed], false, false⟩ := by
  have hrun := run_of_feedNext (s := (.idle : FeedSystem ℕ)) [.call 0 (.register 0), .step 0,
    .call 1 (.publish finalFeed), .step 1, .step 1, .step 1, .step 1] rfl
  exact ⟨_, _, _, hrun, rfl, rfl,
    run_of_feedNext [.call 1 (.publish plainFeed), .step 1] rfl, rfl, rfl⟩

/-! ### The bound of the buffer -/

/-- A full buffer whose oldest feed is final: nothing is dropped from it. -/
def Blocked (buffer : List FeedData) : Prop :=
  pendingBufferMax ≤ buffer.length ∧ ∃ oldest ∈ buffer.head?, oldest.isFinal = true

theorem makeRoom_cases (buffer : List FeedData) :
    makeRoom buffer = buffer ∧ (buffer.length < pendingBufferMax ∨ Blocked buffer) ∨
    ∃ oldest rest, buffer = oldest :: rest ∧ oldest.isFinal = false ∧
      pendingBufferMax ≤ buffer.length ∧ makeRoom buffer = rest := by
  by_cases hfull : pendingBufferMax ≤ buffer.length
  · cases buffer with
    | nil => cases hfull
    | cons oldest rest =>
      cases hfinal : oldest.isFinal with
      | true => exact .inl ⟨by simp [makeRoom, hfinal], .inr ⟨hfull, oldest, rfl, hfinal⟩⟩
      | false => exact .inr ⟨oldest, rest, rfl, hfinal, hfull, by simp [makeRoom, hfinal] at hfull ⊢; omega⟩
  · exact .inl ⟨if_neg hfull, .inl (Nat.not_le.mp hfull)⟩

theorem publish_buffer {s s' : FeedStore}
    (h : (FeedTask.publish feed).step s = some (s', next)) :
    s'.buffer = s.buffer ∨ s'.buffer = makeRoom s.buffer ++ [feed] := by
  simp only [FeedTask.step, Option.some.injEq, Prod.mk.injEq] at h
  obtain ⟨rfl, rfl⟩ := h
  unfold FeedStore.buffer
  cases s.entry with
  | none => exact .inr rfl
  | some state =>
    rcases publishEntry_cases feed state with ⟨-, heq⟩ | ⟨-, -, heq⟩ | ⟨-, -, ch, -, heq⟩ <;>
      simp [heq]

/-- Only a publish adds to the buffer. -/
theorem length_buffer_of_step {s s' : FeedStore}
    (h : task.step s = some (s', next)) (hpublish : ∀ feed, task ≠ .publish feed) :
    s'.buffer.length ≤ s.buffer.length := by
  unfold FeedStore.buffer
  cases task with
  | publish feed => exact absurd rfl (hpublish feed)
  | _ =>
    cases hentry : s.entry <;>
      grind [FeedTask.step, registerEntry, drainEntry, JobFeedState.shut, FeedStore.deliver,
        JobFeedState.default]

/-- The step publishes into a blocked buffer. -/
def Overflows (s : FeedSystem ι) (e : FeedEvent ι) (s' : FeedSystem ι) : Prop :=
  Blocked s.store.buffer ∧ ∃ i feed, e = .step i ∧ s.tasks i = .publish feed ∧
    s'.store.buffer = s.store.buffer ++ [feed]

/-- A step that does not overflow the buffer keeps its bound. -/
theorem length_buffer_of_feedStep {s s' : FeedSystem ι} {e : FeedEvent ι} (h : FeedStep s e s')
    (hlen : s.store.buffer.length ≤ pendingBufferMax) (hover : ¬ Overflows s e s') :
    s'.store.buffer.length ≤ pendingBufferMax := by
  cases h with
  | call | hangUp => exact hlen
  | @step i store next htask =>
    by_cases hpublish : ∃ feed, s.tasks i = .publish feed
    · obtain ⟨feed, hfeed⟩ := hpublish
      rw [hfeed] at htask
      rcases publish_buffer htask with heq | heq
      · exact heq ▸ hlen
      · show store.buffer.length ≤ pendingBufferMax
        rcases makeRoom_cases s.store.buffer with ⟨hroom, hlt | hblocked⟩ | ⟨_, rest, hcons, -, -, hroom⟩
        · rw [heq, hroom, length_append]
          exact hlt
        · exact absurd ⟨hblocked, i, feed, rfl, hfeed, hroom ▸ heq⟩ hover
        · rw [hcons] at hlen
          rw [heq, hroom, length_append]
          exact hlen
    · exact Nat.le_trans (length_buffer_of_step htask (not_exists.mp hpublish)) hlen

/-- **The buffer of a job keeps its bound exactly as long as nothing is published
into a blocked buffer**; a publish drops the oldest feed of a full buffer, if it
is not final, and nothing else. -/
theorem feed_buffer_bounded_iff (τ : List (FeedEvent ι)) :
    ((∀ τ₁ s, τ₁ <+: τ → Run FeedStep .idle τ₁ s → s.store.buffer.length ≤ pendingBufferMax) ↔
      ∀ τ₁ e s s', τ₁ ++ [e] <+: τ → Run FeedStep .idle τ₁ s → FeedStep s e s' →
        ¬ Overflows s e s') ∧
    ∀ (s s' : FeedStore) feed next, (FeedTask.publish feed).step s = some (s', next) →
      s'.buffer = s.buffer ∨ s'.buffer = s.buffer ++ [feed] ∨
      ∃ oldest rest, s.buffer = oldest :: rest ∧ oldest.isFinal = false ∧
        pendingBufferMax ≤ s.buffer.length ∧ s'.buffer = rest ++ [feed] := by
  refine ⟨⟨?_, ?_⟩, ?_⟩
  · rintro hbound τ₁ e s s' hτ hrun hstep ⟨⟨hfull, -⟩, i, feed, -, -, hbuffer⟩
    have hlen := hbound _ s' hτ (run_append.mpr ⟨s, hrun, s', hstep, rfl⟩)
    rw [hbuffer, length_append, length_singleton] at hlen
    omega
  · intro hnone τ₁ s hτ hrun
    by_contra hlong
    obtain ⟨τ2, e, τ3, s1, s2, rfl, hrun1, hstep, -, hlen, hlen'⟩ := hrun.split_leaves
      (P := fun s => s.store.buffer.length ≤ pendingBufferMax) (Nat.zero_le _) hlong
    have hprefix : τ2 ++ [e] <+: τ := List.IsPrefix.trans ⟨τ3, by simp⟩ hτ
    exact hlen' (length_buffer_of_feedStep hstep hlen (hnone _ _ _ _ hprefix hrun1 hstep))
  · intro s s' feed next hstep
    refine (publish_buffer hstep).imp_right fun heq => ?_
    rcases makeRoom_cases s.buffer with ⟨hroom, -⟩ | ⟨oldest, rest, hcons, hplain, hfull, hroom⟩
    · exact .inl (hroom ▸ heq)
    · exact .inr ⟨oldest, rest, hcons, hplain, hfull, hroom ▸ heq⟩

/-- A final feed and `n` more feeds, published before the runner registers. -/
theorem buffer_behind_final (n : ℕ) : ∃ (s : FeedSystem ℕ) (τ : List (FeedEvent ℕ))
    (result : Option PublishResult), Run FeedStep .idle τ s ∧ s.tasks 0 = .done result ∧
      s.store.entry = some ⟨none, finalFeed :: List.replicate n plainFeed, false, false⟩ := by
  induction n with
  | zero =>
    exact ⟨_, _, _, run_of_feedNext [.call 0 (.publish finalFeed), .step 0] rfl, rfl, rfl⟩
  | succ n ih =>
    obtain ⟨s, τ, result, hrun, hdone, hentry⟩ := ih
    have hpublish : (Function.update s.tasks 0 (.publish plainFeed) 0).step s.store = some
        (⟨some ⟨none, finalFeed :: List.replicate (n + 1) plainFeed, false, false⟩,
          s.store.received, s.store.alive⟩, .done (some .ok)) := by
      simp [FeedTask.step, hentry, publishEntry, makeRoom, finalFeed, replicate_succ']
    exact ⟨_, τ ++ [.call 0 (.publish plainFeed), .step 0], some .ok,
      run_append.mpr ⟨s, hrun, _, .call _ hdone, _, .step hpublish, rfl⟩, by simp, rfl⟩

/-- The 1024 feeds after a final one fill the buffer over its bound. -/
theorem final_feed_unbounds_buffer : ∃ (s : FeedSystem ℕ) (τ : List (FeedEvent ℕ)),
    Run FeedStep .idle τ s ∧ pendingBufferMax < s.store.buffer.length := by
  obtain ⟨s, τ, result, hrun, -, hentry⟩ := buffer_behind_final pendingBufferMax
  refine ⟨s, τ, hrun, ?_⟩
  simp only [FeedStore.buffer, hentry, length_cons, length_replicate]
  exact Nat.lt_succ_self _

end Jobworkerp
