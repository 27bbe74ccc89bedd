/-
Jobworkerp/StreamGuard.lean

The idle timeout of a runner's output (`worker-app/src/worker/runner/stream_guard.rs`).

The output is polled first, the timer only when the output has nothing.  A poll
that is `Pending` is `none`.

* `idle_timeout_delivers`: what is delivered in every schedule of polls.
-/
import Mathlib.Data.List.Basic

namespace Jobworkerp.StreamGuard

open List

/-- What a poll meets: the time, and whether the output and the future of the
callback are ready. -/
structure Wake where
  now : ℕ
  output : Bool
  future : Bool

inductive IdleState
  | running
  | firingTimeout
  | done

/-- `stream` holds the items that are still to come, `sleep` is the deadline of
the timer, and `calls` counts the calls of the callback. -/
structure IdleTimeoutStream (T : Type) where
  stream : Option (List T)
  onTimeout : Bool
  timeoutFuture : Bool
  dropInnerOnTimeout : Bool
  onTimeoutItem : Option T
  idleWindow : ℕ
  sleep : ℕ
  state : IdleState
  calls : ℕ

namespace IdleTimeoutStream

variable {T : Type} (items : List T) (idleWindow : ℕ) (item : Option T) (dropInner : Bool)
  (now : ℕ) (s : IdleTimeoutStream T) (w : Wake) (ws : List Wake) (out : List (Option T))

def withTimeoutCallback : IdleTimeoutStream T :=
  ⟨some items, true, false, dropInner, item, idleWindow, now + idleWindow, .running, 0⟩

def pollOutput (ready : Bool) : Option (List T) → Option (Option T) × Option (List T)
  | none => (some none, none)
  | some items => if ready then (some items.head?, some items.tail) else (none, some items)

def pollTimeout (ready : Bool) : Option (Option T) × IdleTimeoutStream T :=
  if s.timeoutFuture && !ready then (none, s)
  else (some s.onTimeoutItem,
    { s with
      timeoutFuture := false
      stream := if s.dropInnerOnTimeout then none else s.stream
      state := .done
      onTimeoutItem := none })

def pollNext : Option (Option T) × IdleTimeoutStream T :=
  match s.state with
  | .done => (some none, s)
  | .firingTimeout => s.pollTimeout w.future
  | .running =>
    match pollOutput w.output s.stream with
    | (some (some item), stream) =>
      (some (some item), { s with stream, sleep := w.now + s.idleWindow })
    | (some none, stream) => (some none, { s with stream, onTimeout := false, state := .done })
    | (none, stream) =>
      if s.sleep ≤ w.now then
        pollTimeout
          { s with
            stream
            state := .firingTimeout
            onTimeout := false
            timeoutFuture := s.onTimeout || s.timeoutFuture
            calls := s.calls + s.onTimeout.toNat } w.future
      else (none, { s with stream })

/-- The answers of a sequence of polls, and the stream after it. -/
def run : List Wake → IdleTimeoutStream T → List (Option T) × IdleTimeoutStream T
  | [], s => ([], s)
  | w :: ws, s =>
    let next := s.pollNext w
    let rest := run ws next.2
    (next.1.toList ++ rest.1, rest.2)

/-- What has been answered: some of the items; then the end, if these are all of
them and the callback was not called, or the timeout item, if it was called once. -/
def Delivered : Prop :=
  ∃ before rest n, items = before ++ rest ∧ match s.state with
  | .running => s.calls = 0 ∧ s.onTimeout = true ∧ s.onTimeoutItem = item ∧
      s.stream = some rest ∧ out = before.map some
  | .firingTimeout => s.calls = 1 ∧ s.onTimeoutItem = item ∧ out = before.map some
  | .done => ∃ last, out = before.map some ++ last :: replicate n none ∧
      (s.calls = 0 ∧ rest = [] ∧ last = none ∨ s.calls = 1 ∧ last = item)

variable {s items item out}

theorem delivered_pollTimeout (ready : Bool) (hstate : s.state = .firingTimeout)
    (h : s.Delivered items item out) :
    (s.pollTimeout ready).2.Delivered items item (out ++ (s.pollTimeout ready).1.toList) := by
  unfold pollTimeout
  split
  · simpa using h
  · simp only [Delivered, hstate] at h
    obtain ⟨before, rest, -, rfl, hcalls, rfl, rfl⟩ := h
    exact ⟨before, rest, 0, rfl, _, rfl, .inr ⟨hcalls, rfl⟩⟩

/-- One poll keeps the shape of what is delivered. -/
theorem delivered_pollNext (h : s.Delivered items item out) :
    (s.pollNext w).2.Delivered items item (out ++ (s.pollNext w).1.toList) := by
  unfold pollNext
  cases hstate : s.state with
  | firingTimeout => exact delivered_pollTimeout w.future hstate h
  | done =>
    simp only [Delivered, hstate] at h ⊢
    obtain ⟨before, rest, n, rfl, last, rfl, hlast⟩ := h
    -- the end is answered once more
    exact ⟨before, rest, n + 1, rfl, last, by simp [replicate_succ'], hlast⟩
  | running =>
    simp only [Delivered, hstate] at h
    obtain ⟨before, rest, -, rfl, hcalls, hon, rfl, hstream, rfl⟩ := h
    simp only [hstream, pollOutput]
    cases w.output with
    | true =>
      cases rest with
      | nil => exact ⟨before, [], 0, rfl, none, rfl, .inl ⟨hcalls, rfl, rfl⟩⟩
      | cons x rest =>
        refine ⟨before ++ [x], rest, 0, by simp, ?_⟩
        simp [hcalls, hon]
    | false =>
      simp only [Bool.false_eq_true, if_false]
      split
      · refine delivered_pollTimeout w.future rfl ⟨before, rest, 0, rfl, ?_, rfl, rfl⟩
        simp [hcalls, hon]
      · refine ⟨before, rest, 0, rfl, ?_⟩
        simp [hcalls, hon]

theorem delivered_run (h : s.Delivered items item out) :
    (run ws s).2.Delivered items item (out ++ (run ws s).1) := by
  induction ws generalizing s out with
  | nil => simpa [run] using h
  | cons w ws ih =>
    have hrest := ih (delivered_pollNext w h)
    rwa [append_assoc] at hrest

/-- **The timeout keeps the output**, in every schedule of polls, expiries of the
timer and steps of the callback. -/
theorem idle_timeout_delivers :
    (run ws (withTimeoutCallback items idleWindow item dropInner now)).2.Delivered items item
      (run ws (withTimeoutCallback items idleWindow item dropInner now)).1 := by
  have hstart : (withTimeoutCallback items idleWindow item dropInner now).Delivered items item [] :=
    ⟨[], items, 0, rfl, rfl, rfl, rfl, rfl, rfl⟩
  exact delivered_run ws hstart

end IdleTimeoutStream

end Jobworkerp.StreamGuard
