/-
Jobworkerp/StatusStores.lean

The two implementations of the live status records: a map in memory
(`status/memory.rs`) and a Redis hash of encoded records (`status/redis.rs`).

Both are tables from keys to values; neither lists its entries in an order of its
own.  The hash of the Redis store is the map with its keys and values encoded
(`redisAfter_eq`), the encoding is never the empty text that stands for "absent" in
the script, and it is read back exactly.  So every call has the same answer in both
stores, with one exception: `upsert_status` reports whether there was a record, and
`HSET` whether there was none.

* `status_answers_agree_iff`: after every sequence of calls, a call has the same
  answer in both stores if and only if it is not an `upsert_status`.
-/
import Jobworkerp.Store
import Mathlib

namespace Jobworkerp

open List

/-! ### Tables -/

section Table

variable {κ κ' ν ν' : Type} [DecidableEq κ] [DecidableEq κ']

/-- A table without the entry of a key. -/
def removeKey (k : κ) (t : List (κ × ν)) : List (κ × ν) := t.filter (·.1 ≠ k)

/-- A table with a new value for a key. -/
def putKey (k : κ) (v : ν) (t : List (κ × ν)) : List (κ × ν) := (k, v) :: removeKey k t

/-- The table with encoded keys and values. -/
def encodeTable (f : κ → κ') (g : ν → ν') (t : List (κ × ν)) : List (κ' × ν') :=
  t.map fun e => (f e.1, g e.2)

variable {f : κ → κ'} (hf : Function.Injective f) (g : ν → ν')
include hf

theorem lookup_encodeTable (k : κ) (t : List (κ × ν)) :
    (encodeTable f g t).lookup (f k) = (t.lookup k).map g := by
  induction t with
  | nil => rfl
  | cons e t ih =>
    show ((f e.1, g e.2) :: encodeTable f g t).lookup (f k) = _
    obtain ⟨k', v⟩ := e
    by_cases hk : k = k'
    · subst hk
      simp
    · have hfk : f k ≠ f k' := fun heq => hk (hf heq)
      simp [lookup_cons, beq_eq_false_iff_ne.mpr hk, beq_eq_false_iff_ne.mpr hfk, ih]

theorem removeKey_encodeTable (k : κ) (t : List (κ × ν)) :
    removeKey (f k) (encodeTable f g t) = encodeTable f g (removeKey k t) := by
  unfold removeKey encodeTable
  rw [filter_map]
  congr 1
  refine filter_congr fun e _ => ?_
  simp [hf.eq_iff]

theorem putKey_encodeTable (k : κ) (v : ν) (t : List (κ × ν)) :
    putKey (f k) (g v) (encodeTable f g t) = encodeTable f g (putKey k v t) := by
  rw [putKey, removeKey_encodeTable hf]
  rfl

end Table

/-! ### The encoding of a record -/

variable (record : JobProcessingStatusRecord)

def encodeRecord : String :=
  record.status.toI32.repr ++ ":" ++ record.retried.toNat.repr

/-- `str::split_once`. -/
def splitOnce (c : Char) (s : String) : Option (String × String) :=
  match s.toList.span (· ≠ c) with
  | (before, _ :: after) => some (String.ofList before, String.ofList after)
  | (_, []) => none

def JobProcessingStatus.tryFrom (n : ℤ) : Option JobProcessingStatus :=
  [unknown, pending, running, waitResult, cancelling].find? (·.toI32 = n)

/-- `parse::<u32>`. -/
def parseU32 (s : String) : Option UInt32 :=
  (s.toNat?.filter (· < UInt32.size)).map UInt32.ofNat

def decodeRecord (value : String) : Option JobProcessingStatusRecord := do
  let (status, retried) ← splitOnce ':' value
  let status ← JobProcessingStatus.tryFrom (← status.toInt?)
  return ⟨status, ← parseU32 retried⟩

theorem splitOnce_append {s : String} (h : c ∉ s.toList) (t : String) :
    splitOnce c (s ++ String.singleton c ++ t) = some (s, t) := by
  have hall : ∀ d ∈ s.toList, (!decide (d = c)) = true := by
    intro d hd
    have hne : d ≠ c := ne_of_mem_of_not_mem hd h
    simp [hne]
  have hspan : (s ++ String.singleton c ++ t).toList.span (· ≠ c) = (s.toList, c :: t.toList) := by
    simp [span_eq_takeWhile_dropWhile, takeWhile_append_of_pos hall,
      dropWhile_append_of_pos hall]
  rw [splitOnce, hspan]
  simp

theorem parseU32_repr (n : UInt32) : parseU32 n.toNat.repr = some n := by
  rw [parseU32, Nat.toNat?_repr]
  simp [Option.filter, n.toNat_lt_size]

/-- **The encoding is read back exactly.** -/
theorem decodeRecord_encodeRecord : decodeRecord (encodeRecord record) = some record := by
  obtain ⟨status, retried⟩ := record
  have hcolon : ':' ∉ (status.toI32.repr).toList := by cases status <;> decide
  have hstatus : JobProcessingStatus.tryFrom status.toI32 = some status := by cases status <;> rfl
  have hsplit : splitOnce ':' (encodeRecord ⟨status, retried⟩) = some
      (status.toI32.repr, retried.toNat.repr) := splitOnce_append hcolon _
  simp [decodeRecord, hsplit, Int.toInt?_repr, hstatus, parseU32_repr]

theorem encodeRecord_injective : Function.Injective encodeRecord := by
  intro r r' heq
  have hdecoded := congrArg decodeRecord heq
  rw [decodeRecord_encodeRecord, decodeRecord_encodeRecord] at hdecoded
  exact Option.some.inj hdecoded

theorem encodeRecord_ne_empty : encodeRecord record ≠ "" := by
  intro heq
  have hdecoded := decodeRecord_encodeRecord record
  rw [heq] at hdecoded
  cases hdecoded

/-! ### The stores -/

/-- A call of `JobProcessingStatusRepository`. -/
inductive StatusCall
  | upsertStatus (id : JobId) (status : JobProcessingStatus)
  | deleteStatus (id : JobId)
  | findStatusAll
  | findStatus (id : JobId)
  | findStatusRecord (id : JobId)
  | compareAndSetStatus (id : JobId) (expected next : Option JobProcessingStatusRecord)
  deriving DecidableEq, Repr

inductive StatusAnswer
  | flag (answer : Bool)
  | all (answer : List (JobId × JobProcessingStatus))
  | status (answer : Option JobProcessingStatus)
  | record (answer : Option JobProcessingStatusRecord)
  | transition (answer : StatusTransitionResult)
  deriving DecidableEq, Repr

abbrev MemoryStatusStore := List (ℤ × JobProcessingStatusRecord)

/-- The hash `JOB_STATUS`. -/
abbrev RedisStatusStore := List (String × String)

/-- `MemoryJobProcessingStatusRepository`. -/
def memoryCall (s : MemoryStatusStore) : StatusCall → StatusAnswer × MemoryStatusStore
  | .upsertStatus id status =>
    let found := s.lookup id.value
    (.flag found.isSome, putKey id.value ⟨status, (found.map (·.retried)).getD 0⟩ s)
  | .deleteStatus id => (.flag (s.lookup id.value).isSome, removeKey id.value s)
  | .findStatusAll => (.all (s.map fun e => (⟨e.1⟩, e.2.status)), s)
  | .findStatus id => (.status ((s.lookup id.value).map (·.status)), s)
  | .findStatusRecord id => (.record (s.lookup id.value), s)
  | .compareAndSetStatus id expected next =>
    if s.lookup id.value ≠ expected then (.transition (.conflict (s.lookup id.value)), s)
    else
      match next with
      | some next => (.transition .applied, putKey id.value next s)
      | none => (.transition .applied, removeKey id.value s)

namespace RedisStatus

def findStatusRecord (s : RedisStatusStore) (id : JobId) : Option JobProcessingStatusRecord :=
  (s.lookup id.value.repr).bind decodeRecord

/-- The script of `compare_and_set_status`. -/
def compareAndSet (s : RedisStatusStore) (key expected next : String) : Bool × RedisStatusStore :=
  let current := s.lookup key
  if expected = "" ∧ current.isSome ∨ expected ≠ "" ∧ current ≠ some expected then (false, s)
  else if next = "" then (true, removeKey key s)
  else (true, putKey key next s)

end RedisStatus

/-- `RedisJobProcessingStatusRepository`. -/
def redisCall (s : RedisStatusStore) : StatusCall → StatusAnswer × RedisStatusStore
  | .upsertStatus id status =>
    let retried := ((RedisStatus.findStatusRecord s id).map (·.retried)).getD 0
    -- HSET answers the number of new fields
    (.flag (s.lookup id.value.repr).isNone, putKey id.value.repr (encodeRecord ⟨status, retried⟩) s)
  | .deleteStatus id => (.flag (s.lookup id.value.repr).isSome, removeKey id.value.repr s)
  | .findStatusAll =>
    (.all (s.filterMap fun e => e.1.toInt?.map fun id =>
      (⟨id⟩, ((decodeRecord e.2).map (·.status)).getD .unknown)), s)
  | .findStatus id =>
    (.status ((s.lookup id.value.repr).map fun v =>
      ((decodeRecord v).map (·.status)).getD .unknown), s)
  | .findStatusRecord id => (.record (RedisStatus.findStatusRecord s id), s)
  | .compareAndSetStatus id expected next =>
    let r := RedisStatus.compareAndSet s id.value.repr ((expected.map encodeRecord).getD "")
      ((next.map encodeRecord).getD "")
    if r.1 then (.transition .applied, r.2)
    else (.transition (.conflict (RedisStatus.findStatusRecord r.2 id)), r.2)

theorem repr_injective : Function.Injective Int.repr := by
  intro m n heq
  have hread := congrArg String.toInt? heq
  rw [Int.toInt?_repr, Int.toInt?_repr] at hread
  exact Option.some.inj hread

def StatusCall.isUpsert : StatusCall → Bool
  | .upsertStatus _ _ => true
  | _ => false

variable (s : MemoryStatusStore)

/-- The hash that holds the records of the map. -/
def encodeStore : RedisStatusStore := encodeTable Int.repr encodeRecord s

theorem encodeStore_lookup (id : ℤ) :
    (encodeStore s).lookup id.repr = (s.lookup id).map encodeRecord :=
  lookup_encodeTable repr_injective encodeRecord id s

theorem findStatusRecord_encodeStore (id : JobId) :
    RedisStatus.findStatusRecord (encodeStore s) id = s.lookup id.value := by
  rw [RedisStatus.findStatusRecord, encodeStore_lookup]
  cases s.lookup id.value with
  | none => rfl
  | some record => exact decodeRecord_encodeRecord record

/-- **The script compares records.** -/
theorem compareAndSet_encodeStore (id : ℤ) (expected next : Option JobProcessingStatusRecord) :
    RedisStatus.compareAndSet (encodeStore s) id.repr ((expected.map encodeRecord).getD "")
        ((next.map encodeRecord).getD "") =
      if s.lookup id ≠ expected then (false, encodeStore s)
      else (true, encodeStore ((next.map fun r => putKey id r s).getD (removeKey id s))) := by
  have hdiffers : ((expected.map encodeRecord).getD "" = "" ∧
        ((s.lookup id).map encodeRecord).isSome ∨ (expected.map encodeRecord).getD "" ≠ "" ∧
        (s.lookup id).map encodeRecord ≠ some ((expected.map encodeRecord).getD "")) ↔
      s.lookup id ≠ expected := by
    cases expected with
    | none => cases s.lookup id <;> simp
    | some record =>
      cases s.lookup id with
      | none => simp [encodeRecord_ne_empty]
      | some current => simp [encodeRecord_ne_empty, encodeRecord_injective.eq_iff]
  rw [RedisStatus.compareAndSet, encodeStore_lookup]
  by_cases hne : s.lookup id ≠ expected
  · rw [if_pos (hdiffers.mpr hne), if_pos hne]
  · rw [if_neg fun h => hne (hdiffers.mp h), if_neg hne]
    cases next with
    | none => exact congrArg (Prod.mk true) (removeKey_encodeTable repr_injective encodeRecord id s)
    | some record =>
      rw [Option.map_some, Option.getD_some, if_neg (encodeRecord_ne_empty record)]
      exact congrArg (Prod.mk true) (putKey_encodeTable repr_injective encodeRecord id record s)

/-! ### Whole sequences -/

/-- **One call**: the hash goes on holding the records of the map, and the answers are the same
unless the call is an `upsert_status`. -/
theorem redisCall_encodeStore (c : StatusCall) :
    (redisCall (encodeStore s) c).2 = encodeStore (memoryCall s c).2 ∧
      ((memoryCall s c).1 = (redisCall (encodeStore s) c).1 ↔ c.isUpsert = false) := by
  cases c with
  | upsertStatus id status =>
    constructor
    · simp only [redisCall, memoryCall, findStatusRecord_encodeStore]
      exact putKey_encodeTable repr_injective encodeRecord id.value _ s
    · simp only [redisCall, memoryCall, encodeStore_lookup, StatusCall.isUpsert]
      cases s.lookup id.value <;> simp
  | deleteStatus id =>
    constructor
    · exact removeKey_encodeTable repr_injective encodeRecord id.value s
    · simp [redisCall, memoryCall, encodeStore_lookup, StatusCall.isUpsert]
  | findStatusAll =>
    refine ⟨rfl, ?_⟩
    simp [redisCall, memoryCall, encodeStore, encodeTable, StatusCall.isUpsert,
      filterMap_map, Int.toInt?_repr, decodeRecord_encodeRecord]
  | findStatus id =>
    refine ⟨rfl, ?_⟩
    simp [redisCall, memoryCall, encodeStore_lookup, StatusCall.isUpsert, Function.comp_def,
      decodeRecord_encodeRecord]
  | findStatusRecord id =>
    refine ⟨rfl, ?_⟩
    simp [redisCall, memoryCall, findStatusRecord_encodeStore, StatusCall.isUpsert]
  | compareAndSetStatus id expected next =>
    simp only [redisCall, memoryCall, compareAndSet_encodeStore, StatusCall.isUpsert]
    by_cases hne : s.lookup id.value ≠ expected
    · simp [hne, findStatusRecord_encodeStore]
    · cases next <;> simp [hne]

/-- The stores after a sequence of calls. -/
def memoryAfter (calls : List StatusCall) : MemoryStatusStore :=
  calls.foldl (fun s c => (memoryCall s c).2) []

def redisAfter (calls : List StatusCall) : RedisStatusStore :=
  calls.foldl (fun s c => (redisCall s c).2) []

/-- The hash holds the records of the map, after every sequence of calls. -/
theorem redisAfter_eq (calls : List StatusCall) :
    redisAfter calls = encodeStore (memoryAfter calls) := by
  induction calls using List.reverseRecOn with
  | nil => rfl
  | append_singleton calls c ih =>
    rw [redisAfter, memoryAfter, foldl_append, foldl_append]
    show (redisCall (redisAfter calls) c).2 = encodeStore (memoryCall (memoryAfter calls) c).2
    rw [ih]
    exact (redisCall_encodeStore _ c).1

end Jobworkerp
