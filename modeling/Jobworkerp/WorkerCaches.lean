/-
Jobworkerp/WorkerCaches.lean

The workers of the two applications and their copies (`HybridWorkerAppImpl`,
`RdbWorkerAppImpl`, `RedisWorkerRepository`).

The worker table is the truth.  A worker is copied into memory under its id and under
its name, and in the Redis mode into two hashes as well, which expire as a whole and
one without the other.  Every change of the table clears a selection of the copies.
Temporary workers are never in the table.

A copy is held if it is a row of the table or a temporary worker.  Reads and expiries
keep every copy held.  A change that leaves a copy of a row it has changed or deleted
makes it visible under its old key: a rename leaves the old name in memory, the
Redis copy under a name is found through the copy under the id only, and `delete_all`
of the Redis mode clears the lists only.

* `reads_table_iff`: all reads return what the table holds, after every call and
  until the next one, if and only if no call of the run leaves a stale copy.
* `channel_complete_iff`: the workers of a channel are found if and only if the Redis
  hash is empty or has all of them.
-/
import Jobworkerp.Status
import Mathlib.Data.List.Nodup

namespace Jobworkerp

open List Option

/-- A row of the worker table, or a temporary worker. -/
structure Worker where
  id : WorkerId
  data : WorkerData
  deriving DecidableEq, Repr, Inhabited

def Worker.name (w : Worker) : String := w.data.name

/-! ### Copies under a key -/

section Copies

variable {κ : Type} [DecidableEq κ]

/-- The first worker with a key. -/
def lookupBy (key : Worker → κ) (k : κ) (l : List Worker) : Option Worker :=
  l.find? fun w => key w = k

/-- Copies of workers, at most one under each key. -/
@[ext] structure Copies (key : Worker → κ) where
  entries : List Worker
  nodup : (entries.map key).Nodup

variable {key : Worker → κ} {k : κ} {w w' : Worker} {l : List Worker} {c : Copies key}

instance : Membership Worker (Copies key) := ⟨fun c w => w ∈ c.entries⟩

instance (c : Copies key) : Decidable (w ∈ c) := inferInstanceAs (Decidable (w ∈ c.entries))

instance : EmptyCollection (Copies key) := ⟨⟨[], nodup_nil⟩⟩

instance : Inhabited (Copies key) := ⟨∅⟩

namespace Copies

def get (c : Copies key) (k : κ) : Option Worker := lookupBy key k c.entries

def clear (c : Copies key) (k : κ) : Copies key :=
  ⟨c.entries.filter fun w => key w ≠ k, c.nodup.sublist (filter_sublist.map key)⟩

def put (c : Copies key) (w : Worker) : Copies key :=
  ⟨w :: (c.clear (key w)).entries, nodup_cons.mpr ⟨by simp [clear], (c.clear _).nodup⟩⟩

end Copies

/-- `with_cache_if_some`: the copy in memory, or what Redis (if there is one) or the table has,
which is then copied. -/
def readThrough (storage : StorageType) (table : List Worker) (redis memory : Copies key) (k : κ) :
    Option Worker × Copies key :=
  match memory.get k with
  | some w => (some w, memory)
  | none =>
    let found := match storage with
      | .scalable => (redis.get k).or (lookupBy key k table)
      | .standalone => lookupBy key k table
    match found with
    | some w => (some w, memory.put w)
    | none => (none, memory)

theorem lookupBy_eq_some (h : lookupBy key k l = some w) : w ∈ l ∧ key w = k :=
  ⟨mem_of_find?_eq_some h, by simpa using List.find?_some h⟩

/-- A key belongs to one worker. -/
theorem lookupBy_of_mem (hl : (l.map key).Nodup) (hw : w ∈ l) :
    lookupBy key (key w) l = some w := by
  obtain ⟨w', hw'⟩ : ∃ w', lookupBy key (key w) l = some w' :=
    isSome_iff_exists.mp (List.find?_isSome.mpr ⟨w, hw, by simp⟩)
  obtain ⟨hmem, hkey⟩ := lookupBy_eq_some hw'
  rw [hw', inj_on_of_nodup_map hl hmem hw hkey]

theorem lookupBy_eq_none (h : lookupBy key k l = none) (hw : w ∈ l) : key w ≠ k := by
  simpa using List.find?_eq_none.mp h w hw

theorem Copies.mem_clear : w ∈ c.clear k ↔ w ∈ c ∧ key w ≠ k := by
  show w ∈ List.filter _ _ ↔ w ∈ c.entries ∧ key w ≠ k
  simp

variable {P : Worker → Prop}

theorem Copies.forall_clear (h : ∀ w ∈ c, P w) : ∀ w ∈ c.clear k, P w :=
  fun w hw => h w (mem_clear.mp hw).1

theorem Copies.forall_put (h : ∀ w ∈ c, P w) (hw : P w) : ∀ w' ∈ c.put w, P w' := by
  rintro w' (_ | ⟨_, hmem⟩)
  · exact hw
  · exact forall_clear h w' hmem

theorem Copies.forall_foldl_put {ws : List Worker} (h : ∀ w ∈ c, P w) (hws : ∀ w ∈ ws, P w) :
    ∀ w ∈ ws.foldl put c, P w := by
  induction ws generalizing c with
  | nil => exact h
  | cons w ws ih =>
    exact ih (forall_put h (hws w mem_cons_self)) fun w hw => hws w (mem_cons_of_mem _ hw)

omit [DecidableEq κ] in
theorem Copies.not_mem_empty : w ∉ (∅ : Copies key) := not_mem_nil

omit [DecidableEq κ] in
theorem Copies.forall_empty : ∀ w ∈ (∅ : Copies key), P w := fun _ hw => absurd hw not_mem_empty

section ReadThrough

variable {storage : StorageType} {table : List Worker} {redis memory : Copies key}

/-- What is read, and what is copied, satisfies what the sources satisfy. -/
theorem readThrough_spec (htable : ∀ w ∈ table, P w)
    (hredis : ∀ w ∈ redis, P w) (hmemory : ∀ w ∈ memory, P w) :
    (∀ w, (readThrough storage table redis memory k).1 = some w → P w ∧ key w = k) ∧
      ∀ w ∈ (readThrough storage table redis memory k).2, P w := by
  unfold readThrough
  split
  · rename_i w hw
    obtain ⟨hmem, hkey⟩ := lookupBy_eq_some hw
    exact ⟨fun w' hw' => Option.some.inj hw' ▸ ⟨hmemory w hmem, hkey⟩, hmemory⟩
  · dsimp only
    split
    · rename_i w hfound
      have hw : P w ∧ key w = k := by
        cases storage with
        | standalone => exact (lookupBy_eq_some hfound).imp_left (htable w)
        | scalable =>
          rcases or_eq_some_iff.mp hfound with hfound | ⟨-, hfound⟩
          · exact (lookupBy_eq_some hfound).imp_left (hredis w)
          · exact (lookupBy_eq_some hfound).imp_left (htable w)
      exact ⟨fun w' hw' => Option.some.inj hw' ▸ hw, Copies.forall_put hmemory hw.1⟩
    · exact ⟨fun w' hw' => (nomatch hw'), hmemory⟩

/-- Nothing is found only if the table has nothing. -/
theorem readThrough_none (h : (readThrough storage table redis memory k).1 = none) :
    lookupBy key k table = none := by
  unfold readThrough at h
  split at h
  · cases h
  · dsimp only at h
    split at h
    · cases h
    · rename_i hfound
      cases storage with
      | standalone => exact hfound
      | scalable => exact (or_eq_none_iff.mp hfound).2

/-- A copy in memory is read first. -/
theorem readThrough_memory (hw : w ∈ memory) :
    (readThrough storage table redis memory (key w)).1 = some w := by
  have hget : memory.get (key w) = some w := lookupBy_of_mem memory.nodup hw
  simp only [readThrough, hget]

end ReadThrough

end Copies

open Copies (mem_clear forall_clear forall_put forall_foldl_put forall_empty not_mem_empty)

/-! ### The state -/

/-- The table and its copies; `temps` are the ids given to temporary workers so far. -/
structure WorkerState where
  table : List Worker
  /-- `WORKER_DEF`. -/
  redisById : Copies Worker.id
  /-- `WORKER_NAME_CACHE`. -/
  redisByName : Copies Worker.name
  memoryById : Copies Worker.id
  memoryByName : Copies Worker.name
  /-- `temp_worker_cache`. -/
  tempCache : Copies Worker.id
  temps : List WorkerId
  deriving Inhabited

namespace WorkerState

variable (storage : StorageType) (s : WorkerState)

def clearCache (id : WorkerId) : WorkerState :=
  { s with memoryById := s.memoryById.clear id }

def clearCacheByName (name : String) : WorkerState :=
  { s with memoryByName := s.memoryByName.clear name }

/-- `RedisWorkerRepository::upsert`, one worker after the other. -/
def redisUpsert (ws : List Worker) : WorkerState :=
  { s with redisByName := ws.foldl Copies.put s.redisByName
           redisById := ws.foldl Copies.put s.redisById }

/-- `RedisWorkerRepository::delete`: the name is that of the copy under the id. -/
def redisDelete (id : WorkerId) : WorkerState :=
  match s.redisById.get id with
  | some w => { s with redisByName := s.redisByName.clear w.name
                       redisById := s.redisById.clear id }
  | none => s

def find (id : WorkerId) : Option Worker × WorkerState :=
  let read := readThrough storage s.table s.redisById s.memoryById id
  let s := { s with memoryById := read.2 }
  match storage with
  | .scalable => (read.1, s)
  | .standalone => (read.1.or (s.tempCache.get id), s)

def findByName (name : String) : Option Worker × WorkerState :=
  let read := readThrough storage s.table s.redisByName s.memoryByName name
  (read.1, { s with memoryByName := read.2 })

/-- `create`; `valid` is the verdict on the runner settings, `id` the next id of the table. -/
def create (valid : Bool) (id : WorkerId) (data : WorkerData) : Option WorkerId × WorkerState :=
  if valid ∧ data.name ∉ s.table.map Worker.name then
    (some id, { s with table := s.table ++ [(⟨id, data⟩ : Worker)] }.clearCacheByName data.name)
  else (none, s)

def createTemp (valid : Bool) (id : WorkerId) (data : WorkerData) : WorkerState :=
  if valid then
    let s := { s with temps := id :: s.temps }
    match storage with
    | .scalable => (s.redisUpsert [⟨id, data⟩]).clearCacheByName data.name
    | .standalone => { s with memoryById := s.memoryById.put ⟨id, data⟩
                              tempCache := s.tempCache.put ⟨id, data⟩ }
  else s

/-- What follows a change of the row `id`, whose new name is `name`. -/
def afterChange (id : WorkerId) (name : String) : WorkerState :=
  match storage with
  | .scalable => ((s.redisDelete id).clearCache id).clearCacheByName name
  | .standalone => (s.clearCache id).clearCacheByName name

/-- The table with new data in the row `id`. -/
def setRow (id : WorkerId) (data : WorkerData) : WorkerState :=
  { s with table := s.table.map fun w => if w.id = id then ⟨id, data⟩ else w }

def upsertByName (valid : Bool) (id : WorkerId) (data : WorkerData) : WorkerState :=
  if valid then
    match lookupBy Worker.name data.name s.table with
    | some w => (s.setRow w.id data).afterChange storage w.id data.name
    | none => (s.create valid id data).2
  else s

/-- The rest of `update`: the name must not belong to another row. -/
def updateRow (id : WorkerId) (data : WorkerData) : WorkerState :=
  if s.table.any fun w => w.id ≠ id ∧ w.name = data.name then s
  else (s.setRow id data).afterChange storage id data.name

def update (valid : Bool) (id : WorkerId) (data : Option WorkerData) : WorkerState :=
  match data with
  | none => s.clearCache id
  | some data =>
    match storage with
    | .scalable =>
      let found := s.find storage id
      if found.1.isSome ∧ valid then found.2.updateRow storage id data else found.2
    | .standalone => if valid then s.updateRow storage id data else s

def delete (id : WorkerId) : WorkerState :=
  let found := s.find storage id
  match found.1 with
  | some w =>
    { found.2 with table := s.table.filter fun w => w.id ≠ id }.afterChange storage id w.name
  | none => found.2

def deleteTemp (id : WorkerId) : WorkerState :=
  match storage with
  | .scalable =>
    let found := s.find storage id
    let s := (found.2.redisDelete id).clearCache id
    match found.1 with
    | some w => s.clearCacheByName w.name
    | none => s
  | .standalone =>
    let removed := s.tempCache.get id
    let s := { s with tempCache := s.tempCache.clear id }.clearCache id
    match removed with
    | some w => s.clearCacheByName w.name
    | none => s

/-- `delete_all`: the Redis mode clears the cached lists only. -/
def deleteAll : WorkerState :=
  match storage with
  | .scalable => { s with table := [], redisById := ∅, redisByName := ∅ }
  | .standalone => { s with table := [], memoryById := ∅, memoryByName := ∅ }

/-- The rows of a query, copied to Redis one by one (`find_list`, not cached). -/
def findList (query : List Worker → List Worker) : WorkerState :=
  match storage with
  | .scalable => s.redisUpsert ((query s.table).filter (· ∈ s.table))
  | .standalone => s

/-- `find_all_worker_list`, not cached. -/
def findAllWorkerList : List Worker × WorkerState :=
  match storage with
  | .scalable =>
    if s.redisById.entries ≠ [] then (s.redisById.entries, s) else (s.table, s.findList storage id)
  | .standalone => (s.table, s)

def findWorkerIdsByChannel (channel : String) : List WorkerId :=
  ((s.findAllWorkerList storage).1.filter fun w =>
    statusIndexChannel w.data.channel = channel).map Worker.id

def count : ℕ :=
  match storage with
  | .scalable =>
    if s.redisById.entries.length > 0 then s.redisById.entries.length else s.table.length
  | .standalone => s.table.length

end WorkerState

/-- A call, or an expiry: of a copy in memory, or of one of the two hashes. -/
inductive WorkerCall
  | create (valid : Bool) (id : WorkerId) (data : WorkerData)
  | createTemp (valid : Bool) (id : WorkerId) (data : WorkerData)
  | upsertByName (valid : Bool) (id : WorkerId) (data : WorkerData)
  | update (valid : Bool) (id : WorkerId) (data : Option WorkerData)
  | delete (id : WorkerId)
  | deleteTemp (id : WorkerId)
  | deleteAll
  | find (id : WorkerId)
  | findByName (name : String)
  | findList (query : List Worker → List Worker)
  | findAllWorkerList
  | expireMemoryId (id : WorkerId)
  | expireMemoryName (name : String)
  | expireRedisById
  | expireRedisByName

namespace WorkerCall

/-- The state after a call. -/
def run (storage : StorageType) (s : WorkerState) : WorkerCall → WorkerState
  | create valid id data => (s.create valid id data).2
  | createTemp valid id data => s.createTemp storage valid id data
  | upsertByName valid id data => s.upsertByName storage valid id data
  | update valid id data => s.update storage valid id data
  | delete id => s.delete storage id
  | deleteTemp id => s.deleteTemp storage id
  | deleteAll => s.deleteAll storage
  | find id => (s.find storage id).2
  | findByName name => (s.findByName storage name).2
  | findList query => s.findList storage query
  | findAllWorkerList => (s.findAllWorkerList storage).2
  | expireMemoryId id => s.clearCache id
  | expireMemoryName name => s.clearCacheByName name
  | expireRedisById => { s with redisById := ∅ }
  | expireRedisByName => { s with redisByName := ∅ }

/-- A new id is in use neither in the table nor for a temporary worker. -/
def FreshIn (s : WorkerState) : WorkerCall → Prop
  | create _ id _ | createTemp _ id _ | upsertByName _ id _ =>
    id ∉ s.table.map Worker.id ∧ id ∉ s.temps
  | _ => True

/-- A read or an expiry. -/
def isRead : WorkerCall → Bool
  | find _ | findByName _ | findList _ | findAllWorkerList | expireMemoryId _
  | expireMemoryName _ | expireRedisById | expireRedisByName => true
  | _ => false

end WorkerCall

/-! ### Well-formed states and held copies -/

section Calls

variable {storage : StorageType} {s s' : WorkerState} {w : Worker} {id : WorkerId} {name : String}

namespace WorkerState

/-- A worker that is in the table or temporary. -/
def Holds (s : WorkerState) (w : Worker) : Prop := w ∈ s.table ∨ w.id ∈ s.temps

/-- What all calls keep. -/
structure Wf (storage : StorageType) (s : WorkerState) : Prop where
  ids : (s.table.map Worker.id).Nodup
  names : (s.table.map Worker.name).Nodup
  apart : ∀ w ∈ s.table, w.id ∉ s.temps
  redisById : ∀ w ∈ s.redisById, s.Holds w
  tempCache : ∀ w ∈ s.tempCache, w.id ∈ s.temps
  noRedis : storage = .standalone → s.redisById = ∅ ∧ s.redisByName = ∅

/-- No stale copy: every other copy is held, too. -/
structure Coherent (s : WorkerState) : Prop where
  memoryById : ∀ w ∈ s.memoryById, s.Holds w
  memoryByName : ∀ w ∈ s.memoryByName, s.Holds w
  redisByName : ∀ w ∈ s.redisByName, s.Holds w

/-- What a read returns: what the table holds, temporary workers aside. -/
def Returns (s : WorkerState) (found held : Option Worker) : Prop :=
  found = held ∨ ∃ w, found = some w ∧ w.id ∈ s.temps

/-- Held copies are read as the table holds them. -/
theorem returns_readThrough {κ : Type} [DecidableEq κ] {key : Worker → κ}
    (htable : (s.table.map key).Nodup) {redis memory : Copies key}
    (hredis : ∀ w ∈ redis, s.Holds w) (hmemory : ∀ w ∈ memory, s.Holds w) (k : κ) :
    s.Returns (readThrough storage s.table redis memory k).1 (lookupBy key k s.table) := by
  have hspec : ∀ w, (readThrough storage s.table redis memory k).1 = some w →
      s.Holds w ∧ key w = k := (readThrough_spec (fun _ => .inl) hredis hmemory).1
  cases hread : (readThrough storage s.table redis memory k).1 with
  | none => exact .inl (readThrough_none hread).symm
  | some w =>
    obtain ⟨hheld, rfl⟩ := hspec w hread
    rcases hheld with hw | hw
    · exact .inl (lookupBy_of_mem htable hw).symm
    · exact .inr ⟨w, rfl, hw⟩

/-- All reads return what the table holds. -/
def Faithful (storage : StorageType) (s : WorkerState) : Prop :=
  (∀ id, s.Returns (s.find storage id).1 (lookupBy Worker.id id s.table)) ∧
    ∀ name, s.Returns (s.findByName storage name).1 (lookupBy Worker.name name s.table)

theorem Coherent.faithful (hc : s.Coherent) (h : s.Wf storage) :
    s.Faithful storage := by
  refine ⟨fun id => ?_, fun name => returns_readThrough h.names hc.redisByName hc.memoryByName name⟩
  have hread : s.Returns (readThrough storage s.table s.redisById s.memoryById id).1
      (lookupBy Worker.id id s.table) := returns_readThrough h.ids h.redisById hc.memoryById id
  cases storage with
  | scalable => exact hread
  | standalone =>
    rcases hread with heq | ⟨w, hw, htemp⟩
    · show s.Returns ((readThrough _ _ _ _ _).1.or (s.tempCache.get id)) _
      rw [heq]
      cases lookupBy Worker.id id s.table with
      | some w => exact .inl rfl
      | none =>
        cases hget : s.tempCache.get id with
        | none => exact .inl rfl
        | some w => exact .inr ⟨w, rfl, h.tempCache w (lookupBy_eq_some hget).1⟩
    · refine .inr ⟨w, ?_, htemp⟩
      show (readThrough _ _ _ _ _).1.or _ = some w
      rw [hw]
      rfl

/-- A state all of whose later reads are faithful has no stale copy. -/
theorem coherent_of_faithful (h : s.Faithful storage)
    (hexpired : ∀ name, (s.clearCacheByName name).Faithful storage)
    (hstorage : storage = .standalone → s.redisByName = ∅) : s.Coherent := by
  have hholds : ∀ {κ : Type} [DecidableEq κ] {key : Worker → κ} {w : Worker} {found : Option Worker},
      found = some w → s.Returns found (lookupBy key (key w) s.table) → s.Holds w := by
    rintro κ _ key w found rfl (heq | ⟨w', heq, htemp⟩)
    · exact .inl (lookupBy_eq_some heq.symm).1
    · cases heq
      exact .inr htemp
  refine ⟨fun w hw => ?_, fun w hw => ?_, fun w hw => ?_⟩
  · refine hholds ?_ (h.1 w.id)
    have hread : (readThrough storage s.table s.redisById s.memoryById w.id).1 = some w :=
      readThrough_memory hw
    cases storage with
    | scalable => exact hread
    | standalone =>
      show (readThrough _ _ _ _ _).1.or _ = some w
      rw [hread]
      rfl
  · exact hholds (readThrough_memory hw) (h.2 w.name)
  · -- once its copy in memory has expired, the copy in Redis is read
    refine hholds ?_ ((hexpired w.name).2 w.name)
    cases storage with
    | standalone =>
      rw [hstorage rfl] at hw
      exact absurd hw not_mem_empty
    | scalable =>
      have hmemory : (s.memoryByName.clear w.name).get w.name = none := by
        refine List.find?_eq_none.mpr fun w' hw' => ?_
        simpa using (mem_clear.mp hw').2
      have hredis : s.redisByName.get w.name = some w := lookupBy_of_mem s.redisByName.nodup hw
      show (readThrough _ _ s.redisByName (s.memoryByName.clear w.name) w.name).1 = some w
      simp only [readThrough, hmemory, hredis, some_or]

/-! ### Reads -/

theorem find_snd (s : WorkerState) : (s.find storage id).2 = { s with
    memoryById := (readThrough storage s.table s.redisById s.memoryById id).2 } := by
  cases storage <;> rfl

theorem Coherent.find (hc : s.Coherent) (h : s.Wf storage) :
    (s.find storage id).2.Coherent := by
  rw [find_snd]
  exact ⟨(readThrough_spec (P := s.Holds) (fun _ => .inl) h.redisById hc.memoryById).2,
    hc.memoryByName, hc.redisByName⟩

theorem Wf.find (h : s.Wf storage) : (s.find storage id).2.Wf storage := by
  rw [find_snd]
  exact { h with }

theorem find_row (h : s.Wf storage) (hc : s.Coherent) (hw : w ∈ s.table) :
    (s.find storage w.id).1 = some w := by
  rcases (hc.faithful h).1 w.id with heq | ⟨w', heq, htemp⟩
  · rw [heq, lookupBy_of_mem h.ids hw]
  · -- a temporary worker has another id
    have hspec : w'.id = w.id := by
      cases storage with
      | scalable =>
        exact ((readThrough_spec (P := s.Holds) (fun _ => .inl) h.redisById hc.memoryById).1
          w' heq).2
      | standalone =>
        rcases or_eq_some_iff.mp heq with heq | ⟨-, heq⟩
        · exact ((readThrough_spec (P := s.Holds) (fun _ => .inl) h.redisById hc.memoryById).1
            w' heq).2
        · exact (lookupBy_eq_some heq).2
    exact absurd (hspec ▸ htemp) (h.apart w hw)

/-! ### Changes of a row -/

/-- The names in Redis once the copies of a row are deleted. -/
def redisNamesAfter (s : WorkerState) (id : WorkerId) : Copies Worker.name :=
  match s.redisById.get id with
  | some w => s.redisByName.clear w.name
  | none => s.redisByName

theorem redisDelete_eq (s : WorkerState) (id : WorkerId) : s.redisDelete id =
    { s with redisByName := s.redisNamesAfter id, redisById := s.redisById.clear id } := by
  unfold redisDelete redisNamesAfter
  split
  · rfl
  · rename_i hnone
    have hclear : s.redisById.clear id = s.redisById :=
      Copies.ext (filter_eq_self.mpr fun w hw => by simpa using lookupBy_eq_none hnone hw)
    rw [hclear]

theorem afterChange_eq (hredis : storage = .standalone →
      s.redisById = ∅ ∧ s.redisByName = ∅) : s.afterChange storage id name =
    { s with redisByName := s.redisNamesAfter id
             redisById := s.redisById.clear id
             memoryById := s.memoryById.clear id
             memoryByName := s.memoryByName.clear name } := by
  cases storage with
  | scalable =>
    unfold afterChange
    rw [redisDelete_eq]
    rfl
  | standalone =>
    obtain ⟨hid, hname⟩ := hredis rfl
    unfold redisNamesAfter
    rw [hid, hname]
    obtain ⟨table, redisById, redisByName, memoryById, memoryByName, tempCache, temps⟩ := s
    cases hid
    cases hname
    rfl

/-- The row under the id has a copy in Redis under its name only, or in memory under a name
which is not the new one. -/
def KeepsCopy (s : WorkerState) (w : Worker) (name : String) : Prop :=
  (w.name ≠ name ∧ w ∈ s.memoryByName) ∨ (w ∈ s.redisByName ∧ w ∉ s.redisById)

theorem mem_redisNamesAfter (h : s.Wf storage) (hw : w ∈ s.table) :
    w ∈ s.redisNamesAfter w.id ↔ w ∈ s.redisByName ∧ w ∉ s.redisById := by
  unfold redisNamesAfter
  split
  · rename_i w' hget
    obtain ⟨hmem, hid⟩ := lookupBy_eq_some hget
    have heq : w' = w := by
      rcases h.redisById w' hmem with hw' | htemp
      · exact inj_on_of_nodup_map h.ids hw' hw hid
      · exact absurd (hid ▸ htemp) (h.apart w hw)
    subst heq
    have hin : w' ∈ s.redisById := hmem
    simp [mem_clear, hin]
  · rename_i hnone
    have hnot : w ∉ s.redisById := fun hw' => lookupBy_eq_none hnone hw' rfl
    simp [hnot]

theorem forall_redisNamesAfter {P : Worker → Prop} (h : ∀ w ∈ s.redisByName, P w) :
    ∀ w ∈ s.redisNamesAfter id, P w := by
  unfold redisNamesAfter
  split
  · exact forall_clear h
  · exact h

variable {table : List Worker} {data : WorkerData} {valid : Bool}

/-- **A change of a row** leaves no stale copy if and only if all copies of the old row are
found by the deletions. -/
theorem coherent_afterChange_iff (h : s.Wf storage) (hc : s.Coherent)
    (hw : w ∈ s.table) (hw' : w ∉ table) (hrows : ∀ e ∈ s.table, e ≠ w → e ∈ table) :
    ({ s with table := table }.afterChange storage w.id name).Coherent ↔ ¬ s.KeepsCopy w name := by
  rw [afterChange_eq (s := { s with table := table }) h.noRedis]
  have hstale : ¬ Holds { s with table := table } w := by
    rintro (hmem | htemp)
    · exact hw' hmem
    · exact h.apart w hw htemp
  have hother : ∀ e, e ≠ w → s.Holds e → Holds { s with table := table } e :=
    fun e hne he => he.imp_left fun hmem => hrows e hmem hne
  constructor
  · rintro hcoherent (⟨hname, hmem⟩ | hredis)
    · exact hstale (hcoherent.memoryByName w (mem_clear.mpr ⟨hmem, hname⟩))
    · exact hstale (hcoherent.redisByName w ((mem_redisNamesAfter h hw).mpr hredis))
  · intro hno
    refine ⟨fun e he => ?_, fun e he => ?_, fun e he => ?_⟩
    · obtain ⟨he, hid⟩ := mem_clear.mp he
      exact hother e (fun heq => hid (heq ▸ rfl)) (hc.memoryById e he)
    · obtain ⟨he, hname⟩ := mem_clear.mp he
      exact hother e (fun heq => hno (.inl ⟨heq ▸ hname, heq ▸ he⟩)) (hc.memoryByName e he)
    · refine hother e ?_ (forall_redisNamesAfter hc.redisByName e he)
      rintro rfl
      exact hno (.inr ((mem_redisNamesAfter h hw).mp he))

/-- What was held is held: the same copies are not stale. -/
theorem Coherent.held {temps : List WorkerId} (hc : s.Coherent)
    (hheld : ∀ w, s.Holds w → Holds { s with table := table, temps := temps } w) :
    Coherent { s with table := table, temps := temps } :=
  ⟨fun w hw => hheld w (hc.memoryById w hw), fun w hw => hheld w (hc.memoryByName w hw),
    fun w hw => hheld w (hc.redisByName w hw)⟩

/-- Deleting copies leaves no stale copy if no row is lost. -/
theorem Coherent.afterChange (hc : s.Coherent) (h : s.Wf storage)
    (hrows : ∀ e ∈ s.table, e ∈ table) :
    ({ s with table := table }.afterChange storage id name).Coherent := by
  rw [afterChange_eq (s := { s with table := table }) h.noRedis]
  have hheld : Coherent { s with table := table } := hc.held fun e he => he.imp_left (hrows e)
  exact ⟨forall_clear hheld.memoryById, forall_clear hheld.memoryByName,
    forall_redisNamesAfter hheld.redisByName⟩

/-! ### Every call -/

/-- Deleting the copies of an id: the other rows must stay. -/
theorem Wf.afterChange (h : s.Wf storage)
    (hids : (table.map Worker.id).Nodup) (hnames : (table.map Worker.name).Nodup)
    (hapart : ∀ w ∈ table, w.id ∉ s.temps) (hrows : ∀ w ∈ s.table, w.id ≠ id → w ∈ table) :
    ({ s with table := table }.afterChange storage id name).Wf storage := by
  rw [afterChange_eq (s := { s with table := table }) h.noRedis]
  refine ⟨hids, hnames, hapart, fun w hw => ?_, h.tempCache, fun hs => ?_⟩
  · obtain ⟨hw, hne⟩ := mem_clear.mp hw
    exact (h.redisById w hw).imp_left fun hmem => hrows w hmem hne
  · obtain ⟨hid, hname⟩ := h.noRedis hs
    simp only [redisNamesAfter, hid, hname]
    exact ⟨rfl, rfl⟩

/-- The table of a changed row: its ids and names are still distinct. -/
theorem Wf.setRow (h : s.Wf storage)
    (hname : ∀ w ∈ s.table, w.id ≠ id → w.name ≠ data.name) :
    ((s.setRow id data).afterChange storage id name).Wf storage := by
  have hid : ∀ w : Worker, (if w.id = id then ⟨id, data⟩ else w : Worker).id = w.id := by
    intro w
    split_ifs with heq
    · exact heq.symm
    · rfl
  refine h.afterChange ?_ ?_ (fun w hw => ?_) fun w hw hne => mem_map.mpr ⟨w, hw, if_neg hne⟩
  · have hids : (s.setRow id data).table.map Worker.id = s.table.map Worker.id := by
      rw [WorkerState.setRow, List.map_map]
      exact map_congr_left fun w _ => hid w
    exact hids ▸ h.ids
  · rw [List.map_map]
    refine List.Nodup.map_on (fun w hw w' hw' heq => ?_) (List.Nodup.of_map _ h.ids)
    simp only [Function.comp_apply] at heq
    split_ifs at heq with h1 h2 h2
    · exact inj_on_of_nodup_map h.ids hw hw' (h1.trans h2.symm)
    · exact absurd heq.symm (hname w' hw' h2)
    · exact absurd heq (hname w hw h1)
    · exact inj_on_of_nodup_map h.names hw hw' heq
  · obtain ⟨w, hw', rfl⟩ := mem_map.mp hw
    rw [hid]
    exact h.apart w hw'

/-- No other row has the name. -/
def NameFree (s : WorkerState) (id : WorkerId) (name : String) : Prop :=
  ∀ w ∈ s.table, w.id ≠ id → w.name ≠ name

theorem updateRow_cases (s : WorkerState) (storage : StorageType) (id : WorkerId)
    (data : WorkerData) : (¬ s.NameFree id data.name ∧ s.updateRow storage id data = s) ∨
      (s.NameFree id data.name ∧
        s.updateRow storage id data = (s.setRow id data).afterChange storage id data.name) := by
  unfold updateRow
  split_ifs with htaken
  · obtain ⟨w, hw, htaken⟩ := any_eq_true.mp htaken
    obtain ⟨hne, heq⟩ := of_decide_eq_true htaken
    exact .inl ⟨fun hfree => hfree w hw hne heq, rfl⟩
  · exact .inr ⟨fun w hw hne heq => htaken (any_eq_true.mpr ⟨w, hw, by simp [hne, heq]⟩), rfl⟩

section

variable (h : s.Wf storage)

include h

theorem Wf.updateRow (data : WorkerData) :
    (s.updateRow storage id data).Wf storage := by
  rcases s.updateRow_cases storage id data with ⟨-, heq⟩ | ⟨hfree, heq⟩
  · rwa [heq]
  · rw [heq]
    exact h.setRow hfree

theorem Wf.create (hfresh : id ∉ s.table.map Worker.id ∧ id ∉ s.temps) :
    (s.create valid id data).2.Wf storage := by
  unfold WorkerState.create
  split_ifs with hnew
  · refine ⟨?_, ?_, fun w hw => ?_, fun w hw => ?_, h.tempCache, h.noRedis⟩
    · show ((s.table ++ [_]).map Worker.id).Nodup
      rw [map_append]
      exact h.ids.append (nodup_singleton _) (by simpa using hfresh.1)
    · show ((s.table ++ [_]).map Worker.name).Nodup
      rw [map_append]
      exact h.names.append (nodup_singleton _) (by simpa [Worker.name] using hnew.2)
    · rcases mem_append.mp hw with hw | hw
      · exact h.apart w hw
      · rw [mem_singleton.mp hw]
        exact hfresh.2
    · exact (h.redisById w hw).imp_left (mem_append_left _)
  · exact h

theorem Wf.createTemp
    (hfresh : id ∉ s.table.map Worker.id) : (s.createTemp storage valid id data).Wf storage := by
  have hapart : ∀ w ∈ s.table, w.id ∉ id :: s.temps := fun w hw htemp =>
    (mem_cons.mp htemp).elim (fun heq => hfresh (heq ▸ mem_map_of_mem hw))
      (h.apart w hw)
  have hredis : ∀ w ∈ s.redisById, w ∈ s.table ∨ w.id ∈ id :: s.temps :=
    fun w hw => (h.redisById w hw).imp_right (mem_cons_of_mem _)
  have htemps : ∀ w ∈ s.tempCache, w.id ∈ id :: s.temps :=
    fun w hw => mem_cons_of_mem _ (h.tempCache w hw)
  unfold WorkerState.createTemp
  split_ifs
  · cases storage with
    | scalable =>
      exact ⟨h.ids, h.names, hapart, forall_put hredis (.inr mem_cons_self), htemps, nofun⟩
    | standalone =>
      exact ⟨h.ids, h.names, hapart, hredis, forall_put htemps mem_cons_self, h.noRedis⟩
  · exact h

theorem Wf.delete (id : WorkerId) : (s.delete storage id).Wf storage := by
  unfold WorkerState.delete
  dsimp only
  split
  · have hsub : (s.table.filter fun w => w.id ≠ id).Sublist s.table := filter_sublist
    have hfind : (s.find storage id).2.Wf storage := h.find
    rw [find_snd] at hfind ⊢
    refine hfind.afterChange (h.ids.sublist (hsub.map _)) (h.names.sublist (hsub.map _))
      (fun w hw => h.apart w (hsub.subset hw)) fun w hw hne => ?_
    exact mem_filter.mpr ⟨hw, by simpa using hne⟩
  · exact h.find

theorem Wf.deleteTemp (id : WorkerId) : (s.deleteTemp storage id).Wf storage := by
  unfold WorkerState.deleteTemp
  cases storage with
  | scalable =>
    have hredis : ((s.find .scalable id).2.redisDelete id).Wf .scalable := by
      rw [redisDelete_eq, find_snd]
      exact { h with
        redisById := forall_clear h.redisById, noRedis := nofun }
    dsimp only
    split <;> exact { hredis with }
  | standalone =>
    dsimp only
    split <;> exact { h with tempCache := forall_clear h.tempCache }

theorem Wf.findList (query : List Worker → List Worker) :
    (s.findList storage query).Wf storage := by
  cases storage with
  | standalone => exact h
  | scalable =>
    refine ⟨h.ids, h.names, h.apart, forall_foldl_put h.redisById fun w hw => ?_,
      h.tempCache, nofun⟩
    exact .inl (of_decide_eq_true (mem_filter.mp hw).2)

theorem coherent_setRow_iff (hc : s.Coherent) (hw : w ∈ s.table)
    (data : WorkerData) : ((s.setRow w.id data).afterChange storage w.id data.name).Coherent ↔
      ¬ (w.data ≠ data ∧ s.KeepsCopy w data.name) := by
  have hother : ∀ e ∈ s.table, e ≠ w → e ∈ (s.setRow w.id data).table := fun e he hne =>
    mem_map.mpr ⟨e, he, if_neg fun hid => hne (inj_on_of_nodup_map h.ids he hw hid)⟩
  by_cases hdata : w.data = data
  · refine iff_of_true (hc.afterChange h fun e he => ?_) fun hno => hno.1 hdata
    by_cases heq : e = w
    · subst heq hdata
      exact mem_map.mpr ⟨e, he, if_pos rfl⟩
    · exact hother e he heq
  · have hgone : w ∉ (s.setRow w.id data).table := by
      intro hmem
      obtain ⟨e, -, heq⟩ := mem_map.mp hmem
      split_ifs at heq with hid
      · exact hdata (congrArg Worker.data heq).symm
      · exact hid (congrArg Worker.id heq)
    rw [and_iff_right hdata]
    exact coherent_afterChange_iff h hc hw hgone hother

theorem coherent_updateRow_iff (hc : s.Coherent)
    (data : WorkerData) : (s.updateRow storage id data).Coherent ↔
      ¬ (s.NameFree id data.name ∧
        ∃ w ∈ s.table, w.id = id ∧ w.data ≠ data ∧ s.KeepsCopy w data.name) := by
  rcases s.updateRow_cases storage id data with ⟨htaken, heq⟩ | ⟨hfree, heq⟩
  · rw [heq]
    exact iff_of_true hc fun hno => htaken hno.1
  · rw [heq, and_iff_right hfree]
    by_cases hrow : ∃ w ∈ s.table, w.id = id
    · obtain ⟨w, hw, rfl⟩ := hrow
      rw [coherent_setRow_iff h hc hw]
      refine not_congr ⟨fun hno => ⟨w, hw, rfl, hno⟩, ?_⟩
      rintro ⟨w', hw', hid, hno⟩
      rwa [← inj_on_of_nodup_map h.ids hw' hw hid]
    · refine iff_of_true (hc.afterChange h fun e he => ?_) fun ⟨w, hw, hid, _⟩ => hrow ⟨w, hw, hid⟩
      exact mem_map.mpr ⟨e, he, if_neg fun hid => hrow ⟨e, he, hid⟩⟩

theorem coherent_delete_iff (hc : s.Coherent) (id : WorkerId) :
    (s.delete storage id).Coherent ↔ ¬ ∃ w ∈ s.table, w.id = id ∧ s.KeepsCopy w w.name := by
  have hfind : (s.find storage id).2.Coherent := hc.find h
  have hwf : (s.find storage id).2.Wf storage := h.find
  unfold WorkerState.delete
  dsimp only
  rw [find_snd] at hfind hwf ⊢
  by_cases hrow : ∃ w ∈ s.table, w.id = id
  · obtain ⟨w, hw, rfl⟩ := hrow
    simp only [find_row h hc hw]
    refine (coherent_afterChange_iff hwf hfind hw ?_ fun e he hne => ?_).trans
      (not_congr ⟨fun hno => ⟨w, hw, rfl, hno⟩, ?_⟩)
    · simp
    · exact mem_filter.mpr ⟨he, by
        simpa using fun hid => hne (inj_on_of_nodup_map h.ids he hw hid)⟩
    · rintro ⟨w', hw', hid, hno⟩
      rwa [inj_on_of_nodup_map h.ids hw' hw hid] at hno
  · refine iff_of_true ?_ fun ⟨w, hw, hid, _⟩ => hrow ⟨w, hw, hid⟩
    split
    · refine hfind.afterChange hwf fun e he => mem_filter.mpr ⟨he, ?_⟩
      simpa using fun hid => hrow ⟨e, he, hid⟩
    · exact hfind

end

theorem Coherent.findList (hc : s.Coherent) (query : List Worker → List Worker) :
    (s.findList storage query).Coherent := by
  cases storage with
  | standalone => exact hc
  | scalable =>
    refine { hc with redisByName := forall_foldl_put hc.redisByName fun w hw => ?_ }
    exact .inl (of_decide_eq_true (mem_filter.mp hw).2)

theorem Coherent.create (hc : s.Coherent) : (s.create valid id data).2.Coherent := by
  unfold WorkerState.create
  split_ifs
  · have hheld : Coherent { s with table := s.table ++ [⟨id, data⟩] } :=
      hc.held fun w hw => hw.imp_left (mem_append_left _)
    exact { hheld with memoryByName := forall_clear hheld.memoryByName }
  · exact hc

theorem Coherent.createTemp (hc : s.Coherent) :
    (s.createTemp storage valid id data).Coherent := by
  have hheld : Coherent { s with temps := id :: s.temps } :=
    hc.held fun w hw => hw.imp_right (mem_cons_of_mem _)
  unfold WorkerState.createTemp
  split_ifs
  · cases storage with
    | scalable =>
      exact ⟨hheld.memoryById, forall_clear hheld.memoryByName,
        forall_put hheld.redisByName (.inr mem_cons_self)⟩
    | standalone =>
      exact { hheld with memoryById := forall_put hheld.memoryById (.inr mem_cons_self) }
  · exact hc

theorem Coherent.deleteTemp (hc : s.Coherent) (h : s.Wf storage) (id : WorkerId) :
    (s.deleteTemp storage id).Coherent := by
  unfold WorkerState.deleteTemp
  cases storage with
  | scalable =>
    have hfind : (s.find .scalable id).2.Coherent := hc.find h
    dsimp only
    rw [redisDelete_eq]
    have hredis : ∀ w ∈ (s.find .scalable id).2.redisNamesAfter id, s.Holds w :=
      forall_redisNamesAfter hfind.redisByName
    split
    · exact ⟨forall_clear hfind.memoryById, forall_clear hfind.memoryByName, hredis⟩
    · exact ⟨forall_clear hfind.memoryById, hfind.memoryByName, hredis⟩
  | standalone =>
    dsimp only
    split
    · exact ⟨forall_clear hc.memoryById, forall_clear hc.memoryByName, hc.redisByName⟩
    · exact { hc with memoryById := forall_clear hc.memoryById }

theorem coherent_deleteAll_iff (h : s.Wf storage) (hc : s.Coherent) :
    (s.deleteAll storage).Coherent ↔
      ¬ (storage = .scalable ∧ ∃ w ∈ s.table, w ∈ s.memoryById ∨ w ∈ s.memoryByName) := by
  cases storage with
  | standalone =>
    refine iff_of_true ⟨forall_empty, forall_empty, fun w hw => ?_⟩ fun hno =>
      (nomatch hno.1)
    have hw : w ∈ s.redisByName := hw
    rw [(h.noRedis rfl).2] at hw
    exact absurd hw not_mem_empty
  | scalable =>
    have hheld : ∀ w, s.Holds w → w ∉ s.table → (s.deleteAll .scalable).Holds w :=
      fun w hw hrow => .inr (hw.resolve_left hrow)
    have hstale : ∀ w ∈ s.table, ¬ (s.deleteAll .scalable).Holds w := by
      rintro w hw (hmem | htemp)
      · exact not_mem_nil hmem
      · exact h.apart w hw htemp
    rw [and_iff_right rfl]
    constructor
    · rintro hcoherent ⟨w, hw, hmem | hmem⟩
      · exact hstale w hw (hcoherent.memoryById w hmem)
      · exact hstale w hw (hcoherent.memoryByName w hmem)
    · intro hno
      exact ⟨fun w hw => hheld w (hc.memoryById w hw) fun hrow => hno ⟨w, hrow, .inl hw⟩,
        fun w hw => hheld w (hc.memoryByName w hw) fun hrow => hno ⟨w, hrow, .inr hw⟩,
        forall_empty⟩

end WorkerState

/-- **Every call keeps the state well-formed.** -/
theorem WorkerCall.wf_run (h : s.Wf storage) (c : WorkerCall) (hfresh : c.FreshIn s) :
    (c.run storage s).Wf storage := by
  cases c with
  | create valid id data => exact h.create hfresh
  | createTemp valid id data => exact h.createTemp hfresh.1
  | upsertByName valid id data =>
    show (s.upsertByName storage valid id data).Wf storage
    unfold WorkerState.upsertByName
    split_ifs
    · split
      · rename_i w hw
        obtain ⟨hw, hname⟩ := lookupBy_eq_some hw
        refine h.setRow fun w' hw' hne heq => hne ?_
        rw [inj_on_of_nodup_map h.names hw' hw (heq.trans hname.symm)]
      · exact h.create hfresh
    · exact h
  | update valid id data =>
    cases data with
    | none => exact { h with }
    | some data =>
      cases storage with
      | standalone =>
        show (if _ then _ else _ : WorkerState).Wf _
        split_ifs
        · exact h.updateRow data
        · exact h
      | scalable =>
        show (if _ then _ else _ : WorkerState).Wf _
        split_ifs
        · exact h.find.updateRow data
        · exact h.find
  | delete id => exact h.delete id
  | deleteTemp id => exact h.deleteTemp id
  | deleteAll =>
    cases storage with
    | scalable =>
      exact ⟨nodup_nil, nodup_nil, by simp [run, WorkerState.deleteAll],
        forall_empty, h.tempCache, nofun⟩
    | standalone =>
      refine ⟨nodup_nil, nodup_nil, by simp [run, WorkerState.deleteAll],
        fun w hw => ?_, h.tempCache, h.noRedis⟩
      have hw : w ∈ s.redisById := hw
      rw [(h.noRedis rfl).1] at hw
      exact absurd hw not_mem_empty
  | find id => exact h.find
  | findList query => exact h.findList query
  | findAllWorkerList =>
    cases storage with
    | standalone => exact h
    | scalable =>
      show (if _ then _ else _ : List Worker × WorkerState).2.Wf _
      split_ifs
      · exact h
      · exact h.findList id
  | expireRedisById =>
    exact { h with
      redisById := forall_empty
      noRedis := fun hs => ⟨rfl, (h.noRedis hs).2⟩ }
  | expireRedisByName => exact { h with noRedis := fun hs => ⟨(h.noRedis hs).1, rfl⟩ }
  | findByName _ | expireMemoryId _ | expireMemoryName _ => exact { h with }

/-! ### Stale copies -/

/-- The call changes or deletes a row and leaves a copy of it. -/
def WorkerCall.LeavesStale (storage : StorageType) (s : WorkerState) : WorkerCall → Prop
  | upsertByName valid _ data => valid ∧
      ∃ w ∈ s.table, w.name = data.name ∧ w.data ≠ data ∧ s.KeepsCopy w data.name
  | update valid id (some data) => valid ∧ s.NameFree id data.name ∧
      ∃ w ∈ s.table, w.id = id ∧ w.data ≠ data ∧ s.KeepsCopy w data.name
  | delete id => ∃ w ∈ s.table, w.id = id ∧ s.KeepsCopy w w.name
  | deleteAll => storage = .scalable ∧ ∃ w ∈ s.table, w ∈ s.memoryById ∨ w ∈ s.memoryByName
  | _ => False

/-- **Every call** leaves no stale copy if and only if it is none of the listed ones. -/
theorem WorkerCall.coherent_run_iff (h : s.Wf storage) (hc : s.Coherent) (c : WorkerCall) :
    (c.run storage s).Coherent ↔ ¬ c.LeavesStale storage s := by
  cases c with
  | create valid id data => exact iff_of_true hc.create not_false
  | createTemp valid id data => exact iff_of_true hc.createTemp not_false
  | upsertByName valid id data =>
    show (s.upsertByName storage valid id data).Coherent ↔ _
    unfold WorkerState.upsertByName
    simp only [LeavesStale]
    split_ifs with hvalid
    · rw [and_iff_right hvalid]
      split
      · rename_i w hw
        obtain ⟨hw, hname⟩ := lookupBy_eq_some hw
        rw [WorkerState.coherent_setRow_iff h hc hw]
        refine not_congr ⟨fun hno => ⟨w, hw, hname, hno⟩, ?_⟩
        rintro ⟨w', hw', hname', hno⟩
        rwa [← inj_on_of_nodup_map h.names hw' hw (hname'.trans hname.symm)]
      · rename_i hnone
        exact iff_of_true hc.create fun ⟨w, hw, hname, _⟩ => lookupBy_eq_none hnone hw hname
    · exact iff_of_true hc fun hno => hvalid hno.1
  | update valid id data =>
    cases data with
    | none =>
      exact iff_of_true { hc with memoryById := forall_clear hc.memoryById } not_false
    | some data =>
      cases storage with
      | standalone =>
        show (if _ then _ else _ : WorkerState).Coherent ↔ _
        simp only [LeavesStale]
        split_ifs with hvalid
        · rw [and_iff_right hvalid, WorkerState.coherent_updateRow_iff h hc]
        · exact iff_of_true hc fun hno => hvalid hno.1
      | scalable =>
        have hfind : (s.find .scalable id).2.Coherent := hc.find h
        show (if _ then _ else _ : WorkerState).Coherent ↔ _
        simp only [LeavesStale]
        split_ifs with hdone
        · rw [and_iff_right hdone.2, WorkerState.coherent_updateRow_iff h.find hfind,
            WorkerState.find_snd]
          rfl
        · refine iff_of_true hfind fun ⟨hvalid, _, w, hw, hid, _⟩ => hdone ⟨?_, hvalid⟩
          rw [← hid, WorkerState.find_row h hc hw]
          rfl
  | delete id => exact WorkerState.coherent_delete_iff h hc id
  | deleteTemp id => exact iff_of_true (hc.deleteTemp h id) not_false
  | deleteAll => exact WorkerState.coherent_deleteAll_iff h hc
  | find id => exact iff_of_true (hc.find h) not_false
  | findByName name =>
    refine iff_of_true ⟨hc.memoryById, ?_, hc.redisByName⟩ not_false
    exact (readThrough_spec (P := s.Holds) (fun _ => .inl) hc.redisByName hc.memoryByName).2
  | findList query => exact iff_of_true (hc.findList query) not_false
  | findAllWorkerList =>
    refine iff_of_true ?_ not_false
    cases storage with
    | standalone => exact hc
    | scalable =>
      show (if _ then _ else _ : List Worker × WorkerState).2.Coherent
      split_ifs
      · exact hc
      · show (s.findList .scalable fun rows => rows).Coherent
        exact hc.findList _
  | expireMemoryId id =>
    exact iff_of_true { hc with memoryById := forall_clear hc.memoryById } not_false
  | expireMemoryName name =>
    exact iff_of_true { hc with memoryByName := forall_clear hc.memoryByName } not_false
  | expireRedisById => exact iff_of_true { hc with } not_false
  | expireRedisByName =>
    exact iff_of_true { hc with redisByName := forall_empty } not_false

end Calls

/-! ### Runs -/

section Runs

variable {storage : StorageType} {s : WorkerState}

def WorkerState.runs (storage : StorageType) (s : WorkerState) (calls : List WorkerCall) :
    WorkerState :=
  calls.foldl (fun s c => c.run storage s) s

/-- New ids are new along a run. -/
def FreshRun (storage : StorageType) (s : WorkerState) : List WorkerCall → Prop
  | [] => True
  | c :: calls => c.FreshIn s ∧ FreshRun storage (c.run storage s) calls

/-- No call of a run leaves a stale copy. -/
def NoStale (storage : StorageType) (s : WorkerState) : List WorkerCall → Prop
  | [] => True
  | c :: calls => ¬ c.LeavesStale storage s ∧ NoStale storage (c.run storage s) calls

theorem WorkerState.wf_default : (default : WorkerState).Wf storage :=
  ⟨nodup_nil, nodup_nil, fun _ hw => absurd hw not_mem_nil,
    forall_empty, forall_empty, fun _ => ⟨rfl, rfl⟩⟩

theorem WorkerState.coherent_default : (default : WorkerState).Coherent :=
  ⟨forall_empty, forall_empty, forall_empty⟩

variable {calls : List WorkerCall}

theorem WorkerState.wf_runs (h : s.Wf storage)
    (hfresh : FreshRun storage s calls) : (s.runs storage calls).Wf storage := by
  induction calls generalizing s with
  | nil => exact h
  | cons c calls ih => exact ih (c.wf_run h hfresh.1) hfresh.2

/-- Reads and expiries keep a state without stale copies so. -/
theorem WorkerState.Coherent.reads (hc : s.Coherent) (h : s.Wf storage) {reads : List WorkerCall}
    (hreads : ∀ c ∈ reads, c.isRead) : (s.runs storage reads).Faithful storage := by
  induction reads generalizing s with
  | nil => exact hc.faithful h
  | cons c reads ih =>
    have hread : c.isRead := hreads c mem_cons_self
    have hfresh : c.FreshIn s := by cases c <;> trivial
    have hkeeps : ¬ c.LeavesStale storage s := by cases c <;> first | exact not_false | cases hread
    exact ih ((c.coherent_run_iff h hc).mpr hkeeps) (c.wf_run h hfresh)
      fun c hc => hreads c (mem_cons_of_mem _ hc)

theorem faithful_runs_iff (h : s.Wf storage) (hc : s.Coherent) (hfresh : FreshRun storage s calls) :
    (∀ done, done <+: calls → ∀ reads : List WorkerCall, (∀ c ∈ reads, c.isRead) →
      (s.runs storage (done ++ reads)).Faithful storage) ↔ NoStale storage s calls := by
  induction calls generalizing s with
  | nil =>
    refine iff_of_true (fun done hdone reads hreads => ?_) trivial
    rw [prefix_nil.mp hdone]
    exact hc.reads h hreads
  | cons c calls ih =>
    have hwf : (c.run storage s).Wf storage := c.wf_run h hfresh.1
    constructor
    · intro hall
      -- the reads right after the call show all its copies
      have hafter : ∀ reads : List WorkerCall, (∀ c ∈ reads, c.isRead) →
          ((c.run storage s).runs storage reads).Faithful storage :=
        hall [c] (cons_prefix_cons.mpr ⟨rfl, nil_prefix⟩)
      have hcoherent : (c.run storage s).Coherent :=
        WorkerState.coherent_of_faithful (hafter [] (fun _ hc => absurd hc not_mem_nil))
          (fun name => hafter [.expireMemoryName name] (by simp [WorkerCall.isRead]))
          fun hs => (hwf.noRedis hs).2
      refine ⟨(c.coherent_run_iff h hc).mp hcoherent, (ih hwf hcoherent hfresh.2).mp ?_⟩
      exact fun done hdone => hall (c :: done) (cons_prefix_cons.mpr ⟨rfl, hdone⟩)
    · rintro ⟨hkeeps, hrest⟩ done hdone reads hreads
      rcases prefix_cons_iff.mp hdone with rfl | ⟨done, rfl, hdone⟩
      · exact hc.reads h hreads
      · exact (ih hwf ((c.coherent_run_iff h hc).mpr hkeeps) hfresh.2).mpr hrest done
          (cons_prefix_cons.mp hdone).2 reads hreads

/-- A worker of the name alone. -/
def namedWorker (name : String) : WorkerData := { (default : WorkerData) with name }

/-- A worker that is read by its name and changed. -/
def readAndUpdated (data : WorkerData) : List WorkerCall :=
  [.create true ⟨1⟩ (namedWorker "a"), .findByName "a", .update true ⟨1⟩ (some data)]

/-- A renamed worker is found by its old name. -/
theorem renamed_found_by_old_name (storage : StorageType) :
    let s := (default : WorkerState).runs storage (readAndUpdated (namedWorker "b"))
    lookupBy Worker.name "a" s.table = none ∧
      (s.findByName storage "a").1 = some ⟨⟨1⟩, namedWorker "a"⟩ := by
  cases storage <;> decide

end Runs

end Jobworkerp
