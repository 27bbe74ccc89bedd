/-
Jobworkerp/Status.lean

The live status repository (`infra/job/status`), the authoritative state of
every queue attempt.

Both backends implement the same trait and are atomic in the same place, the
compare-and-set, but not in the same way.  The in-memory map compares and
reports the conflicting record under one lock.  The Redis script only answers
yes or no, and the conflicting record is read afterwards, by which time it may
be another one or gone.  `upsert_status` is not atomic in either backend: it
reads the attempt number and writes it back.

The RDB index of the same data is only ever written on a best-effort basis.
-/
import Jobworkerp.Effect

namespace Jobworkerp

open Interleaving Prog

/-- `StorageType`: in-memory status and channels over an RDB, or Redis. -/
inductive StorageType
  | standalone | scalable
  deriving DecidableEq, Repr, Inhabited

/-- The configuration of the application the functions below are methods of. -/
structure App where
  storage : StorageType
  /-- Is the RDB status index configured and enabled? -/
  indexing : Bool
  /-- `JobQueueConfig::fetch_interval`. -/
  fetchInterval : UInt32
  /-- The single-precision arithmetic of an exponential retry policy. -/
  expo : UInt32 → UInt32 → UInt32 → UInt32
  deriving Inhabited

def findStatusRecord : M (Option JobProcessingStatusRecord) := invoke .getStatus

def deleteStatus : M Bool := invoke .deleteStatus

/-- `upsert_status`: the attempt number is kept, or starts at 0.  The map
reports whether there was a record, `HSET` whether there was none. -/
def upsertStatus (app : App) (status : JobProcessingStatus) : M Bool := do
  let record ← findStatusRecord
  let existed ← invoke (.putStatus ⟨status, (record.map (·.retried)).getD 0⟩)
  match app.storage with
  | .standalone => pure existed
  | .scalable => pure !existed

def compareAndSetStatus (app : App) (expected next : Option JobProcessingStatusRecord) :
    M StatusTransitionResult :=
  match app.storage with
  | .standalone => invoke (.compareAndSetEntry expected next)
  | .scalable => do
      if ← invoke (.compareAndSetScript expected next) then
        pure .applied
      else
        -- not atomic with the script
        return .conflict (← findStatusRecord)

/-- A write to the status index: skipped without an index, and a failure is
only logged. -/
def bestEffortIndex (app : App) (op : Op) : M Unit :=
  when app.indexing (invoke op).ignore

end Jobworkerp
